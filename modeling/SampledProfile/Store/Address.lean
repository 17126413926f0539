/-
# Addresses of table stores

The path of a store may be an address.  It then begins with `file:`, may name this machine behind
two slashes, and ends at the first `#`.  Behind a question mark there are options, with `&` between
them.  A percent sign with two hexadecimal digits stands for a byte, and what follows a byte of
value zero is left out.  Any other path stands for itself.

The options that matter say what may be done with the file (`mode`), how others are kept away from
it (`vfs`, `nolock`), and whether it may be taken to stay as it is (`immutable`).  Where one of
the first two has a value that there is not, there is no store.  An address may also stand for
tables that are kept in no file (`Address.isPrivate`).
-/
import SampledProfile.Fault
import SampledProfile.Text.Numeral

namespace SampledProfile

/-- What may be done with the file of a store. -/
inductive Access where
  | readOnly
  | readWrite
  /-- The file is made if it is not there. -/
  | create
  /-- There is no file. -/
  | memory
  deriving DecidableEq

/-- How others are kept away from the file of a store. -/
inductive Locking where
  | ranges
  | exclusive
  | nothing
  /-- By something that stands beside the file. -/
  | beside
  /-- There is no file. -/
  | memory
  deriving DecidableEq

/-- What the path of a store says. -/
structure Address where
  path : String
  access : Access
  locking : Locking
  /-- May others be left out of account? -/
  isUnlocked : Bool
  /-- May the file be taken to stay as it is? -/
  isFrozen : Bool
  deriving DecidableEq

namespace Address

/-! ## 1. Bytes -/

/-- The byte that two digits stand for. -/
def byte? (high low : Char) : Option UInt8 := do
  return UInt8.ofNat (16 * (← Text.hexDigit? high) + (← Text.hexDigit? low))

/-- The bytes of some characters, with percent signs resolved. -/
def bytesOf : List Char → List UInt8
  | '%' :: high :: low :: rest =>
    match byte? high low with
    | some byte => byte :: bytesOf rest
    | none => '%'.toString.toUTF8.toList ++ bytesOf (high :: low :: rest)
  | c :: rest => c.toString.toUTF8.toList ++ bytesOf rest
  | [] => []

/-- The text of some bytes; where they are none, those that are no characters stand for characters
that have no other use. -/
def textOf (bytes : List UInt8) : String :=
  match String.fromUTF8? (ByteArray.mk bytes.toArray) with
  | some text => text
  | none =>
    String.ofList (bytes.map fun byte =>
      Char.ofNat (if byte < 128 then byte.toNat else 0x10FF00 + byte.toNat))

/-- The text of a part of an address. -/
def decode (cs : List Char) : String := textOf ((bytesOf cs).takeWhile (· != 0))

example : decode "a%2eb%zz%00c".toList = "a.b%zz" := by decide +kernel

/-! ## 2. Options -/

/-- Splits at every character of a kind. -/
def splitAtEvery (mark : Char) : List Char → List (List Char)
  | [] => [[]]
  | c :: rest =>
    if c = mark then [] :: splitAtEvery mark rest
    else
      match splitAtEvery mark rest with
      | [] => [[c]]
      | part :: parts => (c :: part) :: parts

/-- The name and the value of an option. -/
def optionOf (cs : List Char) : String × String :=
  let name := cs.takeWhile (· != '=')
  (decode name, decode (cs.drop (name.length + 1)))

/-- The options of an address; one without a name is none. -/
def optionsOf (cs : List Char) : List (String × String) :=
  ((splitAtEvery '&' cs).map optionOf).filter fun option => !option.1.isEmpty

/-- Does a value say yes? -/
def saysYes (value : String) : Bool :=
  let digits := value.toList.takeWhile Char.isDigit
  if digits.isEmpty then ["on", "yes", "true"].contains (value.map Char.toLower)
  else
    let n := Text.digitsValue digits
    n < Nat.pow 2 31 && n % Nat.pow 2 8 != 0

/-- Does an option say yes, the first of its name? -/
def isSet (options : List (String × String)) (name : String) : Bool :=
  (options.lookup name).any saysYes

/-- The access of a name. -/
def accessOf? : String → Option Access
  | "ro" => some .readOnly
  | "rw" => some .readWrite
  | "rwc" => some .create
  | "memory" => some .memory
  | _ => none

/-- How much an access asks for, and how much one that is given allows to ask for. -/
def demand : Access → Nat
  | .readOnly => 1
  | .readWrite => 2
  | .create => 6
  | .memory => 0

def allowance : Access → Nat
  | .memory => 128
  | access => demand access

/-- The way of locking of a name. -/
def lockingOf? : String → Option Locking
  | "unix" => some .ranges
  | "unix-excl" => some .exclusive
  | "unix-none" => some .nothing
  | "unix-dotfile" => some .beside
  | "memdb" => some .memory
  | _ => none

/-- Takes up an option: another access may not ask for more than the one before allows. -/
def takeUp (access : Access) : String × String → Except Fault Access
  | ("mode", name) =>
    match accessOf? name with
    | none => .error .storeUnavailable
    | some next => if demand next ≤ allowance access then .ok next else .error .storeUnavailable
  | ("cache", name) =>
    if name = "shared" ∨ name = "private" then .ok access else .error .storeUnavailable
  | _ => .ok access

/-- The way of locking that the last option about it gives. -/
def lockingIn (options : List (String × String)) : Except Fault Locking :=
  match options.reverse.lookup "vfs" with
  | none => .ok .ranges
  | some name => (lockingOf? name).elim (.error .storeUnavailable) .ok

/-! ## 3. Addresses -/

/-- The address that is a path and nothing else. -/
def plain (path : String) : Address := ⟨path, .create, .ranges, false, false⟩

/-- What an address begins with. -/
def scheme : List Char := "file:".toList

/-- Leaves out the machine, which has to be this one. -/
def withoutMachine : List Char → Except Fault (List Char)
  | '/' :: '/' :: rest =>
    let machine := rest.takeWhile (· != '/')
    if machine = [] ∨ machine = "localhost".toList then .ok (rest.drop machine.length)
    else .error .storeUnavailable
  | cs => .ok cs

/-- What a path says. -/
def ofPath (path : String) : Except Fault Address := do
  let cs := path.toList
  if !scheme.isPrefixOf cs then return plain path
  let cs := (← withoutMachine (cs.drop scheme.length)).takeWhile (· != '#')
  let name := cs.takeWhile (· != '?')
  let options := optionsOf (cs.drop (name.length + 1))
  let access ← options.foldlM takeUp .create
  return ⟨decode name, access, ← lockingIn options, isSet options "nolock",
    isSet options "immutable"⟩

/-- Is no file meant in the first place? -/
def isFileless (address : Address) : Bool :=
  address.path = "" || address.path = ":memory:" || address.access = .memory

/-- Does the address stand for tables that are kept in no file? -/
def isPrivate (address : Address) : Bool := address.isFileless || address.locking = .memory

/-- Can a writer and its readers use memory in common? -/
def sharesMemory (address : Address) : Bool :=
  !address.isUnlocked && (address.locking = .ranges || address.locking = .exclusive)

/-- May the tables be changed, as far as the address goes? -/
def isOpen (address : Address) : Bool :=
  address.access != .readOnly && (address.isFileless || !address.isFrozen)

end Address
end SampledProfile
