/-
# Arithmetic on values

Only numbers take part in subtraction and division; a truth value counts as zero or one.
Addition also joins two texts or two lists, and multiplication by an integer repeats one, as long
as there is room for the result.  Any other pairing is refused.

* `Value.add`, `Value.sub`, `Value.mul`, `Value.div`: the four operations;
* `Value.equals`: equality, which exists between all values;
* `Value.below?`: the order, which exists between numbers, between texts and between lists.
-/
import SampledProfile.Value.Basic

namespace SampledProfile
namespace Value

variable {α : Type} [Scalar α]

/-! ## 1. The four operations -/

/-- The sum of two numbers, or two texts or lists joined. -/
def add (a b : Value α) : Except Fault (Value α) :=
  match a, b with
  | .str s, .str t => .ok (.str (s ++ t))
  | .list xs, .list ys => .ok (.list (xs ++ ys))
  | a, b =>
    match a.number?, b.number? with
    | some x, some y => (Scalar.add? x y).map .num
    | _, _ => .error .wrongType

/-- The difference of two numbers. -/
def sub (a b : Value α) : Except Fault α :=
  match a.number?, b.number? with
  | some x, some y => Scalar.sub? x y
  | _, _ => .error .wrongType

/-- The quotient of two numbers. -/
def div (a b : Value α) : Except Fault α :=
  match a.number?, b.number? with
  | some x, some y => Scalar.div? x y
  | _, _ => .error .wrongType

/-- The greatest number of repetitions, and the greatest length that there is. -/
def mostItems : Nat := Nat.pow 2 63 - 1

/-- A length for which there is no room. -/
def roomFor : Nat := Nat.pow 2 36

/-- How often something of a length is repeated; `tooLong` is the fault of a length that there is
not. -/
def repetitions (tooLong : Fault) (length : Nat) (count : Int) : Except Fault Nat :=
  if count < -Int.ofNat mostItems - 1 ∨ Int.ofNat mostItems < count then .error .overflow
  else if length = 0 then .ok 0
  else if mostItems < length * count.toNat then .error tooLong
  else if roomFor < length * count.toNat then .error .outOfMemory
  else .ok count.toNat

/-- A text so many times over. -/
def repeatText (s : String) (count : Int) : Except Fault (Value α) := do
  return .str (String.join (List.replicate (← repetitions .overflow s.length count) s))

/-- A list so many times over. -/
def repeatList (xs : List (Value α)) (count : Int) : Except Fault (Value α) := do
  return .list (List.replicate (← repetitions .outOfMemory xs.length count) xs).flatten

/-- The product of two numbers, or a text or list repeated. -/
def mul (a b : Value α) : Except Fault (Value α) :=
  match a, b with
  | .str s, b =>
    match b.integer? with
    | some n => repeatText s n
    | none => .error .wrongType
  | .list xs, b =>
    match b.integer? with
    | some n => repeatList xs n
    | none => .error .wrongType
  | a, .str s =>
    match a.integer? with
    | some n => repeatText s n
    | none => .error .wrongType
  | a, .list xs =>
    match a.integer? with
    | some n => repeatList xs n
    | none => .error .wrongType
  | a, b =>
    match a.number?, b.number? with
    | some x, some y => (Scalar.mul? x y).map .num
    | _, _ => .error .wrongType

/-- Does the first text come before the second, by code points? -/
def textBelow : List Char → List Char → Bool
  | _, [] => false
  | [], _ :: _ => true
  | a :: s, b :: t => if a = b then textBelow s t else decide (a.toNat < b.toNat)

/-! ## 2. Equality and order -/

/-- Are both the same number, be it one without a value? -/
def isSameNumber : Value α → Value α → Bool
  | .num x, .num y => decide (Scalar.exact x = Scalar.exact y)
  | _, _ => false

mutual

/-- Are both values equal?  Numbers are by what they are, fields in any order.  Inside of lists and
objects a number without a value is equal to itself. -/
def equals : Value α → Value α → Bool
  | .null, .null => true
  | .str s, .str t => decide (s = t)
  | .list xs, .list ys => equalsItems xs ys
  | .obj xs, .obj ys => decide (xs.length = ys.length) && equalsFields xs ys
  | a, b =>
    match a.number?, b.number? with
    | some x, some y => Scalar.same x y
    | _, _ => false

/-- Are the items of two lists equal one by one? -/
def equalsItems : List (Value α) → List (Value α) → Bool
  | [], [] => true
  | a :: xs, b :: ys => (isSameNumber a b || equals a b) && equalsItems xs ys
  | _, _ => false

/-- Is every field of the first object in the second, with an equal value? -/
def equalsFields : List (String × Value α) → List (String × Value α) → Bool
  | [], _ => true
  | (name, value) :: rest, others =>
    (match Fields.get? others name with
      | some other => isSameNumber value other || equals value other
      | none => false) && equalsFields rest others

end

mutual

/-- Is the first value below the second?  `none` where the two cannot be compared. -/
def below? : Value α → Value α → Option Bool
  | .str s, .str t => some (textBelow s.toList t.toList)
  | .list xs, .list ys => belowItems? xs ys
  | a, b =>
    match a.number?, b.number? with
    | some x, some y => some (Scalar.lt x y)
    | _, _ => none

/-- The order of lists is that of their first unequal items. -/
def belowItems? : List (Value α) → List (Value α) → Option Bool
  | _, [] => some false
  | [], _ :: _ => some true
  | a :: xs, b :: ys =>
    if isSameNumber a b || equals a b then belowItems? xs ys else below? a b

end

end Value
end SampledProfile
