/-
# Paths

A path is a text in which slashes separate names.  The last name may have a suffix: the last dot
that follows some other character than a dot, and what stands behind it.  Dots at the front of a
name belong to the name, so that `.a` and `...` have no suffix, and `.a.b` has the suffix `.b`.

* `Path.lastName`: what follows the last slash;
* `Path.withoutSuffix`: the path less the suffix of its last name;
* `Path.join`: a path inside a folder;
* `Path.names`: the names on the way, with an empty one where two slashes meet.
-/
namespace SampledProfile
namespace Path

/-! ## 1. The last name -/

/-- What follows the last slash. -/
def lastNameOf (cs : List Char) : List Char := (cs.reverse.takeWhile (· != '/')).reverse

/-- What stands before the suffix of a name. -/
def stemOf (name : List Char) : List Char :=
  let suffix := (name.reverse.takeWhile (· != '.')).length + 1
  let stem := name.take (name.length - suffix)
  if stem.all (· == '.') then name else stem

/-- The last name of a path. -/
def lastName (path : String) : String := String.ofList (lastNameOf path.toList)

/-- A path less the suffix of its last name. -/
def withoutSuffix (path : String) : String :=
  let cs := path.toList
  let name := lastNameOf cs
  String.ofList (cs.take (cs.length - name.length) ++ stemOf name)

example : withoutSuffix "a/b.c.d" = "a/b.c" ∧ withoutSuffix "a.b/c" = "a.b/c" := by decide
example : withoutSuffix ".a" = ".a" ∧ withoutSuffix ".a.b" = ".a" ∧ withoutSuffix "a." = "a" := by
  decide
example : withoutSuffix "..." = "..." ∧ withoutSuffix "..x" = "..x" := by decide

/-! ## 2. Joining and splitting -/

/-- Is the path one from the top of all folders on? -/
def isAbsolute (path : String) : Bool := path.toList.head? == some '/'

/-- The path of something inside a folder; an absolute path stays what it is. -/
def join (folder path : String) : String :=
  if isAbsolute path || folder.isEmpty then path
  else if folder.toList.getLast? = some '/' then folder ++ path
  else folder ++ "/" ++ path

example : join "out" "a" = "out/a" ∧ join "out/" "a" = "out/a" ∧ join "out" "/a" = "/a" := by decide

/-- Splits at every slash. -/
def splitSlashes : List Char → List (List Char)
  | [] => [[]]
  | c :: rest =>
    if c = '/' then [] :: splitSlashes rest
    else
      match splitSlashes rest with
      | [] => [[c]]
      | name :: names => (c :: name) :: names

/-- The names of a path. -/
def names (path : String) : List String := (splitSlashes path.toList).map String.ofList

example : names "a//b" = ["a", "", "b"] ∧ names "/a" = ["", "a"] ∧ names "" = [""] := by decide

end Path
end SampledProfile
