/-
# Marked lines

A line can be marked for a terminal: by a code in front, and the code that ends all marking behind.
-/
import SampledProfile.Value.Text

namespace SampledProfile

/-- How a line is marked. -/
inductive Style where
  | plain
  | bold
  | red
  | highlighted
  deriving DecidableEq

namespace Style

/-- The code of a mark. -/
def code : Style → String
  | .plain => "\x1b[0m"
  | .bold => "\x1b[1m"
  | .red => "\x1b[91m"
  | .highlighted => "\x1b[43m"

/-- The marks by the names they are known under. -/
def named : List (String × Style) :=
  [("END", .plain), ("BOLD", .bold), ("RED", .red), ("BG_YELLOW", .highlighted)]

/-- The mark of a name. -/
def ofName (name : String) : Except Fault Style :=
  match named.find? fun entry => entry.1 = name with
  | some (_, style) => .ok style
  | none => .error .noSuchMember

/-- A marked line. -/
def line (style : Style) (text : String) : String :=
  style.code ++ text ++ Style.plain.code ++ "\n"

end Style
end SampledProfile
