/-
# Blanks

The characters that may surround a number: the controls that move the position, and every space
and line or paragraph separator.
-/
namespace SampledProfile
namespace Text

/-- The code points of the blanks. -/
def blanks : List Nat := [
  0x9, 0xA, 0xB, 0xC, 0xD, 0x20, 0x85, 0xA0, 0x1680, 0x2000, 0x2001, 0x2002, 0x2003, 0x2004,
  0x2005, 0x2006, 0x2007, 0x2008, 0x2009, 0x200A, 0x2028, 0x2029, 0x202F, 0x205F, 0x3000
]

/-- Is the character a blank? -/
def isBlank (c : Char) : Bool := blanks.contains c.toNat

example : isBlank ' ' ∧ isBlank '\n' ∧ isBlank '\u3000' ∧ ¬ isBlank '\x1c' ∧ ¬ isBlank 'x' := by
  decide

/-- The text without the blanks at both ends. -/
def trimBlanks (cs : List Char) : List Char :=
  ((cs.dropWhile isBlank).reverse.dropWhile isBlank).reverse

end Text
end SampledProfile
