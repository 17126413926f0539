/-
# Quoted text

Text inside a list or an object is shown in quotes.  The quotes are single ones, unless the text
holds a single quote and no double one.  A backslash and the chosen quote are escaped, as are
line feed, carriage return and tab; any other character without a visible form is written by its
code point in the shortest of `\xNN`, `\uNNNN` and `\UNNNNNNNN`.
-/
import SampledProfile.Text.Printable

namespace SampledProfile
namespace Text

/-- The lower-case hexadecimal digits of a number, with zeros in front up to `places`. -/
def hex (places n : Nat) : List Char :=
  let digits := Nat.toDigits 16 n
  List.replicate (places - digits.length) '0' ++ digits

/-- A character inside text that stands between the given quotes. -/
def quotedChar (quote c : Char) : List Char :=
  if c = quote || c = '\\' then ['\\', c]
  else if c = '\n' then ['\\', 'n']
  else if c = '\r' then ['\\', 'r']
  else if c = '\t' then ['\\', 't']
  else if isPrintable c then [c]
  else if c.toNat < 0x100 then ['\\', 'x'] ++ hex 2 c.toNat
  else if c.toNat < 0x10000 then ['\\', 'u'] ++ hex 4 c.toNat
  else ['\\', 'U'] ++ hex 8 c.toNat

/-- The quote that text is put in. -/
def quoteFor (cs : List Char) : Char :=
  if cs.contains '\'' && !cs.contains '"' then '"' else '\''

/-- Text in quotes. -/
def quoted (s : String) : String :=
  let cs := s.toList
  let quote := quoteFor cs
  String.ofList ([quote] ++ cs.flatMap (quotedChar quote) ++ [quote])

end Text
end SampledProfile
