/-
# Decimal texts of numbers

Two forms are needed of a double:

* `shortest`: the fewest digits that read back as the same double, and of those the nearest to
  it.  `Layout` says how such digits are laid out: positional between two powers of ten, with a
  mark and an exponent outside;
* `fixed`: a given number of places, the exact value rounded with a half going to the even
  neighbour.

The digits come from exact arithmetic: for one, two, … digits the two neighbours of the value
on that decimal grid are tried, and the first grid with a hit wins.
-/
import SampledProfile.Numeric.Binary64

namespace SampledProfile
namespace Decimal

/-! ## 1. Digits that read back -/

/-- Decimal digits `digits`, to be read as `0.digits · 10 ^ point`. -/
structure Digits where
  digits : Nat
  point : Int
  deriving DecidableEq

/-- The number of decimal digits of a natural number, one for zero. -/
def width (n : Nat) : Nat := (toString n).length

/-- The `p` with `10 ^ (p - 1) ≤ num / den < 10 ^ p`. -/
def magnitude (num den : Nat) : Int :=
  if den ≤ num then Int.ofNat (width (num / den))
  else
    let low : Int := 1 - Int.ofNat (width (den / num))
    if den ≤ num * Nat.pow 10 (-low).toNat then low + 1 else low

/-- Does `digits · 10 ^ exponent` read back as the double with parts `want`? -/
def readsBack (want : Float) (digits : Nat) (exponent : Int) : Bool :=
  match Binary64.ofRatio? false (digits * Nat.pow 10 exponent.toNat)
      (Nat.pow 10 (-exponent).toNat) with
  | some got => got.toBits == want.toBits
  | none => false

/-- The neighbour of `num / den` on the grid `10 ^ exponent` that reads back as `want`: the
nearer of two, of equally near ones the even. -/
def onGrid? (want : Float) (num den : Nat) (exponent : Int) : Option Nat :=
  let scaled := num * Nat.pow 10 (-exponent).toNat
  let unit := den * Nat.pow 10 exponent.toNat
  let low := scaled / unit
  let near := Binary64.roundDiv scaled unit
  let far := if near = low then low + 1 else low
  if readsBack want near exponent then some near
  else if readsBack want far exponent then some far
  else none

/-- Drops zeros at the end of `n`, at most `fuel` of them. -/
def dropZeros : Nat → Nat → Nat
  | 0, n => n
  | fuel + 1, n => if n % 10 = 0 && n != 0 then dropZeros fuel (n / 10) else n

/-- Digits on the first of the grids with `count`, `count + 1`, … digits that has some. -/
def search (want : Float) (num den : Nat) (point : Int) : Nat → Nat → Digits
  | 0, _ => ⟨0, 1⟩
  | fuel + 1, count =>
    let exponent := point - Int.ofNat count
    match onGrid? want num den exponent with
    | some n => ⟨dropZeros 20 n, exponent + Int.ofNat (width n)⟩
    | none => search want num den point fuel (count + 1)

/-- The fewest digits that read back as the positive double `want`, whose value is `num / den`. -/
def shortestDigits (want : Float) (num den : Nat) : Digits :=
  search want num den (magnitude num den) 20 1

/-! ## 2. Laying digits out -/

/-- How digits become text. -/
structure Layout where
  /-- The smallest decimal exponent written positionally. -/
  low : Int
  /-- The smallest decimal exponent above that is written with a mark. -/
  high : Int
  /-- The mark before an exponent. -/
  mark : String
  /-- The least number of digits of an exponent. -/
  exponentWidth : Nat
  /-- What follows the digits of a whole number in positional form. -/
  whole : String
  /-- What follows a single digit before a mark. -/
  single : String

/-- The layout of a number in answers and files: positional from `0.0001` up to, but not
including, `1e+16`. -/
def plain : Layout := ⟨-4, 16, "e", 2, ".0", ""⟩

/-- `n` zeros. -/
def zeros (n : Nat) : String := String.ofList (List.replicate n '0')

/-- A natural number with zeros in front up to `places` digits. -/
def padded (places n : Nat) : String :=
  let text := toString n
  zeros (places - text.length) ++ text

/-- A positive number in a layout. -/
def Layout.render (style : Layout) (d : Digits) : String :=
  let text := toString d.digits
  let exponent := d.point - 1
  if exponent < style.low || style.high ≤ exponent then
    let head := String.ofList (text.toList.take 1)
    let tail := text.toList.drop 1
    let fraction := if tail.isEmpty then style.single else "." ++ String.ofList tail
    let sign := if exponent < 0 then "-" else "+"
    head ++ fraction ++ style.mark ++ sign ++ padded style.exponentWidth exponent.natAbs
  else if d.point ≤ 0 then "0." ++ zeros (-d.point).toNat ++ text
  else
    let places := d.point.toNat
    if text.length ≤ places then text ++ zeros (places - text.length) ++ style.whole
    else
      String.ofList (text.toList.take places) ++ "." ++ String.ofList (text.toList.drop places)

/-- The sign of a number in front of its text. -/
def signed (negative : Bool) (text : String) : String := if negative then "-" ++ text else text

/-- The shortest text of a double that reads back as it. -/
def shortest (style : Layout) (x : Float) : String :=
  match Binary64.decode x with
  | .undefined => "nan"
  | .infinite negative => signed negative "inf"
  | .finite negative mantissa exponent =>
    if mantissa = 0 then signed negative ("0" ++ style.whole)
    else
      let (num, den) := Binary64.ratio mantissa exponent
      signed negative (style.render (shortestDigits x.abs num den))

/-! ## 3. Fixed places -/

/-- `± num / den` with `places` digits after the point. -/
def fixedRatio (places : Nat) (negative : Bool) (num den : Nat) : String :=
  let scaled := Binary64.roundDiv (num * Nat.pow 10 places) den
  let whole := toString (scaled / Nat.pow 10 places)
  let fraction := if places = 0 then "" else "." ++ padded places (scaled % Nat.pow 10 places)
  signed negative (whole ++ fraction)

/-- A double with `places` digits after the point. -/
def fixed (places : Nat) (x : Float) : String :=
  match Binary64.decode x with
  | .undefined => "nan"
  | .infinite negative => signed negative "inf"
  | .finite negative mantissa exponent =>
    let (num, den) := Binary64.ratio mantissa exponent
    fixedRatio places negative num den

/-- Blanks in front of a text up to a width. -/
def padLeft (columns : Nat) (text : String) : String :=
  String.ofList (List.replicate (columns - text.length) ' ') ++ text

end Decimal
end SampledProfile
