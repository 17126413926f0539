/-
# Doubles and exact ratios

A finite double is `± m · 2 ^ e` for natural `m < 2 ^ 53` and `-1074 ≤ e ≤ 971`.  Reading a
decimal, taking an integer as a double and dividing two integers are all one thing: the double
nearest to an exact ratio, of two equally near ones the one with the even `m`.

* `decode`: the parts of a double, read off its bits;
* `ofRatio?`: the double nearest to `num / den`, or `none` where that is beyond the largest;
* `ofInt?`, `ofDecimal`: the two readings built on it.

Everything is exact arithmetic on natural numbers; the only step outside is the bit pattern.
-/
namespace SampledProfile

namespace Binary64

/-! ## 1. The parts of a double -/

/-- What the bits of a double stand for. -/
inductive Parts where
  /-- Not a number. -/
  | undefined
  /-- An infinity of the given sign. -/
  | infinite (negative : Bool)
  /-- `± mantissa · 2 ^ exponent`. -/
  | finite (negative : Bool) (mantissa : Nat) (exponent : Int)
  deriving DecidableEq

/-- The parts of a double. -/
def decode (x : Float) : Parts :=
  let bits := x.toBits.toNat
  let negative := decide (Nat.pow 2 63 ≤ bits)
  let biased := bits / Nat.pow 2 52 % Nat.pow 2 11
  let fraction := bits % Nat.pow 2 52
  if biased = 2047 then
    if fraction = 0 then .infinite negative else .undefined
  else if biased = 0 then .finite negative fraction (-1074)
  else .finite negative (Nat.pow 2 52 + fraction) (Int.ofNat biased - 1075)

/-- A magnitude `m · 2 ^ e` as a ratio of natural numbers. -/
def ratio (mantissa : Nat) (exponent : Int) : Nat × Nat :=
  (mantissa * Nat.pow 2 exponent.toNat, Nat.pow 2 (-exponent).toNat)

/-! ## 2. Rounding -/

/-- The natural number nearest to `num / den`, a half going to the even neighbour. -/
def roundDiv (num den : Nat) : Nat :=
  let quotient := num / den
  let rest := 2 * (num % den)
  if rest < den then quotient
  else if rest = den then quotient + quotient % 2
  else quotient + 1

/-- The least `e ≥ -1074` for which `num / den < 2 ^ (53 + e)`. -/
def scale (num den : Nat) : Int :=
  let guess : Int := Int.ofNat num.log2 - Int.ofNat den.log2 - 53
  let fits := decide (num * Nat.pow 2 (-(53 + guess)).toNat < den * Nat.pow 2 (53 + guess).toNat)
  max (if fits then guess else guess + 1) (-1074)

/-- The double nearest to `± num / den`; `none` where it would lie beyond the largest double. -/
def ofRatio? (negative : Bool) (num den : Nat) : Option Float :=
  let sign : Nat := if negative then Nat.pow 2 63 else 0
  if num = 0 then some (Float.ofBits (UInt64.ofNat sign))
  else
    let e := scale num den
    let mantissa := roundDiv (num * Nat.pow 2 (-e).toNat) (den * Nat.pow 2 e.toNat)
    let magnitude := (e + 1074).toNat * Nat.pow 2 52 + mantissa
    if 2047 * Nat.pow 2 52 ≤ magnitude then none
    else some (Float.ofBits (UInt64.ofNat (sign + magnitude)))

/-- The infinity of a sign. -/
def infinity (negative : Bool) : Float :=
  Float.ofBits (if negative then 0xFFF0000000000000 else 0x7FF0000000000000)

/-- The value that is not a number. -/
def undefined : Float := Float.ofBits 0x7FF8000000000000

/-! ## 3. Readings -/

/-- The double nearest to an integer, if the integer is not too large. -/
def ofInt? (n : Int) : Option Float := ofRatio? (decide (n < 0)) n.natAbs 1

/-- The double nearest to `± digits · 10 ^ exponent`, where `count` bounds the number of digits.
Beyond the largest double it is an infinity. -/
def ofDecimal (negative : Bool) (digits count : Nat) (exponent : Int) : Float :=
  let sized : Option Float :=
    if digits = 0 || exponent + count < -400 then ofRatio? negative 0 1
    else if 400 < exponent then none
    else ofRatio? negative (digits * Nat.pow 10 exponent.toNat) (Nat.pow 10 (-exponent).toNat)
  sized.getD (infinity negative)

end Binary64
end SampledProfile
