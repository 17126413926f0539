/-
# Numbers with 64 binary digits

An `Extended` is a positive number `mantissa · 2 ^ exponent` with a mantissa below `2 ^ 64`, eleven
digits more than a double has.  Sums, differences, products and quotients are the exact ones rounded
to 64 digits, a half going to the even neighbour (`Extended.round`).

What is computed this way and then rounded to a double is rounded twice, so it may miss the double
nearest to the exact result by one.  Tables read and write their numbers so.
-/
import SampledProfile.Numeric.Binary64

namespace SampledProfile

/-- A positive number with at most 64 binary digits, or zero. -/
structure Extended where
  mantissa : Nat
  exponent : Int
  deriving DecidableEq

namespace Extended

/-! ## 1. Rounding -/

/-- The number of binary digits. -/
def precision : Nat := 64

/-- The number nearest to `mantissa · 2 ^ exponent`. -/
def round (mantissa : Nat) (exponent : Int) : Extended :=
  let extra := mantissa.log2 + 1 - precision
  ⟨Binary64.roundDiv mantissa (Nat.pow 2 extra), exponent + Int.ofNat extra⟩

/-- A natural number. -/
def ofNat (n : Nat) : Extended := round n 0

/-- The size of a finite double; zero stands for the others. -/
def ofReal (x : Float) : Extended :=
  match Binary64.decode x with
  | .finite _ mantissa exponent => ⟨mantissa, exponent⟩
  | _ => ⟨0, 0⟩

/-- The double nearest to the number, with a sign; an infinity beyond the largest double. -/
def toReal (negative : Bool) (x : Extended) : Float :=
  let (num, den) := Binary64.ratio x.mantissa x.exponent
  (Binary64.ofRatio? negative num den).getD (Binary64.infinity negative)

/-! ## 2. Comparison -/

/-- The mantissas of two numbers over the smaller of their exponents, and that exponent. -/
def align (x y : Extended) : Nat × Nat × Int :=
  let exponent := min x.exponent y.exponent
  (x.mantissa * Nat.pow 2 (x.exponent - exponent).toNat,
    y.mantissa * Nat.pow 2 (y.exponent - exponent).toNat, exponent)

/-- Is the first number at most the second? -/
def le (x y : Extended) : Bool :=
  let (a, b, _) := align x y
  decide (a ≤ b)

/-- The whole part. -/
def floor (x : Extended) : Nat :=
  x.mantissa * Nat.pow 2 x.exponent.toNat / Nat.pow 2 (-x.exponent).toNat

/-! ## 3. Arithmetic -/

/-- The sum. -/
def add (x y : Extended) : Extended :=
  let (a, b, exponent) := align x y
  round (a + b) exponent

/-- The difference, zero where the second number is the larger one. -/
def sub (x y : Extended) : Extended :=
  let (a, b, exponent) := align x y
  round (a - b) exponent

/-- The product. -/
def mul (x y : Extended) : Extended :=
  round (x.mantissa * y.mantissa) (x.exponent + y.exponent)

/-- The quotient by a number that is not zero. -/
def div (x y : Extended) : Extended :=
  let size := precision + y.mantissa.log2 - x.mantissa.log2
  let fits := decide (x.mantissa * Nat.pow 2 size < y.mantissa * Nat.pow 2 precision)
  let shift := if fits then size else size - 1
  ⟨Binary64.roundDiv (x.mantissa * Nat.pow 2 shift) y.mantissa,
    x.exponent - y.exponent - Int.ofNat shift⟩

/-- The factors of `x ^ n` multiplied into `result`: that square of squares is taken up for which
the binary digit of `n` is one; `fuel` bounds the number of digits. -/
def powFrom : Nat → Extended → Extended → Nat → Extended
  | 0, _, result, _ => result
  | fuel + 1, x, result, n =>
    let result := if n % 2 = 1 then result.mul x else result
    if n / 2 = 0 then result else powFrom fuel (x.mul x) result (n / 2)

/-- A power of ten. -/
def powTen (n : Nat) : Extended := powFrom (n + 1) (ofNat 10) (ofNat 1) n

end Extended
end SampledProfile
