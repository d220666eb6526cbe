/-!
# Binary fractions

Finite binary floating-point numbers as a sign, a whole mantissa and an exponent
of two, with rounding of exact ratios to the nearest such number (a tie goes to
the even mantissa).
-/

namespace ChatGateway

namespace Decimal

/-- A binary format: mantissas below `2 ^ precision`, exponents between the two bounds. -/
structure Format where
  precision : Nat
  minExponent : Int
  maxExponent : Int
  deriving DecidableEq, Repr

namespace Format

/-- Double precision. -/
def double : Format := ⟨53, -1074, 971⟩

/-- Single precision. -/
def single : Format := ⟨24, -149, 104⟩

end Format

/-- The size `mantissa * 2 ^ exponent`. -/
structure Magnitude where
  mantissa : Nat
  exponent : Int
  deriving DecidableEq, Repr

/-- A magnitude with a sign; zero has two signs. -/
structure Binary where
  negative : Bool
  size : Magnitude
  deriving DecidableEq, Repr

/-- The quotient rounded to the nearest whole number, a tie to the even one. -/
def halfEven (num den : Nat) : Nat :=
  let q := num / den
  let r := num % den
  if 2 * r < den then q
  else if den < 2 * r then q + 1
  else q + q % 2

/-- The ratio `num / den / 2 ^ exponent` as a numerator and a denominator. -/
def scaled (num den : Nat) (exponent : Int) : Nat × Nat :=
  if 0 ≤ exponent then (num, den * Nat.pow 2 exponent.toNat)
  else (num * Nat.pow 2 (-exponent).toNat, den)

/-- The exponent of the greatest power of two that is at most `num / den`. -/
def binade (num den : Nat) : Int :=
  let guess : Int := num.log2 - den.log2
  let (n, d) := scaled num den guess
  if n < d then guess - 1 else guess

namespace Magnitude

/-- The magnitude as an exact ratio. -/
def ratio (x : Magnitude) : Nat × Nat :=
  if 0 ≤ x.exponent then (x.mantissa * Nat.pow 2 x.exponent.toNat, 1)
  else (x.mantissa, Nat.pow 2 (-x.exponent).toNat)

/-- The magnitude of the format nearest to `num / den`; `none` above the greatest. -/
def nearest? (format : Format) (num den : Nat) : Option Magnitude :=
  if num = 0 then
    some ⟨0, format.minExponent⟩
  else
    let exponent := max format.minExponent (binade num den + 1 - format.precision)
    let (n, d) := scaled num den exponent
    let mantissa := halfEven n d
    let x : Magnitude :=
      if mantissa = Nat.pow 2 format.precision then ⟨mantissa / 2, exponent + 1⟩
      else ⟨mantissa, exponent⟩
    if format.maxExponent < x.exponent then none else some x

end Magnitude

end Decimal

end ChatGateway
