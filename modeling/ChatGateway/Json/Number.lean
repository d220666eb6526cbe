import ChatGateway.Json.Value

/-!
# Numerals

A number as it is written and the number it stands for.  Without a fraction and
an exponent it is a whole number, as long as it fits in 64 bits; every other
number is a double.

A double is read in two roundings: the digits are kept as a whole number below
`2 ^ 64`, which is rounded, and the result is multiplied or divided by a rounded
power of ten.  Digits that do not fit are dropped.
-/

namespace ChatGateway

namespace Json

/-- The written parts of a number; the exponent carries whether it is negative. -/
structure Numeral where
  negative : Bool
  whole : List Nat
  fraction : Option (List Nat)
  exponent : Option (Bool × List Nat)
  deriving DecidableEq, Repr

namespace Numeral

open Decimal (Binary Magnitude Format)

def ofDigits (digits : List Nat) : Nat :=
  digits.foldl (fun n digit => n * 10 + digit) 0

/-- Digits that have been kept, and how many whole digits have been dropped. -/
structure Significand where
  value : Nat
  dropped : Nat
  deriving DecidableEq, Repr

/-- Takes one more whole digit; after the first that does not fit, all are dropped. -/
def Significand.whole (held : Significand) (digit : Nat) : Significand :=
  let grown := held.value * 10 + digit
  if held.dropped = 0 ∧ grown < UInt64.size then ⟨grown, 0⟩
  else ⟨held.value, held.dropped + 1⟩

/-- Takes digits of the fraction up to the first that does not fit; counts those taken. -/
def Significand.fraction : Nat -> Nat -> List Nat -> Nat × Nat
  | value, taken, [] => (value, taken)
  | value, taken, digit :: rest =>
      let grown := value * 10 + digit
      if grown < UInt64.size then fraction grown (taken + 1) rest
      else (value, taken)

/-- The double nearest to a ratio. -/
def round? (ratio : Nat × Nat) : Option Magnitude :=
  Magnitude.nearest? .double ratio.1 ratio.2

def powerOfTen (power : Nat) : Magnitude :=
  (round? (Nat.pow 10 power, 1)).getD ⟨0, 0⟩

def greatestPower : Nat := 308

/-- One rounded division of a double by a power of ten. -/
def divide (x : Magnitude) (power : Nat) : Option Magnitude :=
  let (n, d) := x.ratio
  let (m, e) := (powerOfTen power).ratio
  round? (n * e, d * m)

/-- Divisions by the greatest power of ten, as many as given or until nothing is left. -/
def divideRepeatedly : Nat -> Magnitude -> Option Magnitude
  | 0, x => some x
  | steps + 1, x =>
      if x.mantissa = 0 then some x
      else (divide x greatestPower).bind (divideRepeatedly steps)

/-- A double divided by `10 ^ power`, in steps of the greatest power of ten. -/
def shrink (x : Magnitude) (power : Nat) : Option Magnitude :=
  let steps := (power - 1) / greatestPower
  (divideRepeatedly steps x).bind fun smaller =>
    if smaller.mantissa = 0 then some smaller
    else divide smaller (power - steps * greatestPower)

/-- A double multiplied by `10 ^ power`; `none` above the greatest double. -/
def grow (x : Magnitude) (power : Nat) : Option Magnitude :=
  if power ≤ greatestPower then
    let (n, d) := x.ratio
    let (m, e) := (powerOfTen power).ratio
    round? (n * m, d * e)
  else if x.mantissa = 0 then some x
  else none

/-- The double that a numeral stands for; `none` above the greatest double. -/
def double? (numeral : Numeral) : Option Binary :=
  let whole := numeral.whole.foldl Significand.whole ⟨0, 0⟩
  let (value, taken) := Significand.fraction whole.value 0 (numeral.fraction.getD [])
  let power : Int :=
    match numeral.exponent with
    | some (true, digits) => -ofDigits digits
    | some (false, digits) => ofDigits digits
    | none => 0
  let exponent : Int := whole.dropped - taken + power
  let size? :=
    match round? (value, 1) with
    | some size =>
        if 0 ≤ exponent then grow size exponent.toNat else shrink size (-exponent).toNat
    | none => none
  size?.map fun size => ⟨numeral.negative, size⟩

/-- The whole number that a numeral stands for, if it is written as one and fits in 64 bits. -/
def int? (numeral : Numeral) : Option Int :=
  let size := ofDigits numeral.whole
  if numeral.fraction.isSome ∨ numeral.exponent.isSome then none
  else if numeral.negative then
    if size = 0 ∨ UInt64.size / 2 < size then none else some (-size)
  else if size < UInt64.size then some size
  else none

/-- The number that a numeral stands for; a minus sign before zero needs a double. -/
def value? (numeral : Numeral) : Option Number :=
  match numeral.int? with
  | some value => some (.int value)
  | none => numeral.double?.map .double

end Numeral

end Json

end ChatGateway
