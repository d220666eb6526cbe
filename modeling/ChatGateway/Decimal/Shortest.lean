import ChatGateway.Decimal.Binary

/-!
# Shortest decimals

The fewest decimal digits that read back as a given binary number, and of those
the nearest to it, in exact integer arithmetic.
-/

namespace ChatGateway

namespace Decimal

/-- The decimal exponent of the leading digit of `num / den`. -/
def leadingExponent (num den : Nat) : Int :=
  let guess := (binade num den * 30103) / 100000
  let below (e : Int) : Bool :=
    if 0 ≤ e then num < den * Nat.pow 10 e.toNat else num * Nat.pow 10 (-e).toNat < den
  if below guess then guess - 1
  else if below (guess + 1) then guess
  else guess + 1

/-- The numbers that read as a given one: its neighbourhood in quarters of its last place. -/
structure Neighbourhood where
  value : Nat
  low : Nat
  high : Nat
  /-- Whether the two ends belong to it. -/
  closed : Bool
  /-- The exponent of two of one quarter. -/
  exponent : Int
  deriving DecidableEq, Repr

/-- The neighbourhood of a magnitude; it is narrower below a power of two. -/
def Magnitude.neighbourhood (format : Format) (x : Magnitude) : Neighbourhood :=
  let narrow := x.mantissa = Nat.pow 2 (format.precision - 1) ∧ format.minExponent < x.exponent
  { value := 4 * x.mantissa
    low := 4 * x.mantissa - (if narrow then 1 else 2)
    high := 4 * x.mantissa + 2
    closed := x.mantissa % 2 = 0
    exponent := x.exponent - 2 }

/-- One quarter over `10 ^ grid`, as a numerator and a denominator. -/
def Neighbourhood.unit (area : Neighbourhood) (grid : Int) : Nat × Nat :=
  let (num, den) := Magnitude.ratio ⟨1, area.exponent⟩
  if 0 ≤ grid then (num, den * Nat.pow 10 grid.toNat)
  else (num * Nat.pow 10 (-grid).toNat, den)

/-- The multiple of `10 ^ grid` nearest to the value, if one lies in the neighbourhood. -/
def Neighbourhood.gridPoint? (area : Neighbourhood) (grid : Int) : Option Nat :=
  let (num, den) := area.unit grid
  let value := area.value * num
  let floor := value / den
  let admits (scaled bound : Nat) : Bool := if area.closed then scaled ≤ bound else scaled < bound
  let lower := admits (area.low * num) (floor * den)
  let upper := admits ((floor + 1) * den) (area.high * num)
  let down := value - floor * den
  let up := (floor + 1) * den - value
  if lower && upper then
    if down < up then some floor
    else if up < down then some (floor + 1)
    else some (floor + floor % 2)
  else if lower then some floor
  else if upper then some (floor + 1)
  else none

/-- Decimal digits and the exponent of the first of them. -/
structure Digits where
  digits : List Char
  exponent : Int
  deriving DecidableEq, Repr

/-- The digits of a multiple of `10 ^ grid`, without the zeros at the end. -/
def Digits.ofGridPoint (point : Nat) (grid : Int) : Digits :=
  let all := Nat.toDigits 10 point
  let kept := (all.reverse.dropWhile (· = '0')).reverse
  ⟨if kept.isEmpty then ['0'] else kept, grid + all.length - 1⟩

/-- The shortest digits of a magnitude; zero is the one digit `0`. -/
def Magnitude.shortest (format : Format) (x : Magnitude) : Digits :=
  if x.mantissa = 0 then
    ⟨['0'], 0⟩
  else
    let (num, den) := x.ratio
    let lead := leadingExponent num den
    let area := x.neighbourhood format
    let found := (List.range 17).findSome? fun (count : Nat) =>
      let grid : Int := lead - count
      (area.gridPoint? grid).map fun point => Digits.ofGridPoint point grid
    found.getD ⟨['0'], 0⟩

end Decimal

end ChatGateway
