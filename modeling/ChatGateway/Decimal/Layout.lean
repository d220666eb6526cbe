import ChatGateway.Decimal.Shortest

/-!
# Decimal layout

How digits are laid out as text: in place while the leading exponent lies in a
range, with `.0` after a whole number, and otherwise in scientific notation with
a signed exponent and no padding.
-/

namespace ChatGateway

namespace Decimal

/-- The leading exponents that are written in place. -/
structure Layout where
  plainFrom : Int
  plainTo : Int
  deriving DecidableEq, Repr

namespace Layout

/-- Double-precision numbers are written in place from `1e-5` to below `1e16`. -/
def double : Layout := ⟨-5, 15⟩

/-- Single-precision numbers are written in place from `1e-6` to below `1e13`. -/
def single : Layout := ⟨-6, 12⟩

/-- Digits in place: zeros fill up to the point on either side of it. -/
def plain (number : Digits) : List Char :=
  if number.exponent < 0 then
    '0' :: '.' :: (List.replicate (-number.exponent - 1).toNat '0' ++ number.digits)
  else
    let places := number.exponent.toNat + 1
    let whole := number.digits.take places
    let rest := number.digits.drop places
    whole ++ List.replicate (places - whole.length) '0' ++
      '.' :: (if rest.isEmpty then ['0'] else rest)

/-- Scientific notation: one digit, the others after a point, and the exponent with its sign. -/
def scientific (number : Digits) : List Char :=
  let fraction := number.digits.drop 1
  number.digits.take 1 ++ (if fraction.isEmpty then [] else '.' :: fraction) ++
    'e' :: (if number.exponent < 0 then '-' else '+') :: Nat.toDigits 10 number.exponent.natAbs

/-- The text of a number in this layout. -/
def write (layout : Layout) (negative : Bool) (number : Digits) : List Char :=
  let size :=
    if layout.plainFrom ≤ number.exponent ∧ number.exponent ≤ layout.plainTo then plain number
    else scientific number
  if negative then '-' :: size else size

end Layout

/-- The text of a double-precision number. -/
def writeDouble (x : Binary) : List Char :=
  Layout.double.write x.negative (x.size.shortest .double)

/-- The text of a single-precision number. -/
def writeSingle (x : Binary) : List Char :=
  Layout.single.write x.negative (x.size.shortest .single)

end Decimal

end ChatGateway
