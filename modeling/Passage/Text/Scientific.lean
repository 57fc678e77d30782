import Passage.Text.Decimal

/-! Floats from decimal digits and a power of ten. -/

namespace Passage.Text

/-- The float nearest to `mantissa * 10 ^ exponent`. Outside the range of finite floats no
power is formed. -/
def nearestFloat (mantissa : Nat) (exponent : Int) : Float :=
  let top := exponent + (decimal mantissa).length
  if mantissa = 0 || top < -400 then 0.0
  else if 400 < top then 1.0 / 0.0
  else if exponent < 0 then Float.ofScientific mantissa true exponent.natAbs
  else Float.ofScientific mantissa false exponent.natAbs

end Passage.Text
