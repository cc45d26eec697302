/-! Exact conversions between 32-bit floating-point numbers and integers, decided on the sign,
mantissa and exponent of the number. -/

set_option autoImplicit false

namespace Tilewalk.Binary32

open Float.Model (Format UnpackedFloat)

def roundHalfUp (m : Nat) (e : Int) : Nat :=
  let k := (-e).toNat
  if k = 0 then m <<< e.toNat else (2 * m + 1 <<< k) >>> (k + 1)

/-- The whole number nearest to an unpacked number, a half going away from zero. Infinity goes to
the end of the 32-bit range, and what is not a number goes to zero. -/
def roundUnpacked : UnpackedFloat → Int32
  | .notANumber => 0
  | .infinity .positive => Int32.maxValue
  | .infinity .negative => Int32.minValue
  | .zero _ => 0
  | .finite s m e _ => Int32.ofIntClamp (s.apply (roundHalfUp m e))

def nearestInt32 (x : Float32) : Int32 :=
  roundUnpacked x.toModel.unpack

def ofInt (n : Int) : Float32 :=
  .ofModel (.ofInt n)

/-- `x` kept between `lo` and `hi`; what is not a number stays as it is. -/
def clamp (x lo hi : Float32) : Float32 :=
  if x < lo then lo else if hi < x then hi else x

/-- `x` when it is above `floor`, and `floor` otherwise, also when `x` is not a number. -/
def atLeast (floor x : Float32) : Float32 :=
  if floor < x then x else floor

end Tilewalk.Binary32
