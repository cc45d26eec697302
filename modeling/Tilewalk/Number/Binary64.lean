/-! The 64-bit numbers of the clock and of document literals: widening, narrowing, reading a decimal
and the total order by which due times are sorted. -/

set_option autoImplicit false

namespace Tilewalk.Binary64

open Float.Model (Format UnpackedFloat)

def roundTo (format : Format) : UnpackedFloat → UnpackedFloat
  | .finite s m e _ => .round format s m e
  | other => other

def widen (x : Float32) : Float :=
  .ofModel (.pack (roundTo .binary64 x.toModel.unpack))

def narrow (x : Float) : Float32 :=
  .ofModel (.pack (roundTo .binary32 x.toModel.unpack))

def ofDecimal (m : Nat) (e : Int) : Float :=
  .ofModel (.pack (.ofScientific .binary64 m e))

/-- Position of a number in the total order: negative zero comes just before zero. -/
def orderKey (x : Float) : Int :=
  let bits := x.toBits.toNat
  if bits < 0x8000000000000000 then bits else 0x7fffffffffffffff - bits

end Tilewalk.Binary64
