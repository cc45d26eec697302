/-! A 32-bit number written with one decimal place. The exact value is rounded to tenths, a tie going
to the even digit, and a minus sign is kept even when nothing else is left. -/

set_option autoImplicit false

namespace Tilewalk.OneDecimal

open Float.Model (UnpackedFloat)

def roundHalfEven (m : Nat) (e : Int) : Nat :=
  let k := (-e).toNat
  let unit := 1 <<< k
  if k = 0 then m <<< e.toNat
  else
    let whole := m / unit
    let twice := 2 * (m % unit)
    if unit < twice ∨ (twice = unit ∧ whole % 2 = 1) then whole + 1 else whole

def signText : UnpackedFloat.Sign → String
  | .negative => "-"
  | .positive => ""

def tenthsText (n : Nat) : String :=
  toString (n / 10) ++ "." ++ toString (n % 10)

def text (x : Float32) : String :=
  match x.toModel.unpack with
  | .notANumber => "NaN"
  | .infinity s => signText s ++ "inf"
  | .zero s => signText s ++ tenthsText 0
  | .finite s m e _ => signText s ++ tenthsText (roundHalfEven (10 * m) e)

end Tilewalk.OneDecimal
