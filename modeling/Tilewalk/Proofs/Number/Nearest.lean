import Tilewalk.Proofs.Number.Value

/-! Numbers taken to the nearest 32-bit integer and back. Below 24 bits an integer is converted exactly;
beyond, a number that was rounded to an integer was that integer before, or it lay beyond the range. So
the way back leads to the same integer again. -/

set_option autoImplicit false

namespace Tilewalk.Binary32

open Float.Model (Format UnpackedFloat)
open Float.Model.UnpackedFloat

variable {m k : Nat} {e : Int}

theorem round_scaled (s : Sign) (full : Full m) (k : Nat) :
    UnpackedFloat.round Format.binary32 s (m * 2 ^ k) 0 = .finite s m k full.pos := by
  have fits := full.targetExponent_eq (e := k) (by omega)
  have same := totalExponent_scaled full.pos k k
  rw [Int.sub_self] at same
  have kept := roundWithAccuracy_scaled s full.pos fits k
  rw [Int.sub_self] at kept
  have none : (0 - (k : Int)).toNat = 0 := by omega
  simp only [UnpackedFloat.round, same, fits, decreaseExponent, none, Nat.shiftLeft_zero]
  simpa using kept

@[simp] theorem roundHalfUp_whole (m k : Nat) : roundHalfUp m k = m * 2 ^ k := by
  have amount : (-(k : Int)).toNat = 0 := by omega
  rw [roundHalfUp, amount]
  exact Nat.shiftLeft_eq m k

theorem nearest_ofInt_scaled (s : Sign) (full : Full m) (most : k ≤ 104) :
    nearestInt32 (ofInt (s.apply (m * 2 ^ k : Nat))) = .ofIntClamp (s.apply (m * 2 ^ k : Nat)) := by
  have pos : 0 < m * 2 ^ k := Nat.mul_pos full.pos (Nat.two_pow_pos k)
  have unpacked : (ofInt (s.apply (m * 2 ^ k : Nat))).toModel.unpack = .finite s m k full.pos := by
    rw [ofInt_apply s pos, round_scaled s full k]
    exact unpack_pack_full s full (by omega) (by omega)
  rw [nearestInt32, unpacked, roundUnpacked, roundHalfUp_whole]

theorem roundHalfUp_lt (short : m < 2 ^ 24) (fraction : e ≤ 0) : roundHalfUp m e < 2 ^ 24 := by
  rw [roundHalfUp]
  split
  · next none =>
    have whole : e.toNat = 0 := by omega
    rw [whole, Nat.shiftLeft_zero]
    exact short
  · next some =>
    obtain ⟨k, amount⟩ : ∃ k, (-e).toNat = k + 1 := Nat.exists_eq_succ_of_ne_zero some
    have scale : 0 < 2 ^ k := Nat.two_pow_pos k
    rw [amount, Nat.shiftLeft_eq, Nat.shiftRight_eq_div_pow]
    refine Nat.div_lt_of_lt_mul ?_
    rw [Nat.pow_succ, Nat.pow_succ]
    omega

theorem nearest_ofIntClamp {n : Int} (kept : nearestInt32 (ofInt n) = .ofIntClamp n) :
    nearestInt32 (ofInt (Int32.ofIntClamp n).toInt) = .ofIntClamp n := by
  by_cases above : Int32.minValue.toInt ≤ n
  · by_cases below : n ≤ Int32.maxValue.toInt
    · rw [Int32.toInt_ofIntClamp above below, kept]
    · have greatest : Int32.ofIntClamp n = .maxValue := by
        rw [Int32.ofIntClamp, dif_pos above, dif_neg below]
      rw [greatest]
      decide
  · have least : Int32.ofIntClamp n = .minValue := by rw [Int32.ofIntClamp, dif_neg above]
    rw [least]
    decide

/-- The integer nearest to a number is the one nearest to itself as a number. -/
theorem nearest_ofInt_nearest (x : Float32) :
    nearestInt32 (ofInt (nearestInt32 x).toInt) = nearestInt32 x := by
  have rounded : nearestInt32 x = roundUnpacked x.toModel.unpack := rfl
  rw [rounded]
  cases unpacked : x.toModel.unpack with
  | notANumber => decide
  | zero s => cases s <;> decide
  | infinity s => cases s <;> decide
  | finite s m e pos =>
    obtain ⟨shape, most⟩ := canonical_of_unpack unpacked
    refine nearest_ofIntClamp (n := s.apply (roundHalfUp m e)) ?_
    by_cases fraction : e ≤ 0
    · have small : (s.apply (roundHalfUp m e)).natAbs < 2 ^ 24 := by
        have bits := roundHalfUp_lt shape.upper fraction
        cases s <;> simpa [Sign.apply] using bits
      exact (isWhole_ofInt small).nearest
    · -- A number this large has no fraction, and its mantissa is full.
      have full : Full m := ⟨shape.normal.resolve_right (by omega), shape.upper⟩
      obtain ⟨k, rfl⟩ : ∃ k : Nat, e = k := Int.eq_ofNat_of_zero_le (by omega)
      rw [roundHalfUp_whole]
      exact nearest_ofInt_scaled s full (by omega)

end Tilewalk.Binary32
