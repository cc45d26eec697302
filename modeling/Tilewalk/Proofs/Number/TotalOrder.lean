import Mathlib
import Tilewalk.Number.Binary64
import Tilewalk.Proofs.Number.Order

/-! The order of 64-bit numbers and the total order in which due times are sorted. Each number has a place,
read off its bits, by which it is compared; the total order agrees with the places, and only the two
zeros, which share one, are told apart by it. -/

set_option autoImplicit false

namespace Tilewalk.Binary64

open Float.Model (Format UnpackedFloat)
open Float.Model.UnpackedFloat

variable {m m₁ m₂ : Nat} {e e₁ e₂ : Int} {i j : Int} {x y z : Float} {a b : UnpackedFloat}

/-- A mantissa that is as long as it can be: it fills its 53 bits unless the exponent is the least. -/
structure Canonical (m : Nat) (e : Int) : Prop where
  pos : 0 < m
  upper : m < 2 ^ 53
  least : -1074 ≤ e
  most : e ≤ 971
  normal : 2 ^ 52 ≤ m ∨ e = -1074

def place (m : Nat) (e : Int) : Int := (e + 1074) * 2 ^ 52 + m

def endPlace : Int := 2047 * 2 ^ 52

theorem Canonical.place_pos (shape : Canonical m e) : 0 < place m e := by
  have pos := shape.pos
  have least := shape.least
  unfold place
  omega

theorem Canonical.place_lt (shape : Canonical m e) : place m e < endPlace := by
  have upper := shape.upper
  have most := shape.most
  unfold place endPlace
  omega

theorem endPlace_pos : 0 < endPlace := by decide

/-- Every number has a place, and the two zeros share theirs. -/
inductive Placed : UnpackedFloat → Int → Prop where
  | zero (s : Sign) : Placed (.zero s) 0
  | finite (s : Sign) {m : Nat} {e : Int} (shape : Canonical m e) :
      Placed (.finite s m e shape.pos) (s.apply (place m e))
  | infinite (s : Sign) : Placed (.infinity s) (s.apply endPlace)

theorem Canonical.compares (left : Canonical m₁ e₁) (right : Canonical m₂ e₂) :
    ((compare e₁ e₂).then (compare m₁ m₂)).Compares (place m₁ e₁) (place m₂ e₂) := by
  obtain ⟨pos₁, upper₁, least₁, -, normal₁⟩ := left
  obtain ⟨pos₂, upper₂, least₂, -, normal₂⟩ := right
  unfold place
  rcases lt_trichotomy e₁ e₂ with less | rfl | more
  · rw [compare_lt_iff_lt.mpr less]
    change _ < _
    omega
  · rw [compare_eq_iff_eq.mpr rfl]
    rcases lt_trichotomy m₁ m₂ with less | rfl | more
    · rw [compare_lt_iff_lt.mpr less]
      change _ < _
      omega
    · rw [compare_eq_iff_eq.mpr rfl]
      exact rfl
    · rw [compare_gt_iff_gt.mpr more]
      change _ > _
      omega
  · rw [compare_gt_iff_gt.mpr more]
    change _ > _
    omega

theorem compares_neg {o : Ordering} (compares : o.Compares i j) : o.swap.Compares (-i) (-j) := by
  cases o with
  | lt => exact neg_lt_neg compares
  | eq => exact congrArg Neg.neg compares
  | gt => exact neg_lt_neg compares

theorem Placed.compares (left : Placed a i) (right : Placed b j) :
    ∃ o, a.compare b = some o ∧ o.Compares i j := by
  have last := endPlace_pos
  -- The signs decide unless they agree; two numbers of one sign are compared by their places.
  cases left with
  | zero s => cases right with
    | zero t => exact ⟨.eq, rfl, rfl⟩
    | finite t shape =>
      have pos := shape.place_pos
      cases t with
      | negative => exact ⟨.gt, rfl, neg_lt_zero.mpr pos⟩
      | positive => exact ⟨.lt, rfl, pos⟩
    | infinite t => cases t with
      | negative => exact ⟨.gt, rfl, neg_lt_zero.mpr last⟩
      | positive => exact ⟨.lt, rfl, last⟩
  | finite s shape =>
    have pos := shape.place_pos
    have below := shape.place_lt
    cases right with
    | zero t => cases s with
      | negative => exact ⟨.lt, rfl, neg_lt_zero.mpr pos⟩
      | positive => exact ⟨.gt, rfl, pos⟩
    | finite t shape' =>
      have pos' := shape'.place_pos
      cases s with
      | negative => cases t with
        | negative => exact ⟨_, rfl, compares_neg (shape.compares shape')⟩
        | positive => exact ⟨.lt, rfl, (neg_lt_zero.mpr pos).trans pos'⟩
      | positive => cases t with
        | negative => exact ⟨.gt, rfl, (neg_lt_zero.mpr pos').trans pos⟩
        | positive => exact ⟨_, rfl, shape.compares shape'⟩
    | infinite t => cases t with
      | negative => cases s with
        | negative => exact ⟨.gt, rfl, neg_lt_neg below⟩
        | positive => exact ⟨.gt, rfl, (neg_lt_zero.mpr last).trans pos⟩
      | positive => cases s with
        | negative => exact ⟨.lt, rfl, (neg_lt_zero.mpr pos).trans last⟩
        | positive => exact ⟨.lt, rfl, below⟩
  | infinite s => cases right with
    | zero t => cases s with
      | negative => exact ⟨.lt, rfl, neg_lt_zero.mpr last⟩
      | positive => exact ⟨.gt, rfl, last⟩
    | finite t shape =>
      have pos := shape.place_pos
      have below := shape.place_lt
      cases s with
      | negative => cases t with
        | negative => exact ⟨.lt, rfl, neg_lt_neg below⟩
        | positive => exact ⟨.lt, rfl, (neg_lt_zero.mpr last).trans pos⟩
      | positive => cases t with
        | negative => exact ⟨.gt, rfl, (neg_lt_zero.mpr pos).trans last⟩
        | positive => exact ⟨.gt, rfl, below⟩
    | infinite t => cases s with
      | negative => cases t with
        | negative => exact ⟨.eq, rfl, rfl⟩
        | positive => exact ⟨.lt, rfl, (neg_lt_zero.mpr last).trans last⟩
      | positive => cases t with
        | negative => exact ⟨.gt, rfl, (neg_lt_zero.mpr last).trans last⟩
        | positive => exact ⟨.eq, rfl, rfl⟩

/-! ## Places and bits -/

theorem toNat_eq_fields (bits : BitVec 64) :
    bits.toNat = (@unpackSign Format.binary64 bits).toNat * 2 ^ 63
      + (@unpackExponent Format.binary64 bits).toNat * 2 ^ 52
      + (@unpackMantissa Format.binary64 bits).toNat := by
  have bound := bits.isLt
  simp only [unpackSign, unpackExponent, unpackMantissa, BitVec.toNat_cast,
    BitVec.extractLsb_toNat, Nat.shiftRight_eq_div_pow]
  norm_num
  omega

theorem toNat_implicit (mantissa : BitVec 52) :
    (1#1 ++ mantissa).toNat = 2 ^ 52 + mantissa.toNat := by
  rw [BitVec.toNat_append, Nat.shiftLeft_eq, Nat.or_comm, BitVec.toNat_ofNat]
  exact (Nat.or_two_pow_eq_add_of_lt mantissa.isLt).trans (Nat.add_comm _ _)

theorem placed_unpack (bits : BitVec 64) (number : unpack Format.binary64 bits ≠ .notANumber) :
    Placed (unpack Format.binary64 bits) ((Sign.ofBitVec (@unpackSign Format.binary64 bits)).apply
      ((@unpackExponent Format.binary64 bits).toNat * 2 ^ 52
        + (@unpackMantissa Format.binary64 bits).toNat)) := by
  generalize exponentOf : @unpackExponent Format.binary64 bits = exponent
  generalize mantissaOf : @unpackMantissa Format.binary64 bits = mantissa
  generalize signOf : Sign.ofBitVec (@unpackSign Format.binary64 bits) = s
  have bias : (Format.binary64.exponentBias : Int) + (52 : Nat) = 1075 := rfl
  have below : mantissa.toNat < 2 ^ 52 := mantissa.isLt
  simp only [unpack, exponentOf, mantissaOf, signOf] at number ⊢
  rw [bias] at number ⊢
  -- All ones in the exponent stand for infinity, all zeros for the numbers without a leading one.
  split
  · next all =>
    split
    · next blank =>
      rw [all, blank]
      exact .infinite s
    · next filled => simp [all, filled] at number
  · next ordinary =>
    split
    · next least =>
      have zero : exponent.toNat = 0 := congrArg BitVec.toNat least
      split
      · next blank =>
        have same : s.apply (exponent.toNat * 2 ^ 52 + mantissa.toNat) = 0 := by
          rw [zero, blank]
          cases s <;> rfl
        rw [same]
        exact .zero s
      · next filled =>
        have pos : 0 < mantissa.toNat := by bv_omega
        have same : (exponent.toNat * 2 ^ 52 + mantissa.toNat : Int)
            = place mantissa.toNat (exponent.toNat - 1075 + 1) := by
          unfold place
          omega
        rw [same]
        exact .finite s ⟨pos, by omega, by omega, by omega, .inr (by omega)⟩
    · next normal =>
      have most : exponent.toNat ≤ 2046 := by bv_omega
      have positive : 1 ≤ exponent.toNat := by bv_omega
      have digits := toNat_implicit mantissa
      have same : (exponent.toNat * 2 ^ 52 + mantissa.toNat : Int)
          = place (1#1 ++ mantissa).toNat (exponent.toNat - 1075) := by
        unfold place
        omega
      rw [same]
      exact .finite s ⟨by omega, by omega, by omega, by omega, .inl (by omega)⟩

/-- The total order goes by the places, except that it moves what has a minus sign down by one. -/
theorem exists_placed (number : x.isNaN = false) :
    ∃ i, Placed x.toModel.unpack i ∧
      (orderKey x = i ∧ 0 ≤ i ∨ orderKey x = i - 1 ∧ i ≤ 0) := by
  have number : unpack Format.binary64 x.toModel.toBits.toBitVec ≠ .notANumber := by
    intro nan
    have reduced : x.isNaN = (unpack Format.binary64 x.toModel.toBits.toBitVec).isNaN := rfl
    rw [reduced, nan] at number
    cases number
  refine ⟨_, placed_unpack _ number, ?_⟩
  -- Read as an integer, the bits are the place, and from the sign bit on they count downwards.
  have fields := toNat_eq_fields x.toModel.toBits.toBitVec
  have exponent : (@unpackExponent Format.binary64 x.toModel.toBits.toBitVec).toNat < 2 ^ 11 :=
    (@unpackExponent Format.binary64 x.toModel.toBits.toBitVec).isLt
  have mantissa : (@unpackMantissa Format.binary64 x.toModel.toBits.toBitVec).toNat < 2 ^ 52 :=
    (@unpackMantissa Format.binary64 x.toModel.toBits.toBitVec).isLt
  have key : orderKey x = if x.toModel.toBits.toBitVec.toNat < 2 ^ 63
      then (x.toModel.toBits.toBitVec.toNat : Int)
      else 2 ^ 63 - 1 - x.toModel.toBits.toBitVec.toNat := rfl
  rcases BitVec.eq_zero_or_eq_one (@unpackSign Format.binary64 x.toModel.toBits.toBitVec)
    with positive | negative
  · rw [positive] at fields ⊢
    have unsigned : (0#1).toNat = 0 := rfl
    rw [if_pos (by omega)] at key
    have plain : Sign.ofBitVec 0#1 = .positive := rfl
    rw [plain]
    simp only [Sign.apply]
    omega
  · rw [negative] at fields ⊢
    have signed : (1#1).toNat = 1 := rfl
    rw [if_neg (by omega)] at key
    have minus : Sign.ofBitVec 1#1 = .negative := rfl
    rw [minus]
    simp only [Sign.apply]
    omega

theorem orderKey_inj (same : orderKey x = orderKey y) : x = y := by
  -- The two ranges of keys, with and without the sign bit, do not meet.
  have bits : x.toBits.toNat = y.toBits.toNat := by
    have left := x.toBits.toNat_lt
    have right := y.toBits.toNat_lt
    unfold orderKey at same
    simp only at same
    split at same <;> split at same <;> omega
  rw [← Float.ofBits_toBits x, UInt64.toNat_inj.mp bits, Float.ofBits_toBits]

theorem lt_iff_compare :
    x < y ↔ x.toModel.unpack.compare y.toModel.unpack = some .lt := by
  have reduced : x < y ↔ x.toModel.unpack.lt y.toModel.unpack = true := decide_eq_true_iff
  rw [reduced, UnpackedFloat.lt, beq_iff_eq]

theorem le_iff_compare :
    x ≤ y ↔ (x.toModel.unpack.compare y.toModel.unpack).any (·.isLE) = true :=
  decide_eq_true_iff

theorem Placed.lt_iff (left : Placed x.toModel.unpack i) (right : Placed y.toModel.unpack j) :
    x < y ↔ i < j := by
  obtain ⟨o, compared, compares⟩ := left.compares right
  rw [lt_iff_compare, compared, ← compares.eq_lt, Option.some.injEq]

theorem Placed.le_iff (left : Placed x.toModel.unpack i) (right : Placed y.toModel.unpack j) :
    x ≤ y ↔ i ≤ j := by
  obtain ⟨o, compared, compares⟩ := left.compares right
  rw [le_iff_compare, compared]
  cases o with
  | lt => exact iff_of_true rfl (le_of_lt compares)
  | eq => exact iff_of_true rfl (le_of_eq compares)
  | gt => exact iff_of_false (fun atMost => by cases atMost) (not_le_of_gt compares)

theorem numbers_of_le (atMost : x ≤ y) : x.isNaN = false ∧ y.isNaN = false := by
  rw [le_iff_compare, Option.any_eq_true] at atMost
  obtain ⟨order, compared, -⟩ := atMost
  -- With what is not a number no comparison has a result.
  have number {z : Float} (defined : z.toModel.unpack ≠ .notANumber) : z.isNaN = false := by
    have reduced : z.isNaN = z.toModel.unpack.isNaN := rfl
    rw [reduced]
    cases unpacked : z.toModel.unpack with
    | notANumber => exact absurd unpacked defined
    | _ => rfl
  constructor
  · refine number fun nan => ?_
    rw [nan] at compared
    cases compared
  · refine number fun nan => ?_
    rw [nan, Binary32.compare_swap] at compared
    cases compared

theorem le_trans (first : x ≤ y) (second : y ≤ z) : x ≤ z := by
  obtain ⟨i, placed, -⟩ := exists_placed (numbers_of_le first).1
  obtain ⟨j, placed', -⟩ := exists_placed (numbers_of_le first).2
  obtain ⟨k, placed'', -⟩ := exists_placed (numbers_of_le second).2
  rw [placed.le_iff placed''] 
  exact ((placed.le_iff placed').mp first).trans ((placed'.le_iff placed'').mp second)

theorem lt_of_le_of_not_le (first : x ≤ y) (number : z.isNaN = false) (beyond : ¬ z ≤ y) :
    x < z := by
  obtain ⟨i, placed, -⟩ := exists_placed (numbers_of_le first).1
  obtain ⟨j, placed', -⟩ := exists_placed (numbers_of_le first).2
  obtain ⟨k, placed'', -⟩ := exists_placed number
  rw [placed''.le_iff placed'] at beyond
  rw [placed.lt_iff placed'']
  exact lt_of_le_of_lt ((placed.le_iff placed').mp first) (not_le.mp beyond)

/-- The total order: less, or the negative zero before the positive one. -/
def Precedes (x y : Float) : Prop := x < y ∨ x = -0 ∧ y = 0

theorem orderKey_lt_iff (left : x.isNaN = false) (right : y.isNaN = false) :
    orderKey x < orderKey y ↔ Precedes x y := by
  have zero : orderKey 0 = 0 := by decide
  have negative : orderKey (-0) = -1 := by decide
  obtain ⟨i, placed, key⟩ := exists_placed left
  obtain ⟨j, placed', key'⟩ := exists_placed right
  rw [Precedes, placed.lt_iff placed']
  constructor
  · intro less
    by_cases below : i < j
    · exact .inl below
    · -- They share a place but not a key, so the place is that of the zeros.
      have first : orderKey x = -1 := by omega
      have second : orderKey y = 0 := by omega
      exact .inr ⟨orderKey_inj (first.trans negative.symm), orderKey_inj (second.trans zero.symm)⟩
  · rintro (below | ⟨rfl, rfl⟩)
    · omega
    · omega

end Tilewalk.Binary64
