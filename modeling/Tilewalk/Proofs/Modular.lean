import Mathlib.Data.Int.ModEq
import Tilewalk.Proofs.Registers

/-! The registers compute modulo `2 ^ 32`. Each holds the 32-bit residue of what its own operations come to
over all whole numbers, as long as none of them divides; quotients are those of the stored values. -/

set_option autoImplicit false

namespace Tilewalk

namespace Operation

/-- What the operation comes to over all whole numbers. -/
def exact : Operation → Int → Int → Int
  | add, v, n => v + n
  | subtract, v, n => v - n
  | multiply, v, n => v * n
  | divide, v, n => if n = 0 then v else v.tdiv n
  | assign, _, n => n

/-- The value after the operation; a division by zero keeps it. -/
def stored (o : Operation) (v n : Int32) : Int32 := (o.result? v n).getD v

theorem stored_ofInt {o : Operation} (whole : o ≠ divide) (v : Int) (n : Int32) :
    o.stored (.ofInt v) n = .ofInt (o.exact v n.toInt) := by
  cases o with
  | add => simp [stored, result?, exact, Int32.ofInt_add]
  | subtract => simp [stored, result?, exact, Int32.ofInt_sub]
  | multiply => simp [stored, result?, exact, Int32.ofInt_mul]
  | divide => exact absurd rfl whole
  | assign => simp [stored, result?, exact]

/-- Only the quotient of the least value by minus one does not fit, and it wraps around to the least
value. -/
theorem toInt_stored_divide (v : Int32) {n : Int32} (divisor : n ≠ 0) :
    (divide.stored v n).toInt
      = if v = .minValue ∧ n = -1 then Int32.minValue.toInt else v.toInt.tdiv n.toInt := by
  have quotient : divide.stored v n = v / n := by simp [stored, result?, divisor]
  rw [quotient]
  split
  · next least =>
    rw [least.1, least.2]
    rfl
  · next fits =>
    by_cases minus : n = -1
    · exact Int32.toInt_div_of_ne_left v n fun least => fits ⟨least, minus⟩
    · exact Int32.toInt_div_of_ne_right v n minus

end Operation

structure Calculation where
  register : Register
  operation : Operation
  operand : Int32
deriving DecidableEq

namespace Calculation

/-- What calculations come to over all whole numbers, from zero on. -/
def total (calculations : List Calculation) : Int :=
  calculations.foldl (fun v c => c.operation.exact v c.operand.toInt) 0

theorem foldl_stored {calculations : List Calculation}
    (whole : ∀ c ∈ calculations, c.operation ≠ .divide) (v : Int) :
    calculations.foldl (fun v c => c.operation.stored v c.operand) (.ofInt v)
      = .ofInt (calculations.foldl (fun v c => c.operation.exact v c.operand.toInt) v) := by
  -- The value so far is general, as the residue of any whole number.
  induction calculations generalizing v with
  | nil => rfl
  | cons c rest ih =>
    obtain ⟨here, later⟩ := List.forall_mem_cons.mp whole
    rw [List.foldl_cons, List.foldl_cons, Operation.stored_ofInt here]
    exact ih later _

end Calculation

theorem ofInt_eq_iff_modEq (n : Int) (v : Int32) : .ofInt n = v ↔ v.toInt ≡ n [ZMOD 2 ^ 32] := by
  constructor
  · rintro rfl
    rw [Int32.toInt_ofInt]
    exact Int.bmod_emod
  · intro same
    refine (Int32.ofInt_eq_iff_bmod_eq_toInt n v).mpr ?_
    calc n.bmod (2 ^ 32) = (n % 2 ^ 32).bmod (2 ^ 32) := (Int.emod_bmod n (2 ^ 32)).symm
      _ = (v.toInt % 2 ^ 32).bmod (2 ^ 32) := congrArg (Int.bmod · (2 ^ 32)) same.symm
      _ = v.toInt.bmod (2 ^ 32) := Int.emod_bmod v.toInt (2 ^ 32)
      _ = v.toInt := v.toInt_bmod

namespace Registers

theorem operate_eq (s : Registers) (r : Register) (o : Operation) (n : Int32) :
    s.operate r o n = if o.stored (s.get r) n = s.get r then s
      else s.announce r (o.stored (s.get r) n) := by
  rw [operate, Operation.stored]
  cases o.result? (s.get r) n with
  | none => exact (if_pos rfl).symm
  | some v => rfl

theorem get_operate (s : Registers) (r q : Register) (o : Operation) (n : Int32) :
    (s.operate r o n).get q = if q = r then o.stored (s.get r) n else s.get q := by
  rw [operate_eq]
  split
  · next unchanged =>
    rw [unchanged]
    split
    · next same => rw [same]
    · rfl
  · exact s.get_announce r q _

def calculate (s : Registers) (c : Calculation) : Registers :=
  s.operate c.register c.operation c.operand

def calculateAll (s : Registers) (calculations : List Calculation) : Registers :=
  calculations.foldl calculate s

theorem get_calculateAll (s : Registers) (calculations : List Calculation) (r : Register) :
    (s.calculateAll calculations).get r = (calculations.filter (·.register = r)).foldl
      (fun v c => c.operation.stored v c.operand) (s.get r) := by
  induction calculations generalizing s with
  | nil => rfl
  | cons c rest ih =>
    have step : (s.calculate c).get r = _ := s.get_operate c.register r c.operation c.operand
    refine (ih (s.calculate c)).trans ?_
    by_cases own : c.register = r
    · rw [if_pos own.symm] at step
      rw [step, List.filter_cons_of_pos (by simpa using own), List.foldl_cons, own]
    · rw [if_neg (Ne.symm own)] at step
      rw [step, List.filter_cons_of_neg (by simpa using own)]

/-- A register only takes part in its own calculations. Without a division among them it holds the one
word that is congruent to their total, and a division cuts the quotient of the word toward zero. -/
theorem registers_hold_residues (calculations : List Calculation) (r : Register) :
    let s := fresh.calculateAll calculations
    let own := calculations.filter (·.register = r)
    (∀ others : List Calculation, others.filter (·.register = r) = own →
      (fresh.calculateAll others).get r = s.get r) ∧
    ((∀ c ∈ own, c.operation ≠ .divide) →
      ∀ v : Int32, s.get r = v ↔ v.toInt ≡ Calculation.total own [ZMOD 2 ^ 32]) ∧
    (∀ n : Int32, n ≠ 0 → ((s.calculate ⟨r, .divide, n⟩).get r).toInt
      = if s.get r = .minValue ∧ n = -1 then Int32.minValue.toInt
        else (s.get r).toInt.tdiv n.toInt) ∧
    s.calculate ⟨r, .divide, 0⟩ = s := by
  intro s own
  have zero : fresh.get r = .ofInt 0 := by cases r <;> rfl
  have known : s.get r = _ := fresh.get_calculateAll calculations r
  refine ⟨fun others same => ?_, fun whole v => ?_, fun n divisor => ?_, ?_⟩
  · rw [known, get_calculateAll, same]
  · rw [known, zero, Calculation.foldl_stored whole 0]
    exact ofInt_eq_iff_modEq _ v
  · have divided : (s.calculate ⟨r, .divide, n⟩).get r = _ := s.get_operate r r .divide n
    rw [divided, if_pos rfl]
    exact Operation.toInt_stored_divide _ divisor
  · exact s.operate_divide_zero r

def overflowing : List Calculation :=
  [⟨.ruby, .assign, .maxValue⟩, ⟨.emerald, .assign, 7⟩, ⟨.ruby, .add, 1⟩, ⟨.emerald, .divide, -2⟩,
    ⟨.ruby, .multiply, 3⟩]

/-- Three times `2 ^ 31` is congruent to the least value, and so is its quotient by minus one. -/
theorem overflow_leaves_least_value :
    (∀ c ∈ overflowing.filter (·.register = .ruby), c.operation ≠ .divide) ∧
    (fresh.calculateAll overflowing).get .ruby = .minValue ∧
    (((fresh.calculateAll overflowing).calculate ⟨.ruby, .divide, -1⟩).get .ruby).toInt
      = Int32.minValue.toInt := by
  obtain ⟨-, residue, quotient, -⟩ := registers_hold_residues overflowing .ruby
  have whole : ∀ c ∈ overflowing.filter (·.register = .ruby), c.operation ≠ .divide := by decide
  have least := (residue whole .minValue).mpr (by decide)
  refine ⟨whole, least, (quotient (-1) (by decide)).trans ?_⟩
  rw [least]
  rfl

end Registers
end Tilewalk
