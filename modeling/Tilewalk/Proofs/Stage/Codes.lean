import Tilewalk.Stage.Basic

/-! The code table of stage files as a relation: which codes of the map stand for tiles, and for tiles of
which kind. -/

set_option autoImplicit false

namespace Tilewalk
namespace StageFile

def IsTileCode (code : Int32) : Prop :=
  2 ≤ code ∧ code ≤ 7 ∨ 10 ≤ code ∧ code ≤ 39 ∨ 90 ≤ code ∧ code ≤ 99

instance (code : Int32) : Decidable (IsTileCode code) :=
  inferInstanceAs (Decidable (2 ≤ code ∧ code ≤ 7 ∨ 10 ≤ code ∧ code ≤ 39 ∨ 90 ≤ code ∧ code ≤ 99))

/-- The entry configures the code, and no entry before it does. -/
def Configures {α : Type} (entries : List α) (codeOf : α → Int32) (code : Int32) (e : α) : Prop :=
  ∃ before after, entries = before ++ e :: after ∧ codeOf e = code ∧
    ∀ other ∈ before, codeOf other ≠ code

def Unconfigured (f : StageFile) (code : Int32) : Prop :=
  (20 ≤ code ∧ code ≤ 29) ∧ (∀ e ∈ f.gems, e.code ≠ code) ∨
    (30 ≤ code ∧ code ≤ 39) ∧ ∀ e ∈ f.gates, e.code ≠ code

instance (f : StageFile) (code : Int32) : Decidable (f.Unconfigured code) :=
  inferInstanceAs (Decidable ((20 ≤ code ∧ code ≤ 29) ∧ (∀ e ∈ f.gems, e.code ≠ code) ∨
    (30 ≤ code ∧ code ≤ 39) ∧ ∀ e ∈ f.gates, e.code ≠ code))

/-- The kind of tile for which a code of the map stands. -/
inductive Codes (f : StageFile) : Int32 → TileKind → Prop where
  | start : Codes f 2 .start
  | goal : Codes f 3 .goal
  | up : Codes f 4 (.arrow .up)
  | right : Codes f 5 (.arrow .right)
  | down : Codes f 6 (.arrow .down)
  | left : Codes f 7 (.arrow .left)
  | destination {group : UInt8} : group < 10 →
      Codes f (10 + .ofNat group.toNat) (.teleport group .destination)
  | source {group : UInt8} : group < 10 →
      Codes f (90 + .ofNat group.toNat) (.teleport group .source)
  | gem {code : Int32} {e : GemEntry} : 20 ≤ code → code ≤ 29 →
      Configures f.gems (·.code) code e → Codes f code (.gem e.register e.operation e.value)
  | gate {code : Int32} {e : GateEntry} : 30 ≤ code → code ≤ 39 →
      Configures f.gates (·.code) code e → Codes f code (.gate e.register e.comparator e.value)
  | defaultGem {code : Int32} : 20 ≤ code → code ≤ 29 → f.Unconfigured code →
      Codes f code (.gem .ruby .add 0)
  | defaultGate {code : Int32} : 30 ≤ code → code ≤ 39 → f.Unconfigured code →
      Codes f code (.gate .ruby .less 0)

variable {f : StageFile} {code : Int32} {kind : TileKind}

theorem find?_eq_some_iff_configures {α : Type} {entries : List α} {codeOf : α → Int32} {e : α} :
    (entries.find? fun e => decide (codeOf e = code)) = some e ↔ Configures entries codeOf code e := by
  rw [List.find?_eq_some_iff_append]
  constructor
  · rintro ⟨same, before, after, split, others⟩
    exact ⟨before, after, split, of_decide_eq_true same, fun other member => by
      simpa using others other member⟩
  · rintro ⟨before, after, split, same, others⟩
    exact ⟨decide_eq_true same, before, after, split, fun other member => by
      simpa using others other member⟩

theorem gemOf_of_configures {e : GemEntry} (first : Configures f.gems (·.code) code e) :
    f.gemOf code = .gem e.register e.operation e.value := by
  rw [gemOf, find?_eq_some_iff_configures.mpr first]

theorem gateOf_of_configures {e : GateEntry} (first : Configures f.gates (·.code) code e) :
    f.gateOf code = .gate e.register e.comparator e.value := by
  rw [gateOf, find?_eq_some_iff_configures.mpr first]

theorem kindOf_of_gem (least : 20 ≤ code) (most : code ≤ 29) :
    f.kindOf code = some (f.gemOf code) := by
  unfold kindOf
  grind

theorem kindOf_of_gate (least : 30 ≤ code) (most : code ≤ 39) :
    f.kindOf code = some (f.gateOf code) := by
  unfold kindOf
  grind

theorem digit_of_family {first : Int32} (family : first = 10 ∨ first = 90) (least : first ≤ code)
    (most : code ≤ first + 9) : UInt8.ofNat (code - first).toInt.toNat < 10 ∧
      first + .ofNat (UInt8.ofNat (code - first).toInt.toNat).toNat = code := by
  have digit : code = first ∨ code = first + 1 ∨ code = first + 2 ∨ code = first + 3 ∨
      code = first + 4 ∨ code = first + 5 ∨ code = first + 6 ∨ code = first + 7 ∨
      code = first + 8 ∨ code = first + 9 := by
    grind
  rcases family with rfl | rfl <;>
    rcases digit with rfl | rfl | rfl | rfl | rfl | rfl | rfl | rfl | rfl | rfl <;> decide

theorem kindOf_digit {group : UInt8} (within : group < 10) :
    f.kindOf (10 + .ofNat group.toNat) = some (.teleport group .destination) ∧
      f.kindOf (90 + .ofNat group.toNat) = some (.teleport group .source) := by
  have digit : group = 0 ∨ group = 1 ∨ group = 2 ∨ group = 3 ∨ group = 4 ∨ group = 5 ∨
      group = 6 ∨ group = 7 ∨ group = 8 ∨ group = 9 := by
    grind
  rcases digit with rfl | rfl | rfl | rfl | rfl | rfl | rfl | rfl | rfl | rfl <;>
    exact ⟨rfl, rfl⟩

theorem Codes.kindOf (codes : f.Codes code kind) : f.kindOf code = some kind := by
  cases codes with
  | destination within => exact (kindOf_digit within).1
  | source within => exact (kindOf_digit within).2
  | gem least most first => rw [kindOf_of_gem least most, gemOf_of_configures first]
  | gate least most first => rw [kindOf_of_gate least most, gateOf_of_configures first]
  | defaultGem least most missing =>
    have none : ∀ e ∈ f.gems, e.code ≠ code := by
      rcases missing with ⟨-, none⟩ | ⟨within, -⟩
      · exact none
      · grind
    rw [kindOf_of_gem least most, gemOf, List.find?_eq_none.mpr (by simpa using none)]
  | defaultGate least most missing =>
    have none : ∀ e ∈ f.gates, e.code ≠ code := by
      rcases missing with ⟨within, -⟩ | ⟨-, none⟩
      · grind
      · exact none
    rw [kindOf_of_gate least most, gateOf, List.find?_eq_none.mpr (by simpa using none)]
  | _ => rfl

theorem codes_gemOf (least : 20 ≤ code) (most : code ≤ 29) : f.Codes code (f.gemOf code) := by
  cases entry : f.gems.find? fun e => e.code = code with
  | none =>
    have default : f.gemOf code = .gem .ruby .add 0 := by rw [gemOf, entry]
    rw [default]
    exact .defaultGem least most (.inl ⟨⟨least, most⟩, by simpa using entry⟩)
  | some e =>
    have first := find?_eq_some_iff_configures.mp entry
    rw [gemOf_of_configures first]
    exact .gem least most first

theorem codes_gateOf (least : 30 ≤ code) (most : code ≤ 39) : f.Codes code (f.gateOf code) := by
  cases entry : f.gates.find? fun e => e.code = code with
  | none =>
    have default : f.gateOf code = .gate .ruby .less 0 := by rw [gateOf, entry]
    rw [default]
    exact .defaultGate least most (.inr ⟨⟨least, most⟩, by simpa using entry⟩)
  | some e =>
    have first := find?_eq_some_iff_configures.mp entry
    rw [gateOf_of_configures first]
    exact .gate least most first

theorem exists_codes (tile : IsTileCode code) : ∃ kind, f.Codes code kind := by
  rcases tile with ⟨least, most⟩ | ⟨least, most⟩ | ⟨least, most⟩
  · have plain : code = 2 ∨ code = 3 ∨ code = 4 ∨ code = 5 ∨ code = 6 ∨ code = 7 := by grind
    rcases plain with rfl | rfl | rfl | rfl | rfl | rfl
    · exact ⟨_, .start⟩
    · exact ⟨_, .goal⟩
    · exact ⟨_, .up⟩
    · exact ⟨_, .right⟩
    · exact ⟨_, .down⟩
    · exact ⟨_, .left⟩
  · by_cases destination : code ≤ 19
    · obtain ⟨within, same⟩ := digit_of_family (.inl rfl) least (by simpa using destination)
      rw [← same]
      exact ⟨_, .destination within⟩
    · by_cases gem : code ≤ 29
      · exact ⟨_, codes_gemOf (by grind) gem⟩
      · exact ⟨_, codes_gateOf (by grind) most⟩
  · obtain ⟨within, same⟩ := digit_of_family (.inr rfl) least (by simpa using most)
    rw [← same]
    exact ⟨_, .source within⟩

theorem kindOf_eq_none (plain : ¬ IsTileCode code) : f.kindOf code = none := by
  unfold kindOf IsTileCode at *
  grind

theorem isTileCode_iff : IsTileCode code ↔ ∃ kind, f.kindOf code = some kind := by
  constructor
  · intro tile
    obtain ⟨kind, codes⟩ := exists_codes (f := f) tile
    exact ⟨kind, codes.kindOf⟩
  · rintro ⟨kind, known⟩
    refine Decidable.byContradiction fun plain => ?_
    cases known.symm.trans (kindOf_eq_none plain)

theorem kindOf_eq_some_iff : f.kindOf code = some kind ↔ f.Codes code kind := by
  constructor
  · intro known
    obtain ⟨kind', codes⟩ := exists_codes (f := f) (isTileCode_iff.mpr ⟨kind, known⟩)
    cases codes.kindOf.symm.trans known
    exact codes
  · exact Codes.kindOf

end StageFile
end Tilewalk
