import Tilewalk.Screen.Compose

/-! Texts without control characters. The game's own words, glyphs and numbers have none, so a picture or
a message has some only where it repeats a text that the game was given. -/

set_option autoImplicit false

namespace Tilewalk

/-- Neither one of the controls before the blank nor the delete character. -/
def Printable (c : Char) : Prop := 0x20 ≤ c.toNat ∧ c.toNat ≠ 0x7f

instance (c : Char) : Decidable (Printable c) :=
  inferInstanceAs (Decidable (_ ∧ _))

def Clean (text : String) : Prop := ∀ c ∈ text.toList, Printable c

instance (text : String) : Decidable (Clean text) :=
  -- The search may find the instance for all characters at once instead, which does not compute.
  List.decidableBAll Printable text.toList

namespace Clean

variable {first second text : String}

@[simp] theorem append_iff : Clean (first ++ second) ↔ Clean first ∧ Clean second := by
  simp [Clean, or_imp, forall_and]

theorem append (clean : Clean first) (clean' : Clean second) : Clean (first ++ second) :=
  append_iff.mpr ⟨clean, clean'⟩

@[simp] theorem ofList_iff {l : List Char} : Clean (String.ofList l) ↔ ∀ c ∈ l, Printable c := by
  simp [Clean]

theorem digits (n : Nat) : Clean (toString n) := by
  intro c member
  rw [Nat.toString_eq_ofList_toDigits, String.toList_ofList] at member
  -- Digits lie between the blank and the delete character.
  have digit := Nat.isDigit_of_mem_toDigits (by decide) (by decide) member
  simp only [Char.isDigit, Bool.and_eq_true, decide_eq_true_eq, ge_iff_le,
    UInt32.le_iff_toNat_le] at digit
  have least : 48 ≤ c.toNat := digit.1
  have most : c.toNat ≤ 57 := digit.2
  exact ⟨by omega, by omega⟩

theorem integer (n : Int) : Clean (toString n) := by
  cases n with
  | ofNat n => exact digits n
  | negSucc n => exact append (by decide) (digits (n + 1))

theorem oneDecimal (x : Float32) : Clean (OneDecimal.text x) := by
  have tenths (n : Nat) : Clean (OneDecimal.tenthsText n) :=
    ((digits _).append (by decide)).append (digits _)
  have sign (s : Float.Model.UnpackedFloat.Sign) : Clean (OneDecimal.signText s) := by
    cases s <;> decide
  unfold OneDecimal.text
  split
  · decide
  · exact (sign _).append (by decide)
  · exact (sign _).append (tenths 0)
  · exact (sign _).append (tenths _)

end Clean

namespace TileKind

theorem printable_valueGlyph (n : Int32) : Printable (valueGlyph n) := by
  unfold valueGlyph
  split
  · next small =>
    have most : n.toInt ≤ 9 := Int32.le_iff_toInt_le.mp small.2
    have digits : ∀ k ≤ 9, Printable (Char.ofNat ('0'.toNat + k)) := by decide
    exact digits n.toInt.toNat (by omega)
  · decide

theorem clean_glyph (kind : TileKind) : Clean kind.glyph := by
  cases kind with
  | floor => decide
  | start => decide
  | goal => decide
  | arrow d => cases d <;> decide
  | gem r o n =>
    have register : Printable r.initial := by cases r <;> decide
    have operation : Printable o.symbol := by cases o <;> decide
    exact Clean.ofList_iff.mpr (by simp [register, operation, printable_valueGlyph])
  | gate r c n =>
    have register : Printable r.initial := by cases r <;> decide
    have comparator : Printable c.glyph := by cases c <;> decide
    exact Clean.ofList_iff.mpr (by simp [register, comparator, printable_valueGlyph])
  | teleport g role =>
    have group := Clean.digits g.toNat
    cases role with
    | source => exact ((by decide : Clean "T").append group).append (by decide)
    | destination => exact (by decide : Clean ">T").append group

theorem clean_shortGlyph (kind : TileKind) : Clean kind.shortGlyph :=
  Clean.ofList_iff.mpr fun c member => kind.clean_glyph c (List.mem_filter.mp member).1

theorem clean_label (kind : TileKind) : Clean kind.label := by
  unfold label
  split <;> decide

end TileKind

namespace Screen

theorem clean_padLeft {text : String} (width : Nat) (clean : Clean text) :
    Clean (padLeft width text) := by
  refine Clean.append (Clean.ofList_iff.mpr fun c member => ?_) clean
  rw [List.eq_of_mem_replicate member]
  decide

theorem clean_padRight {text : String} (width : Nat) (clean : Clean text) :
    Clean (padRight width text) := by
  refine clean.append (Clean.ofList_iff.mpr fun c member => ?_)
  rw [List.eq_of_mem_replicate member]
  decide

theorem clean_ruleText (rule : EditRule) : Clean (ruleText rule) := by
  cases rule with
  | locked => decide
  | arrow forbidden =>
    cases forbidden with
    | none => decide
    | some d => cases d <;> decide
  | fields r o v => cases r <;> cases o <;> cases v <;> decide

variable {w : World} {v : View}

theorem clean_title (w : World) (v : View) : Clean (title w v) ↔ Clean w.board.name := by
  have index := Clean.digits (v.stageIndex + 1)
  have count := Clean.digits v.stageCount
  have phase : Clean (phaseTitle w.phase) := by cases w.phase <;> decide
  have gap : Clean " " ∧ Clean "  [" ∧ Clean "/" ∧ Clean "]  " := by decide
  simp only [title, Clean.append_iff, index, count, phase, gap, and_true, true_and]

theorem clean_selectionLines : ∀ line ∈ selectionLines w v, Clean line.text := by
  unfold selectionLines
  split
  · next t _ =>
    have label := t.kind.clean_label
    have glyph := t.kind.clean_shortGlyph
    have brackets : Clean " [" ∧ Clean "]" := by decide
    simp [Line.plain, label, glyph, brackets, clean_ruleText]
  · simp only [List.forall_mem_singleton]
    decide

theorem clean_registerLine (s : Registers) (r : Register) : Clean (registerLine s r).text := by
  have name : Clean r.name := by cases r <;> decide
  exact ((clean_padRight 9 name).append (by decide)).append (clean_padLeft 6 (.integer _))

theorem clean_messageLines (message : Clean v.message) :
    ∀ line ∈ messageLines v, Clean line.text := by
  unfold messageLines
  split
  · simp
  · have blank : Clean " " := by decide
    simp [message, blank]

theorem clean_panelLines (message : Clean v.message) :
    ∀ line ∈ panelLines w v, Clean line.text := by
  have registers : ∀ line ∈ Register.all.map (registerLine w.registers), Clean line.text := by
    simp [clean_registerLine]
  have skip : ∀ line ∈ (if w.player.skipArmed then [Line.plain "skip next tile" .red] else []),
      Clean line.text := by
    split
    · simp only [List.forall_mem_singleton]
      decide
    · simp
  have empty : Clean (Line.plain "" .white).text := by decide
  have speed : Clean (speedLine w.player).text :=
    (by decide : Clean "speed     ").append (clean_padLeft 6 (.oneDecimal _))
  simp only [panelLines, List.forall_mem_append, List.forall_mem_cons]
  exact ⟨⟨⟨⟨⟨⟨registers, empty, speed, by simp⟩, skip⟩, empty, by simp⟩, clean_selectionLines⟩,
    empty, by simp⟩, clean_messageLines message⟩

end Screen
end Tilewalk
