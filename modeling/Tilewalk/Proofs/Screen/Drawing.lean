import Tilewalk.Proofs.Screen.Raster
import Tilewalk.Screen.Compose

/-! What is in a picture. Each part is drawn inside the frame, over what was there before, so a symbol of
a picture is blank or comes from one of the parts; and all of them use backgrounds by which a picture
never shows the symbol that stands for an unknown place. -/

set_option autoImplicit false

namespace Tilewalk.Screen

/-- The second frame is the first one with symbols drawn over it, each of them of this kind in its
row. -/
structure DrawsOver (kind : Nat → Symbol → Prop) (f g : Frame) : Prop where
  width : g.width = f.width
  height : g.height = f.height
  places : ∀ x y, (∃ s, g.get? x y = some s ∧ kind y s) ∨ g.get? x y = f.get? x y

namespace DrawsOver

variable {kind : Nat → Symbol → Prop} {f g h : Frame}

theorem symbols (draws : DrawsOver kind f g) {x y : Nat} {s : Symbol} (found : g.get? x y = some s) :
    kind y s ∨ f.get? x y = some s := by
  rcases draws.places x y with ⟨t, drawn, of⟩ | same
  · exact .inl (Option.some.inj (drawn.symm.trans found) ▸ of)
  · exact .inr (same ▸ found)

theorem spares (draws : DrawsOver kind f g) {row : Nat} (free : ∀ s, ¬ kind row s) (x : Nat) :
    g.get? x row = f.get? x row :=
  (draws.places x row).resolve_left fun ⟨s, _, of⟩ => free s of

theorem mono {other : Nat → Symbol → Prop} (more : ∀ y s, kind y s → other y s)
    (draws : DrawsOver kind f g) : DrawsOver other f g where
  width := draws.width
  height := draws.height
  places := fun x y => (draws.places x y).imp_left fun ⟨s, found, of⟩ => ⟨s, found, more y s of⟩

theorem refl (f : Frame) : DrawsOver kind f f := ⟨rfl, rfl, fun _ _ => .inr rfl⟩

theorem trans (first : DrawsOver kind f g) (second : DrawsOver kind g h) : DrawsOver kind f h where
  width := second.width.trans first.width
  height := second.height.trans first.height
  places := fun x y => (second.places x y).elim .inl fun same => same ▸ first.places x y

theorem set (f : Frame) (x y : Nat) {s : Symbol} (drawn : kind y s) :
    DrawsOver kind f (f.set x y s) where
  width := Raster.width_set f x y s
  height := Raster.height_set f x y s
  places := fun i j => by
    rw [Raster.get?_set]
    split
    · next here =>
      obtain ⟨rfl, rfl⟩ := Prod.mk.inj here.1
      exact .inl ⟨s, rfl, drawn⟩
    · exact .inr rfl

theorem write (f : Frame) (x y : Nat) (fg bg : Color) {text : List Char}
    (drawn : ∀ c ∈ text, kind y ⟨c, fg, bg⟩) : DrawsOver kind f (f.write x y fg bg text) := by
  induction text generalizing f x with
  | nil => exact refl f
  | cons c rest ih =>
    exact (set f x y (drawn c List.mem_cons_self)).trans
      (ih _ (x + 1) fun d member => drawn d (List.mem_cons_of_mem _ member))

theorem foldl {α : Type} {step : Frame → α → Frame} {items : List α}
    (draws : ∀ f, ∀ a ∈ items, DrawsOver kind f (step f a)) (f : Frame) :
    DrawsOver kind f (items.foldl step f) := by
  induction items generalizing f with
  | nil => exact refl f
  | cons a rest ih =>
    have first := draws f a List.mem_cons_self
    exact first.trans (ih (fun f b member => draws f b (List.mem_cons_of_mem a member)) (step f a))

end DrawsOver

variable (w : World) (v : View)

def cellBackground (c : Cell) : Color :=
  if c = v.cursor ∧ w.phase = .editing then cursorColor else (cellLabel w v c).2.2

/-- The symbols of the picture, by the part of it that they belong to. -/
inductive Drawn : Symbol → Prop where
  | title {c : Char} : c = ' ' ∨ c ∈ (title w v).toList → Drawn ⟨c, .white, titleColor⟩
  | label {cell : Cell} {c : Char} : c ∈ (cellLabel w v cell).1.toList →
      Drawn ⟨c, (cellLabel w v cell).2.1, cellBackground w v cell⟩
  | player {cell : Cell} : Drawn ⟨playerGlyph w, .yellow, cellBackground w v cell⟩
  | panel {line : Line} {c : Char} : line ∈ panelLines w v → c ∈ line.text.toList →
      Drawn ⟨c, line.fg, line.bg⟩
  | help {c : Char} : c ∈ helpText.toList → Drawn ⟨c, .darkGrey, .base⟩

theorem drawsOver_title (f : Frame) :
    DrawsOver (fun row s => row = 0 ∧ Drawn w v s) f (drawTitle w v f) := by
  have blanks : ∀ c ∈ List.replicate f.width ' ', Drawn w v ⟨c, .white, titleColor⟩ :=
    fun c member => .title (.inl (List.eq_of_mem_replicate member))
  exact (DrawsOver.write f 0 0 _ _ fun c member => ⟨rfl, blanks c member⟩).trans
    (DrawsOver.write _ 0 0 _ _ fun c member => ⟨rfl, .title (.inr member)⟩)

theorem drawsOver_cell (f : Frame) (x y : Nat) (c : Cell) :
    DrawsOver (fun row s => row = y ∧ Drawn w v s) f (drawCell w v f x y c) := by
  have labelled : DrawsOver (fun row s => row = y ∧ Drawn w v s) f
      (f.write x y (cellLabel w v c).2.1 (cellBackground w v c) (cellLabel w v c).1.toList) :=
    .write f x y _ _ fun char member => ⟨rfl, .label member⟩
  simp only [drawCell]
  split
  · exact labelled.trans (DrawsOver.set _ (x + 1) y ⟨rfl, .player⟩)
  · exact labelled

theorem drawsOver_board (f : Frame) :
    DrawsOver (fun row s => boardRow ≤ row ∧ Drawn w v s) f (drawBoard w v f) := by
  unfold drawBoard
  split
  · exact .refl f
  · refine .foldl (fun f place _ => ?_) f
    exact (drawsOver_cell w v f _ _ place.2.2).mono fun y s ⟨row, drawn⟩ =>
      ⟨row ▸ Nat.le_add_right _ _, drawn⟩

theorem drawsOver_panel (column : Nat) (f : Frame) :
    DrawsOver (fun row s => boardRow ≤ row ∧ Drawn w v s) f (drawPanel w v column f) := by
  refine .foldl (fun f place member => ?_) f
  exact .write f _ _ _ _ fun c char =>
    ⟨Nat.le_add_right _ _, .panel (List.fst_mem_of_mem_zipIdx member) char⟩

theorem drawsOver_help (f : Frame) :
    DrawsOver (fun row s => row + 1 = f.height ∧ ∃ c ∈ helpText.toList, s = ⟨c, .darkGrey, .base⟩) f
      (drawHelp f) := by
  unfold drawHelp
  split
  · exact .refl f
  · next last height => exact .write f _ _ _ _ fun c member => ⟨height.symm, c, member, rfl⟩

theorem drawsOver_draw (f : Frame) : DrawsOver (fun _ => Drawn w v) f (draw w v f) :=
  ((drawsOver_title w v f).mono fun _ _ => And.right).trans <|
    ((drawsOver_board w v _).mono fun _ _ => And.right).trans <|
    ((drawsOver_panel w v _ _).mono fun _ _ => And.right).trans
    ((drawsOver_help _).mono fun _ _ ⟨_, _, member, symbol⟩ => symbol ▸ .help member)

section
variable (width height : Nat)

@[simp] theorem width_compose : (compose w v width height).width = width :=
  (drawsOver_draw w v _).width

@[simp] theorem height_compose : (compose w v width height).height = height :=
  (drawsOver_draw w v _).height

theorem drawn_of_compose {x y : Nat} {s : Symbol}
    (found : (compose w v width height).get? x y = some s) : Drawn w v s ∨ s = .blank := by
  refine ((drawsOver_draw w v _).symbols found).imp_right fun empty => ?_
  have inside : x < width ∧ y < height := Raster.lt_of_get? empty
  rw [Raster.get?_fill _ inside] at empty
  exact (Option.some.inj empty).symm

end

/-! ## Backgrounds -/

def Frame.Legible (f : Frame) : Prop :=
  ∀ x y s, f.get? x y = some s → s.bg ≠ .magenta

theorem cellBackground_ne (c : Cell) : cellBackground w v c ≠ .magenta := by
  have floor : floorColor ≠ .magenta := by decide
  have none : Color.base ≠ .magenta := by decide
  unfold cellBackground
  split
  · decide
  · unfold cellLabel
    split
    · exact floor
    · split
      · exact floor
      · exact none

theorem background_plain (text : String) (fg : Color) : (Line.plain text fg).bg ≠ .magenta := by
  simp [Line.plain, Color.base]

theorem background_selectionLines : ∀ line ∈ selectionLines w v, line.bg ≠ .magenta := by
  unfold selectionLines
  split <;> simp [background_plain]

theorem background_messageLines : ∀ line ∈ messageLines v, line.bg ≠ .magenta := by
  unfold messageLines
  split <;> simp [messageColor]

theorem background_panelLines : ∀ line ∈ panelLines w v, line.bg ≠ .magenta := by
  have skip : ∀ line ∈ (if w.player.skipArmed then [Line.plain "skip next tile" .red] else []),
      line.bg ≠ .magenta := by
    split <;> simp [background_plain]
  have registers : ∀ line ∈ Register.all.map (registerLine w.registers), line.bg ≠ .magenta := by
    simp [registerLine, background_plain]
  simp only [panelLines, List.forall_mem_append, List.forall_mem_cons]
  refine ⟨⟨⟨⟨⟨⟨registers, ?_⟩, skip⟩, ?_⟩, background_selectionLines w v⟩, ?_⟩,
    background_messageLines v⟩
  all_goals simp [speedLine, background_plain]

theorem Drawn.background {s : Symbol} (drawn : Drawn w v s) : s.bg ≠ .magenta := by
  cases drawn with
  | title => exact (by decide : titleColor ≠ .magenta)
  | label => exact cellBackground_ne w v _
  | player => exact cellBackground_ne w v _
  | panel line => exact background_panelLines w v _ line
  | help => exact (by decide : Color.base ≠ .magenta)

theorem legible_compose (width height : Nat) : (compose w v width height).Legible := by
  intro x y s found
  rcases drawn_of_compose w v width height found with drawn | rfl
  · exact drawn.background
  · decide

end Tilewalk.Screen
