import Mathlib.Algebra.Group.Int.Defs
import Mathlib.Logic.Function.Iterate
import Tilewalk.Proofs.Circle
import Tilewalk.Proofs.World.Editing

/-! What becomes of an edit. It is refused for the first cause that applies, and then nothing has
changed, or it gives one part of one tile the value that it asks for. -/

set_option autoImplicit false

namespace Tilewalk

/-- What stands in a field of a tile. -/
inductive Part where
  | direction (d : Direction)
  | register (r : Register)
  | operation (o : Operation)
  | comparator (c : Comparator)
  | value (n : Int32)

namespace TileKind

def part? : TileKind → Field → Option Part
  | .arrow d, .direction => some (.direction d)
  | .gem r _ _, .register => some (.register r)
  | .gem _ o _, .operation => some (.operation o)
  | .gem _ _ n, .value => some (.value n)
  | .gate r _ _, .register => some (.register r)
  | .gate _ c _, .operation => some (.comparator c)
  | .gate _ _ n, .value => some (.value n)
  | _, _ => none

theorem eq_of_parts {kind kind' : TileKind} {field : Field} {part : Part}
    (has : kind.part? field = some part) (same : ∀ field, kind'.part? field = kind.part? field) :
    kind' = kind := by
  have direction := same .direction
  have register := same .register
  have operation := same .operation
  have value := same .value
  cases kind with
  | arrow d => cases kind' <;> simp_all [part?]
  | gem r o n => cases kind' <;> simp_all [part?]
  | gate r c n => cases kind' <;> simp_all [part?]
  | _ => cases has

end TileKind

namespace EditRule

/-- The rule opens a field: an arrow rule the heading, the others the fields that they name. -/
inductive Opens : EditRule → Field → Prop where
  | direction {forbidden : Option Direction} : Opens (.arrow forbidden) .direction
  | register {o v : Bool} : Opens (.fields true o v) .register
  | operation {r v : Bool} : Opens (.fields r true v) .operation
  | value {r o : Bool} : Opens (.fields r o true) .value

theorem opens_iff {rule : EditRule} {field : Field} :
    rule.opens field = true ↔ rule.Opens field := by
  constructor
  · intro opened
    cases rule with
    | locked => cases opened
    | arrow forbidden => cases field with
      | direction => exact .direction
      | _ => cases opened
    | fields r o v => cases field with
      | direction => cases opened
      | register =>
        cases opened
        exact .register
      | operation =>
        cases opened
        exact .operation
      | value =>
        cases opened
        exact .value
  · intro opened
    cases opened <;> rfl

@[simp] theorem forbidden_eq_some {rule : EditRule} {d : Direction} :
    rule.forbidden = some d ↔ rule = .arrow (some d) := by
  cases rule <;> simp [forbidden]

end EditRule

namespace Edit

def Suits : Edit → TileKind → Prop
  | setDirection _, .arrow _ | rotate, .arrow _ => True
  | setGemRegister _, .gem .. | setGemOperation _, .gem .. | setGemValue _, .gem .. => True
  | setGateRegister _, .gate .. | setGateComparator _, .gate .. | setGateValue _, .gate .. => True
  | cycleRegister _, .gem .. | cycleOperation _, .gem .. | adjustValue _, .gem .. => True
  | cycleRegister _, .gate .. | cycleOperation _, .gate .. | adjustValue _, .gate .. => True
  | _, _ => False

/-- What the edit makes of the part that it is for. -/
inductive Requests (forbidden : Option Direction) : Edit → Part → Part → Prop where
  | setDirection {d old : Direction} :
      Requests forbidden (setDirection d) (.direction old) (.direction d)
  /-- The first heading on the way around that is not forbidden. -/
  | rotate {old : Direction} (turns : Nat) :
      forbidden ≠ some (Direction.clockwise^[turns + 1] old) →
      (∀ fewer < turns, forbidden = some (Direction.clockwise^[fewer + 1] old)) →
      Requests forbidden rotate (.direction old) (.direction (Direction.clockwise^[turns + 1] old))
  | setGemRegister {r old : Register} :
      Requests forbidden (setGemRegister r) (.register old) (.register r)
  | setGemOperation {o old : Operation} :
      Requests forbidden (setGemOperation o) (.operation old) (.operation o)
  | setGemValue {n old : Int32} : Requests forbidden (setGemValue n) (.value old) (.value n)
  | setGateRegister {r old : Register} :
      Requests forbidden (setGateRegister r) (.register old) (.register r)
  | setGateComparator {c old : Comparator} :
      Requests forbidden (setGateComparator c) (.comparator old) (.comparator c)
  | setGateValue {n old : Int32} : Requests forbidden (setGateValue n) (.value old) (.value n)
  /-- The register that stands `step` places further around the circle of three. -/
  | cycleRegister {step : Int} {r next : Register} : (next.index : Int) = (r.index + step) % 3 →
      Requests forbidden (cycleRegister step) (.register r) (.register next)
  | cycleOperation {step : Int} {o next : Operation} : (next.index : Int) = (o.index + step) % 5 →
      Requests forbidden (cycleOperation step) (.operation o) (.operation next)
  | cycleComparator {step : Int} {c next : Comparator} :
      (next.index : Int) = (c.index + step) % 6 →
      Requests forbidden (cycleOperation step) (.comparator c) (.comparator next)
  /-- The exact sum, kept within the range of words. -/
  | adjustValue {step : Int} {n sum : Int32} :
      sum.toInt = max (-2 ^ 31) (min (2 ^ 31 - 1) (n.toInt + step)) →
      Requests forbidden (adjustValue step) (.value n) (.value sum)

variable {e : Edit} {forbidden : Option Direction} {kind kind' : TileKind} {old new new' : Part}

@[simp] theorem direction?_eq_some {d : Direction} : e.direction? = some d ↔ e = setDirection d := by
  cases e <;> simp [direction?]

theorem toInt_saturatingAdd (n : Int32) (step : Int) :
    (saturatingAdd n step).toInt = max (-2 ^ 31) (min (2 ^ 31 - 1) (n.toInt + step)) := by
  have least : Int32.minValue.toInt = -2 ^ 31 := rfl
  have most : Int32.maxValue.toInt = 2 ^ 31 - 1 := rfl
  unfold saturatingAdd Int32.ofIntClamp
  split
  · split
    · rw [Int32.toInt_ofIntLE]
      omega
    · omega
  · omega

theorem requests_rotate (forbidden : Option Direction) (d : Direction) :
    Requests forbidden rotate (.direction d) (.direction (nextAllowed forbidden d)) := by
  unfold nextAllowed
  split
  · next blocked =>
    refine .rotate 1 ?_ ?_
    · rw [blocked]
      cases d <;> decide
    · intro fewer less
      obtain rfl : fewer = 0 := by omega
      exact blocked
  · next free => exact .rotate 0 free nofun

theorem Requests.unique (first : Requests forbidden e old new)
    (second : Requests forbidden e old new') : new' = new := by
  -- Around the circle the first free heading decides, and of the others the place or the sum.
  cases first with
  | @rotate old turns free passed =>
    cases second with
    | @rotate _ turns' free' passed' =>
      -- Of two numbers of turns the greater one would pass a heading that is free.
      rcases Nat.lt_trichotomy turns turns' with less | rfl | more
      · exact absurd (passed' turns less) free
      · rfl
      · exact absurd (passed turns' more) free'
  | cycleRegister place =>
    cases second with
    | cycleRegister place' => exact congrArg _ (Register.circle.eq_of_places place' place)
  | cycleOperation place =>
    cases second with
    | cycleOperation place' => exact congrArg _ (Operation.circle.eq_of_places place' place)
  | cycleComparator place =>
    cases second with
    | cycleComparator place' => exact congrArg _ (Comparator.circle.eq_of_places place' place)
  | adjustValue sum =>
    cases second with
    | adjustValue sum' => exact congrArg _ (Int32.toInt_inj.mp (sum'.trans sum.symm))
  | _ =>
    cases second
    rfl

theorem exists_result?_of_suits (forbidden : Option Direction) (suits : e.Suits kind) :
    ∃ kind', e.result? forbidden kind = some kind' := by
  cases e <;> cases kind <;> first | exact ⟨_, rfl⟩ | cases suits

variable (result : e.result? forbidden kind = some kind')
include result

theorem suits_of_result? : e.Suits kind := by
  cases e <;> cases kind <;> first | exact trivial | cases result

theorem other_parts_of_result? {field : Field} (other : field ≠ e.field) :
    kind'.part? field = kind.part? field := by
  cases e <;> cases kind <;> cases result <;> cases field <;> first | rfl | exact absurd rfl other

theorem requests_of_result? : ∃ old new, kind.part? e.field = some old ∧
    kind'.part? e.field = some new ∧ Requests forbidden e old new := by
  cases e with
  | setDirection d => cases kind with
    | arrow => cases result; exact ⟨_, _, rfl, rfl, .setDirection⟩
    | _ => cases result
  | rotate => cases kind with
    | arrow d => cases result; exact ⟨_, _, rfl, rfl, requests_rotate forbidden d⟩
    | _ => cases result
  | setGemRegister => cases kind with
    | gem => cases result; exact ⟨_, _, rfl, rfl, .setGemRegister⟩
    | _ => cases result
  | setGemOperation => cases kind with
    | gem => cases result; exact ⟨_, _, rfl, rfl, .setGemOperation⟩
    | _ => cases result
  | setGemValue => cases kind with
    | gem => cases result; exact ⟨_, _, rfl, rfl, .setGemValue⟩
    | _ => cases result
  | setGateRegister => cases kind with
    | gate => cases result; exact ⟨_, _, rfl, rfl, .setGateRegister⟩
    | _ => cases result
  | setGateComparator => cases kind with
    | gate => cases result; exact ⟨_, _, rfl, rfl, .setGateComparator⟩
    | _ => cases result
  | setGateValue => cases kind with
    | gate => cases result; exact ⟨_, _, rfl, rfl, .setGateValue⟩
    | _ => cases result
  | cycleRegister step => cases kind with
    | gem r o n =>
      cases result
      exact ⟨_, _, rfl, rfl, .cycleRegister (Register.circle.natCast_index_cycled r step)⟩
    | gate r c n =>
      cases result
      exact ⟨_, _, rfl, rfl, .cycleRegister (Register.circle.natCast_index_cycled r step)⟩
    | _ => cases result
  | cycleOperation step => cases kind with
    | gem r o n =>
      cases result
      exact ⟨_, _, rfl, rfl, .cycleOperation (Operation.circle.natCast_index_cycled o step)⟩
    | gate r c n =>
      cases result
      exact ⟨_, _, rfl, rfl, .cycleComparator (Comparator.circle.natCast_index_cycled c step)⟩
    | _ => cases result
  | adjustValue step => cases kind with
    | gem r o n =>
      cases result
      exact ⟨_, _, rfl, rfl, .adjustValue (toInt_saturatingAdd n step)⟩
    | gate r c n =>
      cases result
      exact ⟨_, _, rfl, rfl, .adjustValue (toInt_saturatingAdd n step)⟩
    | _ => cases result

omit result

/-- An edit turns one kind into another: it gives its part what it requests and leaves the others. -/
structure Turns (forbidden : Option Direction) (e : Edit) (kind kind' : TileKind) : Prop where
  others : ∀ field, field ≠ e.field → kind'.part? field = kind.part? field
  requested : ∃ old new, kind.part? e.field = some old ∧ kind'.part? e.field = some new ∧
    Requests forbidden e old new

theorem result?_iff : e.result? forbidden kind = some kind' ↔
    e.Suits kind ∧ Turns forbidden e kind kind' := by
  constructor
  · intro result
    exact ⟨suits_of_result? result, fun _ => other_parts_of_result? result,
      requests_of_result? result⟩
  · rintro ⟨suits, others, old, new, before, after, requests⟩
    obtain ⟨kind'', result⟩ := exists_result?_of_suits forbidden suits
    obtain ⟨old', new', before', after', requests'⟩ := requests_of_result? result
    -- Both kinds have the same parts, so they are the same kind.
    cases before.symm.trans before'
    have same : kind'' = kind' := by
      refine TileKind.eq_of_parts after fun field => ?_
      by_cases touched : field = e.field
      · subst touched
        rw [after', after, requests.unique requests']
      · rw [other_parts_of_result? result touched, others field touched]
    rw [result, same]

end Edit

namespace World

/-- What becomes of an edit: the first cause for refusing it, or the world with one tile edited. -/
inductive Verdict (w : World) (id : TileId) (e : Edit) : Except EditError (Event × World) → Prop where
  | notEditing : w.phase = .running → Verdict w id e (.error .notEditing)
  | noSuchTile : w.phase = .editing → w.board.tiles.length ≤ id →
      Verdict w id e (.error (.noSuchTile id))
  | wrongKind {t : Tile} : w.phase = .editing → w.board.tiles[id]? = some t → ¬ e.Suits t.kind →
      Verdict w id e (.error (.wrongKind id t.kind.label))
  | locked {t : Tile} : w.phase = .editing → w.board.tiles[id]? = some t → e.Suits t.kind →
      ¬ t.edit.Opens e.field → Verdict w id e (.error (.locked id))
  | forbiddenDirection {t : Tile} {d : Direction} : w.phase = .editing →
      w.board.tiles[id]? = some t → e.Suits t.kind → t.edit = .arrow (some d) →
      e = .setDirection d → Verdict w id e (.error (.forbiddenDirection id d))
  | edited {t : Tile} {kind : TileKind} : w.phase = .editing →
      w.board.tiles[id]? = some t → e.Suits t.kind → t.edit.Opens e.field →
      (∀ d, t.edit = .arrow (some d) → e ≠ .setDirection d) →
      e.Turns t.edit.forbidden t.kind kind →
      Verdict w id e (.ok (.tileEdited id,
        { w with board := { w.board with tiles := w.board.tiles.set id { t with kind := kind } } }))

variable {w : World} {id : TileId} {e : Edit}

theorem setKind_eq_set {b : Board} {t : Tile} (found : b.tiles[id]? = some t) (kind : TileKind) :
    b.setKind id kind = { b with tiles := b.tiles.set id { t with kind := kind } } := by
  refine congrArg (fun tiles => { b with tiles := tiles }) (List.ext_getElem? fun other => ?_)
  rw [List.getElem?_modify, List.getElem?_set]
  obtain ⟨bound, rfl⟩ := List.getElem?_eq_some_iff.mp found
  split
  · next same =>
    subst same
    simp [bound]
  · simp

theorem edit_of_found {t : Tile} (editing : w.phase = .editing) (found : w.board.tiles[id]? = some t) :
    w.edit id e = (e.onTile id t).map fun kind => (.tileEdited id,
      { w with board := { w.board with tiles := w.board.tiles.set id { t with kind := kind } } }) := by
  rw [edit_of_editable e (editable_of_found editing found)]
  refine congrArg (fun give => (e.onTile id t).map give) (funext fun kind => ?_)
  simp only [giveKind, setKind_eq_set found]

theorem verdict_edit (w : World) (id : TileId) (e : Edit) : Verdict w id e (w.edit id e) := by
  -- The causes are looked for in the order in which the edit checks them.
  cases phase : w.phase with
  | running =>
    rw [edit_of_running phase id e]
    exact .notEditing phase
  | editing =>
    cases found : w.board.tiles[id]? with
    | none =>
      have missing := List.getElem?_eq_none_iff.mp found
      rw [edit_of_missing phase missing e]
      exact .noSuchTile phase missing
    | some t =>
      rw [edit_of_found phase found, Edit.onTile]
      split
      · next unfit =>
        refine .wrongKind phase found fun suits => ?_
        obtain ⟨kind, fit⟩ := Edit.exists_result?_of_suits t.edit.forbidden suits
        cases unfit.symm.trans fit
      · next kind result =>
        obtain ⟨suits, turns⟩ := Edit.result?_iff.mp result
        split
        · next opened =>
          have opens := EditRule.opens_iff.mp opened
          split
          · next d aims =>
            have aims := Edit.direction?_eq_some.mp aims
            split
            · next forbids =>
              exact .forbiddenDirection phase found suits (EditRule.forbidden_eq_some.mp forbids) aims
            · next free =>
              refine .edited phase found suits opens (fun d' rule aims' => ?_) turns
              cases aims.symm.trans aims'
              exact free (EditRule.forbidden_eq_some.mpr rule)
          · next aimless =>
            refine .edited phase found suits opens (fun d rule aims => ?_) turns
            cases aimless.symm.trans (Edit.direction?_eq_some.mpr aims)
        · next closed =>
          exact .locked phase found suits fun opens => closed (EditRule.opens_iff.mpr opens)

theorem Verdict.edit_eq {outcome : Except EditError (Event × World)}
    (verdict : Verdict w id e outcome) : w.edit id e = outcome := by
  -- Each verdict decides the checks one after another up to its own.
  cases verdict with
  | notEditing running => exact edit_of_running running id e
  | noSuchTile editing missing => exact edit_of_missing editing missing e
  | @wrongKind t editing found unfit =>
    have none : e.result? t.edit.forbidden t.kind = none := by
      cases result : e.result? t.edit.forbidden t.kind with
      | none => rfl
      | some kind => exact absurd (Edit.result?_iff.mp result).1 unfit
    rw [edit_of_found editing found, Edit.onTile, none]
    rfl
  | @locked t editing found suits closed =>
    obtain ⟨kind, result⟩ := Edit.exists_result?_of_suits t.edit.forbidden suits
    rw [edit_of_found editing found, Edit.onTile, result]
    simp only [if_neg fun opened => closed (EditRule.opens_iff.mp opened)]
    rfl
  | @forbiddenDirection t d editing found suits rule aims =>
    obtain ⟨kind, result⟩ := Edit.exists_result?_of_suits t.edit.forbidden suits
    rw [edit_of_found editing found, Edit.onTile, result]
    subst aims
    simp [rule, EditRule.opens, Edit.field, Edit.direction?, EditRule.forbidden, Except.map]
  | @edited t kind editing found suits opens free turns =>
    rw [edit_of_found editing found, Edit.onTile, Edit.result?_iff.mpr ⟨suits, turns⟩]
    simp only [if_pos (EditRule.opens_iff.mpr opens)]
    split
    · next d aims =>
      have allowed : t.edit.forbidden ≠ some d := fun forbids =>
        free d (EditRule.forbidden_eq_some.mp forbids) (Edit.direction?_eq_some.mp aims)
      rw [if_neg allowed]
      rfl
    · rfl

/-- Any edit of any world. It is refused for the first cause that applies: the simulation runs, there is
no such tile, the tile is of another kind, its rule does not open the field, or the heading is forbidden;
a refused edit leaves the world, and any other gives the field what is asked for and changes nothing
else. Turning an arrow never meets the forbidden heading. -/
theorem edits_are_all_or_nothing (w : World) (id : TileId) (e : Edit) :
    (∀ outcome, w.edit id e = outcome ↔ Verdict w id e outcome) ∧
    (∀ cause, w.edit id e = .error cause → w.perform (.edit id e) = .ok ([], w)) ∧
    (∀ event u, w.edit id e = .ok (event, u) → w.perform (.edit id e) = .ok ([event], u)) ∧
    ∀ tile d, w.edit id .rotate ≠ .error (.forbiddenDirection tile d) := by
  refine ⟨fun outcome => ⟨?_, Verdict.edit_eq⟩, ?_, ?_, ?_⟩
  · rintro rfl
    exact verdict_edit w id e
  · intro cause refused
    simp only [perform, refused]
  · intro event u accepted
    simp only [perform, accepted]
  · intro tile d refused
    have verdict := verdict_edit w id .rotate
    rw [refused] at verdict
    cases verdict with
    | forbiddenDirection _ _ _ _ aims => cases aims

/-- An arrow that points up and may not point to the right. -/
theorem forbidden_heading_is_passed :
    ∃ w, opened closed ⟨⟨0, 0.5, 0⟩, .identity⟩ .standard (.stepping 0 1) = .ok w ∧
      w.edit 0 (.setDirection .right) = .error (.forbiddenDirection 0 .right) ∧
      w.perform (.edit 0 (.setDirection .right)) = .ok ([], w) ∧
      w.edit 1 .rotate = .error (.wrongKind 1 "variable") ∧
      ∃ u, w.perform (.edit 0 .rotate) = .ok ([.tileEdited 0], u) ∧
        u.board.kind? 0 = some (.arrow .down) := by
  have opens : (opened closed ⟨⟨0, 0.5, 0⟩, .identity⟩ .standard (.stepping 0 1)).toOption.any
      (fun _ => true) = true := by
    decide +kernel
  obtain ⟨w, made, -⟩ := exists_of_any opens
  refine ⟨w, made, ?_⟩
  obtain ⟨p, -, rfl⟩ := opened_eq_ok made
  obtain ⟨points, refuses, -⟩ := edits_are_all_or_nothing
    ⟨.standard, closed, .editing, .fresh, p, .none, .none, .stepping 0 1, false, 0, 0⟩ 0 (.setDirection .right)
  obtain ⟨turns, -, edits, -⟩ := edits_are_all_or_nothing
    ⟨.standard, closed, .editing, .fresh, p, .none, .none, .stepping 0 1, false, 0, 0⟩ 0 .rotate
  have forbids := (points _).mpr (.forbiddenDirection rfl rfl trivial rfl rfl)
  have passes : Edit.Turns (some .right) .rotate (.arrow .up) (.arrow .down) := by
    refine ⟨fun field other => ?_, _, _, rfl, rfl, .rotate 1 (by decide) (by decide)⟩
    cases field <;> first | rfl | exact absurd rfl other
  have turned := (turns _).mpr (.edited (t := { Tile.place (.arrow .up) ⟨0, 0, 0⟩ with
    edit := .arrow (some .right) }) rfl rfl trivial .direction nofun passes)
  exact ⟨forbids, refuses _ forbids, rfl, _, edits _ _ turned, rfl⟩

end World
end Tilewalk
