import Tilewalk.Tile.Kind

/-! What an author may change on a tile. -/

set_option autoImplicit false

namespace Tilewalk

inductive Field where
  | direction
  | register
  | operation
  | value
deriving DecidableEq

inductive EditRule where
  | locked
  /-- An arrow may point anywhere but to the forbidden heading. -/
  | arrow (forbidden : Option Direction)
  /-- The named parts of a gem or gate tile are open. -/
  | fields (register operation value : Bool)
deriving DecidableEq

namespace EditRule

/-- The parts opened by a selector: zero opens all, and 1, 2 and 3 open one each. -/
def ofSelector (sel : Int32) : EditRule :=
  .fields (sel = 0 ∨ sel = 1) (sel = 0 ∨ sel = 2) (sel = 0 ∨ sel = 3)

/-- The rule that a code of the editable map gives to a tile. A code that does not fit the tile's
kind leaves it locked. -/
def ofCode (code : Int32) : TileKind → EditRule
  | .arrow _ =>
    if code = 1 then .arrow none
    else if 2 ≤ code ∧ code ≤ 5 then .arrow (Direction.ofIndex? (code - 2))
    else .locked
  | .gem .. => if 10 ≤ code ∧ code ≤ 13 then ofSelector (code - 10) else .locked
  | .gate .. => if 20 ≤ code ∧ code ≤ 23 then ofSelector (code - 20) else .locked
  | _ => .locked

def isEditable (rule : EditRule) : Bool :=
  decide (rule ≠ .locked)

def opens : EditRule → Field → Bool
  | .arrow _, .direction => true
  | .fields r _ _, .register => r
  | .fields _ o _, .operation => o
  | .fields _ _ v, .value => v
  | _, _ => false

def forbidden : EditRule → Option Direction
  | .arrow d => d
  | _ => none

end EditRule
end Tilewalk
