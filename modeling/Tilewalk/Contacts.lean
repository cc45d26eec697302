import Tilewalk.Phase
import Tilewalk.Tile.Kind

/-! The tiles that the player is in contact with. A tile is entered when it is touched now and was
not touched before; a change of phase forgets all contact. -/

set_option autoImplicit false

namespace Tilewalk

structure Contacts where
  /-- The touched tiles, ascending and without repetition. -/
  inside : List TileId
  phase : Phase
deriving DecidableEq

namespace Contacts

def none : Contacts := ⟨[], .editing⟩

def ascending (tiles : List TileId) : List TileId :=
  tiles.eraseDups.mergeSort

/-- Record the tiles touched now, and give the newly entered ones in ascending order. -/
def update (c : Contacts) (touched : List TileId) : List TileId × Contacts :=
  let touched := ascending touched
  (touched.filter (fun tile => !c.inside.contains tile), { c with inside := touched })

instance : PhaseListener Contacts where
  onPhase phase c := if phase = c.phase then c else ⟨[], phase⟩

end Contacts
end Tilewalk
