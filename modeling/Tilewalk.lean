import Tilewalk.Config.Search
import Tilewalk.Main
import Tilewalk.Proofs.World.Invariant
import Tilewalk.Proofs.World.Holding
import Tilewalk.Proofs.World.Suppression
import Tilewalk.Proofs.World.Reset
import Tilewalk.Proofs.World.Replay
import Tilewalk.Proofs.World.Outcome
import Tilewalk.Proofs.World.Visits
import Tilewalk.Proofs.World.Mirror
import Tilewalk.Proofs.World.Editing
import Tilewalk.Proofs.World.Teleporting
import Tilewalk.Proofs.View
import Tilewalk.Proofs.Grid.Bounds
import Tilewalk.Proofs.Screen.Display
import Tilewalk.Proofs.Screen.Printing
import Tilewalk.Proofs.Session.Gems
import Tilewalk.Proofs.Session.Navigation
import Tilewalk.Proofs.Session.Reaching
import Tilewalk.Proofs.Session.Printing
import Tilewalk.Proofs.Stage.Loading
import Tilewalk.Proofs.Config.Legal
import Tilewalk.Proofs.Config.Reach
import Tilewalk.Proofs.World.Faultless
import Tilewalk.Proofs.Number.Arithmetic
import Tilewalk.Proofs.Polling
import Tilewalk.Proofs.World.Verdict
import Tilewalk.Proofs.World.Falling
import Tilewalk.Proofs.World.Footprint
import Tilewalk.Proofs.Keyboard
import Tilewalk.Proofs.Modular
import Tilewalk.Proofs.Number.Nearest
import Tilewalk.Proofs.World.Snapping
import Tilewalk.Proofs.World.Cycling
import Tilewalk.Proofs.Screen.Glyphs
import Tilewalk.Proofs.Screen.Map
