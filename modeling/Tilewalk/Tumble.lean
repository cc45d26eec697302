import Tilewalk.Number.Binary32
import Tilewalk.Space.Vec3

/-! The random spin of a fall. A word source is an endless sequence of random words read one after
another, and a spin draws one word per component, spread evenly over the range between minus and plus
the speed at which the player left the floor. -/

set_option autoImplicit false

namespace Tilewalk

/-- An endless sequence of words, and how many of them are used up. -/
structure WordSource where
  word : Nat → UInt32
  used : Nat

namespace WordSource

def next (s : WordSource) : UInt32 × WordSource :=
  (s.word s.used, { s with used := s.used + 1 })

/-- The low halves of the 64-bit words that start at `first` and grow by `increment`. -/
def stepping (first increment : UInt64) : WordSource :=
  ⟨fun n => (first + n.toUInt64 * increment).toUInt32, 0⟩

end WordSource

namespace Tumble

def topFraction : Float32 :=
  1 - Float32.ofBits 0x34000000

def fraction (w : UInt32) : Float32 :=
  (w >>> 9).toFloat32 * Float32.ofBits 0x34000000

/-- Whether a range from minus to plus `s` can be drawn from: both ends are finite and ordered, and
so is the distance between them. -/
def usable (s : Float32) : Bool :=
  decide (-s ≤ s) && (s - -s).isFinite

/-- The greatest factor, at or below the one with these bits, that keeps the top fraction inside the
range from minus to plus `s`. -/
def fitScale (s : Float32) : Nat → Float32
  | 0 => 0
  | bits + 1 =>
    let scale := Float32.ofBits (bits + 1).toUInt32
    if s < scale * topFraction + -s then fitScale s bits else scale

def scale (s : Float32) : Float32 :=
  fitScale s ((s - -s) / topFraction).toBits.toNat

def sample (s : Float32) (w : UInt32) : Float32 :=
  fraction w * scale s + -s

/-- A spin with components between minus and plus `s`, and the source after its three words. -/
def draw (s : Float32) (words : WordSource) : Vec3 × WordSource :=
  let (a, words) := words.next
  let (b, words) := words.next
  let (c, words) := words.next
  (⟨sample s a, sample s b, sample s c⟩, words)

end Tumble
end Tilewalk
