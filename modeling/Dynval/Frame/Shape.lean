import Dynval.Word

/-!
# Frame shapes

The size of an image frame: its width, its height and the bytes of one pixel.
-/

namespace Dynval

/-- What a pixel consists of. -/
inductive Channels where
  /-- One palette index. -/
  | indexed
  /-- Red, green and blue. -/
  | rgb
deriving DecidableEq, Inhabited

namespace Channels

def name : Channels → String
  | .indexed => "indexed"
  | .rgb => "rgb"

/-- The bytes of one pixel. -/
def count : Channels → Nat
  | .indexed => 1
  | .rgb => 3

end Channels

structure FrameShape where
  width : Nat
  height : Nat
  channels : Channels
deriving DecidableEq, Inhabited

/-- The number of bytes of a frame, if it fits a machine word. -/
def FrameShape.expectedLength? (shape : FrameShape) : Option Nat := do
  checkedMul (← checkedMul shape.width shape.height) shape.channels.count

end Dynval
