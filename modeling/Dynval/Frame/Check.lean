import Dynval.Fault

/-!
# Frame and palette checks

A frame has exactly the bytes that its shape needs, a palette exactly 256 colours.
-/

namespace Dynval

namespace FrameShape

/-- The shape with the given dimensions, which must not be negative. -/
def ofDimensions (width height : Int64) (channels : Channels) : Except Fault FrameShape :=
  if width < 0 then .error ⟨.frame, .negativeWidth (.ofInt width)⟩
  else if height < 0 then .error ⟨.frame, .negativeHeight (.ofInt height)⟩
  else .ok ⟨width.toInt.toNat, height.toInt.toNat, channels⟩

/-- Make sure that a frame has the bytes of its shape. -/
def checkFrame (shape : FrameShape) (frame : List UInt8) : Except Fault Unit :=
  if shape.expectedLength? = some frame.length then .ok ()
  else .error ⟨.checkFrame, .frameLength shape (.ofInt (Int64.ofNat frame.length))⟩

end FrameShape

/-- The bytes of a palette: 256 colours of three components. -/
def paletteLength : Nat := 256 * 3

def checkPalette (palette : List UInt8) : Except Fault Unit :=
  if palette.length = paletteLength then .ok ()
  else .error ⟨.checkPalette, .paletteLength paletteLength (.ofInt (Int64.ofNat palette.length))⟩

/-- The palette of grays, from black to white. -/
def grayscalePalette : List UInt8 :=
  (List.range 256).flatMap fun i => List.replicate 3 (UInt8.ofNat i)

end Dynval
