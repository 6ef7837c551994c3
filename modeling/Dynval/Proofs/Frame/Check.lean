import Mathlib.Algebra.Order.Ring.Nat
import Dynval.Frame.Check

/-!
# Frames are accepted by their exact size

The size of a frame is multiplied in two steps, and either step may leave a machine word. A pixel
has at least one byte, so the whole product leaves it whenever the first step does: the size is
unknown exactly when it does not fit (`FrameShape.expectedLength?_eq`), and no frame is accepted by
a size that has wrapped.
-/

namespace Dynval

lemma Channels.count_pos (channels : Channels) : 0 < channels.count := by
  cases channels <;> decide

namespace FrameShape

variable {shape : FrameShape} {width height : Int64} {channels : Channels} {frame : List UInt8}

/-- The number of bytes of a frame, however large. -/
def size (shape : FrameShape) : Nat :=
  shape.width * shape.height * shape.channels.count

/-- The checked product is the exact size as long as that fits a machine word. -/
lemma expectedLength?_eq (shape : FrameShape) :
    shape.expectedLength? = if shape.size < 2 ^ 64 then some shape.size else none := by
  have hpixels : shape.width * shape.height ≤ shape.size :=
    Nat.le_mul_of_pos_right _ shape.channels.count_pos
  have hword (n : Nat) : n ≤ maxSize ↔ n < 2 ^ 64 := by
    unfold maxSize
    omega
  simp only [expectedLength?, checkedMul, toSize?, hword]
  by_cases hfits : shape.width * shape.height < 2 ^ 64
  · rw [if_pos hfits]
    rfl
  · -- the pixels alone are too many, and each has at least one byte
    rw [if_neg hfits, if_neg fun hsize => hfits (Nat.lt_of_le_of_lt hpixels hsize)]
    rfl

lemma expectedLength?_eq_none_iff : shape.expectedLength? = none ↔ 2 ^ 64 - 1 < shape.size := by
  rw [expectedLength?_eq]
  split_ifs <;> simp <;> omega

lemma expectedLength?_eq_some_iff {n : Nat} :
    shape.expectedLength? = some n ↔ n = shape.size ∧ n < 2 ^ 64 := by
  rw [expectedLength?_eq]
  split_ifs <;> simp <;> omega

/-- Only a frame of the exact size passes. -/
lemma checkFrame_ok_iff :
    shape.checkFrame frame = .ok () ↔ frame.length = shape.size ∧ frame.length < 2 ^ 64 := by
  rw [← expectedLength?_eq_some_iff, checkFrame]
  split_ifs with h <;> simp [h]

/-- Dimensions that are not negative are taken as they are. -/
lemma ofDimensions_ok_iff : ofDimensions width height channels = .ok shape ↔
    0 ≤ width.toInt ∧ 0 ≤ height.toInt ∧
      shape = ⟨width.toInt.toNat, height.toInt.toNat, channels⟩ := by
  have hwidth : width < 0 ↔ width.toInt < 0 := Int64.lt_iff_toInt_lt
  have hheight : height < 0 ↔ height.toInt < 0 := Int64.lt_iff_toInt_lt
  simp only [ofDimensions, hwidth, hheight]
  split_ifs <;> simp <;> grind

/-- The size of a shape with given dimensions is their product. -/
lemma size_toNat (hwidth : 0 ≤ width.toInt) (hheight : 0 ≤ height.toInt) :
    ((⟨width.toInt.toNat, height.toInt.toNat, channels⟩ : FrameShape).size : Int) =
      width.toInt * height.toInt * channels.count := by
  rw [size, Int.natCast_mul, Int.natCast_mul, Int.toNat_of_nonneg hwidth,
    Int.toNat_of_nonneg hheight]

/-- A frame is accepted for a width and a height if neither is negative and it has exactly their
product with the bytes of a pixel, counted without a bound. The size of a shape is unknown exactly
when it is above the largest machine word, and then no frame has it, whatever its length. The length
of a frame that is given is itself a machine word. -/
theorem accepted_iff_exact_size :
    (∀ (width height : Int64) (channels : Channels) (frame : List UInt8),
      frame.length < 2 ^ 64 →
      ((∃ shape, ofDimensions width height channels = .ok shape ∧
          shape.checkFrame frame = .ok ()) ↔
        0 ≤ width.toInt ∧ 0 ≤ height.toInt ∧
          (frame.length : Int) = width.toInt * height.toInt * channels.count)) ∧
    (∀ shape : FrameShape,
      (shape.expectedLength? = none ↔
        2 ^ 64 - 1 < shape.width * shape.height * shape.channels.count) ∧
      (shape.expectedLength? = none → ∀ frame, shape.checkFrame frame ≠ .ok ())) := by
  constructor
  · intro width height channels frame hframe
    constructor
    · rintro ⟨shape, hshape, hok⟩
      obtain ⟨hwidth, hheight, rfl⟩ := ofDimensions_ok_iff.1 hshape
      refine ⟨hwidth, hheight, ?_⟩
      rw [(checkFrame_ok_iff.1 hok).1, size_toNat hwidth hheight]
    · rintro ⟨hwidth, hheight, hlength⟩
      refine ⟨_, ofDimensions_ok_iff.2 ⟨hwidth, hheight, rfl⟩, checkFrame_ok_iff.2 ⟨?_, hframe⟩⟩
      rw [← size_toNat hwidth hheight] at hlength
      exact Int.ofNat_inj.1 hlength
  · intro shape
    refine ⟨expectedLength?_eq_none_iff, fun hnone frame hok => ?_⟩
    obtain ⟨hlength, hfits⟩ := checkFrame_ok_iff.1 hok
    have hsize := expectedLength?_eq_none_iff.1 hnone
    omega

/-- A small frame, and a shape whose first product already leaves a machine word. -/
theorem small_frame_accepted_and_huge_shape_refused :
    (∃ shape, ofDimensions 4 2 .rgb = .ok shape ∧
      shape.checkFrame (List.replicate 24 0) = .ok ()) ∧
    (⟨2 ^ 33, 2 ^ 33, .indexed⟩ : FrameShape).expectedLength? = none ∧
    ∀ frame, (⟨2 ^ 33, 2 ^ 33, .indexed⟩ : FrameShape).checkFrame frame ≠ .ok () := by
  obtain ⟨haccepted, hunknown⟩ := accepted_iff_exact_size
  obtain ⟨hnone, hrefused⟩ := hunknown ⟨2 ^ 33, 2 ^ 33, .indexed⟩
  have hhuge := hnone.2 (by decide)
  exact ⟨(haccepted 4 2 .rgb (List.replicate 24 0) (by decide)).2 (by decide), hhuge,
    hrefused hhuge⟩

end FrameShape

end Dynval
