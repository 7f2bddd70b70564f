import OxysOS.Graphics.Disc
import OxysOS.Graphics.Line
import OxysOS.Graphics.Blend

/-!
# The primitives and the clip

A primitive draws its shape as it is upon the whole plane, cut by the clip, or draws
nothing where a coordinate is beyond the limit.  Three of them overflow where coordinates
are none that they do not check: the rows beneath the top of an outline, the spans of a
disc and the pixels of a source.
-/

namespace OxysOS.Graphics

open OxysOS.Library

inductive DrawCall
  | putPixel (x y : ℤ) (colour : UInt32)
  | fillRectangle (rectangle : GraphicsRectangle) (colour : UInt32)
  | drawRectangle (rectangle : GraphicsRectangle) (colour : UInt32)
  | fillCircle (centreX centreY radius : ℤ) (colour : UInt32)
  | patternBlock (x y : ℤ) (pattern : ℕ → UInt8) (rows : ℤ) (ink paper : UInt32)
  | drawLine (firstX firstY secondX secondY : ℤ) (colour : UInt32)
  | blendSurface (x y : ℤ) (source : GraphicsSurface) (pixels : Bytes)
      (mask : Option (ℕ → UInt8))

namespace DrawCall

def run (description : BootFramebuffer) (surface : GraphicsSurface) (memory : Bytes) :
    DrawCall → Option Bytes
  | putPixel x y colour => some (graphicsPutPixel surface memory x y colour)
  | fillRectangle rectangle colour => some (graphicsFillRectangle surface memory rectangle colour)
  | drawRectangle rectangle colour => graphicsDrawRectangle surface memory rectangle colour
  | fillCircle centreX centreY radius colour =>
      graphicsFillCircle surface memory centreX centreY radius colour
  | patternBlock x y pattern rows ink paper =>
      some (graphicsPatternBlock surface memory x y pattern rows ink paper)
  | drawLine firstX firstY secondX secondY colour =>
      graphicsDrawLine surface memory firstX firstY secondX secondY colour
  | blendSurface x y source pixels mask =>
      graphicsBlendSurface description surface memory x y source pixels mask

noncomputable def shape (description : BootFramebuffer) (surface : GraphicsSurface)
    (memory : Bytes) : DrawCall → Picture UInt32
  | putPixel x y colour => Raster.single x y colour
  | fillRectangle rectangle colour => filled rectangle colour
  | drawRectangle rectangle colour => shade rectangle.outline colour
  | fillCircle centreX centreY radius colour => shade (disc centreX centreY radius) colour
  | patternBlock x y pattern rows ink paper => patterned x y pattern rows ink paper
  | drawLine firstX firstY secondX secondY colour =>
      shade (line firstX firstY secondX secondY) colour
  | blendSurface x y source pixels mask =>
      composed description surface memory x y source pixels mask

/-- The arguments are values of their types, and a source is a surface. -/
def Valid : DrawCall → Prop
  | putPixel x y _ => IsInt32 x ∧ IsInt32 y
  | fillRectangle rectangle _ => rectangle.IsInt32
  | drawRectangle rectangle _ => rectangle.IsInt32
  | fillCircle centreX centreY radius _ => IsInt32 centreX ∧ IsInt32 centreY ∧ IsInt32 radius
  | patternBlock x y _ rows _ _ => IsInt32 x ∧ IsInt32 y ∧ IsInt32 rows
  | drawLine firstX firstY secondX secondY _ =>
      IsInt32 firstX ∧ IsInt32 firstY ∧ IsInt32 secondX ∧ IsInt32 secondY
  | blendSurface x y source _ _ => IsInt32 x ∧ IsInt32 y ∧ source.Reached

def Beyond : DrawCall → Prop
  | patternBlock x y _ rows _ _ => ¬PatternSound x y rows
  | drawLine firstX firstY secondX secondY _ => ¬LineSound firstX firstY secondX secondY
  | _ => False

def Fits : DrawCall → Prop
  | drawRectangle rectangle _ =>
      graphicsRectangleIsEmpty rectangle ∨ rectangle.height = 1 ∨ rectangle.y ≠ 2147483647
  | fillCircle centreX centreY radius _ => radius < 0 ∨ DiscFits centreX centreY radius
  | blendSurface x y source _ mask => BlendFits x y source mask
  | _ => True

end DrawCall

structure DrawsCut (surface : GraphicsSurface) (shape : Picture UInt32) (memory drawn : Bytes) :
    Prop where
  within : ∀ x y colour, graphicsRectangleContains surface.clip x y → shape x y = some colour →
    ∀ index < surface.bytesPerPixel,
      drawn (graphicsPixelAddress surface x y + index) = colourByte colour index
  elsewhere : ∀ address, (∀ x y, graphicsRectangleContains surface.clip x y →
    (shape x y).isSome → ∀ index < surface.bytesPerPixel,
      address ≠ graphicsPixelAddress surface x y + index) → drawn address = memory address

/-- A call draws its shape cut by the clip, or nothing where a coordinate is beyond the limit,
by words as by bytes. -/
def DrawCall.Clips (description : BootFramebuffer) (surface : GraphicsSurface) (memory : Bytes)
    (call : DrawCall) : Prop :=
  ∃ drawn, call.run description surface memory = some drawn ∧
    call.run description { surface with wholeWords := false } memory = some drawn ∧
    ((call.Beyond ∧ drawn = memory) ∨
      DrawsCut surface (call.shape description surface memory) memory drawn)

variable {surface : GraphicsSurface}

theorem drawsCut_draw (h : surface.Sound) (shape : Picture UInt32) (memory : Bytes) :
    DrawsCut surface shape memory (draw surface (clipped surface shape) memory) := by
  constructor
  · intro x y colour hin hshape index hindex
    have hon := h.onSurface hin
    have hx : (x.toNat : ℤ) = x := Int.toNat_of_nonneg hon.left
    have hy : (y.toNat : ℤ) = y := Int.toNat_of_nonneg hon.top
    have hright := hon.right
    have hbottom := hon.bottom
    have hbyte := draw_address (x := x.toNat) (y := y.toNat) h (by omega) (by omega) hindex
      (clipped surface shape) memory
    rw [hx, hy, clipped_of_contains hin, hshape] at hbyte
    exact hbyte
  · intro address hother
    rcases ha : surface.raster.pixelOf address with _ | ⟨x, y, index⟩
    · exact Raster.paint_of_pixelOf_none ha
    · obtain ⟨hplace, hx, hy, hindex⟩ := Raster.place_of_pixelOf h.fits ha
      have haddress : address = graphicsPixelAddress surface x y + index := hplace
      rw [haddress, draw_address h hx hy hindex]
      by_cases hin : graphicsRectangleContains surface.clip x y
      · rw [clipped_of_contains hin]
        cases hshape : shape x y with
        | none => rfl
        | some colour =>
            exact absurd haddress (hother x y hin (by rw [hshape]; rfl) index hindex)
      · rw [clipped_of_not hin]
        rfl

structure DrawCall.Leaves (description : BootFramebuffer) (surface : GraphicsSurface)
    (memory : Bytes) (call : DrawCall) : Prop where
  overflows : ¬call.Fits → call.run description surface memory = none
  nothing : call.Fits → call.Beyond → call.run description surface memory = some memory
  draws : call.Fits → ¬call.Beyond → call.run description surface memory =
    some (draw surface (clipped surface (call.shape description surface memory)) memory)

theorem DrawCall.leaves (h : surface.Sound) {call : DrawCall} (hvalid : call.Valid)
    (description : BootFramebuffer) (memory : Bytes) : call.Leaves description surface memory := by
  cases call with
  | putPixel x y colour =>
      exact ⟨fun hset ↦ absurd trivial hset, fun _ hbeyond ↦ hbeyond.elim,
        fun _ _ ↦ congrArg some (graphicsPutPixel_eq h memory x y colour)⟩
  | fillRectangle rectangle colour =>
      exact ⟨fun hset ↦ absurd trivial hset, fun _ hbeyond ↦ hbeyond.elim,
        fun _ _ ↦ congrArg some (graphicsFillRectangle_eq h memory rectangle colour)⟩
  | drawRectangle rectangle colour =>
      have hdrawn := graphicsDrawRectangle_eq h hvalid memory colour
      exact ⟨fun hset ↦ hdrawn.trans (if_neg hset), fun _ hbeyond ↦ hbeyond.elim,
        fun hfits _ ↦ hdrawn.trans (if_pos hfits)⟩
  | fillCircle centreX centreY radius colour =>
      obtain ⟨hx, -, hradius⟩ := hvalid
      obtain ⟨hdrawn, hnone⟩ := graphicsFillCircle_eq h hx hradius memory colour
      exact ⟨hnone, fun _ hbeyond ↦ hbeyond.elim, fun hfits _ ↦ hdrawn hfits⟩
  | patternBlock x y pattern rows ink paper =>
      obtain ⟨hdrawn, hnone⟩ := graphicsPatternBlock_eq h memory x y pattern rows ink paper
      exact ⟨fun hset ↦ absurd trivial hset, fun _ hbeyond ↦ congrArg some (hnone hbeyond),
        fun _ hsound ↦ congrArg some (hdrawn (not_not.mp hsound))⟩
  | drawLine firstX firstY secondX secondY colour =>
      obtain ⟨hdrawn, hnone⟩ := graphicsDrawLine_eq h memory colour
      exact ⟨fun hset ↦ absurd trivial hset, fun _ hbeyond ↦ hnone hbeyond,
        fun _ hsound ↦ hdrawn (not_not.mp hsound)⟩
  | blendSurface x y source pixels mask =>
      obtain ⟨hdrawn, hnone⟩ := graphicsBlendSurface_eq h memory
      exact ⟨hnone, fun _ hbeyond ↦ hbeyond.elim, fun hfits _ ↦ hdrawn hfits⟩

/-- A primitive draws its shape cut by the clip exactly where what it does not check has
coordinates. -/
theorem drawCall_clips_iff (description : BootFramebuffer) (memory : Bytes)
    (hsurface : surface.Reached) (call : DrawCall) (hvalid : call.Valid) :
    call.Clips description surface memory ↔ call.Fits := by
  have h := hsurface.sound
  have hbytes : { surface with wholeWords := false }.Sound :=
    { h with wholeWords := fun hset ↦ absurd hset Bool.false_ne_true }
  have hwords := DrawCall.leaves h hvalid description memory
  have hothers := DrawCall.leaves hbytes hvalid description memory
  constructor
  · rintro ⟨drawn, hrun, -⟩
    by_contra hset
    rw [hwords.overflows hset] at hrun
    cases hrun
  · intro hfits
    by_cases hbeyond : call.Beyond
    · exact ⟨memory, hwords.nothing hfits hbeyond, hothers.nothing hfits hbeyond,
        Or.inl ⟨hbeyond, rfl⟩⟩
    · have hdrawn := hothers.draws hfits hbeyond
      have hsame : call.shape description { surface with wholeWords := false } memory =
          call.shape description surface memory := by
        cases call <;> rfl
      rw [hsame] at hdrawn
      exact ⟨_, hwords.draws hfits hbeyond, hdrawn, Or.inr (drawsCut_draw h _ memory)⟩

def onePixelSurface : GraphicsSurface := ⟨4, 1, 1, 4, 4, true, ⟨0, 0, 1, 1⟩, []⟩

theorem onePixelSurface_reached : onePixelSurface.Reached :=
  ⟨4, 1, 1, 4, 4, onePixelSurface, [], rfl, rfl⟩

/-- A disc of no radius is drawn. -/
theorem drawCall_clips_iff_pixel :
    (DrawCall.fillCircle 0 0 0 1).Clips eightBitChannels onePixelSurface fun _ ↦ 0 :=
  (drawCall_clips_iff eightBitChannels (fun _ ↦ 0) onePixelSurface_reached
    (.fillCircle 0 0 0 1) ⟨by decide, by decide, by decide⟩).mpr (Or.inr ⟨by decide, by decide, by decide, by decide⟩)

/-- The width of the first span of a disc of a radius of 2^30 overflows. -/
theorem fillCircle_not_clips :
    onePixelSurface.Reached ∧ (DrawCall.fillCircle 0 0 1073741824 1).Valid ∧
      ¬(DrawCall.fillCircle 0 0 1073741824 1).Clips eightBitChannels onePixelSurface fun _ ↦ 0 := by
  have hvalid : (DrawCall.fillCircle 0 0 1073741824 1).Valid := ⟨by decide, by decide, by decide⟩
  refine ⟨onePixelSurface_reached, hvalid, ?_⟩
  rintro ⟨drawn, hrun, -⟩
  have hnone := (DrawCall.leaves onePixelSurface_reached.sound hvalid eightBitChannels
    fun _ ↦ 0).overflows fun hfits ↦ hfits.elim (by decide) fun hfits ↦
      absurd hfits.width (by decide)
  rw [hnone] at hrun
  cases hrun

end OxysOS.Graphics
