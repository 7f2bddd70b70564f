import OxysOS.Library.Raster
import Mathlib.Logic.Function.Basic

/-!
# Surfaces

`graphics/draw.c`: rectangles, the description of a surface with its clip, and the bytes
of a pixel.  A coordinate is an integer, memory is a run of bytes by address, and a
computation that may overflow a signed integer gives nothing where it does.
-/

namespace OxysOS.Graphics

open OxysOS.Library

def graphicsCoordinateLimit : ℕ := 32767

def graphicsClipDepth : ℕ := 4

/-- The values of an `int32_t`. -/
def IsInt32 (value : ℤ) : Prop := -2147483648 ≤ value ∧ value ≤ 2147483647

instance (value : ℤ) : Decidable (IsInt32 value) := inferInstanceAs (Decidable (_ ∧ _))

structure GraphicsRectangle where
  x : ℤ
  y : ℤ
  width : ℤ
  height : ℤ
  deriving DecidableEq

/-- The members of a rectangle are values of an `int32_t`. -/
structure GraphicsRectangle.IsInt32 (rectangle : GraphicsRectangle) : Prop where
  x : Graphics.IsInt32 rectangle.x
  y : Graphics.IsInt32 rectangle.y
  width : Graphics.IsInt32 rectangle.width
  height : Graphics.IsInt32 rectangle.height

def graphicsRectangleIsEmpty (rectangle : GraphicsRectangle) : Bool :=
  rectangle.width ≤ 0 ∨ rectangle.height ≤ 0

/-- `GraphicsRectangleIntersect`.  The edges are computed in 64 bits. -/
def graphicsRectangleIntersect (first second : GraphicsRectangle) : GraphicsRectangle :=
  if graphicsRectangleIsEmpty first ∨ graphicsRectangleIsEmpty second then ⟨0, 0, 0, 0⟩
  else
    let left := if first.x > second.x then first.x else second.x
    let top := if first.y > second.y then first.y else second.y
    let right :=
      if second.x + second.width < first.x + first.width then second.x + second.width
      else first.x + first.width
    let bottom :=
      if second.y + second.height < first.y + first.height then second.y + second.height
      else first.y + first.height
    if right ≤ left ∨ bottom ≤ top then ⟨0, 0, 0, 0⟩
    else ⟨left, top, right - left, bottom - top⟩

def graphicsRectangleContains (rectangle : GraphicsRectangle) (x y : ℤ) : Bool :=
  if graphicsRectangleIsEmpty rectangle then false
  else x ≥ rectangle.x ∧ y ≥ rectangle.y ∧ x < rectangle.x + rectangle.width ∧
    y < rectangle.y + rectangle.height

def graphicsCoordinateIsSound (value : ℤ) : Bool :=
  value ≥ -graphicsCoordinateLimit ∧ value ≤ graphicsCoordinateLimit

variable {first second rectangle : GraphicsRectangle} {x y : ℤ}

theorem contains_iff : graphicsRectangleContains rectangle x y ↔
    rectangle.x ≤ x ∧ x < rectangle.x + rectangle.width ∧ rectangle.y ≤ y ∧
      y < rectangle.y + rectangle.height := by
  unfold graphicsRectangleContains graphicsRectangleIsEmpty
  simp only [decide_eq_true_eq]
  split_ifs with hempty
  · exact iff_of_false not_false (by omega)
  · rw [decide_eq_true_eq]
    omega

theorem coordinateIsSound_iff {value : ℤ} : graphicsCoordinateIsSound value ↔
    -32767 ≤ value ∧ value ≤ 32767 := by
  unfold graphicsCoordinateIsSound graphicsCoordinateLimit
  rw [decide_eq_true_eq]
  omega

theorem contains_corner (h : graphicsRectangleContains rectangle x y) :
    graphicsRectangleContains rectangle rectangle.x rectangle.y := by
  rw [contains_iff] at h ⊢
  omega

theorem isEmpty_iff : graphicsRectangleIsEmpty rectangle ↔
    rectangle.width ≤ 0 ∨ rectangle.height ≤ 0 := by
  unfold graphicsRectangleIsEmpty
  rw [decide_eq_true_eq]

theorem contains_intersect : graphicsRectangleContains (graphicsRectangleIntersect first second) x y ↔
    graphicsRectangleContains first x y ∧ graphicsRectangleContains second x y := by
  unfold graphicsRectangleIntersect
  simp only [isEmpty_iff]
  split_ifs <;> simp only [contains_iff] <;> omega

/-- `GraphicsSurface`.  `clip_depth` is the length of the saved clips. -/
structure GraphicsSurface where
  pixels : ℕ
  width : ℕ
  height : ℕ
  pitch : ℕ
  bytesPerPixel : ℕ
  wholeWords : Bool
  clip : GraphicsRectangle
  clipStack : List GraphicsRectangle

def graphicsSurfaceBounds (surface : GraphicsSurface) : GraphicsRectangle :=
  ⟨0, 0, surface.width, surface.height⟩

/-- `GraphicsSurfaceInitialise`, where the pixels are somewhere. -/
def graphicsSurfaceInitialise (pixels width height pitch bytesPerPixel : ℕ) :
    Option GraphicsSurface :=
  if pixels = 0 ∨ width = 0 ∨ height = 0 ∨ bytesPerPixel = 0 then none
  else if width > graphicsCoordinateLimit ∨ height > graphicsCoordinateLimit then none
  else if pitch < width * bytesPerPixel then none
  else some
    { pixels, width, height, pitch, bytesPerPixel
      wholeWords := bytesPerPixel = 4 ∧ pixels % 4 = 0 ∧ pitch % 4 = 0
      clip := ⟨0, 0, width, height⟩
      clipStack := [] }

def graphicsSetClip (surface : GraphicsSurface) (region : GraphicsRectangle) : GraphicsSurface :=
  { surface with clip := graphicsRectangleIntersect region (graphicsSurfaceBounds surface) }

def graphicsResetClip (surface : GraphicsSurface) : GraphicsSurface :=
  { surface with clip := graphicsSurfaceBounds surface, clipStack := [] }

def graphicsPushClip (surface : GraphicsSurface) (region : GraphicsRectangle) : GraphicsSurface :=
  if surface.clipStack.length ≥ graphicsClipDepth then surface
  else { surface with
    clipStack := surface.clip :: surface.clipStack
    clip := graphicsRectangleIntersect surface.clip region }

def graphicsPopClip (surface : GraphicsSurface) : GraphicsSurface :=
  match surface.clipStack with
  | [] => surface
  | clip :: clipStack => { surface with clip, clipStack }

inductive ClipCall
  | set (region : GraphicsRectangle)
  | reset
  | push (region : GraphicsRectangle)
  | pop

def ClipCall.run (surface : GraphicsSurface) : ClipCall → GraphicsSurface
  | set region => graphicsSetClip surface region
  | reset => graphicsResetClip surface
  | push region => graphicsPushClip surface region
  | pop => graphicsPopClip surface

def GraphicsSurface.Reached (surface : GraphicsSurface) : Prop :=
  ∃ pixels width height pitch bytesPerPixel begun, ∃ calls : List ClipCall,
    graphicsSurfaceInitialise pixels width height pitch bytesPerPixel = some begun ∧
      surface = calls.foldl ClipCall.run begun

def WithinBounds (surface : GraphicsSurface) (region : GraphicsRectangle) : Prop :=
  ∀ x y, graphicsRectangleContains region x y →
    0 ≤ x ∧ x < surface.width ∧ 0 ≤ y ∧ y < surface.height

structure GraphicsSurface.Sound (surface : GraphicsSurface) : Prop where
  width : surface.width ≤ graphicsCoordinateLimit
  height : surface.height ≤ graphicsCoordinateLimit
  bytesPerPixel : 0 < surface.bytesPerPixel
  pitch : surface.width * surface.bytesPerPixel ≤ surface.pitch
  wholeWords : surface.wholeWords → surface.bytesPerPixel = 4
  clip : WithinBounds surface surface.clip
  clipStack : ∀ clip ∈ surface.clipStack, WithinBounds surface clip

theorem WithinBounds.edges {surface : GraphicsSurface} {region : GraphicsRectangle}
    (h : WithinBounds surface region) (hempty : ¬graphicsRectangleIsEmpty region) :
    0 < region.width ∧ 0 < region.height ∧ 0 ≤ region.x ∧ region.x + region.width ≤ surface.width ∧
      0 ≤ region.y ∧ region.y + region.height ≤ surface.height := by
  rw [isEmpty_iff] at hempty
  have hfirst := h region.x region.y (contains_iff.mpr (by omega))
  have hlast := h (region.x + region.width - 1) (region.y + region.height - 1)
    (contains_iff.mpr (by omega))
  omega

theorem withinBounds_bounds (surface : GraphicsSurface) :
    WithinBounds surface (graphicsSurfaceBounds surface) := by
  intro x y h
  have hin := contains_iff.mp h
  unfold graphicsSurfaceBounds at hin
  dsimp only at hin
  omega

theorem sound_of_initialise {pixels width height pitch bytesPerPixel : ℕ} {surface : GraphicsSurface}
    (h : graphicsSurfaceInitialise pixels width height pitch bytesPerPixel = some surface) :
    surface.Sound := by
  unfold graphicsSurfaceInitialise at h
  split_ifs at h with hnone hlimit hpitch
  cases h
  exact ⟨by dsimp only; omega, by dsimp only; omega, by dsimp only; omega, by dsimp only; omega,
    fun hwords ↦ (of_decide_eq_true hwords).1, withinBounds_bounds _,
    fun _ hmem ↦ absurd hmem List.not_mem_nil⟩

theorem GraphicsSurface.Sound.run {surface : GraphicsSurface} (h : surface.Sound)
    (call : ClipCall) : (call.run surface).Sound := by
  cases call with
  | set region =>
      exact { h with clip := fun x y hin ↦
        withinBounds_bounds surface x y (contains_intersect.mp hin).2 }
  | reset =>
      exact { h with
        clip := withinBounds_bounds surface
        clipStack := fun _ hmem ↦ absurd hmem List.not_mem_nil }
  | push region =>
      unfold ClipCall.run graphicsPushClip
      dsimp only
      split_ifs
      · exact h
      · refine { h with
          clip := fun x y hin ↦ h.clip x y (contains_intersect.mp hin).1
          clipStack := fun clip hmem ↦ ?_ }
        rcases List.mem_cons.mp hmem with rfl | hmem
        · exact h.clip
        · exact h.clipStack clip hmem
  | pop =>
      unfold ClipCall.run graphicsPopClip
      dsimp only
      cases hstack : surface.clipStack with
      | nil => exact h
      | cons clip clipStack =>
          have hall := h.clipStack
          rw [hstack] at hall
          exact { h with
            clip := hall clip List.mem_cons_self
            clipStack := fun other hmem ↦ hall other (List.mem_cons_of_mem _ hmem) }

theorem GraphicsSurface.Reached.sound {surface : GraphicsSurface} (h : surface.Reached) :
    surface.Sound := by
  obtain ⟨pixels, width, height, pitch, bytesPerPixel, begun, calls, hbegun, rfl⟩ := h
  have hsound := sound_of_initialise hbegun
  clear hbegun
  induction calls generalizing begun with
  | nil => exact hsound
  | cons call calls ih => exact ih (call.run begun) (hsound.run call)

end OxysOS.Graphics
