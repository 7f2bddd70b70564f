import OxysOS.Graphics.Draw

/-!
# What is drawn

A surface is a raster in memory, and each primitive paints a picture upon it: the shape as
it is upon the whole plane, cut by the clip.
-/

namespace OxysOS.Graphics

open OxysOS.Library

def GraphicsSurface.raster (surface : GraphicsSurface) : Raster where
  base := surface.pixels
  width := surface.width
  height := surface.height
  pitch := surface.pitch
  size := surface.bytesPerPixel

theorem GraphicsSurface.Sound.fits {surface : GraphicsSurface} (h : surface.Sound) :
    surface.raster.Fits := ⟨h.bytesPerPixel, h.pitch⟩

def draw (surface : GraphicsSurface) (picture : Picture UInt32) (memory : Bytes) : Bytes :=
  surface.raster.paint colourByte picture memory

def clipped (surface : GraphicsSurface) (shape : Picture UInt32) : Picture UInt32 := fun x y ↦
  if graphicsRectangleContains surface.clip x y then shape x y else none

def block (left top : ℤ) (width height : ℕ) (colour : ℕ → ℕ → UInt32) : Picture UInt32 :=
  fun x y ↦
    if left ≤ x ∧ x < left + width ∧ top ≤ y ∧ y < top + height then
      some (colour (x - left).toNat (y - top).toNat)
    else none

def filled (rectangle : GraphicsRectangle) (colour : UInt32) : Picture UInt32 := fun x y ↦
  if graphicsRectangleContains rectangle x y then some colour else none

open Classical in
noncomputable def shade (region : Set (ℤ × ℤ)) (colour : UInt32) : Picture UInt32 := fun x y ↦
  if (x, y) ∈ region then some colour else none

def GraphicsRectangle.region (rectangle : GraphicsRectangle) : Set (ℤ × ℤ) :=
  {p | graphicsRectangleContains rectangle p.1 p.2}

variable {surface : GraphicsSurface} {memory : Bytes} {x y : ℤ} {colour : UInt32}
  {picture shape shape' : Picture UInt32}

theorem draw_draw (surface : GraphicsSurface) (above below : Picture UInt32) (memory : Bytes) :
    draw surface above (draw surface below memory) =
      draw surface (Raster.upon above below) memory := Raster.paint_paint _ _ _ _ _

theorem draw_none (surface : GraphicsSurface) (memory : Bytes) :
    draw surface (fun _ _ ↦ none) memory = memory := Raster.paint_none _ _ _

theorem clipped_of_contains (hin : graphicsRectangleContains surface.clip x y) :
    clipped surface shape x y = shape x y := if_pos hin

theorem clipped_of_not (hin : ¬graphicsRectangleContains surface.clip x y) :
    clipped surface shape x y = none := if_neg hin

theorem clipped_upon (surface : GraphicsSurface) (above below : Picture UInt32) :
    Raster.upon (clipped surface above) (clipped surface below) =
      clipped surface (Raster.upon above below) := by
  funext x y
  by_cases hin : graphicsRectangleContains surface.clip x y
  · unfold Raster.upon
    rw [clipped_of_contains hin, clipped_of_contains hin, clipped_of_contains hin]
  · unfold Raster.upon
    rw [clipped_of_not hin, clipped_of_not hin, clipped_of_not hin]
    rfl

theorem clipped_congr (h : ∀ x y, graphicsRectangleContains surface.clip x y →
    shape x y = shape' x y) : clipped surface shape = clipped surface shape' := by
  funext x y
  by_cases hin : graphicsRectangleContains surface.clip x y
  · rw [clipped_of_contains hin, clipped_of_contains hin, h x y hin]
  · rw [clipped_of_not hin, clipped_of_not hin]

section Shade

variable {region region' : Set (ℤ × ℤ)}

theorem shade_of_mem (h : (x, y) ∈ region) : shade region colour x y = some colour := if_pos h

theorem shade_of_notMem (h : (x, y) ∉ region) : shade region colour x y = none := if_neg h

theorem shade_upon (region region' : Set (ℤ × ℤ)) (colour : UInt32) :
    Raster.upon (shade region colour) (shade region' colour) = shade (region ∪ region') colour := by
  funext x y
  by_cases h : (x, y) ∈ region
  · rw [Raster.upon_of_some (shade_of_mem h), shade_of_mem (Or.inl h)]
  · rw [Raster.upon_of_none (shade_of_notMem h)]
    by_cases h' : (x, y) ∈ region'
    · rw [shade_of_mem h', shade_of_mem (Or.inr h')]
    · rw [shade_of_notMem h', shade_of_notMem fun hmem ↦ hmem.elim h h']

theorem draw_shade_draw_shade (surface : GraphicsSurface) (region region' : Set (ℤ × ℤ))
    (colour : UInt32) (memory : Bytes) :
    draw surface (clipped surface (shade region colour))
        (draw surface (clipped surface (shade region' colour)) memory) =
      draw surface (clipped surface (shade (region ∪ region') colour)) memory := by
  rw [draw_draw, clipped_upon, shade_upon]

theorem clipped_shade_congr (h : ∀ x y, graphicsRectangleContains surface.clip x y →
    ((x, y) ∈ region ↔ (x, y) ∈ region')) :
    clipped surface (shade region colour) = clipped surface (shade region' colour) := by
  refine clipped_congr fun x y hin ↦ ?_
  by_cases hmem : (x, y) ∈ region
  · rw [shade_of_mem hmem, shade_of_mem ((h x y hin).mp hmem)]
  · rw [shade_of_notMem hmem, shade_of_notMem fun hset ↦ hmem ((h x y hin).mpr hset)]

end Shade

theorem filled_eq_shade (rectangle : GraphicsRectangle) (colour : UInt32) :
    filled rectangle colour = shade rectangle.region colour := by
  funext x y
  by_cases h : graphicsRectangleContains rectangle x y
  · exact (if_pos h).trans (shade_of_mem h).symm
  · exact (if_neg h).trans (shade_of_notMem h).symm

section Block

variable {left top : ℤ} {width height : ℕ} {colours : ℕ → ℕ → UInt32}

theorem block_of_in (h : left ≤ x ∧ x < left + width ∧ top ≤ y ∧ y < top + height) :
    block left top width height colours x y = some (colours (x - left).toNat (y - top).toNat) :=
  if_pos h

theorem block_of_out (h : ¬(left ≤ x ∧ x < left + width ∧ top ≤ y ∧ y < top + height)) :
    block left top width height colours x y = none := if_neg h

end Block

theorem foldl_update (f : ℕ → UInt8) (address count : ℕ) (memory : Bytes) :
    (List.range count).foldl (fun memory index ↦
        Function.update memory (address + index) (f index)) memory =
      fun a ↦ if address ≤ a ∧ a < address + count then f (a - address) else memory a := by
  induction count with
  | zero =>
      funext a
      rw [if_neg (by omega)]
      rfl
  | succ count ih =>
      rw [List.range_succ, List.foldl_append, ih]
      funext a
      simp only [List.foldl_cons, List.foldl_nil, Function.update_apply]
      by_cases ha : a = address + count
      · rw [if_pos ha, if_pos (by omega), ha, Nat.add_sub_cancel_left]
      · rw [if_neg ha]
        by_cases hin : address ≤ a ∧ a < address + count
        · rw [if_pos hin, if_pos (by omega)]
        · rw [if_neg hin, if_neg (by omega)]

structure OnSurface (surface : GraphicsSurface) (x y : ℤ) : Prop where
  left : 0 ≤ x
  right : x < surface.width
  top : 0 ≤ y
  bottom : y < surface.height

theorem GraphicsSurface.Sound.onSurface (h : surface.Sound)
    (hin : graphicsRectangleContains surface.clip x y) : OnSurface surface x y := by
  have hwithin := h.clip x y hin
  exact ⟨hwithin.1, hwithin.2.1, hwithin.2.2.1, hwithin.2.2.2⟩

theorem graphicsPixelAddress_eq (surface : GraphicsSurface) (x y : ℤ) :
    graphicsPixelAddress surface x y = surface.raster.place x.toNat y.toNat := rfl

theorem draw_address (h : surface.Sound) {x y index : ℕ} (hx : x < surface.width)
    (hy : y < surface.height) (hindex : index < surface.bytesPerPixel) (picture : Picture UInt32)
    (memory : Bytes) :
    draw surface picture memory (graphicsPixelAddress surface x y + index) =
      ((picture x y).map fun colour ↦ colourByte colour index).getD
        (memory (graphicsPixelAddress surface x y + index)) :=
  Raster.paint_place h.fits hx hy hindex

theorem graphicsStorePixel_eq (h : surface.Sound) (hin : OnSurface surface x y)
    (memory : Bytes) (colour : UInt32) :
    graphicsStorePixel surface memory (graphicsPixelAddress surface x y) colour =
      draw surface (Raster.single x y colour) memory := by
  have hx : (x.toNat : ℤ) = x := Int.toNat_of_nonneg hin.left
  have hy : (y.toNat : ℤ) = y := Int.toNat_of_nonneg hin.top
  have hright := hin.right
  have hbottom := hin.bottom
  have hsingle := Raster.paint_single colourByte h.fits
    (by change x.toNat < surface.width; omega) (by change y.toNat < surface.height; omega) colour
    memory
  rw [hx, hy] at hsingle
  refine Eq.trans ?_ hsingle
  unfold graphicsStorePixel
  by_cases hwords : surface.wholeWords
  · rw [if_pos hwords]
    unfold storeWord
    rw [graphicsPixelAddress_eq]
    have hsize : surface.raster.size = 4 := h.wholeWords hwords
    rw [hsize]
  · rw [if_neg hwords, foldl_update]
    rfl

theorem graphicsPutPixel_eq (h : surface.Sound) (memory : Bytes) (x y : ℤ) (colour : UInt32) :
    graphicsPutPixel surface memory x y colour =
      draw surface (clipped surface (Raster.single x y colour)) memory := by
  unfold graphicsPutPixel
  by_cases hin : graphicsRectangleContains surface.clip x y
  · rw [if_pos hin, graphicsStorePixel_eq h (h.onSurface hin)]
    congr 1
    funext x' y'
    by_cases hsame : x' = x ∧ y' = y
    · rw [hsame.1, hsame.2, clipped_of_contains hin]
    · unfold clipped
      rw [Raster.single_of_ne hsame, ite_self]
  · rw [if_neg hin]
    refine (draw_none surface memory).symm.trans ?_
    congr 1
    funext x' y'
    by_cases hsame : x' = x ∧ y' = y
    · rw [hsame.1, hsame.2, clipped_of_not hin]
    · unfold clipped
      rw [Raster.single_of_ne hsame, ite_self]

theorem storeRow_eq (h : surface.Sound) {width : ℕ} (hleft : 0 ≤ x)
    (hright : x + width ≤ surface.width) (htop : 0 ≤ y) (hbottom : y < surface.height)
    (memory : Bytes) (colour : ℕ → UInt32) :
    storeRow surface memory (graphicsPixelAddress surface x y) width colour =
      draw surface (block x y width 1 fun column _ ↦ colour column) memory := by
  -- either way the pixels are stored where they are
  have hstores : storeRow surface memory (graphicsPixelAddress surface x y) width colour =
      (List.range width).foldl (fun memory (column : ℕ) ↦ graphicsStorePixel surface memory
        (graphicsPixelAddress surface (x + column) y) (colour column)) memory := by
    have haddress : ∀ column : ℕ, graphicsPixelAddress surface (x + column) y =
        graphicsPixelAddress surface x y + column * surface.bytesPerPixel := fun column ↦ by
      have hcolumn : (x + column).toNat = x.toNat + column := by omega
      unfold graphicsPixelAddress
      rw [hcolumn, Nat.add_mul]
      omega
    unfold storeRow
    by_cases hwords : surface.wholeWords
    · rw [if_pos hwords]
      refine congrFun (congrArg₂ _ (funext fun memory ↦ funext fun column ↦ ?_) rfl) _
      rw [haddress, h.wholeWords hwords, Nat.mul_comm]
      unfold graphicsStorePixel
      rw [if_pos hwords]
    · rw [if_neg hwords]
      refine congrFun (congrArg₂ _ (funext fun memory ↦ funext fun column ↦ ?_) rfl) _
      rw [haddress]
  rw [hstores]
  clear hstores
  induction width with
  | zero =>
      refine (draw_none surface memory).symm.trans ?_
      congr 1
      funext x' y'
      rw [block_of_out (by omega)]
  | succ width ih =>
      have hin : OnSurface surface (x + width) y := ⟨by omega, by omega, htop, hbottom⟩
      rw [List.range_succ, List.foldl_append, ih (by omega)]
      simp only [List.foldl_cons, List.foldl_nil]
      rw [graphicsStorePixel_eq h hin, draw_draw]
      congr 1
      funext x' y'
      by_cases hlast : x' = x + width ∧ y' = y
      · have hcolumn : (x + width - x).toNat = width := by omega
        rw [hlast.1, hlast.2, Raster.upon_of_some (Raster.single_self _ _ _),
          block_of_in (by omega), hcolumn]
      · rw [Raster.upon_of_none (Raster.single_of_ne hlast _)]
        by_cases hbefore : x ≤ x' ∧ x' < x + width ∧ y ≤ y' ∧ y' < y + (1 : ℕ)
        · rw [block_of_in hbefore, block_of_in (by omega)]
        · rw [block_of_out hbefore, block_of_out (by omega)]

theorem foldl_storeRow_eq (h : surface.Sound) {width height : ℕ} (hleft : 0 ≤ x)
    (hright : x + width ≤ surface.width) (htop : 0 ≤ y) (hbottom : y + height ≤ surface.height)
    (memory : Bytes) (colour : ℕ → ℕ → UInt32) :
    (List.range height).foldl (fun memory (row : ℕ) ↦ storeRow surface memory
        (graphicsPixelAddress surface x (y + row)) width fun column ↦ colour column row) memory =
      draw surface (block x y width height colour) memory := by
  induction height with
  | zero =>
      refine (draw_none surface memory).symm.trans ?_
      congr 1
      funext x' y'
      unfold block
      rw [if_neg (by omega)]
  | succ height ih =>
      rw [List.range_succ, List.foldl_append, ih (by omega)]
      simp only [List.foldl_cons, List.foldl_nil]
      rw [storeRow_eq h hleft hright (by omega) (by omega), draw_draw]
      congr 1
      funext x' y'
      by_cases hlast : x ≤ x' ∧ x' < x + width ∧ y + height ≤ y' ∧ y' < y + height + (1 : ℕ)
      · have hrow : (y' - y).toNat = height := by omega
        rw [Raster.upon_of_some (block_of_in hlast), block_of_in (by omega), hrow]
      · rw [Raster.upon_of_none (block_of_out hlast)]
        by_cases hbefore : x ≤ x' ∧ x' < x + width ∧ y ≤ y' ∧ y' < y + height
        · rw [block_of_in hbefore, block_of_in (by omega)]
        · rw [block_of_out hbefore, block_of_out (by omega)]

end OxysOS.Graphics
