import OxysOS.Graphics.Paint
import Mathlib.Tactic.Linarith

/-!
# The shapes of the primitives

The filled and the outlined rectangle, the block of a pattern and the disc, as pictures of
the whole plane, of which each primitive draws what is within the clip.
-/

namespace OxysOS.Graphics

open OxysOS.Library

variable {surface : GraphicsSurface} {memory : Bytes} {x y : ℤ} {colour : UInt32}
  {rectangle : GraphicsRectangle}

theorem filled_of_contains (h : graphicsRectangleContains rectangle x y) :
    filled rectangle colour x y = some colour := if_pos h

theorem filled_of_not (h : ¬graphicsRectangleContains rectangle x y) :
    filled rectangle colour x y = none := if_neg h

theorem foldl_storeRow_intersect (h : surface.Sound) (rectangle : GraphicsRectangle)
    (hsome : ¬graphicsRectangleIsEmpty (graphicsRectangleIntersect rectangle surface.clip))
    (memory : Bytes) (colour : ℕ → ℕ → UInt32) (shape : Picture UInt32)
    (hshape : ∀ x y, graphicsRectangleContains
      (graphicsRectangleIntersect rectangle surface.clip) x y →
        shape x y = some (colour
          (x - (graphicsRectangleIntersect rectangle surface.clip).x).toNat
          (y - (graphicsRectangleIntersect rectangle surface.clip).y).toNat))
    (houtside : ∀ x y, ¬graphicsRectangleContains rectangle x y → shape x y = none) :
    (List.range (graphicsRectangleIntersect rectangle surface.clip).height.toNat).foldl
        (fun memory (row : ℕ) ↦ storeRow surface memory (graphicsPixelAddress surface
          (graphicsRectangleIntersect rectangle surface.clip).x
          ((graphicsRectangleIntersect rectangle surface.clip).y + row))
          (graphicsRectangleIntersect rectangle surface.clip).width.toNat
          fun column ↦ colour column row) memory =
      draw surface (clipped surface shape) memory := by
  have hcontains : ∀ x y, graphicsRectangleContains
      (graphicsRectangleIntersect rectangle surface.clip) x y ↔
        graphicsRectangleContains rectangle x y ∧ graphicsRectangleContains surface.clip x y :=
    fun x y ↦ contains_intersect
  generalize graphicsRectangleIntersect rectangle surface.clip = area at *
  have hwithin : WithinBounds surface area := fun x y hin ↦
    h.clip x y ((hcontains x y).mp hin).2
  obtain ⟨hwidth, hheight, hleft, hright, htop, hbottom⟩ := hwithin.edges hsome
  rw [foldl_storeRow_eq h hleft (by omega) htop (by omega)]
  congr 1
  funext x y
  by_cases hin : graphicsRectangleContains area x y
  · have hedges := contains_iff.mp hin
    rw [clipped_of_contains ((hcontains x y).mp hin).2, hshape x y hin, block_of_in (by omega)]
  · have hedges : ¬_ := fun hset ↦ hin (contains_iff.mpr hset)
    rw [block_of_out (by omega)]
    by_cases hclip : graphicsRectangleContains surface.clip x y
    · rw [clipped_of_contains hclip,
        houtside x y fun hset ↦ hin ((hcontains x y).mpr ⟨hset, hclip⟩)]
    · rw [clipped_of_not hclip]

theorem draw_clipped_of_isEmpty
    (hempty : graphicsRectangleIsEmpty (graphicsRectangleIntersect rectangle surface.clip))
    {shape : Picture UInt32}
    (houtside : ∀ x y, ¬graphicsRectangleContains rectangle x y → shape x y = none) :
    draw surface (clipped surface shape) memory = memory := by
  refine Eq.trans ?_ (draw_none surface memory)
  congr 1
  funext x y
  by_cases hclip : graphicsRectangleContains surface.clip x y
  · rw [clipped_of_contains hclip]
    refine houtside x y fun hset ↦ ?_
    have hin := contains_iff.mp (contains_intersect.mpr ⟨hset, hclip⟩)
    rw [isEmpty_iff] at hempty
    omega
  · exact clipped_of_not hclip

theorem graphicsFillRectangle_eq (h : surface.Sound) (memory : Bytes)
    (rectangle : GraphicsRectangle) (colour : UInt32) :
    graphicsFillRectangle surface memory rectangle colour =
      draw surface (clipped surface (filled rectangle colour)) memory := by
  unfold graphicsFillRectangle
  dsimp only
  split_ifs with hempty
  · exact (draw_clipped_of_isEmpty hempty fun _ _ ↦ filled_of_not).symm
  · exact foldl_storeRow_intersect h rectangle hempty memory (fun _ _ ↦ colour) _
      (fun _ _ hin ↦ filled_of_contains (contains_intersect.mp hin).1) fun _ _ ↦ filled_of_not

theorem graphicsClear_eq (h : surface.Sound) (memory : Bytes) (colour : UInt32) :
    graphicsClear surface memory colour =
      draw surface (clipped surface fun _ _ ↦ some colour) memory := by
  refine (graphicsFillRectangle_eq h memory surface.clip colour).trans ?_
  congr 1
  funext x y
  by_cases hclip : graphicsRectangleContains surface.clip x y
  · rw [clipped_of_contains hclip, clipped_of_contains hclip, filled_of_contains hclip]
  · rw [clipped_of_not hclip, clipped_of_not hclip]

def patterned (x y : ℤ) (pattern : ℕ → UInt8) (rows : ℤ) (ink paper : UInt32) : Picture UInt32 :=
  fun x' y' ↦
    if graphicsRectangleContains ⟨x, y, 8, rows⟩ x' y' then
      some (patternColour (pattern (y' - y).toNat) ink paper (x' - x))
    else none

def PatternSound (x y rows : ℤ) : Prop :=
  graphicsCoordinateIsSound x ∧ graphicsCoordinateIsSound y ∧ graphicsCoordinateIsSound (x + 8) ∧
    graphicsCoordinateIsSound (y + rows)

theorem graphicsPatternBlock_eq (h : surface.Sound) (memory : Bytes) (x y : ℤ)
    (pattern : ℕ → UInt8) (rows : ℤ) (ink paper : UInt32) :
    (PatternSound x y rows → graphicsPatternBlock surface memory x y pattern rows ink paper =
      draw surface (clipped surface (patterned x y pattern rows ink paper)) memory) ∧
    (¬PatternSound x y rows →
      graphicsPatternBlock surface memory x y pattern rows ink paper = memory) := by
  have houtside : ∀ x' y', ¬graphicsRectangleContains ⟨x, y, 8, rows⟩ x' y' →
      patterned x y pattern rows ink paper x' y' = none := fun x' y' hnot ↦ if_neg hnot
  unfold graphicsPatternBlock PatternSound
  dsimp only
  refine ⟨fun hsound ↦ ?_, fun hsound ↦ ?_⟩
  · rw [if_neg (by tauto : ¬(¬graphicsCoordinateIsSound x ∨ _))]
    split_ifs with hrows hempty
    · have hempty : graphicsRectangleIsEmpty
          (graphicsRectangleIntersect ⟨x, y, 8, rows⟩ surface.clip) := by
        unfold graphicsRectangleIntersect
        rw [if_pos (Or.inl (isEmpty_iff.mpr (Or.inr hrows)))]
        rfl
      exact (draw_clipped_of_isEmpty hempty houtside).symm
    · exact (draw_clipped_of_isEmpty hempty houtside).symm
    have hleast : ∀ x' y', graphicsRectangleContains (graphicsRectangleIntersect
        ⟨x, y, 8, rows⟩ surface.clip) x' y' →
        x ≤ (graphicsRectangleIntersect ⟨x, y, 8, rows⟩ surface.clip).x ∧
          y ≤ (graphicsRectangleIntersect ⟨x, y, 8, rows⟩ surface.clip).y := by
      intro x' y' hin
      have hblock := contains_iff.mp (contains_intersect.mp (contains_corner hin)).1
      exact ⟨hblock.1, hblock.2.2.1⟩
    refine foldl_storeRow_intersect h ⟨x, y, 8, rows⟩ hempty memory (fun column row ↦
      patternColour (pattern (((graphicsRectangleIntersect ⟨x, y, 8, rows⟩ surface.clip).y -
        y).toNat + row)) ink paper
        ((graphicsRectangleIntersect ⟨x, y, 8, rows⟩ surface.clip).x - x + column)) _
      (fun x' y' hin ↦ ?_) houtside
    have hcorner := hleast x' y' hin
    have hedges := contains_iff.mp hin
    unfold patterned
    rw [if_pos (contains_intersect.mp hin).1]
    congr 2
    · congr 1
      omega
    · omega
  · rw [if_pos (by tauto : ¬graphicsCoordinateIsSound x ∨ _), ite_self]

def GraphicsRectangle.outline (rectangle : GraphicsRectangle) : Set (ℤ × ℤ) :=
  {p | graphicsRectangleContains rectangle p.1 p.2 ∧
    (p.2 = rectangle.y ∨ p.2 = rectangle.y + rectangle.height - 1 ∨
      p.1 = rectangle.x ∨ p.1 = rectangle.x + rectangle.width - 1)}

theorem graphicsFillRectangle_shade (h : surface.Sound) (memory : Bytes)
    (rectangle : GraphicsRectangle) (colour : UInt32) :
    graphicsFillRectangle surface memory rectangle colour =
      draw surface (clipped surface (shade rectangle.region colour)) memory := by
  rw [graphicsFillRectangle_eq h, filled_eq_shade]

theorem eq_toInt32_iff (value coordinate : ℤ) (hvalue : -2147483648 ≤ value)
    (hbound : value < 4294967296) (hleast : 0 ≤ coordinate) (hgreatest : coordinate ≤ 32767) :
    coordinate = toInt32 value ↔ coordinate = value := by
  unfold toInt32
  omega

theorem graphicsDrawRectangle_eq (h : surface.Sound) (hint32 : rectangle.IsInt32)
    (memory : Bytes) (colour : UInt32) :
    graphicsDrawRectangle surface memory rectangle colour =
      if graphicsRectangleIsEmpty rectangle ∨ rectangle.height = 1 ∨ rectangle.y ≠ 2147483647 then
        some (draw surface (clipped surface (shade rectangle.outline colour)) memory)
      else none := by
  obtain ⟨⟨hx, hx'⟩, ⟨hy, hy'⟩, ⟨hwidth, hwidth'⟩, ⟨hheight, hheight'⟩⟩ := hint32
  have hclip : ∀ x y, graphicsRectangleContains surface.clip x y →
      0 ≤ x ∧ x ≤ 32767 ∧ 0 ≤ y ∧ y ≤ 32767 := by
    intro x y hin
    have hwithin := h.clip x y hin
    have hright := h.width
    have hbottom := h.height
    unfold graphicsCoordinateLimit at hright hbottom
    omega
  have hregion : ∀ {rectangle : GraphicsRectangle} {x y : ℤ}, (x, y) ∈ rectangle.region ↔
      rectangle.x ≤ x ∧ x < rectangle.x + rectangle.width ∧ rectangle.y ≤ y ∧
        y < rectangle.y + rectangle.height := contains_iff
  have houtline : ∀ {x y : ℤ}, (x, y) ∈ rectangle.outline ↔
      (rectangle.x ≤ x ∧ x < rectangle.x + rectangle.width ∧ rectangle.y ≤ y ∧
        y < rectangle.y + rectangle.height) ∧
      (y = rectangle.y ∨ y = rectangle.y + rectangle.height - 1 ∨
        x = rectangle.x ∨ x = rectangle.x + rectangle.width - 1) :=
    and_congr_left' contains_iff
  unfold graphicsDrawRectangle
  simp only [graphicsFillRectangle_shade h, draw_shade_draw_shade]
  by_cases hempty : graphicsRectangleIsEmpty rectangle
  · rw [if_pos hempty, if_pos (Or.inl hempty)]
    refine congrArg some ?_
    rw [isEmpty_iff] at hempty
    refine (draw_none surface memory).symm.trans (congrArg (draw surface · memory) ?_)
    funext x y
    unfold clipped
    rw [shade_of_notMem (by rw [houtline]; omega), ite_self]
  rw [if_neg hempty]
  have hextent := hempty
  rw [isEmpty_iff] at hextent
  by_cases hone : rectangle.height = 1
  · rw [if_pos hone, if_pos (Or.inr (Or.inl hone))]
    refine congrArg some (congrArg (draw surface · memory) (clipped_shade_congr fun x y _ ↦ ?_))
    rw [hregion, houtline]
    dsimp only
    omega
  rw [if_neg hone]
  by_cases htop : rectangle.y = 2147483647
  · have hchecked : checked [rectangle.y + 1, rectangle.height - 2] = none := by
      refine if_neg fun hall ↦ ?_
      have hbound := (hall _ List.mem_cons_self).2
      omega
    have hnone : ¬(graphicsRectangleIsEmpty rectangle ∨ rectangle.height = 1 ∨
        rectangle.y ≠ 2147483647) := by
      rintro (hset | hset | hset)
      · exact hempty hset
      · exact hone hset
      · exact hset htop
    rw [hchecked, if_neg hnone]
    rfl
  have hchecked : checked [rectangle.y + 1, rectangle.height - 2] = some () := by
    refine if_pos fun value hmem ↦ ?_
    simp only [List.mem_cons, List.not_mem_nil, or_false] at hmem
    unfold IsInt32
    omega
  rw [hchecked, if_pos (Or.inr (Or.inr htop))]
  -- an edge that is converted is off the surface, or is where it should be
  have hbottom := fun (y : ℤ) ↦ eq_toInt32_iff (rectangle.y + rectangle.height - 1) y
    (by omega) (by omega)
  have hright := fun (x : ℤ) ↦ eq_toInt32_iff (rectangle.x + rectangle.width - 1) x
    (by omega) (by omega)
  have hdrawn : ∀ region : Set (ℤ × ℤ), (∀ x y : ℤ, 0 ≤ x → x ≤ 32767 → 0 ≤ y → y ≤ 32767 →
      ((x, y) ∈ region ↔ (x, y) ∈ rectangle.outline)) →
      some (draw surface (clipped surface (shade region colour)) memory) =
        some (draw surface (clipped surface (shade rectangle.outline colour)) memory) := by
    intro region hsame
    refine congrArg some (congrArg (draw surface · memory) (clipped_shade_congr fun x y hin ↦ ?_))
    obtain ⟨hx, hx', hy, hy'⟩ := hclip x y hin
    exact hsame x y hx hx' hy hy'
  by_cases htwo : rectangle.height - 2 > 0
  · by_cases hwide : rectangle.width > 1
    · simp only [Option.bind_eq_bind, Option.bind_some, if_pos htwo, if_pos hwide]
      refine hdrawn _ fun x y hx hx' hy hy' ↦ ?_
      simp only [Set.mem_union, hregion, houtline]
      have hb := hbottom y hy hy'
      have hr := hright x hx hx'
      omega
    · simp only [Option.bind_eq_bind, Option.bind_some, if_pos htwo, if_neg hwide]
      refine hdrawn _ fun x y hx hx' hy hy' ↦ ?_
      simp only [Set.mem_union, hregion, houtline]
      have hb := hbottom y hy hy'
      omega
  · simp only [Option.bind_eq_bind, Option.bind_some, if_neg htwo]
    refine hdrawn _ fun x y hx hx' hy hy' ↦ ?_
    simp only [Set.mem_union, hregion, houtline]
    have hb := hbottom y hy hy'
    omega

end OxysOS.Graphics
