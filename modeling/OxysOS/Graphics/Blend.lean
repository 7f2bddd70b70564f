import OxysOS.Graphics.Shapes

/-!
# Composition

`GraphicsBlendSurface` lays a source over what is beneath it.  A pixel of the destination
is read just before it is drawn, so the whole is one picture of what was beneath.  A
coordinate overflows where a pixel that is not wholly absent has none.
-/

namespace OxysOS.Graphics

open OxysOS.Library

section Folds

variable {α β : Type}

theorem foldlM_eq_some {f : β → α → Option β} {g : β → α → β} {list : List α}
    (h : ∀ a ∈ list, ∀ b, f b a = some (g b a)) (b : β) :
    list.foldlM f b = some (list.foldl g b) := by
  induction list generalizing b with
  | nil => rfl
  | cons a list ih =>
      rw [List.foldlM_cons, h a List.mem_cons_self, Option.bind_eq_bind, Option.bind_some]
      exact ih (fun a' hmem ↦ h a' (List.mem_cons_of_mem _ hmem)) (g b a)

theorem foldlM_eq_none {f : β → α → Option β} {list : List α} {a : α} (hmem : a ∈ list)
    (h : ∀ b, f b a = none) (b : β) : list.foldlM f b = none := by
  induction list generalizing b with
  | nil => cases hmem
  | cons a' list ih =>
      rw [List.foldlM_cons]
      rcases List.mem_cons.mp hmem with rfl | hmem
      · rw [h]
        rfl
      · cases f b a' with
        | none => rfl
        | some b' => exact ih hmem b'

end Folds

theorem graphicsPixelAt_draw {surface : GraphicsSurface} {x y : ℤ} {picture : Picture UInt32}
    (h : surface.Sound) (hin : OnSurface surface x y) (hnone : picture x y = none)
    (memory : Bytes) :
    graphicsPixelAt surface (draw surface picture memory) x y =
      graphicsPixelAt surface memory x y := by
  have hx : (x.toNat : ℤ) = x := Int.toNat_of_nonneg hin.left
  have hy : (y.toNat : ℤ) = y := Int.toNat_of_nonneg hin.top
  have hright := hin.right
  have hbottom := hin.bottom
  unfold graphicsPixelAt
  refine congrArg (ite _ · 0) (List.foldl_ext _ _ _ fun colour index hindex ↦ ?_)
  have hread := draw_address (x := x.toNat) (y := y.toNat) h (by omega) (by omega)
    (List.mem_range.mp hindex) picture memory
  rw [hx, hy, hnone] at hread
  rw [hread]
  rfl

def maskCoverage (source : GraphicsSurface) (mask : Option (ℕ → UInt8)) (column row : ℕ) : UInt8 :=
  (mask.map fun mask ↦ mask (row * source.width + column)).getD 255

def blended (description : BootFramebuffer) (colour beneath : UInt32) (coverage : UInt8) : UInt32 :=
  if coverage = 255 then colour else blendColour description colour beneath coverage

def composed (description : BootFramebuffer) (destination : GraphicsSurface) (memory : Bytes)
    (x y : ℤ) (source : GraphicsSurface) (pixels : Bytes) (mask : Option (ℕ → UInt8)) :
    Picture UInt32 := fun x' y' ↦
  if (x ≤ x' ∧ x' < x + source.width ∧ y ≤ y' ∧ y' < y + source.height) ∧
      maskCoverage source mask (x' - x).toNat (y' - y).toNat ≠ 0 then
    some (blended description (graphicsPixelAt source pixels (x' - x) (y' - y))
      (graphicsPixelAt destination memory x' y')
      (maskCoverage source mask (x' - x).toNat (y' - y).toNat))
  else none

open Classical in
noncomputable def among (region : Set (ℤ × ℤ)) (picture : Picture UInt32) : Picture UInt32 :=
  fun x y ↦ if (x, y) ∈ region then picture x y else none

def BlendFits (x y : ℤ) (source : GraphicsSurface) (mask : Option (ℕ → UInt8)) : Prop :=
  ∀ column < source.width, ∀ row < source.height, maskCoverage source mask column row ≠ 0 →
    IsInt32 (x + column) ∧ IsInt32 (y + row)

section Among

variable {region : Set (ℤ × ℤ)} {picture : Picture UInt32} {x y x' y' : ℤ}

theorem among_of_mem (h : (x, y) ∈ region) : among region picture x y = picture x y := if_pos h

theorem among_of_notMem (h : (x, y) ∉ region) : among region picture x y = none := if_neg h

theorem among_insert_of_ne (h : ¬(x' = x ∧ y' = y)) :
    among (insert (x, y) region) picture x' y' = among region picture x' y' := by
  have hmem : (x', y') ∈ insert (x, y) region ↔ (x', y') ∈ region :=
    ⟨fun hset ↦ hset.resolve_left fun hsame ↦ h (Prod.mk_inj.mp hsame), Or.inr⟩
  by_cases hin : (x', y') ∈ region
  · rw [among_of_mem (hmem.mpr hin), among_of_mem hin]
  · rw [among_of_notMem fun hset ↦ hin (hmem.mp hset), among_of_notMem hin]

theorem among_insert {colour : UInt32} (h : picture x y = some colour) :
    among (insert (x, y) region) picture =
      Raster.upon (Raster.single x y colour) (among region picture) := by
  funext x' y'
  by_cases hsame : x' = x ∧ y' = y
  · rw [hsame.1, hsame.2, Raster.upon_of_some (Raster.single_self _ _ _),
      among_of_mem (Set.mem_insert _ _), h]
  · rw [Raster.upon_of_none (Raster.single_of_ne hsame _), among_insert_of_ne hsame]

theorem among_insert_of_none (h : picture x y = none) :
    among (insert (x, y) region) picture = among region picture := by
  funext x' y'
  by_cases hsame : x' = x ∧ y' = y
  · rw [hsame.1, hsame.2, among_of_mem (Set.mem_insert _ _), h]
    unfold among
    rw [h, ite_self]
  · exact among_insert_of_ne hsame

end Among

section Blend

variable {description : BootFramebuffer} {destination source : GraphicsSurface} {x y : ℤ}
  {pixels : Bytes} {mask : Option (ℕ → UInt8)}

theorem graphicsBlendPixel_eq (h : destination.Sound) {picture : Picture UInt32} {x' y' : ℤ}
    (hnone : picture x' y' = none) (colour : UInt32) {coverage : UInt8} (hcoverage : coverage ≠ 0)
    (memory : Bytes) :
    graphicsBlendPixel description destination (draw destination (clipped destination picture) memory)
        x' y' colour coverage =
      draw destination (clipped destination (Raster.upon
        (Raster.single x' y' (blended description colour (graphicsPixelAt destination memory x' y')
          coverage)) picture)) memory := by
  rw [← clipped_upon, ← draw_draw, ← graphicsPutPixel_eq h]
  unfold graphicsBlendPixel blended
  rw [if_neg hcoverage]
  by_cases hopaque : coverage = 255
  · rw [if_pos hopaque, if_pos hopaque]
  · rw [if_neg hopaque, if_neg hopaque]
    unfold graphicsPutPixel
    by_cases hin : graphicsRectangleContains destination.clip x' y'
    · rw [if_pos hin, if_pos hin, graphicsPixelAt_draw h (h.onSurface hin)
        ((clipped_of_contains hin).trans hnone)]
    · rw [if_neg hin, if_neg hin]

def blendCell (description : BootFramebuffer) (destination : GraphicsSurface) (x y : ℤ)
    (source : GraphicsSurface) (pixels : Bytes) (mask : Option (ℕ → UInt8)) (row : ℕ)
    (memory : Bytes) (column : ℕ) : Bytes :=
  if maskCoverage source mask column row = 0 then memory
  else graphicsBlendPixel description destination memory (x + column) (y + row)
    (graphicsPixelAt source pixels column row) (maskCoverage source mask column row)

theorem blendCell_eq (h : destination.Sound) {region : Set (ℤ × ℤ)} {column row : ℕ}
    (hcolumn : column < source.width) (hrow : row < source.height)
    (hdue : (x + column, y + row) ∉ region) (memory : Bytes) :
    blendCell description destination x y source pixels mask row
        (draw destination (clipped destination (among region
          (composed description destination memory x y source pixels mask))) memory) column =
      draw destination (clipped destination (among (insert (x + column, y + row) region)
          (composed description destination memory x y source pixels mask))) memory := by
  have hcolumnOf : x + column - x = column := by omega
  have hrowOf : y + row - y = row := by omega
  unfold blendCell
  by_cases habsent : maskCoverage source mask column row = 0
  · rw [if_pos habsent, among_insert_of_none]
    unfold composed
    rw [hcolumnOf, hrowOf, Int.toNat_natCast, Int.toNat_natCast]
    exact if_neg fun hset ↦ hset.2 habsent
  · rw [if_neg habsent, graphicsBlendPixel_eq h (among_of_notMem hdue) _ habsent, among_insert]
    unfold composed
    rw [hcolumnOf, hrowOf, Int.toNat_natCast, Int.toNat_natCast]
    exact if_pos ⟨by omega, habsent⟩

def rowsBefore (x y : ℤ) (width rows columns : ℕ) : Set (ℤ × ℤ) :=
  {p | x ≤ p.1 ∧ y ≤ p.2 ∧
    ((p.2 < y + rows ∧ p.1 < x + width) ∨ (p.2 = y + rows ∧ p.1 < x + columns))}

theorem rowsBefore_insert (x y : ℤ) {width rows columns : ℕ} :
    insert (x + (columns : ℤ), y + (rows : ℤ)) (rowsBefore x y width rows columns) =
      rowsBefore x y width rows (columns + 1) := by
  ext ⟨x', y'⟩
  unfold rowsBefore
  simp only [Set.mem_insert_iff, Set.mem_ofPred_eq, Prod.mk.injEq]
  omega

theorem rowsBefore_width (x y : ℤ) {width rows : ℕ} :
    rowsBefore x y width rows width = rowsBefore x y width (rows + 1) 0 := by
  ext ⟨x', y'⟩
  unfold rowsBefore
  simp only [Set.mem_ofPred_eq]
  omega

theorem foldl_blendCell_eq (h : destination.Sound) {row columns : ℕ}
    (hcolumns : columns ≤ source.width) (hrow : row < source.height) (memory : Bytes) :
    (List.range columns).foldl (blendCell description destination x y source pixels mask row)
        (draw destination (clipped destination (among (rowsBefore x y source.width row 0)
          (composed description destination memory x y source pixels mask))) memory) =
      draw destination (clipped destination (among (rowsBefore x y source.width row columns)
          (composed description destination memory x y source pixels mask))) memory := by
  induction columns with
  | zero => rfl
  | succ columns ih =>
      rw [List.range_succ, List.foldl_append, ih (by omega), List.foldl_cons, List.foldl_nil,
        blendCell_eq h (by omega) hrow, rowsBefore_insert]
      rintro ⟨-, -, hset | hset⟩
      · dsimp only at hset
        omega
      · dsimp only at hset
        omega

theorem foldl_foldl_blendCell_eq (h : destination.Sound) {rows : ℕ} (hrows : rows ≤ source.height)
    (memory : Bytes) :
    (List.range rows).foldl (fun memory row ↦ (List.range source.width).foldl
        (blendCell description destination x y source pixels mask row) memory) memory =
      draw destination (clipped destination (among (rowsBefore x y source.width rows 0)
          (composed description destination memory x y source pixels mask))) memory := by
  induction rows with
  | zero =>
      refine (draw_none destination memory).symm.trans ?_
      congr 1
      funext x' y'
      have hnone : (x', y') ∉ rowsBefore x y source.width 0 0 := by
        rintro ⟨hx, hy, hset | hset⟩ <;> dsimp only at hx hy hset <;> omega
      unfold clipped
      rw [among_of_notMem hnone, ite_self]
  | succ rows ih =>
      rw [List.range_succ, List.foldl_append, ih (by omega), List.foldl_cons, List.foldl_nil,
        foldl_blendCell_eq h le_rfl (by omega), rowsBefore_width]

theorem graphicsBlendSurface_eq (h : destination.Sound) (memory : Bytes) :
    (BlendFits x y source mask →
      graphicsBlendSurface description destination memory x y source pixels mask =
        some (draw destination (clipped destination
          (composed description destination memory x y source pixels mask)) memory)) ∧
    (¬BlendFits x y source mask →
      graphicsBlendSurface description destination memory x y source pixels mask = none) := by
  constructor
  · intro hfits
    have hcells : graphicsBlendSurface description destination memory x y source pixels mask =
        some ((List.range source.height).foldl (fun memory row ↦ (List.range source.width).foldl
          (blendCell description destination x y source pixels mask row) memory) memory) := by
      refine foldlM_eq_some (fun row hrow memory ↦ foldlM_eq_some (fun column hcolumn memory ↦ ?_)
        memory) memory
      have hcell := hfits column (List.mem_range.mp hcolumn) row (List.mem_range.mp hrow)
      unfold blendCell
      by_cases habsent : maskCoverage source mask column row = 0
      · rw [if_pos habsent]
        exact if_pos habsent
      · have hchecked : checked [x + (column : ℤ), y + (row : ℤ)] = some () := by
          refine if_pos fun value hmem ↦ ?_
          simp only [List.mem_cons, List.not_mem_nil, or_false] at hmem
          rcases hmem with rfl | rfl
          · exact (hcell habsent).1
          · exact (hcell habsent).2
        rw [if_neg habsent]
        refine (if_neg habsent).trans ?_
        rw [hchecked]
        rfl
    rw [hcells, foldl_foldl_blendCell_eq h le_rfl]
    congr 3
    funext x' y'
    by_cases hin : x ≤ x' ∧ x' < x + source.width ∧ y ≤ y' ∧ y' < y + source.height
    · exact among_of_mem ⟨hin.1, hin.2.2.1, Or.inl ⟨hin.2.2.2, hin.2.1⟩⟩
    · have hnone : composed description destination memory x y source pixels mask x' y' = none :=
        if_neg fun hset ↦ hin hset.1
      unfold among
      rw [hnone, ite_self]
  · intro hfits
    unfold BlendFits at hfits
    push Not at hfits
    obtain ⟨column, hcolumn, row, hrow, hpresent, hset⟩ := hfits
    refine foldlM_eq_none (List.mem_range.mpr hrow) (fun memory ↦
      foldlM_eq_none (List.mem_range.mpr hcolumn) (fun memory ↦ ?_) memory) memory
    have hchecked : checked [x + (column : ℤ), y + (row : ℤ)] = none :=
      if_neg fun hall ↦ hset (hall _ List.mem_cons_self)
        (hall _ (List.mem_cons_of_mem _ List.mem_cons_self))
    refine (if_neg hpresent).trans ?_
    rw [hchecked]
    rfl

end Blend

end OxysOS.Graphics
