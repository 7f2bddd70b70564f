import OxysOS.Graphics.Paint

/-!
# Copies between surfaces

`GraphicsBlit` copies the pixels of one surface to another, or within itself.  The order of
its rows and columns is such that nothing is stored where it is still to be read, so that
the pixels that arrive are those that stood in memory before.
-/

namespace OxysOS.Graphics

open OxysOS.Library

def moveUnit (size target source : ℕ) (memory : Bytes) : Bytes := fun a ↦
  if target ≤ a ∧ a < target + size then memory (source + (a - target)) else memory a

def moveUnits (size target source : ℕ) (order : List ℕ) (memory : Bytes) : Bytes :=
  order.foldl (fun memory index ↦
    moveUnit size (target + size * index) (source + size * index) memory) memory

def turnsOf (backwards : Bool) (count : ℕ) : List ℕ :=
  if backwards then (List.range count).reverse else List.range count

def blitRow (destination source : GraphicsSurface) (taken placed : GraphicsRectangle)
    (backwards : Bool) (memory : Bytes) (row : ℕ) : Bytes :=
  let target := graphicsPixelAddress destination placed.x (placed.y + row)
  let origin := graphicsPixelAddress source taken.x (taken.y + row)
  let span := placed.width.toNat * destination.bytesPerPixel
  if destination.wholeWords ∧ source.wholeWords then
    moveUnits 4 target origin (turnsOf backwards (span / 4)) memory
  else moveUnits 1 target origin (turnsOf backwards span) memory

/-- `GraphicsBlit`, of surfaces that are somewhere. -/
def graphicsBlit (destination : GraphicsSurface) (memory : Bytes) (x y : ℤ)
    (source : GraphicsSurface) (area : GraphicsRectangle) : Bool × Bytes :=
  if destination.bytesPerPixel ≠ source.bytesPerPixel then (false, memory)
  else if ¬graphicsCoordinateIsSound x ∨ ¬graphicsCoordinateIsSound y then (false, memory)
  else
    let taken := graphicsRectangleIntersect area (graphicsSurfaceBounds source)
    if graphicsRectangleIsEmpty taken then (true, memory)
    else
      let offsetX := x + (taken.x - area.x)
      let offsetY := y + (taken.y - area.y)
      if ¬graphicsCoordinateIsSound offsetX ∨ ¬graphicsCoordinateIsSound offsetY then
        (false, memory)
      else
        let placed := graphicsRectangleIntersect ⟨offsetX, offsetY, taken.width, taken.height⟩
          destination.clip
        if graphicsRectangleIsEmpty placed then (true, memory)
        else
          let taken : GraphicsRectangle := ⟨taken.x + (placed.x - offsetX),
            taken.y + (placed.y - offsetY), placed.width, placed.height⟩
          let backwardsRows := destination.pixels = source.pixels ∧ placed.y > taken.y
          let backwardsColumns := destination.pixels = source.pixels ∧ placed.y = taken.y ∧
            placed.x > taken.x
          (true, (turnsOf backwardsRows placed.height.toNat).foldl
            (blitRow destination source taken placed backwardsColumns) memory)

def moveAll (size : ℕ) (moves : List (ℕ × ℕ)) (memory : Bytes) : Bytes :=
  moves.foldl (fun memory move ↦ moveUnit size move.1 move.2 memory) memory

def UnitsApart (size first second : ℕ) : Prop :=
  ∀ i < size, ∀ j < size, first + i ≠ second + j

theorem moveUnit_of_apart {size target origin other i : ℕ} (h : UnitsApart size target other)
    (hi : i < size) (memory : Bytes) :
    moveUnit size target origin memory (other + i) = memory (other + i) := by
  apply if_neg
  rintro ⟨hle, hlt⟩
  exact h (other + i - target) (by omega) i hi (by omega)

theorem moveAll_of_not_mem {size a : ℕ} {moves : List (ℕ × ℕ)}
    (h : ∀ move ∈ moves, ∀ i < size, a ≠ move.1 + i) (memory : Bytes) :
    moveAll size moves memory a = memory a := by
  induction moves generalizing memory with
  | nil => rfl
  | cons move moves ih =>
      have hfirst : moveUnit size move.1 move.2 memory a = memory a := by
        apply if_neg
        rintro ⟨hle, hlt⟩
        exact h move List.mem_cons_self (a - move.1) (by omega) (by omega)
      have hrest := ih (fun other hother ↦ h other (List.mem_cons_of_mem _ hother))
        (moveUnit size move.1 move.2 memory)
      rwa [hfirst] at hrest

theorem moveAll_of_mem {size : ℕ} {moves : List (ℕ × ℕ)} {move : ℕ × ℕ} {i : ℕ}
    (h : moves.Pairwise fun earlier later ↦
      UnitsApart size earlier.1 later.2 ∧ UnitsApart size earlier.1 later.1)
    (hmem : move ∈ moves) (hi : i < size) (memory : Bytes) :
    moveAll size moves memory (move.1 + i) = memory (move.2 + i) := by
  induction moves generalizing memory with
  | nil => simp at hmem
  | cons first moves ih =>
      obtain ⟨hfirst, hrest⟩ := List.pairwise_cons.mp h
      rcases List.mem_cons.mp hmem with rfl | hlater
      · have hkept := moveAll_of_not_mem (fun later hlater j hj ↦
          (hfirst later hlater).2 i hi j hj) (moveUnit size move.1 move.2 memory)
        calc moveAll size (move :: moves) memory (move.1 + i)
          _ = moveUnit size move.1 move.2 memory (move.1 + i) := hkept
          _ = memory (move.2 + i) := by
            rw [moveUnit, if_pos (by omega), Nat.add_sub_cancel_left]
      · calc moveAll size (first :: moves) memory (move.1 + i)
          _ = moveUnit size first.1 first.2 memory (move.2 + i) := ih hrest hlater _
          _ = memory (move.2 + i) := moveUnit_of_apart (hfirst move hlater).1 hi memory

def blitMoves (destination source : GraphicsSurface) (taken placed : GraphicsRectangle)
    (size count : ℕ) (backwardsRows backwardsColumns : Bool) : List (ℕ × ℕ) :=
  (turnsOf backwardsRows placed.height.toNat).flatMap fun row : ℕ ↦
    (turnsOf backwardsColumns count).map fun index : ℕ ↦
      (graphicsPixelAddress destination placed.x (placed.y + row) + size * index,
        graphicsPixelAddress source taken.x (taken.y + row) + size * index)

def unitSize (destination source : GraphicsSurface) : ℕ :=
  if destination.wholeWords ∧ source.wholeWords then 4 else 1

theorem foldl_blitRow_moves (destination source : GraphicsSurface)
    (taken placed : GraphicsRectangle) (backwardsRows backwardsColumns : Bool) (memory : Bytes) :
    (turnsOf backwardsRows placed.height.toNat).foldl
        (blitRow destination source taken placed backwardsColumns) memory =
      moveAll (unitSize destination source) (blitMoves destination source taken placed
        (unitSize destination source)
        (placed.width.toNat * destination.bytesPerPixel / unitSize destination source)
        backwardsRows backwardsColumns) memory := by
  rw [moveAll, blitMoves, List.foldl_flatMap]
  congr 1
  funext memory row
  rw [List.foldl_map, blitRow, unitSize]
  dsimp only
  split_ifs
  · rfl
  · rw [Nat.div_one]
    rfl

variable {destination source : GraphicsSurface} {taken placed : GraphicsRectangle}

def MovedBefore (backwardsRows backwardsColumns : Bool) (row index row' index' : ℕ) : Prop :=
  row ≠ row' ∧ (row' < row ↔ backwardsRows = true) ∨
    row = row' ∧ index ≠ index' ∧ (index' < index ↔ backwardsColumns = true)

theorem turnsOf_pairwise (backwards : Bool) (count : ℕ) :
    (turnsOf backwards count).Pairwise fun turn later ↦
      turn ≠ later ∧ (later < turn ↔ backwards = true) := by
  cases backwards with
  | false =>
      apply List.pairwise_lt_range.imp
      intro turn later hlt
      simp only [Bool.false_eq_true, iff_false]
      omega
  | true =>
      simp only [turnsOf, if_true, List.pairwise_reverse]
      apply List.pairwise_lt_range.imp
      intro turn later hlt
      simp only [iff_true]
      omega

theorem mem_turnsOf {backwards : Bool} {count turn : ℕ} :
    turn ∈ turnsOf backwards count ↔ turn < count := by
  cases backwards <;> simp [turnsOf]

theorem blitMoves_pairwise {size count : ℕ} {backwardsRows backwardsColumns : Bool}
    {related : ℕ × ℕ → ℕ × ℕ → Prop}
    (h : ∀ row < placed.height.toNat, ∀ row' < placed.height.toNat, ∀ index < count,
      ∀ index' < count, MovedBefore backwardsRows backwardsColumns row index row' index' →
        related
          (graphicsPixelAddress destination placed.x (placed.y + row) + size * index,
            graphicsPixelAddress source taken.x (taken.y + row) + size * index)
          (graphicsPixelAddress destination placed.x (placed.y + row') + size * index',
            graphicsPixelAddress source taken.x (taken.y + row') + size * index')) :
    (blitMoves destination source taken placed size count backwardsRows
      backwardsColumns).Pairwise related := by
  rw [blitMoves, List.pairwise_flatMap]
  constructor
  · intro row hrow
    rw [List.pairwise_map]
    apply (turnsOf_pairwise backwardsColumns count).imp_of_mem
    intro index index' hindex hindex' horder
    exact h row (mem_turnsOf.mp hrow) row (mem_turnsOf.mp hrow) index (mem_turnsOf.mp hindex) index'
      (mem_turnsOf.mp hindex') (Or.inr ⟨rfl, horder⟩)
  · apply (turnsOf_pairwise backwardsRows _).imp_of_mem
    intro row row' hrow hrow' horder move hmove move' hmove'
    obtain ⟨index, hindex, rfl⟩ := List.mem_map.mp hmove
    obtain ⟨index', hindex', rfl⟩ := List.mem_map.mp hmove'
    exact h row (mem_turnsOf.mp hrow) row' (mem_turnsOf.mp hrow') index (mem_turnsOf.mp hindex)
      index' (mem_turnsOf.mp hindex') (Or.inl horder)

structure BlitWithin (destination source : GraphicsSurface) (taken placed : GraphicsRectangle) :
    Prop where
  size : destination.bytesPerPixel = source.bytesPerPixel
  width : 0 < placed.width
  height : 0 < placed.height
  placedX : 0 ≤ placed.x ∧ placed.x + placed.width ≤ destination.width
  placedY : 0 ≤ placed.y ∧ placed.y + placed.height ≤ destination.height
  takenX : 0 ≤ taken.x ∧ taken.x + placed.width ≤ source.width
  takenY : 0 ≤ taken.y ∧ taken.y + placed.height ≤ source.height

def SameStorage (destination source : GraphicsSurface) : Prop :=
  destination.pixels = source.pixels ∧ destination.width = source.width ∧
    destination.height = source.height ∧ destination.pitch = source.pitch

def DisjointStorage (destination source : GraphicsSurface) : Prop :=
  ∀ x y x' y' : ℕ, x < destination.width → y < destination.height → x' < source.width →
    y' < source.height → ∀ index < destination.bytesPerPixel, ∀ index' < source.bytesPerPixel,
      graphicsPixelAddress destination x y + index ≠ graphicsPixelAddress source x' y' + index'

theorem graphicsPixelAddress_column (surface : GraphicsSurface) {x : ℤ} (hx : 0 ≤ x) (y : ℤ)
    (column : ℕ) : graphicsPixelAddress surface (x + column) y =
      graphicsPixelAddress surface x y + column * surface.bytesPerPixel := by
  have hcolumn : (x + column).toNat = x.toNat + column := by omega
  unfold graphicsPixelAddress
  rw [hcolumn, Nat.add_mul]
  omega

theorem row_place_inj {pitch y y' c c' : ℕ} (hc : c < pitch) (hc' : c' < pitch)
    (h : y * pitch + c = y' * pitch + c') : y = y' ∧ c = c' := by
  have hlt : ∀ {y y' c c' : ℕ}, c < pitch → y * pitch + c = y' * pitch + c' → ¬y < y' := by
    intro y y' c c' hc h hless
    have hnext : (y + 1) * pitch ≤ y' * pitch := Nat.mul_le_mul_right _ hless
    rw [Nat.add_mul, Nat.one_mul] at hnext
    omega
  obtain rfl : y = y' := by
    have hnot := hlt hc h
    have hnot' := hlt hc' h.symm
    omega
  exact ⟨rfl, by omega⟩

theorem address_byte (surface : GraphicsSurface) {x : ℤ} (hx : 0 ≤ x) (y : ℤ) (offset : ℕ) :
    graphicsPixelAddress surface x y + offset =
      graphicsPixelAddress surface (x + (offset / surface.bytesPerPixel : ℕ)) y +
        offset % surface.bytesPerPixel := by
  rw [graphicsPixelAddress_column surface hx, Nat.add_assoc, Nat.div_add_mod']

theorem address_row (surface : GraphicsSurface) (x : ℤ) {y : ℤ} (hy : 0 ≤ y)
    (row offset : ℕ) : graphicsPixelAddress surface x (y + row) + offset =
      surface.pixels + ((y.toNat + row) * surface.pitch +
        (x.toNat * surface.bytesPerPixel + offset)) := by
  have hrow : (y + row).toNat = y.toNat + row := by omega
  rw [graphicsPixelAddress, hrow]
  omega

theorem offset_lt_pitch {surface : GraphicsSurface} (h : surface.Sound) {x width : ℤ}
    (hx : 0 ≤ x) (hright : x + width ≤ surface.width) {offset : ℕ}
    (hoffset : offset < width.toNat * surface.bytesPerPixel) :
    x.toNat * surface.bytesPerPixel + offset < surface.pitch := by
  have hpitch := h.pitch
  have hspan : (x.toNat + width.toNat) * surface.bytesPerPixel ≤
      surface.width * surface.bytesPerPixel := by
    apply Nat.mul_le_mul_right
    have hwidth : 0 ≤ width := by
      by_contra hneg
      have hnone : width.toNat = 0 := by omega
      simp [hnone] at hoffset
    omega
  rw [Nat.add_mul] at hspan
  omega

def UnitOf (surface : GraphicsSurface) (size : ℕ) : Prop :=
  size = 1 ∨ size = 4 ∧ surface.bytesPerPixel = 4

theorem unit_offset_lt {size index i width : ℕ} (hunit : UnitOf destination size)
    (hindex : index < width * destination.bytesPerPixel / size) (hi : i < size) :
    size * index + i < width * destination.bytesPerPixel := by
  rcases hunit with rfl | ⟨rfl, hpixel⟩
  · omega
  · rw [hpixel] at hindex ⊢
    omega

theorem unit_index_lt {size byte width : ℕ} (hunit : UnitOf destination size)
    (hbyte : byte < width * destination.bytesPerPixel) :
    byte / size < width * destination.bytesPerPixel / size := by
  rcases hunit with rfl | ⟨rfl, hpixel⟩
  · omega
  · rw [hpixel] at hbyte ⊢
    omega

section Apart

variable {size row row' index index' : ℕ} {backwardsRows backwardsColumns : Bool}
  (hwithin : BlitWithin destination source taken placed) (hdestination : destination.Sound)
  (hunit : UnitOf destination size)
  (hrow : row < placed.height.toNat) (hrow' : row' < placed.height.toNat)
  (hindex : index < placed.width.toNat * destination.bytesPerPixel / size)
  (hindex' : index' < placed.width.toNat * destination.bytesPerPixel / size)

include hwithin hdestination hunit hindex hindex' in
theorem targets_apart
    (hbefore : MovedBefore backwardsRows backwardsColumns row index row' index') :
    UnitsApart size (graphicsPixelAddress destination placed.x (placed.y + row) + size * index)
      (graphicsPixelAddress destination placed.x (placed.y + row') + size * index') := by
  intro i hi j hj hsame
  rw [Nat.add_assoc, Nat.add_assoc, address_row destination _ hwithin.placedY.1,
    address_row destination _ hwithin.placedY.1] at hsame
  obtain ⟨hy, hx⟩ := row_place_inj
    (offset_lt_pitch hdestination hwithin.placedX.1 hwithin.placedX.2
      (unit_offset_lt hunit hindex hi))
    (offset_lt_pitch hdestination hwithin.placedX.1 hwithin.placedX.2
      (unit_offset_lt hunit hindex' hj)) (Nat.add_left_cancel hsame)
  rcases hbefore with ⟨hne, -⟩ | ⟨-, hne, -⟩
  · omega
  · rcases hunit with rfl | ⟨rfl, -⟩ <;> omega

include hwithin hdestination hunit hindex hindex' in
theorem sources_apart_of_same (hsame : SameStorage destination source)
    (hrows : backwardsRows = true ↔ taken.y < placed.y)
    (hcolumns : placed.y = taken.y → (backwardsColumns = true ↔ taken.x < placed.x))
    (hbefore : MovedBefore backwardsRows backwardsColumns row index row' index') :
    UnitsApart size (graphicsPixelAddress destination placed.x (placed.y + row) + size * index)
      (graphicsPixelAddress source taken.x (taken.y + row') + size * index') := by
  intro i hi j hj hequal
  obtain ⟨hpixels, hwidth, -, hpitch⟩ := hsame
  have htaken : taken.x + placed.width ≤ destination.width := by
    rw [hwidth]
    exact hwithin.takenX.2
  rw [Nat.add_assoc, Nat.add_assoc, address_row destination _ hwithin.placedY.1,
    address_row source _ hwithin.takenY.1, ← hpixels, ← hpitch, ← hwithin.size] at hequal
  obtain ⟨hy, hx⟩ := row_place_inj
    (offset_lt_pitch hdestination hwithin.placedX.1 hwithin.placedX.2
      (unit_offset_lt hunit hindex hi))
    (offset_lt_pitch hdestination hwithin.takenX.1 htaken
      (unit_offset_lt hunit hindex' hj)) (Nat.add_left_cancel hequal)
  have hplacedY := hwithin.placedY.1
  have htakenY := hwithin.takenY.1
  rcases hbefore with ⟨hne, horder⟩ | ⟨rfl, hne, horder⟩
  · -- the rows are taken from the side to which they are moved
    rw [hrows] at horder
    omega
  · have hcolumn := hcolumns (by omega)
    rw [hcolumn] at horder
    have hplacedX := hwithin.placedX.1
    have htakenX := hwithin.takenX.1
    rcases hunit with rfl | ⟨rfl, hpixel⟩
    · rcases Nat.lt_or_ge taken.x.toNat placed.x.toNat with hlt | hge
      · have hmore := Nat.mul_le_mul_right destination.bytesPerPixel hlt.le
        omega
      · have hless := Nat.mul_le_mul_right destination.bytesPerPixel hge
        omega
    · rw [hpixel] at hx
      omega

include hwithin hdestination hunit hrow hrow' hindex hindex' in
theorem sources_apart_of_disjoint (hdisjoint : DisjointStorage destination source) :
    UnitsApart size (graphicsPixelAddress destination placed.x (placed.y + row) + size * index)
      (graphicsPixelAddress source taken.x (taken.y + row') + size * index') := by
  intro i hi j hj hequal
  have htarget := unit_offset_lt hunit hindex hi
  have horigin := unit_offset_lt hunit hindex' hj
  rw [Nat.add_assoc, Nat.add_assoc, address_byte destination hwithin.placedX.1,
    address_byte source hwithin.takenX.1] at hequal
  have hcolumn := (Nat.div_lt_iff_lt_mul hdestination.bytesPerPixel).mpr htarget
  have hcolumn' := (Nat.div_lt_iff_lt_mul hdestination.bytesPerPixel).mpr horigin
  have hplacedX := hwithin.placedX
  have hplacedY := hwithin.placedY
  have htakenX := hwithin.takenX
  have htakenY := hwithin.takenY
  rw [← hwithin.size] at hequal
  generalize (size * index + i) / destination.bytesPerPixel = column at hequal hcolumn
  generalize (size * index' + j) / destination.bytesPerPixel = column' at hequal hcolumn'
  have hx : placed.x + (column : ℤ) = (placed.x.toNat + column : ℕ) := by omega
  have hy : placed.y + (row : ℤ) = (placed.y.toNat + row : ℕ) := by omega
  have hx' : taken.x + (column' : ℤ) = (taken.x.toNat + column' : ℕ) := by omega
  have hy' : taken.y + (row' : ℤ) = (taken.y.toNat + row' : ℕ) := by omega
  rw [hx, hy, hx', hy'] at hequal
  apply hdisjoint _ _ _ _ (by omega) (by omega) (by omega) (by omega) _
    (Nat.mod_lt _ hdestination.bytesPerPixel) _ _ hequal
  rw [← hwithin.size]
  exact Nat.mod_lt _ hdestination.bytesPerPixel

end Apart

structure Copied (destination source : GraphicsSurface) (taken placed : GraphicsRectangle)
    (memory after : Bytes) : Prop where
  within : ∀ x y, graphicsRectangleContains placed x y → ∀ index < destination.bytesPerPixel,
    after (graphicsPixelAddress destination x y + index) = memory
      (graphicsPixelAddress source (taken.x + (x - placed.x)) (taken.y + (y - placed.y)) + index)
  elsewhere : ∀ address, (∀ x y, graphicsRectangleContains placed x y →
    ∀ index < destination.bytesPerPixel, address ≠ graphicsPixelAddress destination x y + index) →
      after address = memory address

theorem unitOf_unitSize (hdestination : destination.Sound) :
    UnitOf destination (unitSize destination source) := by
  simp only [UnitOf, unitSize]
  split_ifs with hwords
  · exact Or.inr ⟨rfl, hdestination.wholeWords hwords.1⟩
  · exact Or.inl rfl

theorem copied_foldl_blitRow (hwithin : BlitWithin destination source taken placed)
    (hdestination : destination.Sound)
    (hstorage : SameStorage destination source ∨ DisjointStorage destination source)
    {backwardsRows backwardsColumns : Bool}
    (hrows : SameStorage destination source → (backwardsRows = true ↔ taken.y < placed.y))
    (hcolumns : SameStorage destination source → placed.y = taken.y →
      (backwardsColumns = true ↔ taken.x < placed.x)) (memory : Bytes) :
    Copied destination source taken placed memory
      ((turnsOf backwardsRows placed.height.toNat).foldl
        (blitRow destination source taken placed backwardsColumns) memory) := by
  have hunit := @unitOf_unitSize destination source hdestination
  rw [foldl_blitRow_moves]
  generalize unitSize destination source = size at hunit ⊢
  have hpairwise : (blitMoves destination source taken placed size
      (placed.width.toNat * destination.bytesPerPixel / size) backwardsRows
      backwardsColumns).Pairwise fun earlier later ↦
        UnitsApart size earlier.1 later.2 ∧ UnitsApart size earlier.1 later.1 := by
    apply blitMoves_pairwise
    intro row hrow row' hrow' index hindex index' hindex' hbefore
    refine ⟨?_, targets_apart hwithin hdestination hunit hindex hindex' hbefore⟩
    rcases hstorage with hsame | hdisjoint
    · exact sources_apart_of_same hwithin hdestination hunit hindex hindex' hsame (hrows hsame)
        (hcolumns hsame) hbefore
    · exact sources_apart_of_disjoint hwithin hdestination hunit hrow hrow' hindex hindex'
        hdisjoint
  have hmembers : ∀ move, move ∈ blitMoves destination source taken placed size
      (placed.width.toNat * destination.bytesPerPixel / size) backwardsRows backwardsColumns ↔
        ∃ row < placed.height.toNat,
          ∃ index < placed.width.toNat * destination.bytesPerPixel / size,
            (graphicsPixelAddress destination placed.x (placed.y + row) + size * index,
              graphicsPixelAddress source taken.x (taken.y + row) + size * index) = move := by
    intro move
    simp only [blitMoves, List.mem_flatMap, List.mem_map, mem_turnsOf]
  have hplacedX := hwithin.placedX.1
  have hsize : 0 < size := by rcases hunit with rfl | ⟨rfl, -⟩ <;> omega
  constructor
  · intro x y hin offset hoffset
    obtain ⟨hleft, hright, htop, hbottom⟩ := contains_iff.mp hin
    have hcolumn : placed.x + ((x - placed.x).toNat : ℤ) = x := by omega
    have hrow : placed.y + ((y - placed.y).toNat : ℤ) = y := by omega
    have htaken : taken.x + ((x - placed.x).toNat : ℤ) = taken.x + (x - placed.x) := by omega
    have htakenRow : taken.y + ((y - placed.y).toNat : ℤ) = taken.y + (y - placed.y) := by omega
    have hplace := graphicsPixelAddress_column destination hplacedX y (x - placed.x).toNat
    have horigin := graphicsPixelAddress_column source hwithin.takenX.1
      (taken.y + (y - placed.y)) (x - placed.x).toNat
    rw [hcolumn] at hplace
    rw [htaken, ← hwithin.size] at horigin
    -- the byte of the row, in the unit that holds it
    have hspan : (x - placed.x).toNat * destination.bytesPerPixel + offset <
        placed.width.toNat * destination.bytesPerPixel := by
      have hlast : ((x - placed.x).toNat + 1) * destination.bytesPerPixel ≤
          placed.width.toNat * destination.bytesPerPixel := Nat.mul_le_mul_right _ (by omega)
      rw [Nat.add_mul, Nat.one_mul] at hlast
      omega
    rw [hplace, horigin, Nat.add_assoc, Nat.add_assoc]
    generalize (x - placed.x).toNat * destination.bytesPerPixel + offset = byte at hspan ⊢
    have hindex : byte / size < placed.width.toNat * destination.bytesPerPixel / size :=
      unit_index_lt hunit hspan
    have hmove := moveAll_of_mem hpairwise
      ((hmembers _).mpr ⟨(y - placed.y).toNat, by omega, byte / size, hindex, rfl⟩)
      (Nat.mod_lt byte hsize) memory
    dsimp only at hmove
    rw [hrow, htakenRow, Nat.add_assoc, Nat.add_assoc, Nat.div_add_mod] at hmove
    exact hmove
  · intro address hother
    apply moveAll_of_not_mem
    intro move hmove i hi
    obtain ⟨row, hrow, index, hindex, rfl⟩ := (hmembers move).mp hmove
    have hspan := unit_offset_lt hunit hindex hi
    have hcolumn := (Nat.div_lt_iff_lt_mul hdestination.bytesPerPixel).mpr hspan
    have hin : graphicsRectangleContains placed
        (placed.x + ((size * index + i) / destination.bytesPerPixel : ℕ)) (placed.y + row) := by
      generalize (size * index + i) / destination.bytesPerPixel = column at hcolumn ⊢
      rw [contains_iff]
      omega
    have hbyte := hother _ _ hin ((size * index + i) % destination.bytesPerPixel)
      (Nat.mod_lt _ hdestination.bytesPerPixel)
    rwa [← address_byte destination hplacedX, ← Nat.add_assoc] at hbyte

def blitPlaced (destination source : GraphicsSurface) (x y : ℤ) (area : GraphicsRectangle)
    (column row : ℤ) : Prop :=
  graphicsRectangleContains destination.clip column row ∧
    graphicsRectangleContains area (area.x + (column - x)) (area.y + (row - y)) ∧
      graphicsRectangleContains (graphicsSurfaceBounds source) (area.x + (column - x))
        (area.y + (row - y))

/-- Every pixel of a copy has the bytes that its pixel in the source had, and no other byte is
changed. -/
structure BlitCopies (destination source : GraphicsSurface) (x y : ℤ) (area : GraphicsRectangle)
    (memory after : Bytes) : Prop where
  placed : ∀ column row, blitPlaced destination source x y area column row →
    ∀ index < destination.bytesPerPixel,
      after (graphicsPixelAddress destination column row + index) =
        memory (graphicsPixelAddress source (area.x + (column - x)) (area.y + (row - y)) + index)
  elsewhere : ∀ address, (∀ column row, blitPlaced destination source x y area column row →
    ∀ index < destination.bytesPerPixel,
      address ≠ graphicsPixelAddress destination column row + index) →
        after address = memory address

theorem blitCopies_of_none {x y : ℤ} {area : GraphicsRectangle} {memory : Bytes}
    (h : ∀ column row, ¬blitPlaced destination source x y area column row) :
    BlitCopies destination source x y area memory memory :=
  ⟨fun column row hplaced ↦ absurd hplaced (h column row), fun _ _ ↦ rfl⟩

theorem taken_corner {area : GraphicsRectangle}
    (h : ¬graphicsRectangleIsEmpty
      (graphicsRectangleIntersect area (graphicsSurfaceBounds source))) :
    area.x ≤ (graphicsRectangleIntersect area (graphicsSurfaceBounds source)).x ∧
      area.y ≤ (graphicsRectangleIntersect area (graphicsSurfaceBounds source)).y ∧
        (area.IsInt32 →
          IsInt32 ((graphicsRectangleIntersect area (graphicsSurfaceBounds source)).x - area.x) ∧
            IsInt32
              ((graphicsRectangleIntersect area (graphicsSurfaceBounds source)).y - area.y)) := by
  generalize htaken : graphicsRectangleIntersect area (graphicsSurfaceBounds source) = taken at h ⊢
  have hin : ∀ column row, graphicsRectangleContains taken column row ↔
      graphicsRectangleContains area column row ∧
        graphicsRectangleContains (graphicsSurfaceBounds source) column row := by
    intro column row
    rw [← htaken, contains_intersect]
  simp only [contains_iff, graphicsSurfaceBounds] at hin
  rw [isEmpty_iff] at h
  have hcorner := (hin taken.x taken.y).mp (by omega)
  have hleast := (hin (max area.x 0) (max area.y 0)).mpr (by omega)
  refine ⟨by omega, by omega, fun hint ↦ ?_⟩
  have hx := hint.x
  have hy := hint.y
  have hwidth := hint.width
  have hheight := hint.height
  unfold IsInt32 at *
  omega

/-- A copy of `GraphicsBlit` is of all its pixels at once. -/
theorem graphicsBlit_copies (hdestination : destination.Reached) (hsource : source.Reached)
    (hsize : destination.bytesPerPixel = source.bytesPerPixel)
    (hstorage : SameStorage destination source ∨ DisjointStorage destination source)
    {x y : ℤ} (hx : graphicsCoordinateIsSound x) (hy : graphicsCoordinateIsSound y)
    (area : GraphicsRectangle) (memory : Bytes) :
    BlitCopies destination source x y area memory
      (graphicsBlit destination memory x y source area).2 := by
  have hsoundDestination := hdestination.sound
  have hsoundSource := hsource.sound
  have hlimitWidth := hsoundDestination.width
  have hlimitHeight := hsoundDestination.height
  unfold graphicsBlit
  dsimp only
  rw [if_neg (not_not_intro hsize), if_neg (by simp only [hx, hy, not_true, or_self, not_false_eq_true])]
  have hcorner := @taken_corner source area
  generalize htaken : graphicsRectangleIntersect area (graphicsSurfaceBounds source) = taken
    at hcorner ⊢
  have htakenWithin : WithinBounds source taken := fun column row hin ↦ by
    rw [← htaken] at hin
    exact withinBounds_bounds source column row (contains_intersect.mp hin).2
  have hin : ∀ column row, blitPlaced destination source x y area column row ↔
      graphicsRectangleContains destination.clip column row ∧
        graphicsRectangleContains taken (area.x + (column - x)) (area.y + (row - y)) := by
    intro column row
    rw [blitPlaced, ← htaken, contains_intersect]
  split_ifs with hnone hoffset hclipped
  · apply blitCopies_of_none
    intro column row hplaced
    have hcontains := contains_iff.mp ((hin column row).mp hplaced).2
    rw [isEmpty_iff] at hnone
    omega
  · -- a pixel that far out is not upon the destination
    apply blitCopies_of_none
    intro column row hplaced
    obtain ⟨hclip, hcontains⟩ := (hin column row).mp hplaced
    have hbounds := hsoundDestination.clip column row hclip
    have hleast := hcorner hnone
    rw [contains_iff] at hcontains
    rw [coordinateIsSound_iff] at hx hy
    rw [coordinateIsSound_iff, coordinateIsSound_iff] at hoffset
    unfold graphicsCoordinateLimit at hlimitWidth hlimitHeight
    omega
  · apply blitCopies_of_none
    intro column row hplaced
    obtain ⟨hclip, hcontains⟩ := (hin column row).mp hplaced
    have hlies : graphicsRectangleContains (graphicsRectangleIntersect
        ⟨x + (taken.x - area.x), y + (taken.y - area.y), taken.width, taken.height⟩
          destination.clip) column row := by
      rw [contains_intersect]
      refine ⟨?_, hclip⟩
      rw [contains_iff] at hcontains ⊢
      dsimp only
      omega
    rw [contains_iff] at hlies
    rw [isEmpty_iff] at hclipped
    omega
  · have htakenEdges := htakenWithin.edges hnone
    generalize hplaced : graphicsRectangleIntersect
      ⟨x + (taken.x - area.x), y + (taken.y - area.y), taken.width, taken.height⟩
        destination.clip = placed at hclipped ⊢
    have hlies : ∀ column row, graphicsRectangleContains placed column row ↔
        blitPlaced destination source x y area column row := by
      intro column row
      have hmoved : graphicsRectangleContains
          ⟨x + (taken.x - area.x), y + (taken.y - area.y), taken.width, taken.height⟩ column row ↔
            graphicsRectangleContains taken (area.x + (column - x)) (area.y + (row - y)) := by
        rw [contains_iff, contains_iff]
        dsimp only
        omega
      rw [hin, ← hplaced, contains_intersect, hmoved, and_comm]
    have hclip : WithinBounds destination placed := fun column row hat ↦
      hsoundDestination.clip column row ((hin column row).mp ((hlies column row).mp hat)).1
    have hedges := hclip.edges hclipped
    -- the corners of what is placed are moved from pixels that are taken
    have hfirst := (hin _ _).mp ((hlies placed.x placed.y).mp (contains_iff.mpr (by omega)))
    have hlast := (hin _ _).mp ((hlies (placed.x + placed.width - 1)
      (placed.y + placed.height - 1)).mp (contains_iff.mpr (by omega)))
    rw [@contains_iff taken] at hfirst hlast
    have hwithin : BlitWithin destination source
        ⟨taken.x + (placed.x - (x + (taken.x - area.x))),
          taken.y + (placed.y - (y + (taken.y - area.y))), placed.width, placed.height⟩ placed := by
      refine ⟨hsize, by omega, by omega, by omega, by omega, ?_, ?_⟩ <;>
        dsimp only <;>
        omega
    have hcopied := copied_foldl_blitRow hwithin hsoundDestination hstorage
      (fun hsame ↦ decide_eq_true_iff.trans (and_iff_right hsame.1))
      (fun hsame hrow ↦ decide_eq_true_iff.trans
        ((and_iff_right hsame.1).trans (and_iff_right hrow))) memory
    constructor
    · intro column row hat index hindex
      refine (hcopied.within column row ((hlies column row).mpr hat) index hindex).trans ?_
      congr 3
      · ring
      · ring
    · intro address hother
      apply hcopied.elsewhere
      intro column row hat
      exact hother column row ((hlies column row).mp hat)

def nineSurface : GraphicsSurface := ⟨4096, 3, 3, 3, 1, false, ⟨0, 0, 3, 3⟩, []⟩

theorem nineSurface_reached : nineSurface.Reached :=
  ⟨4096, 3, 3, 3, 1, nineSurface, [], rfl, rfl⟩

/-- Of nine pixels that are moved down and to the right, four arrive. -/
theorem graphicsBlit_copies_nineSurface : BlitCopies nineSurface nineSurface 1 1 ⟨0, 0, 3, 3⟩
    UInt8.ofNat (graphicsBlit nineSurface UInt8.ofNat 1 1 nineSurface ⟨0, 0, 3, 3⟩).2 :=
  graphicsBlit_copies nineSurface_reached nineSurface_reached rfl
    (Or.inl ⟨rfl, rfl, rfl, rfl⟩) (by decide) (by decide) ⟨0, 0, 3, 3⟩ UInt8.ofNat

def moved (source : GraphicsSurface) (taken placed : GraphicsRectangle) (memory : Bytes) :
    Picture (ℕ → UInt8) := fun x y ↦
  if graphicsRectangleContains placed x y then
    some fun index ↦ memory
      (graphicsPixelAddress source (taken.x + (x - placed.x)) (taken.y + (y - placed.y)) + index)
  else none

theorem moved_of_contains {x y : ℤ} {memory : Bytes} (h : graphicsRectangleContains placed x y) :
    moved source taken placed memory x y = some fun index ↦ memory
      (graphicsPixelAddress source (taken.x + (x - placed.x)) (taken.y + (y - placed.y)) + index) :=
  if_pos h

theorem moved_of_not {x y : ℤ} {memory : Bytes} (h : ¬graphicsRectangleContains placed x y) :
    moved source taken placed memory x y = none := if_neg h

def store (surface : GraphicsSurface) (picture : Picture (ℕ → UInt8)) (memory : Bytes) : Bytes :=
  surface.raster.paint (fun bytes index ↦ bytes index) picture memory

theorem store_address {surface : GraphicsSurface} (h : surface.Sound) {x y index : ℕ}
    (hx : x < surface.width) (hy : y < surface.height) (hindex : index < surface.bytesPerPixel)
    (picture : Picture (ℕ → UInt8)) (memory : Bytes) :
    store surface picture memory (graphicsPixelAddress surface x y + index) =
      ((picture x y).map fun bytes ↦ bytes index).getD
        (memory (graphicsPixelAddress surface x y + index)) :=
  Raster.paint_place h.fits hx hy hindex

theorem store_of_outside (hdestination : destination.Sound) {picture : Picture (ℕ → UInt8)}
    {memory : Bytes} {a : ℕ}
    (h : ∀ x y index : ℕ, index < destination.bytesPerPixel →
      a = graphicsPixelAddress destination x y + index → picture x y = none) :
    store destination picture memory a = memory a := by
  rcases ha : destination.raster.pixelOf a with _ | ⟨x, y, index⟩
  · exact Raster.paint_of_pixelOf_none ha
  · obtain ⟨hplace, hx, hy, hindex⟩ := Raster.place_of_pixelOf hdestination.fits ha
    have haddress : a = graphicsPixelAddress destination x y + index := hplace
    rw [haddress, store_address hdestination hx hy hindex, h x y index hindex haddress]
    rfl

theorem Copied.eq_store {memory after : Bytes} (hdestination : destination.Sound)
    (hplaced : WithinBounds destination placed)
    (h : Copied destination source taken placed memory after) :
    after = store destination (moved source taken placed memory) memory := by
  funext address
  by_cases hat : ∃ x y, graphicsRectangleContains placed x y ∧
      ∃ index < destination.bytesPerPixel, address = graphicsPixelAddress destination x y + index
  · obtain ⟨x, y, hin, index, hindex, rfl⟩ := hat
    obtain ⟨hleft, hright, htop, hbottom⟩ := hplaced x y hin
    rw [h.within x y hin index hindex]
    lift x to ℕ using hleft
    lift y to ℕ using htop
    rw [store_address hdestination (by omega) (by omega) hindex, moved_of_contains hin]
    rfl
  · rw [store_of_outside hdestination]
    · exact h.elsewhere address fun x y hin index hindex hequal ↦
        hat ⟨x, y, hin, index, hindex, hequal⟩
    · intro x y index hindex hequal
      exact moved_of_not fun hin ↦ hat ⟨x, y, hin, index, hindex, hequal⟩

theorem intersect_of_within {first second : GraphicsRectangle}
    (hfirst : ¬graphicsRectangleIsEmpty first) (hsecond : ¬graphicsRectangleIsEmpty second)
    (hx : second.x ≤ first.x) (hy : second.y ≤ first.y)
    (hright : first.x + first.width ≤ second.x + second.width)
    (hbottom : first.y + first.height ≤ second.y + second.height) :
    graphicsRectangleIntersect first second = first := by
  unfold graphicsRectangleIntersect
  simp only [isEmpty_iff] at *
  rw [if_neg (by omega), if_neg]
  · obtain ⟨x, y, width, height⟩ := first
    simp only [GraphicsRectangle.mk.injEq] at *
    refine ⟨?_, ?_, ?_, ?_⟩ <;> split_ifs <;> omega
  · split_ifs <;> omega

theorem graphicsBlit_up {surface : GraphicsSurface} (h : surface.Sound)
    (hclip : surface.clip = graphicsSurfaceBounds surface) {lines width height : ℕ}
    (hlines : 0 < lines) (hwidth : 0 < width) (hheight : 0 < height)
    (hright : width ≤ surface.width) (hbottom : lines + height ≤ surface.height) (memory : Bytes) :
    graphicsBlit surface memory 0 0 surface ⟨0, lines, width, height⟩ =
      (true, store surface (moved surface ⟨0, lines, width, height⟩ ⟨0, 0, width, height⟩ memory)
        memory) := by
  have hlimitWidth := h.width
  have hlimitHeight := h.height
  unfold graphicsCoordinateLimit at hlimitWidth hlimitHeight
  have hbounds : ¬graphicsRectangleIsEmpty (graphicsSurfaceBounds surface) := by
    rw [isEmpty_iff]
    unfold graphicsSurfaceBounds
    dsimp only
    omega
  have htaken : graphicsRectangleIntersect ⟨0, lines, width, height⟩
      (graphicsSurfaceBounds surface) = ⟨0, lines, width, height⟩ := by
    refine intersect_of_within (by rw [isEmpty_iff]; dsimp only; omega) hbounds ?_ ?_ ?_ ?_ <;>
      unfold graphicsSurfaceBounds <;> dsimp only <;> omega
  have hplaced : graphicsRectangleIntersect ⟨0, 0, width, height⟩ surface.clip =
      ⟨0, 0, width, height⟩ := by
    rw [hclip]
    refine intersect_of_within (by rw [isEmpty_iff]; dsimp only; omega) hbounds ?_ ?_ ?_ ?_ <;>
      unfold graphicsSurfaceBounds <;> dsimp only <;> omega
  have hfull : ∀ y : ℤ, ¬graphicsRectangleIsEmpty ⟨0, y, width, height⟩ := fun y ↦ by
    rw [isEmpty_iff]
    dsimp only
    omega
  have hwithin : BlitWithin surface surface ⟨0, lines, width, height⟩ ⟨0, 0, width, height⟩ := by
    refine ⟨rfl, ?_, ?_, ?_, ?_, ?_, ?_⟩ <;> dsimp only <;> omega
  have hplacedWithin : WithinBounds surface ⟨0, 0, width, height⟩ := by
    intro x y hin
    rw [contains_iff] at hin
    dsimp only at hin
    omega
  unfold graphicsBlit
  dsimp only
  rw [if_neg (not_not_intro rfl), if_neg (by decide), htaken, if_neg (hfull _)]
  dsimp only
  rw [sub_self, sub_self, add_zero, if_neg (by decide), hplaced, if_neg (hfull _)]
  dsimp only
  rw [sub_self, add_zero, add_zero]
  have hrows : decide (surface.pixels = surface.pixels ∧ (0 : ℤ) > lines) = false :=
    decide_eq_false fun hset ↦ by omega
  have hcolumns : decide (surface.pixels = surface.pixels ∧ (0 : ℤ) = lines ∧ (0 : ℤ) > 0) =
      false := decide_eq_false fun hset ↦ by omega
  rw [hrows, hcolumns]
  -- the rows are taken from the top
  have hcopied := copied_foldl_blitRow hwithin h (Or.inl ⟨rfl, rfl, rfl, rfl⟩)
    (fun _ ↦ iff_of_false Bool.false_ne_true (by dsimp only; omega))
    (fun _ hrow ↦ iff_of_false Bool.false_ne_true (by dsimp only; omega)) memory
  rw [hcopied.eq_store h hplacedWithin]

end OxysOS.Graphics
