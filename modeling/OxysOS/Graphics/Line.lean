import OxysOS.Graphics.Shapes
import Mathlib.Algebra.Order.Ring.Int

/-!
# The line

A line has one pixel for each step of its longer extent: the one nearest to the line, and
of two as near the one met first.  The error of Bresenham's algorithm is the distance that
the pixel is from the line, so `GraphicsDrawLine` draws these pixels, ends at the second
point, and overflows nowhere.
-/

namespace OxysOS.Graphics

open OxysOS.Library

def nearest (major minor along : ℤ) : ℤ := (2 * along * minor + major - 1) / (2 * major)

def lineProgress (deltaX deltaY turn : ℤ) : ℤ × ℤ :=
  if deltaY ≤ deltaX then (turn, nearest deltaX deltaY turn)
  else (nearest deltaY deltaX turn, turn)

def line (firstX firstY secondX secondY : ℤ) : Set (ℤ × ℤ) :=
  let course := lineCourse firstX firstY secondX secondY
  {p | ∃ turn : ℤ, 0 ≤ turn ∧ turn ≤ max course.deltaX course.deltaY ∧
    p = (firstX + course.stepX * (lineProgress course.deltaX course.deltaY turn).1,
      firstY + course.stepY * (lineProgress course.deltaX course.deltaY turn).2)}

section Nearest

variable {major minor along down : ℤ}

theorem nearest_spec (hmajor : 0 < major) (minor along : ℤ) :
    -major < 2 * (along * minor - nearest major minor along * major) ∧
      2 * (along * minor - nearest major minor along * major) ≤ major := by
  have hdiv := Int.mul_ediv_add_emod (2 * along * minor + major - 1) (2 * major)
  have hleast := Int.emod_nonneg (2 * along * minor + major - 1) (b := 2 * major) (by omega)
  have hless := Int.emod_lt_of_pos (2 * along * minor + major - 1) (b := 2 * major) (by omega)
  have hscaled : 2 * major * nearest major minor along = 2 * (nearest major minor along * major) := by
    ring
  have hsteps : 2 * along * minor = 2 * (along * minor) := by ring
  unfold nearest at *
  omega

theorem nearest_eq (hlower : -major < 2 * (along * minor - down * major))
    (hupper : 2 * (along * minor - down * major) ≤ major) : nearest major minor along = down := by
  have hspec := nearest_spec (by omega : 0 < major) minor along
  have hbelow : (nearest major minor along - down) * major < 1 * major := by
    rw [Int.sub_mul]
    omega
  have habove : (down - nearest major minor along) * major < 1 * major := by
    rw [Int.sub_mul]
    omega
  have hless := lt_of_mul_lt_mul_right hbelow (by omega)
  have hmore := lt_of_mul_lt_mul_right habove (by omega)
  omega

theorem nearest_zero (hmajor : 0 ≤ major) (minor : ℤ) : nearest major minor 0 = 0 := by
  rcases hmajor.eq_or_lt with rfl | hmajor
  · exact Int.ediv_zero _
  · exact nearest_eq (by omega) (by omega)

theorem nearest_major (hmajor : 0 < major) (minor : ℤ) : nearest major minor major = minor := by
  have hcomm := Int.mul_comm major minor
  exact nearest_eq (by omega) (by omega)

theorem nearest_self (hmajor : 0 < major) (along : ℤ) : nearest major major along = along :=
  nearest_eq (by omega) (by omega)

theorem nearest_succ (hmajor : 0 < major) (hleast : 0 ≤ minor) (hmost : minor ≤ major)
    (along : ℤ) :
    nearest major minor (along + 1) =
      if 2 * (along * minor - nearest major minor along * major + minor) > major then
        nearest major minor along + 1
      else nearest major minor along := by
  have hspec := nearest_spec hmajor minor along
  have hnext : (along + 1) * minor = along * minor + minor := by ring
  have hdown : (nearest major minor along + 1) * major =
      nearest major minor along * major + major := by ring
  split_ifs with hfarther
  · exact nearest_eq (by omega) (by omega)
  · exact nearest_eq (by omega) (by omega)

theorem nearest_nonneg (hmajor : 0 < major) (hleast : 0 ≤ minor) (halong : 0 ≤ along) :
    0 ≤ nearest major minor along := by
  have hproduct := Int.mul_nonneg halong hleast
  refine Int.ediv_nonneg ?_ (by omega)
  rw [Int.mul_assoc]
  omega

theorem nearest_le (hmajor : 0 < major) (hleast : 0 ≤ minor) (halong : along ≤ major) :
    nearest major minor along ≤ minor := by
  have hspec := nearest_spec hmajor minor along
  have hproduct := Int.mul_le_mul_of_nonneg_right halong hleast
  have hbelow : (nearest major minor along - minor) * major < 1 * major := by
    rw [Int.sub_mul, Int.mul_comm minor]
    omega
  have hless := lt_of_mul_lt_mul_right hbelow (by omega)
  omega

end Nearest

structure LineCourse.Sound (course : LineCourse) (firstX firstY : ℤ) : Prop where
  deltaX : 0 ≤ course.deltaX
  deltaY : 0 ≤ course.deltaY
  wide : course.deltaX ≤ 65534
  high : course.deltaY ≤ 65534
  first : |firstX| ≤ 32767 ∧ |firstY| ≤ 32767
  stepX : |course.stepX| = 1
  stepY : |course.stepY| = 1
  secondX : course.secondX = firstX + course.stepX * course.deltaX
  secondY : course.secondY = firstY + course.stepY * course.deltaY

def linePoint (course : LineCourse) (firstX firstY : ℤ) (turn : ℤ) : LinePoint :=
  let progress := lineProgress course.deltaX course.deltaY turn
  { x := firstX + course.stepX * progress.1
    y := firstY + course.stepY * progress.2
    error := course.deltaX - course.deltaY -
      (progress.1 * course.deltaY - progress.2 * course.deltaX) }

section Turns

variable {course : LineCourse} {firstX firstY turn : ℤ}

theorem LineCourse.Sound.progress (h : course.Sound firstX firstY) (hleast : 0 ≤ turn)
    (hmost : turn ≤ max course.deltaX course.deltaY) :
    0 ≤ (lineProgress course.deltaX course.deltaY turn).1 ∧
      (lineProgress course.deltaX course.deltaY turn).1 ≤ course.deltaX ∧
      0 ≤ (lineProgress course.deltaX course.deltaY turn).2 ∧
      (lineProgress course.deltaX course.deltaY turn).2 ≤ course.deltaY := by
  have hdeltaX := h.deltaX
  have hdeltaY := h.deltaY
  unfold lineProgress
  split_ifs with hshallow
  · rcases hdeltaX.eq_or_lt with hpoint | hmajor
    · obtain rfl : turn = 0 := by omega
      rw [nearest_zero hdeltaX]
      omega
    · exact ⟨hleast, by omega, nearest_nonneg hmajor hdeltaY hleast,
        nearest_le hmajor hdeltaY (by omega)⟩
  · have hmajor : 0 < course.deltaY := by omega
    exact ⟨nearest_nonneg hmajor hdeltaX hleast, nearest_le hmajor hdeltaX (by omega), hleast,
      by omega⟩

theorem LineCourse.Sound.linePoint_zero (h : course.Sound firstX firstY) :
    linePoint course firstX firstY 0 = ⟨firstX, firstY, course.deltaX - course.deltaY⟩ := by
  have hprogress : lineProgress course.deltaX course.deltaY 0 = (0, 0) := by
    unfold lineProgress
    rw [nearest_zero h.deltaX, nearest_zero h.deltaY, ite_self]
  unfold linePoint
  rw [hprogress]
  simp only [mul_zero, zero_mul, add_zero, sub_zero]

theorem LineCourse.Sound.at_second_iff (h : course.Sound firstX firstY) (hleast : 0 ≤ turn)
    (hmost : turn ≤ max course.deltaX course.deltaY) :
    ((linePoint course firstX firstY turn).x = course.secondX ∧
      (linePoint course firstX firstY turn).y = course.secondY) ↔
        turn = max course.deltaX course.deltaY := by
  have hcancel : ∀ step a b : ℤ, |step| = 1 → (step * a = step * b ↔ a = b) := fun step a b hstep ↦
    mul_right_inj' fun hzero ↦ by rw [hzero, abs_zero] at hstep; cases hstep
  rw [h.secondX, h.secondY]
  unfold linePoint
  dsimp only
  rw [add_right_inj, add_right_inj, hcancel _ _ _ h.stepX, hcancel _ _ _ h.stepY]
  have hdeltaX := h.deltaX
  have hdeltaY := h.deltaY
  unfold lineProgress
  split_ifs with hshallow
  · rcases hdeltaX.eq_or_lt with hpoint | hmajor
    · obtain rfl : turn = 0 := by omega
      rw [nearest_zero hdeltaX]
      omega
    · refine ⟨fun hends ↦ by omega, fun hends ↦ ?_⟩
      obtain rfl : turn = course.deltaX := by omega
      exact ⟨rfl, nearest_major hmajor _⟩
  · have hmajor : 0 < course.deltaY := by omega
    refine ⟨fun hends ↦ by omega, fun hends ↦ ?_⟩
    obtain rfl : turn = course.deltaY := by omega
    exact ⟨nearest_major hmajor _, rfl⟩

theorem LineCourse.Sound.across (h : course.Sound firstX firstY) (hleast : 0 ≤ turn)
    (hless : turn < max course.deltaX course.deltaY) :
    (lineProgress course.deltaX course.deltaY (turn + 1)).1 =
      if (linePoint course firstX firstY turn).error * 2 > -course.deltaY then
        (lineProgress course.deltaX course.deltaY turn).1 + 1
      else (lineProgress course.deltaX course.deltaY turn).1 := by
  have hdeltaX := h.deltaX
  have hdeltaY := h.deltaY
  unfold linePoint
  dsimp only
  unfold lineProgress
  by_cases hshallow : course.deltaY ≤ course.deltaX
  · have hmajor : 0 < course.deltaX := by omega
    have hspec := nearest_spec hmajor course.deltaY turn
    rw [if_pos hshallow, if_pos hshallow, if_pos]
    dsimp only
    -- where the extents are the same the line is not left at all
    rcases hshallow.eq_or_lt with hsame | hsteeper
    · rw [hsame, nearest_self (by omega)]
      omega
    · omega
  · have hsucc := nearest_succ (by omega : 0 < course.deltaY) hdeltaX (by omega) turn
    rw [if_neg hshallow, if_neg hshallow]
    dsimp only
    rw [hsucc]
    split_ifs <;> first | rfl | omega

theorem LineCourse.Sound.down (h : course.Sound firstX firstY) (hleast : 0 ≤ turn)
    (hless : turn < max course.deltaX course.deltaY) :
    (lineProgress course.deltaX course.deltaY (turn + 1)).2 =
      if (linePoint course firstX firstY turn).error * 2 < course.deltaX then
        (lineProgress course.deltaX course.deltaY turn).2 + 1
      else (lineProgress course.deltaX course.deltaY turn).2 := by
  have hdeltaX := h.deltaX
  have hdeltaY := h.deltaY
  unfold linePoint
  dsimp only
  unfold lineProgress
  by_cases hshallow : course.deltaY ≤ course.deltaX
  · have hsucc := nearest_succ (by omega : 0 < course.deltaX) hdeltaY hshallow turn
    rw [if_pos hshallow, if_pos hshallow]
    dsimp only
    rw [hsucc]
    split_ifs <;> first | rfl | omega
  · have hspec := nearest_spec (by omega : 0 < course.deltaY) course.deltaX turn
    rw [if_neg hshallow, if_neg hshallow, if_pos]
    dsimp only
    omega

theorem LineCourse.Sound.lineStep_eq (h : course.Sound firstX firstY) (hleast : 0 ≤ turn)
    (hless : turn < max course.deltaX course.deltaY) :
    lineStep course (linePoint course firstX firstY turn) =
      linePoint course firstX firstY (turn + 1) := by
  have hacross := h.across hleast hless
  have hdown := h.down hleast hless
  unfold lineStep lineAcross lineDown
  have hpoint : linePoint course firstX firstY (turn + 1) = _ := rfl
  rw [hpoint]
  unfold linePoint at hacross hdown ⊢
  dsimp only at hacross hdown ⊢
  rw [hacross, hdown]
  split_ifs
  all_goals exact (LinePoint.mk.injEq _ _ _ _ _ _).mpr ⟨by ring, by ring, by ring⟩

theorem LineCourse.Sound.small (h : course.Sound firstX firstY) (hleast : 0 ≤ turn)
    (hmost : turn ≤ max course.deltaX course.deltaY) :
    |(linePoint course firstX firstY turn).x| ≤ 98301 ∧
      |(linePoint course firstX firstY turn).y| ≤ 98301 ∧
      |(linePoint course firstX firstY turn).error| ≤ 131068 := by
  obtain ⟨hx, hx', hy, hy'⟩ := h.progress hleast hmost
  have hdeltaX := h.deltaX
  have hdeltaY := h.deltaY
  have hwide := h.wide
  have hhigh := h.high
  obtain ⟨hfirstX, hfirstY⟩ := h.first
  have haway : |2 * ((lineProgress course.deltaX course.deltaY turn).1 * course.deltaY -
      (lineProgress course.deltaX course.deltaY turn).2 * course.deltaX)| ≤ 65534 := by
    unfold lineProgress
    rw [abs_le]
    split_ifs with hshallow
    · rcases hdeltaX.eq_or_lt with hpoint | hmajor
      · rw [← hpoint, show course.deltaY = 0 by omega, mul_zero, mul_zero]
        omega
      · have hspec := nearest_spec hmajor course.deltaY turn
        dsimp only
        omega
    · have hspec := nearest_spec (by omega : 0 < course.deltaY) course.deltaX turn
      dsimp only
      omega
  unfold linePoint
  dsimp only
  rw [abs_le] at hfirstX hfirstY haway
  refine ⟨?_, ?_, ?_⟩
  · rcases eq_or_eq_neg_of_abs_eq h.stepX with hstep | hstep <;> rw [hstep, abs_le] <;> omega
  · rcases eq_or_eq_neg_of_abs_eq h.stepY with hstep | hstep <;> rw [hstep, abs_le] <;> omega
  · rw [abs_le]
    omega

theorem LineCourse.Sound.checked (h : course.Sound firstX firstY) (hleast : 0 ≤ turn)
    (hless : turn < max course.deltaX course.deltaY) :
    Graphics.checked [(linePoint course firstX firstY turn).error * 2, -course.deltaY,
      (lineAcross course (linePoint course firstX firstY turn)).error,
      (lineAcross course (linePoint course firstX firstY turn)).x,
      (lineStep course (linePoint course firstX firstY turn)).error,
      (lineStep course (linePoint course firstX firstY turn)).y] = some () := by
  obtain ⟨hx, -, herror⟩ := h.small hleast hless.le
  obtain ⟨-, hnextY, hnextError⟩ := h.small (by omega : 0 ≤ turn + 1) (by omega)
  have hdeltaY := h.deltaY
  have hhigh := h.high
  have hstep := abs_le.mp h.stepX.le
  rw [h.lineStep_eq hleast hless]
  rw [abs_le] at hx herror hnextY hnextError
  refine if_pos fun value hmem ↦ ?_
  simp only [List.mem_cons, List.not_mem_nil, or_false] at hmem
  unfold lineAcross at hmem
  unfold IsInt32
  split_ifs at hmem
  · dsimp only at hmem
    omega
  · omega

def lineRest (course : LineCourse) (firstX firstY turn : ℤ) : Set (ℤ × ℤ) :=
  {p | ∃ later : ℤ, turn ≤ later ∧ later ≤ max course.deltaX course.deltaY ∧
    p = ((linePoint course firstX firstY later).x, (linePoint course firstX firstY later).y)}

theorem lineRest_step (h : turn < max course.deltaX course.deltaY) :
    lineRest course firstX firstY turn =
      lineRest course firstX firstY (turn + 1) ∪
        {((linePoint course firstX firstY turn).x, (linePoint course firstX firstY turn).y)} := by
  ext p
  constructor
  · rintro ⟨later, hfrom, hto, rfl⟩
    rcases hfrom.eq_or_lt with rfl | hfrom
    · exact Or.inr rfl
    · exact Or.inl ⟨later, hfrom, hto, rfl⟩
  · rintro (⟨later, hfrom, hto, rfl⟩ | rfl)
    · exact ⟨later, by omega, hto, rfl⟩
    · exact ⟨turn, le_rfl, h.le, rfl⟩

theorem lineRest_last :
    lineRest course firstX firstY (max course.deltaX course.deltaY) =
      {((linePoint course firstX firstY (max course.deltaX course.deltaY)).x,
        (linePoint course firstX firstY (max course.deltaX course.deltaY)).y)} := by
  ext p
  constructor
  · rintro ⟨later, hfrom, hto, rfl⟩
    rw [le_antisymm hto hfrom]
    rfl
  · rintro rfl
    exact ⟨_, le_rfl, le_rfl, rfl⟩

variable {surface : GraphicsSurface}

theorem graphicsPutPixel_shade (hsurface : surface.Sound) (memory : Bytes) (x y : ℤ)
    (colour : UInt32) :
    (if graphicsRectangleContains surface.clip x y then
      graphicsStorePixel surface memory (graphicsPixelAddress surface x y) colour
    else memory) = draw surface (clipped surface (shade {(x, y)} colour)) memory := by
  refine (graphicsPutPixel_eq hsurface memory x y colour).trans ?_
  congr 2
  funext x' y'
  by_cases hsame : x' = x ∧ y' = y
  · rw [hsame.1, hsame.2, Raster.single_self, shade_of_mem (Set.mem_singleton _)]
  · rw [Raster.single_of_ne hsame,
      shade_of_notMem fun hmem ↦ hsame (Prod.mk_inj.mp (Set.mem_singleton_iff.mp hmem))]

theorem drawLineFrom_eq (hsurface : surface.Sound) (h : course.Sound firstX firstY) (turns : ℕ)
    (hleast : 0 ≤ turn) (hturns : turn + turns = max course.deltaX course.deltaY)
    (memory : Bytes) (colour : UInt32) :
    drawLineFrom surface course colour (turns + 1) memory (linePoint course firstX firstY turn) =
      some (draw surface (clipped surface
        (shade (lineRest course firstX firstY turn) colour)) memory) := by
  induction turns generalizing turn memory with
  | zero =>
      have hlast : turn = max course.deltaX course.deltaY := by omega
      rw [drawLineFrom, if_pos ((h.at_second_iff hleast hlast.le).mpr hlast),
        graphicsPutPixel_shade hsurface, hlast, lineRest_last]
      rfl
  | succ turns ih =>
      have hless : turn < max course.deltaX course.deltaY := by omega
      rw [drawLineFrom, if_neg fun hends ↦ hless.ne ((h.at_second_iff hleast hless.le).mp hends)]
      dsimp only
      rw [h.checked hleast hless, Option.bind_eq_bind, Option.bind_some, h.lineStep_eq hleast hless,
        ih (by omega) (by omega), graphicsPutPixel_shade hsurface, draw_shade_draw_shade,
        ← lineRest_step hless]

end Turns

variable {surface : GraphicsSurface} {firstX firstY secondX secondY : ℤ}

def LineSound (firstX firstY secondX secondY : ℤ) : Prop :=
  graphicsCoordinateIsSound firstX ∧ graphicsCoordinateIsSound firstY ∧
    graphicsCoordinateIsSound secondX ∧ graphicsCoordinateIsSound secondY

theorem extent_eq {first second : ℤ} (hfirst : |first| ≤ 32767) (hsecond : |second| ≤ 32767) :
    0 ≤ (if second > first then second - first else first - second) ∧
      (if second > first then second - first else first - second) ≤ 65534 ∧
      |if first < second then (1 : ℤ) else -1| = 1 ∧
      second = first + (if first < second then 1 else -1) *
        (if second > first then second - first else first - second) := by
  rw [abs_le] at hfirst hsecond
  by_cases hless : first < second
  · rw [if_pos hless, if_pos hless]
    exact ⟨by omega, by omega, rfl, by omega⟩
  · rw [if_neg hless, if_neg hless]
    exact ⟨by omega, by omega, rfl, by omega⟩

theorem coordinateIsSound_iff_abs {value : ℤ} :
    graphicsCoordinateIsSound value ↔ |value| ≤ 32767 :=
  coordinateIsSound_iff.trans abs_le.symm

theorem lineCourse_sound (h : LineSound firstX firstY secondX secondY) :
    (lineCourse firstX firstY secondX secondY).Sound firstX firstY := by
  unfold LineSound at h
  simp only [coordinateIsSound_iff_abs] at h
  obtain ⟨hfirstX, hfirstY, hsecondX, hsecondY⟩ := h
  obtain ⟨hdeltaX, hwide, hstepX, hendX⟩ := extent_eq hfirstX hsecondX
  obtain ⟨hdeltaY, hhigh, hstepY, hendY⟩ := extent_eq hfirstY hsecondY
  exact ⟨hdeltaX, hdeltaY, hwide, hhigh, ⟨hfirstX, hfirstY⟩, hstepX, hstepY, hendX, hendY⟩

theorem graphicsDrawLine_eq (hsurface : surface.Sound) (memory : Bytes) (colour : UInt32) :
    (LineSound firstX firstY secondX secondY →
      graphicsDrawLine surface memory firstX firstY secondX secondY colour =
        some (draw surface (clipped surface
          (shade (line firstX firstY secondX secondY) colour)) memory)) ∧
    (¬LineSound firstX firstY secondX secondY →
      graphicsDrawLine surface memory firstX firstY secondX secondY colour = some memory) := by
  refine ⟨fun hends ↦ ?_, fun hends ↦ if_pos ?_⟩
  · have hcourse := lineCourse_sound hends
    have hsound := hends
    unfold LineSound at hsound
    unfold graphicsDrawLine
    rw [if_neg (by tauto)]
    by_cases hclip : graphicsRectangleIsEmpty surface.clip
    · rw [if_pos hclip]
      refine congrArg some ((draw_none surface memory).symm.trans ?_)
      congr 1
      funext x y
      refine (clipped_of_not fun hin ↦ ?_).symm
      rw [contains_iff] at hin
      rw [isEmpty_iff] at hclip
      omega
    · rw [if_neg hclip]
      have hchecked : checked [secondX - firstX, firstX - secondX, secondY - firstY,
          firstY - secondY, (lineCourse firstX firstY secondX secondY).deltaX -
            (lineCourse firstX firstY secondX secondY).deltaY] = some () := by
        have hdeltaX := hcourse.deltaX
        have hdeltaY := hcourse.deltaY
        have hwide := hcourse.wide
        have hhigh := hcourse.high
        unfold graphicsCoordinateIsSound graphicsCoordinateLimit at hsound
        simp only [decide_eq_true_eq] at hsound
        refine if_pos fun value hmem ↦ ?_
        simp only [List.mem_cons, List.not_mem_nil, or_false] at hmem
        unfold IsInt32
        omega
      dsimp only
      rw [hchecked, ← hcourse.linePoint_zero]
      refine (drawLineFrom_eq hsurface hcourse _ le_rfl ?_ memory colour).trans ?_
      · have hdeltaX := hcourse.deltaX
        omega
      · rfl
  · unfold LineSound at hends
    tauto

end OxysOS.Graphics
