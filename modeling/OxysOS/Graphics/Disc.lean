import OxysOS.Graphics.Shapes
import Mathlib.Algebra.Order.Ring.Int

/-!
# The disc

Bresenham's circle is the walk of the arc from its side to the diagonal, and the disc is
the spans that its points and their reflections bound.
-/

namespace OxysOS.Graphics

open OxysOS.Library

def circleWalk (x y error : ℤ) : List (ℤ × ℤ) :=
  if _h : x ≥ y then
    (x, y) ::
      if error < 0 then circleWalk x (y + 1) (error + (2 * (y + 1) + 1))
      else circleWalk (x - 1) (y + 1) (error + (2 * (y + 1 - (x - 1)) + 1))
  else []
  termination_by (x - y + 1).toNat
  decreasing_by all_goals omega

def spans (centreX centreY x y : ℤ) : Set (ℤ × ℤ) :=
  {p | (|p.2 - centreY| = y ∧ |p.1 - centreX| ≤ x) ∨ (|p.2 - centreY| = x ∧ |p.1 - centreX| ≤ y)}

def walkRegion (centreX centreY : ℤ) (walk : List (ℤ × ℤ)) : Set (ℤ × ℤ) :=
  {p | ∃ point ∈ walk, p ∈ spans centreX centreY point.1 point.2}

def disc (centreX centreY radius : ℤ) : Set (ℤ × ℤ) :=
  if radius < 0 then ∅ else walkRegion centreX centreY (circleWalk radius 0 (1 - radius))

structure DiscFits (centreX centreY radius : ℤ) : Prop where
  width : radius < 1073741824
  left : -2147483648 ≤ centreX - radius
  top : -2147483648 ≤ centreY - radius
  bottom : centreY + radius ≤ 2147483647

structure OnArc (radius x y error : ℤ) : Prop where
  least : 0 ≤ y
  most : x ≤ radius
  measure : error = (y + 1) * (y + 1) + x * x - x - radius * radius
  lower : 1 - 2 * x ≤ error
  upper : x ≥ y → error ≤ 2 * y + 1

variable {surface : GraphicsSurface} {memory : Bytes} {colour : UInt32}
  {centreX centreY radius x y error : ℤ}

theorem onArc_first (hradius : 0 ≤ radius) : OnArc radius radius 0 (1 - radius) := by
  refine ⟨le_rfl, le_rfl, by ring, by omega, fun _ ↦ by omega⟩

theorem OnArc.along (h : OnArc radius x y error) (hturn : error < 0) :
    OnArc radius x (y + 1) (error + (2 * (y + 1) + 1)) := by
  obtain ⟨hleast, hmost, herror, hlower, hupper⟩ := h
  refine ⟨by omega, hmost, ?_, by omega, fun _ ↦ by omega⟩
  rw [herror]
  ring

theorem OnArc.inward (h : OnArc radius x y error) (hin : x ≥ y) (hturn : ¬error < 0) :
    OnArc radius (x - 1) (y + 1) (error + (2 * (y + 1 - (x - 1)) + 1)) := by
  obtain ⟨hleast, hmost, herror, hlower, hupper⟩ := h
  have hle := hupper hin
  refine ⟨by omega, by omega, ?_, by omega, fun _ ↦ by omega⟩
  rw [herror]
  ring

theorem OnArc.height (h : OnArc radius x y error) (hin : x ≥ y) (hwidth : radius < 1073741824) :
    y < 1073741820 := by
  obtain ⟨hleast, hmost, herror, -, hupper⟩ := h
  have hle := hupper hin
  have hradius : radius * radius ≤ 1073741823 * 1073741823 := by nlinarith
  by_contra hfar
  have hy : (1073741820 : ℤ) ≤ y := by omega
  nlinarith

theorem OnArc.checked (h : OnArc radius x y error) (hin : x ≥ y)
    (hfits : DiscFits centreX centreY radius) (hx : IsInt32 centreX) :
    Graphics.checked [centreX - x, centreY + y, centreY - y, 2 * x, 2 * x + 1, centreX - y,
      centreY + x, centreY - x, 2 * y, 2 * y + 1, y + 1] = some () ∧
    (error < 0 → Graphics.checked [2 * (y + 1), 2 * (y + 1) + 1, error + (2 * (y + 1) + 1)] =
      some ()) ∧
    (¬error < 0 → Graphics.checked [x - 1, y + 1 - (x - 1), 2 * (y + 1 - (x - 1)),
      2 * (y + 1 - (x - 1)) + 1, error + (2 * (y + 1 - (x - 1)) + 1)] = some ()) := by
  have hheight := h.height hin hfits.width
  obtain ⟨hleast, hmost, -, hlower, hupper⟩ := h
  obtain ⟨hwidth, hleft, htop, hbottom⟩ := hfits
  have hle := hupper hin
  unfold IsInt32 at hx
  refine ⟨if_pos fun value hmem ↦ ?_, fun hturn ↦ if_pos fun value hmem ↦ ?_,
    fun hturn ↦ if_pos fun value hmem ↦ ?_⟩ <;>
  · simp only [List.mem_cons, List.not_mem_nil, or_false] at hmem
    unfold IsInt32
    omega

theorem spans_eq (hleast : 0 ≤ y) (hin : x ≥ y) :
    spans centreX centreY x y =
      (graphicsSpan (centreX - y) (centreY - x) (2 * y + 1)).region ∪
        ((graphicsSpan (centreX - y) (centreY + x) (2 * y + 1)).region ∪
          ((graphicsSpan (centreX - x) (centreY - y) (2 * x + 1)).region ∪
            (graphicsSpan (centreX - x) (centreY + y) (2 * x + 1)).region)) := by
  ext ⟨x', y'⟩
  simp only [Set.mem_union, spans, Set.mem_ofPred_eq, GraphicsRectangle.region, contains_iff,
    graphicsSpan, abs_le]
  rw [abs_eq hleast, abs_eq (by omega)]
  omega

theorem walkRegion_nil : walkRegion centreX centreY [] = ∅ :=
  Set.eq_empty_iff_forall_notMem.mpr fun _ ⟨_, hmem, _⟩ ↦ absurd hmem List.not_mem_nil

theorem walkRegion_cons (point : ℤ × ℤ) (walk : List (ℤ × ℤ)) :
    walkRegion centreX centreY (point :: walk) =
      walkRegion centreX centreY walk ∪ spans centreX centreY point.1 point.2 := by
  ext p
  constructor
  · rintro ⟨found, hmem, hp⟩
    rcases List.mem_cons.mp hmem with rfl | hmem
    · exact Or.inr hp
    · exact Or.inl ⟨found, hmem, hp⟩
  · rintro (⟨found, hmem, hp⟩ | hp)
    · exact ⟨found, List.mem_cons_of_mem _ hmem, hp⟩
    · exact ⟨point, List.mem_cons_self, hp⟩

theorem draw_clipped_empty (surface : GraphicsSurface) (colour : UInt32) (memory : Bytes) :
    draw surface (clipped surface (shade ∅ colour)) memory = memory := by
  refine Eq.trans (congrArg (draw surface · memory) (funext fun x ↦ funext fun y ↦ ?_))
    (draw_none surface memory)
  unfold clipped
  rw [shade_of_notMem (Set.notMem_empty _), ite_self]

theorem fillCircleFrom_eq (h : surface.Sound) (hfits : DiscFits centreX centreY radius)
    (hx : IsInt32 centreX) (harc : OnArc radius x y error)
    (memory : Bytes) :
    fillCircleFrom surface centreX centreY colour memory x y error =
      some (draw surface (clipped surface
        (shade (walkRegion centreX centreY (circleWalk x y error)) colour)) memory) := by
  fun_induction circleWalk x y error generalizing memory with
  | case1 x y error hin ihAlong ihInward =>
      obtain ⟨hfirst, halong, hinward⟩ := harc.checked hin hfits hx
      rw [fillCircleFrom, dif_pos hin, hfirst, Option.bind_eq_bind, Option.bind_some]
      simp only [graphicsFillRectangle_shade h, draw_shade_draw_shade]
      rw [walkRegion_cons, spans_eq harc.least hin]
      by_cases hturn : error < 0
      · rw [if_pos hturn, if_pos hturn, halong hturn, Option.bind_some,
          ihAlong (harc.along hturn), draw_shade_draw_shade]
      · rw [if_neg hturn, if_neg hturn, hinward hturn, Option.bind_some,
          ihInward (harc.inward hin hturn), draw_shade_draw_shade]
  | case2 x y error hin =>
      rw [fillCircleFrom, dif_neg hin, walkRegion_nil, draw_clipped_empty]

theorem graphicsFillCircle_eq (h : surface.Sound) (hx : IsInt32 centreX)
    (hradius : IsInt32 radius) (memory : Bytes) (colour : UInt32) :
    (radius < 0 ∨ DiscFits centreX centreY radius →
      graphicsFillCircle surface memory centreX centreY radius colour =
        some (draw surface (clipped surface (shade (disc centreX centreY radius) colour)) memory)) ∧
    (¬(radius < 0 ∨ DiscFits centreX centreY radius) →
      graphicsFillCircle surface memory centreX centreY radius colour = none) := by
  unfold IsInt32 at hradius
  by_cases hnegative : radius < 0
  · refine ⟨fun _ ↦ ?_, fun hset ↦ absurd (Or.inl hnegative) hset⟩
    unfold graphicsFillCircle disc
    rw [if_pos hnegative, if_pos hnegative, draw_clipped_empty]
  · have hchecked : checked [1 - radius] = some () := by
      refine if_pos fun value hmem ↦ ?_
      rw [List.mem_singleton.mp hmem]
      unfold IsInt32
      omega
    have hbegun : graphicsFillCircle surface memory centreX centreY radius colour =
        fillCircleFrom surface centreX centreY colour memory radius 0 (1 - radius) := by
      unfold graphicsFillCircle
      rw [if_neg hnegative, hchecked]
      rfl
    rw [hbegun]
    refine ⟨fun hset ↦ ?_, fun hset ↦ ?_⟩
    · have hfits := hset.resolve_left hnegative
      unfold disc
      rw [if_neg hnegative]
      exact fillCircleFrom_eq h hfits hx (onArc_first (by omega)) memory
    · rw [fillCircleFrom, dif_pos (by omega)]
      have hnone : checked [centreX - radius, centreY + 0, centreY - 0, 2 * radius, 2 * radius + 1,
          centreX - 0, centreY + radius, centreY - radius, 2 * 0, 2 * 0 + 1, 0 + 1] = none := by
        refine if_neg fun hall ↦ hset (Or.inr ?_)
        simp only [List.mem_cons, List.not_mem_nil, or_false, forall_eq_or_imp, forall_eq] at hall
        unfold IsInt32 at hall
        exact ⟨by omega, by omega, by omega, by omega⟩
      rw [hnone]
      rfl

end OxysOS.Graphics
