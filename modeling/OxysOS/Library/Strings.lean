import OxysOS.Library.Bytes
import Mathlib.Data.List.Forall2

/-!
# Strings one after another

Terminated strings that are packed into a run of bytes, where each of them
begins, and how they are read there.
-/

namespace OxysOS.Library

variable {raw raw' : Bytes} {start bound offset width : ℕ} {string : List UInt8}
  {strings : List (List UInt8)}

def packed (strings : List (List UInt8)) : List UInt8 := strings.flatMap (· ++ [0])

def placed (start : ℕ) : List (List UInt8) → List ℕ
  | [] => []
  | string :: strings => start :: placed (start + (string.length + 1)) strings

def stringAt (raw : Bytes) (start bound : ℕ) : List UInt8 := (slice raw start bound).takeWhile (· ≠ 0)

@[simp] theorem packed_nil : packed [] = [] := rfl

@[simp] theorem packed_cons (string : List UInt8) (strings : List (List UInt8)) :
    packed (string :: strings) = string ++ [0] ++ packed strings := rfl

theorem packed_append (first second : List (List UInt8)) :
    packed (first ++ second) = packed first ++ packed second := List.flatMap_append

@[simp] theorem length_packed_cons (string : List UInt8) (strings : List (List UInt8)) :
    (packed (string :: strings)).length = string.length + 1 + (packed strings).length := by
  rw [packed_cons, List.length_append, List.length_append]
  rfl

@[simp] theorem length_placed (start : ℕ) (strings : List (List UInt8)) :
    (placed start strings).length = strings.length := by
  induction strings generalizing start with
  | nil => rfl
  | cons string strings ih => exact congrArg Nat.succ (ih _)

theorem placed_append (start : ℕ) (first second : List (List UInt8)) :
    placed start (first ++ second) =
      placed start first ++ placed (start + (packed first).length) second := by
  induction first generalizing start with
  | nil => rfl
  | cons string first ih =>
      rw [List.cons_append, placed, placed, ih, List.cons_append, length_packed_cons,
        Nat.add_assoc start]

theorem stringAt_eq (h : slice raw start (string.length + 1) = string ++ [0]) (hzero : 0 ∉ string)
    (hbound : string.length < bound) : stringAt raw start bound = string := by
  obtain ⟨more, rfl⟩ := Nat.exists_eq_add_of_lt hbound
  have hstring : ∀ c ∈ string, decide (c ≠ 0) = true :=
    fun c hc ↦ decide_eq_true fun heq ↦ hzero (heq ▸ hc)
  unfold stringAt
  rw [Nat.add_right_comm, slice_add, h, List.append_assoc, List.takeWhile_append_of_pos hstring]
  simp

theorem slice_placed (h : slice raw start (packed strings).length = packed strings) :
    List.Forall₂ (fun place string ↦ slice raw place (string.length + 1) = string ++ [0])
      (placed start strings) strings := by
  induction strings generalizing start with
  | nil => exact List.Forall₂.nil
  | cons string strings ih =>
      rw [length_packed_cons, slice_add, packed_cons] at h
      obtain ⟨hfirst, hrest⟩ := List.append_inj h (by simp)
      exact List.Forall₂.cons hfirst (ih hrest)

theorem map_stringAt_placed {limit : ℕ} (h : slice raw start (packed strings).length = packed strings)
    (hzero : ∀ string ∈ strings, 0 ∉ string) (hend : start + (packed strings).length ≤ limit) :
    (placed start strings).map (fun place ↦ stringAt raw place (limit - place)) = strings := by
  induction strings generalizing start with
  | nil => rfl
  | cons string strings ih =>
      rw [length_packed_cons] at hend
      rw [length_packed_cons, slice_add, packed_cons] at h
      obtain ⟨hfirst, hrest⟩ := List.append_inj h (by simp)
      rw [placed, List.map_cons, stringAt_eq hfirst (hzero string List.mem_cons_self) (by omega),
        ih hrest (fun other hother ↦ hzero other (List.mem_cons_of_mem string hother)) (by omega)]

theorem placed_pairwise (start : ℕ) (strings : List (List UInt8)) :
    ((placed start strings).zip strings).Pairwise
      fun area above ↦ area.1 + (area.2.length + 1) ≤ above.1 := by
  have hbound : ∀ start (strings : List (List UInt8)),
      ∀ area ∈ (placed start strings).zip strings, start ≤ area.1 := by
    intro start strings
    induction strings generalizing start with
    | nil => nofun
    | cons string strings ih =>
        intro area harea
        rcases List.mem_cons.mp harea with rfl | harea
        · exact le_rfl
        · exact (Nat.le_add_right start _).trans (ih _ area harea)
  induction strings generalizing start with
  | nil => exact List.Pairwise.nil
  | cons string strings ih => exact List.Pairwise.cons (fun area harea ↦ hbound _ _ area harea) (ih _)

theorem placed_within (start : ℕ) (strings : List (List UInt8)) :
    ∀ area ∈ (placed start strings).zip strings, start ≤ area.1 ∧
      area.1 + (area.2.length + 1) ≤ start + (packed strings).length := by
  induction strings generalizing start with
  | nil => nofun
  | cons string strings ih =>
      intro area harea
      rw [length_packed_cons]
      rcases List.mem_cons.mp harea with rfl | harea
      · exact ⟨le_rfl, by dsimp only; omega⟩
      · obtain ⟨hlow, hhigh⟩ := ih _ area harea
        omega

theorem readField_of_slice (h : slice raw offset width = slice raw' offset width) :
    readField raw offset width = readField raw' offset width := by
  apply readField_congr
  intro i hlow hhigh
  have hi : i - offset < width := by omega
  have hbyte := congrArg (fun bytes ↦ bytes.getD (i - offset) 0) h
  rwa [getD_slice _ _ hi, getD_slice _ _ hi, Nat.add_sub_cancel' hlow] at hbyte

theorem slice_writeField (raw : Bytes) (offset width value : ℕ) :
    slice (writeField raw offset width value) offset width =
      (List.range width).map fun i ↦ UInt8.ofNat (value / 256 ^ i) := by
  unfold slice
  apply List.map_congr_left
  intro i hi
  have hlt := List.mem_range.mp hi
  unfold writeField
  rw [if_pos ⟨Nat.le_add_right .., Nat.add_lt_add_left hlt offset⟩, Nat.add_sub_cancel_left]

theorem component_shorter {separator first : UInt8} {path rest : List UInt8}
    (h : path.dropWhile (· == separator) = first :: rest) :
    ((first :: rest).dropWhile (· != separator)).length < path.length := by
  have hfirst : (first != separator) = true := by
    have := List.head?_dropWhile_not (· == separator) path
    rw [h] at this
    simpa using this
  have hpath := (List.dropWhile_suffix (l := path) (· == separator)).length_le
  have hrest := (List.dropWhile_suffix (l := rest) (· != separator)).length_le
  rw [h, List.length_cons] at hpath
  rw [List.dropWhile_cons_of_pos (p := (· != separator)) hfirst]
  omega

end OxysOS.Library
