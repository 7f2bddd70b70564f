import OxysOS.Library.Runs
import Mathlib.Data.Nat.Bitwise

/-!
# Image files

`libc/image/image.c`, the parser: a header of twelve bytes, and then, row by row, the runs of a
picture.  What is accepted is the file of a picture whose rows are filled by runs of one pixel or
more, of colours without a top byte, with nothing after the last of them.
-/

namespace OxysOS.Libc

open OxysOS.Library

def imageExtentMaximum : ℕ := 4096

def imageHeaderBytes : ℕ := 12

def imageRunBytes : ℕ := 6

/-- `IMAGE_MAGIC`, which is `OXIM`. -/
def imageMagic : List UInt8 := [79, 88, 73, 77]

def imageVersion : UInt8 := 1

inductive ImageFault
  | refused
  | outside
  deriving DecidableEq

structure OxysImage where
  width : ℕ
  height : ℕ
  runs : List UInt8
  runCount : ℕ
  deriving DecidableEq

def imageByte (bytes : List UInt8) (place : ℕ) : Except ImageFault ℕ :=
  match bytes[place]? with
  | some byte => .ok byte.toNat
  | none => .error .outside

def imageHalf (bytes : List UInt8) (place : ℕ) : Except ImageFault ℕ := do
  let first ← imageByte bytes place
  let second ← imageByte bytes (place + 1)
  return first ||| second <<< 8

def imageWord (bytes : List UInt8) (place : ℕ) : Except ImageFault ℕ := do
  let first ← imageByte bytes place
  let second ← imageByte bytes (place + 1)
  let third ← imageByte bytes (place + 2)
  let fourth ← imageByte bytes (place + 3)
  return first ||| second <<< 8 ||| third <<< 16 ||| fourth <<< 24

def imageParseRow (source : List UInt8) (width filled place runs : ℕ) :
    Except ImageFault (ℕ × ℕ) :=
  if hfilled : filled < width then
    if source.length - place < imageRunBytes then .error .refused
    else do
      let length ← imageHalf source place
      let pixel ← imageWord source (place + 2)
      if hrun : length = 0 ∨ length > width - filled ∨ pixel &&& 0xFF000000 ≠ 0 then
        .error .refused
      else imageParseRow source width (filled + length) (place + imageRunBytes) (runs + 1)
  else .ok (place, runs)
termination_by width - filled

def imageParseRows (source : List UInt8) (width : ℕ) : ℕ → ℕ → ℕ → Except ImageFault (ℕ × ℕ)
  | 0, place, runs => .ok (place, runs)
  | rows + 1, place, runs => do
      let (place, runs) ← imageParseRow source width 0 place runs
      imageParseRows source width rows place runs

/-- `OxysImageParse`, of bytes that are somewhere. -/
def oxysImageParse (source : List UInt8) : Except ImageFault OxysImage :=
  if source.length < imageHeaderBytes ∨ source.take 4 ≠ imageMagic ∨
      source[4]? ≠ some imageVersion ∨ source[5]? ≠ some 0 ∨ source[6]? ≠ some 0 ∨
        source[7]? ≠ some 0 then
    .error .refused
  else do
    let width ← imageHalf source 8
    let height ← imageHalf source 10
    if width = 0 ∨ height = 0 ∨ width > imageExtentMaximum ∨ height > imageExtentMaximum then
      .error .refused
    else
      let (place, runs) ← imageParseRows source width height imageHeaderBytes 0
      if place ≠ source.length then .error .refused
      else
        return { width, height, runs := source.drop imageHeaderBytes, runCount := runs }

def halfBytes (value : ℕ) : List UInt8 := [UInt8.ofNat value, UInt8.ofNat (value / 256)]

def wordBytes (value : ℕ) : List UInt8 :=
  [UInt8.ofNat value, UInt8.ofNat (value / 256), UInt8.ofNat (value / 65536),
    UInt8.ofNat (value / 16777216)]

def runBytes (run : Run ℕ) : List UInt8 := halfBytes run.count ++ wordBytes run.value

structure IsRow (width : ℕ) (row : List (Run ℕ)) : Prop where
  positive : ∀ run ∈ row, 0 < run.count
  colour : ∀ run ∈ row, run.value < 16777216
  filled : total row = width

structure RunPicture where
  width : ℕ
  rows : List (List (Run ℕ))
  width_pos : 0 < width
  width_le : width ≤ imageExtentMaximum
  height_pos : 0 < rows.length
  height_le : rows.length ≤ imageExtentMaximum
  isRow : ∀ row ∈ rows, IsRow width row

def rowsBytes (rows : List (List (Run ℕ))) : List UInt8 := rows.flatten.flatMap runBytes

def RunPicture.bytes (picture : RunPicture) : List UInt8 :=
  imageMagic ++ [imageVersion, 0, 0, 0] ++ halfBytes picture.width ++
    halfBytes picture.rows.length ++ rowsBytes picture.rows

def RunPicture.image (picture : RunPicture) : OxysImage where
  width := picture.width
  height := picture.rows.length
  runs := rowsBytes picture.rows
  runCount := picture.rows.flatten.length

@[simp] theorem RunPicture.image_width (picture : RunPicture) :
    picture.image.width = picture.width := rfl

@[simp] theorem RunPicture.image_height (picture : RunPicture) :
    picture.image.height = picture.rows.length := rfl

@[simp] theorem RunPicture.image_runCount (picture : RunPicture) :
    picture.image.runCount = picture.rows.flatten.length := rfl

variable {source rest : List UInt8} {place value width filled runs : ℕ}

theorem imageByte_of_drop {head : List UInt8} {index : ℕ} {byte : UInt8}
    (h : source.drop place = head ++ rest) (hbyte : head[index]? = some byte) :
    imageByte source (place + index) = .ok byte.toNat := by
  have hindex : index < head.length := (List.getElem?_eq_some_iff.mp hbyte).1
  have hat : source[place + index]? = some byte := by
    rw [← List.getElem?_drop, h, List.getElem?_append_left hindex, hbyte]
  simp only [imageByte, hat]

theorem or_shift {first : ℕ} (bits : ℕ) (h : first < 2 ^ bits) (second : ℕ) :
    first ||| second <<< bits = first + 2 ^ bits * second := by
  rw [Nat.or_comm, ← Nat.shiftLeft_add_eq_or_of_lt h, Nat.shiftLeft_eq, Nat.add_comm,
    Nat.mul_comm]

theorem imageHalf_of_drop {first second : UInt8}
    (h : source.drop place = [first, second] ++ rest) :
    imageHalf source place = .ok (first.toNat + 256 * second.toNat) := by
  have hfirst : imageByte source (place + 0) = .ok first.toNat := imageByte_of_drop h rfl
  have hsecond : imageByte source (place + 1) = .ok second.toNat := imageByte_of_drop h rfl
  have hvalue := or_shift 8 first.toNat_lt second.toNat
  simp only [imageHalf, Nat.add_zero] at hfirst ⊢
  simp only [hfirst, hsecond, bind, Except.bind, pure, Except.pure, hvalue]
  rfl

theorem imageWord_of_drop {first second third fourth : UInt8}
    (h : source.drop place = [first, second, third, fourth] ++ rest) :
    imageWord source place = .ok (first.toNat + 256 * second.toNat + 65536 * third.toNat +
      16777216 * fourth.toNat) := by
  have hfirst : imageByte source (place + 0) = .ok first.toNat := imageByte_of_drop h rfl
  have hsecond : imageByte source (place + 1) = .ok second.toNat := imageByte_of_drop h rfl
  have hthird : imageByte source (place + 2) = .ok third.toNat := imageByte_of_drop h rfl
  have hfourth : imageByte source (place + 3) = .ok fourth.toNat := imageByte_of_drop h rfl
  have hfirstLt := first.toNat_lt
  have hsecondLt := second.toNat_lt
  have hthirdLt := third.toNat_lt
  have hhalf := or_shift 8 first.toNat_lt second.toNat
  have hmost : first.toNat + 2 ^ 8 * second.toNat < 2 ^ 16 := by omega
  have hword : first.toNat + 2 ^ 8 * second.toNat + 2 ^ 16 * third.toNat < 2 ^ 24 := by omega
  simp only [imageWord, Nat.add_zero] at hfirst ⊢
  simp only [hfirst, hsecond, hthird, hfourth, bind, Except.bind, pure, Except.pure, hhalf,
    or_shift 16 hmost, or_shift 24 hword]
  rfl

theorem and_topByte_eq_zero (h : value < 4294967296) :
    value &&& 0xFF000000 = 0 ↔ value < 16777216 := by
  have hmask : ∀ bit, Nat.testBit 0xFF000000 bit = (decide (24 ≤ bit) && decide (bit - 24 < 8)) := by
    intro bit
    have hshift : 0xFF000000 = (2 ^ 8 - 1) <<< 24 := by decide
    rw [hshift, Nat.testBit_shiftLeft, Nat.testBit_two_pow_sub_one]
  constructor
  · intro hnone
    by_contra hle
    obtain ⟨bit, hbit, hset⟩ := Nat.exists_ge_and_testBit_of_ge_two_pow
      (show value ≥ 2 ^ 24 by omega)
    have hlt : bit < 32 := by
      by_contra hge
      have hlarge := Nat.ge_two_pow_of_testBit hset
      have hmore : 2 ^ 32 ≤ 2 ^ bit := Nat.pow_le_pow_right (by omega) (by omega)
      omega
    have hand : (value &&& 0xFF000000).testBit bit = true := by
      rw [Nat.testBit_and, hset, hmask, decide_eq_true hbit, decide_eq_true (by omega)]
      rfl
    rw [hnone, Nat.zero_testBit] at hand
    exact Bool.noConfusion hand
  · intro hlt
    apply Nat.eq_of_testBit_eq
    intro bit
    rw [Nat.testBit_and, hmask, Nat.zero_testBit]
    rcases Nat.lt_or_ge bit 24 with hbit | hbit
    · rw [decide_eq_false (by omega), Bool.false_and, Bool.and_false]
    · have hsmall : value < 2 ^ bit :=
        Nat.lt_of_lt_of_le hlt (Nat.pow_le_pow_right (by omega : 0 < 2) hbit)
      rw [Nat.testBit_lt_two_pow hsmall, Bool.false_and]

theorem imageHalf_of_halfBytes (hvalue : value < 65536)
    (h : source.drop place = halfBytes value ++ rest) : imageHalf source place = .ok value := by
  rw [imageHalf_of_drop h, UInt8.toNat_ofNat', UInt8.toNat_ofNat']
  congr 1
  omega

theorem imageWord_of_wordBytes (hvalue : value < 4294967296)
    (h : source.drop place = wordBytes value ++ rest) : imageWord source place = .ok value := by
  rw [imageWord_of_drop h, UInt8.toNat_ofNat', UInt8.toNat_ofNat', UInt8.toNat_ofNat',
    UInt8.toNat_ofNat']
  congr 1
  omega

theorem drop_eq_take_append (place size : ℕ) :
    source.drop place = (source.drop place).take size ++ source.drop (place + size) := by
  rw [← List.drop_drop, List.take_append_drop]

theorem ofNat_eq_of_mod {byte : UInt8} (h : value % 256 = byte.toNat) :
    UInt8.ofNat value = byte := by
  apply UInt8.toNat_inj.mp
  rw [UInt8.toNat_ofNat']
  exact h

theorem exists_halfBytes {bytes : List UInt8} (h : bytes.length = 2) :
    ∃ value < 65536, bytes = halfBytes value := by
  obtain ⟨first, second, rfl⟩ := List.length_eq_two.mp h
  have hfirst := first.toNat_lt
  have hsecond := second.toNat_lt
  refine ⟨first.toNat + 256 * second.toNat, by omega, ?_⟩
  simp only [halfBytes, List.cons.injEq, and_true]
  refine ⟨?_, ?_⟩ <;> apply Eq.symm <;> apply ofNat_eq_of_mod <;> omega

theorem exists_wordBytes {bytes : List UInt8} (h : bytes.length = 4) :
    ∃ value < 4294967296, bytes = wordBytes value := by
  obtain ⟨first, second, third, fourth, rfl⟩ : ∃ first second third fourth,
      bytes = [first, second, third, fourth] := by
    match bytes, h with
    | [first, second, third, fourth], _ => exact ⟨first, second, third, fourth, rfl⟩
  have hfirst := first.toNat_lt
  have hsecond := second.toNat_lt
  have hthird := third.toNat_lt
  have hfourth := fourth.toNat_lt
  refine ⟨first.toNat + 256 * second.toNat + 65536 * third.toNat + 16777216 * fourth.toNat,
    by omega, ?_⟩
  simp only [wordBytes, List.cons.injEq, and_true]
  refine ⟨?_, ?_, ?_, ?_⟩ <;> apply Eq.symm <;> apply ofNat_eq_of_mod <;> omega

theorem length_runBytes (run : Run ℕ) : (runBytes run).length = imageRunBytes := rfl

theorem exists_runBytes (h : place + imageRunBytes ≤ source.length) :
    ∃ run : Run ℕ, (run.count < 65536 ∧ run.value < 4294967296) ∧
      source.drop place = runBytes run ++ source.drop (place + imageRunBytes) := by
  unfold imageRunBytes at h
  have hhalf : ((source.drop place).take 2).length = 2 := by
    rw [List.length_take, List.length_drop]
    omega
  have hword : ((source.drop (place + 2)).take 4).length = 4 := by
    rw [List.length_take, List.length_drop]
    omega
  obtain ⟨count, hcount, hfirst⟩ := exists_halfBytes hhalf
  obtain ⟨pixel, hpixel, hlast⟩ := exists_wordBytes hword
  refine ⟨⟨count, pixel⟩, ⟨hcount, hpixel⟩, ?_⟩
  rw [drop_eq_take_append place 2, hfirst, drop_eq_take_append (place + 2) 4, hlast, runBytes,
    List.append_assoc, Nat.add_assoc]
  rfl

variable {run : Run ℕ}

theorem imageParseRow_run (hfilled : filled < width) (hcount : run.count < 65536)
    (hvalue : run.value < 4294967296) (h : source.drop place = runBytes run ++ rest) :
    imageParseRow source width filled place runs =
      if run.count = 0 ∨ width - filled < run.count ∨ 16777216 ≤ run.value then .error .refused
      else imageParseRow source width (filled + run.count) (place + imageRunBytes) (runs + 1) := by
  have hlength := congrArg List.length h
  rw [List.length_drop, List.length_append, length_runBytes] at hlength
  have hhalf : imageHalf source place = .ok run.count := by
    rw [runBytes, List.append_assoc] at h
    exact imageHalf_of_halfBytes hcount h
  have hword : imageWord source (place + 2) = .ok run.value := by
    apply @imageWord_of_wordBytes source rest _ _ hvalue
    rw [← List.drop_drop, h, runBytes, List.append_assoc]
    rfl
  rw [imageParseRow, dif_pos hfilled, if_neg (by omega), hhalf]
  simp only [bind, Except.bind, hword]
  have hcolour := and_topByte_eq_zero hvalue
  split_ifs with hbad hnot hnot
  · rfl
  · exfalso
    omega
  · exfalso
    omega
  · rfl

theorem imageParseRow_of_row {row : List (Run ℕ)} (hwidth : width ≤ imageExtentMaximum)
    (hpositive : ∀ run ∈ row, 0 < run.count) (hcolour : ∀ run ∈ row, run.value < 16777216)
    (hfilled : filled + total row = width)
    (h : source.drop place = row.flatMap runBytes ++ rest) :
    imageParseRow source width filled place runs =
      .ok (place + row.length * imageRunBytes, runs + row.length) := by
  induction row generalizing filled place runs with
  | nil =>
      rw [total_nil] at hfilled
      rw [imageParseRow, dif_neg (by omega), List.length_nil, Nat.zero_mul]
      rfl
  | cons run row ih =>
      have hcount := hpositive run List.mem_cons_self
      have hvalue := hcolour run List.mem_cons_self
      rw [total_cons] at hfilled
      unfold imageExtentMaximum at hwidth
      rw [List.flatMap_cons, List.append_assoc] at h
      have hrest : source.drop (place + imageRunBytes) = row.flatMap runBytes ++ rest := by
        rw [← List.drop_drop, h, ← length_runBytes run, List.drop_left]
      rw [imageParseRow_run (by omega) (by omega) (by omega) h, if_neg (by omega),
        ih (fun other hother ↦ hpositive other (List.mem_cons_of_mem _ hother))
          (fun other hother ↦ hcolour other (List.mem_cons_of_mem _ hother)) (by omega) hrest,
        List.length_cons, Nat.succ_mul]
      congr 2 <;> omega

theorem imageParseRow_cases (hfilled : filled ≤ width) (hplace : place ≤ source.length) :
    imageParseRow source width filled place runs = .error .refused ∨
      ∃ row : List (Run ℕ), (∀ run ∈ row, 0 < run.count) ∧ (∀ run ∈ row, run.value < 16777216) ∧
        filled + total row = width ∧
        imageParseRow source width filled place runs =
          .ok (place + row.length * imageRunBytes, runs + row.length) ∧
        place + row.length * imageRunBytes ≤ source.length ∧
        source.drop place =
          row.flatMap runBytes ++ source.drop (place + row.length * imageRunBytes) := by
  induction hleft : width - filled using Nat.strongRecOn generalizing filled place runs with
  | ind left ih =>
      rcases Nat.lt_or_ge filled width with hlt | hge
      · by_cases hshort : source.length - place < imageRunBytes
        · left
          rw [imageParseRow, dif_pos hlt, if_pos hshort]
        · obtain ⟨run, ⟨hcount, hvalue⟩, hbytes⟩ :=
            @exists_runBytes source place (by omega)
          rw [imageParseRow_run hlt hcount hvalue hbytes]
          split_ifs with hbad
          · exact Or.inl rfl
          · rcases @ih (width - (filled + run.count)) (by omega) (place + imageRunBytes)
                (filled + run.count) (runs + 1) (by omega) (by omega) rfl with
              hrefused | ⟨row, hpositive, hcolour, htotal, hok, hend, hdrop⟩
            · exact Or.inl hrefused
            · have hplaces : place + imageRunBytes + row.length * imageRunBytes =
                  place + (run :: row).length * imageRunBytes := by
                rw [List.length_cons, Nat.succ_mul]
                omega
              rw [hplaces] at hok hend hdrop
              refine Or.inr ⟨run :: row, List.forall_mem_cons.mpr ⟨by omega, hpositive⟩,
                List.forall_mem_cons.mpr ⟨by omega, hcolour⟩, ?_, ?_, hend, ?_⟩
              · rw [total_cons]
                omega
              · rw [hok, List.length_cons]
                congr 2
                omega
              · rw [hbytes, hdrop, List.flatMap_cons, List.append_assoc]
      · refine Or.inr ⟨[], by simp, by simp, ?_, ?_, ?_, ?_⟩
        · rw [total_nil]
          omega
        · rw [imageParseRow, dif_neg (by omega), List.length_nil, Nat.zero_mul]
          rfl
        · rwa [List.length_nil, Nat.zero_mul]
        · rw [List.length_nil, Nat.zero_mul, List.flatMap_nil]
          rfl

theorem rowsBytes_cons (row : List (Run ℕ)) (rows : List (List (Run ℕ))) :
    rowsBytes (row :: rows) = row.flatMap runBytes ++ rowsBytes rows := by
  rw [rowsBytes, List.flatten_cons, List.flatMap_append]
  rfl

theorem imageParseRows_of_rows {rows : List (List (Run ℕ))} (hwidth : width ≤ imageExtentMaximum)
    (hrows : ∀ row ∈ rows, IsRow width row) (h : source.drop place = rowsBytes rows ++ rest) :
    imageParseRows source width rows.length place runs =
      .ok (place + rows.flatten.length * imageRunBytes, runs + rows.flatten.length) := by
  induction rows generalizing place runs with
  | nil => simp [imageParseRows]
  | cons row rows ih =>
      obtain ⟨hrow, hlater⟩ := List.forall_mem_cons.mp hrows
      rw [rowsBytes_cons, List.append_assoc] at h
      have hrest : source.drop (place + row.length * imageRunBytes) = rowsBytes rows ++ rest := by
        rw [← List.drop_drop, h, ← length_flatMap_of_size length_runBytes, List.drop_left]
      rw [List.length_cons, imageParseRows,
        imageParseRow_of_row hwidth hrow.positive hrow.colour (by rw [hrow.filled, Nat.zero_add]) h]
      simp only [bind, Except.bind]
      rw [ih hlater hrest, List.flatten_cons, List.length_append, Nat.add_mul, Nat.add_assoc,
        Nat.add_assoc]

theorem imageParseRows_cases (count : ℕ) (hplace : place ≤ source.length) :
    imageParseRows source width count place runs = .error .refused ∨
      ∃ rows : List (List (Run ℕ)), rows.length = count ∧ (∀ row ∈ rows, IsRow width row) ∧
        imageParseRows source width count place runs =
          .ok (place + rows.flatten.length * imageRunBytes, runs + rows.flatten.length) ∧
        place + rows.flatten.length * imageRunBytes ≤ source.length ∧
        source.drop place =
          rowsBytes rows ++ source.drop (place + rows.flatten.length * imageRunBytes) := by
  induction count generalizing place runs with
  | zero =>
      refine Or.inr ⟨[], rfl, by simp, ?_⟩
      rw [List.flatten_nil, List.length_nil, Nat.zero_mul]
      exact ⟨rfl, hplace, rfl⟩
  | succ count ih =>
      rw [imageParseRows]
      rcases @imageParseRow_cases source place width 0 runs (Nat.zero_le _) hplace with
        hrefused | ⟨row, hpositive, hcolour, htotal, hok, hend, hdrop⟩
      · left
        rw [hrefused]
        rfl
      · rw [hok]
        simp only [bind, Except.bind]
        rcases @ih (place + row.length * imageRunBytes) (runs + row.length) hend with
          hrefused | ⟨rows, hlength, hrows, hok', hend', hdrop'⟩
        · exact Or.inl hrefused
        · have hplaces : place + row.length * imageRunBytes + rows.flatten.length * imageRunBytes =
              place + (row :: rows).flatten.length * imageRunBytes := by
            rw [List.flatten_cons, List.length_append, Nat.add_mul, Nat.add_assoc]
          rw [hplaces] at hok' hend' hdrop'
          rw [Nat.zero_add] at htotal
          refine Or.inr ⟨row :: rows, by rw [List.length_cons, hlength],
            List.forall_mem_cons.mpr ⟨⟨hpositive, hcolour, htotal⟩, hrows⟩, ?_, hend', ?_⟩
          · rw [hok', List.flatten_cons, List.length_append, Nat.add_assoc]
          · rw [hdrop, hdrop', rowsBytes_cons, List.append_assoc]

theorem oxysImageParse_bytes (picture : RunPicture) :
    oxysImageParse picture.bytes = .ok picture.image := by
  have hwidthPos := picture.width_pos
  have hwidthLe := picture.width_le
  have hheightPos := picture.height_pos
  have hheightLe := picture.height_le
  unfold imageExtentMaximum at hwidthLe hheightLe
  have hwidth : picture.bytes.drop 8 =
      halfBytes picture.width ++ (halfBytes picture.rows.length ++ rowsBytes picture.rows) := rfl
  have hheight : picture.bytes.drop 10 =
      halfBytes picture.rows.length ++ rowsBytes picture.rows := rfl
  have hrest : picture.bytes.drop 12 = rowsBytes picture.rows ++ [] := by
    rw [List.append_nil]
    rfl
  have hsize : (rowsBytes picture.rows).length = picture.rows.flatten.length * imageRunBytes :=
    length_flatMap_of_size length_runBytes
  have hlength : picture.bytes.length = 12 + picture.rows.flatten.length * imageRunBytes := by
    rw [← hsize]
    exact Nat.add_comm _ 12
  have hheader : ¬(picture.bytes.length < imageHeaderBytes ∨ picture.bytes.take 4 ≠ imageMagic ∨
      picture.bytes[4]? ≠ some imageVersion ∨ picture.bytes[5]? ≠ some 0 ∨
        picture.bytes[6]? ≠ some 0 ∨ picture.bytes[7]? ≠ some 0) := by
    rintro (hshort | hmagic | hversion | hreserved | hreserved | hreserved)
    · unfold imageHeaderBytes at hshort
      omega
    · exact hmagic rfl
    · exact hversion rfl
    · exact hreserved rfl
    · exact hreserved rfl
    · exact hreserved rfl
  have hrows := @imageParseRows_of_rows picture.bytes [] 12 picture.width 0 picture.rows
    picture.width_le picture.isRow hrest
  rw [oxysImageParse, if_neg hheader, imageHalf_of_halfBytes (by omega) hwidth,
    imageHalf_of_halfBytes (by omega) hheight]
  simp only [bind, Except.bind]
  rw [if_neg (by unfold imageExtentMaximum; omega), imageHeaderBytes, hrows]
  dsimp only
  rw [if_neg (by rw [hlength]; simp), Nat.zero_add]
  rfl

theorem header_of_checks (hlength : imageHeaderBytes ≤ source.length)
    (hmagic : source.take 4 = imageMagic) (hversion : source[4]? = some imageVersion)
    (hreserved : source[5]? = some 0 ∧ source[6]? = some 0 ∧ source[7]? = some 0) :
    ∃ width < 65536, ∃ height < 65536,
      source = imageMagic ++ [imageVersion, 0, 0, 0] ++ halfBytes width ++ halfBytes height ++
        source.drop imageHeaderBytes := by
  match source, hlength with
  | m₀ :: m₁ :: m₂ :: m₃ :: v :: r₀ :: r₁ :: r₂ :: w₀ :: w₁ :: h₀ :: h₁ :: rest, _ =>
      obtain ⟨width, hwidth, hwidthBytes⟩ := @exists_halfBytes [w₀, w₁] rfl
      obtain ⟨height, hheight, hheightBytes⟩ := @exists_halfBytes [h₀, h₁] rfl
      refine ⟨width, hwidth, height, hheight, ?_⟩
      rw [← hmagic, ← hwidthBytes, ← hheightBytes]
      simp only [List.getElem?_cons_succ, List.getElem?_cons_zero, Option.some.injEq]
        at hversion hreserved
      obtain ⟨rfl, rfl, rfl⟩ := hreserved
      rw [hversion]
      rfl

theorem oxysImageParse_cases (source : List UInt8) :
    oxysImageParse source = .error .refused ∨ ∃ picture : RunPicture, source = picture.bytes := by
  by_cases hheader : source.length < imageHeaderBytes ∨ source.take 4 ≠ imageMagic ∨
      source[4]? ≠ some imageVersion ∨ source[5]? ≠ some 0 ∨ source[6]? ≠ some 0 ∨
        source[7]? ≠ some 0
  · left
    rw [oxysImageParse, if_pos hheader]
  have hchecks := hheader
  simp only [not_or, not_not, not_lt] at hchecks
  obtain ⟨hlength, hmagic, hversion, hreserved⟩ := hchecks
  obtain ⟨width, hwidth, height, hheight, hsource⟩ :=
    header_of_checks hlength hmagic hversion hreserved
  have hwidthBytes : source.drop 8 =
      halfBytes width ++ (halfBytes height ++ source.drop imageHeaderBytes) := by
    rw [hsource]
    rfl
  have hheightBytes : source.drop 10 = halfBytes height ++ source.drop imageHeaderBytes := by
    rw [hsource]
    rfl
  rw [oxysImageParse, if_neg hheader, imageHalf_of_halfBytes hwidth hwidthBytes,
    imageHalf_of_halfBytes hheight hheightBytes]
  simp only [bind, Except.bind]
  split_ifs with hextent
  · exact Or.inl rfl
  · rcases @imageParseRows_cases source imageHeaderBytes width 0 height hlength with
      hrefused | ⟨rows, rfl, hrows, hok, hend, hdrop⟩
    · left
      rw [hrefused]
    · rw [hok]
      dsimp only
      split_ifs with hleft
      · exact Or.inl rfl
      · right
        have hall : source.drop (imageHeaderBytes + rows.flatten.length * imageRunBytes) = [] := by
          apply List.drop_eq_nil_of_le
          omega
        rw [hall, List.append_nil] at hdrop
        refine ⟨⟨width, rows, by omega, by omega, by omega, by omega, hrows⟩, ?_⟩
        rw [hdrop] at hsource
        exact hsource

theorem oxysImageParse_eq_ok_iff {source : List UInt8} {image : OxysImage} :
    oxysImageParse source = .ok image ↔
      ∃ picture : RunPicture, source = picture.bytes ∧ image = picture.image := by
  constructor
  · intro h
    rcases oxysImageParse_cases source with hrefused | ⟨picture, rfl⟩
    · rw [hrefused] at h
      cases h
    · rw [oxysImageParse_bytes] at h
      exact ⟨picture, rfl, (Except.ok.inj h).symm⟩
  · rintro ⟨picture, rfl, rfl⟩
    exact oxysImageParse_bytes picture

theorem oxysImageParse_ne_outside (source : List UInt8) :
    oxysImageParse source ≠ .error .outside := by
  rcases oxysImageParse_cases source with hrefused | ⟨picture, rfl⟩
  · rw [hrefused]
    simp
  · rw [oxysImageParse_bytes]
    simp

end OxysOS.Libc
