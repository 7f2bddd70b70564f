import OxysOS.Libc.Image
import OxysOS.Library.Boxes

/-!
# Images drawn to a screen

`libc/image/image.c`, the scaler: a parsed image is drawn to cover a screen row by row, and decoded
forwards as it is needed.  The rows that come are those of the whole picture, decoded, cut to a crop
in its middle, and averaged in boxes.
-/

namespace OxysOS.Libc

open OxysOS.Library

/-- `(uint32_t)` -/
def imageWord32 (value : ℕ) : ℕ := value % 4294967296

/-- `OxysImageScaler`.  The sums are by the channel and the column. -/
structure OxysImageScaler where
  image : OxysImage
  width : ℕ
  height : ℕ
  cropX : ℕ
  cropY : ℕ
  cropWidth : ℕ
  cropHeight : ℕ
  row : ℕ
  nextRun : ℕ
  nextRow : ℕ
  decodedRow : ℕ
  decodedValid : Bool
  columnStart : ℕ → ℕ
  decoded : ℕ → ℕ
  sum : ℕ → ℕ → ℕ

def imageCropExtent (across screenAlong screenAcross most : ℕ) : ℕ :=
  let extent := imageWord32 ((across * screenAlong + screenAcross / 2) / screenAcross)
  let extent := if extent = 0 then 1 else extent
  if extent > most then most else extent

/-- `OxysImageScalerBegin`, in memory that holds anything. -/
def oxysImageScalerBegin (scaler : OxysImageScaler) (image : OxysImage) (width height : ℕ) :
    Except ImageFault OxysImageScaler :=
  if image.width = 0 ∨ image.height = 0 ∨ width = 0 ∨ height = 0 ∨ width > imageExtentMaximum ∨
      height > imageExtentMaximum then
    .error .refused
  else
    let covers := width * image.height ≥ height * image.width
    let cropWidth :=
      if covers then image.width else imageCropExtent image.height width height image.width
    let cropHeight :=
      if covers then imageCropExtent image.width height width image.height else image.height
    let cropX := (image.width - cropWidth) / 2
    .ok
      { scaler with
        image, width, height, cropWidth, cropHeight, cropX
        cropY := (image.height - cropHeight) / 2
        columnStart := fun column ↦
          if column ≤ width then cropX + imageWord32 (column * cropWidth / width)
          else scaler.columnStart column
        row := 0
        nextRun := 0
        nextRow := 0
        decodedRow := 0
        decodedValid := false }

def imageDecodeRow (image : OxysImage) (nextRun filled : ℕ) (decoded : ℕ → ℕ) :
    Except ImageFault (ℕ × (ℕ → ℕ)) :=
  if filled < image.width then
    if nextRun < image.runCount then do
      let length ← imageHalf image.runs (nextRun * imageRunBytes)
      let pixel ← imageWord image.runs (nextRun * imageRunBytes + 2)
      if filled + length > imageExtentMaximum then .error .outside
      else
        imageDecodeRow image (nextRun + 1) (filled + length) fun place ↦
          if filled ≤ place ∧ place < filled + length then pixel else decoded place
    else .error .outside
  else .ok (nextRun, decoded)
termination_by image.runCount - nextRun

def imageDecodeRows : ℕ → OxysImageScaler → Except ImageFault OxysImageScaler
  | 0, scaler => .ok scaler
  | rows + 1, scaler => do
      let (nextRun, decoded) ← imageDecodeRow scaler.image scaler.nextRun 0 scaler.decoded
      imageDecodeRows rows
        { scaler with
          nextRun, decoded
          decodedRow := scaler.nextRow
          decodedValid := true
          nextRow := scaler.nextRow + 1 }

def imageDecodeTo (scaler : OxysImageScaler) (row : ℕ) : Except ImageFault OxysImageScaler :=
  if scaler.decodedValid ∧ scaler.decodedRow = row then .ok scaler
  else imageDecodeRows (row + 1 - scaler.nextRow) scaler

def imageChannel (pixel channel : ℕ) : ℕ := pixel >>> (16 - 8 * channel) &&& 0xFF

def imageColumns (scaler : OxysImageScaler) (column : ℕ) : ℕ × ℕ :=
  let start := scaler.columnStart column
  let stop := scaler.columnStart (column + 1)
  (start, if stop ≤ start then start + 1 else stop)

def imageSumPixel (column : ℕ) (scaler : OxysImageScaler) (place : ℕ) :
    Except ImageFault OxysImageScaler :=
  if place < scaler.image.width then
    .ok
      { scaler with
        sum := fun channel other ↦
          if channel < 3 ∧ other = column then
            (scaler.sum channel other + imageChannel (scaler.decoded place) channel) %
              18446744073709551616
          else scaler.sum channel other }
  else .error .outside

def imageSumColumn (scaler : OxysImageScaler) (column : ℕ) : Except ImageFault OxysImageScaler :=
  let (start, stop) := imageColumns scaler column
  (List.range' start (stop - start)).foldlM (imageSumPixel column) scaler

def imageSumRow (scaler : OxysImageScaler) (row : ℕ) : Except ImageFault OxysImageScaler := do
  let scaler ← imageDecodeTo scaler row
  (List.range scaler.width).foldlM imageSumColumn scaler

def imageClearSums (scaler : OxysImageScaler) : OxysImageScaler :=
  { scaler with
    sum := fun channel column ↦
      if channel < 3 ∧ column < scaler.width then 0 else scaler.sum channel column }

def imagePixel (scaler : OxysImageScaler) (rows column : ℕ) : ℕ :=
  let (start, stop) := imageColumns scaler column
  let area := (stop - start) * rows
  imageWord32 (((scaler.sum 0 column + area / 2) / area) <<< 16) |||
    imageWord32 (((scaler.sum 1 column + area / 2) / area) <<< 8) |||
      imageWord32 ((scaler.sum 2 column + area / 2) / area)

def oxysImageScalerRow (scaler : OxysImageScaler) :
    Except ImageFault (List ℕ × OxysImageScaler) :=
  if scaler.row ≥ scaler.height then .error .refused
  else do
    let first := scaler.cropY + imageWord32 (scaler.row * scaler.cropHeight / scaler.height)
    let last := scaler.cropY + imageWord32 ((scaler.row + 1) * scaler.cropHeight / scaler.height)
    let last := if last ≤ first then first + 1 else last
    let summed ← (List.range' first (last - first)).foldlM imageSumRow (imageClearSums scaler)
    return ((List.range summed.width).map (imagePixel summed (last - first)),
      { summed with row := summed.row + 1 })

def imageScalerRows : ℕ → OxysImageScaler → Except ImageFault (List (List ℕ) × OxysImageScaler)
  | 0, scaler => .ok ([], scaler)
  | count + 1, scaler => do
      let (pixels, scaler) ← oxysImageScalerRow scaler
      let (rows, scaler) ← imageScalerRows count scaler
      return (pixels :: rows, scaler)

/-! ## The picture as it should be drawn -/

structure ImageCrop where
  x : ℕ
  y : ℕ
  width : ℕ
  height : ℕ

def RunPicture.pixels (picture : RunPicture) : List (List ℕ) := picture.rows.map expand

def RunPicture.pixelAt (picture : RunPicture) (row column : ℕ) : ℕ :=
  ((picture.pixels[row]?.getD [])[column]?).getD 0

def RunPicture.crop (picture : RunPicture) (width height : ℕ) : ImageCrop :=
  if height * picture.width ≤ width * picture.rows.length then
    let cropHeight := min picture.rows.length (max 1 (roundedQuotient (picture.width * height) width))
    ⟨0, (picture.rows.length - cropHeight) / 2, picture.width, cropHeight⟩
  else
    let cropWidth :=
      min picture.width (max 1 (roundedQuotient (picture.rows.length * width) height))
    ⟨(picture.width - cropWidth) / 2, 0, cropWidth, picture.rows.length⟩

def boxPlaces (origin extent places place : ℕ) : List ℕ :=
  List.range' (origin + boxStart extent places place)
    (boxEnd extent places place - boxStart extent places place)

def RunPicture.mean (picture : RunPicture) (crop : ImageCrop)
    (width height row column channel : ℕ) : ℕ :=
  let rows := boxPlaces crop.y crop.height height row
  let columns := boxPlaces crop.x crop.width width column
  roundedQuotient
    (rows.map fun y ↦ (columns.map fun x ↦ imageChannel (picture.pixelAt y x) channel).sum).sum
    (columns.length * rows.length)

def RunPicture.scaledRow (picture : RunPicture) (crop : ImageCrop) (width height row : ℕ) :
    List ℕ :=
  (List.range width).map fun column ↦
    65536 * picture.mean crop width height row column 0 +
      256 * picture.mean crop width height row column 1 +
        picture.mean crop width height row column 2

def RunPicture.scaled (picture : RunPicture) (width height : ℕ) : List (List ℕ) :=
  (List.range height).map (picture.scaledRow (picture.crop width height) width height)

/-! ## Rows that are decoded -/

variable {picture : RunPicture} {scaler scaler' scaler'' : OxysImageScaler}
  {next nextRun filled row column width height : ℕ}

theorem run_of_drop {run : Run ℕ} {rest : List (Run ℕ)}
    (hrun : picture.rows.flatten.drop nextRun = run :: rest)
    (hcount : run.count < 65536) (hvalue : run.value < 4294967296) :
    nextRun < picture.image.runCount ∧
      imageHalf picture.image.runs (nextRun * imageRunBytes) = .ok run.count ∧
        imageWord picture.image.runs (nextRun * imageRunBytes + 2) = .ok run.value := by
  have hlength := congrArg List.length hrun
  rw [List.length_drop, List.length_cons] at hlength
  have hbytes : picture.image.runs.drop (nextRun * imageRunBytes) =
      halfBytes run.count ++ (wordBytes run.value ++ rest.flatMap runBytes) := by
    rw [RunPicture.image, rowsBytes, drop_flatMap_of_size length_runBytes, hrun,
      List.flatMap_cons, runBytes, List.append_assoc]
  have hpixel : picture.image.runs.drop (nextRun * imageRunBytes + 2) =
      wordBytes run.value ++ rest.flatMap runBytes := by
    rw [← List.drop_drop, hbytes]
    rfl
  refine ⟨?_, imageHalf_of_halfBytes hcount hbytes, imageWord_of_wordBytes hvalue hpixel⟩
  rw [RunPicture.image_runCount]
  omega

theorem imageDecodeRow_eq {runs rest : List (Run ℕ)}
    (hruns : picture.rows.flatten.drop nextRun = runs ++ rest)
    (hpositive : ∀ run ∈ runs, 0 < run.count) (hcolour : ∀ run ∈ runs, run.value < 16777216)
    (hfilled : filled + total runs = picture.width) (decoded : ℕ → ℕ) :
    imageDecodeRow picture.image nextRun filled decoded =
      .ok (nextRun + runs.length, fun place ↦
        if filled ≤ place ∧ place < picture.width then (expand runs)[place - filled]?.getD 0
        else decoded place) := by
  induction runs generalizing nextRun filled decoded with
  | nil =>
      rw [total_nil, Nat.add_zero] at hfilled
      have hnone : ∀ place, ¬(filled ≤ place ∧ place < picture.width) := fun place ↦ by omega
      rw [imageDecodeRow, if_neg (by rw [RunPicture.image_width]; omega)]
      simp only [hnone, if_false, List.length_nil, Nat.add_zero]
  | cons run runs ih =>
      obtain ⟨hcount, hlater⟩ := List.forall_mem_cons.mp hpositive
      obtain ⟨hvalue, hlaterColour⟩ := List.forall_mem_cons.mp hcolour
      have hwidth := picture.width_le
      unfold imageExtentMaximum at hwidth
      rw [total_cons] at hfilled
      obtain ⟨hless, hhalf, hword⟩ := run_of_drop hruns (by omega) (by omega)
      have hrest : picture.rows.flatten.drop (nextRun + 1) = runs ++ rest := by
        rw [← List.drop_drop, hruns]
        rfl
      rw [imageDecodeRow, if_pos (by rw [RunPicture.image_width]; omega), if_pos hless, hhalf, hword]
      simp only [bind, Except.bind]
      rw [if_neg (by unfold imageExtentMaximum; omega),
        ih hrest hlater hlaterColour (by omega), List.length_cons]
      congr 2
      · omega
      · funext place
        -- a place is of this run, of one after it, or of none
        by_cases hthis : filled ≤ place ∧ place < filled + run.count
        · rw [if_neg (by omega), if_pos hthis, if_pos (by omega), expand_cons,
            List.getElem?_append_left (by rw [List.length_replicate]; omega),
            List.getElem?_replicate_of_lt (by omega), Option.getD_some]
        · by_cases hlaterRun : filled + run.count ≤ place ∧ place < picture.width
          · rw [if_pos hlaterRun, if_pos (by omega), expand_cons,
              List.getElem?_append_right (by rw [List.length_replicate]; omega),
              List.length_replicate, Nat.sub_sub]
          · rw [if_neg hlaterRun, if_neg hthis, if_neg (by omega)]

structure SameScreen (scaler scaler' : OxysImageScaler) : Prop where
  width : scaler'.width = scaler.width
  height : scaler'.height = scaler.height
  cropX : scaler'.cropX = scaler.cropX
  cropY : scaler'.cropY = scaler.cropY
  cropWidth : scaler'.cropWidth = scaler.cropWidth
  cropHeight : scaler'.cropHeight = scaler.cropHeight
  row : scaler'.row = scaler.row
  columnStart : scaler'.columnStart = scaler.columnStart

theorem SameScreen.refl (scaler : OxysImageScaler) : SameScreen scaler scaler :=
  ⟨rfl, rfl, rfl, rfl, rfl, rfl, rfl, rfl⟩

theorem SameScreen.trans (h : SameScreen scaler scaler') (h' : SameScreen scaler' scaler'') :
    SameScreen scaler scaler'' :=
  ⟨h'.width.trans h.width, h'.height.trans h.height, h'.cropX.trans h.cropX,
    h'.cropY.trans h.cropY, h'.cropWidth.trans h.cropWidth, h'.cropHeight.trans h.cropHeight,
    h'.row.trans h.row, h'.columnStart.trans h.columnStart⟩

structure ReadsTo (picture : RunPicture) (scaler : OxysImageScaler) (next : ℕ) : Prop where
  image : scaler.image = picture.image
  nextRow : scaler.nextRow = next
  within : next ≤ picture.rows.length
  nextRun : scaler.nextRun = (picture.rows.take next).flatten.length
  valid : scaler.decodedValid = true ↔ 0 < next
  decodedRow : 0 < next → scaler.decodedRow + 1 = next
  decoded : ∀ row, row + 1 = next → ∀ column < picture.width,
    scaler.decoded column = picture.pixelAt row column

theorem pixelAt_of_getElem? {runs : List (Run ℕ)} (h : picture.rows[row]? = some runs)
    (column : ℕ) : picture.pixelAt row column = (expand runs)[column]?.getD 0 := by
  rw [RunPicture.pixelAt, RunPicture.pixels, List.getElem?_map, h]
  rfl

theorem ReadsTo.decodeRow (h : ReadsTo picture scaler next)
    (hnext : next < picture.rows.length) :
    ∃ nextRun decoded,
      imageDecodeRow scaler.image scaler.nextRun 0 scaler.decoded = .ok (nextRun, decoded) ∧
        ReadsTo picture
          { scaler with
            nextRun, decoded
            decodedRow := scaler.nextRow
            decodedValid := true
            nextRow := scaler.nextRow + 1 } (next + 1) := by
  have hrow := picture.isRow picture.rows[next] (List.getElem_mem hnext)
  have hruns : picture.rows.flatten.drop scaler.nextRun =
      picture.rows[next] ++ (picture.rows.drop (next + 1)).flatten := by
    have hsplit : picture.rows.flatten =
        (picture.rows.take next).flatten ++ (picture.rows.drop next).flatten := by
      rw [← List.flatten_append, List.take_append_drop]
    rw [h.nextRun, hsplit, List.drop_left, List.drop_eq_getElem_cons hnext, List.flatten_cons]
  have hdecode := imageDecodeRow_eq hruns hrow.positive hrow.colour
    (by rw [hrow.filled, Nat.zero_add]) scaler.decoded
  rw [← h.image] at hdecode
  refine ⟨_, _, hdecode, h.image, congrArg (· + 1) h.nextRow, hnext, ?_,
    iff_of_true rfl (Nat.succ_pos next), fun _ ↦ congrArg (· + 1) h.nextRow, ?_⟩
  · dsimp only
    rw [h.nextRun, List.take_succ_eq_append_getElem hnext, List.flatten_append,
      List.length_append, List.flatten_singleton]
  · intro row hrow column hcolumn
    dsimp only
    obtain rfl : row = next := by omega
    rw [if_pos ⟨Nat.zero_le _, hcolumn⟩, Nat.sub_zero,
      pixelAt_of_getElem? (List.getElem?_eq_getElem hnext)]

theorem ReadsTo.decodeRows {count : ℕ} (h : ReadsTo picture scaler next)
    (hcount : next + count ≤ picture.rows.length) :
    ∃ scaler', imageDecodeRows count scaler = .ok scaler' ∧
      ReadsTo picture scaler' (next + count) ∧ SameScreen scaler scaler' ∧
        scaler'.sum = scaler.sum := by
  induction count generalizing scaler next with
  | zero => exact ⟨scaler, rfl, h, SameScreen.refl scaler, rfl⟩
  | succ count ih =>
      obtain ⟨nextRun, decoded, hrow, hreads⟩ := h.decodeRow (by omega)
      obtain ⟨scaler', hrows, hreads', hsame, hsum⟩ := ih hreads (by omega)
      refine ⟨scaler', ?_, ?_, ?_, hsum⟩
      · rw [imageDecodeRows, hrow]
        exact hrows
      · rwa [Nat.add_right_comm] at hreads'
      · exact ⟨hsame.width, hsame.height, hsame.cropX, hsame.cropY, hsame.cropWidth,
          hsame.cropHeight, hsame.row, hsame.columnStart⟩

theorem ReadsTo.decodeTo (h : ReadsTo picture scaler next) (hrow : row < picture.rows.length)
    (hforward : next ≤ row + 1) :
    ∃ scaler', imageDecodeTo scaler row = .ok scaler' ∧ ReadsTo picture scaler' (row + 1) ∧
      SameScreen scaler scaler' ∧ scaler'.sum = scaler.sum := by
  rw [imageDecodeTo]
  split_ifs with hdecoded
  · have hnext := h.decodedRow (h.valid.mp hdecoded.1)
    rw [hdecoded.2] at hnext
    rw [← hnext] at h
    exact ⟨scaler, rfl, h, SameScreen.refl scaler, rfl⟩
  · rw [h.nextRow]
    have hend : next + (row + 1 - next) = row + 1 := by omega
    obtain ⟨scaler', hrows, hreads, hsame⟩ := @ReadsTo.decodeRows picture scaler next
      (row + 1 - next) h (by omega)
    rw [hend] at hreads
    exact ⟨scaler', hrows, hreads, hsame⟩

/-! ## Sums -/

def summedPlaces (scaler : OxysImageScaler) (column : ℕ) : List ℕ :=
  List.range' (imageColumns scaler column).1
    ((imageColumns scaler column).2 - (imageColumns scaler column).1)

def channelSum (decoded : ℕ → ℕ) (places : List ℕ) (channel : ℕ) : ℕ :=
  (places.map fun place ↦ imageChannel (decoded place) channel).sum

theorem imageChannel_le (pixel channel : ℕ) : imageChannel pixel channel ≤ 255 :=
  Nat.and_le_right

theorem channelSum_le (decoded : ℕ → ℕ) (places : List ℕ) (channel : ℕ) :
    channelSum decoded places channel ≤ 255 * places.length :=
  sum_map_le_mul fun _ _ ↦ imageChannel_le _ _

theorem foldlM_imageSumPixel {places : List ℕ}
    (hplaces : ∀ place ∈ places, place < scaler.image.width)
    (hroom : ∀ channel < 3,
      scaler.sum channel column + 255 * places.length < 18446744073709551616) :
    places.foldlM (imageSumPixel column) scaler = .ok
      { scaler with
        sum := fun channel other ↦
          if channel < 3 ∧ other = column then
            scaler.sum channel other + channelSum scaler.decoded places channel
          else scaler.sum channel other } := by
  induction places generalizing scaler with
  | nil =>
      simp only [List.foldlM_nil, channelSum, List.map_nil, List.sum_nil, Nat.add_zero, ite_self]
      rfl
  | cons place places ih =>
      obtain ⟨hplace, hlater⟩ := List.forall_mem_cons.mp hplaces
      rw [List.foldlM_cons, imageSumPixel, if_pos hplace]
      simp only [bind, Except.bind]
      rw [List.length_cons] at hroom
      have hadded : ∀ channel < 3,
          (scaler.sum channel column + imageChannel (scaler.decoded place) channel) %
              18446744073709551616 =
            scaler.sum channel column + imageChannel (scaler.decoded place) channel := by
        intro channel hchannel
        have hmost := hroom channel hchannel
        have hbyte := imageChannel_le (scaler.decoded place) channel
        exact Nat.mod_eq_of_lt (by omega)
      refine (ih ?_ ?_).trans ?_
      · exact hlater
      · intro channel hchannel
        have hmost := hroom channel hchannel
        have hbyte := imageChannel_le (scaler.decoded place) channel
        simp only [hchannel, and_self, if_true, hadded channel hchannel]
        omega
      · congr 2
        funext channel other
        by_cases hsummed : channel < 3 ∧ other = column
        · obtain ⟨hchannel, rfl⟩ := hsummed
          simp only [hchannel, and_self, if_true, hadded channel hchannel, channelSum,
            List.map_cons, List.sum_cons, Nat.add_assoc]
        · simp only [hsummed, if_false]

theorem foldlM_imageSumColumn {count : ℕ}
    (hplaces : ∀ column < count, ∀ place ∈ summedPlaces scaler column, place < scaler.image.width)
    (hroom : ∀ channel < 3, ∀ column < count, scaler.sum channel column +
      255 * (summedPlaces scaler column).length < 18446744073709551616) :
    (List.range count).foldlM imageSumColumn scaler = .ok
      { scaler with
        sum := fun channel column ↦
          if channel < 3 ∧ column < count then
            scaler.sum channel column +
              channelSum scaler.decoded (summedPlaces scaler column) channel
          else scaler.sum channel column } := by
  induction count with
  | zero =>
      simp only [List.range_zero, List.foldlM_nil, Nat.not_lt_zero, and_false, if_false]
      rfl
  | succ count ih =>
      rw [List.range_succ, List.foldlM_append,
        ih (fun column hcolumn ↦ hplaces column (by omega))
          fun channel hchannel column hcolumn ↦ hroom channel hchannel column (by omega)]
      simp only [List.foldlM_cons, List.foldlM_nil, bind_pure]
      change (summedPlaces scaler count).foldlM (imageSumPixel count) _ = _
      refine (foldlM_imageSumPixel ?_ ?_).trans ?_
      · exact hplaces count (Nat.lt_succ_self count)
      · intro channel hchannel
        simp only [Nat.lt_irrefl, and_false, if_false]
        exact hroom channel hchannel count (Nat.lt_succ_self count)
      · congr 2
        funext channel column
        -- a column is the last of these, one before it, or none of them
        by_cases hlast : channel < 3 ∧ column = count
        · obtain ⟨hchannel, rfl⟩ := hlast
          simp only [hchannel, and_self, if_true, Nat.lt_irrefl, and_false, if_false,
            Nat.lt_succ_self]
        · have hless : channel < 3 ∧ column < count + 1 ↔ channel < 3 ∧ column < count := by omega
          simp only [hlast, if_false, hless]

theorem SameScreen.summedPlaces_eq (h : SameScreen scaler scaler') (column : ℕ) :
    summedPlaces scaler' column = summedPlaces scaler column := by
  simp only [summedPlaces, imageColumns, h.columnStart]

theorem channelSum_congr {decoded decoded' : ℕ → ℕ} {places : List ℕ}
    (h : ∀ place ∈ places, decoded place = decoded' place) (channel : ℕ) :
    channelSum decoded places channel = channelSum decoded' places channel := by
  rw [channelSum, channelSum]
  apply congrArg List.sum
  exact List.map_congr_left fun place hplace ↦ by rw [h place hplace]

theorem ReadsTo.sumRow (h : ReadsTo picture scaler next) (hrow : row < picture.rows.length)
    (hforward : next ≤ row + 1)
    (hplaces : ∀ column < scaler.width, ∀ place ∈ summedPlaces scaler column,
      place < picture.width)
    (hroom : ∀ channel < 3, ∀ column < scaler.width, scaler.sum channel column +
      255 * (summedPlaces scaler column).length < 18446744073709551616) :
    ∃ scaler', imageSumRow scaler row = .ok scaler' ∧ ReadsTo picture scaler' (row + 1) ∧
      SameScreen scaler scaler' ∧
      scaler'.sum = fun channel column ↦
        if channel < 3 ∧ column < scaler.width then
          scaler.sum channel column +
            channelSum (picture.pixelAt row) (summedPlaces scaler column) channel
        else scaler.sum channel column := by
  obtain ⟨decoded, hdecode, hreads, hsame, hsum⟩ := h.decodeTo hrow hforward
  have himage : decoded.image.width = picture.width := by
    rw [hreads.image, RunPicture.image_width]
  have hrun : imageSumRow scaler row =
      (List.range decoded.width).foldlM imageSumColumn decoded := by
    rw [imageSumRow, hdecode]
    rfl
  rw [foldlM_imageSumColumn] at hrun
  · refine ⟨_, hrun, ?_, ?_, ?_⟩
    · exact ⟨hreads.image, hreads.nextRow, hreads.within, hreads.nextRun, hreads.valid,
        hreads.decodedRow, hreads.decoded⟩
    · exact ⟨hsame.width, hsame.height, hsame.cropX, hsame.cropY, hsame.cropWidth,
        hsame.cropHeight, hsame.row, hsame.columnStart⟩
    · funext channel column
      dsimp only
      rw [hsame.width, hsum, hsame.summedPlaces_eq]
      split_ifs with hin
      · rw [channelSum_congr fun place hplace ↦
          hreads.decoded row rfl place (hplaces column hin.2 place hplace)]
      · rfl
  · intro column hcolumn
    rw [hsame.width] at hcolumn
    rw [hsame.summedPlaces_eq, himage]
    exact hplaces column hcolumn
  · intro channel hchannel column hcolumn
    rw [hsame.width] at hcolumn
    rw [hsame.summedPlaces_eq, hsum]
    exact hroom channel hchannel column hcolumn

theorem ReadsTo.sumRows {first count : ℕ} (h : ReadsTo picture scaler next)
    (hrows : first + count ≤ picture.rows.length) (hforward : next ≤ first + 1)
    (hplaces : ∀ column < scaler.width, ∀ place ∈ summedPlaces scaler column,
      place < picture.width)
    (hroom : ∀ channel < 3, ∀ column < scaler.width, scaler.sum channel column +
      255 * (summedPlaces scaler column).length * count < 18446744073709551616) :
    ∃ scaler', (List.range' first count).foldlM imageSumRow scaler = .ok scaler' ∧
      (∃ next' ≤ max next (first + count), ReadsTo picture scaler' next') ∧
      SameScreen scaler scaler' ∧
      scaler'.sum = fun channel column ↦
        if channel < 3 ∧ column < scaler.width then
          scaler.sum channel column + ((List.range' first count).map fun row ↦
            channelSum (picture.pixelAt row) (summedPlaces scaler column) channel).sum
        else scaler.sum channel column := by
  induction count generalizing scaler next first with
  | zero =>
      refine ⟨scaler, rfl, ⟨next, Nat.le_max_left _ _, h⟩, SameScreen.refl scaler, ?_⟩
      funext channel column
      rw [List.range'_zero, List.map_nil, List.sum_nil, Nat.add_zero, ite_self]
  | succ count ih =>
      obtain ⟨after, hrow, hreads, hsame, hsum⟩ := @ReadsTo.sumRow picture scaler next first h
        (by omega) hforward hplaces (by
          intro channel hchannel column hcolumn
          have hmost := hroom channel hchannel column hcolumn
          rw [Nat.mul_succ] at hmost
          omega)
      obtain ⟨scaler', hrun, ⟨next', hnext', hreads'⟩, hsame', hsum'⟩ :=
        @ih after (first + 1) (first + 1) hreads (by omega) (by omega) (by
          intro column hcolumn
          rw [hsame.summedPlaces_eq]
          rw [hsame.width] at hcolumn
          exact hplaces column hcolumn) (by
          intro channel hchannel column hcolumn
          rw [hsame.width] at hcolumn
          have hmost := hroom channel hchannel column hcolumn
          have hadded := channelSum_le (picture.pixelAt first) (summedPlaces scaler column) channel
          rw [hsame.summedPlaces_eq, hsum]
          rw [Nat.mul_succ] at hmost
          simp only [hchannel, hcolumn, and_self, if_true]
          omega)
      refine ⟨scaler', ?_, ⟨next', by omega, hreads'⟩, hsame.trans hsame', ?_⟩
      · rw [List.range'_succ, List.foldlM_cons, hrow]
        exact hrun
      · rw [hsum']
        funext channel column
        rw [hsame.width, hsame.summedPlaces_eq, hsum]
        dsimp only
        split_ifs with hin
        · rw [List.range'_succ, List.map_cons, List.sum_cons, Nat.add_assoc]
        · rfl

/-! ## The crop -/

structure CropWithin (picture : RunPicture) (crop : ImageCrop) : Prop where
  width_pos : 0 < crop.width
  height_pos : 0 < crop.height
  right : crop.x + crop.width ≤ picture.width
  bottom : crop.y + crop.height ≤ picture.rows.length

def InMiddle (start extent whole : ℕ) : Prop := start = (whole - extent) / 2

theorem RunPicture.crop_within (picture : RunPicture) (width height : ℕ) :
    CropWithin picture (picture.crop width height) ∧
      InMiddle (picture.crop width height).x (picture.crop width height).width picture.width ∧
        InMiddle (picture.crop width height).y (picture.crop width height).height
          picture.rows.length := by
  have hwidth := picture.width_pos
  have hheight := picture.height_pos
  unfold InMiddle
  rw [RunPicture.crop]
  split_ifs
  · refine ⟨⟨hwidth, ?_, ?_, ?_⟩, ?_, rfl⟩ <;> dsimp only <;> omega
  · refine ⟨⟨?_, hheight, ?_, ?_⟩, rfl, ?_⟩ <;> dsimp only <;> omega

theorem imageCropExtent_eq {across screenAlong screenAcross most : ℕ}
    (hacross : across ≤ imageExtentMaximum) (hscreen : screenAlong ≤ imageExtentMaximum)
    (hwithin : screenAcross ≤ imageExtentMaximum) (hmost : 0 < most) :
    imageCropExtent across screenAlong screenAcross most =
      min most (max 1 (roundedQuotient (across * screenAlong) screenAcross)) := by
  unfold imageExtentMaximum at *
  have hproduct : across * screenAlong ≤ 4096 * 4096 := Nat.mul_le_mul hacross hscreen
  have hquotient : (across * screenAlong + screenAcross / 2) / screenAcross ≤
      across * screenAlong + screenAcross / 2 := Nat.div_le_self _ _
  rw [imageCropExtent, imageWord32, Nat.mod_eq_of_lt (by omega), add_half_div]
  generalize roundedQuotient (across * screenAlong) screenAcross = extent
  split_ifs <;> omega

theorem imageWord32_boxStart {extent places place : ℕ} (hplace : place ≤ places)
    (hextent : extent ≤ imageExtentMaximum) :
    imageWord32 (place * extent / places) = boxStart extent places place := by
  have hmost := @boxStart_le extent places place hplace
  unfold imageExtentMaximum at hextent
  exact Nat.mod_eq_of_lt (by rw [← boxStart]; omega)

/-! ## Boxes of the screen -/

variable {crop : ImageCrop}

theorem length_boxPlaces (origin extent places place : ℕ) :
    (boxPlaces origin extent places place).length =
      boxEnd extent places place - boxStart extent places place := by
  rw [boxPlaces, List.length_range']

theorem length_boxPlaces_pos (origin extent places place : ℕ) :
    0 < (boxPlaces origin extent places place).length := by
  have hstart := @boxStart_lt_boxEnd extent places place
  rw [length_boxPlaces]
  omega

theorem mem_boxPlaces {origin extent places place value : ℕ} (hextent : 0 < extent)
    (hplace : place < places) (h : value ∈ boxPlaces origin extent places place) :
    value < origin + extent := by
  have hend := boxEnd_le hextent hplace
  have hstart := @boxStart_lt_boxEnd extent places place
  rw [boxPlaces, List.mem_range'_1] at h
  omega

theorem length_boxPlaces_le {origin extent places place : ℕ} (hextent : 0 < extent)
    (hplace : place < places) : (boxPlaces origin extent places place).length ≤ extent := by
  have hend := boxEnd_le hextent hplace
  rw [length_boxPlaces]
  omega

theorem RunPicture.mean_le (picture : RunPicture) (crop : ImageCrop)
    (width height row column channel : ℕ) :
    picture.mean crop width height row column channel ≤ 255 := by
  unfold RunPicture.mean
  dsimp only
  apply roundedQuotient_le
  · exact Nat.mul_pos (length_boxPlaces_pos _ _ _ _) (length_boxPlaces_pos _ _ _ _)
  · rw [← Nat.mul_assoc]
    exact sum_map_le_mul fun y _ ↦ channelSum_le (picture.pixelAt y) _ channel

theorem pixel_of_channels {red green blue : ℕ} (hred : red ≤ 255) (hgreen : green ≤ 255)
    (hblue : blue ≤ 255) :
    imageWord32 (red <<< 16) ||| imageWord32 (green <<< 8) ||| imageWord32 blue =
      65536 * red + 256 * green + blue := by
  have hlow : blue ||| green <<< 8 = blue + 2 ^ 8 * green := or_shift 8 (by omega) green
  have hall : (blue + 2 ^ 8 * green) ||| red <<< 16 = blue + 2 ^ 8 * green + 2 ^ 16 * red :=
    or_shift 16 (by omega) red
  have hredShift : red <<< 16 = red * 2 ^ 16 := Nat.shiftLeft_eq _ _
  have hgreenShift : green <<< 8 = green * 2 ^ 8 := Nat.shiftLeft_eq _ _
  unfold imageWord32
  rw [Nat.mod_eq_of_lt (by omega), Nat.mod_eq_of_lt (by omega), Nat.mod_eq_of_lt (by omega),
    Nat.or_assoc, Nat.or_comm (green <<< 8), hlow, Nat.or_comm, hall]
  omega

def ColumnsOf (crop : ImageCrop) (width : ℕ) (scaler : OxysImageScaler) : Prop :=
  ∀ column ≤ width, scaler.columnStart column = crop.x + boxStart crop.width width column

theorem ColumnsOf.imageColumns_eq (h : ColumnsOf crop width scaler) (hcolumn : column < width) :
    imageColumns scaler column =
      (crop.x + boxStart crop.width width column, crop.x + boxEnd crop.width width column) := by
  rw [imageColumns, h column (by omega), h (column + 1) hcolumn, boxEnd]
  congr 1
  split_ifs <;> omega

theorem ColumnsOf.summedPlaces_eq (h : ColumnsOf crop width scaler) (hcolumn : column < width) :
    summedPlaces scaler column = boxPlaces crop.x crop.width width column := by
  rw [summedPlaces, h.imageColumns_eq hcolumn, boxPlaces]
  congr 1
  dsimp only
  omega

theorem ColumnsOf.imagePixel_eq (h : ColumnsOf crop width scaler) (hcolumn : column < width)
    (hsum : ∀ channel < 3, scaler.sum channel column =
      ((boxPlaces crop.y crop.height height row).map fun y ↦
        channelSum (picture.pixelAt y) (boxPlaces crop.x crop.width width column) channel).sum) :
    imagePixel scaler (boxPlaces crop.y crop.height height row).length column =
      65536 * picture.mean crop width height row column 0 +
        256 * picture.mean crop width height row column 1 +
          picture.mean crop width height row column 2 := by
  have harea : crop.x + boxEnd crop.width width column -
      (crop.x + boxStart crop.width width column) =
        (boxPlaces crop.x crop.width width column).length := by
    rw [length_boxPlaces]
    omega
  have hmean : ∀ channel < 3, (scaler.sum channel column +
      (boxPlaces crop.x crop.width width column).length *
          (boxPlaces crop.y crop.height height row).length / 2) /
        ((boxPlaces crop.x crop.width width column).length *
          (boxPlaces crop.y crop.height height row).length) =
      picture.mean crop width height row column channel := by
    intro channel hchannel
    rw [hsum channel hchannel, add_half_div]
    rfl
  rw [imagePixel, h.imageColumns_eq hcolumn]
  dsimp only
  rw [harea, hmean 0 (by omega), hmean 1 (by omega), hmean 2 (by omega)]
  exact pixel_of_channels (picture.mean_le _ _ _ _ _ _) (picture.mean_le _ _ _ _ _ _)
    (picture.mean_le _ _ _ _ _ _)

/-! ## Rows of the screen -/

structure Draws (picture : RunPicture) (crop : ImageCrop) (width height : ℕ)
    (scaler : OxysImageScaler) (row : ℕ) : Prop where
  reads : ∃ next ≤ crop.y + boxStart crop.height height row + 1, ReadsTo picture scaler next
  columns : ColumnsOf crop width scaler
  screenWidth : scaler.width = width
  screenHeight : scaler.height = height
  cropY : scaler.cropY = crop.y
  cropHeight : scaler.cropHeight = crop.height
  atRow : scaler.row = row

theorem Draws.scalerRow (h : Draws picture crop width height scaler row)
    (hcrop : CropWithin picture crop) (hrow : row < height) :
    ∃ scaler',
      oxysImageScalerRow scaler = .ok (picture.scaledRow crop width height row, scaler') ∧
        Draws picture crop width height scaler' (row + 1) := by
  have hpictureHeight := picture.height_le
  have hpictureWidth := picture.width_le
  have hright := hcrop.right
  have hbottom := hcrop.bottom
  obtain ⟨next, hnext, hreads⟩ := h.reads
  have hstart := @boxStart_lt_boxEnd crop.height height row
  have hend := @boxEnd_le crop.height height row hcrop.height_pos hrow
  have hforward := @boxEnd_le_succ_start crop.height height row
  have hmore := @boxStart_le_succ crop.height height row
  have hrows := length_boxPlaces crop.y crop.height height row
  -- the rows of the box, as the code computes them
  have hfirst : scaler.cropY + imageWord32 (scaler.row * scaler.cropHeight / scaler.height) =
      crop.y + boxStart crop.height height row := by
    rw [h.cropY, h.atRow, h.cropHeight, h.screenHeight, imageWord32_boxStart (by omega) (by omega)]
  have hlast :
      scaler.cropY + imageWord32 ((scaler.row + 1) * scaler.cropHeight / scaler.height) =
        crop.y + boxStart crop.height height (row + 1) := by
    rw [h.cropY, h.atRow, h.cropHeight, h.screenHeight, imageWord32_boxStart (by omega) (by omega)]
  have hcount : (if crop.y + boxStart crop.height height (row + 1) ≤
        crop.y + boxStart crop.height height row then crop.y + boxStart crop.height height row + 1
      else crop.y + boxStart crop.height height (row + 1)) -
      (crop.y + boxStart crop.height height row) =
        (boxPlaces crop.y crop.height height row).length := by
    rw [hrows, boxEnd]
    split_ifs <;> omega
  have hcleared : ReadsTo picture (imageClearSums scaler) next :=
    ⟨hreads.image, hreads.nextRow, hreads.within, hreads.nextRun, hreads.valid,
      hreads.decodedRow, hreads.decoded⟩
  have hcolumns : ColumnsOf crop width (imageClearSums scaler) := h.columns
  have hwidth : (imageClearSums scaler).width = width := h.screenWidth
  have hzero : ∀ channel < 3, ∀ column < width, (imageClearSums scaler).sum channel column = 0 :=
    fun channel hchannel column hcolumn ↦ if_pos ⟨hchannel, by rw [h.screenWidth]; exact hcolumn⟩
  have hplaces : ∀ column < (imageClearSums scaler).width,
      ∀ place ∈ summedPlaces (imageClearSums scaler) column, place < picture.width := by
    rw [hwidth]
    intro column hcolumn place hplace
    rw [hcolumns.summedPlaces_eq hcolumn] at hplace
    have hless := mem_boxPlaces hcrop.width_pos hcolumn hplace
    omega
  have hroom : ∀ channel < 3, ∀ column < (imageClearSums scaler).width,
      (imageClearSums scaler).sum channel column +
        255 * (summedPlaces (imageClearSums scaler) column).length *
          (boxPlaces crop.y crop.height height row).length < 18446744073709551616 := by
    rw [hwidth]
    intro channel hchannel column hcolumn
    rw [hcolumns.summedPlaces_eq hcolumn, hzero channel hchannel column hcolumn]
    unfold imageExtentMaximum at hpictureWidth hpictureHeight
    have hacross := @length_boxPlaces_le crop.x crop.width width column hcrop.width_pos hcolumn
    have hmost := Nat.mul_le_mul
      (show 255 * (boxPlaces crop.x crop.width width column).length ≤ 255 * 4096 by omega)
      (show (boxPlaces crop.y crop.height height row).length ≤ 4096 by omega)
    omega
  obtain ⟨summed, hsummed, ⟨next', hnext', hreads'⟩, hsame, hsum⟩ :=
    @ReadsTo.sumRows picture (imageClearSums scaler) next
      (crop.y + boxStart crop.height height row) (boxPlaces crop.y crop.height height row).length
      hcleared (by omega) (by omega) hplaces hroom
  have hsummedWidth : summed.width = width := hsame.width.trans hwidth
  have hsummedColumns : ColumnsOf crop width summed := by
    intro column hcolumn
    rw [hsame.columnStart]
    exact hcolumns column hcolumn
  refine ⟨{ summed with row := summed.row + 1 }, ?_, ?_⟩
  · rw [oxysImageScalerRow, if_neg (by rw [h.atRow, h.screenHeight]; omega)]
    dsimp only
    rw [hfirst, hlast, hcount, hsummed]
    simp only [bind, Except.bind, pure, Except.pure, hsummedWidth]
    congr 2
    rw [RunPicture.scaledRow]
    apply List.map_congr_left
    intro column hcolumn
    rw [List.mem_range] at hcolumn
    apply hsummedColumns.imagePixel_eq hcolumn
    intro channel hchannel
    rw [hsum, hwidth]
    dsimp only
    rw [if_pos ⟨hchannel, hcolumn⟩, hzero channel hchannel column hcolumn, Nat.zero_add,
      hcolumns.summedPlaces_eq hcolumn, hrows]
    rfl
  · refine ⟨⟨next', by omega, hreads'.image, hreads'.nextRow, hreads'.within, hreads'.nextRun,
      hreads'.valid, hreads'.decodedRow, hreads'.decoded⟩, hsummedColumns, hsummedWidth,
      hsame.height.trans h.screenHeight, hsame.cropY.trans h.cropY,
      hsame.cropHeight.trans h.cropHeight, ?_⟩
    exact congrArg (· + 1) (hsame.row.trans h.atRow)

theorem Draws.scalerRows {count : ℕ} (h : Draws picture crop width height scaler row)
    (hcrop : CropWithin picture crop) (hcount : row + count = height) :
    ∃ scaler',
      imageScalerRows count scaler =
          .ok ((List.range' row count).map (picture.scaledRow crop width height), scaler') ∧
        Draws picture crop width height scaler' height := by
  induction count generalizing scaler row with
  | zero =>
      obtain rfl : row = height := hcount
      exact ⟨scaler, rfl, h⟩
  | succ count ih =>
      obtain ⟨after, hrow, hdraws⟩ := h.scalerRow hcrop (by omega)
      obtain ⟨scaler', hrows, hended⟩ := ih hdraws (by omega)
      refine ⟨scaler', ?_, hended⟩
      rw [imageScalerRows, hrow]
      simp only [bind, Except.bind, hrows, List.range'_succ, List.map_cons]
      rfl

theorem oxysImageScalerBegin_draws (picture : RunPicture) (memory : OxysImageScaler)
    (hwidth : 0 < width ∧ width ≤ imageExtentMaximum)
    (hheight : 0 < height ∧ height ≤ imageExtentMaximum) :
    ∃ scaler, oxysImageScalerBegin memory picture.image width height = .ok scaler ∧
      Draws picture (picture.crop width height) width height scaler 0 := by
  have hpictureWidthPos := picture.width_pos
  have hpictureWidth := picture.width_le
  have hpictureHeightPos := picture.height_pos
  have hpictureHeight := picture.height_le
  rw [oxysImageScalerBegin, RunPicture.image_width, RunPicture.image_height, if_neg (by omega)]
  refine ⟨_, rfl, ?_⟩
  have hcropWidth : (if width * picture.rows.length ≥ height * picture.width then picture.width
      else imageCropExtent picture.rows.length width height picture.width) =
        (picture.crop width height).width := by
    rw [RunPicture.crop, imageCropExtent_eq hpictureHeight hwidth.2 hheight.2 hpictureWidthPos]
    split_ifs <;> rfl
  have hcropHeight : (if width * picture.rows.length ≥ height * picture.width then
      imageCropExtent picture.width height width picture.rows.length
      else picture.rows.length) = (picture.crop width height).height := by
    rw [RunPicture.crop, imageCropExtent_eq hpictureWidth hheight.2 hwidth.2 hpictureHeightPos]
    split_ifs <;> rfl
  obtain ⟨hcrop, hmiddleX, hmiddleY⟩ := picture.crop_within width height
  have hright := hcrop.right
  rw [hcropWidth, hcropHeight]
  constructor
  · refine ⟨0, Nat.zero_le _, rfl, rfl, Nat.zero_le _, rfl, ?_, ?_, ?_⟩
    · exact iff_of_false Bool.false_ne_true (Nat.lt_irrefl 0)
    · exact fun hnone ↦ absurd hnone (Nat.lt_irrefl 0)
    · exact fun row hrow ↦ absurd hrow (Nat.succ_ne_zero row)
  · intro column hcolumn
    dsimp only
    rw [if_pos hcolumn, imageWord32_boxStart hcolumn (by omega), hmiddleX]
  · rfl
  · rfl
  · exact hmiddleY.symm
  · rfl
  · rfl

/-- What a screen that is drawn by calls one after another is to be: the picture, cut and
averaged, with no row more, and each channel of it within a byte. -/
structure ScalesTo (picture : RunPicture) (memory : OxysImageScaler) (width height : ℕ) :
    Prop where
  rows : ∃ begun ended,
    oxysImageScalerBegin memory picture.image width height = .ok begun ∧
      imageScalerRows height begun = .ok (picture.scaled width height, ended) ∧
        oxysImageScalerRow ended = .error .refused
  crop : CropWithin picture (picture.crop width height) ∧
    InMiddle (picture.crop width height).x (picture.crop width height).width picture.width ∧
      InMiddle (picture.crop width height).y (picture.crop width height).height
        picture.rows.length
  channels : ∀ row column channel,
    picture.mean (picture.crop width height) width height row column channel < 256

/-- The files that are accepted are those of pictures, and each is drawn as the picture, decoded
whole, cut and averaged, upon a screen of any extent. -/
theorem oxysImage_scales :
    (∀ source, oxysImageParse source ≠ .error .outside ∧
      ∀ image, oxysImageParse source = .ok image ↔
        ∃ picture : RunPicture, source = picture.bytes ∧ image = picture.image) ∧
    ∀ (picture : RunPicture) (memory : OxysImageScaler) (width height : ℕ),
      0 < width ∧ width ≤ imageExtentMaximum → 0 < height ∧ height ≤ imageExtentMaximum →
        ScalesTo picture memory width height := by
  refine ⟨fun source ↦ ⟨oxysImageParse_ne_outside source, fun _ ↦ oxysImageParse_eq_ok_iff⟩, ?_⟩
  intro picture memory width height hwidth hheight
  have hcrop := picture.crop_within width height
  obtain ⟨begun, hbegun, hdraws⟩ := oxysImageScalerBegin_draws picture memory hwidth hheight
  obtain ⟨ended, hrows, hended⟩ := hdraws.scalerRows hcrop.1 (Nat.zero_add height)
  refine ⟨⟨begun, ended, hbegun, ?_, ?_⟩, hcrop, ?_⟩
  · rw [hrows, RunPicture.scaled, List.range_eq_range']
  · rw [oxysImageScalerRow, if_pos (by rw [hended.atRow, hended.screenHeight])]
  · intro row column channel
    exact Nat.lt_succ_of_le (picture.mean_le _ _ _ _ _ _)

def squarePicture : RunPicture where
  width := 2
  rows := [[⟨2, 0xFF0000⟩], [⟨1, 0x000000⟩, ⟨1, 0x0000FF⟩]]
  width_pos := by decide
  width_le := by decide
  height_pos := by decide
  height_le := by decide
  isRow := by
    intro row hrow
    simp only [List.mem_cons, List.not_mem_nil, or_false] at hrow
    rcases hrow with rfl | rfl
    · exact ⟨by decide, by decide, rfl⟩
    · exact ⟨by decide, by decide, rfl⟩

def blankScaler : OxysImageScaler where
  image := ⟨0, 0, [], 0⟩
  width := 0
  height := 0
  cropX := 0
  cropY := 0
  cropWidth := 0
  cropHeight := 0
  row := 0
  nextRun := 0
  nextRow := 0
  decodedRow := 0
  decodedValid := false
  columnStart := fun _ ↦ 0
  decoded := fun _ ↦ 0
  sum := fun _ _ ↦ 0

/-- The four pixels upon a screen of one. -/
theorem oxysImage_scales_squarePicture :
    ScalesTo squarePicture blankScaler 1 1 ∧ squarePicture.scaled 1 1 = [[0x800040]] :=
  ⟨oxysImage_scales.2 squarePicture blankScaler 1 1 (by decide) (by decide), by decide +kernel⟩

end OxysOS.Libc
