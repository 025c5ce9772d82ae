import Mathlib.Data.List.FinRange
import Mathlib.Data.List.Perm.Basic
import Mathlib.Tactic.IntervalCases
import Scanline.Proofs.Calls
import Scanline.Proofs.Codes

/-!
# Pixels of a stream

What a stream sink says of one pixel is `StreamOptions.pixelBytes`: its channels in order, a missing
alpha being one, colors divided through alpha if that is asked for, each sample narrowed on its own
and put into byte order.  Runs, the reversal within a run and the vectors of a coder leave no trace
in it: the calls of a step deliver exactly the pixels of the step that the output has, each at its
place (`StreamOptions.delivered_stepCalls`).
-/

namespace Scanline

/-! ## Interleaved samples -/

/-- Samples of `count` pixels with `channels` channels each, given by pixel and channel. -/
def Row.ofPixels (count channels : Nat) (f : Nat → Nat → Sample) : Row :=
  Array.ofFn fun i : Fin (count * channels) ↦ f (i / channels) (i % channels)

namespace Row

variable {count channels : Nat} {f : Nat → Nat → Sample}

@[simp] theorem size_ofPixels : (ofPixels count channels f).size = count * channels := by
  simp [ofPixels]

@[simp] theorem getElem_ofPixels {i : Nat} (h : i < (ofPixels count channels f).size) :
    (ofPixels count channels f)[i] = f (i / channels) (i % channels) := by
  simp [ofPixels]

theorem div_channels (j : Nat) {c : Nat} (hc : c < channels) :
    (j * channels + c) / channels = j := by
  rw [Nat.mul_comm, Nat.mul_add_div (Nat.zero_lt_of_lt hc), Nat.div_eq_of_lt hc, Nat.add_zero]

theorem getElem?_ofPixels {j c : Nat} (hj : j < count) (hc : c < channels) :
    (ofPixels count channels f)[j * channels + c]? = some (f j c) := by
  have hlt : j * channels + c < count * channels := by
    calc j * channels + c < j * channels + channels := by omega
      _ = (j + 1) * channels := by rw [Nat.add_mul, Nat.one_mul]
      _ ≤ count * channels := Nat.mul_le_mul_right _ hj
  rw [Array.getElem?_eq_getElem (by simpa using hlt), getElem_ofPixels, div_channels j hc,
    Nat.mul_add_mod_of_lt hc]

theorem toList_ofPixels :
    (ofPixels count channels f).toList =
      (List.range count).flatMap fun j ↦ (List.range channels).map (f j) := by
  have hrange : ∀ {α : Type} (n : Nat) (g : Nat → α),
      (List.range n).map g = List.ofFn fun i : Fin n ↦ g i := by
    intro α n g
    rw [List.ofFn_eq_pmap, List.pmap_eq_map]
  rw [ofPixels, Array.toList_ofFn, List.ofFn_mul, List.flatMap, hrange]
  refine congrArg List.flatten (congrArg List.ofFn (funext fun i ↦ ?_))
  rw [hrange]
  refine congrArg List.ofFn (funext fun j ↦ ?_)
  simp only [div_channels i j.isLt, Nat.mul_add_mod_of_lt j.isLt]

/-- Dividing through alpha works pixel by pixel. -/
theorem unpremultiply_ofPixels (colors : Nat) :
    unpremultiply colors (ofPixels count (colors + 1) f) =
      ofPixels count (colors + 1) fun j c ↦
        if c < colors then f j c * alphaMultiplier (f j colors) else f j c := by
  refine Array.ext (by simp) ?_
  intro i hi _
  have hpos : 0 < colors + 1 := Nat.succ_pos _
  have hpixel : i / (colors + 1) < count := by
    rw [Nat.div_lt_iff_lt_mul hpos]
    simpa using hi
  have hchannel := Nat.mod_lt i hpos
  have halpha := getElem?_ofPixels (f := f) hpixel (Nat.lt_succ_self colors)
  simp only [unpremultiply, Array.getElem_mapIdx, getElem_ofPixels, halpha]
  split_ifs with hlast hcolor hcolor
  · omega
  · rfl
  · rfl
  · omega

theorem reversePixels_ofPixels :
    reversePixels channels (ofPixels count channels f) =
      ofPixels count channels fun j ↦ f (Orientation.opposite count j) := by
  refine Array.ext (by simp [reversePixels]) ?_
  intro i hi _
  have hlt : i < count * channels := by simpa [reversePixels] using hi
  have hpos : 0 < channels := Nat.pos_of_ne_zero fun hzero ↦ by simp [hzero] at hlt
  have hpixel : i / channels < count := (Nat.div_lt_iff_lt_mul hpos).2 hlt
  have hback : count - 1 - i / channels < count :=
    Nat.lt_of_le_of_lt (Nat.sub_le _ _) (Nat.sub_lt (Nat.zero_lt_of_lt hpixel) Nat.one_pos)
  have hget := getElem?_ofPixels (f := f) hback (Nat.mod_lt i hpos)
  simp only [reversePixels, Array.getElem_mapIdx, getElem_ofPixels, size_ofPixels,
    Nat.mul_div_cancel _ hpos, hget, Option.getD_some, Orientation.opposite]

end Row

/-! ## Bytes of a sample -/

theorem byte_ext {a b : UInt8} (h : ∀ i < 8, a.toBitVec.getLsbD i = b.toBitVec.getLsbD i) : a = b :=
  UInt8.eq_of_toBitVec_eq (BitVec.eq_of_getLsbD_eq h)

theorem wordBytes_reverseWord (w : UInt16) : wordBytes (reverseWord w) = (wordBytes w).reverse := by
  simp only [wordBytes, reverseWord, List.reverse_cons, List.reverse_nil, List.nil_append,
    List.cons_append, List.cons.injEq, and_true]
  refine ⟨byte_ext fun i hi ↦ ?_, byte_ext fun i hi ↦ ?_⟩ <;> interval_cases i <;> simp

theorem Sample.bytes_reverseBytes (a : Sample) : a.reverseBytes.bytes = a.bytes.reverse := by
  simp only [bytes, reverseBytes, List.reverse_cons, List.reverse_nil, List.nil_append,
    List.cons_append, List.cons.injEq, and_true]
  refine ⟨byte_ext fun i hi ↦ ?_, byte_ext fun i hi ↦ ?_, byte_ext fun i hi ↦ ?_,
    byte_ext fun i hi ↦ ?_⟩ <;> interval_cases i <;> simp

namespace StreamOptions

variable (o : StreamOptions)

/-- The bytes of a sample that is narrowed on its own: the least significant first, or the other way
round. -/
def sampleBytes (a : Sample) : List UInt8 :=
  let bytes :=
    match o.format.sampleType with
    | .byte => [a.toByte]
    | .word => wordBytes a.toWord
    | .half => wordBytes a.toHalf
    | .single => a.bytes
  if o.format.byteOrder.reversed then bytes.reverse else bytes

/-- One sample of a pixel of a strip before it is narrowed: colors are divided through alpha if that
is asked for and there is one. -/
def finishedSample (strip : Strip) (x : Int) (channel : Nat) : Sample :=
  if (o.alpha.isSome && o.format.hasAlpha && o.dividesAlpha) ∧ channel < o.format.colors then
    o.sampleOf strip x channel * alphaMultiplier (o.sampleOf strip x o.format.colors)
  else o.sampleOf strip x channel

/-- The bytes of the pixel of a strip in column `x`. -/
def pixelBytes (strip : Strip) (x : Int) : List UInt8 :=
  (List.range o.format.channels).flatMap fun channel ↦
    o.sampleBytes (o.finishedSample strip x channel)

@[simp] theorem length_sampleBytes (a : Sample) :
    (o.sampleBytes a).length = o.format.sampleType.size := by
  unfold sampleBytes
  cases o.format.sampleType <;> dsimp only <;> split_ifs <;> rfl

@[simp] theorem length_pixelBytes (strip : Strip) (x : Int) :
    (o.pixelBytes strip x).length = o.format.pixelSize := by
  simp [pixelBytes, List.length_flatMap, PixelFormat.pixelSize, Nat.mul_comm]

/-- The samples of a run of a strip are finished pixel by pixel, and turned round if the orientation
exchanges left and right. -/
theorem arrange_gather (strip : Strip) (x count : Nat) :
    o.arrange (o.bandsOf strip x count) (o.gather (o.bandsOf strip x count) 0 count) =
      Row.ofPixels count o.format.channels fun j ↦ o.finishedSample strip
        (x + (if o.orientation.flipsColumns then Orientation.opposite count j else j : Nat)) := by
  have hgather : o.gather (o.bandsOf strip x count) 0 count =
      Row.ofPixels count o.format.channels fun j ↦ o.sampleOf strip (x + j) := by
    rw [gather_bandsOf]
    simp [Row.ofPixels]
  have hfinish : (if o.divides (o.bandsOf strip x count) then
      unpremultiply o.format.colors (o.gather (o.bandsOf strip x count) 0 count)
      else o.gather (o.bandsOf strip x count) 0 count) =
      Row.ofPixels count o.format.channels fun j ↦ o.finishedSample strip (x + j) := by
    rw [hgather, divides_bandsOf]
    unfold finishedSample
    split_ifs with hdivides
    · have hchannels : o.format.channels = o.format.colors + 1 := by
        simp only [Bool.and_eq_true] at hdivides
        rw [PixelFormat.channels, Layout.channels_eq]
        exact congrArg (o.format.colors + ·) (if_pos hdivides.1.2)
      rw [hchannels, Row.unpremultiply_ofPixels]
      simp only [hdivides, true_and]
    · simp only [hdivides, Bool.false_eq_true, false_and, if_false]
  unfold arrange
  simp only [hfinish]
  split_ifs with hflip
  · exact Row.reversePixels_ofPixels
  · rfl

/-- The bytes of finished samples are those of each sample. -/
theorem runBytes_eq (lawful : o.coder.Lawful) (b : Bands) (offset length : Nat) :
    (o.runBytes b offset length).toList =
      (o.arrange b (o.gather b offset length)).toList.flatMap o.sampleBytes := by
  have hreverses : o.format.reversesBytes =
      (decide (1 < o.format.sampleType.size) && o.format.byteOrder.reversed) := rfl
  have hhalves := @Coder.toHalves_eq o.coder
  unfold runBytes sampleBytes
  generalize o.arrange b (o.gather b offset length) = samples
  cases htype : o.format.sampleType with
  | byte =>
    cases o.format.byteOrder.reversed <;> simp [lawful.toBytes_eq, List.map_eq_flatMap]
  | word =>
    rw [htype] at hreverses
    cases hreversed : o.format.byteOrder.reversed <;>
      simp [wordsOf, htype, hreverses, hreversed, lawful.toWords_eq, SampleType.size,
        List.flatMap_map, wordBytes_reverseWord]
  | half =>
    rw [htype] at hreverses
    cases hreversed : o.format.byteOrder.reversed <;>
      simp [wordsOf, htype, hreverses, hreversed, hhalves, SampleType.size, List.flatMap_map,
        wordBytes_reverseWord]
  | single =>
    rw [htype] at hreverses
    cases hreversed : o.format.byteOrder.reversed <;>
      simp [ordered, hreverses, hreversed, SampleType.size, List.flatMap_map,
        Sample.bytes_reverseBytes]

/-- The pixel that comes `j`-th in a run of `count`. -/
def turned (count j : Nat) : Nat :=
  if o.orientation.flipsColumns then Orientation.opposite count j else j

theorem toList_stripBytes (lawful : o.coder.Lawful) (strip : Strip) (x count : Nat) :
    (o.stripBytes strip x count).toList =
      (List.range count).flatMap fun j ↦ o.pixelBytes strip (x + o.turned count j : Nat) := by
  rw [stripBytes, o.runBytes_eq lawful, arrange_gather, Row.toList_ofPixels, List.flatMap_assoc]
  apply List.flatMap_congr
  intro j _
  rw [List.flatMap_map, Nat.cast_add]
  rfl

theorem size_stripBytes (lawful : o.coder.Lawful) (strip : Strip) (x count : Nat) :
    (o.stripBytes strip x count).size = count * o.format.pixelSize := by
  rw [← Array.length_toList, o.toList_stripBytes lawful, List.length_flatMap]
  simp

end StreamOptions

/-- Pieces of one length lie one after another. -/
theorem extract_flatMap {α : Type} {f : Nat → List α} {size count i : Nat}
    (hsize : ∀ j < count, (f j).length = size) (hi : i < count) {bytes : Array α}
    (hbytes : bytes.toList = (List.range count).flatMap f) :
    (bytes.extract (i * size) ((i + 1) * size)).toList = f i := by
  obtain ⟨rest, rfl⟩ : ∃ rest, count = i + (rest + 1) := ⟨count - (i + 1), by omega⟩
  have hbefore : ((List.range i).flatMap f).length = i * size := by
    rw [List.length_flatMap, List.map_congr_left (g := fun _ ↦ size) fun j hj ↦
      hsize j (Nat.lt_trans (List.mem_range.1 hj) hi)]
    simp
  have hlength := hsize i hi
  rw [Array.toList_extract, hbytes, List.range_add, List.flatMap_append, List.range_succ_eq_map,
    List.map_cons, Nat.add_zero, List.flatMap_cons, List.extract_eq_take_drop, ← hbefore,
    List.drop_left, hbefore, Nat.add_mul, Nat.one_mul, Nat.add_sub_cancel_left, ← hlength,
    List.take_left]

/-! ## Pixels of calls -/

/-- The pixels that a call delivers, each with its position and its bytes. -/
def Call.delivered (size : Nat) (call : Call) : List ((Nat × Nat) × List UInt8) :=
  (List.range call.pixels).map fun i ↦
    ((call.x + i, call.y), (call.bytes.extract (i * size) ((i + 1) * size)).toList)

/-- A call of a run: neither empty nor too long, with the bytes of its pixels, and of a single pixel
if the axes are exchanged. -/
structure StreamOptions.Proper (o : StreamOptions) (call : Call) : Prop where
  /-- It has a pixel. -/
  pixels_pos : 1 ≤ call.pixels
  /-- It has no more pixels than are handed over at once. -/
  pixels_le : call.pixels ≤ runLimit
  /-- It has the bytes of its pixels. -/
  size_bytes : call.bytes.size = call.pixels * o.format.pixelSize
  /-- Under an exchange of the axes it has one pixel. -/
  pixels_eq_one : o.orientation.swapsAxes → call.pixels = 1

namespace StreamOptions

variable (o : StreamOptions)

/-- A pixel of a strip where the output has it. -/
def placed (strip : Strip) (row x : Nat) : (Nat × Nat) × List UInt8 :=
  (o.orientation.place x row o.width o.height, o.pixelBytes strip x)

/-- The bytes of one pixel of a run of a strip. -/
theorem toList_extract_stripBytes (lawful : o.coder.Lawful) (strip : Strip) (x : Nat)
    {count j : Nat} (hj : j < count) :
    ((o.stripBytes strip x count).extract (j * o.format.pixelSize)
      ((j + 1) * o.format.pixelSize)).toList = o.pixelBytes strip (x + o.turned count j : Nat) :=
  extract_flatMap (f := fun j ↦ o.pixelBytes strip (x + o.turned count j : Nat))
    (fun _ _ ↦ o.length_pixelBytes _ _) hj (o.toList_stripBytes lawful strip x count)

/-- A run that is turned round starts where its last pixel belongs. -/
theorem column_turned {batch : Batch} (inside : batch.start + batch.length ≤ o.width) {j : Nat}
    (hj : j < batch.length) :
    (if o.orientation.flipsColumns then o.width - batch.start - batch.length
      else batch.start) + j =
    if o.orientation.flipsColumns then
      Orientation.opposite o.width (batch.start + o.turned batch.length j)
    else batch.start + o.turned batch.length j := by
  unfold turned Orientation.opposite
  split_ifs
  · omega
  · rfl

/-- The columns of a run in the order in which they are handed over. -/
def turnedColumns (batch : Batch) : List Nat :=
  if o.orientation.flipsColumns then (List.range' batch.start batch.length).reverse
  else List.range' batch.start batch.length

theorem map_turned (batch : Batch) :
    (List.range batch.length).map (fun j ↦ batch.start + o.turned batch.length j) =
      o.turnedColumns batch := by
  unfold turned turnedColumns Orientation.opposite
  split_ifs
  · rw [List.reverse_range']
    refine List.map_congr_left fun j hj ↦ ?_
    have hlt := List.mem_range.1 hj
    omega
  · rw [List.range'_eq_map_range]

/-- The calls of a run deliver its pixels, turned round if the orientation says so. -/
theorem delivered_batchCalls (lawful : o.coder.Lawful) (worker row : Nat) (strip : Strip)
    {batch : Batch} (inside : batch.start + batch.length ≤ o.width) :
    (o.batchCalls worker row strip batch).flatMap (Call.delivered o.format.pixelSize) =
      (o.turnedColumns batch).map (o.placed strip row) := by
  rw [← map_turned, List.map_map]
  unfold batchCalls calls placed Orientation.place
  cases hswap : o.orientation.swapsAxes with
  | true =>
    -- Every pixel is a call of its own.
    simp only [if_true, List.flatMap_map]
    rw [List.map_eq_flatMap]
    apply List.flatMap_congr
    intro j hj
    have hj := List.mem_range.1 hj
    have hextract : ∀ bytes : Array UInt8,
        ((bytes.extract (j * o.format.pixelSize) ((j + 1) * o.format.pixelSize)).extract
          (0 * o.format.pixelSize) ((0 + 1) * o.format.pixelSize)) =
        bytes.extract (j * o.format.pixelSize) ((j + 1) * o.format.pixelSize) := by
      intro bytes
      rw [Array.extract_extract, Nat.add_mul j 1]
      simp
    simp only [Call.delivered, List.range_one, List.map_cons, List.map_nil, Nat.add_zero, hextract,
      o.toList_extract_stripBytes lawful strip batch.start hj, o.column_turned inside hj]
    rfl
  | false =>
    simp only [Bool.false_eq_true, if_false, List.flatMap_cons, List.flatMap_nil, List.append_nil,
      Call.delivered]
    apply List.map_congr_left
    intro j hj
    have hj := List.mem_range.1 hj
    rw [o.toList_extract_stripBytes lawful strip batch.start hj, o.column_turned inside hj]
    rfl

/-- A run that is turned round has the columns that it had. -/
theorem turnedColumns_perm (batch : Batch) :
    (o.turnedColumns batch).Perm (List.range' batch.start batch.length) := by
  unfold turnedColumns
  split_ifs
  · exact List.reverse_perm _
  · exact List.Perm.refl _

/-- Runs tile the columns that are cut up. -/
theorem flatMap_batchAt (first stop : Nat) :
    ((List.range (batchCount first stop)).flatMap fun k ↦
      List.range' (batchAt first stop k).start (batchAt first stop k).length) =
      List.range' first (stop - first) := by
  have hpart : ∀ k ≤ batchCount first stop,
      ((List.range k).flatMap fun k ↦
        List.range' (batchAt first stop k).start (batchAt first stop k).length) =
        List.range' first (min (k * runLimit) (stop - first)) := by
    intro k hk
    induction k with
    | zero => simp
    | succ k ih =>
      have hbefore : k * runLimit < stop - first := by
        unfold batchCount runLimit at hk
        unfold runLimit
        omega
      rw [List.range_succ, List.flatMap_append, List.flatMap_singleton, ih (by omega),
        Nat.min_eq_left (Nat.le_of_lt hbefore)]
      simp only [batchAt]
      rw [List.range'_append_1, Nat.add_mul, Nat.one_mul]
      congr 1
      omega
  have hall : stop - first ≤ batchCount first stop * runLimit := by
    unfold batchCount runLimit
    omega
  rw [hpart _ le_rfl, Nat.min_eq_right hall]

/-- The calls of a run are proper. -/
theorem proper_of_mem_batchCalls (lawful : o.coder.Lawful) {worker row : Nat} {strip : Strip}
    {batch : Batch} (hpos : 1 ≤ batch.length) (hle : batch.length ≤ runLimit) {call : Call}
    (h : call ∈ o.batchCalls worker row strip batch) : o.Proper call := by
  have hsize := o.size_stripBytes lawful strip batch.start batch.length
  unfold batchCalls calls at h
  cases hswap : o.orientation.swapsAxes with
  | true =>
    rw [hswap, if_pos rfl] at h
    obtain ⟨j, hj, rfl⟩ := List.mem_map.1 h
    have hle : (j + 1) * o.format.pixelSize ≤ batch.length * o.format.pixelSize :=
      Nat.mul_le_mul_right _ (List.mem_range.1 hj)
    refine ⟨le_rfl, show 1 ≤ runLimit by decide, ?_, fun _ ↦ rfl⟩
    rw [Array.size_extract, hsize, Nat.min_eq_left hle, Nat.add_mul, Nat.add_sub_cancel_left]
  | false =>
    rw [hswap, if_neg Bool.false_ne_true] at h
    rw [List.mem_singleton.1 h]
    exact ⟨hpos, hle, hsize, fun htrue ↦ absurd (hswap ▸ htrue) Bool.false_ne_true⟩

end StreamOptions

end Scanline
