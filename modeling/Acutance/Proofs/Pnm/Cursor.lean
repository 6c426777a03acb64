import Acutance.Proofs.Buffer
import Acutance.Proofs.Loop
import Acutance.Proofs.Pnm.Binary

namespace Acutance.Codec.Pnm

variable {ε α β : Type}

/-- The position behind the line that a comment ends with, or the end of the buffer. -/
def endOfComment (data : Array UInt8) (pos : Nat) : Nat :=
  if h : pos < data.size then
    if data[pos] = newline then pos + 1 else endOfComment data (pos + 1)
  else pos
termination_by data.size - pos

private theorem le_endOfComment (data : Array UInt8) (pos : Nat) : pos ≤ endOfComment data pos := by
  fun_induction endOfComment data pos <;> omega

private theorem lt_endOfComment {data : Array UInt8} {pos : Nat} (h : pos < data.size) :
    pos < endOfComment data pos := by
  rw [endOfComment, dif_pos h]
  split
  · omega
  · exact le_endOfComment data (pos + 1)

/-- The position of the first byte that is neither blank nor part of a comment. -/
def endOfSeparators (data : Array UInt8) (pos : Nat) : Nat :=
  if h : pos < data.size then
    if data[pos] = commentByte then endOfSeparators data (endOfComment data pos)
    else if isBlank data[pos] then endOfSeparators data (pos + 1)
    else pos
  else pos
termination_by data.size - pos
decreasing_by
  · have hlater := lt_endOfComment h
    omega
  · omega

/-- The position of the first byte that is no digit. -/
def endOfDigits (data : Array UInt8) (pos : Nat) : Nat :=
  if h : pos < data.size then
    if Decimal.isDigit data[pos] then endOfDigits data (pos + 1) else pos
  else pos
termination_by data.size - pos

/-- Reads a number after any separators, and gives the position behind its digits. -/
def numberAt (token : Token) (data : Array UInt8) (pos : Nat) :
    Run (Flaw ε) (Except Defect Nat × Nat) := do
  let start := endOfSeparators data pos
  let stop := endOfDigits data start
  if start = stop then return (.error (.missing token), stop)
  let digits ← Buffer.slice data start stop
  if tokenLimit ≤ Decimal.toNat digits.toList then return (.error (.outOfRange token), stop)
  return (.ok (Decimal.toNat digits.toList), stop)

/-- The bytes from a position on. -/
def restAt (data : Array UInt8) (pos : Nat) : Run (Flaw ε) (Array UInt8) :=
  Buffer.slice data (min pos data.size) data.size

/-- Reads a number of the header. -/
def headerNumberAt (token : Token) (data : Array UInt8) (pos : Nat) :
    Run (Flaw CodecError) (Nat × Nat) := do
  let (result, pos) ← numberAt token data pos
  let n ← Run.answering (result.mapError .invalid)
  return (n, pos)

/-- Reads the header from a position on. -/
def Header.readAt (data : Array UInt8) (pos : Nat) : Run (Flaw CodecError) (Header × Nat) := do
  let (width, pos) ← headerNumberAt .width data pos
  let (height, pos) ← headerNumberAt .height data pos
  let (maxval, pos) ← headerNumberAt .maxval data pos
  if maxval = 0 ∨ maxvalLimit < maxval then
    Run.answering (.error (.invalid (.maxval maxval)))
  else
    let extent : Extent := ⟨width, height⟩
    Run.answering (extent.check.mapError .raster)
    return (⟨extent, maxval⟩, pos)

/-- Reads samples from text until `needed` of them have been read. -/
def textSamplesAt (data : Array UInt8) (needed : Nat) :
    (left : Nat) → Array Sample → (pos : Nat) → Run (Flaw CodecError) (Array Sample)
  | 0, samples, _ => .ok samples
  | left + 1, samples, pos => do
    let (result, pos) ← numberAt .sample data pos
    match result with
    | .ok n => textSamplesAt data needed left (samples.push (narrow n)) pos
    | .error defect =>
      let rest ← restAt data pos
      if rest.all isBlank then
        Run.answering (.error (.invalid (.truncatedSamples samples.size needed)))
      else Run.answering (.error (.invalid defect))

/-- The sample that a pair of bytes stands for, the higher of them first. -/
def pairSampleAt (raster : Array UInt8) (i : Nat) : Run (Flaw CodecError) Sample := do
  let pair ← Buffer.slice raster (2 * i) (2 * i + 2)
  let high ← Buffer.read pair 0
  let low ← Buffer.read pair 1
  return narrow (high.toNat * 256 + low.toNat)

/-- The samples of a raster of bytes, which are taken from it one after the other or in pairs. -/
def byteSamplesOf (sampleBytes : Nat) (raster : Array UInt8) : Run (Flaw CodecError) (Array Sample) :=
  if sampleBytes = 1 then .ok (raster.map fun b => narrow b.toNat)
  else do
    let samples ← (List.range (raster.size / 2)).mapM (pairSampleAt raster)
    return samples.toArray

/-- Reads samples from a raster of bytes behind a single blank. -/
def byteSamplesAt (data : Array UInt8) (pos needed sampleBytes : Nat) :
    Run (Flaw CodecError) (Array Sample) := do
  match data[pos]? with
  | none => Run.answering (.error (.invalid .noSeparator))
  | some blank =>
    if isBlank blank then
      let rest ← restAt data (pos + 1)
      let bytes ← Buffer.count (needed * sampleBytes)
      if rest.size < bytes then
        Run.answering (.error (.invalid (.truncatedBytes rest.size bytes)))
      else
        let raster ← Buffer.slice rest 0 bytes
        byteSamplesOf sampleBytes raster
    else Run.answering (.error (.invalid .noSeparator))

/-- Reads the samples of the raster behind a header. -/
def samplesAt (variant : Variant) (h : Header) (data : Array UInt8) (pos : Nat) :
    Run (Flaw CodecError) (Array Sample) := do
  let area ← Buffer.count (h.extent.width * h.extent.height)
  let needed ← Buffer.count (area * variant.channels)
  if variant.isText then
    Buffer.room needed
    textSamplesAt data needed needed #[] pos
  else byteSamplesAt data pos needed h.sampleBytes

/-- Reads the extent of an image and its samples behind the magic number. -/
def rasterBehind (variant : Variant) (data : Array UInt8) :
    Run (Flaw CodecError) (Extent × Array Sample) := do
  let (header, pos) ← Header.readAt data 0
  let samples ← samplesAt variant header data pos
  return (header.extent, spread variant samples)

/-- Reads the extent of an image and its samples, three to a pixel. -/
def rasterAt (bytes : Bytes) : Run (Flaw CodecError) (Extent × Array Sample) := do
  let data := bytes.toArray
  if data.size < 2 then Run.answering (.error (.invalid .noMagic))
  else
    let magic ← Buffer.slice data 0 2
    match Variant.ofMagic? magic.toList with
    | none => Run.answering (.error (.unsupported (.magic magic.toList)))
    | some variant => rasterBehind variant (← Buffer.slice data 2 data.size)

/-- Reads an image in red, green and blue. -/
def readAt (bytes : Bytes) : Run (Flaw CodecError) Image := do
  let (extent, samples) ← rasterAt bytes
  Run.answering ((Image.ofSamples extent .rgb samples).mapError .raster)

section Positions

variable (data : Array UInt8)

private theorem drop_of_lt {data : Array UInt8} {pos : Nat} (h : pos < data.size) :
    data.toList.drop pos = data[pos] :: data.toList.drop (pos + 1) := by
  rw [List.drop_eq_getElem_cons (by simpa using h), Array.getElem_toList]

private theorem drop_of_not_lt {data : Array UInt8} {pos : Nat} (h : ¬ pos < data.size) :
    data.toList.drop pos = [] :=
  List.drop_eq_nil_of_le (by simpa using Nat.le_of_not_lt h)

private theorem drop_endOfComment (pos : Nat) : skip true (data.toList.drop pos) =
    skip false (data.toList.drop (endOfComment data pos)) := by
  fun_induction endOfComment data pos with
  | case1 pos h hend => simp [drop_of_lt h, skip, hend]
  | case2 pos h hgo ih => simp [drop_of_lt h, skip, hgo, ih]
  | case3 pos h => simp [drop_of_not_lt h, skip]

/-- The loops over the separators end where the bytes begin that are not skipped. -/
theorem drop_endOfSeparators (pos : Nat) : data.toList.drop (endOfSeparators data pos) =
    skipSeparators (data.toList.drop pos) := by
  unfold skipSeparators
  fun_induction endOfSeparators data pos with
  | case1 pos h hcomment ih =>
    -- the loop over the comment begins with the number sign itself
    have hstep : endOfComment data pos = endOfComment data (pos + 1) := by
      rw [endOfComment, dif_pos h, hcomment, if_neg (by decide)]
    rw [ih, drop_of_lt h, skip, if_pos hcomment, drop_endOfComment, hstep]
  | case2 pos h hcomment hblank ih => rw [ih, drop_of_lt h, skip, if_neg hcomment, if_pos hblank]
  | case3 pos h hcomment hblank => rw [drop_of_lt h, skip, if_neg hcomment, if_neg hblank]
  | case4 pos h => rw [drop_of_not_lt h, skip]

private theorem endOfComment_le {pos : Nat} (hpos : pos ≤ data.size) : endOfComment data pos ≤ data.size := by
  fun_induction endOfComment data pos <;> omega

private theorem endOfSeparators_le {pos : Nat} (hpos : pos ≤ data.size) :
    endOfSeparators data pos ≤ data.size := by
  fun_induction endOfSeparators data pos with
  | case1 pos h hcomment ih => exact ih (endOfComment_le data hpos)
  | case2 pos h hcomment hblank ih => exact ih h
  | case3 | case4 => exact hpos

private theorem endOfDigits_le {pos : Nat} (hpos : pos ≤ data.size) : endOfDigits data pos ≤ data.size := by
  fun_induction endOfDigits data pos <;> omega

private theorem le_endOfDigits (pos : Nat) : pos ≤ endOfDigits data pos := by
  fun_induction endOfDigits data pos <;> omega

private theorem drop_endOfDigits (pos : Nat) : data.toList.drop (endOfDigits data pos) =
    (data.toList.drop pos).dropWhile Decimal.isDigit := by
  fun_induction endOfDigits data pos with
  | case1 pos h hdigit ih => rw [ih, drop_of_lt h, List.dropWhile_cons_of_pos hdigit]
  | case2 pos h hdigit => rw [drop_of_lt h, List.dropWhile_cons_of_neg hdigit]
  | case3 pos h => rw [drop_of_not_lt h, List.dropWhile_nil]

private theorem extract_endOfDigits (pos : Nat) : (data.extract pos (endOfDigits data pos)).toList =
    (data.toList.drop pos).takeWhile Decimal.isDigit := by
  have hstop : (data.toList.drop pos).drop (endOfDigits data pos - pos) =
      (data.toList.drop pos).dropWhile Decimal.isDigit := by
    rw [List.drop_drop, Nat.add_sub_of_le (le_endOfDigits data pos), drop_endOfDigits]
  rw [Array.toList_extract, List.extract_eq_take_drop]
  have hsame : (data.toList.drop pos).take (endOfDigits data pos - pos) ++
      (data.toList.drop pos).dropWhile Decimal.isDigit =
        (data.toList.drop pos).takeWhile Decimal.isDigit ++
          (data.toList.drop pos).dropWhile Decimal.isDigit := by
    rw [List.takeWhile_append_dropWhile, ← hstop, List.take_append_drop]
  exact List.append_cancel_right hsame

end Positions

/-- A computation that goes on from a position in a buffer, and one that goes on from the bytes there. -/
inductive Follows (data : Array UInt8) : Run (Flaw ε) (α × Nat) → Except ε (α × Bytes) → Prop where
  | ok (a : α) {pos : Nat} (hpos : pos ≤ data.size) :
      Follows data (.ok (a, pos)) (.ok (a, data.toList.drop pos))
  | error (e : ε) : Follows data (.error (.error (.refused e))) (.error e)

namespace Follows

variable {data : Array UInt8}

private theorem bind {x : Run (Flaw ε) (α × Nat)} {y : Except ε (α × Bytes)}
    {f : α × Nat → Run (Flaw ε) (β × Nat)} {g : α × Bytes → Except ε (β × Bytes)}
    (h : Follows data x y)
    (hnext : ∀ a pos, pos ≤ data.size → Follows data (f (a, pos)) (g (a, data.toList.drop pos))) :
    Follows data (x >>= f) (y >>= g) := by
  cases h with
  | ok a hpos => exact hnext a _ hpos
  | error e => exact .error e

private theorem bind_answering {x : Run (Flaw ε) (α × Nat)} {y : Except ε (α × Bytes)}
    {f : α × Nat → Run (Flaw ε) β} {g : α × Bytes → Except ε β} (h : Follows data x y)
    (hnext : ∀ a pos, pos ≤ data.size → y = .ok (a, data.toList.drop pos) →
      f (a, pos) = Run.answering (g (a, data.toList.drop pos))) :
    (x >>= f) = Run.answering (y >>= g) := by
  cases h with
  | ok a hpos => exact hnext a _ hpos rfl
  | error e => rfl

end Follows

section Reader

variable {data : Array UInt8}

/-- A number is read from a position as it is read from the bytes there, and the slice of its digits is in
the buffer. -/
theorem numberAt_follows (token : Token) {pos : Nat} (hpos : pos ≤ data.size) :
    Follows data (numberAt token data pos : Run (Flaw ε) (Except Defect Nat × Nat))
      (.ok (number token (data.toList.drop pos))) := by
  have hstop := endOfDigits_le data (endOfSeparators_le data hpos)
  have hle := le_endOfDigits data (endOfSeparators data pos)
  have hempty : (data.extract (endOfSeparators data pos)
      (endOfDigits data (endOfSeparators data pos))).toList.isEmpty = true ↔
        endOfSeparators data pos = endOfDigits data (endOfSeparators data pos) := by
    rw [List.isEmpty_iff_length_eq_zero, Array.length_toList, Array.size_extract]
    omega
  unfold numberAt number
  simp only [← drop_endOfSeparators, ← extract_endOfDigits, ← drop_endOfDigits, hempty]
  by_cases hnone : endOfSeparators data pos = endOfDigits data (endOfSeparators data pos)
  · rw [if_pos hnone, if_pos hnone]
    exact .ok _ hstop
  · rw [if_neg hnone, if_neg hnone, Buffer.slice_of_le hle hstop]
    simp only [bind, Except.bind]
    by_cases hlimit : tokenLimit ≤ Decimal.toNat (data.extract (endOfSeparators data pos)
        (endOfDigits data (endOfSeparators data pos))).toList
    · rw [if_pos hlimit, if_pos hlimit]
      exact .ok _ hstop
    · rw [if_neg hlimit, if_neg hlimit]
      exact .ok _ hstop

private theorem headerNumberAt_follows (token : Token) {pos : Nat} (hpos : pos ≤ data.size) :
    Follows data (headerNumberAt token data pos) (headerNumber token (data.toList.drop pos)) := by
  unfold headerNumberAt headerNumber
  have hnumber := numberAt_follows (ε := CodecError) token hpos
  generalize (numberAt token data pos : Run (Flaw CodecError) (Except Defect Nat × Nat)) = x,
    number token (data.toList.drop pos) = y at hnumber ⊢
  cases hnumber with
  | ok result hpos =>
    cases result with
    | ok n => exact .ok n hpos
    | error defect => exact .error _

private theorem Header.readAt_follows {pos : Nat} (hpos : pos ≤ data.size) :
    Follows data (Header.readAt data pos) (Header.read (data.toList.drop pos)) := by
  refine (headerNumberAt_follows .width hpos).bind fun width pos hpos => ?_
  refine (headerNumberAt_follows .height hpos).bind fun height pos hpos => ?_
  refine (headerNumberAt_follows .maxval hpos).bind fun maxval pos hpos => ?_
  dsimp only
  split
  · exact .error _
  · cases hcheck : (⟨width, height⟩ : Extent).check with
    | ok u => exact .ok _ hpos
    | error e => exact .error _

/-- What is left behind a position is in the buffer. -/
theorem restAt_eq (data : Array UInt8) (pos : Nat) :
    (restAt data pos : Run (Flaw ε) (Array UInt8)) = .ok (data.toList.drop pos).toArray := by
  have hlength : data.toList.length = data.size := Array.length_toList
  have hdrop : data.toList.drop (min pos data.size) = data.toList.drop pos := by
    rcases Nat.le_total pos data.size with hpos | hpos
    · rw [Nat.min_eq_left hpos]
    · rw [Nat.min_eq_right hpos, List.drop_eq_nil_of_le (Nat.le_of_eq hlength),
        List.drop_eq_nil_of_le (hlength ▸ hpos)]
  rw [restAt, Buffer.slice_of_le (Nat.min_le_right _ _) (Nat.le_refl _)]
  refine congrArg Except.ok (Array.toList_inj.1 ?_)
  rw [Array.toList_extract, List.extract_eq_take_drop, hdrop]
  refine List.take_of_length_le ?_
  rw [← hdrop, List.length_drop, hlength]

private theorem textSamplesAt_eq (needed left : Nat) (samples : Array Sample) {pos : Nat}
    (hpos : pos ≤ data.size) : textSamplesAt data needed left samples pos =
      Run.answering ((textSamples needed left samples (data.toList.drop pos)).mapError .invalid) := by
  induction left generalizing samples pos with
  | zero => rfl
  | succ left ih =>
    have hnumber := numberAt_follows (ε := CodecError) .sample hpos
    unfold textSamplesAt textSamples
    generalize (numberAt .sample data pos : Run (Flaw CodecError) (Except Defect Nat × Nat)) = x,
      number .sample (data.toList.drop pos) = y at hnumber ⊢
    cases hnumber with
    | ok result hpos =>
      cases result with
      | ok n => exact ih _ hpos
      | error defect =>
        simp only [bind, Except.bind, restAt_eq, List.all_toArray]
        split <;> rfl

private theorem pairSampleAt_eq {raster : Array UInt8} {i : Nat} (hi : 2 * i + 2 ≤ raster.size) :
    pairSampleAt raster i = .ok (byteSample 2 raster i) := by
  have hsize : (raster.extract (2 * i) (2 * i + 2)).size = 2 := by
    rw [Array.size_extract]
    omega
  have hfirst : 2 * i < raster.size := by omega
  have hsecond : 2 * i + 1 < raster.size := by omega
  rw [pairSampleAt, Buffer.slice_of_le (by omega) hi]
  simp only [bind, Except.bind]
  rw [Buffer.read_of_lt (by omega), Buffer.read_of_lt (by omega)]
  simp [byteSample, hfirst, hsecond, pure, Except.pure]

/-- Every pair that is taken from a raster of bytes is there. -/
theorem byteSamplesOf_eq {raster : Array UInt8} {needed sampleBytes : Nat}
    (hbytes : sampleBytes = 1 ∨ sampleBytes = 2) (hsize : raster.size = needed * sampleBytes) :
    byteSamplesOf sampleBytes raster =
      .ok (Array.ofFn fun i : Fin needed => byteSample sampleBytes raster i) := by
  rcases hbytes with rfl | rfl
  · rw [byteSamplesOf, if_pos rfl]
    congr 1
    apply Array.ext
    · simp [hsize]
    · intro i hi _
      have hi' : i < raster.size := by simpa using hi
      simp [byteSample, hi']
  · have hcount : raster.size / 2 = needed := by omega
    have hpairs : (List.range needed).mapM (pairSampleAt raster) =
        .ok ((List.range needed).map (byteSample 2 raster)) :=
      mapM_eq_ok_map fun i hi => pairSampleAt_eq (by have hlt := List.mem_range.1 hi; omega)
    rw [byteSamplesOf, if_neg (by decide), hcount, hpairs]
    refine congrArg Except.ok (Array.ext ?_ fun i hi _ => ?_)
    · simp
    · simp

private theorem byteSamplesAt_eq {needed sampleBytes pos : Nat} (hbytes : sampleBytes = 1 ∨ sampleBytes = 2)
    (hcount : needed * sampleBytes < Buffer.countLimit) :
    byteSamplesAt data pos needed sampleBytes = Run.answering
      ((byteSamples needed sampleBytes (data.toList.drop pos)).mapError .invalid) := by
  unfold byteSamplesAt byteSamples
  by_cases hpos : pos < data.size
  · rw [Array.getElem?_eq_getElem hpos, drop_of_lt hpos]
    dsimp only
    by_cases hblank : isBlank data[pos] = true
    · rw [if_pos hblank, if_pos hblank, restAt_eq, Buffer.count_of_lt hcount]
      simp only [bind, Except.bind, List.size_toArray]
      by_cases henough : (data.toList.drop (pos + 1)).length < needed * sampleBytes
      · rw [if_pos henough, if_pos henough]
        rfl
      · have hle : needed * sampleBytes ≤ (data.toList.drop (pos + 1)).toArray.size := by
          simpa using Nat.le_of_not_lt henough
        have hsize : ((data.toList.drop (pos + 1)).take (needed * sampleBytes)).toArray.size =
            needed * sampleBytes := by
          rw [List.size_toArray] at hle ⊢
          exact List.length_take_of_le hle
        rw [if_neg henough, if_neg henough, Buffer.slice_of_le (Nat.zero_le _) hle,
          List.extract_toArray, List.extract_eq_take_drop, List.drop_zero, Nat.sub_zero]
        exact byteSamplesOf_eq hbytes hsize
    · rw [if_neg hblank, if_neg hblank]
      rfl
  · rw [Array.getElem?_eq_none (Nat.le_of_not_lt hpos), drop_of_not_lt hpos]
    rfl

/-- An accepted extent has so few samples that they can be counted and have room. -/
theorem samplesAt_eq {variant : Variant} {h : Header} (hvalid : h.Valid) {pos : Nat}
    (hpos : pos ≤ data.size) : samplesAt variant h data pos = Run.answering
      ((readSamples variant h (data.toList.drop pos)).mapError .invalid) := by
  obtain ⟨hwidth, hheight⟩ := (Extent.check_eq_ok_iff.1 hvalid.extent_check).le
  have hlargest : Capacity.maxWidth * Capacity.maxHeight ≤ 749275 := by decide
  have harea := (Nat.mul_le_mul hwidth hheight).trans hlargest
  have hneeded : h.extent.width * h.extent.height * variant.channels ≤ 2247825 := by
    cases variant <;> simp only [Variant.channels] <;> omega
  have hbytes : h.extent.width * h.extent.height * variant.channels * h.sampleBytes ≤ 4495650 := by
    rcases h.sampleBytes_eq with hsize | hsize <;> rw [hsize] <;> omega
  have hcount : 4495650 < Buffer.countLimit := by decide
  have hroom : 2247825 * Plane.sampleBytes < Plane.addressLimit := by decide
  unfold samplesAt readSamples Extent.area
  rw [Buffer.count_of_lt (by omega)]
  simp only [bind, Except.bind]
  rw [Buffer.count_of_lt (by omega)]
  dsimp only
  by_cases htext : variant.isText = true
  · rw [if_pos htext, if_pos htext,
      Buffer.room_of_lt (Nat.lt_of_le_of_lt (Nat.mul_le_mul_right _ hneeded) hroom)]
    exact textSamplesAt_eq _ _ _ hpos
  · rw [if_neg htext, if_neg htext]
    exact byteSamplesAt_eq h.sampleBytes_eq (by omega)

end Reader

/-- The extent of an image and its samples, read from the bytes behind the magic number. -/
def rasterOf (variant : Variant) (bytes : Bytes) : Except CodecError (Extent × Array Sample) := do
  let (header, rest) ← Header.read bytes
  let samples ← (readSamples variant header rest).mapError .invalid
  return (header.extent, spread variant samples)

/-- The extent of an image and its samples, three to a pixel. -/
def raster (bytes : Bytes) : Except CodecError (Extent × Array Sample) :=
  if bytes.length < 2 then .error (.invalid .noMagic)
  else
    match Variant.ofMagic? (bytes.take 2) with
    | none => .error (.unsupported (.magic (bytes.take 2)))
    | some variant => rasterOf variant (bytes.drop 2)

theorem read_eq_raster_bind (bytes : Bytes) : read bytes = raster bytes >>= fun shown =>
    (Image.ofSamples shown.1 .rgb shown.2).mapError .raster := by
  unfold read raster
  split
  · rfl
  · dsimp only
    cases Variant.ofMagic? (bytes.take 2) with
    | none => rfl
    | some variant =>
      simp only [rasterOf, bind, Except.bind]
      cases Header.read (bytes.drop 2) with
      | error e => rfl
      | ok header =>
        dsimp only
        cases (readSamples variant header.1 header.2).mapError CodecError.invalid <;> rfl

private theorem rasterBehind_eq (variant : Variant) (bytes : Bytes) :
    rasterBehind variant bytes.toArray = Run.answering (rasterOf variant bytes) := by
  have hheader : Follows bytes.toArray (Header.readAt bytes.toArray 0) (Header.read bytes) :=
    Header.readAt_follows (Nat.zero_le _)
  refine hheader.bind_answering fun h pos hpos hread => ?_
  dsimp only
  rw [samplesAt_eq (Header.read_eq_ok_iff.1 hread).1 hpos]
  cases (readSamples variant h (bytes.toArray.toList.drop pos)).mapError CodecError.invalid <;> rfl

/-- The extent and the samples are read with every slice, byte and count in range. -/
theorem rasterAt_eq (bytes : Bytes) : rasterAt bytes = Run.answering (raster bytes) := by
  unfold rasterAt raster
  by_cases hshort : bytes.length < 2
  · simp only [List.size_toArray, if_pos hshort]
  · have hlong : 2 ≤ bytes.length := Nat.le_of_not_lt hshort
    have hmagic : (Buffer.slice bytes.toArray 0 2 : Run (Flaw CodecError) (Array UInt8)) =
        .ok (bytes.take 2).toArray := by
      rw [Buffer.slice_of_le (Nat.zero_le _) hlong]
      simp
    have hrest : (Buffer.slice bytes.toArray 2 bytes.length : Run (Flaw CodecError) (Array UInt8)) =
        .ok (bytes.drop 2).toArray := by
      rw [Buffer.slice_of_le hlong (Nat.le_refl _), List.extract_toArray, List.extract_eq_take_drop,
        List.take_of_length_le (by rw [List.length_drop])]
    simp only [List.size_toArray, if_neg hshort, hmagic, hrest, bind, Except.bind]
    cases Variant.ofMagic? (bytes.take 2) with
    | none => rfl
    | some variant => exact rasterBehind_eq variant (bytes.drop 2)

/-- The guarded reader goes the same way as the reader on lists. -/
theorem readAt_eq (bytes : Bytes) : readAt bytes = Run.answering (read bytes) := by
  rw [readAt, rasterAt_eq, read_eq_raster_bind]
  cases raster bytes <;> rfl

end Acutance.Codec.Pnm
