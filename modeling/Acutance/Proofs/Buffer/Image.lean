import Acutance.Color.Convert
import Acutance.Filter.Levels
import Acutance.Proofs.Buffer.Fill

namespace Acutance

/-- An image as it lies in memory. -/
structure ImageBuffer where
  extent : Extent
  space : ColorSpace
  data : Array Sample
  deriving DecidableEq, Repr

/-- The extent is accepted, and there are three samples for every pixel. -/
structure ImageBuffer.WellFormed (i : ImageBuffer) : Prop where
  accepted : i.extent.check = .ok ()
  size_eq : i.data.size = 3 * i.extent.width * i.extent.height

/-- The image in a buffer. -/
def Image.buffer (image : Image) : ImageBuffer := ⟨image.extent, image.space, image.samples.toArray⟩

namespace ImageBuffer

variable {ε : Type}

def blank (e : Extent) (space : ColorSpace) : Run (Flaw RasterError) ImageBuffer := do
  Run.answering e.check
  return ⟨e, space, Array.replicate (e.width * e.height * Pixel.channelCount) 0⟩

def ofSamples (e : Extent) (space : ColorSpace) (samples : Array Sample) :
    Run (Flaw RasterError) ImageBuffer := do
  Run.answering e.check
  let expected := e.width * e.height * Pixel.channelCount
  if samples.size = expected then return ⟨e, space, samples⟩
  else Run.answering (.error (.sampleCount expected samples.size))

/-- Where the samples of a pixel begin. -/
def index (i : ImageBuffer) (x y : Nat) : Nat := (y * i.extent.width + x) * Pixel.channelCount

def get? (i : ImageBuffer) (x y : Nat) : Run (Flaw ε) (Option Pixel) :=
  if i.extent.width ≤ x ∨ i.extent.height ≤ y then .ok none
  else do
    let first ← Buffer.read i.data (i.index x y)
    let second ← Buffer.read i.data (i.index x y + 1)
    let third ← Buffer.read i.data (i.index x y + 2)
    return some ⟨first, second, third⟩

def set (i : ImageBuffer) (x y : Nat) (p : Pixel) : Run (Flaw RasterError) ImageBuffer :=
  if i.extent.width ≤ x ∨ i.extent.height ≤ y then
    Run.answering (.error (.outOfBounds (y * i.extent.width + x) (i.extent.width * i.extent.height)))
  else do
    let data ← Buffer.splice i.data (i.index x y) p.samples.toArray
    return { i with data }

def expectSpace (i : ImageBuffer) (expected : ColorSpace) : Run (Flaw RasterError) Unit :=
  if i.space = expected then .ok () else Run.answering (.error (.spaceMismatch expected i.space))

/-- The pixels of samples, as far as three are left. -/
def chunks : List Sample → List Pixel
  | a :: b :: c :: rest => ⟨a, b, c⟩ :: chunks rest
  | _ => []

/-- Replaces the pixels of samples one after the other, as far as three samples are left. -/
def rewriteChunks (f : Pixel → Checked Pixel) : List Sample → Checked (List Sample)
  | a :: b :: c :: rest => do
    let p ← f ⟨a, b, c⟩
    return p.samples ++ (← rewriteChunks f rest)
  | rest => .ok rest

/-- Replaces one sample of every pixel, as far as both lists go on. -/
def replaceChannel (c : Channel) : List Sample → List Sample → List Sample
  | first :: second :: third :: rest, s :: samples =>
    ((Pixel.mk first second third).set c s).samples ++ replaceChannel c rest samples
  | rest, _ => rest

/-- Computes every pixel anew, and changes the color space behind the last one. -/
def recode (source target : ColorSpace) (f : Pixel → Checked Pixel) (i : ImageBuffer) :
    Run (Flaw RasterError) ImageBuffer := do
  i.expectSpace source
  let samples ← Run.ofChecked (rewriteChunks f i.data.toList)
  return { i with space := target, data := samples.toArray }

/-- The plane of a channel, with the extent of the image and whatever samples there are. -/
def channel (i : ImageBuffer) (c : Channel) : PlaneBuffer :=
  ⟨i.extent, ((chunks i.data.toList).map fun p => p.get c).toArray⟩

def setChannel (i : ImageBuffer) (c : Channel) (plane : PlaneBuffer) :
    Run (Flaw RasterError) ImageBuffer := do
  plane.expectExtent i.extent
  return { i with data := (replaceChannel c i.data.toList plane.data.toList).toArray }

def levels (i : ImageBuffer) : Run (Flaw FilterError) ImageBuffer :=
  (i.recode .rgb .rgb (Pixel.mapM Levels.stretch)).restate (Flaw.map .raster)

def toHsv (i : ImageBuffer) : Run (Flaw ColorError) ImageBuffer :=
  (i.recode .rgb .hsv Pixel.toHsv).restate (Flaw.map .raster)

def toRgb (i : ImageBuffer) : Run (Flaw ColorError) ImageBuffer :=
  (i.recode .hsv .rgb Pixel.toRgb).restate (Flaw.map .raster)

theorem chunks_flatMap (pixels : List Pixel) : chunks (pixels.flatMap Pixel.samples) = pixels := by
  induction pixels with
  | nil => rfl
  | cons p pixels ih =>
    simp only [List.flatMap_cons, Pixel.samples, List.cons_append, List.nil_append, chunks, ih]

private theorem rewriteChunks_flatMap (f : Pixel → Checked Pixel) (pixels : List Pixel) :
    rewriteChunks f (pixels.flatMap Pixel.samples) =
      (pixels.mapM f).map fun pixels => pixels.flatMap Pixel.samples := by
  induction pixels with
  | nil => rfl
  | cons p pixels ih =>
    simp only [List.flatMap_cons, Pixel.samples, List.cons_append, List.nil_append, rewriteChunks,
      List.mapM_cons] at ih ⊢
    rw [ih]
    cases f p with
    | error fault => rfl
    | ok q => cases pixels.mapM f <;> rfl

private theorem replaceChannel_flatMap (c : Channel) (places : List Nat) (f : Nat → Pixel)
    (g : Nat → Sample) :
    replaceChannel c ((places.map f).flatMap Pixel.samples) (places.map g) =
      (places.map fun i => (f i).set c (g i)).flatMap Pixel.samples := by
  induction places with
  | nil => rfl
  | cons i places ih =>
    simp only [List.map_cons, List.flatMap_cons, Pixel.samples, List.cons_append, List.nil_append,
      replaceChannel] at ih ⊢
    rw [ih]

end ImageBuffer

namespace Image

variable {ε : Type}

@[simp] theorem extent_buffer (image : Image) : image.buffer.extent = image.extent := rfl

private theorem size_buffer (image : Image) :
    image.buffer.data.size = 3 * image.extent.width * image.extent.height := by
  have hlength := image.length_samples
  rw [Extent.area, ← Nat.mul_assoc] at hlength
  exact hlength

private theorem toList_data (image : Image) :
    image.buffer.data.toList = image.pixels.toList.flatMap Pixel.samples := rfl

theorem index_buffer (image : Image) (x y : Nat) :
    image.buffer.index x y = 3 * image.extent.index x y := Nat.mul_comm _ _

theorem buffer_wellFormed (image : Image) : image.buffer.WellFormed :=
  ⟨Extent.check_eq_ok_iff.2 image.accepted, image.size_buffer⟩

/-- A well-formed buffer holds an image. -/
theorem exists_buffer_eq {b : ImageBuffer} (h : b.WellFormed) : ∃ image : Image, image.buffer = b := by
  obtain ⟨haccepted, hsize⟩ := h
  have hcount : b.data.size = sampleCount b.extent := by
    rw [hsize, sampleCount, Extent.area, Pixel.channelCount, Nat.mul_assoc, Nat.mul_comm]
  have hexists : ∃ image, ofSamples b.extent b.space b.data = .ok image :=
    ofSamples_isOk (Extent.check_eq_ok_iff.1 haccepted) hcount
  obtain ⟨image, hmade⟩ := hexists
  obtain ⟨hextent, hspace, hsamples⟩ := ofSamples_eq_ok_iff.1 hmade
  exact ⟨image, by rw [buffer, hextent, hspace, hsamples]⟩

private theorem flatMap_samples_replicate (n : Nat) :
    (List.replicate n (default : Pixel)).flatMap Pixel.samples = List.replicate (n * 3) 0 := by
  induction n with
  | zero => rfl
  | succ n ih =>
    rw [List.replicate_succ, List.flatMap_cons, ih, Nat.succ_mul, Nat.add_comm, List.replicate_add]
    rfl

theorem blank_buffer (e : Extent) (space : ColorSpace) :
    ImageBuffer.blank e space = (Run.ofExcept (blank e space)).laidOut buffer := by
  unfold ImageBuffer.blank blank
  split
  · next hcheck =>
    have haccepted : (Run.answering e.check : Run (Flaw RasterError) Unit) = .ok () := by rw [hcheck]; rfl
    rw [haccepted]
    simp only [buffer, samples, Vector.toList_replicate, flatMap_samples_replicate, Run.ofExcept_ok,
      Run.laidOut_ok, List.toArray_replicate]
    rfl
  · next hcheck =>
    rw [hcheck]
    rfl

theorem ofSamples_buffer (e : Extent) (space : ColorSpace) (samples : Array Sample) :
    ImageBuffer.ofSamples e space samples =
      (Run.ofExcept (ofSamples e space samples)).laidOut buffer := by
  cases hmade : ofSamples e space samples with
  | ok image =>
    obtain ⟨rfl, rfl, hsamples⟩ := ofSamples_eq_ok_iff.1 hmade
    have hcheck := Extent.check_eq_ok_iff.2 image.accepted
    have hsize : samples.size = image.extent.width * image.extent.height * Pixel.channelCount := by
      have hlength := image.length_samples
      rw [hsamples, Array.length_toList, Nat.mul_comm] at hlength
      exact hlength
    rw [ImageBuffer.ofSamples, hcheck]
    change (if _ then _ else _) = Except.ok image.buffer
    rw [if_pos hsize, buffer, hsamples]
    rfl
  | error error =>
    unfold ofSamples at hmade
    split at hmade
    · next hcheck =>
      obtain rfl := Except.error.inj hmade
      rw [ImageBuffer.ofSamples, hcheck]
      rfl
    · next hcheck =>
      split at hmade
      · cases hmade
      · next hsize =>
        obtain rfl := Except.error.inj hmade
        rw [ImageBuffer.ofSamples, hcheck]
        exact if_neg hsize

/-- The samples of a pixel lie in the buffer. -/
theorem getElem?_buffer (image : Image) {x y : Nat} (hin : image.extent.Contains x y) :
    image.buffer.data[image.buffer.index x y]? = some (image.pixel x y).first ∧
      image.buffer.data[image.buffer.index x y + 1]? = some (image.pixel x y).second ∧
        image.buffer.data[image.buffer.index x y + 2]? = some (image.pixel x y).third := by
  have hlt := Extent.index_lt_area hin
  have hpixel : image.pixel x y = assemble image.buffer.data (image.extent.index x y) := by
    rw [pixel_of_contains hin]
    exact (image.assemble_samples hlt).symm
  have hsize : image.buffer.data.size = 3 * image.extent.area := image.length_samples
  have hread {i : Nat} (hi : i < 3 * image.extent.area) :
      image.buffer.data[i]? = some (image.buffer.data.getD i 0) := by
    rw [Array.getD_eq_getD_getElem?, Array.getElem?_eq_getElem (hsize ▸ hi), Option.getD_some]
  rw [hpixel, index_buffer]
  exact ⟨hread (by omega), hread (by omega), hread (by omega)⟩

/-- The samples of every pixel inside lie in the buffer. -/
theorem get?_buffer (image : Image) (x y : Nat) :
    (image.buffer.get? x y : Run (Flaw ε) (Option Pixel)) = .ok (image.get? x y) := by
  unfold ImageBuffer.get?
  by_cases hin : image.extent.Contains x y
  · obtain ⟨hfirst, hsecond, hthird⟩ := image.getElem?_buffer hin
    rw [extent_buffer, if_neg fun h => Extent.not_contains_iff.2 h hin, get?_eq_some_pixel hin]
    simp only [Buffer.read, hfirst, hsecond, hthird]
    rfl
  · rw [extent_buffer, if_pos (Extent.not_contains_iff.1 hin), get?, if_neg hin]

private theorem flatMap_samples_set {pixels : List Pixel} {i : Nat} (hi : i < pixels.length) (p : Pixel) :
    (pixels.set i p).flatMap Pixel.samples = (pixels.flatMap Pixel.samples).take (3 * i) ++ p.samples ++
      (pixels.flatMap Pixel.samples).drop (3 * i + 3) := by
  -- three samples further on is one pixel further on
  induction pixels generalizing i with
  | nil => simp at hi
  | cons q pixels ih =>
    cases i with
    | zero => simp [Pixel.samples]
    | succ i =>
      have hi' : i < pixels.length := by simpa using hi
      rw [List.set_cons_succ, List.flatMap_cons, ih hi']
      simp [Pixel.samples, Nat.mul_add]

theorem set_buffer (image : Image) (x y : Nat) (p : Pixel) :
    image.buffer.set x y p = (Run.ofExcept (image.set x y p)).laidOut buffer := by
  unfold ImageBuffer.set set
  by_cases hin : image.extent.Contains x y
  · rw [extent_buffer, if_neg fun h => Extent.not_contains_iff.2 h hin, dif_pos hin]
    have hlt := Extent.index_lt_area hin
    have hsize : image.buffer.data.size = 3 * image.extent.area := image.length_samples
    have hthree : p.samples.toArray.size = 3 := rfl
    have hdata : image.buffer.data.extract 0 (3 * image.extent.index x y) ++ p.samples.toArray ++
        image.buffer.data.extract (3 * image.extent.index x y + 3) image.buffer.data.size =
        ((image.pixels.toList.set (image.extent.index x y) p).flatMap Pixel.samples).toArray := by
      rw [flatMap_samples_set (by simpa using hlt)]
      simp [buffer, samples, List.extract_eq_take_drop]
    rw [index_buffer, Buffer.splice_of_le (by omega), hthree]
    simp only [Run.ofExcept_ok, Run.laidOut_ok, bind, Except.bind, hdata]
    simp only [buffer, samples, Vector.toList_set]
    rfl
  · rw [extent_buffer, if_pos (Extent.not_contains_iff.1 hin), dif_neg hin]
    rfl

theorem expectSpace_buffer (image : Image) (space : ColorSpace) :
    image.buffer.expectSpace space = (Run.ofExcept (image.expectSpace space)).laidOut id := by
  unfold ImageBuffer.expectSpace expectSpace
  change (if image.space = space then _ else _) = _
  split <;> rfl

theorem recode_buffer (source target : ColorSpace) (f : Pixel → Checked Pixel) (image : Image) :
    image.buffer.recode source target f = (image.recode source target f).laidOut buffer := by
  unfold ImageBuffer.recode recode
  refine Run.laidOut_bind id (expectSpace_buffer image source) fun _ _ => ?_
  have hpixels : image.pixels.toList.mapM f = (image.extent.tabulateM fun x y =>
      f (image.pixel x y)).map Vector.toList := by
    rw [Extent.tabulateM, map_toList_ofFnM fun i =>
      f (image.pixel (i % image.extent.width) (i / image.extent.width)), toList_pixels, List.mapM_map]
    rfl
  rw [toList_data, ImageBuffer.rewriteChunks_flatMap, hpixels]
  cases image.extent.tabulateM fun x y => f (image.pixel x y) with
  | error fault => rfl
  | ok pixels => rfl

theorem channel_buffer (image : Image) (c : Channel) :
    image.buffer.channel c = (image.channel c).buffer := by
  rw [ImageBuffer.channel, toList_data, ImageBuffer.chunks_flatMap, channel, Plane.buffer]
  rw [← List.map_toArray]
  simp only [Vector.toArray_map]
  rfl

theorem setChannel_buffer (image : Image) (c : Channel) (plane : Plane) :
    image.buffer.setChannel c plane.buffer =
      (Run.ofExcept (image.setChannel c plane)).laidOut buffer := by
  rw [ofExcept_setChannel]
  refine Run.laidOut_bind id (plane.expectExtent_buffer image.extent) fun _ hchecked => ?_
  have hextent := Plane.expectExtent_eq_ok_iff.1 (Run.ofExcept_eq_ok_iff.1 hchecked)
  have hplane := Plane.toList_data hextent
  have hpixels : (image.extent.tabulate fun x y => (image.pixel x y).set c (plane.sample x y)).toList =
      (List.range image.extent.area).map fun i =>
        (image.pixel (i % image.extent.width) (i / image.extent.width)).set c
          (plane.sample (i % image.extent.width) (i / image.extent.width)) := by
    apply List.ext_getElem
    · simp
    · intro i _ _
      simp [Extent.tabulate]
  rw [Extent.tabulateM_ok, toList_data, toList_pixels, hplane, ImageBuffer.replaceChannel_flatMap, ← hpixels]
  rfl

theorem levels_buffer (image : Image) : image.buffer.levels = image.levels.laidOut buffer := by
  rw [ImageBuffer.levels, levels, mapPixels, recode_buffer, Run.laidOut_restate]

theorem toHsv_buffer (image : Image) : image.buffer.toHsv = image.toHsv.laidOut buffer := by
  rw [ImageBuffer.toHsv, toHsv, recode_buffer, Run.laidOut_restate]

theorem toRgb_buffer (image : Image) : image.buffer.toRgb = image.toRgb.laidOut buffer := by
  rw [ImageBuffer.toRgb, toRgb, recode_buffer, Run.laidOut_restate]

end Image

end Acutance
