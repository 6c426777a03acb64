import Acutance.Proofs.Buffer.Fill
import Acutance.Proofs.Buffer.Kernel
import Acutance.Proofs.Filter.Columns

namespace Acutance

variable {ε : Type}

namespace KernelBuffer

/-- The sum of the values, each weighted by the tap that stands over it. -/
def weigh (k : KernelBuffer) (values : Array Sample) : Checked Int :=
  (k.taps.toList.zip values.toList).foldlM (fun sum (tap, value) => do
    let product ← Width.bits64.mul tap.toInt value.toInt
    Width.bits64.add sum product) 0

/-- The weighted sum with `bias` added once per tap. -/
def weighBiased (k : KernelBuffer) (bias : Int) (values : List Sample) : Checked Int :=
  (k.taps.toList.zip values).foldlM (fun sum (tap, value) => do
    let product ← Width.bits64.mul tap.toInt value.toInt
    let term ← Width.bits64.add bias product
    Width.bits64.add sum term) 0

/-- A weighted sum over the divisor. -/
def scaleDown (k : KernelBuffer) (sum : Int) : Run (Flaw ε) Sample :=
  if k.norm = 0 then .error (.error .zeroDivisor)
  else do return narrow (← Run.ofChecked (Width.bits64.div sum k.norm))

/-- The smoothed sample of a column of a row. -/
def smooth (k : KernelBuffer) (width : Nat) (row : Array Sample) (x : Nat) : Run (Flaw ε) Sample :=
  if x < k.center ∨ width ≤ x + k.center then Buffer.read row x
  else do
    let window ← Buffer.slice row (x - k.center) (x + k.center + 1)
    let sum ← Run.ofChecked (k.weigh window)
    k.scaleDown sum

/-- Smooths a row into another one. -/
def smoothRow (k : KernelBuffer) (width : Nat) (row out : Array Sample) : Run (Flaw ε) (Array Sample) :=
  (List.range width).foldlM (fun out x => do Buffer.write out x (← k.smooth width row x)) out

/-- The value under a tap of a column: from the window, or from the plane when it is not above. -/
def valueUnder (k : KernelBuffer) (p : PlaneBuffer) (window : Array Sample) (x y i : Nat) :
    Run (Flaw ε) Sample :=
  if i < k.center then Buffer.read window i else p.read x (y - k.center + i)

/-- Takes the oldest sample off a window. -/
def dropOldest (window : Array Sample) : Run (Flaw ε) (Array Sample) :=
  if window.size = 0 then .error (.fault .emptyWindow) else .ok (window.extract 1 window.size)

def sweepRow (k : KernelBuffer) (x : Nat) (state : PlaneBuffer × Array Sample) (y : Nat) :
    Run (Flaw ε) (PlaneBuffer × Array Sample) := do
  let (p, window) := state
  let current ← p.read x y
  -- no value depends on the sum, so that all of them are looked up before they are weighed
  let values ← (List.range k.taps.size).mapM (k.valueUnder p window x y)
  let sum ← Run.ofChecked (k.weighBiased current.toInt values)
  let window ← dropOldest window
  let detail ← k.scaleDown sum
  let p ← p.write x y detail
  return (p, window.push current)

def clearRows (x : Nat) (p : PlaneBuffer) (rows : List Nat) : Run (Flaw ε) PlaneBuffer :=
  rows.foldlM (fun p y => p.write x y 0) p

def sweepColumn (k : KernelBuffer) (p : PlaneBuffer) (x : Nat) : Run (Flaw ε) PlaneBuffer :=
  let height := p.extent.height
  let radius := k.center
  if height ≤ 2 * radius then clearRows x p (List.range height)
  else do
    let window ← (List.range radius).mapM (p.read x)
    let p ← clearRows x p (List.range radius)
    let (p, _) ← (List.range' radius (height - 2 * radius)).foldlM (k.sweepRow x) (p, window.toArray)
    clearRows x p (List.range' (height - radius) radius)

end KernelBuffer

namespace PlaneBuffer

def smoothRows (source : PlaneBuffer) (k : KernelBuffer) (target : PlaneBuffer) :
    Run (Flaw FilterError) PlaneBuffer := do
  Run.restate (Flaw.map .raster) (target.expectExtent source.extent)
  let data ← (List.range source.extent.height).foldlM (fun data y => do
    let row ← source.row y
    let out ← PlaneBuffer.row ⟨target.extent, data⟩ y
    let out ← k.smoothRow source.extent.width row out
    Buffer.splice data (y * target.extent.width) out) target.data
  return { target with data }

def detailColumns (p : PlaneBuffer) (k : KernelBuffer) : Run (Flaw ε) PlaneBuffer :=
  (List.range p.extent.width).foldlM k.sweepColumn p

/-- Blends samples one after the other. It ends with the shorter of the two. -/
def blendAll (blend : Blend) : List Sample → List Sample → Checked (List Sample)
  | s :: samples, detail :: details => do
    let blended ← blend.apply s detail
    return blended :: (← blendAll blend samples details)
  | samples, _ => .ok samples

def sharpen (p detail : PlaneBuffer) (blend : Blend) : Run (Flaw FilterError) PlaneBuffer := do
  if blend.scale.toInt ≤ 0 then Run.answering (.error (.scale blend.scale))
  Run.restate (Flaw.map .raster) (detail.expectExtent p.extent)
  let samples ← Run.ofChecked (blendAll blend p.data.toList detail.data.toList)
  return { p with data := samples.toArray }

end PlaneBuffer

theorem Plane.size_rowSamples (p : Plane) (y : Nat) :
    (p.rowSamples y).toArray.size = p.extent.width := by
  simp [rowSamples]

namespace Kernel

variable {k : Kernel}

private theorem scaleDown_buffer (k : Kernel) (sum : Int) :
    (k.buffer.scaleDown sum : Run (Flaw ε) Sample) = Run.ofChecked (k.scaleDown sum) := by
  have hnorm : k.buffer.norm ≠ 0 := k.norm_ne_zero
  rw [KernelBuffer.scaleDown, if_neg hnorm, scaleDown]
  change (Run.ofChecked (Width.bits64.div sum k.norm) >>= _) = _
  cases Width.bits64.div sum k.norm <;> rfl

/-- No window of the row pass reaches beyond its row. -/
theorem smooth_buffer (k : Kernel) {p : Plane} {x y : Nat} (hin : p.extent.Contains x y) :
    (k.buffer.smooth p.extent.width (p.rowSamples y).toArray x : Run (Flaw ε) Sample) =
      Run.ofChecked (k.smooth p x y) := by
  have hcenter : k.buffer.center = k.radius := rfl
  unfold KernelBuffer.smooth smooth
  rw [hcenter]
  by_cases hedge : x < k.radius ∨ p.extent.width ≤ x + k.radius
  · rw [if_pos hedge, if_pos hedge, Buffer.read_of_lt (by rw [p.size_rowSamples]; exact hin.1)]
    simp [Plane.rowSamples]
  · have hwindow : (Buffer.slice (p.rowSamples y).toArray (x - k.radius) (x + k.radius + 1) :
        Run (Flaw ε) (Array Sample)) = .ok (k.rowWindow p x y).toArray := by
      rw [Buffer.slice_of_le (by omega) (by rw [p.size_rowSamples]; omega),
        List.extract_toArray, List.extract_eq_take_drop]
      have hsize := k.size_eq
      refine congrArg (fun values => Except.ok (List.toArray values)) (List.ext_getElem ?_ ?_)
      · simp only [List.length_take, List.length_drop, Plane.rowSamples, rowWindow, List.length_map,
          List.length_range]
        omega
      · simp [Plane.rowSamples, rowWindow]
    rw [if_neg hedge, if_neg hedge, hwindow]
    change (Run.ofChecked (k.weigh (k.rowWindow p x y)) >>= fun sum => k.buffer.scaleDown sum) = _
    cases k.weigh (k.rowWindow p x y) with
    | error fault => rfl
    | ok sum => exact k.scaleDown_buffer sum

private theorem smoothRow_buffer (k : Kernel) {p : Plane} {y : Nat} (hy : y < p.extent.height)
    {out : Array Sample} (hout : out.size = p.extent.width) :
    (k.buffer.smoothRow p.extent.width (p.rowSamples y).toArray out : Run (Flaw ε) (Array Sample)) =
      Run.ofChecked ((List.range p.extent.width).mapM fun x => k.smooth p x y) >>= fun values =>
        .ok values.toArray := by
  unfold KernelBuffer.smoothRow
  rw [← hout]
  exact foldlM_write fun x hx => hout ▸ k.smooth_buffer ⟨by omega, hy⟩

end Kernel

namespace Plane

section Expectation

variable {δ : Type} {f : RasterError → δ} {p : Plane} {e : Extent}

private theorem restate_expectExtent_buffer (f : RasterError → δ) (p : Plane) (e : Extent) :
    Run.restate (Flaw.map f) (p.buffer.expectExtent e) =
      ((Run.ofExcept (p.expectExtent e)).restate f).laidOut id := by
  rw [expectExtent_buffer, Run.laidOut_restate]

private theorem extent_eq_of_restate_expectExtent {u : Unit}
    (h : (Run.ofExcept (p.expectExtent e)).restate f = .ok u) : p.extent = e :=
  expectExtent_eq_ok_iff.1 (Run.ofExcept_eq_ok_iff.1 (Run.restate_eq_ok_iff.1 h))

end Expectation

/-- The row pass cuts every row and every window out of what is there. -/
theorem smoothRows_buffer (source : Plane) (k : Kernel) (target : Plane) :
    source.buffer.smoothRows k.buffer target.buffer = (source.smoothRows k target).laidOut buffer := by
  unfold PlaneBuffer.smoothRows smoothRows
  refine Run.laidOut_bind id (restate_expectExtent_buffer _ _ _) fun _ hchecked => ?_
  have hextent := extent_eq_of_restate_expectExtent hchecked
  have hsize : target.buffer.data.size = source.extent.height * source.extent.width := by
    rw [size_buffer, hextent, Extent.area, Nat.mul_comm]
  have hstep : ∀ data : Array Sample, data.size = source.extent.height * source.extent.width →
      ∀ y < source.extent.height, (do
        let row ← source.buffer.row y
        let out ← PlaneBuffer.row ⟨target.extent, data⟩ y
        let out ← k.buffer.smoothRow source.extent.width row out
        Buffer.splice data (y * target.extent.width) out : Run (Flaw FilterError) (Array Sample)) =
      Run.ofChecked ((List.range source.extent.width).mapM fun x => k.smooth source x y) >>=
        fun values => .ok (data.extract 0 (y * source.extent.width) ++ values.toArray ++
          data.extract (y * source.extent.width + source.extent.width) data.size) := by
    intro data hdata y hy
    have hend : y * source.extent.width + source.extent.width ≤ data.size := by
      rw [hdata, ← Nat.succ_mul]
      exact Nat.mul_le_mul_right _ hy
    rw [source.row_buffer hy, PlaneBuffer.row, hextent,
      Buffer.slice_of_le (Nat.le_add_right _ _) hend]
    simp only [bind, Except.bind]
    rw [k.smoothRow_buffer hy (by rw [Array.size_extract]; omega)]
    cases hvalues : (List.range source.extent.width).mapM fun x => k.smooth source x y with
    | error fault => rfl
    | ok values =>
      have hlength : values.toArray.size = source.extent.width := by
        simpa using length_of_mapM hvalues
      simp only [Run.ofChecked_ok, bind, Except.bind]
      rw [Buffer.splice_of_le (hlength ▸ hend), hlength]
  simp only [extent_buffer]
  rw [foldlM_blocks (fun y _ values h => by simpa using length_of_mapM h) hstep hsize le_rfl,
    fillM_buffer, hextent, Extent.mapM_range_area, hsize]
  cases (List.range source.extent.height).mapM fun y =>
      (List.range source.extent.width).mapM fun x => k.smooth source x y with
  | error fault => rfl
  | ok rows => simp [bind, Except.bind, Except.map, pure, Except.pure]

/-- Two buffers of one length are blended to their end. -/
theorem blendAll_map (blend : Blend) (places : List Nat) (f g : Nat → Sample) :
    PlaneBuffer.blendAll blend (places.map f) (places.map g) =
      places.mapM fun i => blend.apply (f i) (g i) := by
  induction places with
  | nil => rfl
  | cons i places ih =>
    rw [List.map_cons, List.map_cons, PlaneBuffer.blendAll, List.mapM_cons, ih]

theorem sharpen_buffer (p detail : Plane) (blend : Blend) :
    p.buffer.sharpen detail.buffer blend = (p.sharpen detail blend).laidOut buffer := by
  rw [sharpen_eq_check, checkBlend]
  unfold PlaneBuffer.sharpen
  by_cases hscale : blend.scale.toInt ≤ 0
  · rw [if_pos hscale, if_pos hscale]
    rfl
  rw [if_neg hscale, if_neg hscale]
  refine Run.laidOut_bind id (restate_expectExtent_buffer _ _ _) fun _ hchecked => ?_
  have hextent := extent_eq_of_restate_expectExtent hchecked
  rw [toList_data (rfl : p.extent = p.extent), toList_data hextent, blendAll_map, fillM_buffer]
  rfl

end Plane

namespace Kernel

variable {k : Kernel}

private theorem clearRows_buffer {p : Plane} {x : Nat} {rows : List Nat}
    (hin : ∀ y ∈ rows, p.extent.Contains x y) :
    (KernelBuffer.clearRows x p.buffer rows : Run (Flaw ε) PlaneBuffer) =
      .ok (clearRows x p rows).buffer := by
  induction rows generalizing p with
  | nil => rfl
  | cons y rows ih =>
    have hrest := ih (p := p.put x y 0) fun y' hy' => by
      rw [Plane.extent_put]
      exact hin y' (List.mem_cons_of_mem y hy')
    rw [KernelBuffer.clearRows, List.foldlM_cons, Plane.write_buffer p (hin y List.mem_cons_self)]
    exact hrest

/-- A plane and the window of a sweep over it, in buffers. -/
def sweepBuffers (state : Plane × List Sample) : PlaneBuffer × Array Sample :=
  (state.1.buffer, state.2.toArray)

private theorem length_above (k : Kernel) (p : Plane) (x y : Nat) : (k.above p x y).length = k.radius := by
  simp [above]

/-- Every tap finds its sample, in the window or in the plane. -/
theorem valuesUnder_buffer {old : Plane} {x y : Nat} {state : Plane × List Sample}
    (hswept : SweptTo k old x y state) (hx : x < old.extent.width) (hy : k.radius ≤ y)
    (hheight : y + k.radius < old.extent.height) :
    ((List.range k.buffer.taps.size).mapM
      (k.buffer.valueUnder state.1.buffer state.2.toArray x y) : Run (Flaw ε) (List Sample)) =
        .ok (k.columnWindow old x y) := by
  have htaps : k.buffer.taps.size = k.size := rfl
  have hcenter : k.buffer.center = k.radius := rfl
  have hsize := k.size_eq
  rw [htaps]
  refine mapM_eq_ok_map fun i hi => ?_
  have hlast := List.mem_range.1 hi
  rw [KernelBuffer.valueUnder, hcenter]
  by_cases habove : i < k.radius
  · have hlength : i < state.2.toArray.size := by
      rw [hswept.window_eq, List.size_toArray, length_above]
      exact habove
    rw [if_pos habove, Buffer.read_of_lt hlength]
    simp [hswept.window_eq, above]
  · have hin : state.1.extent.Contains x (y - k.radius + i) := by
      rw [hswept.extent_eq]
      exact ⟨hx, by omega⟩
    rw [if_neg habove, Plane.read_buffer _ hin, hswept.untouched _ (by omega)]

/-- A row of a sweep touches no place outside the plane and no sample outside its window. -/
theorem sweepRow_buffer {old : Plane} {x y : Nat} {state : Plane × List Sample}
    (hswept : SweptTo k old x y state) (hx : x < old.extent.width) (hy : k.radius ≤ y)
    (hheight : y + k.radius < old.extent.height) :
    (k.buffer.sweepRow x (sweepBuffers state) y : Run (Flaw ε) _) =
      Run.ofChecked ((k.sweepRow x state y).map sweepBuffers) := by
  have hin : state.1.extent.Contains x y := by
    rw [hswept.extent_eq]
    exact ⟨hx, by omega⟩
  have hcurrent : state.1.sample x y = old.sample x y := hswept.untouched y le_rfl
  rw [hswept.sweepRow_eq hy hheight, detail_inside hy hheight]
  simp only [KernelBuffer.sweepRow, sweepBuffers, Plane.read_buffer _ hin, bind, Except.bind,
    valuesUnder_buffer hswept hx hy hheight, hcurrent]
  have hweigh : k.buffer.weighBiased (old.sample x y).toInt (k.columnWindow old x y) =
      k.weighBiased (old.sample x y).toInt (k.columnWindow old x y) := rfl
  rw [hweigh]
  cases k.weighBiased (old.sample x y).toInt (k.columnWindow old x y) with
  | error fault => rfl
  | ok sum =>
    simp only [Run.ofChecked_ok]
    rcases Nat.eq_zero_or_pos k.radius with hzero | hpos
    · have hempty : state.2.toArray.size = 0 := by
        rw [hswept.window_eq, List.size_toArray, length_above, hzero]
      rw [KernelBuffer.dropOldest, if_pos hempty, if_pos hzero]
      rfl
    · obtain ⟨hcons, hnext⟩ := above_succ (p := old) (x := x) hy hpos
      have hsize : state.2.toArray.size ≠ 0 := by
        rw [hswept.window_eq, List.size_toArray, length_above]
        omega
      rw [KernelBuffer.dropOldest, if_neg hsize, if_neg hpos.ne', scaleDown_buffer]
      simp only
      cases k.scaleDown sum with
      | error fault => rfl
      | ok detail =>
        have hdrop : (state.2.toArray.extract 1 state.2.toArray.size).push (old.sample x y) =
            (k.above old x (y + 1)).toArray := by
          rw [hnext, ← hswept.window_eq]
          simp [List.extract_eq_take_drop]
        simp only [Run.ofChecked_ok, Plane.write_buffer _ hin, pure, Except.pure, Except.map, hdrop]
        rfl

/-- A sweep down a column touches no place outside the plane. -/
theorem sweepColumn_buffer (k : Kernel) {p : Plane} {x : Nat} (hx : x < p.extent.width) :
    (k.buffer.sweepColumn p.buffer x : Run (Flaw ε) PlaneBuffer) =
      Run.ofChecked ((k.sweepColumn p x).map Plane.buffer) := by
  have hcenter : k.buffer.center = k.radius := rfl
  unfold KernelBuffer.sweepColumn sweepColumn
  simp only [Plane.extent_buffer, hcenter]
  by_cases hheight : p.extent.height ≤ 2 * k.radius
  · rw [if_pos hheight, if_pos hheight]
    exact clearRows_buffer fun y hy => ⟨hx, List.mem_range.1 hy⟩
  · have hwindow : ((List.range k.radius).mapM (p.buffer.read x) : Run (Flaw ε) (List Sample)) =
        .ok ((List.range k.radius).map fun y => p.sample x y) := by
      refine mapM_eq_ok_map fun y hy => Plane.read_buffer p ⟨hx, ?_⟩
      have hrow := List.mem_range.1 hy
      omega
    have hcleared : (KernelBuffer.clearRows x p.buffer (List.range k.radius) : Run (Flaw ε) _) =
        .ok (clearRows x p (List.range k.radius)).buffer :=
      clearRows_buffer fun y hy => ⟨hx, by have hrow := List.mem_range.1 hy; omega⟩
    have hrows : (List.range' k.radius (p.extent.height - 2 * k.radius)).foldlM
        (k.buffer.sweepRow x) (sweepBuffers (clearRows x p (List.range k.radius),
          (List.range k.radius).map fun y => p.sample x y)) =
        (Run.ofChecked (((List.range' k.radius (p.extent.height - 2 * k.radius)).foldlM
          (k.sweepRow x) (clearRows x p (List.range k.radius),
            (List.range k.radius).map fun y => p.sample x y)).map sweepBuffers) : Run (Flaw ε) _) :=
      foldlM_range'_ofChecked_map sweepBuffers (fun y state => SweptTo k p x y state)
        (fun y state next hy hlast hswept => hswept.step hx hy (by omega))
        (fun y state hy hlast hswept => sweepRow_buffer hswept hx hy (by omega))
        (SweptTo.start k p x)
    rw [sweepBuffers] at hrows
    rw [if_neg hheight, if_neg hheight, hwindow]
    simp only [bind, Except.bind, hcleared, hrows]
    cases hrun : (List.range' k.radius (p.extent.height - 2 * k.radius)).foldlM (k.sweepRow x)
        (clearRows x p (List.range k.radius), (List.range k.radius).map fun y => p.sample x y) with
    | error fault => rfl
    | ok state =>
      have hextent := ((SweptTo.start k p x).run hx (by omega) hrun).extent_eq
      refine clearRows_buffer fun y hy => ?_
      have hrow := List.mem_range'_1.1 hy
      rw [hextent]
      exact ⟨hx, by omega⟩

end Kernel

namespace Plane

/-- The column pass touches no place outside the plane, reads no row past its window, and never divides by
zero. -/
theorem detailColumns_buffer (p : Plane) (k : Kernel) :
    (p.buffer.detailColumns k.buffer : Run (Flaw ε) PlaneBuffer) =
      (Run.ofChecked (p.detailColumns k)).laidOut buffer := by
  have hstart : k.DetailedTo p 0 p := ⟨rfl, by simp, fun _ _ _ => rfl⟩
  rw [Run.laidOut_ofChecked, PlaneBuffer.detailColumns, detailColumns, extent_buffer,
    List.range_eq_range']
  refine foldlM_range'_ofChecked_map buffer (k.DetailedTo p) ?_ ?_ hstart
  · intro x r r' _ hx hr
    exact hr.step (by omega)
  · intro x r _ hx hr
    exact k.sweepColumn_buffer (by rw [hr.extent_eq]; omega)

end Plane

end Acutance
