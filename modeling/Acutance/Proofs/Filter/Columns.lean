import Acutance.Proofs.Filter.Weight
import Acutance.Proofs.Loop

namespace Acutance

namespace Plane

private theorem sample_put_zero (p : Plane) (x y x' y' : Nat) :
    (p.put x y 0).sample x' y' = if x' = x ∧ y' = y then 0 else p.sample x' y' := by
  by_cases hin : p.extent.Contains x y
  · exact sample_put hin x' y'
  · rw [put, dif_neg hin]
    split
    · next h =>
      obtain ⟨rfl, rfl⟩ := h
      exact sample_of_not_contains hin
    · rfl

end Plane

namespace Kernel

variable {k : Kernel}

/-- The samples of a column in the rows under the taps before the middle one. -/
def above (k : Kernel) (p : Plane) (x y : Nat) : List Sample :=
  (List.range k.radius).map fun i => p.sample x (y - k.radius + i)

/-- The samples of a column under all taps when the middle one stands over row `y`. -/
def columnWindow (k : Kernel) (p : Plane) (x y : Nat) : List Sample :=
  (List.range k.size).map fun i => p.sample x (y - k.radius + i)

/-- The detail of a place, read off a plane in which nothing has been replaced. There is none within
the radius of the top or bottom edge, and a kernel of one tap has no window to take it from. -/
def detail (k : Kernel) (p : Plane) (x y : Nat) : Checked Sample :=
  if y < k.radius ∨ p.extent.height ≤ y + k.radius then .ok 0
  else do
    let sum ← k.weighBiased (p.sample x y).toInt (k.columnWindow p x y)
    if k.radius = 0 then .error .emptyWindow else k.scaleDown sum

theorem detail_edge {p : Plane} {x y : Nat}
    (hedge : y < k.radius ∨ p.extent.height ≤ y + k.radius) : k.detail p x y = .ok 0 :=
  if_pos hedge

theorem detail_inside {p : Plane} {x y : Nat} (htop : k.radius ≤ y)
    (hbottom : y + k.radius < p.extent.height) :
    k.detail p x y = (k.weighBiased (p.sample x y).toInt (k.columnWindow p x y) >>= fun sum =>
      if k.radius = 0 then .error .emptyWindow else k.scaleDown sum) :=
  if_neg (by omega)

/-- A detail away from the edges is the weighted sum of its column, with the sample itself added once
per tap, over the divisor. -/
theorem detail_inside_eq_ok {p : Plane} {x y : Nat} (htop : k.radius ≤ y)
    (hbottom : y + k.radius < p.extent.height) {d : Sample} (h : k.detail p x y = .ok d) :
    d = narrow ((k.size * p.grid x y + k.dot (p.grid x) (y - k.radius)).tdiv k.norm) := by
  rw [detail_inside htop hbottom, bind_eq_ok_iff] at h
  obtain ⟨sum, hsum, hscale⟩ := h
  obtain rfl := weighBiased_eq_ok hsum
  by_cases hzero : k.radius = 0
  · rw [if_pos hzero] at hscale
    cases hscale
  · rw [if_neg hzero] at hscale
    exact scaleDown_eq_ok hscale

/-- A detail is taken without a fault when there are taps around the middle one, and the mass of the
kernel and one more per tap, times the largest magnitude in its window, is a word. -/
theorem detail_inside_of_mass {p : Plane} {x y : Nat} (bound : Int) (hpos : 0 < k.radius)
    (htop : k.radius ≤ y) (hbottom : y + k.radius < p.extent.height)
    (hbound : ∀ i < k.size, |p.grid x (y - k.radius + i)| ≤ bound)
    (hmass : (k.size + k.mass) * bound ≤ 9223372036854775807) :
    k.detail p x y =
      .ok (narrow ((k.size * p.grid x y + k.dot (p.grid x) (y - k.radius)).tdiv k.norm)) := by
  have hmiddle : |p.grid x y| ≤ bound := by
    have h := hbound k.radius k.radius_lt_size
    rwa [Nat.sub_add_cancel htop] at h
  have hterms : ∑ i ∈ Finset.range k.size,
      |p.grid x y + k.tap i * p.grid x (y - k.radius + i)| ≤ 9223372036854775807 := by
    calc ∑ i ∈ Finset.range k.size, |p.grid x y + k.tap i * p.grid x (y - k.radius + i)|
        ≤ ∑ i ∈ Finset.range k.size,
            (|p.grid x y| + |k.tap i * p.grid x (y - k.radius + i)|) :=
          Finset.sum_le_sum fun i _ => abs_add_le _ _
      _ = k.size * |p.grid x y| +
            ∑ i ∈ Finset.range k.size, |k.tap i * p.grid x (y - k.radius + i)| := by
          rw [Finset.sum_add_distrib]
          simp
      _ ≤ k.size * bound + k.mass * bound :=
          add_le_add (mul_le_mul_of_nonneg_left hmiddle (by positivity)) (sum_abs_mul_le hbound)
      _ ≤ 9223372036854775807 := by
          rw [← add_mul]
          exact hmass
  have hsum := (Finset.abs_sum_le_sum_abs _ _).trans hterms
  rw [Finset.sum_add_distrib] at hsum
  simp only [Finset.sum_const, Finset.card_range, nsmul_eq_mul] at hsum
  have hweighed := weighBiased_of_abs_le (p.sample x y)
    (f := fun i => p.sample x (y - k.radius + i)) hterms
  rw [detail_inside htop hbottom, columnWindow, hweighed]
  simp only [bind, Except.bind, if_neg hpos.ne']
  exact scaleDown_of_abs_le hsum

private theorem detail_congr {p q : Plane} {x : Nat} (hextent : p.extent = q.extent)
    (hcolumn : ∀ y, p.sample x y = q.sample x y) (y : Nat) :
    k.detail p x y = k.detail q x y := by
  simp only [detail, columnWindow, hextent, hcolumn]

private theorem columnWindow_eq {p : Plane} {x y : Nat} (hy : k.radius ≤ y) :
    k.columnWindow p x y =
      k.above p x y ++ (List.range (k.radius + 1)).map fun i => p.sample x (y + i) := by
  have hsize : k.size = k.radius + (k.radius + 1) := by rw [k.size_eq]; omega
  rw [columnWindow, hsize, List.range_add, List.map_append, List.map_map, above]
  congr 1
  apply List.map_congr_left
  intro i _
  have hrow : y - k.radius + (k.radius + i) = y + i := by omega
  simp [hrow]

/-- The window of the next row: the oldest row leaves and the current one enters. -/
theorem above_succ {p : Plane} {x y : Nat} (hy : k.radius ≤ y) (hpos : 0 < k.radius) :
    k.above p x y = p.sample x (y - k.radius) :: (k.above p x y).tail ∧
      k.above p x (y + 1) = (k.above p x y).tail ++ [p.sample x y] := by
  obtain ⟨r, hr⟩ : ∃ r, k.radius = r + 1 := ⟨k.radius - 1, by omega⟩
  have hcurrent : y - r + r = y := by omega
  have hshift : ∀ i, y - (r + 1) + (i + 1) = y + 1 - (r + 1) + i := by omega
  constructor
  · simp [above, hr, List.range_succ_eq_map]
  · have hnext : k.above p x (y + 1) = (List.range r).map (fun i => p.sample x (y + 1 - (r + 1) + i)) ++
        [p.sample x y] := by
      simp [above, hr, List.range_succ, hcurrent]
    have htail : (k.above p x y).tail =
        (List.range r).map fun i => p.sample x (y + 1 - (r + 1) + i) := by
      simp [above, hr, List.range_succ_eq_map, Function.comp_def, hshift]
    rw [hnext, htail]

private theorem extent_clearRows (x : Nat) (p : Plane) (rows : List Nat) :
    (clearRows x p rows).extent = p.extent := by
  induction rows generalizing p with
  | nil => rfl
  | cons y rows ih => exact (ih (p.put x y 0)).trans (p.extent_put x y 0)

private theorem sample_clearRows (x : Nat) (p : Plane) (rows : List Nat) (x' y' : Nat) :
    (clearRows x p rows).sample x' y' =
      if x' = x ∧ y' ∈ rows then 0 else p.sample x' y' := by
  induction rows generalizing p with
  | nil => simp [clearRows]
  | cons y rows ih =>
    refine (ih (p.put x y 0)).trans ?_
    rw [Plane.sample_put_zero]
    by_cases hx : x' = x <;> by_cases hy : y' = y <;> simp [hx, hy]

/-- Column `x` has been replaced above row `y`, and the window holds what stood there. -/
structure SweptTo (k : Kernel) (old : Plane) (x y : Nat) (state : Plane × List Sample) : Prop where
  extent_eq : state.1.extent = old.extent
  window_eq : state.2 = k.above old x y
  replaced : ∀ y' < y, k.detail old x y' = .ok (state.1.sample x y')
  untouched : ∀ y', y ≤ y' → state.1.sample x y' = old.sample x y'
  beside : ∀ x' y', x' ≠ x → state.1.sample x' y' = old.sample x' y'

namespace SweptTo

variable {old : Plane} {x y : Nat} {state : Plane × List Sample}

theorem start (k : Kernel) (old : Plane) (x : Nat) :
    SweptTo k old x k.radius (clearRows x old (List.range k.radius),
      (List.range k.radius).map fun y => old.sample x y) where
  extent_eq := extent_clearRows x old _
  window_eq := by simp [above]
  replaced := by
    intro y' hy'
    rw [detail_edge (.inl hy'), sample_clearRows]
    simp [hy']
  untouched := by
    intro y' hy'
    rw [sample_clearRows, if_neg]
    simp only [List.mem_range]
    omega
  beside := by
    intro x' y' hne
    rw [sample_clearRows, if_neg (fun h => hne h.1)]

/-- One row of the sweep computes the detail of its place from the plane before the pass. -/
theorem sweepRow_eq (h : SweptTo k old x y state) (hy : k.radius ≤ y)
    (hheight : y + k.radius < old.extent.height) :
    k.sweepRow x state y = do
      let d ← k.detail old x y
      return (state.1.put x y d, k.above old x (y + 1)) := by
  obtain ⟨plane, window⟩ := state
  obtain ⟨hextent, hwindow, -, hbelow, -⟩ := h
  simp only at hextent hwindow hbelow
  have hcurrent : plane.sample x y = old.sample x y := hbelow y le_rfl
  -- the window holds the rows above as they were, and the plane still holds the others
  have hsamples : window ++ (List.range (k.radius + 1)).map (fun i => plane.sample x (y + i)) =
      k.columnWindow old x y := by
    rw [columnWindow_eq hy, hwindow]
    congr 1
    exact List.map_congr_left fun i _ => hbelow (y + i) (by omega)
  have hinside : ¬ (y < k.radius ∨ old.extent.height ≤ y + k.radius) := by omega
  rw [sweepRow, detail, if_neg hinside]
  simp only [hcurrent, hsamples]
  cases hsum : k.weighBiased (old.sample x y).toInt (k.columnWindow old x y) with
  | error fault => rfl
  | ok sum =>
    -- a kernel of one tap has no window, and its pass ends with a fault
    rcases Nat.eq_zero_or_pos k.radius with hzero | hpos
    · have hempty : window = [] := by rw [hwindow, above, hzero]; rfl
      subst hempty
      simp [hzero, bind, Except.bind]
    · obtain ⟨hcons, hnext⟩ := above_succ (p := old) (x := x) hy hpos
      rw [hwindow, hcons]
      simp only [bind, Except.bind, if_neg hpos.ne', hnext]

theorem step (h : SweptTo k old x y state) (hx : x < old.extent.width)
    (hy : k.radius ≤ y) (hheight : y + k.radius < old.extent.height) {state' : Plane × List Sample}
    (hstep : k.sweepRow x state y = .ok state') : SweptTo k old x (y + 1) state' := by
  rw [h.sweepRow_eq hy hheight, bind_eq_ok_iff] at hstep
  obtain ⟨d, hdetail, hput⟩ := hstep
  obtain rfl := Except.ok.inj hput
  have hin : state.1.extent.Contains x y := by
    rw [h.extent_eq]
    exact ⟨hx, by omega⟩
  refine ⟨(state.1.extent_put x y d).trans h.extent_eq, rfl, ?_, ?_, ?_⟩
  · intro y' hy'
    rw [Plane.sample_put hin]
    by_cases heq : y' = y
    · rw [if_pos ⟨rfl, heq⟩, heq, hdetail]
    · rw [if_neg (fun hboth => heq hboth.2)]
      exact h.replaced y' (by omega)
  · intro y' hy'
    rw [Plane.sample_put hin, if_neg (fun hboth => by omega)]
    exact h.untouched y' (by omega)
  · intro x' y' hne
    rw [Plane.sample_put hin, if_neg (fun hboth => hne hboth.1)]
    exact h.beside x' y' hne

/-- The sweep over all inner rows ends below the last of them. -/
theorem run (hx : x < old.extent.width) (hheight : 2 * k.radius ≤ old.extent.height)
    {start state' : Plane × List Sample} (h : SweptTo k old x k.radius start)
    (hrun : (List.range' k.radius (old.extent.height - 2 * k.radius)).foldlM (k.sweepRow x) start =
      .ok state') : SweptTo k old x (old.extent.height - k.radius) state' := by
  have hend := foldlM_range'_preserves (fun y state => SweptTo k old x y state)
    (fun y state next hy hlast hswept => hswept.step hx hy (by omega)) h hrun
  rwa [show k.radius + (old.extent.height - 2 * k.radius) = old.extent.height - k.radius by omega]
    at hend

/-- The sweep over all inner rows has a value when every place has its detail. -/
theorem total (hx : x < old.extent.width) {start : Plane × List Sample}
    (h : SweptTo k old x k.radius start)
    (hdetail : ∀ y < old.extent.height, ∃ d, k.detail old x y = .ok d) :
    ∃ state', (List.range' k.radius (old.extent.height - 2 * k.radius)).foldlM (k.sweepRow x)
      start = .ok state' := by
  refine foldlM_range'_total (fun y state => SweptTo k old x y state)
    (fun y state next hy hlast hswept => hswept.step hx hy (by omega)) ?_ h
  intro y state hy hlast hswept
  obtain ⟨d, hd⟩ := hdetail y (by omega)
  rw [hswept.sweepRow_eq hy (by omega), hd]
  exact ⟨_, rfl⟩

end SweptTo

/-- What a finished column holds: the detail of every place in it, and every other column as it
was. -/
structure ColumnDetailed (k : Kernel) (old : Plane) (x : Nat) (new : Plane) : Prop where
  extent_eq : new.extent = old.extent
  replaced : ∀ y < old.extent.height, k.detail old x y = .ok (new.sample x y)
  beside : ∀ x' y', x' ≠ x → new.sample x' y' = old.sample x' y'

private theorem SweptTo.finish {old : Plane} {x : Nat} {state : Plane × List Sample}
    (h : SweptTo k old x (old.extent.height - k.radius) state)
    (hheight : 2 * k.radius ≤ old.extent.height) :
    ColumnDetailed k old x (clearRows x state.1
      (List.range' (old.extent.height - k.radius) k.radius)) := by
  refine ⟨(extent_clearRows x _ _).trans h.extent_eq, ?_, ?_⟩
  · intro y hy
    rw [sample_clearRows]
    by_cases hlast : old.extent.height - k.radius ≤ y
    · rw [detail_edge (.inr (by omega)), if_pos]
      exact ⟨rfl, List.mem_range'_1.2 ⟨hlast, by omega⟩⟩
    · rw [if_neg, h.replaced y (by omega)]
      rintro ⟨-, hmem⟩
      exact hlast (List.mem_range'_1.1 hmem).1
  · intro x' y' hne
    rw [sample_clearRows, if_neg (fun hboth => hne hboth.1)]
    exact h.beside x' y' hne

/-- The sweep down a column that has only rows near its edges clears it. -/
theorem columnDetailed_clearRows {old : Plane} (x : Nat)
    (hheight : old.extent.height ≤ 2 * k.radius) :
    ColumnDetailed k old x (clearRows x old (List.range old.extent.height)) := by
  refine ⟨extent_clearRows x _ _, ?_, ?_⟩
  · intro y hy
    rw [detail_edge (by omega), sample_clearRows, if_pos ⟨rfl, List.mem_range.2 hy⟩]
  · intro x' y' hne
    rw [sample_clearRows, if_neg (fun hboth => hne hboth.1)]

private theorem sweepColumn_detailed {old new : Plane} {x : Nat} (hx : x < old.extent.width)
    (h : k.sweepColumn old x = .ok new) : ColumnDetailed k old x new := by
  rw [sweepColumn] at h
  by_cases hheight : old.extent.height ≤ 2 * k.radius
  · rw [if_pos hheight] at h
    obtain rfl := Except.ok.inj h
    exact columnDetailed_clearRows x hheight
  · rw [if_neg hheight, bind_eq_ok_iff] at h
    obtain ⟨state, hrun, hclear⟩ := h
    obtain rfl := Except.ok.inj hclear
    exact ((SweptTo.start k old x).run hx (by omega) hrun).finish (by omega)

private theorem sweepColumn_total {old : Plane} {x : Nat} (hx : x < old.extent.width)
    (hdetail : ∀ y < old.extent.height, ∃ d, k.detail old x y = .ok d) :
    ∃ new, k.sweepColumn old x = .ok new := by
  rw [sweepColumn]
  by_cases hheight : old.extent.height ≤ 2 * k.radius
  · rw [if_pos hheight]
    exact ⟨_, rfl⟩
  · obtain ⟨state, hrun⟩ := (SweptTo.start k old x).total hx hdetail
    rw [if_neg hheight]
    exact ⟨_, bind_eq_ok_iff.2 ⟨state, hrun, rfl⟩⟩

/-- The columns to the left of `x` are finished, and the others are as they were. -/
structure DetailedTo (k : Kernel) (old : Plane) (x : Nat) (new : Plane) : Prop where
  extent_eq : new.extent = old.extent
  replaced : ∀ x' < x, ∀ y < old.extent.height, k.detail old x' y = .ok (new.sample x' y)
  untouched : ∀ x' y, x ≤ x' → new.sample x' y = old.sample x' y

theorem DetailedTo.step {old p q : Plane} {x : Nat} (h : DetailedTo k old x p)
    (hx : x < old.extent.width) (hstep : k.sweepColumn p x = .ok q) :
    DetailedTo k old (x + 1) q := by
  have hcolumn : ColumnDetailed k p x q :=
    sweepColumn_detailed (by rw [h.extent_eq]; exact hx) hstep
  refine ⟨hcolumn.extent_eq.trans h.extent_eq, ?_, ?_⟩
  · intro x' hx' y hy
    by_cases heq : x' = x
    · subst heq
      rw [← detail_congr h.extent_eq (fun y' => h.untouched x' y' le_rfl) y]
      exact hcolumn.replaced y (by rw [h.extent_eq]; exact hy)
    · rw [hcolumn.beside x' y heq]
      exact h.replaced x' (by omega) y hy
  · intro x' y hx'
    rw [hcolumn.beside x' y (by omega)]
    exact h.untouched x' y (by omega)

end Kernel

namespace Plane

/-- The column pass has a value when every place has its detail, and then holds all of it: replacing
the samples in place never spoils what a later row needs. -/
theorem detailColumns_eq_ok_iff {p q : Plane} {k : Kernel} :
    p.detailColumns k = .ok q ↔ q.extent = p.extent ∧
      ∀ x y, p.extent.Contains x y → k.detail p x y = .ok (q.sample x y) := by
  have hstart : k.DetailedTo p 0 p := ⟨rfl, by simp, fun _ _ _ => rfl⟩
  have hstep : ∀ x r r', 0 ≤ x → x < 0 + p.extent.width → k.DetailedTo p x r →
      k.sweepColumn r x = .ok r' → k.DetailedTo p (x + 1) r' :=
    fun x r r' _ hx hr => hr.step (by omega)
  have hsound {r : Plane} (h : p.detailColumns k = .ok r) :
      k.DetailedTo p (0 + p.extent.width) r := by
    rw [detailColumns, List.range_eq_range'] at h
    exact foldlM_range'_preserves (k.DetailedTo p) hstep hstart h
  constructor
  · intro h
    have hend := hsound h
    exact ⟨hend.extent_eq, fun x y hin => hend.replaced x (by have := hin.1; omega) y hin.2⟩
  · rintro ⟨hextent, hdetail⟩
    have htotal : ∃ r, p.detailColumns k = .ok r := by
      rw [detailColumns, List.range_eq_range']
      refine foldlM_range'_total (k.DetailedTo p) hstep ?_ hstart
      intro x r _ hx hr
      refine Kernel.sweepColumn_total (by rw [hr.extent_eq]; omega) fun y hy => ?_
      rw [hr.extent_eq] at hy
      rw [Kernel.detail_congr hr.extent_eq (fun y' => hr.untouched x y' le_rfl) y]
      exact ⟨_, hdetail x y ⟨by omega, hy⟩⟩
    obtain ⟨r, hr⟩ := htotal
    have hend := hsound hr
    have heq : r = q := by
      refine ext_sample (hend.extent_eq.trans hextent.symm) fun x y hin => ?_
      rw [hend.extent_eq] at hin
      have hplace := hend.replaced x (by have := hin.1; omega) y hin.2
      exact Except.ok.inj (hplace.symm.trans (hdetail x y hin))
    rw [hr, heq]

end Plane

end Acutance
