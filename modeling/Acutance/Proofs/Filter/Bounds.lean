import Acutance.Proofs.Filter.Columns

namespace Acutance

/-- A computation that stops when it would touch what is not there, and names the place. -/
abbrev Guarded := Run (Nat × Nat)

/-- What was asked for at a place, if it is there. -/
def Guarded.ofOption {α : Type} (x y : Nat) : Option α → Guarded α
  | some a => .ok a
  | none => .error (.error (x, y))

private theorem Guarded.mapM_ofOption (x y : Nat) (l : List Sample) :
    (List.range l.length).mapM (fun i => Guarded.ofOption x y l[i]?) = .ok l := by
  have hreads : (List.range l.length).mapM (fun i => Guarded.ofOption x y l[i]?) =
      .ok ((List.range l.length).map fun i => l.getD i 0) := by
    refine mapM_eq_ok_map fun i hi => ?_
    simp [ofOption, List.mem_range.1 hi]
  rw [hreads]
  congr 1
  apply List.ext_getElem
  · simp
  · intro i _ hi
    simp [hi]

namespace Plane

/-- The sample at a place inside. -/
def read (p : Plane) (x y : Nat) : Guarded Sample := Guarded.ofOption x y (p.get? x y)

/-- Replaces the sample at a place inside. -/
def write (p : Plane) (x y : Nat) (s : Sample) : Guarded Plane :=
  if p.extent.Contains x y then .ok (p.put x y s) else .error (.error (x, y))

private theorem read_of_contains {p : Plane} {x y : Nat} (hin : p.extent.Contains x y) :
    p.read x y = .ok (p.sample x y) := by
  rw [read, get?_eq_some_sample hin]
  rfl

private theorem write_of_contains {p : Plane} {x y : Nat} (hin : p.extent.Contains x y) (s : Sample) :
    p.write x y s = .ok (p.put x y s) := if_pos hin

end Plane

namespace Kernel

variable {k : Kernel}

/-- `smooth` with every access guarded. -/
def smoothGuarded (k : Kernel) (p : Plane) (x y : Nat) : Guarded Sample :=
  if x < k.radius ∨ p.extent.width ≤ x + k.radius then p.read x y
  else do
    let values ← (List.range k.size).mapM fun i => p.read (x - k.radius + i) y
    let sum ← Run.ofChecked (k.weigh values)
    Run.ofChecked (k.scaleDown sum)

/-- `sweepRow` with every access guarded. -/
def sweepRowGuarded (k : Kernel) (x : Nat) (state : Plane × List Sample) (y : Nat) :
    Guarded (Plane × List Sample) := do
  let (plane, window) := state
  let current ← plane.read x y
  let above ← (List.range k.radius).mapM fun i => Guarded.ofOption x y window[i]?
  let below ← (List.range (k.radius + 1)).mapM fun i => plane.read x (y + i)
  let sum ← Run.ofChecked (k.weighBiased current.toInt (above ++ below))
  match window with
  | [] => .error (.fault .emptyWindow)
  | _ :: kept =>
    let detail ← Run.ofChecked (k.scaleDown sum)
    let plane ← plane.write x y detail
    return (plane, kept ++ [current])

/-- `clearRows` with every access guarded. -/
def clearRowsGuarded (x : Nat) (plane : Plane) (rows : List Nat) : Guarded Plane :=
  rows.foldlM (fun p y => p.write x y 0) plane

/-- `sweepColumn` with every access guarded. -/
def sweepColumnGuarded (k : Kernel) (plane : Plane) (x : Nat) : Guarded Plane :=
  let height := plane.extent.height
  let radius := k.radius
  if height ≤ 2 * radius then clearRowsGuarded x plane (List.range height)
  else do
    let window ← (List.range radius).mapM fun y => plane.read x y
    let plane ← clearRowsGuarded x plane (List.range radius)
    let rows := List.range' radius (height - 2 * radius)
    let (plane, _) ← rows.foldlM (k.sweepRowGuarded x) (plane, window)
    clearRowsGuarded x plane (List.range' (height - radius) radius)

/-- No tap of the row pass stands outside the plane. -/
theorem smoothGuarded_eq {p : Plane} {x y : Nat} (hin : p.extent.Contains x y) :
    k.smoothGuarded p x y = Run.ofChecked (k.smooth p x y) := by
  unfold smoothGuarded smooth
  by_cases hedge : x < k.radius ∨ p.extent.width ≤ x + k.radius
  · rw [if_pos hedge, if_pos hedge]
    exact Plane.read_of_contains hin
  · have hreads : (List.range k.size).mapM (fun i => p.read (x - k.radius + i) y) =
        .ok (k.rowWindow p x y) := by
      refine mapM_eq_ok_map fun i hi => Plane.read_of_contains ⟨?_, hin.2⟩
      have hsize := k.size_eq
      have hlast := List.mem_range.1 hi
      omega
    rw [if_neg hedge, if_neg hedge, hreads, Run.ofChecked_bind]
    rfl

private theorem clearRowsGuarded_eq {p : Plane} {x : Nat} {rows : List Nat}
    (hin : ∀ y ∈ rows, p.extent.Contains x y) :
    clearRowsGuarded x p rows = .ok (clearRows x p rows) := by
  induction rows generalizing p with
  | nil => rfl
  | cons y rows ih =>
    have hrest := ih (p := p.put x y 0) fun y' hy' => by
      rw [Plane.extent_put]
      exact hin y' (by simp [hy'])
    rw [clearRowsGuarded, List.foldlM_cons, Plane.write_of_contains (hin y (by simp))]
    exact hrest

private theorem sweepRowGuarded_eq {old : Plane} {x y : Nat} {state : Plane × List Sample}
    (hswept : SweptTo k old x y state) (hx : x < old.extent.width)
    (hheight : y + k.radius < old.extent.height) :
    k.sweepRowGuarded x state y = Run.ofChecked (k.sweepRow x state y) := by
  obtain ⟨plane, window⟩ := state
  have hextent : plane.extent = old.extent := hswept.extent_eq
  have hlength : window.length = k.radius := by
    rw [show window = k.above old x y from hswept.window_eq, above]
    simp
  have hcurrent : plane.read x y = .ok (plane.sample x y) :=
    Plane.read_of_contains (by rw [hextent]; exact ⟨hx, by omega⟩)
  have habove : (List.range k.radius).mapM (fun i => Guarded.ofOption x y window[i]?) =
      .ok window := by
    rw [← hlength]
    exact Guarded.mapM_ofOption x y window
  have hbelow : (List.range (k.radius + 1)).mapM (fun i => plane.read x (y + i)) =
      .ok ((List.range (k.radius + 1)).map fun i => plane.sample x (y + i)) := by
    refine mapM_eq_ok_map fun i hi => Plane.read_of_contains ?_
    have hlast := List.mem_range.1 hi
    rw [hextent]
    exact ⟨hx, by omega⟩
  simp only [sweepRowGuarded, sweepRow, hcurrent, habove, hbelow, bind, Except.bind]
  cases k.weighBiased (plane.sample x y).toInt
      (window ++ (List.range (k.radius + 1)).map fun i => plane.sample x (y + i)) with
  | error fault => rfl
  | ok sum =>
    cases window with
    | nil => rfl
    | cons oldest kept =>
      simp only [Run.ofChecked_ok]
      cases k.scaleDown sum with
      | error fault => rfl
      | ok detail =>
        have hwrite := Plane.write_of_contains (p := plane) (x := x) (y := y)
          (by rw [hextent]; exact ⟨hx, by omega⟩) detail
        simp only [Run.ofChecked_ok, hwrite]
        rfl

private theorem sweepColumnGuarded_eq {p : Plane} {x : Nat} (hx : x < p.extent.width) :
    k.sweepColumnGuarded p x = Run.ofChecked (k.sweepColumn p x) := by
  unfold sweepColumnGuarded sweepColumn
  by_cases hheight : p.extent.height ≤ 2 * k.radius
  · rw [if_pos hheight, if_pos hheight]
    exact clearRowsGuarded_eq fun y hy => ⟨hx, List.mem_range.1 hy⟩
  · have hwindow : (List.range k.radius).mapM (fun y => p.read x y) =
        .ok ((List.range k.radius).map fun y => p.sample x y) := by
      refine mapM_eq_ok_map fun y hy => Plane.read_of_contains ⟨hx, ?_⟩
      have hrow := List.mem_range.1 hy
      omega
    have hcleared : clearRowsGuarded x p (List.range k.radius) =
        .ok (clearRows x p (List.range k.radius)) :=
      clearRowsGuarded_eq fun y hy => ⟨hx, by have hrow := List.mem_range.1 hy; omega⟩
    have hrows : (List.range' k.radius (p.extent.height - 2 * k.radius)).foldlM
        (k.sweepRowGuarded x) (clearRows x p (List.range k.radius),
          (List.range k.radius).map fun y => p.sample x y) =
        Run.ofChecked ((List.range' k.radius (p.extent.height - 2 * k.radius)).foldlM
          (k.sweepRow x) (clearRows x p (List.range k.radius),
            (List.range k.radius).map fun y => p.sample x y)) :=
      foldlM_range'_ofChecked (fun y state => SweptTo k p x y state)
        (fun y state next hy hlast hswept => hswept.step hx hy (by omega))
        (fun y state hy hlast hswept => sweepRowGuarded_eq hswept hx (by omega))
        (SweptTo.start k p x)
    rw [if_neg hheight, if_neg hheight, hwindow, Run.ofChecked_bind]
    simp only [bind, Except.bind, hcleared, hrows]
    cases hrun : (List.range' k.radius (p.extent.height - 2 * k.radius)).foldlM (k.sweepRow x)
        (clearRows x p (List.range k.radius), (List.range k.radius).map fun y => p.sample x y) with
    | error fault => rfl
    | ok state =>
      have hextent := ((SweptTo.start k p x).run hx (by omega) hrun).extent_eq
      refine clearRowsGuarded_eq fun y hy => ?_
      have hrow := List.mem_range'_1.1 hy
      rw [hextent]
      exact ⟨hx, by omega⟩

end Kernel

namespace Plane

/-- `detailColumns` with every access guarded. -/
def detailColumnsGuarded (plane : Plane) (k : Kernel) : Guarded Plane :=
  (List.range plane.extent.width).foldlM k.sweepColumnGuarded plane

/-- The column pass touches no place outside the plane, and reads no row past its window. -/
theorem detailColumnsGuarded_eq (p : Plane) (k : Kernel) :
    p.detailColumnsGuarded k = Run.ofChecked (p.detailColumns k) := by
  have hstart : k.DetailedTo p 0 p := ⟨rfl, by simp, fun _ _ _ => rfl⟩
  rw [detailColumnsGuarded, detailColumns, List.range_eq_range']
  refine foldlM_range'_ofChecked (k.DetailedTo p) ?_ ?_ hstart
  · intro x r r' _ hx hr
    exact hr.step (by omega)
  · intro x r _ hx hr
    exact Kernel.sweepColumnGuarded_eq (by rw [hr.extent_eq]; omega)

end Plane

end Acutance
