import Acutance.Raster.Error

namespace Acutance

/-- A raster of single samples with at least one place. It is looked at through `Plane.sample`, the
sample at a place. -/
structure Plane where
  extent : Extent
  nonempty : extent.Nonempty
  samples : Vector Sample extent.area
  deriving DecidableEq

namespace Plane

/-- The number of bytes that a sample takes. -/
def sampleBytes : Nat := 4

/-- The first number of bytes that memory cannot address in one piece. It takes 64 bits. -/
def addressLimit : Nat := 9223372036854775808

/-- A plane of zeros. -/
def zeros (e : Extent) : Run RasterError Plane :=
  if h : e.Nonempty then
    if addressLimit ≤ e.area * sampleBytes then .error (.fault .capacityOverflow)
    else .ok ⟨e, h, Vector.replicate e.area 0⟩
  else .error (.error (.emptyExtent e))

/-- A plane of the given samples, which stand row by row. -/
def ofSamples (e : Extent) (samples : Array Sample) : Except RasterError Plane :=
  if hne : e.Nonempty then
    if hsize : samples.size = e.area then .ok ⟨e, hne, ⟨samples, hsize⟩⟩
    else .error (.sampleCount e.area samples.size)
  else .error (.emptyExtent e)

/-- The sample at a place, if the place is inside. -/
def get? (p : Plane) (x y : Nat) : Option Sample :=
  if p.extent.Contains x y then p.samples[p.extent.index x y]? else none

/-- The sample at a place. It is zero outside. -/
def sample (p : Plane) (x y : Nat) : Sample := (p.get? x y).getD 0

/-- Replaces the sample at a place. Nothing changes when the place is outside. -/
def put (p : Plane) (x y : Nat) (s : Sample) : Plane :=
  if h : p.extent.Contains x y then
    { p with samples := p.samples.set (p.extent.index x y) s (Extent.index_lt_area h) }
  else p

/-- Replaces the sample at a place, and refuses a place outside. -/
def set (p : Plane) (x y : Nat) (s : Sample) : Except RasterError Plane :=
  if p.extent.Contains x y then .ok (p.put x y s)
  else .error (.outOfBounds (p.extent.index x y) p.extent.area)

/-- The samples of a row from left to right. They are zero outside. -/
def rowSamples (p : Plane) (y : Nat) : List Sample :=
  (List.range p.extent.width).map fun x => p.sample x y

/-- The samples of a row. There is no row at or below the bottom edge. -/
def row (p : Plane) (y : Nat) : Checked (List Sample) :=
  if y < p.extent.height then .ok (p.rowSamples y) else .error .rowOutOfRange

/-- Gives every sample of a row one value. -/
def fillRow (p : Plane) (y : Nat) (s : Sample) : Checked Plane :=
  if y < p.extent.height then .ok ((List.range p.extent.width).foldl (fun q x => q.put x y s) p)
  else .error .rowOutOfRange

/-- The plane of the same extent that holds zeros. -/
def clear (p : Plane) : Plane := { p with samples := Vector.replicate p.extent.area 0 }

/-- A plane of the same extent, filled place by place. The first place that faults ends it. -/
def fillM (p : Plane) (f : Nat → Nat → Checked Sample) : Checked Plane := do
  return { p with samples := ← p.extent.tabulateM f }

/-- Refuses a plane whose extent is not the expected one. -/
def expectExtent (p : Plane) (expected : Extent) : Except RasterError Unit :=
  if p.extent = expected then .ok () else .error (.extentMismatch expected p.extent)

private theorem get?_of_contains {p : Plane} {x y : Nat} (hin : p.extent.Contains x y) :
    p.get? x y = some (p.samples.get ⟨p.extent.index x y, Extent.index_lt_area hin⟩) := by
  rw [get?, if_pos hin, Vector.getElem?_eq_getElem (Extent.index_lt_area hin)]
  rfl

theorem sample_of_contains {p : Plane} {x y : Nat} (hin : p.extent.Contains x y) :
    p.sample x y = p.samples.get ⟨p.extent.index x y, Extent.index_lt_area hin⟩ := by
  rw [sample, get?_of_contains hin, Option.getD_some]

theorem sample_mk {e : Extent} {hne : e.Nonempty} {samples : Vector Sample e.area} {x y : Nat}
    (hin : e.Contains x y) : (⟨e, hne, samples⟩ : Plane).sample x y =
      samples.get ⟨e.index x y, Extent.index_lt_area hin⟩ :=
  sample_of_contains (p := ⟨e, hne, samples⟩) hin

theorem sample_of_not_contains {p : Plane} {x y : Nat} (hout : ¬ p.extent.Contains x y) :
    p.sample x y = 0 := by
  rw [sample, get?, if_neg hout, Option.getD_none]

/-- Reading inside a plane gives the sample at the place. -/
theorem get?_eq_some_sample {p : Plane} {x y : Nat} (hin : p.extent.Contains x y) :
    p.get? x y = some (p.sample x y) := by
  rw [get?_of_contains hin, sample_of_contains hin]

/-- Planes of one extent are equal when they agree at every place inside. -/
theorem ext_sample {p q : Plane} (hextent : p.extent = q.extent)
    (hsample : ∀ x y, p.extent.Contains x y → p.sample x y = q.sample x y) : p = q := by
  obtain ⟨e, hne, samples⟩ := p
  obtain ⟨e', hne', samples'⟩ := q
  simp only at hextent
  subst hextent
  congr 1
  apply Vector.ext
  intro i hi
  have hin := Extent.contains_of_lt_area hi
  have h := hsample _ _ hin
  rw [sample_of_contains hin, sample_of_contains hin] at h
  simp only [Extent.index_mod_div] at h
  exact h

@[simp] theorem extent_put (p : Plane) (x y : Nat) (s : Sample) :
    (p.put x y s).extent = p.extent := by
  unfold put
  split <;> rfl

/-- After a replacement, the place holds the new sample and every other place its own. -/
theorem sample_put {p : Plane} {x y : Nat} {s : Sample} (hin : p.extent.Contains x y)
    (x' y' : Nat) : (p.put x y s).sample x' y' = if x' = x ∧ y' = y then s else p.sample x' y' := by
  by_cases hin' : p.extent.Contains x' y'
  · have hset : (p.samples.set (p.extent.index x y) s (Extent.index_lt_area hin)).get
        ⟨p.extent.index x' y', Extent.index_lt_area hin'⟩ =
        if p.extent.index x y = p.extent.index x' y' then s
        else p.samples.get ⟨p.extent.index x' y', Extent.index_lt_area hin'⟩ :=
      Vector.getElem_set (Extent.index_lt_area hin) (Extent.index_lt_area hin')
    rw [put, dif_pos hin, sample_mk hin', hset, sample_of_contains hin']
    simp only [Extent.index_inj hin.1 hin'.1, eq_comm]
  · have hout : ¬ (p.put x y s).extent.Contains x' y' := by rwa [extent_put]
    rw [sample_of_not_contains hout, sample_of_not_contains hin', if_neg]
    rintro ⟨rfl, rfl⟩
    exact hin' hin

/-- A plane is filled when no place faults, and then holds every sample that it was filled with. -/
theorem fillM_eq_ok_iff {p q : Plane} {f : Nat → Nat → Checked Sample} :
    p.fillM f = .ok q ↔ q.extent = p.extent ∧
      ∀ x y, p.extent.Contains x y → f x y = .ok (q.sample x y) := by
  constructor
  · intro h
    cases hfill : p.extent.tabulateM f with
    | error fault => rw [fillM, hfill] at h; cases h
    | ok samples =>
      rw [fillM, hfill] at h
      obtain rfl : { p with samples } = q := Except.ok.inj h
      refine ⟨rfl, fun x y hin => ?_⟩
      rw [sample_mk hin]
      exact Extent.tabulateM_eq_ok_iff.1 hfill x y hin
  · obtain ⟨e, hne, samples⟩ := q
    rintro ⟨hextent, hfilled⟩
    simp only at hextent
    subst hextent
    have hfill : p.extent.tabulateM f = .ok samples :=
      Extent.tabulateM_eq_ok_iff.2 fun x y hin => by
        rw [hfilled x y hin, sample_mk hin]
    rw [fillM, hfill]
    rfl

end Plane

end Acutance
