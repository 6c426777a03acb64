namespace Acutance

/-- The width and height of a raster, in pixels. -/
structure Extent where
  width : Nat
  height : Nat
  deriving DecidableEq, Repr

namespace Extent

/-- The number of places in a raster. -/
def area (e : Extent) : Nat := e.width * e.height

/-- Whether a raster has any place at all. -/
def Nonempty (e : Extent) : Prop := 0 < e.width ∧ 0 < e.height

instance (e : Extent) : Decidable e.Nonempty := inferInstanceAs (Decidable (_ ∧ _))

/-- Whether column `x` of row `y` lies in the raster. -/
def Contains (e : Extent) (x y : Nat) : Prop := x < e.width ∧ y < e.height

instance (e : Extent) (x y : Nat) : Decidable (e.Contains x y) :=
  inferInstanceAs (Decidable (_ ∧ _))

/-- The number of a place, counted row by row. It is also computed for places outside. -/
def index (e : Extent) (x y : Nat) : Nat := y * e.width + x

/-- The extent as it is written in messages. -/
def render (e : Extent) : String := s!"{e.width}x{e.height}"

/-- A place in the raster has a number below the area. -/
theorem index_lt_area {e : Extent} {x y : Nat} (hin : e.Contains x y) : e.index x y < e.area := by
  obtain ⟨hx, hy⟩ := hin
  have hrow : (y + 1) * e.width ≤ e.height * e.width := Nat.mul_le_mul_right _ hy
  rw [Nat.succ_mul] at hrow
  rw [index, area, Nat.mul_comm e.width]
  omega

/-- The column is read off the number of a place. -/
theorem index_mod {e : Extent} {x y : Nat} (hx : x < e.width) : e.index x y % e.width = x := by
  rw [index, Nat.mul_comm, Nat.mul_add_mod, Nat.mod_eq_of_lt hx]

/-- The row is read off the number of a place. -/
theorem index_div {e : Extent} {x y : Nat} (hx : x < e.width) : e.index x y / e.width = y := by
  have hw : 0 < e.width := Nat.zero_lt_of_lt hx
  rw [index, Nat.mul_comm, Nat.mul_add_div hw, Nat.div_eq_of_lt hx, Nat.add_zero]

/-- Every number below the area belongs to a place in the raster. -/
theorem contains_of_lt_area {e : Extent} {i : Nat} (hi : i < e.area) :
    e.Contains (i % e.width) (i / e.width) := by
  have hw : 0 < e.width := by
    rcases Nat.eq_zero_or_pos e.width with h | h
    · simp [area, h] at hi
    · exact h
  exact ⟨Nat.mod_lt _ hw, Nat.div_lt_of_lt_mul hi⟩

/-- The place that belongs to a number has that number. -/
theorem index_mod_div (e : Extent) (i : Nat) : e.index (i % e.width) (i / e.width) = i := by
  rw [index, Nat.mul_comm, Nat.div_add_mod]

/-- A raster filled place by place, row by row from the top left. -/
def tabulate {α : Type} (e : Extent) (f : Nat → Nat → α) : Vector α e.area :=
  Vector.ofFn fun i => f (i % e.width) (i / e.width)

/-- A raster filled place by place, row by row. The first place that stops ends the filling. -/
def tabulateM {ε α : Type} (e : Extent) (f : Nat → Nat → Except ε α) :
    Except ε (Vector α e.area) :=
  Vector.ofFnM fun i => f (i % e.width) (i / e.width)

/-- A vector that is filled in order is filled when no entry stops, and then holds every entry. -/
theorem ofFnM_eq_ok_iff {ε α : Type} {n : Nat} {f : Fin n → Except ε α} {v : Vector α n} :
    Vector.ofFnM f = .ok v ↔ ∀ i (hi : i < n), f ⟨i, hi⟩ = .ok v[i] := by
  constructor
  · intro h
    induction n with
    | zero => exact fun i hi => absurd hi (Nat.not_lt_zero i)
    | succ n ih =>
      rw [Vector.ofFnM_succ] at h
      cases hinit : Vector.ofFnM fun i : Fin n => f i.castSucc with
      | error e => rw [hinit] at h; cases h
      | ok init =>
        cases hlast : f (Fin.last n) with
        | error e => rw [hinit, hlast] at h; cases h
        | ok last =>
          rw [hinit, hlast] at h
          obtain rfl : init.push last = v := Except.ok.inj h
          intro i hi
          rcases Nat.lt_succ_iff_lt_or_eq.1 hi with hlt | rfl
          · rw [Vector.getElem_push_lt hlt]
            exact ih hinit i hlt
          · rw [Vector.getElem_push_eq]
            exact hlast
  · intro h
    have hf : f = fun i => pure v[i] := funext fun i => h i i.isLt
    rw [hf, Vector.ofFnM_pure]
    congr 1
    apply Vector.ext
    intro i hi
    rw [Vector.getElem_ofFn]
    rfl

/-- A filled raster holds at every place what the place was filled with. -/
theorem tabulateM_eq_ok_iff {ε α : Type} {e : Extent} {f : Nat → Nat → Except ε α}
    {v : Vector α e.area} :
    e.tabulateM f = .ok v ↔
      ∀ x y (hin : e.Contains x y), f x y = .ok (v.get ⟨e.index x y, index_lt_area hin⟩) := by
  rw [tabulateM, ofFnM_eq_ok_iff]
  constructor
  · intro h x y hin
    have hentry := h (e.index x y) (index_lt_area hin)
    simp only [index_mod hin.1, index_div hin.1] at hentry
    exact hentry
  · intro h i hi
    have hentry := h _ _ (contains_of_lt_area hi)
    simp only [index_mod_div] at hentry
    exact hentry

/-- A filled raster holds at every place what the place was filled with. -/
theorem get_tabulate {α : Type} {e : Extent} {f : Nat → Nat → α} {x y : Nat}
    (hin : e.Contains x y) : (e.tabulate f).get ⟨e.index x y, index_lt_area hin⟩ = f x y := by
  have hfilled : (e.tabulate f).get ⟨e.index x y, index_lt_area hin⟩ =
      f (e.index x y % e.width) (e.index x y / e.width) := Vector.getElem_ofFn _
  rw [hfilled, index_mod hin.1, index_div hin.1]

/-- Two places in one raster have the same number only if they are the same. -/
theorem index_inj {e : Extent} {x y x' y' : Nat} (hx : x < e.width) (hx' : x' < e.width) :
    e.index x y = e.index x' y' ↔ x = x' ∧ y = y' := by
  constructor
  · intro h
    have hcolumn := congrArg (· % e.width) h
    have hrow := congrArg (· / e.width) h
    simp only [index_mod hx, index_mod hx'] at hcolumn
    simp only [index_div hx, index_div hx'] at hrow
    exact ⟨hcolumn, hrow⟩
  · rintro ⟨rfl, rfl⟩
    rfl

end Extent

end Acutance
