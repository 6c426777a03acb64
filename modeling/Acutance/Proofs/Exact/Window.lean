import Acutance.Proofs.Exact

namespace Acutance

namespace Exact

/-- Two places on lines of their own lengths are near the same ends. -/
structure Alike (length length' a a' : Nat) : Prop where
  start_iff : a < 3 ↔ a' < 3
  end_iff : length ≤ a + 3 ↔ length' ≤ a' + 3

theorem Alike.refl (length a : Nat) : Alike length length a a := ⟨Iff.rfl, Iff.rfl⟩

private theorem Alike.inside {length length' a a' : Nat} (h : Alike length length' a a') (hstart : 3 ≤ a)
    (hend : a + 3 < length) : 3 ≤ a' ∧ a' + 3 < length' := by
  obtain ⟨hstart_iff, hend_iff⟩ := h
  omega

/-- `b` lies at most three steps from `a`, and `b'` lies to `a'` as `b` does to `a`. -/
structure Beside (a a' b b' : Nat) : Prop where
  shift_eq : b + a' = b' + a
  start_le : a ≤ b + 3
  le_end : b ≤ a + 3

private theorem Beside.refl (a a' : Nat) : Beside a a' a a' := ⟨Nat.add_comm a a', by omega, by omega⟩

private theorem Beside.window {a a' i : Nat} (ha : 3 ≤ a) (ha' : 3 ≤ a') (hi : i < 7) :
    Beside a a' (a - 3 + i) (a' - 3 + i) :=
  ⟨by omega, by omega, by omega⟩

section Passes

variable {p p' : Grid} {x x' y y' : Nat}

theorem smooth_eq_of_window {width width' : Nat} (hx : Alike width width' x x')
    (hself : p x y = p' x' y')
    (hwindow : 3 ≤ x → x + 3 < width → ∀ i < 7, p (x - 3 + i) y = p' (x' - 3 + i) y') :
    smooth width p x y = smooth width' p' x' y' := by
  unfold smooth
  by_cases hedge : x < 3 ∨ width ≤ x + 3
  · rw [if_pos hedge, if_pos (hedge.imp hx.start_iff.1 hx.end_iff.1), hself]
  · have hedge' : ¬ (x' < 3 ∨ width' ≤ x' + 3) :=
      fun hedge' => hedge (hedge'.imp hx.start_iff.2 hx.end_iff.2)
    have hsum : ∑ i ∈ Finset.range 7, tap i * p (x - 3 + i) y =
        ∑ i ∈ Finset.range 7, tap i * p' (x' - 3 + i) y' := by
      refine Finset.sum_congr rfl fun i hi => ?_
      rw [hwindow (by omega) (by omega) i (Finset.mem_range.1 hi)]
    rw [if_neg hedge, if_neg hedge', hsum]

private theorem detail_eq_of_window {height height' : Nat} (hy : Alike height height' y y')
    (hwindow : 3 ≤ y → y + 3 < height → ∀ i < 7, p x (y - 3 + i) = p' x' (y' - 3 + i)) :
    detail height p x y = detail height' p' x' y' := by
  unfold detail
  by_cases hedge : y < 3 ∨ height ≤ y + 3
  · rw [if_pos hedge, if_pos (hedge.imp hy.start_iff.1 hy.end_iff.1)]
  · have hedge' : ¬ (y' < 3 ∨ height' ≤ y' + 3) :=
      fun hedge' => hedge (hedge'.imp hy.start_iff.2 hy.end_iff.2)
    have hrows := hwindow (by omega) (by omega)
    have hself : p x y = p' x' y' := by
      have hmiddle := hrows 3 (by omega)
      rwa [Nat.sub_add_cancel (by omega), Nat.sub_add_cancel (by omega)] at hmiddle
    have hsum : ∑ i ∈ Finset.range 7, tap i * p x (y - 3 + i) =
        ∑ i ∈ Finset.range 7, tap i * p' x' (y' - 3 + i) := by
      refine Finset.sum_congr rfl fun i hi => ?_
      rw [hrows i (Finset.mem_range.1 hi)]
    rw [if_neg hedge, if_neg hedge', hsum, hself]

theorem smooth_congr {width : Nat} (h : ∀ x < width, p x y = p' x y) (hx : x < width) :
    smooth width p x y = smooth width p' x y :=
  smooth_eq_of_window (Alike.refl width x) (h x hx) fun _ _ i _ => h (x - 3 + i) (by omega)

theorem detail_congr {height : Nat} (h : ∀ y < height, p x y = p' x y) (y : Nat) :
    detail height p x y = detail height p' x y :=
  detail_eq_of_window (Alike.refl height y) fun _ _ i _ => h (y - 3 + i) (by omega)

end Passes

/-- A place in one extent and a place in another one are near the same edges. -/
structure Matched (e e' : Extent) (x y x' y' : Nat) : Prop where
  inside : e.Contains x y
  inside' : e'.Contains x' y'
  columns : Alike e.width e'.width x x'
  rows : Alike e.height e'.height y y'

/-- Two grids agree at most three columns and rows away from a place in either of them. -/
def AgreeAround (e e' : Extent) (x y x' y' : Nat) (p p' : Grid) : Prop :=
  ∀ u v u' v', Beside x x' u u' → Beside y y' v v' → e.Contains u v → e'.Contains u' v' →
    p u v = p' u' v'

section Images

variable {e e' : Extent} {x y x' y' : Nat}

/-- The detail of a place takes seven rows, and each of these takes seven columns. -/
theorem mask_eq_of_agreeAround {p p' : Grid} (hmatch : Matched e e' x y x' y')
    (h : AgreeAround e e' x y x' y' p p') : mask e p x y = mask e' p' x' y' := by
  obtain ⟨⟨hx, hy⟩, ⟨hx', hy'⟩, hcolumns, hrows⟩ := hmatch
  refine detail_eq_of_window hrows fun htop hbottom i hi => ?_
  obtain ⟨htop', hbottom'⟩ := hrows.inside htop hbottom
  have hrow := Beside.window htop htop' hi
  -- every row of the window is smoothed from the columns around `x`
  refine smooth_eq_of_window hcolumns ?_ fun hleft hright j hj => ?_
  · exact h _ _ _ _ (Beside.refl x x') hrow ⟨hx, by omega⟩ ⟨hx', by omega⟩
  · obtain ⟨hleft', hright'⟩ := hcolumns.inside hleft hright
    exact h _ _ _ _ (Beside.window hleft hleft' hj) hrow ⟨by omega, by omega⟩ ⟨by omega, by omega⟩

variable {image image' : Channel → Grid}

private theorem hsv_agreeAround (h : ∀ c, AgreeAround e e' x y x' y' (image c) (image' c)) (c : Channel) :
    AgreeAround e e' x y x' y' (hsv image c) (hsv image' c) := by
  intro u v u' v' hu hv hin hin'
  unfold hsv
  rw [h .red u v u' v' hu hv hin hin', h .green u v u' v' hu hv hin hin',
    h .blue u v u' v' hu hv hin hin']

private theorem sharpened_eq_of_agreeAround (hmatch : Matched e e' x y x' y')
    (h : ∀ c, AgreeAround e e' x y x' y' (image c) (image' c)) (c : Channel) :
    sharpened e image c x y = sharpened e' image' c x' y' := by
  have hhsv := hsv_agreeAround h c
  unfold sharpened sharpen
  rw [mask_eq_of_agreeAround hmatch hhsv,
    hhsv x y x' y' (Beside.refl x x') (Beside.refl y y') hmatch.inside hmatch.inside']

/-- A place is enhanced from the edges that it is near and the places around it alone. -/
theorem enhance_eq_of_agreeAround (hmatch : Matched e e' x y x' y')
    (h : ∀ c, AgreeAround e e' x y x' y' (image c) (image' c)) (c : Channel) :
    enhance e image c x y = enhance e' image' c x' y' := by
  have hsharpened := sharpened_eq_of_agreeAround hmatch h
  unfold enhance
  rw [hsharpened .hue, hsharpened .saturation, hsharpened .value]

end Images

end Exact

end Acutance
