import Acutance.Fault

namespace Acutance

variable {ε σ : Type} {step : σ → Nat → Except ε σ} {first count : Nat}

/-- What holds at the first count and is carried by every step that ends, holds behind the loop. -/
theorem foldlM_range'_preserves (inv : Nat → σ → Prop) {s s' : σ}
    (hstep : ∀ i t t', first ≤ i → i < first + count → inv i t → step t i = .ok t' →
      inv (i + 1) t')
    (hs : inv first s) (h : (List.range' first count).foldlM step s = .ok s') :
    inv (first + count) s' := by
  induction count generalizing first s with
  | zero =>
    obtain rfl := Except.ok.inj h
    exact hs
  | succ count ih =>
    rw [List.range'_succ, List.foldlM_cons, bind_eq_ok_iff] at h
    obtain ⟨t, hfirst, hrest⟩ := h
    have ht := hstep first s t (by omega) (by omega) hs hfirst
    have hend := ih (fun i u u' hlow hhigh => hstep i u u' (by omega) (by omega)) ht hrest
    rwa [show first + (count + 1) = first + 1 + count by omega]

theorem foldlM_range'_total (inv : Nat → σ → Prop) {s : σ}
    (hstep : ∀ i t t', first ≤ i → i < first + count → inv i t → step t i = .ok t' →
      inv (i + 1) t')
    (htotal : ∀ i t, first ≤ i → i < first + count → inv i t → ∃ t', step t i = .ok t')
    (hs : inv first s) : ∃ s', (List.range' first count).foldlM step s = .ok s' := by
  induction count generalizing first s with
  | zero => exact ⟨s, rfl⟩
  | succ count ih =>
    obtain ⟨t, hfirst⟩ := htotal first s (by omega) (by omega) hs
    have ht := hstep first s t (by omega) (by omega) hs hfirst
    obtain ⟨s', hrest⟩ := ih (fun i u u' hlow hhigh => hstep i u u' (by omega) (by omega))
      (fun i u hlow hhigh => htotal i u (by omega) (by omega)) ht
    refine ⟨s', ?_⟩
    rw [List.range'_succ, List.foldlM_cons, bind_eq_ok_iff]
    exact ⟨t, hfirst, hrest⟩

theorem Run.ofChecked_bind {α β : Type} (x : Checked α) (f : α → Checked β) :
    (Run.ofChecked (x >>= f) : Run ε β) = Run.ofChecked x >>= fun a => Run.ofChecked (f a) := by
  cases x <;> rfl

/-- A loop that works on another form of its state goes the same way when its steps do. -/
theorem foldlM_range'_ofChecked_map {τ : Type} (layout : σ → τ) (inv : Nat → σ → Prop)
    {step : σ → Nat → Checked σ} {step' : τ → Nat → Run ε τ} {s : σ}
    (hstep : ∀ i t t', first ≤ i → i < first + count → inv i t → step t i = .ok t' →
      inv (i + 1) t')
    (hsame : ∀ i t, first ≤ i → i < first + count → inv i t →
      step' (layout t) i = Run.ofChecked ((step t i).map layout))
    (hs : inv first s) : (List.range' first count).foldlM step' (layout s) =
      Run.ofChecked (((List.range' first count).foldlM step s).map layout) := by
  induction count generalizing first s with
  | zero => rfl
  | succ count ih =>
    rw [List.range'_succ, List.foldlM_cons, List.foldlM_cons,
      hsame first s (Nat.le_refl _) (by omega) hs]
    cases hfirst : step s first with
    | error fault => rfl
    | ok t =>
      have ht := hstep first s t (Nat.le_refl _) (by omega) hs hfirst
      exact ih (fun i u u' hlow hhigh => hstep i u u' (by omega) (by omega))
        (fun i u hlow hhigh => hsame i u (by omega) (by omega)) ht

theorem foldlM_range'_ofChecked (inv : Nat → σ → Prop) {step : σ → Nat → Checked σ}
    {guarded : σ → Nat → Run ε σ} {s : σ}
    (hstep : ∀ i t t', first ≤ i → i < first + count → inv i t → step t i = .ok t' →
      inv (i + 1) t')
    (hguarded : ∀ i t, first ≤ i → i < first + count → inv i t →
      guarded t i = Run.ofChecked (step t i))
    (hs : inv first s) : (List.range' first count).foldlM guarded s =
      Run.ofChecked ((List.range' first count).foldlM step s) := by
  have h := foldlM_range'_ofChecked_map id inv hstep
    (fun i t hlow hhigh ht => (hguarded i t hlow hhigh ht).trans
      (congrArg Run.ofChecked (congrFun Except.map_id _).symm)) hs
  rwa [Except.map_id] at h

theorem mapM_eq_ok_map {α β : Type} {f : α → Except ε β} {g : α → β} {l : List α}
    (h : ∀ a ∈ l, f a = .ok (g a)) : l.mapM f = .ok (l.map g) := by
  induction l with
  | nil => rfl
  | cons a l ih =>
    rw [List.mapM_cons, h a (by simp), ih fun b hb => h b (by simp [hb])]
    rfl

/-- A search that never stops early finds what is found without the possibility to stop. -/
theorem findSomeM?_eq_ok {α β : Type} {f : α → Except ε (Option β)} {g : α → Option β} {l : List α}
    (h : ∀ a ∈ l, f a = .ok (g a)) : l.findSomeM? f = .ok (l.findSome? g) := by
  induction l with
  | nil => rfl
  | cons a l ih =>
    rw [List.findSomeM?_cons, h a (by simp), List.findSome?_cons]
    cases g a with
    | some b => rfl
    | none => exact ih fun b hb => h b (by simp [hb])

end Acutance
