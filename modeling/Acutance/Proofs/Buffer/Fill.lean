import Acutance.Proofs.Buffer.Plane
import Acutance.Proofs.Raster.Samples

namespace Acutance

variable {ε α β : Type}

private theorem mapM_congr {l : List α} {f g : α → Except ε β} (h : ∀ a ∈ l, f a = g a) :
    l.mapM f = l.mapM g := by
  induction l with
  | nil => rfl
  | cons a l ih =>
    rw [List.mapM_cons, List.mapM_cons, h a List.mem_cons_self,
      ih fun b hb => h b (List.mem_cons_of_mem a hb)]

/-- A vector is filled like a list. -/
theorem map_toList_ofFnM {n : Nat} (g : Nat → Except ε α) :
    (Vector.ofFnM fun i : Fin n => g i).map Vector.toList = (List.range n).mapM g := by
  induction n with
  | zero => simp [Vector.ofFnM_zero, pure, Except.pure, Except.map]
  | succ n ih =>
    rw [Vector.ofFnM_succ, List.range_succ, List.mapM_append, ← ih]
    change ((Vector.ofFnM fun i : Fin n => g i) >>= _).map _ = _
    cases (Vector.ofFnM fun i : Fin n => g i) with
    | error e => rfl
    | ok v =>
      simp only [bind, Except.bind, Fin.val_last, Except.map, List.mapM_cons, List.mapM_nil]
      cases g n with
      | error e => rfl
      | ok a => simp [pure, Except.pure, Vector.toList_push]

private theorem mapM_flatten {l : List (List α)} {f : α → Except ε β} :
    l.flatten.mapM f = (l.mapM (List.mapM f)).map List.flatten := by
  induction l with
  | nil => rfl
  | cons part l ih =>
    rw [List.flatten_cons, List.mapM_append, ih, List.mapM_cons]
    cases part.mapM f with
    | error e => rfl
    | ok values => cases l.mapM (List.mapM f) <;> rfl

theorem length_of_mapM {l : List α} {f : α → Except ε β} {values : List β}
    (h : l.mapM f = .ok values) : values.length = l.length := by
  induction l generalizing values with
  | nil =>
    obtain rfl := Except.ok.inj h
    rfl
  | cons a l ih =>
    rw [List.mapM_cons] at h
    obtain ⟨b, -, h⟩ := bind_eq_ok_iff.1 h
    obtain ⟨rest, hrest, h⟩ := bind_eq_ok_iff.1 h
    obtain rfl := Except.ok.inj h
    rw [List.length_cons, List.length_cons, ih hrest]

private theorem length_flatten_of_mapM {l : List α} {f : α → Except ε (List β)} {size : Nat}
    {parts : List (List β)} (hsize : ∀ a ∈ l, ∀ part, f a = .ok part → part.length = size)
    (h : l.mapM f = .ok parts) : parts.flatten.length = l.length * size := by
  induction l generalizing parts with
  | nil =>
    obtain rfl := Except.ok.inj h
    simp
  | cons a l ih =>
    rw [List.mapM_cons] at h
    obtain ⟨part, hpart, h⟩ := bind_eq_ok_iff.1 h
    obtain ⟨rest, hrest, h⟩ := bind_eq_ok_iff.1 h
    obtain rfl := Except.ok.inj h
    have htail := ih (fun b hb => hsize b (List.mem_cons_of_mem a hb)) hrest
    rw [List.flatten_cons, List.length_append, hsize a List.mem_cons_self part hpart, htail,
      List.length_cons, Nat.succ_mul, Nat.add_comm]

/-- The part that is put behind what is filled lies over the first of the entries that are left. -/
theorem Buffer.splice_append (filled part left : Array α) :
    (filled ++ left).extract 0 filled.size ++ part ++
      (filled ++ left).extract (filled.size + part.size) (filled ++ left).size =
        filled ++ part ++ left.extract part.size left.size := by
  rw [Array.extract_append_left, Array.extract_size, Array.extract_append,
    Array.extract_empty_of_size_le_start (Nat.le_add_right _ _), Array.empty_append, Array.size_append,
    Nat.add_sub_cancel_left, Nat.add_sub_cancel_left]

/-- A buffer of blocks of one size is filled block by block. -/
theorem foldlM_blocks {size count : Nat} {block : Nat → Checked (List α)}
    {step : Array α → Nat → Run ε (Array α)}
    (hblock : ∀ i < count, ∀ values, block i = .ok values → values.length = size)
    (hstep : ∀ buffer : Array α, buffer.size = count * size → ∀ i < count, step buffer i =
      Run.ofChecked (block i) >>= fun values => .ok (buffer.extract 0 (i * size) ++ values.toArray ++
        buffer.extract (i * size + size) buffer.size))
    {buffer : Array α} (hsize : buffer.size = count * size) {n : Nat} (hn : n ≤ count) :
    (List.range n).foldlM step buffer = Run.ofChecked ((List.range n).mapM block) >>= fun blocks =>
      .ok (blocks.flatten.toArray ++ buffer.extract (n * size) buffer.size) := by
  induction n with
  | zero => simp [bind, Except.bind, pure, Except.pure]
  | succ n ih =>
    rw [List.range_succ, List.foldlM_append, ih (by omega), List.mapM_append]
    cases hblocks : (List.range n).mapM block with
    | error fault => rfl
    | ok blocks =>
      have hfilled : blocks.flatten.toArray.size = n * size := by
        simpa using length_flatten_of_mapM
          (fun i hi => hblock i (by have := List.mem_range.1 hi; omega)) hblocks
      have hle : n * size + size ≤ count * size := by
        rw [← Nat.succ_mul]
        exact Nat.mul_le_mul_right _ hn
      have hwhole : (blocks.flatten.toArray ++ buffer.extract (n * size) buffer.size).size =
          count * size := by
        rw [Array.size_append, Array.size_extract, hfilled]
        omega
      simp only [Run.ofChecked_ok, bind, Except.bind, List.foldlM_cons, List.foldlM_nil, List.mapM_cons,
        List.mapM_nil]
      rw [hstep _ hwhole n (by omega)]
      cases hvalues : block n with
      | error fault => rfl
      | ok values =>
        have hnew : values.toArray.size = size := hblock n (by omega) values hvalues
        have hput := Buffer.splice_append blocks.flatten.toArray values.toArray
          (buffer.extract (n * size) buffer.size)
        rw [hfilled, hnew, Array.extract_extract, Array.size_extract] at hput
        simp only [Run.ofChecked_ok, bind, Except.bind, pure, Except.pure]
        rw [hput, List.flatten_concat, ← List.append_toArray, Nat.succ_mul]
        congr 3
        omega

private theorem Buffer.write_eq_splice {buffer : Array α} {i : Nat} (hi : i < buffer.size) (a : α) :
    (write buffer i a : Run (Flaw ε) (Array α)) =
      .ok (buffer.extract 0 i ++ #[a] ++ buffer.extract (i + 1) buffer.size) := by
  rw [write_of_lt hi]
  refine congrArg Except.ok (Array.toList_inj.1 ?_)
  simp [List.set_eq_take_append_cons_drop, hi, List.extract_eq_take_drop]

/-- A buffer is filled entry by entry. -/
theorem foldlM_write {value : Nat → Checked α} {value' : Nat → Run (Flaw ε) α} {buffer : Array α}
    (hvalue : ∀ i < buffer.size, value' i = Run.ofChecked (value i)) :
    (List.range buffer.size).foldlM (fun out i => value' i >>= Buffer.write out i) buffer =
      Run.ofChecked ((List.range buffer.size).mapM value) >>= fun values => .ok values.toArray := by
  have hentries : (List.range buffer.size).mapM value =
      ((List.range buffer.size).mapM fun i => [i].mapM value).map List.flatten := by
    have hsingle : ((List.range buffer.size).map fun i => [i]).flatten = List.range buffer.size := by
      rw [← List.flatMap_def, List.flatMap_singleton']
    have hflat := mapM_flatten (l := (List.range buffer.size).map fun i => [i]) (f := value)
    rwa [hsingle, List.mapM_map] at hflat
  have hstep : ∀ out : Array α, out.size = buffer.size * 1 → ∀ i < buffer.size,
      (value' i >>= Buffer.write out i) = Run.ofChecked ([i].mapM value) >>= fun values =>
        .ok (out.extract 0 (i * 1) ++ values.toArray ++ out.extract (i * 1 + 1) out.size) := by
    intro out hsize i hi
    rw [hvalue i hi, List.mapM_cons, List.mapM_nil]
    cases value i with
    | error fault => rfl
    | ok a =>
      simp only [Run.ofChecked_ok, bind, Except.bind, pure, Except.pure, Nat.mul_one]
      exact Buffer.write_eq_splice (by omega) a
  have hblock : ∀ i < buffer.size, ∀ values, [i].mapM value = .ok values → values.length = 1 :=
    fun _ _ _ => length_of_mapM
  rw [foldlM_blocks hblock hstep (Nat.mul_one _).symm le_rfl, hentries]
  cases (List.range buffer.size).mapM fun i => [i].mapM value with
  | error fault => rfl
  | ok blocks => simp [bind, Except.bind, Except.map]

/-- A raster is filled row by row. -/
theorem Extent.mapM_range_area (e : Extent) (f : Nat → Nat → Except ε α) :
    ((List.range e.area).mapM fun i => f (i % e.width) (i / e.width)) =
      ((List.range e.height).mapM fun y => (List.range e.width).mapM fun x => f x y).map
        List.flatten := by
  have hplaces : List.range e.area = ((List.range e.height).map fun y =>
      (List.range e.width).map fun x => e.index x y).flatten := by
    rw [← List.flatMap_def, ← e.map_range_area fun i => i, List.map_id']
  rw [hplaces, mapM_flatten, List.mapM_map]
  refine congrArg _ (mapM_congr fun y _ => ?_)
  rw [Function.comp_apply, List.mapM_map]
  refine mapM_congr fun x hx => ?_
  have hcolumn := List.mem_range.1 hx
  rw [Function.comp_apply, index_mod hcolumn, index_div hcolumn]

/-- A plane that is filled, in its buffer. -/
theorem Plane.fillM_buffer (p : Plane) (f : Nat → Nat → Checked Sample) :
    (Run.ofChecked (p.fillM f) : Run ε Plane).laidOut buffer =
      Run.ofChecked ((List.range p.extent.area).mapM fun i =>
        f (i % p.extent.width) (i / p.extent.width)) >>= fun samples =>
          .ok ⟨p.extent, samples.toArray⟩ := by
  rw [← map_toList_ofFnM, fillM, Extent.tabulateM]
  cases (Vector.ofFnM fun i : Fin p.extent.area =>
    f (i % p.extent.width) (i / p.extent.width) : Checked (Vector Sample p.extent.area)) with
  | error fault => rfl
  | ok samples => rfl

/-- The samples of a plane of a given extent, in order. -/
theorem Plane.toList_data {p : Plane} {e : Extent} (hextent : p.extent = e) :
    p.buffer.data.toList = (List.range e.area).map fun i => p.sample (i % e.width) (i / e.width) := by
  subst hextent
  apply List.ext_getElem
  · simp [buffer]
  · intro i hi _
    have hi' : i < p.extent.area := by simpa [buffer] using hi
    simp [buffer, p.sample_mod_div hi']

end Acutance
