import Acutance.Proofs.Pnm.Text

namespace Acutance.Codec.Pnm

variable {variant : Variant} {bytes rest : Bytes} {h : Header} {numbers values : List Nat} {image : Image}

/-- The sample that the number of a token is stored as: the number itself, or less by `2 ^ 32` when it is
too large for a sample. -/
def storedToken (n : Nat) : Int := if n ≤ 2147483647 then n else n - 4294967296

private theorem toInt_narrow_token {n : Nat} (hn : n < tokenLimit) : (narrow n).toInt = storedToken n := by
  have hsize : (Int32.size : Int) = 4294967296 := rfl
  have hlimit : tokenLimit = 4294967296 := rfl
  rw [narrow, Int32.toInt_ofInt, Int.bmod_def, hsize, storedToken]
  split <;> split <;> omega

private theorem storedToken_nonneg_iff {n : Nat} (hn : n < tokenLimit) :
    0 ≤ storedToken n ↔ n ≤ 2147483647 := by
  have hlimit : tokenLimit = 4294967296 := rfl
  unfold storedToken
  split <;> omega

/-- Two numbers keep their order unless only the larger one is too large for a sample. -/
theorem storedToken_le_iff {m n : Nat} (hn : n < tokenLimit) (hle : m ≤ n) :
    storedToken m ≤ storedToken n ↔ (2147483647 < n → 2147483647 < m) := by
  have hlimit : tokenLimit = 4294967296 := rfl
  unfold storedToken
  split <;> split <;> omega

/-- Only numbers that fit into a token are scanned. -/
theorem Scans.lt_tokenLimit (hscans : Scans numbers bytes rest) : ∀ n ∈ numbers, n < tokenLimit := by
  obtain ⟨_, -, ⟨numerals, rfl, -, -⟩, -⟩ := hscans
  intro n hn
  obtain ⟨w, -, rfl⟩ := List.mem_map.1 hn
  exact w.fits

private theorem TextFile.lt_tokenLimit (hfile : TextFile variant rest h values) :
    ∀ n ∈ values, n < tokenLimit := by
  obtain ⟨tail, hscans⟩ := hfile.scans
  intro n hn
  exact hscans.lt_tokenLimit n (List.mem_append_right _ hn)

/-- The samples of an image that shows the numbers of tokens, one after the other. -/
theorem Shows.samples_eq_stored (hshows : Shows image variant h values)
    (hvalues : ∀ n ∈ values, n < tokenLimit) : image.samples.map Int32.toInt =
      values.flatMap fun n => List.replicate variant.copies (storedToken n) := by
  rw [hshows.samples_eq, List.map_flatMap]
  apply List.flatMap_congr
  intro n hn
  rw [List.map_replicate, toInt_narrow_token (hvalues n hn)]

/-- Every number is stored, and nothing else is. -/
theorem Shows.forall_samples_iff (hshows : Shows image variant h values)
    (hvalues : ∀ n ∈ values, n < tokenLimit) {P : Int → Prop} :
    (∀ s ∈ image.samples, P s.toInt) ↔ ∀ n ∈ values, P (storedToken n) := by
  have hcopies : variant.copies ≠ 0 := by cases variant <;> decide
  have hmem (i : Int) : i ∈ image.samples.map Int32.toInt ↔ ∃ n ∈ values, i = storedToken n := by
    simp only [hshows.samples_eq_stored hvalues, List.mem_flatMap, List.mem_replicate, ne_eq, hcopies,
      not_false_eq_true, true_and]
  constructor
  · intro hall n hn
    obtain ⟨s, hs, hstored⟩ := List.mem_map.1 ((hmem _).2 ⟨n, hn, rfl⟩)
    rw [← hstored]
    exact hall s hs
  · intro hall s hs
    obtain ⟨n, hn, hstored⟩ := (hmem _).1 (List.mem_map_of_mem hs)
    rw [hstored]
    exact hall n hn

/-- The samples are the numbers of the file when all of these fit into a sample. -/
theorem Shows.samples_eq_iff (hshows : Shows image variant h values)
    (hvalues : ∀ n ∈ values, n < tokenLimit) :
    image.samples.map Int32.toInt =
        values.flatMap (fun (n : Nat) => List.replicate variant.copies (n : Int)) ↔
      ∀ n ∈ values, n ≤ 2147483647 := by
  constructor
  · intro hsame n hn
    have hall : ∀ s ∈ image.samples, 0 ≤ s.toInt := by
      intro s hs
      have hmem := List.mem_map_of_mem (f := Int32.toInt) hs
      rw [hsame] at hmem
      obtain ⟨m, -, hcopy⟩ := List.mem_flatMap.1 hmem
      rw [List.eq_of_mem_replicate hcopy]
      exact Int.natCast_nonneg m
    rw [← storedToken_nonneg_iff (hvalues n hn)]
    exact (hshows.forall_samples_iff hvalues).1 hall n hn
  · intro hfit
    rw [hshows.samples_eq_stored hvalues]
    apply List.flatMap_congr
    intro n hn
    rw [storedToken, if_pos (hfit n hn)]

/-- Numbers keep their order when all of them fit into a sample, or none does. -/
theorem storedToken_monotone_iff (hvalues : ∀ n ∈ values, n < tokenLimit) :
    (∀ m ∈ values, ∀ n ∈ values, m ≤ n → storedToken m ≤ storedToken n) ↔
      (∀ n ∈ values, n ≤ 2147483647) ∨ ∀ n ∈ values, 2147483647 < n := by
  constructor
  · intro hmono
    by_cases hfit : ∀ n ∈ values, n ≤ 2147483647
    · exact .inl hfit
    · right
      push Not at hfit
      obtain ⟨large, hlarge, hwraps⟩ := hfit
      intro n hn
      rcases Nat.le_total n large with hle | hle
      · exact (storedToken_le_iff (hvalues large hlarge) hle).1 (hmono n hn large hlarge hle) hwraps
      · exact Nat.lt_of_lt_of_le hwraps hle
  · rintro (hfit | hwraps) m hm n hn hle
    · apply (storedToken_le_iff (hvalues n hn) hle).2
      intro hlarge
      exact absurd (hfit n hn) (Nat.not_le.2 hlarge)
    · exact (storedToken_le_iff (hvalues n hn) hle).2 fun _ => hwraps m hm

/-- A text that is read holds the numbers of a valid header and of its samples. However these numbers are
told, each of them is stored as itself when it fits into a sample, and less `2 ^ 32` otherwise. So the
samples are the numbers of the file, or none of them is negative, exactly when all numbers fit, and no
larger number gives a smaller sample exactly when all numbers fit or none does. -/
theorem stored_of_read_text (htext : variant.isText = true)
    (hread : read (variant.magic ++ rest) = .ok image) :
    (∃ h values, TextFile variant rest h values) ∧
    ∀ h values, TextFile variant rest h values → image.extent = h.extent ∧
      image.samples.map Int32.toInt =
        values.flatMap (fun n => List.replicate variant.copies (storedToken n)) ∧
      (image.samples.map Int32.toInt =
          values.flatMap (fun (n : Nat) => List.replicate variant.copies (n : Int)) ↔
        ∀ n ∈ values, n ≤ 2147483647) ∧
      ((∀ s ∈ image.samples, 0 ≤ s.toInt) ↔ ∀ n ∈ values, n ≤ 2147483647) ∧
      ((∀ m ∈ values, ∀ n ∈ values, m ≤ n → storedToken m ≤ storedToken n) ↔
        (∀ n ∈ values, n ≤ 2147483647) ∨ ∀ n ∈ values, 2147483647 < n) := by
  constructor
  · obtain ⟨h, values, hfile, -⟩ := (read_text_eq_ok_iff htext).1 hread
    exact ⟨h, values, hfile⟩
  · intro h values hfile
    obtain ⟨shown, hshows⟩ := exists_shows hfile.valid hfile.length_eq
    have hshown := (read_text_eq_ok_iff htext).2 ⟨h, values, hfile, hshows⟩
    obtain rfl := Except.ok.inj (hread.symm.trans hshown)
    have hvalues := hfile.lt_tokenLimit
    refine ⟨hshows.extent_eq, hshows.samples_eq_stored hvalues, hshows.samples_eq_iff hvalues, ?_,
      storedToken_monotone_iff hvalues⟩
    rw [hshows.forall_samples_iff hvalues (P := fun i => 0 ≤ i)]
    exact forall₂_congr fun n hn => storedToken_nonneg_iff (hvalues n hn)

/-- One colored pixel with a comment between its samples, of which the first is the largest number that
a token holds and the last the smallest that a sample does not. -/
def dazzled : Bytes := Bytes.ofAscii "1 1 9 4294967295 0#\n2147483648 "

private theorem dazzled_textFile : TextFile .colorText dazzled ⟨⟨1, 1⟩, 9⟩ [4294967295, 0, 2147483648] :=
  ⟨by decide, rfl, Bytes.ofAscii " ", by decide⟩

theorem stored_of_read_text_dazzled : Variant.colorText.isText = true ∧
    TextFile .colorText dazzled ⟨⟨1, 1⟩, 9⟩ [4294967295, 0, 2147483648] ∧
      ∃ image, read (Variant.colorText.magic ++ dazzled) = .ok image ∧
        image.samples.map Int32.toInt = [-1, 0, -2147483648] := by
  have htext : Variant.colorText.isText = true := rfl
  have hfile := dazzled_textFile
  obtain ⟨image, hshows⟩ := exists_shows hfile.valid hfile.length_eq
  have hread := (read_text_eq_ok_iff htext).2 ⟨_, _, hfile, hshows⟩
  obtain ⟨-, hstored⟩ := stored_of_read_text htext hread
  exact ⟨htext, hfile, image, hread, (hstored _ _ hfile).2.1⟩

/-- Two gray pixels, of which one is the brightest that a sample holds and the other is brighter by one. -/
def overexposed : Bytes := Bytes.ofAscii "2 1 255 2147483647 2147483648"

private theorem overexposed_textFile :
    TextFile .grayText overexposed ⟨⟨2, 1⟩, 255⟩ [2147483647, 2147483648] :=
  ⟨by decide, rfl, [], by decide⟩

/-- The brighter of two pixels is stored as the darkest sample there is. -/
theorem read_overexposed_wraps :
    TextFile .grayText overexposed ⟨⟨2, 1⟩, 255⟩ [2147483647, 2147483648] ∧
      ∃ image, read (Variant.grayText.magic ++ overexposed) = .ok image ∧
        image.samples.map Int32.toInt =
          [2147483647, 2147483647, 2147483647, -2147483648, -2147483648, -2147483648] := by
  have hfile := overexposed_textFile
  obtain ⟨image, hshows⟩ := exists_shows hfile.valid hfile.length_eq
  have hread := (read_text_eq_ok_iff rfl).2 ⟨_, _, hfile, hshows⟩
  exact ⟨hfile, image, hread, hshows.samples_eq_stored hfile.lt_tokenLimit⟩

end Acutance.Codec.Pnm
