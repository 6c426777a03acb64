import Acutance.Proofs.Pnm.Grammar

namespace Acutance.Codec.Pnm

variable {token : Token} {bytes rest : Bytes}

/-- Blanks and comments up to the end of the data. The last comment may lack the end of its line. -/
def Trailing (bytes : Bytes) : Prop :=
  Separator bytes ∨
    ∃ sep text, bytes = sep ++ commentByte :: text ∧ Separator sep ∧ newline ∉ text

/-- Bytes that go on behind their separators with `rest`, whose first byte begins no number. -/
def Foreign (bytes rest : Bytes) : Prop :=
  ∃ sep b tail, bytes = sep ++ rest ∧ rest = b :: tail ∧ Separator sep ∧
    Decimal.isDigit b = false ∧ isBlank b = false ∧ b ≠ commentByte

/-- Bytes with a number in front that is too large for a token, and what follows its digits. -/
def Oversized (bytes rest : Bytes) : Prop :=
  EndsDigits rest ∧ ∃ sep digits, bytes = sep ++ digits ++ rest ∧ Separator sep ∧
    (∀ b ∈ digits, Decimal.isDigit b = true) ∧ tokenLimit ≤ Decimal.toNat digits

/-- A text of which the whole is skipped has no beginning that is not. -/
theorem skip_eq_nil_of_append {inComment : Bool} {left right : Bytes}
    (h : skip inComment (left ++ right) = []) : skip inComment left = [] := by
  fun_induction skip inComment left with
  | case1 => rfl
  | case2 b rest ih =>
    rw [List.cons_append, skip] at h
    exact ih h
  | case3 rest ih =>
    rw [List.cons_append, skip, if_pos rfl] at h
    exact ih h
  | case4 b rest hne hblank ih =>
    rw [List.cons_append, skip, if_neg hne, if_pos hblank] at h
    exact ih h
  | case5 b rest hne hblank =>
    rw [List.cons_append, skip, if_neg hne, if_neg hblank] at h
    cases h

/-- Whatever a separator begins with is skipped. -/
theorem Separator.skip_of_prefix {sep cut : Bytes} (h : Separator sep) (hcut : cut <+: sep) :
    skipSeparators cut = [] := by
  obtain ⟨more, rfl⟩ := hcut
  have hwhole := h.skip_append []
  rw [List.append_nil] at hwhole
  exact skip_eq_nil_of_append hwhole

private theorem Separator.append {left right : Bytes} (hleft : Separator left) (hright : Separator right) :
    Separator (left ++ right) := by
  induction hleft with
  | nil => exact hright
  | blank hblank _ ih => exact Separator.blank hblank ih
  | comment htext _ ih =>
    rw [List.cons_append, List.append_assoc, List.cons_append]
    exact Separator.comment htext ih

private theorem Trailing.append {sep : Bytes} (hsep : Separator sep) (h : Trailing rest) :
    Trailing (sep ++ rest) := by
  rcases h with hrest | ⟨inner, text, rfl, hinner, htext⟩
  · exact .inl (hsep.append hrest)
  · exact .inr ⟨sep ++ inner, text, (List.append_assoc ..).symm, hsep.append hinner, htext⟩

private theorem Trailing.comment_cons {b : UInt8} (hb : b ≠ newline) (h : Trailing (commentByte :: rest)) :
    Trailing (commentByte :: b :: rest) := by
  rcases h with hrest | ⟨sep, text, hbytes, hsep, htext⟩
  · exact .inl (hrest.comment_cons hb)
  · cases sep with
    | nil =>
      obtain rfl := List.tail_eq_of_cons_eq hbytes
      exact .inr ⟨[], b :: rest, rfl, .nil, by simp [htext, hb.symm]⟩
    | cons c sep =>
      obtain ⟨rfl, rfl⟩ := List.cons.inj hbytes
      exact .inr ⟨commentByte :: b :: sep, text, rfl, hsep.comment_cons hb, htext⟩

/-- What is skipped as a whole is trailing. In a comment, the number sign that began it belongs to it. -/
theorem trailing_of_skip {inComment : Bool} (h : skip inComment bytes = []) :
    Trailing (if inComment then commentByte :: bytes else bytes) := by
  fun_induction skip inComment bytes with
  | case1 inComment =>
    cases inComment with
    | false => exact .inl .nil
    | true => exact .inr ⟨[], [], rfl, .nil, List.not_mem_nil⟩
  | case2 b rest ih =>
    by_cases hb : b = newline
    · subst hb
      exact Trailing.append (.comment List.not_mem_nil .nil) (ih h)
    · have hrest := ih h
      rw [if_pos (by simpa using hb)] at hrest
      exact hrest.comment_cons hb
  | case3 rest ih => exact ih h
  | case4 b rest hne hblank ih => exact Trailing.append (.blank hblank .nil) (ih h)
  | case5 => cases h

/-- Only what is trailing is skipped as a whole. -/
theorem skipSeparators_eq_nil_iff : skipSeparators bytes = [] ↔ Trailing bytes := by
  constructor
  · exact trailing_of_skip
  · rintro (hsep | ⟨sep, text, rfl, hsep, htext⟩)
    · exact hsep.skip_of_prefix (List.prefix_refl _)
    · have hline := skip_comment htext []
      rw [skipSeparators, hsep.skip_append, skip, if_pos rfl]
      exact skip_eq_nil_of_append hline

/-- Behind the separators there is neither a blank nor the beginning of a comment. -/
theorem not_isBlank_of_skip {inComment : Bool} {b : UInt8} {tail : Bytes}
    (h : skip inComment bytes = b :: tail) : isBlank b = false ∧ b ≠ commentByte := by
  fun_induction skip inComment bytes with
  | case1 => cases h
  | case2 _ _ ih => exact ih h
  | case3 _ ih => exact ih h
  | case4 _ _ _ _ ih => exact ih h
  | case5 c rest hne hblank =>
    obtain ⟨rfl, rfl⟩ := List.cons.inj h
    exact ⟨by simpa using hblank, hne⟩

/-- Bytes behind the separators that begin no number are foreign. -/
theorem foreign_of_skip {b : UInt8} {tail : Bytes} (h : skipSeparators bytes = b :: tail)
    (hdigit : Decimal.isDigit b = false) : Foreign bytes (b :: tail) := by
  have hne : skip false bytes ≠ [] := by
    intro hempty
    rw [skipSeparators, hempty] at h
    cases h
  obtain ⟨sep, hbytes, hsep⟩ := exists_separator_of_skip hne
  obtain ⟨hblank, hcomment⟩ := not_isBlank_of_skip h
  refine ⟨sep, b, tail, ?_, rfl, by simpa using hsep, hdigit, hblank, hcomment⟩
  rw [← h]
  exact hbytes

private theorem Foreign.skip_eq (h : Foreign bytes rest) : skipSeparators bytes = rest := by
  obtain ⟨sep, b, tail, rfl, rfl, hsep, -, hblank, hcomment⟩ := h
  rw [skipSeparators, hsep.skip_append, skip, if_neg hcomment, if_neg (by simp [hblank])]

private theorem Foreign.endsDigits (h : Foreign bytes rest) : EndsDigits rest := by
  obtain ⟨sep, b, tail, -, rfl, -, hdigit, -, -⟩ := h
  intro c hc
  obtain rfl : b = c := by simpa using hc
  exact hdigit

/-- What is left of foreign bytes is not blank. -/
theorem Foreign.not_all_isBlank (h : Foreign bytes rest) : ¬ rest.all isBlank = true := by
  obtain ⟨sep, b, tail, -, rfl, -, -, hblank, -⟩ := h
  simp [hblank]

/-- No number is read for one of three reasons, and the scanner leaves what stands behind them. -/
theorem number_eq_error_iff {defect : Defect} : number token bytes = (.error defect, rest) ↔
    defect = .missing token ∧ (Trailing bytes ∧ rest = [] ∨ Foreign bytes rest) ∨
      defect = .outOfRange token ∧ Oversized bytes rest := by
  constructor
  · intro h
    rcases endsDigits_or_exists_digits bytes with hnone | ⟨sep, digits, _, rfl, hsep, hne, hdigits, hends⟩
    · rw [number_of_endsDigits hnone] at h
      obtain ⟨hdefect, rfl⟩ := Prod.mk.inj h
      refine .inl ⟨(Except.error.inj hdefect).symm, ?_⟩
      rcases hskip : skipSeparators bytes with _ | ⟨b, tail⟩
      · exact .inl ⟨skipSeparators_eq_nil_iff.1 hskip, rfl⟩
      · rw [hskip] at hnone
        exact .inr (foreign_of_skip hskip (hnone b rfl))
    · rw [number_of_digits hsep hne hdigits hends] at h
      obtain ⟨hresult, rfl⟩ := Prod.mk.inj h
      split at hresult
      · next hlimit =>
        exact .inr ⟨(Except.error.inj hresult).symm, hends, sep, digits, rfl, hsep, hdigits, hlimit⟩
      · cases hresult
  · rintro (⟨rfl, ⟨htrailing, rfl⟩ | hforeign⟩ | ⟨rfl, hends, sep, digits, rfl, hsep, hdigits, hlimit⟩)
    · have hskip := skipSeparators_eq_nil_iff.2 htrailing
      rw [number_of_endsDigits (by rw [hskip]; exact endsDigits_nil), hskip]
    · have hskip := hforeign.skip_eq
      rw [number_of_endsDigits (by rw [hskip]; exact hforeign.endsDigits), hskip]
    · have hne : digits ≠ [] := by
        rintro rfl
        exact absurd hlimit (by decide)
      rw [number_of_digits hsep hne hdigits hends, if_pos hlimit]

theorem number_eq_outOfRange_iff (token : Token) :
    number token bytes = (.error (.outOfRange token), rest) ↔ Oversized bytes rest := by
  rw [number_eq_error_iff]
  simp only [reduceCtorEq, false_and, true_and, false_or]

end Acutance.Codec.Pnm
