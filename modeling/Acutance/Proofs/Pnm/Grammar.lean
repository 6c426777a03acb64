import Acutance.Codec.Pnm.Scanner
import Mathlib.Data.List.TakeWhile

namespace Acutance.Codec.Pnm

/-- Blanks and comments in any order. A comment ends with its line. -/
inductive Separator : Bytes → Prop where
  | nil : Separator []
  | blank {b : UInt8} {rest : Bytes} (hb : isBlank b = true) (hrest : Separator rest) :
      Separator (b :: rest)
  | comment {text rest : Bytes} (htext : newline ∉ text) (hrest : Separator rest) :
      Separator (commentByte :: (text ++ newline :: rest))

/-- A number that fits into a token, with leading zeros or without, and what stands before it. -/
structure Numeral where
  separator : Bytes
  digits : Bytes
  separates : Separator separator
  digits_ne_nil : digits ≠ []
  isDigit : ∀ b ∈ digits, Decimal.isDigit b = true
  fits : Decimal.toNat digits < tokenLimit

/-- The number that a numeral stands for. -/
def Numeral.value (w : Numeral) : Nat := Decimal.toNat w.digits

/-- The bytes of a numeral and of the separator before it. -/
def Numeral.bytes (w : Numeral) : Bytes := w.separator ++ w.digits

/-- A text that holds the given numbers in order and ends with the digits of the last. Something
stands between each two of them; before the first there may be nothing. -/
def Spells (numbers : List Nat) (text : Bytes) : Prop :=
  ∃ numerals : List Numeral, numerals.map Numeral.value = numbers ∧
    numerals.flatMap Numeral.bytes = text ∧ ∀ w ∈ numerals.tail, w.separator ≠ []

/-- Whether the digits in front of some bytes end there. -/
def EndsDigits (rest : Bytes) : Prop := ∀ b, rest.head? = some b → Decimal.isDigit b = false

/-- Bytes that begin with the given numbers and go on with `rest`. -/
def Scans (numbers : List Nat) (bytes rest : Bytes) : Prop :=
  ∃ text, bytes = text ++ rest ∧ Spells numbers text ∧ EndsDigits rest

theorem endsDigits_nil : EndsDigits [] := by
  intro b hb
  cases hb

private theorem isBlank_of_isDigit {b : UInt8} (h : Decimal.isDigit b = true) : isBlank b = false := by
  simp only [Decimal.isDigit, Bool.and_eq_true, decide_eq_true_eq, UInt8.le_iff_toNat_le] at h
  simp only [isBlank, newline, Bool.or_eq_false_iff, decide_eq_false_iff_not, ← UInt8.toNat_inj]
  change 48 ≤ b.toNat ∧ b.toNat ≤ 57 at h
  change (((¬ b.toNat = 32 ∧ ¬ b.toNat = 9) ∧ ¬ b.toNat = 10) ∧ ¬ b.toNat = 12) ∧ ¬ b.toNat = 13
  omega

private theorem ne_commentByte_of_isDigit {b : UInt8} (h : Decimal.isDigit b = true) : b ≠ commentByte := by
  rintro rfl
  exact absurd h (by decide)

theorem isDigit_of_isBlank {b : UInt8} (h : isBlank b = true) : Decimal.isDigit b = false := by
  cases hdigit : Decimal.isDigit b with
  | false => rfl
  | true => simp [isBlank_of_isDigit hdigit] at h

/-- No digit begins a separator. -/
theorem Separator.endsDigits {sep : Bytes} (h : Separator sep) : EndsDigits sep := by
  intro b hb
  cases h with
  | nil => simp at hb
  | blank hblank hrest =>
    obtain rfl : _ = b := by simpa using hb
    exact isDigit_of_isBlank hblank
  | comment htext hrest =>
    obtain rfl : commentByte = b := by simpa using hb
    decide

theorem endsDigits_append {left right : Bytes} (hleft : left ≠ []) (h : EndsDigits left) :
    EndsDigits (left ++ right) := by
  obtain ⟨c, left, rfl⟩ := List.exists_cons_of_ne_nil hleft
  exact fun b hb => h b hb

theorem skip_comment {text : Bytes} (htext : newline ∉ text) (rest : Bytes) :
    skip true (text ++ newline :: rest) = skip false rest := by
  induction text with
  | nil => simp [skip]
  | cons b text ih =>
    simp only [List.mem_cons, not_or] at htext
    simpa [skip, Ne.symm htext.1] using ih htext.2

/-- A separator is skipped as a whole. -/
theorem Separator.skip_append {sep : Bytes} (h : Separator sep) (rest : Bytes) :
    skip false (sep ++ rest) = skip false rest := by
  induction h with
  | nil => rfl
  | @blank b sep hb hsep ih =>
    have hne : b ≠ commentByte := by
      rintro rfl
      exact absurd hb (by decide)
    simpa [skip, hne, hb] using ih
  | @comment text sep htext hsep ih =>
    rw [List.cons_append, List.append_assoc, List.cons_append, skip, if_pos rfl,
      skip_comment htext, ih]

private theorem skip_eq_self {b : UInt8} {rest : Bytes} (hb : Decimal.isDigit b = true) :
    skip false (b :: rest) = b :: rest := by
  simp [skip, ne_commentByte_of_isDigit hb, isBlank_of_isDigit hb]

theorem Separator.comment_cons {b : UInt8} {sep : Bytes} (hb : b ≠ newline)
    (h : Separator (commentByte :: sep)) : Separator (commentByte :: b :: sep) := by
  generalize hcomment : commentByte :: sep = whole at h
  cases h with
  | nil => cases hcomment
  | blank hblank hrest =>
    obtain ⟨rfl, rfl⟩ := List.cons.inj hcomment
    exact absurd hblank (by decide)
  | @comment text rest htext hrest =>
    obtain ⟨-, rfl⟩ := List.cons.inj hcomment
    have hlonger : newline ∉ b :: text := by simp [Ne.symm hb, htext]
    exact Separator.comment hlonger hrest

/-- What is skipped is a separator, unless nothing is left. In a comment, the number sign that began
it belongs to the separator. -/
theorem exists_separator_of_skip {inComment : Bool} {bytes : Bytes}
    (h : skip inComment bytes ≠ []) : ∃ sep, bytes = sep ++ skip inComment bytes ∧
      Separator (if inComment then commentByte :: sep else sep) := by
  -- the induction follows the scanner, which is inside a comment or outside of any
  fun_induction skip inComment bytes with
  | case1 => exact absurd rfl h
  | case2 b rest ih =>
    obtain ⟨sep, hbytes, hsep⟩ := ih h
    refine ⟨b :: sep, congrArg (b :: ·) hbytes, ?_⟩
    by_cases hb : b = newline
    · subst hb
      exact Separator.comment (List.not_mem_nil) (by simpa using hsep)
    · exact Separator.comment_cons hb (by simpa [hb] using hsep)
  | case3 rest ih =>
    obtain ⟨sep, hbytes, hsep⟩ := ih h
    exact ⟨commentByte :: sep, congrArg (commentByte :: ·) hbytes, by simpa using hsep⟩
  | case4 b rest hne hblank ih =>
    obtain ⟨sep, hbytes, hsep⟩ := ih h
    exact ⟨b :: sep, congrArg (b :: ·) hbytes, by simpa using Separator.blank hblank hsep⟩
  | case5 => exact ⟨[], rfl, Separator.nil⟩

/-- Digits behind a separator are read up to the first byte that is none. -/
theorem number_of_digits {token : Token} {sep digits rest : Bytes} (hsep : Separator sep)
    (hne : digits ≠ []) (hdigits : ∀ b ∈ digits, Decimal.isDigit b = true) (hends : EndsDigits rest) :
    number token (sep ++ digits ++ rest) =
      (if tokenLimit ≤ Decimal.toNat digits then .error (.outOfRange token)
        else .ok (Decimal.toNat digits), rest) := by
  have hstart : skipSeparators (sep ++ digits ++ rest) = digits ++ rest := by
    obtain ⟨d, ds, rfl⟩ := List.exists_cons_of_ne_nil hne
    rw [skipSeparators, List.append_assoc, hsep.skip_append, List.cons_append,
      skip_eq_self (hdigits d (by simp))]
  have hnone : rest.takeWhile Decimal.isDigit = [] ∧ rest.dropWhile Decimal.isDigit = rest := by
    cases rest with
    | nil => exact ⟨rfl, rfl⟩
    | cons b rest => simp [hends b rfl]
  have htake : (digits ++ rest).takeWhile Decimal.isDigit = digits := by
    rw [List.takeWhile_append_of_pos hdigits, hnone.1, List.append_nil]
  have hdrop : (digits ++ rest).dropWhile Decimal.isDigit = rest := by
    rw [List.dropWhile_append_of_pos hdigits, hnone.2]
  simp only [number, hstart, htake, hdrop]
  rw [if_neg (by simpa using hne)]
  split <;> rfl

/-- No number is read where none begins, and nothing is taken but the separators. -/
theorem number_of_endsDigits {token : Token} {bytes : Bytes} (h : EndsDigits (skipSeparators bytes)) :
    number token bytes = (.error (.missing token), skipSeparators bytes) := by
  rcases hstart : skipSeparators bytes with _ | ⟨b, rest⟩
  · simp [number, hstart]
  · rw [hstart] at h
    simp [number, hstart, h b rfl]

/-- Behind the separators there is no digit, or digits up to the first byte that is none. -/
theorem endsDigits_or_exists_digits (bytes : Bytes) : EndsDigits (skipSeparators bytes) ∨
    ∃ sep digits rest, bytes = sep ++ digits ++ rest ∧ Separator sep ∧ digits ≠ [] ∧
      (∀ b ∈ digits, Decimal.isDigit b = true) ∧ EndsDigits rest := by
  by_cases hnone : (skipSeparators bytes).takeWhile Decimal.isDigit = []
  · left
    intro b hb
    obtain ⟨rest, hrest⟩ := List.head?_eq_some_iff.1 hb
    cases hdigit : Decimal.isDigit b with
    | false => rfl
    | true => simp [hrest, hdigit] at hnone
  · right
    have hstart : skipSeparators bytes ≠ [] := by
      intro hempty
      exact hnone (by rw [hempty, List.takeWhile_nil])
    obtain ⟨sep, hbytes, hsep⟩ := exists_separator_of_skip hstart
    refine ⟨sep, _, (skipSeparators bytes).dropWhile Decimal.isDigit, ?_, by simpa using hsep, hnone,
      fun b hb => List.mem_takeWhile_imp hb, ?_⟩
    · rw [List.append_assoc, List.takeWhile_append_dropWhile]
      exact hbytes
    · intro b hb
      have hhead := List.head?_dropWhile_not Decimal.isDigit (skipSeparators bytes)
      rw [hb] at hhead
      exact hhead

/-- A number is read exactly when a numeral stands in front, and then what follows its digits is left. -/
theorem number_eq_ok_iff {token : Token} {bytes rest : Bytes} {n : Nat} :
    number token bytes = (.ok n, rest) ↔
      EndsDigits rest ∧ ∃ w : Numeral, w.value = n ∧ bytes = w.bytes ++ rest := by
  constructor
  · intro h
    rcases endsDigits_or_exists_digits bytes with hnone | ⟨sep, digits, _, rfl, hsep, hne, hdigits, hends⟩
    · rw [number_of_endsDigits hnone] at h
      cases h
    · rw [number_of_digits hsep hne hdigits hends] at h
      split at h
      · cases h
      · next hfits =>
        obtain ⟨hvalue, rfl⟩ := Prod.mk.inj h
        exact ⟨hends, ⟨sep, digits, hsep, hne, hdigits, Nat.lt_of_not_le hfits⟩,
          Except.ok.inj hvalue, rfl⟩
  · rintro ⟨hends, w, rfl, rfl⟩
    rw [Numeral.bytes, number_of_digits w.separates w.digits_ne_nil w.isDigit hends,
      if_neg (Nat.not_le.2 w.fits), Numeral.value]

theorem scans_nil_iff {bytes rest : Bytes} :
    Scans [] bytes rest ↔ bytes = rest ∧ EndsDigits rest := by
  constructor
  · rintro ⟨_, rfl, ⟨numerals, hvalues, rfl, -⟩, hends⟩
    obtain rfl := List.map_eq_nil_iff.1 hvalues
    exact ⟨rfl, hends⟩
  · rintro ⟨rfl, hends⟩
    exact ⟨[], rfl, ⟨[], rfl, rfl, by simp⟩, hends⟩

/-- The digits in front of a text end where the text begins with a separator, or where it holds no
number and they end behind it. -/
theorem endsDigits_of_separated {numerals : List Numeral} {rest : Bytes} (hrest : EndsDigits rest)
    (hsep : ∀ w ∈ numerals, w.separator ≠ []) :
    EndsDigits (numerals.flatMap Numeral.bytes ++ rest) := by
  cases numerals with
  | nil => exact hrest
  | cons w numerals =>
    have hw := hsep w (by simp)
    rw [List.flatMap_cons, Numeral.bytes, List.append_assoc, List.append_assoc]
    exact endsDigits_append hw w.separates.endsDigits

private theorem separator_ne_nil_of_endsDigits {w : Numeral} {rest : Bytes}
    (h : EndsDigits (w.bytes ++ rest)) : w.separator ≠ [] := by
  intro hempty
  obtain ⟨d, ds, hdigits⟩ := List.exists_cons_of_ne_nil w.digits_ne_nil
  have hdigit := w.isDigit d (by simp [hdigits])
  rw [h d (by simp [Numeral.bytes, hempty, hdigits])] at hdigit
  cases hdigit

/-- Numbers are scanned one after the other. -/
theorem scans_cons_iff (token : Token) {n : Nat} {numbers : List Nat} {bytes rest : Bytes} :
    Scans (n :: numbers) bytes rest ↔
      ∃ mid, number token bytes = (.ok n, mid) ∧ Scans numbers mid rest := by
  constructor
  · rintro ⟨_, rfl, ⟨numerals, hvalues, rfl, hsep⟩, hends⟩
    obtain ⟨w, numerals, rfl, rfl, rfl⟩ := List.map_eq_cons_iff.1 hvalues
    have hmid := endsDigits_of_separated hends hsep
    refine ⟨numerals.flatMap Numeral.bytes ++ rest, number_eq_ok_iff.2 ⟨hmid, w, rfl, ?_⟩,
      _, rfl, ⟨numerals, rfl, rfl, fun v hv => hsep v (List.mem_of_mem_tail hv)⟩, hends⟩
    rw [List.flatMap_cons, List.append_assoc]
  · rintro ⟨_, hnumber, _, rfl, ⟨numerals, rfl, rfl, hsep⟩, hends⟩
    obtain ⟨hmid, w, rfl, rfl⟩ := number_eq_ok_iff.1 hnumber
    refine ⟨w.bytes ++ numerals.flatMap Numeral.bytes, (List.append_assoc ..).symm,
      ⟨w :: numerals, rfl, rfl, fun v hv => ?_⟩, hends⟩
    -- the first of the other numerals is set off because no digit follows the one in front
    cases numerals with
    | nil => cases hv
    | cons v' numerals =>
      rcases List.mem_cons.1 hv with rfl | hv
      · rw [List.flatMap_cons, List.append_assoc] at hmid
        exact separator_ne_nil_of_endsDigits hmid
      · exact hsep v hv

/-- Behind a scanned text the digits end. -/
theorem Scans.endsDigits {numbers : List Nat} {bytes rest : Bytes} (h : Scans numbers bytes rest) :
    EndsDigits rest := h.choose_spec.2.2

private theorem endsDigits_cons_iff {b : UInt8} {rest : Bytes} :
    EndsDigits (b :: rest) ↔ Decimal.isDigit b = false := by
  constructor
  · intro h
    exact h b rfl
  · rintro h c hc
    rwa [← Option.some.inj hc]

instance EndsDigits.decidable : (rest : Bytes) → Decidable (EndsDigits rest)
  | [] => isTrue endsDigits_nil
  | _ :: _ => decidable_of_iff _ endsDigits_cons_iff.symm

private theorem scans_cons_iff_number {n : Nat} {numbers : List Nat} {bytes rest : Bytes} :
    Scans (n :: numbers) bytes rest ↔ (number .sample bytes).1 = .ok n ∧
      Scans numbers (number .sample bytes).2 rest := by
  rw [scans_cons_iff .sample]
  constructor
  · rintro ⟨mid, hnumber, hrest⟩
    rw [hnumber]
    exact ⟨rfl, hrest⟩
  · rintro ⟨hvalue, hrest⟩
    exact ⟨_, Prod.ext hvalue rfl, hrest⟩

/-- What numbers a text holds is found out by the scanner. -/
instance Scans.decidable : (numbers : List Nat) → (bytes rest : Bytes) →
    Decidable (Scans numbers bytes rest)
  | [], _, _ => decidable_of_iff _ scans_nil_iff.symm
  | _ :: numbers, bytes, rest =>
    have : Decidable (Scans numbers (number .sample bytes).2 rest) := Scans.decidable numbers _ rest
    decidable_of_iff _ scans_cons_iff_number.symm

end Acutance.Codec.Pnm
