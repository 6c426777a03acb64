import Acutance.Files.Enhance

namespace Acutance

namespace Path

variable {path extension : String}

private theorem splitOn_eq_singleton_nil_iff (stem : List Char) :
    stem.splitOn '.' = [[]] ↔ stem = [] := by
  constructor
  · intro h
    have hjoin : List.intercalate ['.'] (stem.splitOn '.') = stem := List.intercalate_splitOn '.'
    rw [← hjoin, h]
    rfl
  · rintro rfl
    rfl

/-- What follows the last dot of a name is its extension, if something is in front of the dot. -/
theorem extension?_of_dot {stem : String} (hname : fileName? path = some (stem ++ "." ++ extension))
    (hlast : '.' ∉ extension.toList) :
    extension? path = if stem = "" then none else some extension := by
  have hsplit : (stem ++ "." ++ extension).toList.splitOn '.' =
      stem.toList.splitOn '.' ++ [extension.toList] := by
    have hlist : (stem ++ "." ++ extension).toList = stem.toList ++ '.' :: extension.toList := by
      simp
    rw [hlist, List.splitOn_append_cons_self, List.splitOn_eq_singleton hlast]
  obtain ⟨first, rest, hfront⟩ : ∃ first rest, (stem.toList.splitOn '.').reverse = first :: rest :=
    List.exists_cons_of_ne_nil (by simp [List.splitOn_ne_nil])
  have hopens : first = [] ∧ rest = [] ↔ stem = "" := by
    have hreverse : stem.toList.splitOn '.' = [[]] ↔ first :: rest = [[]] := by
      rw [← hfront, List.reverse_eq_iff]
      rfl
    rw [← String.toList_eq_nil_iff, ← splitOn_eq_singleton_nil_iff stem.toList, hreverse,
      List.cons.injEq]
  rw [extension?, hname]
  simp only [hsplit, List.reverse_append, List.reverse_singleton, List.singleton_append, hfront,
    Option.bind_eq_bind, Option.bind_some, hopens, String.ofList_toList]

private theorem extension?_of_not_dot {name : String} (hname : fileName? path = some name)
    (hdot : '.' ∉ name.toList) : extension? path = none := by
  rw [extension?, hname]
  simp [List.splitOn_eq_singleton hdot]

/-- A name has an extension when it goes on in front of its last dot. -/
theorem extension?_eq_some_iff :
    extension? path = some extension ↔ ∃ stem : String,
      fileName? path = some (stem ++ "." ++ extension) ∧ stem ≠ "" ∧ '.' ∉ extension.toList := by
  constructor
  · intro h
    obtain ⟨name, hname, -⟩ := Option.bind_eq_some_iff.1 h
    by_cases hdot : '.' ∈ name.toList
    · -- the last dot is the first one from the end
      obtain ⟨back, front, hsplit, hfresh⟩ :=
        List.eq_append_cons_of_mem (List.mem_reverse.2 hdot)
      have hlist : name.toList = front.reverse ++ '.' :: back.reverse := by
        rw [List.reverse_eq_iff.1 hsplit]
        simp
      have hparts : name = String.ofList front.reverse ++ "." ++ String.ofList back.reverse := by
        rw [← String.toList_inj, hlist]
        simp
      rw [hparts] at hname
      have hlast : '.' ∉ (String.ofList back.reverse).toList := by simpa using hfresh
      rw [extension?_of_dot hname hlast] at h
      split at h
      · cases h
      · next hstem =>
        obtain rfl := Option.some.inj h
        exact ⟨_, hname, hstem, hlast⟩
    · rw [extension?_of_not_dot hname hdot] at h
      cases h
  · rintro ⟨stem, hname, hstem, hlast⟩
    rw [extension?_of_dot hname hlast, if_neg hstem]

end Path

/-- A file is written as PNG when its name has the extension for it, in letters of either case. Every
other file is written as PNM. -/
theorem Files.formatFor_eq_png_iff {path : String} : formatFor path = .png ↔
    ∃ stem extension : String, Path.fileName? path = some (stem ++ "." ++ extension) ∧ stem ≠ "" ∧
      extension.map Char.toLower = "png" := by
  have hnamed : formatFor path = .png ↔
      ∃ extension, Path.extension? path = some extension ∧ extension.map Char.toLower = "png" := by
    rw [formatFor, FileFormat.ofPath?]
    cases Path.extension? path with
    | none => simp
    | some extension =>
      simp only [FileFormat.ofExtension?, Option.bind_eq_bind, Option.bind_some, Option.some.injEq,
        exists_eq_left']
      split
      · next hpnm =>
        have hother : extension.map Char.toLower ≠ "png" := by
          intro h
          rw [h] at hpnm
          revert hpnm
          decide
        simp [hother]
      · split <;> simp_all
  rw [hnamed]
  constructor
  · rintro ⟨extension, hextension, hpng⟩
    obtain ⟨stem, hname, hstem, -⟩ := Path.extension?_eq_some_iff.1 hextension
    exact ⟨stem, extension, hname, hstem, hpng⟩
  · rintro ⟨stem, extension, hname, hstem, hpng⟩
    have hlast : '.' ∉ extension.toList := by
      intro hdot
      have hlower : '.' ∈ (extension.map Char.toLower).toList := by
        rw [String.toList_map]
        exact List.mem_map.2 ⟨'.', hdot, rfl⟩
      rw [hpng] at hlower
      revert hlower
      decide
    exact ⟨extension, Path.extension?_eq_some_iff.2 ⟨stem, hname, hstem, hlast⟩, hpng⟩

end Acutance
