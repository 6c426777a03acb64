import Acutance.Files.Disk
import Acutance.Proofs.Edit

namespace Acutance.Disk

variable {d : Disk} {l m : Location} {bytes bytes' : Bytes} {path : String}

theorem content?_put_self : (d.put l bytes).content? l = some bytes := by
  rw [content?, put, List.lookup_cons_self]

private theorem lookup_filter_ne (files : List (Location × Bytes)) (h : m ≠ l) :
    (files.filter fun (other, _) => other ≠ l).lookup m = files.lookup m := by
  induction files with
  | nil => rfl
  | cons file files ih =>
    obtain ⟨other, content⟩ := file
    by_cases hother : other = l
    · have hskip : (m == other) = false := beq_false_of_ne (by rwa [hother])
      rw [List.filter_cons_of_neg (by simpa using hother), ih, List.lookup_cons, hskip]
    · rw [List.filter_cons_of_pos (by simpa using hother), List.lookup_cons, List.lookup_cons, ih]

theorem content?_put_of_ne (h : m ≠ l) : (d.put l bytes).content? m = d.content? m := by
  have hfirst : (m == l) = false := beq_false_of_ne h
  rw [content?, put, List.lookup_cons, hfirst]
  exact lookup_filter_ne d.files h

private theorem put_put : (d.put l bytes).put l bytes' = d.put l bytes' := by
  simp [put]

/-- The ways through a disk go through its directories, and a file is in none of them. -/
theorem follow_put_eq_ok_iff {start : Location} {names : List String} :
    (d.put l bytes).follow start names = .ok m ↔ d.follow start names = .ok m := by
  induction names generalizing start with
  | nil => exact Iff.rfl
  | cons name names ih =>
    have hsame : (d.put l bytes).isDirectory start = d.isDirectory start := rfl
    unfold follow
    rw [hsame]
    split
    · simp
    · split
      · exact ih
      · split
        · exact ih
        · split
          · simp
          · exact ih

private theorem locate_eq_ok_iff : d.locate path = .ok l ↔
    ∃ names, namesOf path = .ok names ∧ d.follow [] names = .ok l := bind_eq_ok_iff

private theorem locate_put_eq_ok_iff : (d.put l bytes).locate path = .ok m ↔ d.locate path = .ok m := by
  simp only [locate_eq_ok_iff, follow_put_eq_ok_iff]

private theorem read_eq_ok_iff : d.read path = .ok bytes ↔ endsInSlash path = false ∧
    ∃ l, d.locate path = .ok l ∧ d.isDirectory l = false ∧ d.content? l = some bytes := by
  rw [read, bind_eq_ok_iff]
  constructor
  · rintro ⟨l, hlocate, hread⟩
    obtain ⟨hfile, hread⟩ := ite_error_eq_ok_iff.1 hread
    cases hcontent : d.content? l with
    | none =>
      rw [hcontent] at hread
      cases hread
    | some found =>
      rw [hcontent] at hread
      obtain ⟨hslash, hread⟩ := ite_error_eq_ok_iff.1 hread
      obtain rfl := Except.ok.inj hread
      exact ⟨hslash, l, hlocate, hfile, hcontent⟩
  · rintro ⟨hslash, l, hlocate, hfile, hcontent⟩
    refine ⟨l, hlocate, ite_error_eq_ok_iff.2 ⟨hfile, ?_⟩⟩
    rw [hcontent]
    exact ite_error_eq_ok_iff.2 ⟨hslash, rfl⟩

private theorem target_eq_ok_iff : d.target path = .ok l ↔ endsInSlash path = false ∧
    d.locate path = .ok l ∧ d.isDirectory l = false := by
  rw [target, locate_eq_ok_iff, bind_eq_ok_iff]
  constructor
  · rintro ⟨names, hnames, htarget⟩
    cases hslash : endsInSlash path with
    | true =>
      -- whatever the way leads to, the target is refused
      rw [hslash] at htarget
      obtain ⟨_, -, hstop⟩ := bind_eq_ok_iff.1 htarget
      cases hstop
    | false =>
      rw [hslash] at htarget
      obtain ⟨found, hfollow, htarget⟩ := bind_eq_ok_iff.1 htarget
      obtain ⟨hfile, htarget⟩ := ite_error_eq_ok_iff.1 htarget
      obtain rfl := Except.ok.inj htarget
      exact ⟨rfl, ⟨names, hnames, hfollow⟩, hfile⟩
  · rintro ⟨hslash, ⟨names, hnames, hfollow⟩, hfile⟩
    refine ⟨names, hnames, ?_⟩
    rw [hslash]
    exact bind_eq_ok_iff.2 ⟨l, hfollow, ite_error_eq_ok_iff.2 ⟨hfile, rfl⟩⟩

private theorem target_put_eq_ok_iff : (d.put l bytes).target path = .ok m ↔ d.target path = .ok m := by
  simp only [target_eq_ok_iff, locate_put_eq_ok_iff]
  rfl

/-- A file that was put where a path leads to is read through the path. -/
theorem read_put (h : d.target path = .ok l) : (d.put l bytes).read path = .ok bytes := by
  obtain ⟨hslash, hlocate, hfile⟩ := target_eq_ok_iff.1 h
  exact read_eq_ok_iff.2 ⟨hslash, l, locate_put_eq_ok_iff.2 hlocate, hfile, content?_put_self⟩

theorem readFile_eq_ok (h : d.read path = .ok bytes) :
    FileSystem.readFile (m := StateM Disk) path d = (.ok bytes, d) := by
  change (d.read path, d) = (.ok bytes, d)
  rw [h]

theorem createFile_eq_ok (h : d.target path = .ok l) :
    FileSystem.createFile (m := StateM Disk) path d = (.ok (), d.put l []) := by
  change save path [] d = (.ok (), d.put l [])
  rw [save, h]

theorem createFile_eq_error {e : SystemError} (h : d.target path = .error e) :
    FileSystem.createFile (m := StateM Disk) path d = (.error e, d) := by
  change save path [] d = (.error e, d)
  rw [save, h]

/-- A file that is there is filled, whatever was in it. -/
theorem writeFile_put (h : d.target path = .ok l) :
    FileSystem.writeFile (m := StateM Disk) path bytes' (d.put l bytes) = (.ok (), d.put l bytes') := by
  change save path bytes' (d.put l bytes) = (.ok (), d.put l bytes')
  rw [save, target_put_eq_ok_iff.2 h]
  simp only [put_put]

end Acutance.Disk
