import Acutance.Proofs.Regression.Difference

namespace Acutance

namespace Check

variable {c : Check} {a b : Image} {p q : Plane} {x y : Nat}

/-- What is compared agrees: values up to the difference that is allowed, and everything else exactly. -/
def Agrees : Check → Prop
  | values expected actual delta => ¬ delta < (expected - actual).abs
  | images expected actual => expected = actual
  | planes expected actual => expected = actual
  | bytes expected actual => expected = actual

private theorem imageDefect?_eq_none_iff : imageDefect? a b = none ↔ a = b := by
  unfold imageDefect?
  split
  · next hshape =>
    refine ⟨nofun, ?_⟩
    rintro rfl
    simp at hshape
  · next hshape =>
    push Not at hshape
    rw [Option.map_eq_none_iff, firstDifference?_eq_none_iff hshape.1 hshape.2]

private theorem planeDefect?_eq_none_iff : planeDefect? p q = none ↔ p = q := by
  unfold planeDefect?
  split
  · next hextent =>
    refine ⟨nofun, ?_⟩
    rintro rfl
    exact absurd rfl hextent
  · next hextent => rw [Option.map_eq_none_iff, firstRow?_eq_none_iff (Decidable.not_not.1 hextent)]

/-- Nothing is wrong exactly when what is compared agrees. -/
theorem defect?_eq_none_iff (c : Check) : c.defect? = none ↔ c.Agrees := by
  cases c with
  | values expected actual delta => simp [defect?, valueDefect?, Agrees]
  | images expected actual => exact imageDefect?_eq_none_iff
  | planes expected actual => exact planeDefect?_eq_none_iff
  | bytes expected actual => simp [defect?, bytesDefect?, Agrees]

private theorem FirstDifference.defect? (hextent : a.extent = b.extent) (hspace : a.space = b.space)
    (h : FirstDifference a b x y) : (images a b).defect? = some (pixelMismatch a b x y) := by
  have hshape : ¬ (a.extent ≠ b.extent ∨ a.space ≠ b.space) := by simp [hextent, hspace]
  rw [Check.defect?, imageDefect?, if_neg hshape, firstDifference?_eq_some_iff.2 h]
  rfl

private theorem FirstRow.defect? (hextent : p.extent = q.extent) (h : FirstRow p q y) :
    (planes p q).defect? = some (rowMismatch p q y) := by
  rw [Check.defect?, planeDefect?, if_neg (not_not_intro hextent), firstRow?_eq_some_iff.2 h]
  rfl

/-- The messages that checks leave in a test, of which each has the number of its check. -/
def messages (name : String) (history : List Check) : List String :=
  (history.zipIdx 1).filterMap fun (c, number) => c.defect?.map (c.message name number)

private theorem messages_append_singleton (name : String) (history : List Check) (c : Check) :
    messages name (history ++ [c]) =
      messages name history ++ (c.defect?.map (c.message name (history.length + 1))).toList := by
  rw [messages, List.zipIdx_append, List.filterMap_append, Nat.add_comm]
  rfl

private theorem length_messages (name : String) (history : List Check) :
    (messages name history).length = history.countP fun c => c.defect?.isSome := by
  induction history using List.reverseRecOn with
  | nil => rfl
  | append_singleton history c ih =>
    rw [messages_append_singleton, List.length_append, List.countP_append, ih]
    cases hdefect : c.defect? <;> simp [hdefect]

end Check

namespace Regression

variable {r : Regression} {name : String} {history cs : List Check} {c : Check}

/-- A test after checks were made one after the other. -/
def after (r : Regression) (cs : List Check) : Regression := cs.foldl (fun r c => (r.check c).2) r

/-- All that a check does to a test: it is counted, and a failure clears the verdict and leaves a message. -/
theorem check_eq (r : Regression) (c : Check) : r.check c = (c.defect?.isNone,
    { r with
      checks := r.checks + 1
      success := r.success && c.defect?.isNone
      failures := r.failures ++ (c.defect?.map (c.message r.name (r.checks + 1))).toList }) := by
  unfold check
  cases c.defect? with
  | none => simp
  | some defect => simp [fail]

/-- A check passes exactly when what it compares agrees. -/
theorem check_fst_eq_true_iff : (r.check c).1 = true ↔ c.Agrees := by
  rw [check_eq, Option.isNone_iff_eq_none, c.defect?_eq_none_iff]

private theorem check_of_defect {defect : String} (h : c.defect? = some defect) : (r.check c).1 = false ∧
    (r.check c).2.failures = r.failures ++ [c.message r.name (r.checks + 1) defect] := by
  rw [check_eq, h]
  exact ⟨rfl, rfl⟩

/-- What a test says of the checks that it has made. -/
structure Records (r : Regression) (name : String) (history : List Check) : Prop where
  name_eq : r.name = name
  checks_eq : r.checks = history.length
  failures_eq : r.failures = Check.messages name history
  success_iff : r.success = true ↔ ∀ c ∈ history, c.Agrees

private theorem records_start (name : String) : (start name).Records name [] :=
  ⟨rfl, rfl, rfl, by simp [start]⟩

/-- One more check is recorded. -/
theorem Records.check (h : r.Records name history) (c : Check) :
    (r.check c).2.Records name (history ++ [c]) := by
  obtain ⟨hname, hchecks, hfailures, hsuccess⟩ := h
  rw [check_eq]
  refine ⟨hname, ?_, ?_, ?_⟩
  · rw [List.length_append, hchecks]
    rfl
  · rw [Check.messages_append_singleton, hfailures, hname, hchecks]
  · rw [Bool.and_eq_true, hsuccess, Option.isNone_iff_eq_none, c.defect?_eq_none_iff,
      List.forall_mem_append, List.forall_mem_singleton]

/-- A run is recorded check by check. -/
theorem Records.after (h : r.Records name history) (cs : List Check) :
    (r.after cs).Records name (history ++ cs) := by
  induction cs generalizing r history with
  | nil => rwa [List.append_nil]
  | cons c cs ih =>
    rw [← List.singleton_append, ← List.append_assoc]
    exact ih (h.check c)

/-- A run gives for every check what the check comes to in the test after the checks before it. -/
theorem getElem?_run (r : Regression) (cs : List Check) (i : Nat) :
    (r.run cs)[i]? = cs[i]?.map fun c => (r.after (cs.take i)).check c := by
  induction cs generalizing r i with
  | nil => rfl
  | cons c cs ih =>
    cases i with
    | zero => rfl
    | succ i => exact ih (r.check c).2 i

/-- The answers of a run are those of its checks, whatever the others come to. -/
theorem map_fst_run (r : Regression) (cs : List Check) :
    (r.run cs).map Prod.fst = cs.map fun c => c.defect?.isNone := by
  induction cs generalizing r with
  | nil => rfl
  | cons c cs ih =>
    rw [run, List.map_cons, List.map_cons, ih, check_eq]

private theorem false_notMem_answers_iff :
    false ∉ (r.run cs).map Prod.fst ↔ ∀ c ∈ cs, c.Agrees := by
  rw [map_fst_run]
  simp only [List.mem_map, not_exists, not_and, Bool.not_eq_false, Option.isNone_iff_eq_none,
    Check.defect?_eq_none_iff]

/-- As many messages are left as checks have failed. -/
theorem count_false_answers (r : Regression) (name : String) (cs : List Check) :
    ((r.run cs).map Prod.fst).count false = (Check.messages name cs).length := by
  rw [map_fst_run, Check.length_messages, List.count_eq_countP, List.countP_map]
  congr 1
  funext c
  cases hdefect : c.defect? <;> simp [hdefect]

/-- The verdict of a test with the record of checks is positive when none of them fails, in whatever test
they are made. -/
theorem Records.isSuccess_iff (h : r.Records name cs) (other : Regression) :
    r.isSuccess = true ↔ false ∉ (other.run cs).map Prod.fst := by
  rw [false_notMem_answers_iff]
  exact h.success_iff

/-- Two images compare as equal exactly when their extents, color spaces and samples are equal, two planes
and two byte strings exactly when they are equal. The loops that compare two images of one shape, or two
planes of one extent, read nothing outside of the buffers. They find nothing exactly when the two are equal,
and else the first pixel that differs, row by row, or the first row that differs, which the message names.
In a new test that has made checks, whatever they are, every check has been counted, every check that failed
has left its message, in the order and with the number of the checks, and the verdict is positive, during the
test and at its end, exactly when no check has failed. -/
theorem checks_exact_and_runs_recorded :
    (∀ (r : Regression) (a b : Image), (r.check (.images a b)).1 = true ↔
      a.extent = b.extent ∧ a.space = b.space ∧ a.samples = b.samples) ∧
    (∀ (r : Regression) (p q : Plane), (r.check (.planes p q)).1 = true ↔ p = q) ∧
    (∀ (r : Regression) (s t : Bytes), (r.check (.bytes s t)).1 = true ↔ s = t) ∧
    (∀ a b : Image, a.extent = b.extent → a.space = b.space →
      ∃ found, (a.buffer.firstDifference? b.buffer : Run (Flaw Empty) (Option (Nat × Nat))) = .ok found ∧
        (found = none ↔ a = b) ∧
        ∀ x y, found = some (x, y) → Check.FirstDifference a b x y ∧
          ∀ r : Regression, (r.check (.images a b)).2.failures = r.failures ++
            [Check.message (.images a b) r.name (r.checks + 1) (Check.pixelMismatch a b x y)]) ∧
    (∀ p q : Plane, p.extent = q.extent →
      ∃ found, (p.buffer.firstRow? q.buffer : Run (Flaw Empty) (Option Nat)) = .ok found ∧
        (found = none ↔ p = q) ∧
        ∀ y, found = some y → Check.FirstRow p q y ∧
          ∀ r : Regression, (r.check (.planes p q)).2.failures = r.failures ++
            [Check.message (.planes p q) r.name (r.checks + 1) (Check.rowMismatch p q y)]) ∧
    ∀ (name : String) (cs : List Check),
      (∀ i, ((start name).run cs)[i]? = cs[i]?.map fun c => ((start name).after (cs.take i)).check c) ∧
      ((start name).after cs).checks = cs.length ∧
      ((start name).after cs).failures = Check.messages name cs ∧
      ((start name).after cs).failures.length = (((start name).run cs).map Prod.fst).count false ∧
      (((start name).after cs).isSuccess = true ↔ false ∉ ((start name).run cs).map Prod.fst) ∧
      (((start name).after cs).cleanup = true ↔ false ∉ ((start name).run cs).map Prod.fst) := by
  refine ⟨fun _ _ _ => check_fst_eq_true_iff.trans Image.eq_iff_samples,
    fun _ _ _ => check_fst_eq_true_iff, fun _ _ _ => check_fst_eq_true_iff, ?_, ?_, ?_⟩
  · intro a b hextent hspace
    refine ⟨Check.firstDifference? a b, a.firstDifference?_buffer b,
      Check.firstDifference?_eq_none_iff hextent hspace, fun x y hfound => ?_⟩
    have hfirst := Check.firstDifference?_eq_some_iff.1 hfound
    exact ⟨hfirst, fun _ => (check_of_defect (hfirst.defect? hextent hspace)).2⟩
  · intro p q hextent
    refine ⟨Check.firstRow? p q, Plane.firstRow?_buffer hextent,
      Check.firstRow?_eq_none_iff hextent, fun y hfound => ?_⟩
    have hfirst := Check.firstRow?_eq_some_iff.1 hfound
    exact ⟨hfirst, fun _ => (check_of_defect (hfirst.defect? hextent)).2⟩
  · intro name cs
    have hrecords : ((start name).after cs).Records name cs := (records_start name).after cs
    refine ⟨getElem?_run _ cs, hrecords.checks_eq, hrecords.failures_eq, ?_,
      hrecords.isSuccess_iff _, hrecords.isSuccess_iff _⟩
    rw [hrecords.failures_eq, count_false_answers]

/-- The tiles with two other pixels, of which the one in the lower row is further left. -/
def retouched : Image :=
  { Image.tiles with
    pixels := Extent.tabulate _ fun x y =>
      if x = 1 ∧ y = 1 ∨ x = 0 ∧ y = 2 then .gray 7 else Image.tiles.pixel x y }

/-- Checks of the tiles, of which the first and the last fail. -/
def tileChecks : List Check :=
  [.images Image.tiles retouched, .bytes [80, 54] [80, 54],
    .planes (Image.tiles.channel .second) (retouched.channel .second)]

theorem checks_exact_and_runs_recorded_retouched :
    Image.tiles.extent = retouched.extent ∧ Image.tiles.space = retouched.space ∧
      Image.tiles ≠ retouched ∧ Check.FirstDifference Image.tiles retouched 1 1 ∧
      Check.FirstRow (Image.tiles.channel .second) (retouched.channel .second) 1 ∧
      ((start "tiles").after tileChecks).checks = 3 ∧
      ((start "tiles").after tileChecks).failures.length = 2 ∧
      ¬ ((start "tiles").after tileChecks).cleanup = true := by
  obtain ⟨-, -, -, himages, hplanes, hruns⟩ := checks_exact_and_runs_recorded
  obtain ⟨place, hplace, hequal, hfirst⟩ := himages Image.tiles retouched rfl rfl
  have hfound : (Image.tiles.buffer.firstDifference? retouched.buffer :
      Run (Flaw Empty) (Option (Nat × Nat))) = .ok (some (1, 1)) := by decide +kernel
  obtain rfl := Except.ok.inj (hplace.symm.trans hfound)
  obtain ⟨row, hrow, -, hfirstRow⟩ :=
    hplanes (Image.tiles.channel .second) (retouched.channel .second) rfl
  have hfoundRow : ((Image.tiles.channel .second).buffer.firstRow? (retouched.channel .second).buffer :
      Run (Flaw Empty) (Option Nat)) = .ok (some 1) := by decide +kernel
  obtain rfl := Except.ok.inj (hrow.symm.trans hfoundRow)
  obtain ⟨-, hchecks, -, hfailures, -, hcleanup⟩ := hruns "tiles" tileChecks
  have hanswers : ((start "tiles").run tileChecks).map Prod.fst = [false, true, false] := by
    decide +kernel
  refine ⟨rfl, rfl, fun h => ?_, (hfirst 1 1 rfl).1, (hfirstRow 1 rfl).1, hchecks, ?_, ?_⟩
  · cases hequal.2 h
  · rw [hfailures, hanswers]
    rfl
  · rw [hcleanup, hanswers]
    decide

end Regression

end Acutance
