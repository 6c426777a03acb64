import Acutance.Proofs.Buffer.Slot
import Acutance.Proofs.Filter.Build
import Acutance.Proofs.Filter.Reference
import Acutance.Proofs.InPlace

namespace Acutance

namespace Engine

/-- Engines of one kernel that are for planes of one extent. -/
structure SameKind (engine rival : Engine) : Prop where
  kernel_eq : rival.kernel = engine.kernel
  extent_eq : rival.mask.extent = engine.mask.extent

/-- Builds on one engine, one after the other and also behind one that is refused. Gives the errors. A
single build is carried out by `how`. -/
def buildAll (how : Plane → Edit Engine FilterError Unit) (sources : List Plane) :
    Edit Engine Empty (List (Option FilterError)) :=
  sources.mapM fun source => (how source).answer

variable {k : Kernel} {e : Extent} {source : Plane} {sources : List Plane}
  {engine rival after fresh last : Engine} {answer : Option FilterError}
  {answers : List (Option FilterError)} {u : Unit}

private theorem SameKind.build_eq_ok_iff (h : engine.SameKind rival) :
    build source engine = .ok u after ↔ build source rival = .ok u after := by
  rw [Engine.build_eq_ok_iff, Engine.build_eq_ok_iff, h.kernel_eq, h.extent_eq]

/-- A build leaves an engine of the kind that it started from. -/
theorem sameKind_of_build (h : build source engine = .ok u after) : engine.SameKind after := by
  have hextent := extent_of_build h
  obtain ⟨hmask, hkernel, -⟩ := Engine.build_eq_ok_iff.1 h
  exact ⟨hkernel, hextent.trans hmask.symm⟩

/-- A build that does not fault is refused for the extent of its plane, and then changes nothing, or
comes to what it comes to on any other engine of the kind. -/
theorem SameKind.answer_build_eq_ok_iff (h : engine.SameKind rival) :
    (build source).answer engine = .ok answer after ↔
      (source.extent = rival.mask.extent ∧ answer = none ∧ build source rival = .ok () after) ∨
        (source.extent ≠ rival.mask.extent ∧ after = engine ∧
          answer = some (.raster (.extentMismatch source.extent rival.mask.extent))) := by
  rw [Edit.answer_eq_ok_iff, h.build_eq_ok_iff]
  simp only [(build_refuses source).eq_error_iff, ← h.extent_eq]
  constructor
  · rintro (⟨rfl, hbuild⟩ | ⟨e, rfl, hrefusal, rfl⟩)
    · exact .inl ⟨(Engine.build_eq_ok_iff.1 hbuild).1.symm, rfl, hbuild⟩
    · by_cases hextent : source.extent = rival.mask.extent
      · simp [Extent.refusal, hextent] at hrefusal
      · simp only [Extent.refusal, if_neg (Ne.symm hextent), Option.map_some, Option.some.injEq]
          at hrefusal
        exact .inr ⟨hextent, rfl, hrefusal ▸ rfl⟩
  · rintro (⟨-, rfl, hbuild⟩ | ⟨hextent, rfl, rfl⟩)
    · exact .inl ⟨rfl, hbuild⟩
    · refine .inr ⟨_, rfl, ?_, rfl⟩
      simp [Extent.refusal, Ne.symm hextent]

/-- Nothing that happens in a history changes the kind of the engine. -/
theorem SameKind.of_answer_build (h : engine.SameKind rival)
    (hbuild : (build source).answer engine = .ok answer after) : after.SameKind rival := by
  rcases h.answer_build_eq_ok_iff.1 hbuild with ⟨-, -, hfresh⟩ | ⟨-, rfl, -⟩
  · have hkind := sameKind_of_build hfresh
    exact ⟨hkind.kernel_eq.symm, hkind.extent_eq.symm⟩
  · exact h

private theorem SameKind.of_buildAll (h : engine.SameKind fresh)
    (hrun : buildAll build sources engine = .ok answers last) : last.SameKind fresh := by
  induction sources generalizing engine answers with
  | nil =>
    obtain ⟨-, rfl⟩ := Edit.pure_eq_ok_iff.1 hrun
    exact h
  | cons source sources ih =>
    obtain ⟨answer, rest, next, -, hfirst, hrest⟩ := Edit.mapM_cons_eq_ok_iff.1 hrun
    exact ih (h.of_answer_build hfirst) hrest

/-- A history can be carried out when a fresh engine can build every plane that is not refused. -/
theorem SameKind.exists_buildAll_iff (h : engine.SameKind fresh) :
    (∃ answers last, buildAll build sources engine = .ok answers last) ↔
      ∀ source ∈ sources, source.extent = fresh.mask.extent →
        ∃ built, build source fresh = .ok () built := by
  -- every build is asked of the fresh engine, so the induction goes over all engines of the kind
  induction sources generalizing engine with
  | nil => simp [buildAll, Edit.pure_eq_ok_iff]
  | cons source sources ih =>
    rw [List.forall_mem_cons]
    constructor
    · rintro ⟨answers, last, hrun⟩
      obtain ⟨answer, rest, next, -, hfirst, hrest⟩ := Edit.mapM_cons_eq_ok_iff.1 hrun
      refine ⟨fun hextent => ?_, (ih (h.of_answer_build hfirst)).1 ⟨rest, last, hrest⟩⟩
      rcases h.answer_build_eq_ok_iff.1 hfirst with ⟨-, -, hbuild⟩ | ⟨hrefused, -⟩
      · exact ⟨next, hbuild⟩
      · exact absurd hextent hrefused
    · rintro ⟨hsource, hsources⟩
      obtain ⟨answer, next, hfirst⟩ :
          ∃ answer next, (build source).answer engine = .ok answer next := by
        by_cases hextent : source.extent = fresh.mask.extent
        · obtain ⟨built, hbuild⟩ := hsource hextent
          exact ⟨none, built, h.answer_build_eq_ok_iff.2 (.inl ⟨hextent, rfl, hbuild⟩)⟩
        · exact ⟨_, engine, h.answer_build_eq_ok_iff.2 (.inr ⟨hextent, rfl, rfl⟩)⟩
      obtain ⟨rest, last, hrest⟩ := (ih (h.of_answer_build hfirst)).2 hsources
      exact ⟨answer :: rest, last,
        Edit.mapM_cons_eq_ok_iff.2 ⟨answer, rest, next, rfl, hfirst, hrest⟩⟩

/-- A build that owes nothing to the past. It has the kernel of a fresh engine and leaves what it leaves
in that one, or its plane has the wrong extent and the engine stays as it is. -/
structure BuiltAfresh (fresh before : Engine) (source : Plane) (answer : Option FilterError)
    (after : Engine) : Prop where
  kernel_before : before.kernel = fresh.kernel
  kernel_after : after.kernel = fresh.kernel
  built : source.extent = fresh.mask.extent → answer = none ∧ build source fresh = .ok () after
  refused : source.extent ≠ fresh.mask.extent → after = before ∧
    answer = some (.raster (.extentMismatch source.extent fresh.mask.extent))

private theorem SameKind.builtAfresh (h : engine.SameKind fresh)
    (hbuild : (build source).answer engine = .ok answer after) :
    BuiltAfresh fresh engine source answer after where
  kernel_before := h.kernel_eq.symm
  kernel_after := (h.of_answer_build hbuild).kernel_eq.symm
  built hextent := by
    rcases h.answer_build_eq_ok_iff.1 hbuild with ⟨-, hanswer, hfresh⟩ | ⟨hrefused, -⟩
    · exact ⟨hanswer, hfresh⟩
    · exact absurd hextent hrefused
  refused hrefused := by
    rcases h.answer_build_eq_ok_iff.1 hbuild with ⟨hextent, -⟩ | ⟨-, hafter, hanswer⟩
    · exact absurd hextent hrefused
    · exact ⟨hafter, hanswer⟩

/-- A history of a new engine can be carried out exactly when a new engine can build each of its planes of
the right extent. Then every build of it, whatever has been built and refused before, leaves what it leaves
in a new engine or is refused and leaves everything, and the kernel is the same throughout. Nothing
changes when the builds work in place, over what the earlier ones have left. -/
theorem buildAll_forgets (hfresh : ofExtent k e = .ok fresh) :
    fresh.kernel = k ∧ fresh.mask.extent = e ∧
    (∀ sources, (∃ answers last, buildAll build sources fresh = .ok answers last) ↔
      ∀ source ∈ sources, source.extent = e → ∃ built, build source fresh = .ok () built) ∧
    (∀ earlier source later answers last,
      buildAll build (earlier ++ source :: later) fresh = .ok answers last →
        ∃ answers₁ before answer after answers₂, answers = answers₁ ++ answer :: answers₂ ∧
          buildAll build earlier fresh = .ok answers₁ before ∧
          (build source).answer before = .ok answer after ∧
          buildAll build later after = .ok answers₂ last ∧
          BuiltAfresh fresh before source answer after) ∧
    ∀ sources answers last, buildAll buildInPlace sources fresh = .ok answers last ↔
      buildAll build sources fresh = .ok answers last := by
  obtain ⟨mask, hzeros, rfl⟩ := ofExtent_eq_ok_iff.1 hfresh
  have hextent : mask.extent = e := Plane.extent_of_zeros hzeros
  have hkind : SameKind ⟨k, mask⟩ ⟨k, mask⟩ := ⟨rfl, rfl⟩
  refine ⟨rfl, hextent, fun sources => hextent ▸ hkind.exists_buildAll_iff, ?_, ?_⟩
  · intro earlier source later answers last hrun
    obtain ⟨answers₁, behind, before, rfl, hearlier, hbehind⟩ := Edit.mapM_append_eq_ok_iff.1 hrun
    obtain ⟨answer, answers₂, after, rfl, hbuild, hlater⟩ := Edit.mapM_cons_eq_ok_iff.1 hbehind
    exact ⟨answers₁, before, answer, after, answers₂, rfl, hearlier, hbuild, hlater,
      (hkind.of_buildAll hearlier).builtAfresh hbuild⟩
  · intro sources answers last
    exact Edit.mapM_eq_ok_congr fun source _ _ _ => (buildInPlace_matches source).answer_eq_ok_iff

/-- A plane of the extent of `relief`. -/
def ridge : Plane := ⟨relief.extent, relief.nonempty, #v[0, 9, 0, -3, 90, 4, 0, 900, 0, 7, 90, -1]⟩

/-- An engine for such planes that has built nothing. -/
def idle : Engine := ⟨gentle, relief.extent, relief.nonempty, Vector.replicate _ 0⟩

theorem buildAll_forgets_ridge : ofExtent gentle relief.extent = .ok idle ∧ ∃ answers last,
    buildAll build [relief, Plane.peak, ridge] idle = .ok answers last ∧
      build ridge idle = .ok () last := by
  have hfresh : ofExtent gentle relief.extent = .ok idle := rfl
  have hsources : ∀ source ∈ [relief, Plane.peak, ridge], source.extent = relief.extent →
      ∃ built, build source idle = .ok () built := by
    rw [List.forall_mem_cons, List.forall_mem_cons, List.forall_mem_singleton]
    exact ⟨fun _ => Edit.exists_of_result (by decide +kernel),
      fun hextent => absurd hextent (by decide), fun _ => Edit.exists_of_result (by decide +kernel)⟩
  obtain ⟨-, -, hexists, hforgets, -⟩ := buildAll_forgets hfresh
  obtain ⟨answers, last, hrun⟩ := (hexists _).2 hsources
  obtain ⟨_, before, answer, after, _, -, -, -, hlater, hafresh⟩ :=
    hforgets [relief, Plane.peak] ridge [] answers last hrun
  obtain ⟨-, rfl⟩ := Edit.pure_eq_ok_iff.1 hlater
  exact ⟨hfresh, answers, last, hrun, (hafresh.built rfl).2⟩

end Engine

end Acutance
