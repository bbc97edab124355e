import BatchExport.Proofs.Export.Stopping
import BatchExport.Proofs.OutputFiles
import BatchExport.Summary

/-! The published list of stored files. Main statement: a completed export lists the entries of the references that the
storage has answered, in their order; they are these references exactly if each is an entry, and for copies in a
directory this is a matter of the directory and of the name of the staged files. -/
namespace BatchExport

namespace WorkPath

/-- Copies of the staged files in this directory have references without semicolons and without white space in front. -/
def IsListable (outputDir temp : String) : Prop :=
  ';' ∉ outputDir.toList ++ (Path.pieces temp).getLastD [] ∧
    ∀ c ∈ (outputDir.toList ++ (Path.pieces temp).getLastD []).head?, Text.isBlankChar c = false

private theorem first_iff {d l suffix slash : List Char} (hfirst : ∀ c ∈ suffix.head?, Text.isBlankChar c = false)
    (hslash : slash = [] ∨ slash = ['/'] ∧ d ≠ []) :
    (∀ c ∈ (d ++ (slash ++ (l ++ suffix))).head?, Text.isBlankChar c = false) ↔
      ∀ c ∈ (d ++ l).head?, Text.isBlankChar c = false := by
  cases d with
  | cons c d => simp
  | nil =>
    obtain rfl : slash = [] := hslash.resolve_right fun h => h.2 rfl
    cases l with
    | cons c l => simp
    | nil => simpa using hfirst

private theorem isEntry_join_iff {outputDir suffix : String} {name : Path.Piece} (hname : '/' ∉ name)
    (hplain : '/' ∉ suffix.toList ∧ ';' ∉ suffix.toList) (hne : suffix.toList ≠ []) (htrim : Text.IsTrim suffix.toList) :
    OutputFiles.IsEntry (Path.join outputDir (String.ofList (name ++ suffix.toList))) ↔
      ';' ∉ outputDir.toList ++ name ∧ ∀ c ∈ (outputDir.toList ++ name).head?, Text.isBlankChar c = false := by
  have hslash : '/' ∉ (String.ofList (name ++ suffix.toList)).toList := by simp [hname, hplain.1]
  obtain ⟨slash, htext, hjoint⟩ := Path.toList_join outputDir hslash
  rw [String.toList_ofList] at htext
  have hfirst := first_iff (d := outputDir.toList) (l := name) htrim.first
    (hjoint.imp_right fun h => ⟨h.1, by simpa using h.2⟩)
  have hlast : (outputDir.toList ++ (slash ++ (name ++ suffix.toList))).getLast? = suffix.toList.getLast? := by
    simp [List.getLast?_eq_some_getLast hne]
  have hseparator : ';' ∉ outputDir.toList ++ (slash ++ (name ++ suffix.toList)) ↔ ';' ∉ outputDir.toList ++ name := by
    rcases hjoint with rfl | ⟨rfl, -⟩ <;> simp [hplain.2]
  rw [← hfirst, ← hseparator, ← htext]
  constructor
  · intro h
    exact ⟨h.noSeparator, (Text.trim_eq_self_iff.mp h.trimmed).first⟩
  · rintro ⟨hno, hstart⟩
    refine ⟨fun hempty => ?_, hno, Text.trim_eq_self_iff.mpr ⟨hstart, ?_⟩⟩
    · rw [hempty] at htext
      simp_all
    · rw [htext, hlast]
      exact htrim.last

theorem isEntry_stored_iff {outputDir temp suffix : String} (hsuffix : suffix = recordsSuffix ∨ suffix = errorsSuffix) :
    OutputFiles.IsEntry (stored outputDir temp suffix) ↔ IsListable outputDir temp := by
  have hlast : '/' ∉ (Path.pieces temp).getLastD [] := by
    have hnone : '/' ∉ "".toList := by simp
    simpa using Path.slash_not_mem_suffix temp hnone
  have hrecords : Text.IsTrim recordsSuffix.toList := ⟨by rintro c ⟨⟩; rfl, by rintro c ⟨⟩; rfl⟩
  have herrors : Text.IsTrim errorsSuffix.toList := ⟨by rintro c ⟨⟩; rfl, by rintro c ⟨⟩; rfl⟩
  rcases hsuffix with rfl | rfl
  · exact isEntry_join_iff hlast (by decide) (by decide) hrecords
  · exact isEntry_join_iff hlast (by decide) (by decide) herrors

end WorkPath

namespace ExportJob

variable {ω : Type} {j : ExportJob ω} {others : Worker ω → Worker ω} {fuel : Nat} {e : Execution} {w w' : Worker ω}
  {paths refs : List String} {temp outputDir : String}

/-- What is listed has been answered. -/
theorem StoreCalls.answered (h : j.StoreCalls others paths w refs w') {ref : String} (href : ref ∈ refs) :
    ∃ path ∈ paths, ∃ w₁ w₂, (j.store path).run w₁ = some (.ok ref, w₂) := by
  induction h with
  | done w => cases href
  | missing check later ih =>
    obtain ⟨path, hpath, hanswer⟩ := ih href
    exact ⟨path, List.mem_cons_of_mem _ hpath, hanswer⟩
  | stored check answer later ih =>
    rcases List.mem_cons.mp href with rfl | href
    · exact ⟨_, List.mem_cons_self, _, _, answer⟩
    · obtain ⟨path, hpath, hanswer⟩ := ih href
      exact ⟨path, List.mem_cons_of_mem _ hpath, hanswer⟩

/-- Copies in a directory are referred to by their paths. -/
theorem StoreCalls.isEntry_iff (hstore : j.store = fun path => Worker.onFiles (Storage.store outputDir path))
    (h : j.StoreCalls others [WorkPath.records temp, WorkPath.errors temp] w refs w') {ref : String}
    (href : ref ∈ refs) : OutputFiles.IsEntry ref ↔ WorkPath.IsListable outputDir temp := by
  obtain ⟨path, hpath, w₁, w₂, hanswer⟩ := h.answered href
  rw [hstore] at hanswer
  obtain ⟨files, hfiles, -⟩ := Effect.onPart_some hanswer
  rcases List.mem_cons.mp hpath with rfl | hpath
  · rw [Storage.store_answers (WorkPath.endsIn_records temp) hfiles]
    exact WorkPath.isEntry_stored_iff (.inl rfl)
  · cases List.mem_singleton.mp hpath
    rw [Storage.store_answers (WorkPath.endsIn_errors temp) hfiles]
    exact WorkPath.isEntry_stored_iff (.inr rfl)

variable {s : Surroundings ω} {start r : Run ω} {w₀ : Worker ω}

/-- The staged files are where the parameters of the execution say. -/
private theorem Course.calls {stored? : Option (List String)} (hstarting : start.phase = .starting)
    (hpart : start.job = [j.partAmid s.others fuel]) (h : j.Course fuel s start w₀ e stored?)
    (hparameter : start.execution.parameters.nonBlank? Key.tempOutputPath = some temp) (hrefs : stored? = some refs) :
    ∃ w w', j.StoreCalls s.others [WorkPath.records temp, WorkPath.errors temp] w refs w' := by
  cases h with
  | leftOut reached asked => cases hrefs
  | unstored reached staged asked => cases hrefs
  | stored reached staged going calls =>
    cases hrefs
    have hstaged := (stageAmid_ok staged).1
    rcases reached.course hstarting hpart with ⟨-, begin, rfl⟩ | ⟨hnone, -⟩
    · cases hparameter.symm.trans hstaged
      exact ⟨_, _, calls⟩
    · cases hnone

/-- Both records of a completed export list the entries of what the storage has answered, in order. This is what it has
answered exactly if no answer is empty, has a semicolon in it or white space around it. -/
theorem completed_export_lists (hstarting : start.phase = .starting) (hpart : start.job = [j.partAmid s.others fuel])
    (hnew : Entries.get? start.execution.context Key.outputFiles = none) {isTimeToLeave : Worker ω → Bool} {n : Nat}
    (hrun : start.goOn s isTimeToLeave n w₀ = (r, w)) (hended : r.isEnded)
    (hcompleted : r.execution.status = .completed) :
    ∃ e stored? now, j.Course fuel s start w₀ e stored? ∧ r.execution = e.conclude (.ok ()) false now ∧
      (∀ described job, (StatusRecord.ofExecution described job r.execution).files =
        (stored?.getD []).flatMap OutputFiles.parse) ∧
      (Summary.ofExecution r.execution).files = (stored?.getD []).flatMap OutputFiles.parse ∧
      ((Summary.ofExecution r.execution).files = stored?.getD [] ↔
        ∀ ref ∈ stored?.getD [], OutputFiles.IsEntry ref) ∧
      ∀ outputDir temp, (j.store = fun path => Worker.onFiles (Storage.store outputDir path)) →
        start.execution.parameters.nonBlank? Key.tempOutputPath = some temp → stored?.getD [] ≠ [] →
          ((Summary.ofExecution r.execution).files = stored?.getD [] ↔ WorkPath.IsListable outputDir temp) := by
  have hleads : Run.Leads s start w₀ r w := Run.leads_of_goOn hrun
  obtain ⟨e, now, hbody, heq⟩ := hleads.succeeded hstarting hpart (Run.phase_of_isEnded hended) hcompleted
  obtain ⟨stored?, hcourse, hcontext⟩ := course_of_body hnew hbody
  have hfiles : OutputFiles.ofExecution r.execution = (stored?.getD []).flatMap OutputFiles.parse := by
    have hkept : Entries.get? r.execution.context Key.outputFiles = stored?.map OutputFiles.join := by
      rw [heq]
      exact hcontext
    rw [OutputFiles.ofExecution, hkept]
    cases stored? with
    | none => rfl
    | some refs => exact OutputFiles.parse_join refs
  have hfaithful : OutputFiles.ofExecution r.execution = stored?.getD [] ↔
      ∀ ref ∈ stored?.getD [], OutputFiles.IsEntry ref := by
    rw [hfiles]
    exact OutputFiles.flatMap_parse_eq_iff
  refine ⟨e, stored?, now, hcourse, heq, fun described job => ?_, hfiles, hfaithful, ?_⟩
  · rw [StatusRecord.files_ofExecution, hfiles]
  · intro outputDir temp hstore hparameter hsome
    refine hfaithful.trans ?_
    cases hstored : stored? with
    | none => exact absurd (by rw [hstored]; rfl) hsome
    | some refs =>
      obtain ⟨w₁, w₂, hcalls⟩ := hcourse.calls hstarting hpart hparameter hstored
      rw [hstored] at hsome
      obtain ⟨first, rest, rfl⟩ := List.exists_cons_of_ne_nil (l := refs) hsome
      constructor
      · intro hall
        exact (hcalls.isEntry_iff hstore List.mem_cons_self).mp (hall first List.mem_cons_self)
      · intro hlistable ref href
        exact (hcalls.isEntry_iff hstore href).mpr hlistable

end ExportJob

namespace SampleExport

/-- The job with this id stages its files under its own name. -/
def namedStart (id : String) : Run Unit where
  listeners := [.notifier []]
  job := [(job "out" sample).partAmid surroundings.others 5]
  execution := .new 1 "orders-export"
    [(Key.jobId, id), (Key.tempOutputPath, WorkPath.tempPath "work" "ferry" ⟨id⟩ "orders")] ⟨0, 0⟩

def namedEnd (id : String) : Run Unit × Worker Unit :=
  (namedStart id).goOn surroundings (fun _ => false) 20 (worker (.empty []))

private theorem plain : summary "out/J1-orders.jsonl" (namedEnd "J1").1 (namedEnd "J1").2 =
    (true, .completed, some "out/J1-orders.jsonl", some "\x7b\"id\":\"r1\"\x7d\n".toList) := by
  decide +kernel

private theorem cut : summary "out/J;1-orders.jsonl" (namedEnd "J;1").1 (namedEnd "J;1").2 =
    (true, .completed, some "out/J;1-orders.jsonl", some "\x7b\"id\":\"r1\"\x7d\n".toList) := by
  decide +kernel

/-- A semicolon in the id of a job cuts the reference to its file. -/
theorem reference_is_cut : JobId.ofText? "J;1" = some ⟨"J;1"⟩ ∧ ∃ r w, namedEnd "J;1" = (r, w) ∧ r.isEnded ∧
    r.execution.status = .completed ∧
    Entries.get? r.execution.context Key.outputFiles = some (OutputFiles.join ["out/J;1-orders.jsonl"]) ∧
    (w.files.read "out/J;1-orders.jsonl").toOption = some "\x7b\"id\":\"r1\"\x7d\n".toList ∧
    (Summary.ofExecution r.execution).files = ["out/J", "1-orders.jsonl"] ∧
    ∀ described job, (StatusRecord.ofExecution described job r.execution).files = ["out/J", "1-orders.jsonl"] := by
  obtain ⟨r, w, hend, hended, hcompleted, hcontext, hread⟩ := summary_eq cut
  have hfiles : OutputFiles.ofExecution r.execution = ["out/J", "1-orders.jsonl"] := by
    rw [OutputFiles.ofExecution, hcontext]
    decide
  refine ⟨by decide, r, w, hend, hended, hcompleted, hcontext, hread, hfiles, fun described job => ?_⟩
  rw [StatusRecord.files_ofExecution, hfiles]

theorem plain_reference_is_listed : ∃ r w, namedEnd "J1" = (r, w) ∧ r.isEnded ∧ r.execution.status = .completed ∧
    (Summary.ofExecution r.execution).files = ["out/J1-orders.jsonl"] ∧ ∃ e stored?,
      (job "out" sample).Course 5 surroundings (namedStart "J1") (worker (.empty [])) e stored? ∧
      (stored?.getD []).flatMap OutputFiles.parse = ["out/J1-orders.jsonl"] := by
  obtain ⟨r, w, hend, hended, hcompleted, hcontext, -⟩ := summary_eq plain
  obtain ⟨e, stored?, now, hcourse, -, -, hlists, -⟩ :=
    ExportJob.completed_export_lists (j := job "out" sample) rfl rfl rfl hend hended hcompleted
  have hfiles : (Summary.ofExecution r.execution).files = ["out/J1-orders.jsonl"] := by
    change OutputFiles.ofExecution r.execution = _
    rw [OutputFiles.ofExecution, hcontext]
    decide
  exact ⟨r, w, hend, hended, hcompleted, hfiles, e, stored?, hcourse, hlists.symm.trans hfiles⟩

end SampleExport
end BatchExport
