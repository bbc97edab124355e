import BatchExport.Proofs.Export.Leftovers
import BatchExport.Proofs.Files.OwnCleanup
import BatchExport.Proofs.Lifecycle.Moments

/-! What an export leaves behind of its staged files. Main statement: nothing, however it has ended, if the base name of
its source has no slash; otherwise both files stay. -/
namespace BatchExport

namespace ExportJob

variable {ω : Type} {j : ExportJob ω} {fuel : Nat} {s : Surroundings ω} {start r : Run ω} {w₀ w : Worker ω}

/-- What is left of the staged files when a run has ended, completed, failed or stopped. If the base name of the source
has no slash, it is nothing but a directory that was in the place of one; otherwise it is all that was there when the
execution left the running set. -/
theorem staged_files_are_swept (hfiles : ∀ w, (s.others w).files = w.files) (hstarting : start.phase = .starting)
    (hpart : start.job = [j.part fuel]) {described : List DescribedStep}
    (hnotifier : .notifier described ∈ start.listeners) {workDir appName source : String} {id : JobId}
    (happ : appName ≠ "") (hjob : start.execution.jobId? = some id)
    (hpath : Entries.get? start.execution.parameters Key.tempOutputPath =
      some (WorkPath.tempPath workDir appName id source))
    {isTimeToLeave : Worker ω → Bool} {n : Nat} (hrun : start.goOn s isTimeToLeave n w₀ = (r, w))
    (hended : r.isEnded) :
    ∃ w₂, Run.Leads s start w₀ { r with phase := .leaving } w₂ ∧
      ∀ suffix, suffix = WorkPath.recordsSuffix ∨ suffix = WorkPath.errorsSuffix →
        let staged := WorkPath.withSuffix (WorkPath.tempPath workDir appName id source) suffix
        ('/' ∉ (WorkPath.baseName source).toList → (w.files.isThere staged ↔ w₂.files.isDirectory staged)) ∧
        ('/' ∈ (WorkPath.baseName source).toList → j.KeepsNames → w₀.files.WellNamed →
          ∀ text, w.files.read staged = .ok text ↔ w₂.files.read staged = .ok text) := by
  have hphase := Run.phase_of_isEnded hended
  have hleads : Run.Leads s start w₀ r w := Run.leads_of_goOn hrun
  obtain ⟨w₂, hleft, hcleaned⟩ := hleads.left hfiles hstarting hphase
  have hparameters : r.execution.parameters = start.execution.parameters :=
    hleads.parameters (j.execute_keeps_parameters fuel) hstarting hpart hphase
  have htemp : r.execution.parameters.nonBlank? Key.tempOutputPath =
      some (WorkPath.tempPath workDir appName id source) := by
    rw [hparameters, JobParameters.nonBlank?, hpath, Option.filter_some, WorkPath.isBlank_tempPath]
    rfl
  have hid : r.execution.jobId? = some id := by rwa [Execution.jobId?, hparameters]
  have hdeletes := hcleaned (Run.cleanUp_mem_after hnotifier) id _ hid htemp
  refine ⟨w₂, hleft, fun suffix hsuffix => ?_⟩
  obtain ⟨hgone, hkept⟩ := WorkPath.own_cleanup id source happ hsuffix hdeletes
  refine ⟨hgone, fun hslash hkeeps hnames => hkept hslash ?_⟩
  have hparts : ∀ p ∈ start.parts, p.act.Keeps fun x y => x.2.files.KeepsNames y.2.files := by
    rw [Run.parts_of_starting hstarting, hpart]
    intro p hp
    cases List.mem_singleton.mp hp
    exact execute_keepsNames hkeeps fuel
  exact hleft.keepsNames hfiles hparts hnames

end ExportJob

namespace SampleExport

/-- An export of a source that is named so. -/
def jobFor (source : String) (fetch : Fetch (Worker Unit) Json) : ExportJob Unit :=
  { job "out" sample with sourceName := source, fetch }

/-- The job "J1" for a source, at its own path. -/
def startFor (source : String) (fetch : Fetch (Worker Unit) Json) : Run Unit where
  listeners := [.notifier [], .rollback]
  job := [(jobFor source fetch).part 5]
  execution := execution (WorkPath.tempPath "work" (config "out").application.name ⟨"J1"⟩ source)

def onePage : Fetch (Worker Unit) Json := fun r => pure ⟨if r.position = .offset 0 then sample else [], none⟩

def noAnswer : Fetch (Worker Unit) Json := fun _ => throw (.partialFailure "p" "q")

private def endOf (source : String) (fetch : Fetch (Worker Unit) Json) (t : FileTree) : Run Unit × Worker Unit :=
  (startFor source fetch).goOn surroundings (fun _ => false) 20 (worker t)

private theorem dotted : summary "work/ferry/J1-a/..jsonl" (endOf "a/.." onePage (.empty [])).1
    (endOf "a/.." onePage (.empty [])).2 =
      (true, .completed, some "out/..jsonl", some "\x7b\"id\":\"r1\"\x7d\n".toList) := by
  decide +kernel

/-- A source name that ends in dots makes the cleanup look beside the directory in which the file is staged. -/
theorem staged_file_outlives_job : ∃ r w,
    (config "out").validate = .ok (config "out") ∧
      WorkPath.tempPath "work" (config "out").application.name ⟨"J1"⟩ "a/.." = "work/ferry/J1-a/." ∧
      (startFor "a/.." onePage).goOn surroundings (fun _ => false) 20 (worker (.empty [])) = (r, w) ∧
      r.isEnded ∧ r.execution.status = .completed ∧ r.execution.jobId? = some ⟨"J1"⟩ ∧
      Entries.get? r.execution.parameters Key.tempOutputPath = some "work/ferry/J1-a/." ∧
      w.files.isThere (WorkPath.records "work/ferry/J1-a/.") := by
  have hproblem : (config "out").problem? = none := by decide +kernel
  have hvalid : (config "out").validate = .ok (config "out") := by rw [Config.validate, hproblem]
  obtain ⟨r, w, hend, hended, hstatus, -, hread⟩ := summary_eq dotted
  have hpart : (startFor "a/.." onePage).job = [(jobFor "a/.." onePage).part 5] := rfl
  have hleads : Run.Leads surroundings (startFor "a/.." onePage) (worker (.empty [])) r w := Run.leads_of_goOn hend
  have hparameters : r.execution.parameters = (startFor "a/.." onePage).execution.parameters :=
    hleads.parameters ((jobFor "a/.." onePage).execute_keeps_parameters 5) rfl hpart (Run.phase_of_isEnded hended)
  refine ⟨r, w, hvalid, by decide +kernel, hend, hended, hstatus, ?_, ?_, ?_⟩
  · rw [Execution.jobId?, hparameters]
    decide +kernel
  · rw [hparameters]
    decide +kernel
  · exact FileTree.isThere_of_read (Effect.ok_of_toOption hread)

private theorem broken : summary "work/ferry/J1-orders.jsonl" (endOf "orders" noAnswer staleTree).1
    (endOf "orders" noAnswer staleTree).2 = (true, .failed, none, none) := by
  decide +kernel

theorem failed_export_is_swept : ∃ (r : Run Unit) (w w₂ : Worker Unit),
    (startFor "orders" noAnswer).goOn surroundings (fun _ => false) 20 (worker staleTree) = (r, w) ∧
      r.execution.status = .failed ∧
      Run.Leads surroundings (startFor "orders" noAnswer) (worker staleTree) { r with phase := .leaving } w₂ ∧
      ∀ suffix, suffix = WorkPath.recordsSuffix ∨ suffix = WorkPath.errorsSuffix →
        (w.files.isThere (WorkPath.withSuffix "work/ferry/J1-orders" suffix) ↔
          w₂.files.isDirectory (WorkPath.withSuffix "work/ferry/J1-orders" suffix)) := by
  obtain ⟨r, w, hend, hended, hstatus, -, -⟩ := summary_eq broken
  have hpart : (startFor "orders" noAnswer).job = [(jobFor "orders" noAnswer).part 5] := rfl
  have hnotifier : .notifier [] ∈ (startFor "orders" noAnswer).listeners := List.mem_cons_self
  have happ : (config "out").application.name ≠ "" := by decide +kernel
  have hjob : (startFor "orders" noAnswer).execution.jobId? = some ⟨"J1"⟩ := by decide +kernel
  have htemp : WorkPath.tempPath "work" (config "out").application.name ⟨"J1"⟩ "orders" = "work/ferry/J1-orders" := by
    decide +kernel
  obtain ⟨w₂, hleft, hswept⟩ :=
    ExportJob.staged_files_are_swept (fun _ => rfl) rfl hpart hnotifier happ hjob rfl hend hended
  refine ⟨r, w, w₂, hend, hstatus, hleft, fun suffix hsuffix => ?_⟩
  have hgone := (hswept suffix hsuffix).1 (by decide +kernel)
  rwa [htemp] at hgone

end SampleExport
end BatchExport
