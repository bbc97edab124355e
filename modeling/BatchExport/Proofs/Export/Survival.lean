import BatchExport.Config.Reading
import BatchExport.Proofs.Export.Accounting
import BatchExport.Proofs.Lifecycle.Ending

/-! Stored files at the end of a run. Main statement: exactly when a stored file still has the text that the step wrote
into the staged one, once the listeners have cleaned up. -/
namespace BatchExport

namespace ExportJob

variable {ω : Type} {j : ExportJob ω} {fuel : Nat} {outputDir : String}

/-- What the step has written into the staged file with a suffix. -/
def written (log : FlowLog Json Json) (suffix : String) : List Char :=
  if suffix = WorkPath.recordsSuffix then log.outputs.flatMap StagedOutput.line
  else if log.failures = [] then [] else StagedOutput.errorsText log.failures

namespace Delivery

variable {e e' : Execution} {w w' : Worker ω} {suffix : String}

/-- The stored file with a suffix keeps what the step has written. -/
structure Survives (d : j.Delivery fuel outputDir e w e' w') (suffix : String) : Prop where
  /-- It is not where the cleanup deletes. -/
  outOfReach : ¬ Cleanup.Reaches d.temp w'.files (d.home ++ [WorkPath.entry d.temp suffix])
  /-- It is not the staged file itself, which is emptied, unless that is empty anyway. -/
  apart : d.home = d.area.dir → written d.log suffix = []
  /-- It is not an errors file from before. -/
  fresh : d.home ≠ d.area.dir → suffix = WorkPath.errorsSuffix → d.log.failures = [] →
    d.area.tree.textAt? d.area.errors = some []

variable (d : j.Delivery fuel outputDir e w e' w')

/-- The staged file that is there has what the step has written, unless it is an errors file from before. -/
private theorem staged_eq {text : List Char} (hsuffix : suffix ∈ present d.area d.files)
    (htext : d.files.textAt? (d.area.place suffix) = some text) :
    text = written d.log suffix ↔ (suffix = WorkPath.errorsSuffix → d.log.failures = [] →
      d.area.tree.textAt? d.area.errors = some []) := by
  have hcases : suffix = WorkPath.recordsSuffix ∨ suffix = WorkPath.errorsSuffix := by
    rw [present] at hsuffix
    split at hsuffix <;> simp at hsuffix <;> grind
  obtain rfl | rfl := hcases
  · obtain rfl : text = _ := Option.some.inj (htext.symm.trans d.staged.records)
    exact ⟨fun _ heq => absurd heq (by decide), fun _ => rfl⟩
  · have herrors := htext.symm.trans d.staged.errors
    by_cases hfailures : d.log.failures = []
    · rw [if_pos hfailures] at herrors
      have hwritten : written d.log WorkPath.errorsSuffix = [] := by
        rw [written, if_neg (by decide), if_pos hfailures]
      rw [hwritten, ← herrors]
      simp [hfailures]
    · rw [if_neg hfailures] at herrors
      have hwritten : written d.log WorkPath.errorsSuffix = StagedOutput.errorsText d.log.failures := by
        rw [written, if_neg (by decide), if_neg hfailures]
      exact ⟨fun _ _ hnone => absurd hnone hfailures, fun _ => hwritten ▸ Option.some.inj herrors⟩

private theorem survives_iff {t : FileTree} (hclean : FileTree.Deletes (Cleanup.Reaches d.temp w'.files) w'.files t)
    (hsuffix : suffix ∈ present d.area d.files) :
    t.read (WorkPath.stored outputDir d.temp suffix) = .ok (written d.log suffix) ↔ d.Survives suffix := by
  obtain ⟨hlocated, text, htext, hkept⟩ := d.kept suffix hsuffix
  have hstaged := d.staged_eq hsuffix htext
  rw [FileTree.read_iff (hclean.locate_iff.mpr hlocated)]
  by_cases hreach : Cleanup.Reaches d.temp w'.files (d.home ++ [WorkPath.entry d.temp suffix])
  · rw [hclean.deleted _ hreach]
    exact ⟨fun hnone => by (cases hnone), fun hsurvives => absurd hreach hsurvives.outOfReach⟩
  · rw [hclean.others _ hreach, hkept, Option.some.injEq]
    by_cases hhome : d.home = d.area.dir
    · rw [if_pos hhome]
      exact ⟨fun heq => ⟨hreach, fun _ => heq.symm, fun hne => absurd hhome hne⟩,
        fun hsurvives => (hsurvives.apart hhome).symm⟩
    · rw [if_neg hhome, hstaged]
      exact ⟨fun hfresh => ⟨hreach, fun heq => absurd heq hhome, fun _ => hfresh⟩,
        fun hsurvives => hsurvives.fresh hhome⟩

end Delivery

variable {s : Surroundings ω} {start r : Run ω} {w₀ w : Worker ω}

/-- When a run has completed and its listeners have cleaned up, exactly those stored files have what the step wrote
that are out of the cleanup's reach, are not the staged files themselves and are not left from before. -/
theorem stored_output_survives_iff (hs : s.SpareFiles) (hservices : j.ServicesKeep Worker.SameFiles)
    (hstore : j.store = fun path => Worker.onFiles (Storage.store outputDir path))
    (hstarting : start.phase = .starting) (hpart : start.job = [j.part fuel])
    {described : List DescribedStep} (hnotifier : .notifier described ∈ start.listeners)
    {job : JobId} (hjob : start.execution.jobId? = some job)
    {isTimeToLeave : Worker ω → Bool} {n : Nat} (hrun : start.goOn s isTimeToLeave n w₀ = (r, w))
    (hended : r.isEnded) (hcompleted : r.execution.status = .completed) :
    ∃ e₁ w₁ e₂ w₂ now, Run.Works s start w₀ (j.part fuel) e₁ w₁ e₂ w₂ ∧ r.execution = e₂.conclude (.ok ()) false now ∧
      ∃ d : j.Delivery fuel outputDir e₁ w₁ e₂ w₂,
        Entries.get? r.execution.context Key.outputFiles =
          some (OutputFiles.join ((present d.area d.files).map (WorkPath.stored outputDir d.temp))) ∧
        ∀ suffix ∈ present d.area d.files,
          w.files.read (WorkPath.stored outputDir d.temp suffix) = .ok (written d.log suffix) ↔ d.Survives suffix := by
  have hphase : r.phase = .ended := by
    rw [Run.isEnded] at hended
    cases hphase : r.phase <;> simp [hphase] at hended
    rfl
  have hleads : Run.Leads s start w₀ r w := by
    have hall : Run.Leads s start w₀ (start.goOn s isTimeToLeave n w₀).1 (start.goOn s isTimeToLeave n w₀).2 :=
      Run.Leads.refl.goOn isTimeToLeave n
    rwa [hrun] at hall
  obtain ⟨w₂, ⟨e₁, w₁, e₂, now, hworks, hstop, heq⟩, hclean⟩ :=
    hleads.completed hs hstarting hpart hnotifier hphase hcompleted
  obtain ⟨d⟩ := execute_delivers hservices hstore hworks.act hstop
  obtain ⟨begin, rfl⟩ := hworks.started
  have hparameters : r.execution.parameters = start.execution.parameters := by
    have hbody : e₂.parameters = start.execution.parameters :=
      (congrArg Execution.parameters d.execution).trans rfl
    rw [heq]
    exact hbody
  have hfiles : FileTree.Deletes (Cleanup.Reaches d.temp w₂.files) w₂.files w.files := by
    refine hclean job d.temp ?_ ?_
    · rw [Execution.jobId?, hparameters]
      exact hjob
    · rw [hparameters]
      exact d.parameter
  refine ⟨_, w₁, e₂, w₂, now, hworks, heq, d, ?_, fun suffix hsuffix => d.survives_iff hfiles hsuffix⟩
  have hcontext : e₂.context = Entries.put Key.outputFiles
      (OutputFiles.join ((present d.area d.files).map (WorkPath.stored outputDir d.temp))) start.execution.context :=
    (congrArg Execution.context d.execution).trans rfl
  have hkept : r.execution.context = e₂.context := (congrArg Execution.context heq).trans rfl
  rw [hkept, hcontext]
  exact Entries.get?_put_self _ _ _

end ExportJob

namespace SampleExport

def surroundings : Surroundings Unit where
  publish _ _ := pure ()
  restorer := .intoDirectory Unit "restore"

/-- A configuration with this directory of stored files. -/
def config (outputDir : String) : Config where
  application := { workDir := "work" }
  storage := { outputDir }

def sample : List Json := [.object [("id", .string "r1")]]

/-- The job "J1" under a configuration. -/
def start (c : Config) : Run Unit where
  listeners := [.notifier [], .rollback]
  job := [(job c.storage.outputDir sample).part 5]
  execution := execution (WorkPath.tempPath c.application.workDir c.application.name ⟨"J1"⟩ "orders")

def final (c : Config) : Run Unit × Worker Unit :=
  (start c).goOn surroundings (fun _ => false) 20 (worker (.empty []))

/-- How a run ended, as far as it can be compared. -/
def summary (ref : String) (r : Run Unit) (w : Worker Unit) :
    Bool × BatchStatus × Option String × Option (List Char) :=
  (r.isEnded, r.execution.status, Entries.get? r.execution.context Key.outputFiles, (w.files.read ref).toOption)

theorem summary_eq {x : Run Unit × Worker Unit} {ref : String} {ended : Bool} {status : BatchStatus}
    {refs : Option String} {text : Option (List Char)} (h : summary ref x.1 x.2 = (ended, status, refs, text)) :
    ∃ r w, x = (r, w) ∧ r.isEnded = ended ∧ r.execution.status = status ∧
      Entries.get? r.execution.context Key.outputFiles = refs ∧ (w.files.read ref).toOption = text := by
  obtain ⟨r, w⟩ := x
  simp only [summary, Prod.mk.injEq] at h
  exact ⟨r, w, rfl, h⟩

private theorem kept : summary "out/J1-orders.jsonl" (final (config "out")).1 (final (config "out")).2 =
    (true, .completed, some "out/J1-orders.jsonl", some "\x7b\"id\":\"r1\"\x7d\n".toList) := by
  decide +kernel

private theorem lost :
    summary "work/ferry/J1-orders.jsonl" (final (config "work/ferry")).1 (final (config "work/ferry")).2 =
      (true, .completed, some "work/ferry/J1-orders.jsonl", none) := by
  decide +kernel

/-- Where the stored files are among the staged ones, the cleanup takes them along. -/
theorem stored_output_is_deleted : ∃ c r w, Config.validate c = .ok c ∧ final c = (r, w) ∧ r.isEnded ∧
    r.execution.status = .completed ∧
      Entries.get? r.execution.context Key.outputFiles = some "work/ferry/J1-orders.jsonl" ∧
      ∀ text, w.files.read "work/ferry/J1-orders.jsonl" ≠ .ok text := by
  have hproblem : (config "work/ferry").problem? = none := by decide +kernel
  have hvalid : (config "work/ferry").validate = .ok (config "work/ferry") := by rw [Config.validate, hproblem]
  obtain ⟨r, w, hfinal, hended, hstatus, hfiles, hread⟩ := summary_eq lost
  refine ⟨config "work/ferry", r, w, hvalid, hfinal, hended, hstatus, hfiles, fun text htext => ?_⟩
  rw [htext] at hread
  cases hread

theorem stored_output_of_job : ∃ r w, final (config "out") = (r, w) ∧
    ∃ e₁ w₁ e₂ w₂, ∃ d : (job "out" sample).Delivery 5 "out" e₁ w₁ e₂ w₂,
      ∀ suffix ∈ ExportJob.present d.area d.files,
        w.files.read (WorkPath.stored "out" d.temp suffix) = .ok (ExportJob.written d.log suffix) ↔
          d.Survives suffix := by
  obtain ⟨r, w, hfinal, hended, hstatus, -, -⟩ := summary_eq kept
  have hspare : surroundings.SpareFiles := ⟨fun _ => rfl, fun _ _ h => h⟩
  have hservices : (job "out" sample).ServicesKeep Worker.SameFiles :=
    ⟨fun _ => .pure .refl _, fun _ _ => .throw .refl _⟩
  have hpart : (start (config "out")).job = [(job "out" sample).part 5] := rfl
  have hnotifier : .notifier [] ∈ (start (config "out")).listeners := List.mem_cons_self
  have hjob : (start (config "out")).execution.jobId? = some ⟨"J1"⟩ := by decide +kernel
  obtain ⟨e₁, w₁, e₂, w₂, now, -, -, d, -, hd⟩ := ExportJob.stored_output_survives_iff hspare hservices
    rfl rfl hpart hnotifier hjob hfinal hended hstatus
  exact ⟨r, w, hfinal, e₁, w₁, e₂, w₂, d, hd⟩

end SampleExport
end BatchExport
