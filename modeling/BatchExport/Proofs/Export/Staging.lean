import BatchExport.Proofs.Export.Enrichment
import BatchExport.Proofs.Export.Services
import BatchExport.Proofs.Export.Stored
import BatchExport.Proofs.Job.Accounting

/-! The parts of an export that succeeds. Main statements: what its step has pulled is told by a log, and the counters of
the step and the staged files agree with the log. -/
namespace BatchExport.ExportJob

variable {ω : Type} {j : ExportJob ω} {fuel : Nat} {temp outputDir : String} {source : RecordSource}
  {output : StagedOutput} {e e' : Execution} {w w' : Worker ω}

/-- What there is before the first record is pulled: where staged files go, the records and the writer. -/
def setUp (j : ExportJob ω) : Effect (Execution × Worker ω) (String × RecordSource × StagedOutput) := do
  let temp ← tempPath
  let output ← onFiles (StagedOutput.create (WorkPath.records temp) (WorkPath.errors temp))
  match RecordSource.ofSettings j.sourceName j.source with
  | .error f => throw f
  | .ok source => return (temp, source, output)

/-- Keep what is staged, unless a stop is asked for. -/
def finish (j : ExportJob ω) (temp : String) : Effect (Execution × Worker ω) Unit := do
  if ← isStopped then return
  let stored ← j.storeStaged [WorkPath.records temp, WorkPath.errors temp]
  .ofChange fun (e, w) => ((), e.putContext Key.outputFiles (OutputFiles.join stored), w)

theorem execute_eq (j : ExportJob ω) (fuel : Nat) :
    j.execute fuel = (do
      let (temp, source, output) ← j.setUp
      j.stage fuel source output
      j.finish temp) := by
  unfold execute setUp finish
  simp only [bind_assoc]
  congr 1
  funext temp
  congr 1
  funext output
  cases RecordSource.ofSettings j.sourceName j.source with
  | error f => rfl
  | ok source => simp

theorem setUp_ok (hrun : j.setUp.run (e, w) = some (.ok (temp, source, output), e', w')) :
    e.parameters.nonBlank? Key.tempOutputPath = some temp ∧ e' = e ∧ ∃ files, w' = { w with files } ∧
      (StagedOutput.create (WorkPath.records temp) (WorkPath.errors temp)).run w.files = some (.ok output, files) := by
  obtain ⟨temp, y, htemp, hrest⟩ := Effect.bind_ok hrun
  obtain ⟨output, z, hcreate, hrest⟩ := Effect.bind_ok hrest
  obtain ⟨files, hfiles, rfl⟩ := Effect.onPart_some hcreate
  split at hrest
  · cases hrest
  · cases hrest
    obtain ⟨y', z', hget, hparameter⟩ := Effect.bind_ok htemp
    cases hget
    split at hparameter
    · cases hparameter
      exact ⟨‹_›, rfl, files, rfl, hfiles⟩
    · cases hparameter

/-- What the step of an export pulls, and what becomes of it. -/
def log? (j : ExportJob ω) (fuel : Nat) (x : Execution × Worker ω) : Option (FlowLog Json Json) :=
  match j.setUp.run x with
  | some (.ok (_, source, output), e, w) =>
    (((j.step fuel e.id).logged.body fuel).run ({ name := j.stepName }, {}, ⟨source, output, w⟩)).map
      fun (_, _, log, _) => log
  | _ => none

/-- The state of the writer tells what was written and skipped. -/
private def Tells (area : StagingArea temp) (written : List Json) (skipped : List Failure) (x : ExportStage ω) : Prop :=
  StagedOutput.Stages area x.output x.worker.files written skipped

private theorem onOutput_some {α : Type} {e : Effect (StagedOutput × FileTree) α} {r : Except Failure α}
    {x x' : ExportStage ω} (hrun : (ExportStage.onOutput e).run x = some (r, x')) :
    e.run (x.output, x.worker.files) = some (r, x'.output, x'.worker.files) ∧
      x' = { x with output := x'.output, worker := { x.worker with files := x'.worker.files } } := by
  obtain ⟨⟨output, files⟩, he, rfl⟩ := Effect.onPart_some hrun
  exact ⟨he, rfl⟩

/-- What the output does not matter to is kept by the writer. -/
theorem output_logged (holds : FlowLog Json Json × ExportStage ω → Prop)
    (hkept : ∀ log x output files, holds (log, x) →
      holds (log, { x with output, worker := { x.worker with files } }))
    (e : Effect (StagedOutput × FileTree) Unit) :
    ((ExportStage.onOutput e).onPart (·.2) fun s (y : FlowLog Json Json × ExportStage ω) => (y.1, s)).Keeps
      fun y y' => holds y → holds y' := by
  rintro ⟨log, x⟩
  exact .onPart (.onPart fun _ part _ hy => hkept log x part.1 part.2 hy)

private theorem flow_tells (h : j.ServicesKeep Worker.SameFiles) (area : StagingArea temp) (id : ExecutionId) :
    (j.flow fuel id).Tells (Tells area) := by
  have hcache {w w' : Worker ω} (cache : ReferenceCache) (h : w.SameFiles w') : w.SameFiles { w' with cache } := h
  constructor
  · intro written skipped x x' item? htells hrun
    obtain ⟨houtput, hfiles⟩ := next_keeps h .refl .trans fuel id _ _ _ hrun
    rw [Tells]
    rwa [houtput, hfiles]
  · intro written skipped x x' record outcome htells hrun
    obtain ⟨houtput, hfiles⟩ := process_keeps h .refl .trans hcache fuel id record _ _ _ hrun
    rw [Tells]
    rwa [houtput, hfiles]
  · intro written skipped x x' items htells hrun
    obtain ⟨hwrite, -⟩ := onOutput_some (e := StagedOutput.write items) hrun
    exact htells.write hwrite
  · intro written skipped x x' f htells hrun
    obtain ⟨hwrite, -⟩ := onOutput_some (e := StagedOutput.writeSkipped f) hrun
    exact htells.writeSkipped hwrite

/-- What a record comes to by the rules of the export, with entities that the cache held or the service gives. -/
def Becomes (j : ExportJob ω) (held : ReferenceKind → String → Json → Prop) : Json → Except Failure Json → Prop :=
  Enrichment.Becomes (j.lookup.Resolves held) j.source.enrich j.source.idField

/-- What becomes of a record: a line with its enriched value, or a row with its id and the reason. A service that fails
a record itself chooses both. -/
inductive Accounted (j : ExportJob ω) (held : ReferenceKind → String → Json → Prop) (record : Json) :
    Except Failure (Option Json) → Prop
  | line (value : Json) (enriched : j.Becomes held record (.ok value)) : Accounted j held record (.ok (some value))
  | row (name reason : String) (refused : j.Becomes held record (.error (.partialFailure name reason)))
      (named : name = recordId record j.source.idField ∨ Enrichment.IsFailureOf j.lookup (.partialFailure name reason)) :
      Accounted j held record (.error (.partialFailure name reason))

/-- Every record that was delivered is accounted for, once and in order, and so the counters say. -/
structure Tally (j : ExportJob ω) (held : ReferenceKind → String → Json → Prop) (log : FlowLog Json Json)
    (run : StepRun) : Prop where
  inOrder : log.processed.map (·.1) = log.delivered
  accounted : ∀ p ∈ log.processed, j.Accounted held p.1 p.2
  complete : log.outputs.length + log.failures.length = log.delivered.length
  read : run.read = log.delivered.length
  written : run.written = log.outputs.length
  skipped : run.skipped = log.failures.length
  filtered : run.filtered = 0

/-- The staged files agree with the log. An errors file from before is not touched as long as no record fails. -/
structure IsStaged (area : StagingArea temp) (log : FlowLog Json Json) (t : FileTree) : Prop where
  grown : area.tree.Grows t
  records : t.textAt? area.records = some (log.outputs.flatMap StagedOutput.line)
  errors : t.textAt? area.errors =
    if log.failures = [] then area.tree.textAt? area.errors else some (StagedOutput.errorsText log.failures)

/-- What the step is answered about a record is what it comes to. -/
theorem process_becomes {held : ReferenceKind → String → Json → Prop} (fuel : Nat) (id : ExecutionId) (record : Json)
    {x : ExportStage ω} (hcache : j.lookup.Supplies held x.worker.cache) :
    ((j.flow fuel id).process record).Ensures x fun outcome y =>
      (∃ r, outcome = r.map some ∧ j.Becomes held record r) ∧ j.lookup.Supplies held y.worker.cache := by
  have hcached : (ExportStage.onCache (Enrichment.process j.lookup j.source.enrich j.source.idField record)).Ensures x
      fun r y => j.Becomes held record r ∧ j.lookup.Supplies held y.worker.cache :=
    .onPart (Enrichment.process_ensures hcache)
  exact .map (hcached.mono fun r y ⟨hbecomes, hy⟩ => ⟨⟨r, rfl, hbecomes⟩, hy⟩)

theorem Accounted.of_becomes {held : ReferenceKind → String → Json → Prop} {record : Json} {r : Except Failure Json}
    (h : j.Becomes held record r) (hskippable : ∀ f, r = .error f → f.isSkippable) :
    j.Accounted held record (r.map some) := by
  cases r with
  | ok value => exact .line value h
  | error f =>
    obtain ⟨name, reason, rfl, hnamed⟩ := Enrichment.Becomes.of_skippable h (hskippable f rfl)
    exact .row name reason h hnamed

private theorem tally_of_accounts {id : ExecutionId} {area : StagingArea temp} {log : FlowLog Json Json} {run : StepRun}
    {x : ExportStage ω} (h : (j.step fuel id).Accounts (Tells area) [] [] run log x) :
    j.Tally ReferenceCache.anything log run := by
  have haccounted (p : Json × Except Failure (Option Json)) (hp : p ∈ log.processed) :
      j.Accounted ReferenceCache.anything p.1 p.2 := by
    obtain ⟨y, y', hanswer⟩ := h.answered p hp
    obtain ⟨⟨r, heq, hbecomes⟩, -⟩ :=
      process_becomes fuel id p.1 (j.lookup.supplies_anything y.worker.cache) p.2 y' hanswer
    rw [heq]
    refine .of_becomes hbecomes fun f hf => h.skippable f (List.mem_filterMap.mpr ⟨p, hp, ?_⟩)
    rw [heq, hf]
    rfl
  have hfiltered : log.filtered = 0 := by
    apply List.countP_eq_zero.mpr
    intro p hp
    obtain ⟨item, outcome⟩ := p
    cases haccounted _ hp <;> simp [FlowLog.isNothing]
  have hinOrder : log.processed.map (·.1) = log.delivered := by simpa using h.inOrder
  have hlength : log.processed.length = log.delivered.length := by rw [← hinOrder, List.length_map]
  have hprocessed := log.length_processed
  obtain ⟨written, hwritten, hcount, -⟩ := h.written
  rw [List.append_nil] at hwritten
  refine ⟨hinOrder, haccounted, by omega, by rw [h.read, hlength], ?_, h.skipped, by rw [h.filtered, hfiltered]⟩
  rw [hcount, hwritten]

private theorem output_keepsStop (id : ExecutionId) (e : Effect (StagedOutput × FileTree) Unit) :
    (ExportStage.onOutput e).Keeps (j.step fuel id).KeepsStop := fun _ =>
  .onPart fun _ _ _ hstop => hstop

/-- The log of a step that succeeds tells what is staged. -/
theorem stage_ok (hservices : j.ServicesKeep Worker.SameFiles) {area : StagingArea temp}
    (hstages : StagedOutput.Stages area output w.files [] [])
    (hrun : (j.stage fuel source output).run (e, w) = some (.ok (), e', w')) :
    ∃ log run ending x, ((j.step fuel e.id).logged.body fuel).run ({ name := j.stepName }, {}, ⟨source, output, w⟩) =
        some (.ok ending, run, log, x) ∧
      e' = e.addStep (run.finish ending.status w.now) ∧ (ending = .stopped → w'.stopRequested e.id) ∧
      j.Tally ReferenceCache.anything log run ∧ IsStaged area log w'.files := by
  obtain ⟨⟨r, e₁, x⟩, hexecute, heq⟩ := Option.map_eq_some_iff.mp hrun
  cases heq
  obtain ⟨⟨ending, run, x⟩, hbody, heq⟩ := Option.map_eq_some_iff.mp (ChunkStep.execute_some hexecute).2
  cases ending with
  | error f => cases heq
  | ok ending =>
    cases heq
    have hlogged := ((j.step fuel e.id).body_logged fuel { name := j.stepName } {} ⟨source, output, w⟩).trans hbody
    obtain ⟨⟨ending', run', log, x'⟩, hlog, heq⟩ := Option.map_eq_some_iff.mp hlogged
    cases heq
    obtain ⟨y, haccounts, hclose⟩ := ChunkStep.body_accounts (flow_tells hservices area e.id) hstages hlog
    refine ⟨log, run, ending, x, hlog, rfl, fun hstopped => ?_, tally_of_accounts haccounts, ?_⟩
    · rw [hstopped] at hbody
      exact ChunkStep.body_stopped (fun items => output_keepsStop e.id (StagedOutput.write items))
        (output_keepsStop e.id StagedOutput.close) hbody
    · obtain ⟨written, hwritten, -, htells⟩ := haccounts.written
      rw [List.append_nil] at hwritten
      obtain ⟨hclosed, -⟩ := onOutput_some (e := StagedOutput.close) hclose
      obtain ⟨hgrown, hrecords, herrors⟩ := htells.close hclosed
      exact ⟨hgrown, hwritten ▸ hrecords, herrors⟩

end BatchExport.ExportJob
