import BatchExport.Proofs.Export.Staging

/-! Exports that have stored their files. Main statement: what an export that is not stopped and does not fail has
pulled, staged and stored. -/
namespace BatchExport.ExportJob

variable {ω : Type} {j : ExportJob ω} {fuel : Nat} {outputDir : String} {e e' : Execution} {w w' : Worker ω}

/-- How an export came to have all its records staged. -/
structure Staging (j : ExportJob ω) (fuel : Nat) (e : Execution) (w : Worker ω) (e' : Execution) (w' : Worker ω) where
  temp : String
  log : FlowLog Json Json
  run : StepRun
  ending : ChunkStep.Ending
  area : StagingArea temp
  parameter : e.parameters.nonBlank? Key.tempOutputPath = some temp
  logged : j.log? fuel (e, w) = some log
  tally : j.Tally ReferenceCache.anything log run
  begun : area.tree = StagedOutput.withDirectory (WorkPath.records temp) w.files
  recordsAt : area.tree.locate (WorkPath.records temp) = .ok area.records
  staged : IsStaged area log w'.files
  stopped : ending = .stopped → w'.stopRequested e'.id
  execution : e' = e.addStep (run.finish ending.status w.now)

/-- An export that does not fail has staged all its records before it goes on. -/
theorem execute_stages (hservices : j.ServicesKeep Worker.SameFiles)
    (hrun : (j.execute fuel).run (e, w) = some (.ok (), e', w')) :
    ∃ e₁ w₁, ∃ d : j.Staging fuel e w e₁ w₁, (j.finish d.temp).run (e₁, w₁) = some (.ok (), e', w') := by
  rw [execute_eq] at hrun
  obtain ⟨⟨temp, source, output⟩, ⟨e₁, w₁⟩, hsetUp, hrest⟩ := Effect.bind_ok hrun
  obtain ⟨⟨⟩, ⟨e₂, w₂⟩, hstage, hfinish⟩ := Effect.bind_ok hrest
  obtain ⟨hparameter, rfl, files, rfl, hcreate⟩ := setUp_ok hsetUp
  obtain ⟨area, hbegun, hstages, hrecords⟩ := StagedOutput.create_ok hcreate
  obtain ⟨log, run, ending, x, hlog, rfl, hending, htally, hstaged⟩ := stage_ok hservices hstages hstage
  have hlogged : j.log? fuel (e₁, w) = some log := by
    rw [log?, hsetUp]
    exact congrArg (Option.map _) hlog
  refine ⟨_, w₂, ⟨temp, log, run, ending, area, hparameter, hlogged, htally, hbegun, hrecords, hstaged, ?_, rfl⟩,
    hfinish⟩
  exact hending

/-- How an export came to its end: from its state before to its state after. -/
structure Delivery (j : ExportJob ω) (fuel : Nat) (outputDir : String) (e : Execution) (w : Worker ω) (e' : Execution)
    (w' : Worker ω) where
  temp : String
  log : FlowLog Json Json
  run : StepRun
  area : StagingArea temp
  /-- The files once all records are staged. -/
  files : FileTree
  /-- The directory of the stored files. -/
  home : Location
  parameter : e.parameters.nonBlank? Key.tempOutputPath = some temp
  logged : j.log? fuel (e, w) = some log
  tally : j.Tally ReferenceCache.anything log run
  begun : area.tree = StagedOutput.withDirectory (WorkPath.records temp) w.files
  staged : IsStaged area log files
  grown : files.Grows w'.files
  recordsAt : w'.files.locate (WorkPath.records temp) = .ok area.records
  errorsAt : w'.files.locate (WorkPath.errors temp) = .ok area.errors
  kept : ∀ suffix ∈ present area files, area.Kept outputDir home files w'.files suffix
  execution : e' = (e.addStep (run.finish .completed w.now)).putContext Key.outputFiles
    (OutputFiles.join ((present area files).map (WorkPath.stored outputDir temp)))

/-- What is not stopped stores what is staged and lists it. -/
theorem finish_stores {temp : String} (hrun : (j.finish temp).run (e, w) = some (.ok (), e', w'))
    (hstop : w'.stopRequested e'.id = false) :
    w.stopRequested e.id = false ∧ ∃ refs e₁, e' = e₁.putContext Key.outputFiles (OutputFiles.join refs) ∧
      (j.storeStaged [WorkPath.records temp, WorkPath.errors temp]).run (e, w) = some (.ok refs, e₁, w') := by
  obtain ⟨stopped, y, hstopped, hrest⟩ := Effect.bind_ok hrun
  cases hstopped
  split at hrest
  · rename_i hasked
    cases hrest
    cases hstop.symm.trans hasked
  · rename_i hgoing
    obtain ⟨refs, ⟨e₁, w₁⟩, hstored, hput⟩ := Effect.bind_ok hrest
    cases hput
    exact ⟨Bool.eq_false_iff.mpr hgoing, refs, e₁, rfl, hstored⟩

/-- An export that is not asked to stop and does not fail delivers. -/
theorem execute_delivers (hservices : j.ServicesKeep Worker.SameFiles)
    (hstore : j.store = fun path => Worker.onFiles (Storage.store outputDir path))
    (hrun : (j.execute fuel).run (e, w) = some (.ok (), e', w')) (hstop : w'.stopRequested e'.id = false) :
    Nonempty (j.Delivery fuel outputDir e w e' w') := by
  obtain ⟨e₁, w₁, d, hfinish⟩ := execute_stages hservices hrun
  obtain ⟨hgoing, refs, e₂, rfl, hstored⟩ := finish_stores hfinish hstop
  obtain ⟨rfl, rfl, home, files, rfl, hgrown, herrors, hkept⟩ :=
    storeStaged_ok hstore d.staged.grown d.staged.records hstored
  have hexhausted : d.ending.status = .completed := by
    cases hending : d.ending with
    | exhausted => rfl
    | stopped => cases hgoing.symm.trans (d.stopped hending)
  have hexecution : e₂ = e.addStep (d.run.finish .completed w.now) := by
    rw [← hexhausted]
    exact d.execution
  exact ⟨{
    temp := d.temp, log := d.log, run := d.run, area := d.area, files := w₁.files, home, parameter := d.parameter
    logged := d.logged, tally := d.tally, begun := d.begun, staged := d.staged, grown := hgrown
    recordsAt := (d.staged.grown.trans hgrown).locate d.recordsAt, errorsAt := herrors, kept := hkept
    execution := congrArg (Execution.putContext · _ _) hexecution }⟩

end BatchExport.ExportJob
