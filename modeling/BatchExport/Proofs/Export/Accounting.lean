import BatchExport.Proofs.Export.Delivery
import BatchExport.Proofs.Export.Provenance
import BatchExport.Proofs.Files.ReadBack
import BatchExport.Proofs.Lifecycle.Ending
import BatchExport.Summary

/-! Exports account for their records. Main statement: the stored files of a completed export and its counters tell what
became of every record that was delivered, once and in order. -/
namespace BatchExport

theorem Entries.get?_put_self {α : Type} (key : String) (value : α) (entries : Entries α) :
    Entries.get? (Entries.put key value entries) key = some value := by
  induction entries with
  | nil => simp [put, get?]
  | cons entry entries ih =>
    obtain ⟨k, v⟩ := entry
    rw [put]
    split
    · simp [get?]
    · split
      · simp [get?]
      · have hne : (key == k) = false := by simpa using ‹¬key = k›
        rw [get?, List.lookup_cons, hne]
        exact ih

namespace ExportJob

variable {ω : Type} {j : ExportJob ω} {fuel : Nat} {outputDir temp : String} {e e' : Execution} {w w' : Worker ω}

/-- What a completed export says about its records. -/
structure Reports (outputDir temp : String) (log : FlowLog Json Json) (run : StepRun) (e : Execution)
    (files : FileTree) : Prop where
  records : files.read (WorkPath.stored outputDir temp WorkPath.recordsSuffix) =
    .ok (log.outputs.flatMap StagedOutput.line)
  lines : Text.splitAt '\n' (log.outputs.flatMap StagedOutput.line) = log.outputs.map Json.write ++ [[]]
  values : ∀ v ∈ log.outputs, v.IsPlain → Json.read? v.write = some v
  errors : log.failures ≠ [] → files.read (WorkPath.stored outputDir temp WorkPath.errorsSuffix) =
    .ok (StagedOutput.errorsText log.failures)
  rows : Csv.read? (StagedOutput.errorsText log.failures) =
    some (["record".toList, "error".toList] :: log.failures.map StagedOutput.rowFields)
  references : Entries.get? e.context Key.outputFiles = some (OutputFiles.join
    (WorkPath.stored outputDir temp WorkPath.recordsSuffix ::
      if run.skipped = 0 then [] else [WorkPath.stored outputDir temp WorkPath.errorsSuffix]))
  step : ∃ stop, e.steps = [run.finish .completed stop]
  successful : (Summary.ofExecution e).isSuccessful ↔ run.written = run.read

namespace Delivery

variable (d : j.Delivery fuel outputDir e w e' w')

/-- An errors file that was not there before has come with the first failure. -/
private theorem present_eq (habsent : (StagedOutput.withDirectory (WorkPath.records d.temp) w.files).isThere
    (WorkPath.errors d.temp) = false) : present d.area d.files =
      WorkPath.recordsSuffix :: if d.run.skipped = 0 then [] else [WorkPath.errorsSuffix] := by
  have hskipped : d.run.skipped = 0 ↔ d.log.failures = [] := by rw [d.tally.skipped, List.length_eq_zero_iff]
  have hlocate : d.area.tree.locate (WorkPath.errors d.temp) = .ok d.area.errors :=
    (d.staged.grown.trans d.grown).locate_before (WorkPath.endsIn_errors d.temp)
      (d.area.walk_of_grows (.refl _) (by decide)) d.area.isDirectory d.errorsAt
  have hnone : d.area.tree.textAt? d.area.errors = none := by
    rw [← d.begun] at habsent
    rw [FileTree.isThere, FileTree.stat] at habsent
    rw [hlocate] at habsent
    rw [FileTree.textAt?]
    cases hnode : d.area.tree.node? d.area.errors with
    | none => rfl
    | some node =>
      simp only [hnode, bind, Except.bind] at habsent
      cases habsent
  rw [present]
  rw [d.staged.errors]
  by_cases hfailures : d.log.failures = []
  · rw [if_pos hfailures, if_pos (hskipped.mpr hfailures), hnone]
    rfl
  · rw [if_neg hfailures, if_neg (mt hskipped.mp hfailures)]
    rfl

/-- What is kept in another directory is what was staged. -/
private theorem read_stored {suffix : String} {text : List Char} (hapart : d.home ≠ d.area.dir)
    (hpresent : suffix ∈ present d.area d.files) (htext : d.files.textAt? (d.area.place suffix) = some text) :
    w'.files.read (WorkPath.stored outputDir d.temp suffix) = .ok text := by
  obtain ⟨hlocated, text', htext', hkept⟩ := d.kept suffix hpresent
  cases htext.symm.trans htext'
  rw [if_neg hapart] at hkept
  exact (FileTree.read_iff hlocated).mpr hkept

private theorem reports (hfresh : e.steps = [])
    (habsent : (StagedOutput.withDirectory (WorkPath.records d.temp) w.files).isThere (WorkPath.errors d.temp) = false)
    (hapart : w'.files.locate (WorkPath.stored outputDir d.temp WorkPath.recordsSuffix) ≠
      w'.files.locate (WorkPath.records d.temp)) (now : Instant) :
    Reports outputDir d.temp d.log d.run (e'.conclude (.ok ()) false now) w'.files := by
  have hpresent := d.present_eq habsent
  have hskipped : d.run.skipped = 0 ↔ d.log.failures = [] := by rw [d.tally.skipped, List.length_eq_zero_iff]
  have hrecords : WorkPath.recordsSuffix ∈ present d.area d.files := by simp [hpresent]
  have hhome : d.home ≠ d.area.dir := by
    intro heq
    apply hapart
    rw [(d.kept _ hrecords).located, d.recordsAt, heq]
    rfl
  have hcontext : (e'.conclude (.ok ()) false now).context = Entries.put Key.outputFiles
      (OutputFiles.join ((present d.area d.files).map (WorkPath.stored outputDir d.temp))) e.context :=
    congrArg Execution.context d.execution
  have hsteps : (e'.conclude (.ok ()) false now).steps = [d.run.finish .completed w.now] := by
    apply (congrArg Execution.steps d.execution).trans
    rw [Execution.putContext, Execution.addStep, hfresh]
    rfl
  refine ⟨d.read_stored hhome hrecords d.staged.records, StagedOutput.splitAt_lines _, fun _ _ => Json.read?_write,
    fun hfailures => ?_, StagedOutput.read?_errorsText _, ?_, ?_, ?_⟩
  · have herrors : WorkPath.errorsSuffix ∈ present d.area d.files := by simp [hpresent, hskipped, hfailures]
    refine d.read_stored hhome herrors (d.staged.errors.trans ?_)
    rw [if_neg hfailures]
  · refine (congrArg (Entries.get? · Key.outputFiles) hcontext).trans ((Entries.get?_put_self _ _ _).trans ?_)
    rw [hpresent]
    split <;> rfl
  · exact ⟨w.now, hsteps⟩
  · have hskips : (Summary.ofExecution (e'.conclude (.ok ()) false now)).skipped = d.run.skipped := by
      rw [Summary.ofExecution]
      dsimp only
      rw [hsteps]
      rfl
    have hsuccess : (Summary.ofExecution (e'.conclude (.ok ()) false now)).isSuccessful ↔ d.run.skipped = 0 := by
      rw [Summary.isSuccessful, hskips]
      simp [Summary.ofExecution, Execution.conclude, Execution.markCompleted, Execution.finish]
    have hcomplete := d.tally.complete
    rw [← d.tally.written, ← d.tally.skipped, ← d.tally.read] at hcomplete
    rw [hsuccess]
    omega

end Delivery

/-- A completed export accounts for every record that was delivered, with a stored line or a stored row. What is in them
comes from the record, the cache at the start and the service; others may put answers of the service into the cache
while pages are fetched. No errors file may be there at the start, once the directory of the staged files is made. -/
theorem accounts_for_every_record (hservices : j.ServicesKeep Worker.SameFiles)
    (hfetch : ∀ request, (j.fetch request).Keeps fun w w' => j.lookup.Supplies w.cache.Holds w'.cache)
    (hstore : j.store = fun path => Worker.onFiles (Storage.store outputDir path))
    (htemp : e.parameters.nonBlank? Key.tempOutputPath = some temp) (hfresh : e.steps = [])
    (habsent : (StagedOutput.withDirectory (WorkPath.records temp) w.files).isThere (WorkPath.errors temp) = false)
    {result : Except Failure Unit} (hrun : (j.execute fuel).run (e, w) = some (result, e', w')) {now : Instant}
    (hcompleted : (e'.conclude result (w'.stopRequested e'.id) now).status = .completed)
    (hapart : w'.files.locate (WorkPath.stored outputDir temp WorkPath.recordsSuffix) ≠
      w'.files.locate (WorkPath.records temp)) :
    ∃ log run, j.log? fuel (e, w) = some log ∧ j.Tally w.cache.Holds log run ∧
      Reports outputDir temp log run (e'.conclude result (w'.stopRequested e'.id) now) w'.files := by
  obtain ⟨rfl, hstop⟩ := Execution.conclude_completed hcompleted
  obtain ⟨d⟩ := execute_delivers hservices hstore hrun hstop
  obtain rfl : d.temp = temp := Option.some.inj (d.parameter.symm.trans htemp)
  rw [hstop]
  exact ⟨d.log, d.run, d.logged, d.tally.ofStart hfetch d.logged, d.reports hfresh habsent hapart now⟩

end ExportJob

namespace SampleExport

/-- The second record refers to something about which the service fails. -/
def records : List Json := [
  .object [("id", .string "r1")],
  .object [("id", .string "r2"), ("servicePointId", .string "part")]]

def job (outputDir : String) (records : List Json) : ExportJob Unit where
  sourceName := "orders"
  source := { path := "/orders", enrich := [⟨"servicePointId", .servicePoint, "servicePoint"⟩] }
  fetch r := pure ⟨if r.position = .offset 0 then records else [], none⟩
  lookup := {
    byId := fun _ _ => throw (.partialFailure "p" "q")
    byQuery := fun _ _ => pure [] }
  store path := Worker.onFiles (Storage.store outputDir path)

def worker (files : FileTree) : Worker Unit := { cache := .new 0 [] none, files, now := ⟨0, 0⟩, outside := () }

def execution (temp : String) : Execution :=
  .new 1 "orders-export" [(Key.jobId, "J1"), (Key.tempOutputPath, temp)] ⟨0, 0⟩

/-- How an export ended, as far as it can be compared. -/
structure Ended where
  stopped : Bool
  stored : Option Location
  staged : Option Location
  errors : Option (List Char)
  skipped : List Nat
  deriving DecidableEq

def ended (temp : String) (e : Execution) (w : Worker Unit) : Ended where
  stopped := w.stopRequested e.id
  stored := (w.files.locate (WorkPath.stored "out" temp WorkPath.recordsSuffix)).toOption
  staged := (w.files.locate (WorkPath.records temp)).toOption
  errors := (w.files.read (WorkPath.stored "out" temp WorkPath.errorsSuffix)).toOption
  skipped := e.steps.map (·.skipped)

private def ended? (temp : String) (x : Except Failure Unit × Execution × Worker Unit) : Option Ended :=
  match x with
  | (.ok (), e, w) => some (ended temp e w)
  | _ => none

private theorem ended_some {temp : String} {x : Option (Except Failure Unit × Execution × Worker Unit)} {n : Ended}
    (h : x.bind (ended? temp) = some n) : ∃ e w, x = some (.ok (), e, w) ∧ ended temp e w = n := by
  obtain ⟨⟨result, e, w⟩, hx, hended⟩ := Option.bind_eq_some_iff.mp h
  cases result with
  | error f => cases hended
  | ok => exact ⟨e, w, hx, Option.some.inj hended⟩

private theorem completed {temp : String} {e : Execution} {w : Worker Unit} {n : Ended} (h : ended temp e w = n)
    (hstopped : n.stopped = false) : (e.conclude (.ok ()) (w.stopRequested e.id) w.now).status = .completed := by
  have hstop : w.stopRequested e.id = false := (congrArg Ended.stopped h).trans hstopped
  rw [hstop]
  rfl

private theorem apart {temp : String} {e : Execution} {w : Worker Unit} {n : Ended} {stored staged : Location}
    (h : ended temp e w = n) (hstored : n.stored = some stored) (hstaged : n.staged = some staged)
    (hne : stored ≠ staged) :
    w.files.locate (WorkPath.stored "out" temp WorkPath.recordsSuffix) ≠ w.files.locate (WorkPath.records temp) := by
  subst h
  intro heq
  rw [ended] at hstored hstaged
  rw [heq] at hstored
  exact hne (Option.some.inj (hstored.symm.trans hstaged))

private theorem read_errors {temp : String} {e : Execution} {w : Worker Unit} {n : Ended} {text : List Char}
    (h : ended temp e w = n) (herrors : n.errors = some text) :
    w.files.read (WorkPath.stored "out" temp WorkPath.errorsSuffix) = .ok text := by
  subst h
  dsimp only [ended] at herrors
  exact Effect.ok_of_toOption herrors

private theorem ran : (((job "out" records).execute 5).run (execution "work/J1-orders", worker (.empty []))).bind
    (ended? "work/J1-orders") = some ⟨false, some ["out", "J1-orders.jsonl"], some ["work", "J1-orders.jsonl"],
      some "record,error\np,q\n".toList, [1]⟩ := by
  decide +kernel

private theorem logged : ((job "out" records).log? 5 (execution "work/J1-orders", worker (.empty []))).map
    (·.delivered.map (recordId · "id")) = some ["r1", "r2"] := by
  decide +kernel

/-- An errors file that the path of the staged one does not lead to before its directory is made. -/
def oldErrors : FileTree := (FileTree.empty []).put ["T_errors.csv"] (.file "old".toList)

private theorem ranAgain : (((job "out" []).execute 5).run (execution "x/../T", worker oldErrors)).bind
    (ended? "x/../T") = some ⟨false, some ["out", "T.jsonl"], some ["T.jsonl"], some "old".toList, [0]⟩ := by
  decide +kernel

/-- A row need not name a record that was delivered, and an old errors file may be stored though no record failed. -/
theorem misnamed_row_and_old_errors :
    (∃ e w log,
      ((job "out" records).execute 5).run (execution "work/J1-orders", worker (.empty [])) = some (.ok (), e, w) ∧
      (e.conclude (.ok ()) (w.stopRequested e.id) w.now).status = .completed ∧
      (FileTree.empty []).isThere (WorkPath.records "work/J1-orders") = false ∧
      (FileTree.empty []).isThere (WorkPath.errors "work/J1-orders") = false ∧
      w.files.locate (WorkPath.stored "out" "work/J1-orders" WorkPath.recordsSuffix) ≠
        w.files.locate (WorkPath.records "work/J1-orders") ∧
      (job "out" records).log? 5 (execution "work/J1-orders", worker (.empty [])) = some log ∧
      log.delivered.map (recordId · "id") = ["r1", "r2"] ∧
      w.files.read (WorkPath.stored "out" "work/J1-orders" WorkPath.errorsSuffix) = .ok "record,error\np,q\n".toList) ∧
    ∃ e w, ((job "out" []).execute 5).run (execution "x/../T", worker oldErrors) = some (.ok (), e, w) ∧
      (e.conclude (.ok ()) (w.stopRequested e.id) w.now).status = .completed ∧
      oldErrors.isThere (WorkPath.records "x/../T") = false ∧ oldErrors.isThere (WorkPath.errors "x/../T") = false ∧
      w.files.locate (WorkPath.stored "out" "x/../T" WorkPath.recordsSuffix) ≠
        w.files.locate (WorkPath.records "x/../T") ∧
      e.steps.map (·.skipped) = [0] ∧
      w.files.read (WorkPath.stored "out" "x/../T" WorkPath.errorsSuffix) = .ok "old".toList := by
  constructor
  · obtain ⟨e, w, hrun, hended⟩ := ended_some ran
    obtain ⟨log, hlog, hdelivered⟩ := Option.map_eq_some_iff.mp logged
    refine ⟨e, w, log, hrun, completed hended rfl, by decide, by decide, ?_, hlog, hdelivered, ?_⟩
    · exact apart hended rfl rfl (by decide)
    · exact read_errors hended rfl
  · obtain ⟨e, w, hrun, hended⟩ := ended_some ranAgain
    refine ⟨e, w, hrun, completed hended rfl, by decide, by decide, ?_, congrArg Ended.skipped hended, ?_⟩
    · exact apart hended rfl rfl (by decide)
    · exact read_errors hended rfl

theorem accounts_for_two_records : ∃ e w log run,
    ((job "out" records).execute 5).run (execution "work/J1-orders", worker (.empty [])) = some (.ok (), e, w) ∧
      (job "out" records).log? 5 (execution "work/J1-orders", worker (.empty [])) = some log ∧
      (job "out" records).Tally (worker (.empty [])).cache.Holds log run ∧
      ExportJob.Reports "out" "work/J1-orders" log run (e.conclude (.ok ()) (w.stopRequested e.id) w.now) w.files := by
  have hservices : (job "out" records).ServicesKeep Worker.SameFiles :=
    ⟨fun _ => .pure .refl _, fun _ _ => .throw .refl _⟩
  have hfetch (request : PageRequest) :
      ((job "out" records).fetch request).Keeps fun w w' => (job "out" records).lookup.Supplies w.cache.Holds w'.cache :=
    .pure (fun w => ReferenceLookup.supplies_start _ w.cache) _
  obtain ⟨e, w, hrun, hended⟩ := ended_some ran
  obtain ⟨log, run, hlog, htally, hreports⟩ :=
    ExportJob.accounts_for_every_record hservices hfetch rfl (by decide) rfl (by decide +kernel) hrun
      (completed hended rfl) (apart hended rfl rfl (by decide))
  exact ⟨e, w, log, run, hrun, hlog, htally, hreports⟩

end SampleExport
end BatchExport
