import BatchExport.Proofs.Export.Survival

/-! Exports that are stopped while others act. Main statement: a run that ends stopped has stored nothing if the stop was
asked for before the export looked after its step, and all that was staged if it came later. -/
namespace BatchExport

variable {σ ι ο ω : Type}

namespace Effect

/-- Others act once it is done. -/
def amid (others : σ → σ) (e : Effect σ α) : Effect σ α := .ofRun fun s => (e.run s).map fun (r, s) => (r, others s)

theorem amid_id (e : Effect σ α) : e.amid id = e := by
  funext s
  change (e.run s).map _ = e.run s
  cases e.run s <;> rfl

theorem amid_some {others : σ → σ} {e : Effect σ α} {s s' : σ} {r : Except Failure α}
    (h : (e.amid others).run s = some (r, s')) : ∃ t, e.run s = some (r, t) ∧ s' = others t := by
  obtain ⟨⟨r', t⟩, he, heq⟩ := Option.map_eq_some_iff.mp h
  cases heq
  exact ⟨t, he, rfl⟩

end Effect

namespace ItemFlow

/-- Others act after every operation. -/
def amid (others : σ → σ) (flow : ItemFlow σ ι ο) : ItemFlow σ ι ο where
  stopRequested := flow.stopRequested
  next := flow.next.amid others
  process item := (flow.process item).amid others
  write items := (flow.write items).amid others
  writeSkipped f := (flow.writeSkipped f).amid others
  close := flow.close.amid others

theorem amid_id (flow : ItemFlow σ ι ο) : flow.amid id = flow := by
  rw [amid]
  simp only [Effect.amid_id]

end ItemFlow

theorem StatusRecord.files_ofExecution (described : List DescribedStep) (job : JobId) (e : Execution) :
    (ofExecution described job e).files = OutputFiles.ofExecution e := by
  rw [ofExecution, StatusDraft.withErrorDetails, StatusDraft.build]

namespace ExportJob

variable (j : ExportJob ω) (others : Worker ω → Worker ω) (fuel : Nat)

/-- Others do not get hold of the execution. -/
def besides (others : Worker ω → Worker ω) (x : Execution × Worker ω) : Execution × Worker ω := (x.1, others x.2)

/-- The step of the export amid others. -/
def stepAmid (id : ExecutionId) : ChunkStep (ExportStage ω) Json Json :=
  { j.step fuel id with flow := (j.flow fuel id).amid fun s => { s with worker := others s.worker } }

/-- All records are staged amid others. Answers where. -/
def stageAmid : Effect (Execution × Worker ω) String := do
  let (temp, source, output) ← j.setUp.amid (besides others)
  .ofRun fun (e, w) =>
    (((j.stepAmid others fuel e.id).execute fuel w.now).run (e, ⟨source, output, w⟩)).map fun (r, e, s) => (r, e, s.worker)
  return temp

/-- The staged files that are there are stored amid others. -/
def storeAmid : List String → Effect (Execution × Worker ω) (List String)
  | [] => pure []
  | path :: rest => do
    let check : Effect (Execution × Worker ω) Bool := onFiles (.ofStep fun t =>
      ((t.exists? path).mapError fun fault => .storage ("Failed to check " ++ path ++ ": " ++ fault.message), t))
    let there ← check.amid (besides others)
    if !there then storeAmid rest
    else return (← (onWorker (j.store path)).amid (besides others)) :: (← storeAmid rest)

/-- The export amid others, who act after each of its operations. -/
def executeAmid : Effect (Execution × Worker ω) Unit := do
  let temp ← j.stageAmid others fuel
  if ← isStopped then return
  let stored ← j.storeAmid others [WorkPath.records temp, WorkPath.errors temp]
  .ofChange fun (e, w) => ((), e.putContext Key.outputFiles (OutputFiles.join stored), w)

def partAmid : JobPart ω := { act := j.executeAmid others fuel }

private theorem besides_id : besides (id : Worker ω → Worker ω) = id := rfl

private theorem stepAmid_id (id' : ExecutionId) : j.stepAmid id fuel id' = j.step fuel id' := by
  have hflow : (j.flow fuel id').amid (fun s => { s with worker := id s.worker }) = j.flow fuel id' :=
    ItemFlow.amid_id _
  rw [stepAmid, hflow]
  rfl

theorem storeAmid_id (paths : List String) : j.storeAmid id paths = j.storeStaged paths := by
  induction paths with
  | nil => rfl
  | cons path rest ih =>
    rw [storeAmid, storeStaged]
    simp only [besides_id, Effect.amid_id, ih]

/-- If nobody else acts, it is the export. -/
theorem executeAmid_id : j.executeAmid id fuel = j.execute fuel := by
  rw [execute_eq, executeAmid, stageAmid]
  simp only [besides_id, Effect.amid_id, stepAmid_id, storeAmid_id, bind_assoc, pure_bind]
  rfl

variable {j others fuel} {e e' : Execution} {w w' : Worker ω} {temp : String}

theorem stageAmid_ok (hrun : (j.stageAmid others fuel).run (e, w) = some (.ok temp, e', w')) :
    e.parameters.nonBlank? Key.tempOutputPath = some temp ∧ e'.context = e.context := by
  obtain ⟨⟨temp', source, output⟩, ⟨e₁, w₁⟩, hsetUp, hrest⟩ := Effect.bind_ok hrun
  obtain ⟨⟨⟩, ⟨e₂, w₂⟩, hstep, hanswer⟩ := Effect.bind_ok hrest
  cases hanswer
  obtain ⟨⟨e₃, w₃⟩, hbegun, heq⟩ := Effect.amid_some hsetUp
  obtain ⟨hparameter, rfl, -⟩ := setUp_ok hbegun
  cases heq
  obtain ⟨⟨result, e₄, x⟩, hexecute, heq⟩ := Option.map_eq_some_iff.mp hstep
  cases heq
  obtain ⟨⟨ending, run, y⟩, -, heq⟩ := Option.map_eq_some_iff.mp (ChunkStep.execute_some hexecute).2
  cases ending with
  | error f => cases heq
  | ok ending =>
    cases heq
    exact ⟨hparameter, rfl⟩

/-- The staged files that are there are handed to the storage, one after the other and amid others. -/
inductive StoreCalls (j : ExportJob ω) (others : Worker ω → Worker ω) :
    List String → Worker ω → List String → Worker ω → Prop
  | done (w : Worker ω) : StoreCalls j others [] w [] w
  | missing {path : String} {rest refs : List String} {w w' : Worker ω} (check : w.files.exists? path = .ok false)
      (later : StoreCalls j others rest (others w) refs w') : StoreCalls j others (path :: rest) w refs w'
  | stored {path ref : String} {rest refs : List String} {w w₁ w' : Worker ω} (check : w.files.exists? path = .ok true)
      (answer : (j.store path).run (others w) = some (.ok ref, w₁))
      (later : StoreCalls j others rest (others w₁) refs w') : StoreCalls j others (path :: rest) w (ref :: refs) w'

private theorem look_run {α : Type} (look : FileTree → Except Failure α) :
    ((onFiles (.ofStep fun t => (look t, t))).amid (besides others)).run (e, w) = some (look w.files, e, others w) := rfl

private theorem mapError_ok_iff {result : Except FileFault Bool} {describe : FileFault → Failure} {there : Bool} :
    result.mapError describe = .ok there ↔ result = .ok there := by
  cases result with
  | error fault =>
    constructor
    · intro h
      cases h
    · intro h
      cases h
  | ok b =>
    constructor
    · intro h
      cases h
      rfl
    · intro h
      cases h
      rfl

private theorem store_run {path ref : String} {w₁ : Worker ω} (h : (j.store path).run w = some (.ok ref, w₁)) :
    ((onWorker (j.store path)).amid (besides others)).run (e, w) = some (.ok ref, e, others w₁) := by
  change (((j.store path).run w).map _).map _ = _
  rw [h]
  rfl

/-- What the calls have answered is what the export lists. -/
theorem storeAmid_ok_iff {paths refs : List String} : (j.storeAmid others paths).run (e, w) = some (.ok refs, e', w') ↔
    e' = e ∧ j.StoreCalls others paths w refs w' := by
  induction paths generalizing w refs with
  | nil =>
    constructor
    · intro h
      cases h
      exact ⟨rfl, .done _⟩
    · rintro ⟨rfl, hcalls⟩
      cases hcalls
      rfl
  | cons path rest ih =>
    constructor
    · intro h
      obtain ⟨there, y, hcheck, hrest⟩ := Effect.bind_ok h
      rw [look_run, Option.some.injEq, Prod.mk.injEq, mapError_ok_iff] at hcheck
      obtain ⟨hthere, rfl⟩ := hcheck
      cases there with
      | false =>
        obtain ⟨rfl, hcalls⟩ := ih.mp hrest
        exact ⟨rfl, .missing hthere hcalls⟩
      | true =>
        obtain ⟨ref, y, hstore, hrest⟩ := Effect.bind_ok hrest
        obtain ⟨more, z, hmore, heq⟩ := Effect.bind_ok hrest
        cases heq
        obtain ⟨y', hkeep, rfl⟩ := Effect.amid_some hstore
        obtain ⟨w₁, hanswer, rfl⟩ := Effect.onPart_some hkeep
        obtain ⟨rfl, hcalls⟩ := ih.mp hmore
        exact ⟨rfl, .stored hthere hanswer hcalls⟩
    · rintro ⟨rfl, hcalls⟩
      rw [storeAmid, Effect.run_bind, look_run]
      cases hcalls with
      | missing check later =>
        rw [mapError_ok_iff.mpr check]
        exact ih.mpr ⟨rfl, later⟩
      | stored check answer later =>
        rw [mapError_ok_iff.mpr check]
        change ((onWorker (j.store path)).amid (besides others) >>= _).run (e', others w) = _
        rw [Effect.run_bind, store_run answer]
        change (j.storeAmid others rest >>= _).run _ = _
        rw [Effect.run_bind, ih.mpr ⟨rfl, later⟩]
        rfl

/-- What a run of an export has stored whose body has ended without a failure. -/
inductive Course (j : ExportJob ω) (fuel : Nat) (s : Surroundings ω) (start : Run ω) (w₀ : Worker ω) :
    Execution → Option (List String) → Prop
  /-- A stop was asked for before the body: it is left out. -/
  | leftOut {e : Execution} {w : Worker ω}
      (reached : Run.Leads s start w₀ { start with execution := e, phase := .deciding } w)
      (asked : w.stopRequested e.id = true) : Course j fuel s start w₀ e none
  /-- A stop was asked for before the export looked. -/
  | unstored {e₁ e : Execution} {w₁ w : Worker ω} {temp : String}
      (reached : Run.Leads s start w₀ { start with execution := e₁, phase := .working [j.partAmid s.others fuel] } w₁)
      (staged : (j.stageAmid s.others fuel).run (e₁, w₁) = some (.ok temp, e, w))
      (asked : w.stopRequested e.id = true) : Course j fuel s start w₀ e none
  /-- The staged files are stored. -/
  | stored {e₁ e : Execution} {w₁ w w' : Worker ω} {temp : String} {refs : List String}
      (reached : Run.Leads s start w₀ { start with execution := e₁, phase := .working [j.partAmid s.others fuel] } w₁)
      (staged : (j.stageAmid s.others fuel).run (e₁, w₁) = some (.ok temp, e, w))
      (going : w.stopRequested e.id = false)
      (calls : j.StoreCalls s.others [WorkPath.records temp, WorkPath.errors temp] w refs w') :
      Course j fuel s start w₀ (e.putContext Key.outputFiles (OutputFiles.join refs)) (some refs)

section Courses

variable {s : Surroundings ω} {start : Run ω} {w₀ : Worker ω} {stored? : Option (List String)}

/-- What is stored is listed in the context. -/
theorem course_of_body (hnew : Entries.get? start.execution.context Key.outputFiles = none)
    (h : Run.Body s start w₀ (j.partAmid s.others fuel) (.ok ()) e) :
    ∃ stored?, j.Course fuel s start w₀ e stored? ∧
      Entries.get? e.context Key.outputFiles = stored?.map OutputFiles.join := by
  cases h with
  | leftOut reached started asked =>
    obtain ⟨begin, rfl⟩ := started
    exact ⟨none, .leftOut reached asked, hnew⟩
  | ran reached started act =>
    obtain ⟨begin, rfl⟩ := started
    obtain ⟨temp, ⟨e₁, w₁⟩, hstage, hrest⟩ := Effect.bind_ok act
    have hcontext : Entries.get? e₁.context Key.outputFiles = none := by
      rw [(stageAmid_ok hstage).2]
      exact hnew
    obtain ⟨asked, y, hasked, hrest⟩ := Effect.bind_ok hrest
    cases hasked
    split at hrest
    · cases hrest
      exact ⟨none, .unstored reached hstage ‹_›, hcontext⟩
    · rename_i hgoing
      obtain ⟨refs, ⟨e₂, w₂⟩, hstore, hput⟩ := Effect.bind_ok hrest
      cases hput
      obtain ⟨rfl, hcalls⟩ := storeAmid_ok_iff.mp hstore
      refine ⟨some refs, .stored reached hstage (Bool.eq_false_iff.mpr hgoing) hcalls, ?_⟩
      exact Entries.get?_put_self _ _ _

end Courses

/-- What a run of an export that ends stopped has stored, by when the stop was asked for. -/
inductive StopCourse (j : ExportJob ω) (fuel : Nat) (s : Surroundings ω) (start : Run ω) (w₀ : Worker ω) :
    Execution → Option (List String) → Prop
  /-- Before the body: it is left out. -/
  | leftOut {e : Execution} {w : Worker ω} (now : Instant)
      (reached : Run.Leads s start w₀ { start with execution := e, phase := .deciding } w)
      (asked : w.stopRequested e.id = true) : StopCourse j fuel s start w₀ (e.conclude (.ok ()) true now) none
  /-- Before the export looks, once its step has ended: nothing is stored. -/
  | unstored {e₁ e : Execution} {w₁ w : Worker ω} {temp : String} (now : Instant)
      (reached : Run.Leads s start w₀ { start with execution := e₁, phase := .working [j.partAmid s.others fuel] } w₁)
      (staged : (j.stageAmid s.others fuel).run (e₁, w₁) = some (.ok temp, e, w))
      (asked : w.stopRequested e.id = true) : StopCourse j fuel s start w₀ (e.conclude (.ok ()) true now) none
  /-- Later: all that was staged is stored. -/
  | stored {e₁ e e' : Execution} {w₁ w w' : Worker ω} {temp : String} {refs : List String} (now : Instant)
      (reached : Run.Leads s start w₀ { start with execution := e₁, phase := .working [j.partAmid s.others fuel] } w₁)
      (staged : (j.stageAmid s.others fuel).run (e₁, w₁) = some (.ok temp, e, w))
      (going : w.stopRequested e.id = false)
      (stored : (j.storeAmid s.others [WorkPath.records temp, WorkPath.errors temp]).run (e, w) =
        some (.ok refs, e', w')) :
      StopCourse j fuel s start w₀
        ((e'.putContext Key.outputFiles (OutputFiles.join refs)).conclude (.ok ()) true now) (some refs)

variable {s : Surroundings ω} {start r : Run ω} {w₀ : Worker ω}

private theorem Course.stopped {stored? : Option (List String)} (h : j.Course fuel s start w₀ e stored?) (now : Instant) :
    j.StopCourse fuel s start w₀ (e.conclude (.ok ()) true now) stored? := by
  cases h with
  | leftOut reached asked => exact .leftOut now reached asked
  | unstored reached staged asked => exact .unstored now reached staged asked
  | stored reached staged going calls =>
    exact .stored now reached staged going (storeAmid_ok_iff.mpr ⟨rfl, calls⟩)

/-- At whatever moment the stop is asked for: an execution that ends stopped has stored nothing and lists no files if this
was before the export looked, once its step had ended; if it was later, all that was staged is stored and listed. -/
theorem stopped_export_lists (hstarting : start.phase = .starting) (hpart : start.job = [j.partAmid s.others fuel])
    (hnew : Entries.get? start.execution.context Key.outputFiles = none) {isTimeToLeave : Worker ω → Bool} {n : Nat}
    (hrun : start.goOn s isTimeToLeave n w₀ = (r, w)) (hended : r.isEnded) (hstopped : r.execution.status = .stopped) :
    ∃ stored?, j.StopCourse fuel s start w₀ r.execution stored? ∧
      Entries.get? r.execution.context Key.outputFiles = stored?.map OutputFiles.join ∧
      ∀ described job, (StatusRecord.ofExecution described job r.execution).files =
        stored?.elim [] fun refs => OutputFiles.parse (OutputFiles.join refs) := by
  have hleads : Run.Leads s start w₀ r w := Run.leads_of_goOn hrun
  obtain ⟨e, now, hbody, heq⟩ := hleads.stopped hstarting hpart (Run.phase_of_isEnded hended) hstopped
  obtain ⟨stored?, hcourse, hcontext⟩ := course_of_body hnew hbody
  have hfiles : Entries.get? r.execution.context Key.outputFiles = stored?.map OutputFiles.join := by
    rw [heq]
    exact hcontext
  refine ⟨stored?, heq ▸ hcourse.stopped now, hfiles, fun described job => ?_⟩
  rw [StatusRecord.files_ofExecution, OutputFiles.ofExecution, hfiles]
  cases stored? <;> rfl

end ExportJob

namespace SampleExport

/-- Somebody asks for a stop while a file is stored. -/
def interrupted : ExportJob Unit :=
  { job "out" sample with
    store := fun path => (Worker.onFiles (Storage.store "out" path)).amid fun w => (w.requestStop 1).2 }

def interruptedStart : Run Unit where
  listeners := [.notifier []]
  job := [interrupted.partAmid surroundings.others 5]
  execution := execution "work/J1-orders"

def interruptedEnd : Run Unit × Worker Unit :=
  interruptedStart.goOn surroundings (fun _ => false) 20 (worker (.empty []))

private theorem stored : summary "out/J1-orders.jsonl" interruptedEnd.1 interruptedEnd.2 =
    (true, .stopped, some "out/J1-orders.jsonl", some "\x7b\"id\":\"r1\"\x7d\n".toList) := by
  decide +kernel

/-- An execution that ends stopped has stored its file and lists it. -/
theorem stopped_export_has_stored : ∃ r w, interruptedEnd = (r, w) ∧ r.isEnded ∧ r.execution.status = .stopped ∧
    (w.files.read "out/J1-orders.jsonl").toOption = some "\x7b\"id\":\"r1\"\x7d\n".toList ∧
    ∀ described job, (StatusRecord.ofExecution described job r.execution).files = ["out/J1-orders.jsonl"] := by
  obtain ⟨r, w, hend, hended, hstopped, hcontext, hread⟩ := summary_eq stored
  refine ⟨r, w, hend, hended, hstopped, hread, fun described job => ?_⟩
  rw [StatusRecord.files_ofExecution, OutputFiles.ofExecution, hcontext]
  decide

/-- The stop was asked for after the export had looked. -/
theorem stop_came_late : ∃ r w, interruptedEnd = (r, w) ∧ ∃ refs,
    interrupted.StopCourse 5 surroundings interruptedStart (worker (.empty [])) r.execution (some refs) := by
  obtain ⟨r, w, hend, hended, hstopped, hcontext, -⟩ := summary_eq stored
  obtain ⟨stored?, hcourse, hlists, -⟩ :=
    ExportJob.stopped_export_lists (j := interrupted) rfl rfl rfl hend hended hstopped
  cases stored? with
  | none => cases hcontext.symm.trans hlists
  | some refs => exact ⟨r, w, hend, refs, hcourse⟩

end SampleExport
end BatchExport
