import BatchExport.Proofs.Lifecycle.Steps

/-! The stops that are asked for while an execution runs, and what they are answered. Main statement: a stop is accepted
until the execution has left, but only one that comes before the mark decides its end. -/
namespace BatchExport

/-- What happens to one execution and to the stops of it. -/
inductive StopEvent where
  | asked (accepted : Bool)
  | marked (status : BatchStatus)
  | left
  deriving DecidableEq

section Events

variable {ω : Type} (id : ExecutionId)

def Deed.stopEvents (w : Worker ω) : Deed ω → List StopEvent
  | .requestStop other => if other = id then [.asked (w.requestStop id).1] else []
  | _ => []

def RollbackCall.stopEvents (c c' : RollbackCall) : List StopEvent :=
  match c.phase, c'.phase with
  | .stopping other, .awaiting _ => if other = id then [.asked true] else []
  | .stopping other, .choosing _ _ => if other = id then [.asked false] else []
  | _, _ => []

/-- A job that asks for a stop does not tell the answer. What it asks for shows in the flag that it raises. -/
def Run.stopEvents (r r' : Run ω) (w w' : Worker ω) : List StopEvent :=
  match r.phase with
  | .working _ => if w.stopRequested id = false ∧ w'.stopRequested id then [.asked true] else []
  | .concluding _ => if r.execution.id = id then [.marked r'.execution.status] else []
  | .leaving => if r.execution.id = id then [.left] else []
  | _ => []

def Task.stopEvents (w w' : Worker ω) : Task ω → Task ω → List StopEvent
  | .run r, .run r' => r.stopEvents id r' w w'
  | .rollback c, .rollback c' => c.stopEvents id c'
  | _, _ => []

def Scene.stopEvents (x x' : Scene ω) : Move ω → List StopEvent
  | .step i =>
    match x.tasks[i]?, x'.tasks[i]? with
    | some t, some t' => t.stopEvents id x.worker x'.worker t'
    | _, _ => []
  | .timeOut _ => []
  | .deed d => d.stopEvents id x.worker

/-- The move as it is, told as a matter of the stops of one execution. -/
def Scene.playStops? (s : Surroundings ω) (x : Scene ω) (m : Move ω) : Option (List StopEvent × Scene ω) :=
  (x.play? s m).map fun (_, x') => (x.stopEvents id x' m, x')

/-- An execution is prepared; its run can start at any time. -/
def Scene.launch (x : Scene ω) (jobName : String) (parameters : JobParameters) (listeners : List Listener)
    (job : List (JobPart ω)) : Scene ω :=
  let (execution, worker) := x.worker.prepare jobName parameters
  { worker, tasks := x.tasks ++ [.run { listeners, job, execution }] }

end Events

/-- How far an execution has come, as far as stops of it are concerned. -/
inductive StopStage where
  | unmarked
  | marked (status : BatchStatus)
  | left (status : BatchStatus)

def Run.stopStage (r : Run ω) : StopStage :=
  match r.phase with
  | .leaving => .marked r.execution.status
  | .after _ | .ended => .left r.execution.status
  | _ => .unmarked

/-- Stops that are asked for one after the other and are answered alike. -/
def stopsAsked (n : Nat) (accepted : Bool) : List StopEvent := List.replicate n (.asked accepted)

/-- What can have happened: so many stops before the mark, between the mark and the leave, and after it. -/
def StopStage.log (early gap late : Nat) : StopStage → List StopEvent
  | unmarked => stopsAsked early true
  | marked status => stopsAsked early true ++ .marked status :: stopsAsked gap true
  | left status => stopsAsked early true ++ .marked status :: (stopsAsked gap true ++ .left :: stopsAsked late false)

/-- A body that has not failed ends stopped if a stop was accepted before the mark, else completed. -/
def EndsAs (early : Nat) (status : BatchStatus) : Prop :=
  status = .failed ∨ status = if 0 < early then .stopped else .completed

section Asks

variable {ω : Type} {s : Surroundings ω} {id : ExecutionId} {w w' : Worker ω} {r r' : Run ω}

theorem Worker.isRunning_eq (w : Worker ω) (id : ExecutionId) : w.isRunning id = (w.running.get? id).isSome := rfl

theorem Worker.requestStop_answer (w : Worker ω) (id : ExecutionId) : (w.requestStop id).1 = w.isRunning id := by
  rw [Worker.isRunning, requestStop, RunningSet.requestStop]
  cases w.running.isRunning id <;> rfl

/-- The flag of the execution is left alone, or a stop is asked for and answered. -/
inductive Asks (id : ExecutionId) (w w' : Worker ω) : List StopEvent → Prop
  | not (same : w'.running.get? id = w.running.get? id) : Asks id w w' []
  | once (raised : w'.running.get? id = (w.running.get? id).map fun _ => true) :
      Asks id w w' [.asked (w.isRunning id)]

theorem Asks.of_running (h : w'.running = w.running) : Asks id w w' [] := .not (by rw [h])

private theorem Asks.of_requestStop (other : ExecutionId) (h : w'.running = (w.running.requestStop other).2) :
    Asks id w w' (if other = id then [.asked (w.isRunning id)] else []) := by
  by_cases hid : other = id
  · subst hid
    rw [if_pos rfl]
    exact .once (by rw [h, RunningSet.get?_requestStop, if_pos rfl])
  · rw [if_neg hid]
    exact .not (by rw [h, RunningSet.get?_requestStop, if_neg (Ne.symm hid)])

theorem Deed.asks (w : Worker ω) (d : Deed ω) : Asks id w (d.act w) (d.stopEvents id w) := by
  cases d with
  | requestStop other =>
    rw [stopEvents, Worker.requestStop_answer]
    exact .of_requestStop other rfl
  | _ => exact .of_running rfl

private theorem RollbackCall.asks_of_stopping {c c' : RollbackCall} {other : ExecutionId}
    (hs : s.operator = .ofRunningSet ω) (hphase : c.phase = .stopping other)
    (hstep : c.step? s w = some (c', w')) : Asks id w w' (c.stopEvents id c') := by
  obtain ⟨job, phase⟩ := c
  subst hphase
  simp only [step?, hs, JobOperator.ofRunningSet, Effect.run_ofChange, Option.map_some, Option.some.injEq,
    Prod.mk.injEq] at hstep
  obtain ⟨hc, hw⟩ := hstep
  have hanswer : (w.running.requestStop other).1 = w.isRunning other := w.requestStop_answer other
  have hevents : stopEvents id { job, phase := .stopping other } c' =
      if other = id then [.asked (w.isRunning id)] else [] := by
    rw [← hc, hanswer]
    by_cases hid : other = id
    · subst hid
      cases w.isRunning other <;> rfl
    · cases w.isRunning other <;> simp [stopEvents, hid]
  rw [hevents]
  exact .of_requestStop other (by rw [← hw])

private theorem RollbackCall.stopEvents_of_ne {c c' : RollbackCall} (h : ∀ other, c.phase ≠ .stopping other) :
    c.stopEvents id c' = [] := by
  rw [stopEvents]
  split
  · exact absurd ‹_› (h _)
  · exact absurd ‹_› (h _)
  · rfl

/-- With the runner itself as the operator, a call goes by the answer of the runner. -/
theorem RollbackCall.asks {c c' : RollbackCall} (hs : s.operator = .ofRunningSet ω)
    (hstep : c.step? s w = some (c', w')) : Asks id w w' (c.stopEvents id c') := by
  by_cases hphase : ∃ other, c.phase = .stopping other
  · obtain ⟨other, hphase⟩ := hphase
    exact asks_of_stopping hs hphase hstep
  · have hne (other : ExecutionId) : c.phase ≠ .stopping other := fun h => hphase ⟨other, h⟩
    rw [stopEvents_of_ne hne]
    have hchange := (step_change 0 hstep).2
    generalize c.events 0 c' = evs at hchange
    cases hchange with
    | takes other before after bound bindings running => exact .of_running running
    | restores r restored before after bindings running => exact .of_running running
    | returns other f before after bindings running => exact .of_running running
    | goesOn before held brought bindings running => exact .of_running running
    | asks other result before => exact absurd before (hne other)

/-- The work of a job can do no more to an execution in flight than to raise its flag. -/
private theorem Worker.Spares.flag (h : w.Spares w') (id : ExecutionId) :
    w'.running.get? id = w.running.get? id ∨
      w.running.get? id = some false ∧ w'.running.get? id = some true := by
  have hrunning : (w'.running.get? id).isSome = (w.running.get? id).isSome := h.running id
  have hstops := h.stops id
  rw [Worker.stopRequested, Worker.stopRequested, RunningSet.stopRequested, RunningSet.stopRequested] at hstops
  cases hflag : w.running.get? id with
  | none =>
    rw [hflag] at hrunning
    exact .inl (Option.not_isSome_iff_eq_none.mp (by simp [hrunning]))
  | some stop =>
    rw [hflag] at hrunning hstops
    obtain ⟨stop', hflag'⟩ := Option.isSome_iff_exists.mp hrunning
    rw [hflag'] at hstops ⊢
    cases stop <;> cases stop' <;> simp_all

/-- All steps of a run but its own mark and leave. -/
theorem Run.Change.asks {evs : List Event} (h : Run.Change s r r' w w' evs)
    (hstarting : r.execution.id = id → r.phase = .starting → w.isRunning id)
    (hmark : r.execution.id = id → ∀ result, r.phase ≠ .concluding result)
    (hleave : r.execution.id = id → r.phase ≠ .leaving) : Asks id w w' (r.stopEvents id r' w w') := by
  cases h with
  | starts hooks before after execution worker =>
    rw [stopEvents, before]
    -- A prepared execution is in flight already and keeps its flag.
    refine .not ?_
    rw [worker, RunningSet.get?_ensure]
    split
    · rename_i hid
      obtain ⟨stop, hstop⟩ := Option.isSome_iff_exists.mp (hstarting hid.symm before)
      rw [← hid, hstop]
      rfl
    · rfl
  | prepares hook rest more before after execution worker =>
    rw [stopEvents, before]
    exact .of_running (by rw [worker, Hook.act_running])
  | decides before after execution worker =>
    have hevents : r.stopEvents id r' w w' = [] := by
      rw [stopEvents]
      rcases before with before | before <;> rw [before]
    rw [hevents]
    exact .of_running (by rw [worker])
  | works parts before after same parameters spares =>
    rw [stopEvents, before]
    dsimp only
    rcases spares.flag id with hflag | ⟨hdown, hup⟩
    · rw [if_neg (by simp [Worker.stopRequested, RunningSet.stopRequested, hflag])]
      exact .not hflag
    · rw [if_pos (by simp [Worker.stopRequested, RunningSet.stopRequested, hdown, hup])]
      have hrunning : w.isRunning id = true := by rw [Worker.isRunning_eq, hdown]; rfl
      rw [← hrunning]
      exact .once (by rw [hdown, hup]; rfl)
  | concludes result before after execution worker =>
    rw [stopEvents, before]
    dsimp only
    rw [if_neg fun hid => hmark hid result before]
    exact .of_running (by rw [worker])
  | leaves hooks before after execution worker =>
    have hne : r.execution.id ≠ id := fun hid => hleave hid before
    rw [stopEvents, before]
    dsimp only
    rw [if_neg hne]
    exact .not (by rw [worker, RunningSet.get?_leave, if_neg (Ne.symm hne)])
  | notifies hook rest more before after execution worker =>
    rw [stopEvents, before]
    exact .of_running (by rw [worker, Hook.act_running])
  | ends before after execution worker =>
    rw [stopEvents, before]
    exact .of_running (by rw [worker])

end Asks

section Told

variable {ω : Type} {s : Surroundings ω} {id : ExecutionId} {w w' : Worker ω} {r r' : Run ω} {stage : StopStage}
  {flag : Option Bool} {log evs : List StopEvent}

private theorem stopsAsked_snoc (n : Nat) (accepted : Bool) :
    stopsAsked n accepted ++ [.asked accepted] = stopsAsked (n + 1) accepted :=
  List.replicate_succ'.symm

/-- What the stage of an execution says about its flag and about what has happened so far. -/
private inductive Told : StopStage → Option Bool → List StopEvent → Prop
  | unmarked (early : Nat) : Told .unmarked (some (decide (0 < early))) (StopStage.unmarked.log early 0 0)
  | marked (status : BatchStatus) (stop : Bool) (early gap : Nat) (ends : EndsAs early status) :
      Told (.marked status) (some stop) ((StopStage.marked status).log early gap 0)
  | left (status : BatchStatus) (early gap late : Nat) (ends : EndsAs early status) :
      Told (.left status) none ((StopStage.left status).log early gap late)

private theorem Told.asks (h : Told stage (w.running.get? id) log) (hasks : Asks id w w' evs) :
    Told stage (w'.running.get? id) (log ++ evs) := by
  cases hasks with
  | not same => rwa [same, List.append_nil]
  | once raised =>
    rw [raised, Worker.isRunning_eq]
    generalize w.running.get? id = flag at h
    cases h with
    | unmarked early =>
      have hlog : StopStage.unmarked.log early 0 0 ++ [.asked true] = StopStage.unmarked.log (early + 1) 0 0 :=
        stopsAsked_snoc early true
      exact hlog ▸ .unmarked (early + 1)
    | marked status stop early gap ends =>
      have hlog : (StopStage.marked status).log early gap 0 ++ [.asked true] =
          (StopStage.marked status).log early (gap + 1) 0 := by
        simp [StopStage.log, ← stopsAsked_snoc]
      exact hlog ▸ .marked status true early (gap + 1) ends
    | left status early gap late ends =>
      have hlog : (StopStage.left status).log early gap late ++ [.asked false] =
          (StopStage.left status).log early gap (late + 1) := by
        simp [StopStage.log, ← stopsAsked_snoc]
      exact hlog ▸ .left status early gap (late + 1) ends

private theorem Told.mark {result : Except Failure Unit} {e : Execution} {now : Instant} {stop : Bool}
    {status : BatchStatus} (h : Told .unmarked flag log) (hstop : stop = (flag == some true))
    (hstatus : status = (e.conclude result stop now).status) :
    Told (.marked status) flag (log ++ [.marked status]) := by
  cases h with
  | unmarked early =>
    have hearly : stop = decide (0 < early) := by
      rw [hstop]
      cases decide (0 < early) <;> rfl
    have hends : EndsAs early status := by
      rw [hstatus, hearly]
      cases result with
      | error f => exact .inl rfl
      | ok => cases early <;> exact .inr rfl
    exact .marked status _ early 0 hends

private theorem Told.leave {status : BatchStatus} (h : Told (.marked status) flag log) :
    Told (.left status) none (log ++ [.left]) := by
  cases h with
  | marked _ stop early gap ends =>
    have hlog : (StopStage.marked status).log early gap 0 ++ [.left] = (StopStage.left status).log early gap 0 := by
      simp [StopStage.log, stopsAsked]
    exact hlog ▸ .left status early gap 0 ends

private theorem Run.Change.stopStage {happened : List Event} (h : Run.Change s r r' w w' happened)
    (hmark : ∀ result, r.phase ≠ .concluding result) (hleave : r.phase ≠ .leaving) : r'.stopStage = r.stopStage := by
  rw [Run.stopStage, Run.stopStage]
  cases h with
  | starts hooks before after => rw [before, after]
  | prepares hook rest more before after => rw [before, after]
  | decides before after =>
    rcases before with before | before <;>
      rcases after with after | after | ⟨result, after⟩ <;> rw [before, after]
  | works parts before after => rcases after with after | ⟨result, after⟩ <;> rw [before, after]
  | concludes result before => exact absurd before (hmark result)
  | leaves hooks before => exact absurd before hleave
  | notifies hook rest more before after execution => rw [before, after, execution]
  | ends before after execution => rw [before, after, execution]

/-- The steps of the execution itself. -/
private theorem Told.run {happened : List Event} (hid : r.execution.id = id)
    (hchange : Run.Change s r r' w w' happened) (h : Told r.stopStage (w.running.get? id) log) :
    Told r'.stopStage (w'.running.get? id) (log ++ r.stopEvents id r' w w') := by
  have hstarting (before : r.phase = .starting) : w.isRunning id := by
    rw [Run.stopStage, before] at h
    rw [Worker.isRunning_eq]
    generalize w.running.get? id = flag at h
    cases h
    rfl
  have hasks (hmark : ∀ result, r.phase ≠ .concluding result) (hleave : r.phase ≠ .leaving) :
      Told r'.stopStage (w'.running.get? id) (log ++ r.stopEvents id r' w w') := by
    rw [hchange.stopStage hmark hleave]
    exact h.asks (hchange.asks (fun _ => hstarting) (fun _ => hmark) fun _ => hleave)
  cases hchange with
  | starts hooks before => exact hasks (by simp [before]) (by simp [before])
  | prepares hook rest more before => exact hasks (by simp [before]) (by simp [before])
  | decides before => rcases before with before | before <;> exact hasks (by simp [before]) (by simp [before])
  | works parts before => exact hasks (by simp [before]) (by simp [before])
  | concludes result before after execution worker =>
    have hevents : r.stopEvents id r' w w' = [.marked r'.execution.status] := by
      rw [Run.stopEvents, before]
      exact if_pos hid
    rw [hevents]
    rw [Run.stopStage, before] at h
    -- The flag is read here, but the execution is in flight until its next step: this is the gap.
    rw [Run.stopStage, after, worker]
    exact h.mark (by rw [← hid]; rfl) (congrArg Execution.status execution)
  | leaves hooks before after execution worker =>
    have hevents : r.stopEvents id r' w w' = [.left] := by
      rw [Run.stopEvents, before]
      exact if_pos hid
    rw [hevents]
    rw [Run.stopStage, before] at h
    rw [Run.stopStage, after, worker, execution, hid, RunningSet.get?_leave, if_pos rfl]
    exact h.leave
  | notifies hook rest more before => exact hasks (by simp [before]) (by simp [before])
  | ends before => exact hasks (by simp [before]) (by simp [before])

end Told

section Story

variable {ω : Type} {s : Surroundings ω} {id : ExecutionId} {k : Nat} {log evs : List StopEvent} {x x' : Scene ω}

/-- The execution has one run, at the given position. -/
structure Scene.Owns (x : Scene ω) (id : ExecutionId) (k : Nat) : Prop where
  confined : x.IsConfined
  single : ∀ j q, x.run? j = some q → q.execution.id = id → j = k
  run : ∃ r, x.run? k = some r ∧ r.execution.id = id

/-- Moves that are no steps of runs. -/
theorem Scene.Owns.others (h : x.Owns id k) (hconfined : x'.IsConfined) (hruns : ∀ j, x'.run? j = x.run? j) :
    x'.Owns id k := by
  obtain ⟨r, hr, hid⟩ := h.run
  refine ⟨hconfined, ?_, r, by rw [hruns, hr], hid⟩
  intro j q hq hqid
  rw [hruns] at hq
  exact h.single j q hq hqid

/-- A step of a run belongs to the execution if the run is the one at the given position. -/
theorem Scene.Owns.own_iff (h : x.Owns id k) {i : Nat} {q : Run ω} (hq : x.run? i = some q) :
    q.execution.id = id ↔ i = k := by
  constructor
  · exact h.single i q hq
  · rintro rfl
    obtain ⟨r, hr, hid⟩ := h.run
    cases hq.symm.trans hr
    exact hid

theorem Scene.Owns.step (h : x.Owns id k) (hconfined : x'.IsConfined) {i : Nat} {q q' : Run ω}
    (there : x.tasks[i]? = some (.run q)) (tasks : x'.tasks = x.tasks.set i (.run q'))
    (hsame : q'.execution.id = q.execution.id) : x'.Owns id k := by
  have hq := Scene.run?_of_there there
  have hafter := Scene.run?_after_run there tasks
  refine ⟨hconfined, ?_, ?_⟩
  · intro j p hp hpid
    rw [hafter] at hp
    split at hp
    · rename_i hj
      cases hp
      rw [hj]
      exact (h.own_iff hq).mp (hsame.symm.trans hpid)
    · exact h.single j p hp hpid
  · obtain ⟨r, hr, hid⟩ := h.run
    by_cases hk : k = i
    · exact ⟨q', by rw [hafter, if_pos hk], hsame.trans ((h.own_iff hq).mpr hk.symm)⟩
    · exact ⟨r, by rw [hafter, if_neg hk, hr], hid⟩

/-- This has been told about the stops of the execution. -/
private structure StopsTold (id : ExecutionId) (k : Nat) (log : List StopEvent) (x : Scene ω) : Prop where
  owns : x.Owns id k
  told : ∀ r, x.run? k = some r → Told r.stopStage (x.worker.running.get? id) log

theorem Scene.stopEvents_step {i : Nat} {t t' : Task ω} (there : x.tasks[i]? = some t)
    (tasks : x'.tasks = x.tasks.set i t') : x.stopEvents id x' (.step i) = t.stopEvents id x.worker x'.worker t' := by
  have hlt : i < x.tasks.length := (List.getElem?_eq_some_iff.mp there).1
  rw [stopEvents, there, tasks, List.getElem?_set, if_pos rfl, if_pos hlt]

private theorem StopsTold.play {m : Move ω} (hs : s.operator = .ofRunningSet ω) (h : StopsTold id k log x)
    (hplay : x.playStops? id s m = some (evs, x')) : StopsTold id k (log ++ evs) x' := by
  obtain ⟨⟨happened, y⟩, hmove, heq⟩ := Option.map_eq_some_iff.mp hplay
  cases heq
  have hconfined := Scene.play_confined h.owns.confined hmove
  -- Moves of others can do no more to the execution than to ask for its stop.
  have hothers {evs : List StopEvent} (hown : x'.run? k = x.run? k) (hasks : Asks id x.worker x'.worker evs)
      (r : Run ω) (hr : x'.run? k = some r) : Told r.stopStage (x'.worker.running.get? id) (log ++ evs) :=
    (h.told r (by rw [← hown, hr])).asks hasks
  cases Scene.play_change hmove with
  | run i q q' there step tasks =>
    obtain ⟨-, hchange⟩ := Run.step_change (h.owns.confined q (List.mem_of_getElem? there)) step
    have hq := Scene.run?_of_there there
    have hafter := Scene.run?_after_run there tasks k
    rw [Scene.stopEvents_step there tasks]
    refine ⟨h.owns.step hconfined there tasks hchange.sameExecution, ?_⟩
    by_cases hk : k = i
    · rw [if_pos hk] at hafter
      intro r hr
      cases hafter.symm.trans hr
      exact Told.run ((h.owns.own_iff hq).mpr hk.symm) hchange (h.told q (by rw [hk, hq]))
    · have hne : q.execution.id ≠ id := fun hid => hk ((h.owns.own_iff hq).mp hid).symm
      rw [if_neg hk] at hafter
      exact hothers hafter (hchange.asks (absurd · hne) (absurd · hne) (absurd · hne))
  | call i c c' there step tasks =>
    have hruns := Scene.run?_after_call there tasks
    rw [Scene.stopEvents_step there tasks]
    exact ⟨h.owns.others hconfined hruns, hothers (hruns k) (RollbackCall.asks hs step)⟩
  | timeOut i c c' there late worker tasks =>
    have hruns := Scene.run?_after_call there tasks
    exact ⟨h.owns.others hconfined hruns, hothers (hruns k) (.of_running (by rw [worker]))⟩
  | deed d worker tasks =>
    have hruns (j : Nat) : x'.run? j = x.run? j := by rw [Scene.run?, Scene.run?, tasks]
    exact ⟨h.owns.others hconfined hruns, hothers (hruns k) (worker ▸ d.asks x.worker)⟩

variable {jobName : String} {parameters : JobParameters} {listeners : List Listener} {job : List (JobPart ω)}

/-- The run of an execution that is prepared now. -/
def Scene.newRun (x : Scene ω) (jobName : String) (parameters : JobParameters) (listeners : List Listener)
    (job : List (JobPart ω)) : Run ω :=
  { listeners, job, execution := (x.worker.prepare jobName parameters).1 }

theorem Scene.launch_run? : (x.launch jobName parameters listeners job).run? x.tasks.length =
    some (x.newRun jobName parameters listeners job) := by
  rw [run?, launch, List.getElem?_concat_length]
  rfl

/-- Nobody wants a new execution stopped. -/
theorem Scene.launch_flag :
    (x.launch jobName parameters listeners job).worker.running.get? x.worker.nextId = some false := by
  rw [launch, Worker.prepare, RunningSet.enrol]
  simp only [Registry.get?_put, if_pos]

private theorem Scene.launch_confined (hconfined : x.IsConfined) (hjob : ∀ p ∈ job, p.IsConfined) :
    (x.launch jobName parameters listeners job).IsConfined := by
  intro r hr
  obtain hr | hr := List.mem_append.mp hr
  · exact hconfined r hr
  · cases List.mem_singleton.mp hr
    intro p hp
    exact hjob p (by simpa [Run.parts] using hp)

/-- No earlier run has the new id, and there is no later one. -/
theorem Scene.launch_owns (hconfined : x.IsConfined) (hjob : ∀ p ∈ job, p.IsConfined)
    (hnew : ∀ j r, x.run? j = some r → r.execution.id ≠ x.worker.nextId) :
    (x.launch jobName parameters listeners job).Owns x.worker.nextId x.tasks.length := by
  refine ⟨Scene.launch_confined hconfined hjob, ?_, _, Scene.launch_run?, rfl⟩
  intro j q hq hid
  have hnot : ¬ j < x.tasks.length := by
    intro hj
    refine hnew j q ?_ hid
    rw [← hq, run?, run?, launch, List.getElem?_append_left hj]
  obtain hj | hj := Nat.eq_or_lt_of_not_lt hnot
  · exact hj
  · have hnone : (x.launch jobName parameters listeners job).tasks[j]? = none := by
      refine List.getElem?_eq_none ?_
      rw [launch, List.length_append]
      exact hj
    rw [run?, hnone] at hq
    cases hq

private theorem StopsTold.launch (hconfined : x.IsConfined) (hjob : ∀ p ∈ job, p.IsConfined)
    (hnew : ∀ j r, x.run? j = some r → r.execution.id ≠ x.worker.nextId) :
    StopsTold x.worker.nextId x.tasks.length [] (x.launch jobName parameters listeners job) := by
  refine ⟨Scene.launch_owns hconfined hjob hnew, ?_⟩
  intro r hr
  cases Scene.launch_run?.symm.trans hr
  rw [Scene.launch_flag]
  exact .unmarked 0

private theorem Run.stopStage_cases (r : Run ω) : r.stopStage = .unmarked ∨
    r.stopStage = .marked r.execution.status ∨ r.stopStage = .left r.execution.status := by
  rw [Run.stopStage]
  split <;> simp

private theorem mem_stopsAsked {n : Nat} {accepted : Bool} {event : StopEvent} :
    event ∈ stopsAsked n accepted ↔ 0 < n ∧ event = .asked accepted := by
  rw [stopsAsked, List.mem_replicate, Nat.pos_iff_ne_zero]

/-- Only stops between the mark and the leave can be accepted and come to nothing. -/
private theorem EndsAs.kept_iff {status : BatchStatus} {early gap : Nat} (h : EndsAs early status) :
    (0 < early ∨ 0 < gap → status = .stopped ∨ status = .failed) ↔ (status = .completed → gap = 0) := by
  obtain rfl | rfl := h
  · simp
  · by_cases hearly : 0 < early
    · simp [hearly]
    · simp [hearly]

/-- An execution is prepared and run once. Anybody may ask for its stop at any time, and the other tasks of the scene
go on. All stops are accepted until it has left, and none afterwards. Those before the mark, and only those, make an
execution end stopped whose body does not fail. So an accepted stop is lost exactly if the execution is completed and
the stop came between its mark and its leave. -/
theorem Scene.stops_of_launched {log : List StopEvent} (hconfined : x.IsConfined) (hjob : ∀ p ∈ job, p.IsConfined)
    (hnew : ∀ j r, x.run? j = some r → r.execution.id ≠ x.worker.nextId) (hs : s.operator = .ofRunningSet ω)
    {moves : List (Move ω)}
    (hplay : story? (playStops? x.worker.nextId s) (x.launch jobName parameters listeners job) moves = some (log, x')) :
    ∃ r early gap late, x'.run? x.tasks.length = some r ∧ log = r.stopStage.log early gap late ∧
      ((x'.worker.requestStop x.worker.nextId).1 = true ↔ r.stopStage ≠ .left r.execution.status) ∧
      (r.stopStage ≠ .unmarked → EndsAs early r.execution.status ∧
        ((.asked true ∈ log → r.execution.status = .stopped ∨ r.execution.status = .failed) ↔
          (r.execution.status = .completed → gap = 0))) := by
  have hstory := story_keeps (fun _ => True) (fun _ _ _ _ _ _ h hstep => h.play hs hstep) (fun _ _ => trivial)
    (StopsTold.launch hconfined hjob hnew) hplay
  rw [List.nil_append] at hstory
  obtain ⟨r, hr, -⟩ := hstory.owns.run
  have htold := hstory.told r hr
  rw [Worker.requestStop_answer, Worker.isRunning_eq]
  generalize x'.worker.running.get? x.worker.nextId = flag at htold
  rcases r.stopStage_cases with hstage | hstage | hstage <;> rw [hstage] at htold
  · cases htold with
    | unmarked early => exact ⟨r, early, 0, 0, hr, by rw [hstage], by simp [hstage], absurd hstage⟩
  · cases htold with
    | marked _ stop early gap ends =>
      refine ⟨r, early, gap, 0, hr, by rw [hstage], by simp [hstage], fun _ => ⟨ends, ?_⟩⟩
      rw [← ends.kept_iff]
      simp [StopStage.log, mem_stopsAsked]
  · cases htold with
    | left _ early gap late ends =>
      refine ⟨r, early, gap, late, hr, by rw [hstage], by simp [hstage], fun _ => ⟨ends, ?_⟩⟩
      rw [← ends.kept_iff]
      simp [StopStage.log, mem_stopsAsked]

end Story

namespace StopAtTheMark

/-- Nothing is under way. -/
def idle : Scene Unit where
  worker := { cache := .new 0 [] none, files := .empty [], now := ⟨0, 0⟩, outside := () }
  tasks := []

/-- An export whose body is over at once. -/
def launched : Scene Unit := idle.launch "orders-export" [(Key.jobId, "J1")] [.notifier []] []

def stop : Move Unit := .deed (.requestStop 1)

/-- Stops before the mark, between it and the leave, and when the listeners have been told. -/
def moves (early gap late : Nat) : List (Move Unit) :=
  List.replicate 5 (.step 0) ++ List.replicate early stop ++ [.step 0] ++ List.replicate gap stop ++
    List.replicate 5 (.step 0) ++ List.replicate late stop

private def outcome (early gap late : Nat) : Option (List StopEvent × Option (Bool × BatchStatus)) :=
  (story? (Scene.playStops? 1 .quiet) launched (moves early gap late)).map fun (log, x) =>
    (log, (x.run? 0).map fun r => (r.isEnded, r.execution.status))

private theorem exists_of_outcome {early gap late : Nat} {log : List StopEvent} {ended : Bool} {status : BatchStatus}
    (h : outcome early gap late = some (log, some (ended, status))) :
    ∃ x r, story? (Scene.playStops? 1 .quiet) launched (moves early gap late) = some (log, x) ∧
      x.run? 0 = some r ∧ r.isEnded = ended ∧ r.execution.status = status := by
  obtain ⟨⟨log, x⟩, hplay, heq⟩ := Option.map_eq_some_iff.mp h
  obtain ⟨rfl, hrun⟩ := Prod.mk.inj heq
  obtain ⟨r, hr, heq⟩ := Option.map_eq_some_iff.mp hrun
  obtain ⟨rfl, rfl⟩ := Prod.mk.inj heq
  exact ⟨x, r, hplay, hr, rfl, rfl⟩

/-- A stop is accepted when the execution is marked completed already. -/
theorem accepted_stop_is_lost : ∃ log x r,
    story? (Scene.playStops? 1 .quiet) launched (moves 0 1 0) = some (log, x) ∧ .asked true ∈ log ∧
      x.run? 0 = some r ∧ r.isEnded ∧ r.execution.status = .completed := by
  have hplayed : outcome 0 1 0 = some ([.marked .completed, .asked true, .left], some (true, .completed)) := by decide
  obtain ⟨x, r, hplay, hr, hended, hstatus⟩ := exists_of_outcome hplayed
  exact ⟨_, x, r, hplay, by simp, hr, hended, hstatus⟩

theorem early_stop_is_kept : ∃ x r,
    story? (Scene.playStops? 1 .quiet) launched (moves 1 1 1) =
        some ([.asked true, .marked .stopped, .asked true, .left, .asked false], x) ∧
      x.run? 0 = some r ∧ r.isEnded ∧ (x.worker.requestStop 1).1 = false ∧
      (r.execution.status = .stopped ∨ r.execution.status = .failed) := by
  have hplayed : outcome 1 1 1 =
      some ([.asked true, .marked .stopped, .asked true, .left, .asked false], some (true, .stopped)) := by decide
  obtain ⟨x, r, hplay, hr, hended, hstatus⟩ := exists_of_outcome hplayed
  have hconfined : idle.IsConfined := by simp [Scene.IsConfined, idle]
  have hnone (j : Nat) (q : Run Unit) : idle.run? j ≠ some q := by simp [Scene.run?, idle]
  obtain ⟨r', early, gap, late, hr', -, hanswer, hends⟩ :=
    Scene.stops_of_launched hconfined (by simp) (fun j q hq => absurd hq (hnone j q)) rfl hplay
  cases hr.symm.trans hr'
  have hstage : r.stopStage = .left r.execution.status := by
    rw [Run.isEnded] at hended
    rw [Run.stopStage]
    cases hphase : r.phase with
    | ended => rfl
    | _ => simp [hphase] at hended
  refine ⟨x, r, hplay, hr, hended, ?_, ?_⟩
  · exact Bool.eq_false_iff.mpr fun haccepted => hanswer.mp haccepted hstage
  · exact (hends (by simp [hstage])).2.mpr (by simp [hstatus]) (by simp)

end StopAtTheMark
end BatchExport
