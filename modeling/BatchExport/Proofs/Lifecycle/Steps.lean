import BatchExport.Proofs.Lifecycle.Scene

/-! What single steps can be. Main statements: one inversion for the steps of a call, one for the steps of a run and
one for the moves of a scene. -/
namespace BatchExport

variable {ω : Type}

namespace RollbackCall

variable {s : Surroundings ω} {c c' : RollbackCall} {w w' : Worker ω}

/-- What a step of a call can be, as far as the bindings and the executions in flight are concerned. -/
inductive Change (s : Surroundings ω) (i : Nat) (c c' : RollbackCall) (w w' : Worker ω) : List Event → Prop
  | takes (id : ExecutionId) (before : c.phase = .taking) (after : c'.phase = .stopping id)
      (bound : w.bindings.get? c.job = some id) (bindings : w'.bindings = w.bindings.erase c.job)
      (running : w'.running = w.running) : Change s i c c' w w' [.took i c.job id]
  | asks (id : ExecutionId) (result : Except Failure Bool) (before : c.phase = .stopping id)
      (after : c'.phase.held? = some id)
      (stop : (s.operator.stop id).run (w.running, w.outside) = some (result, w'.running, w'.outside))
      (bindings : w'.bindings = w.bindings) : Change s i c c' w w' [.stopAsked i id]
  | restores (r : Restore) (restored : String) (before : c.phase = .underway r)
      (after : c'.phase = .forgetting r restored) (bindings : w'.bindings = w.bindings)
      (running : w'.running = w.running) : Change s i c c' w w' [.restored i c.job r.snapshot]
  | returns (id : ExecutionId) (f : Failure) (before : c.phase = .reinstating id f)
      (after : c'.phase = .ended (.error f))
      (bindings : w'.bindings = (w.bindings.reinstate c.job id).2)
      (running : w'.running = w.running) : Change s i c c' w w' [.returned i c.job id]
  | goesOn (before : ∀ id, c.phase ≠ .stopping id) (held : c'.phase.held? = c.phase.held?)
      (brought : c'.phase.brought? = c.phase.brought?) (bindings : w'.bindings = w.bindings)
      (running : w'.running = w.running) : Change s i c c' w w' []

theorem step_change (i : Nat) (h : c.step? s w = some (c', w')) :
    c'.job = c.job ∧ Change s i c c' w w' (c.events i c') := by
  obtain ⟨job, phase⟩ := c
  cases phase with
  | ended result => cases h
  | handing r =>
    cases h
    exact ⟨rfl, .goesOn (fun _ => by simp) rfl rfl rfl rfl⟩
  | reinstating id f =>
    cases h
    exact ⟨rfl, .returns id f rfl rfl rfl rfl⟩
  | forgetting r restored =>
    cases h
    exact ⟨rfl, .goesOn (fun _ => by simp) rfl rfl rfl rfl⟩
  | taking =>
    simp only [step?, Bindings.take] at h
    cases hb : w.bindings.get? job with
    | none =>
      rw [hb] at h
      cases h
      exact ⟨rfl, .goesOn (fun _ => by simp) rfl rfl rfl rfl⟩
    | some id =>
      rw [hb] at h
      cases h
      exact ⟨rfl, .takes id rfl rfl hb rfl rfl⟩
  | waiting id =>
    simp only [step?] at h
    split at h <;> cases h
    exact ⟨rfl, .goesOn (fun _ => by simp) rfl rfl rfl rfl⟩
  | choosing id stopped =>
    simp only [step?] at h
    split at h <;> cases h <;> exact ⟨rfl, .goesOn (fun _ => by simp) rfl rfl rfl rfl⟩
  | stopping id =>
    obtain ⟨⟨result, running, outside⟩, hstop, heq⟩ := Option.map_eq_some_iff.mp h
    cases heq
    refine ⟨rfl, .asks id result rfl ?_ hstop rfl⟩
    obtain f | stopped := result
    · rfl
    · cases stopped <;> rfl
  | awaiting id =>
    obtain ⟨⟨result, outside⟩, -, heq⟩ := Option.map_eq_some_iff.mp h
    cases heq
    cases result <;> exact ⟨rfl, .goesOn (fun _ => by simp) rfl rfl rfl rfl⟩
  | underway r =>
    obtain ⟨⟨result, files, outside⟩, -, heq⟩ := Option.map_eq_some_iff.mp h
    cases heq
    cases result with
    | error f => exact ⟨rfl, .goesOn (fun _ => by simp) rfl rfl rfl rfl⟩
    | ok restored => exact ⟨rfl, .restores r restored rfl rfl rfl rfl⟩

theorem timeOut_held (h : c.timeOut? = some c') :
    c'.job = c.job ∧ (∀ id, c.phase ≠ .stopping id) ∧ c'.phase.held? = c.phase.held? ∧
      c'.phase.brought? = c.phase.brought? := by
  obtain ⟨job, phase⟩ := c
  cases phase <;> cases h
  exact ⟨rfl, by simp, rfl, rfl⟩

end RollbackCall

/-- Only a body that neither fails nor is asked to stop ends completed. -/
theorem Execution.conclude_completed {e : Execution} {result : Except Failure Unit} {stopped : Bool} {now : Instant}
    (h : (e.conclude result stopped now).status = .completed) : result = .ok () ∧ stopped = false := by
  cases result with
  | error f => cases h
  | ok =>
    cases stopped with
    | true => cases h
    | false => exact ⟨rfl, rfl⟩

/-- Only a body that does not fail ends stopped, if that is asked for. -/
theorem Execution.conclude_stopped {e : Execution} {result : Except Failure Unit} {stopped : Bool} {now : Instant}
    (h : (e.conclude result stopped now).status = .stopped) : result = .ok () ∧ stopped = true := by
  cases result with
  | error f => cases h
  | ok =>
    cases stopped with
    | true => exact ⟨rfl, rfl⟩
    | false => cases h

theorem Execution.conclude_id (e : Execution) (result : Except Failure Unit) (stopped : Bool) (now : Instant) :
    (e.conclude result stopped now).id = e.id := by
  cases result <;> cases stopped <;> rfl

theorem Execution.conclude_parameters (e : Execution) (result : Except Failure Unit) (stopped : Bool) (now : Instant) :
    (e.conclude result stopped now).parameters = e.parameters := by
  cases result <;> cases stopped <;> rfl

namespace RunningSet

variable (r : RunningSet) (id other : ExecutionId)

theorem get?_requestStop :
    (r.requestStop id).2.get? other = if other = id then (r.get? id).map fun _ => true else r.get? other := by
  rw [requestStop, isRunning, Registry.contains]
  cases hid : r.get? id <;> grind [Registry.get?_put]

theorem get?_ensure :
    (r.ensure id).get? other = if other = id then some ((r.get? id).getD false) else r.get? other := by
  rw [ensure, Registry.contains, enrol]
  cases hid : r.get? id <;> grind [Registry.get?_put]

theorem get?_leave : (r.leave id).get? other = if other = id then none else r.get? other :=
  Registry.get?_erase r id other

theorem isRunning_requestStop : (r.requestStop id).2.isRunning other = r.isRunning other := by
  unfold requestStop isRunning Registry.contains
  split <;> grind [Registry.get?_put]

theorem stopRequested_requestStop (h : r.stopRequested other) : (r.requestStop id).2.stopRequested other := by
  rw [requestStop, stopRequested] at *
  split <;> grind [Registry.get?_put]

theorem stopRequested_ensure (h : r.stopRequested other) : (r.ensure id).stopRequested other := by
  rw [ensure, stopRequested, Registry.contains, enrol] at *
  split <;> grind [Registry.get?_put]

end RunningSet

/-- The work of a job leaves the bindings alone and ends no execution; a stop that was asked for stays asked for. -/
structure Worker.Spares (w w' : Worker ω) : Prop where
  bindings : w'.bindings = w.bindings
  running : ∀ id, w'.isRunning id = w.isRunning id
  stops : ∀ id, w.stopRequested id → w'.stopRequested id

theorem Worker.Spares.refl (w : Worker ω) : w.Spares w := ⟨rfl, fun _ => rfl, fun _ h => h⟩

theorem Worker.Spares.trans {w w' w'' : Worker ω} (h : w.Spares w') (h' : w'.Spares w'') : w.Spares w'' where
  bindings := h'.bindings.trans h.bindings
  running id := (h'.running id).trans (h.running id)
  stops id hs := h'.stops id (h.stops id hs)

theorem Worker.spares_requestStop (w : Worker ω) (id : ExecutionId) : w.Spares (w.requestStop id).2 where
  bindings := rfl
  running other := w.running.isRunning_requestStop id other
  stops other h := w.running.stopRequested_requestStop id other h

/-- A part of a job keeps to its execution and spares what it does not own. -/
def JobPart.IsConfined (p : JobPart ω) : Prop :=
  p.act.Keeps fun (e, w) (e', w') => e'.id = e.id ∧ e'.parameters = e.parameters ∧ w.Spares w'

/-- The parts that the run may still have to do. -/
def Run.parts (r : Run ω) : List (JobPart ω) :=
  r.job ++ match r.phase with
    | .working parts => parts
    | _ => []

def Run.IsConfined (r : Run ω) : Prop := ∀ p ∈ r.parts, p.IsConfined

namespace Hook

variable (s : Surroundings ω) (e : Execution) (w : Worker ω) (hook : Hook)

theorem acknowledgeJob_eq (job : JobId) :
    ∃ parked outside, acknowledgeJob s job w = { w with parked, outside } := by
  rw [acknowledgeJob]
  split
  · rename_i a w' heq
    obtain ⟨-, rfl⟩ := Prod.mk.inj heq
    exact ⟨_, _, rfl⟩
  · rename_i w' heq
    obtain ⟨-, rfl⟩ := Prod.mk.inj heq
    exact ⟨_, _, rfl⟩

private theorem cleanUpFiles_eq : ∃ files, cleanUpFiles e w = { w with files } := by
  rw [cleanUpFiles]
  split
  · exact ⟨_, rfl⟩
  · exact ⟨_, rfl⟩

theorem act_running : (hook.act s e w).2.running = w.running := by
  cases hook with
  | observe moment name => rfl
  | publish described => unfold act; cases e.jobId? <;> rfl
  | acknowledge =>
    rw [act]
    cases e.jobId? with
    | none => rfl
    | some job =>
      obtain ⟨parked, outside, heq⟩ := acknowledgeJob_eq s w job
      dsimp only
      rw [heq]
  | cleanUp =>
    rw [act]
    cases e.jobId? with
    | none => rfl
    | some job =>
      obtain ⟨files, heq⟩ := cleanUpFiles_eq e w
      dsimp only
      rw [heq]
  | forgetBinding => unfold act; cases e.status <;> cases e.jobId? <;> rfl
  | forgetSnapshot => unfold act; cases e.jobId? <;> rfl

theorem act_bindings : (hook.act s e w).2.bindings = (hook.events e).foldl Event.applyTo w.bindings := by
  cases hook with
  | observe moment name => rfl
  | publish described => unfold act events; cases e.jobId? <;> rfl
  | acknowledge =>
    rw [act]
    cases e.jobId? with
    | none => rfl
    | some job =>
      obtain ⟨parked, outside, heq⟩ := acknowledgeJob_eq s w job
      dsimp only
      rw [heq]
      rfl
  | cleanUp =>
    rw [act]
    cases e.jobId? with
    | none => rfl
    | some job =>
      obtain ⟨files, heq⟩ := cleanUpFiles_eq e w
      dsimp only
      rw [heq]
      rfl
  | forgetBinding => unfold act events; cases e.status <;> cases e.jobId? <;> rfl
  | forgetSnapshot => unfold act; cases e.jobId? <;> rfl

end Hook

namespace Run

variable {s : Surroundings ω} {r r' : Run ω} {w w' : Worker ω}

/-- A part of the job answers: the rest of the job follows, or the run concludes with the failure. -/
theorem step_working {listeners : List Listener} {job rest : List (JobPart ω)} {e : Execution} {part : JobPart ω}
    (h : step? s ⟨listeners, job, e, .working (part :: rest)⟩ w = some (r', w')) :
    (∃ e', part.act.run (e, w) = some (.ok (), e', w') ∧ r' = ⟨listeners, job, e', .working rest⟩) ∨
    ∃ f e', part.act.run (e, w) = some (.error f, e', w') ∧ r' = ⟨listeners, job, e', .concluding (.error f)⟩ := by
  simp only [step?, work] at h
  split at h
  · cases h
  · obtain ⟨⟨result, e', w₁⟩, hact, heq⟩ := Option.map_eq_some_iff.mp h
    cases result with
    | error f =>
      cases heq
      exact .inr ⟨f, e', hact, rfl⟩
    | ok _ =>
      cases heq
      exact .inl ⟨e', hact, rfl⟩

/-- What a step of a run can be. -/
inductive Change (s : Surroundings ω) (r r' : Run ω) (w w' : Worker ω) : List Event → Prop
  | starts (hooks : List Hook) (before : r.phase = .starting) (after : r'.phase = .before hooks)
      (execution : r'.execution = r.execution.markStarted w.now)
      (worker : w' = { w with running := w.running.ensure r.execution.id }) : Change s r r' w w' []
  | prepares (hook : Hook) (rest more : List Hook) (before : r.phase = .before (hook :: rest))
      (after : r'.phase = .before (more ++ rest)) (execution : r'.execution = r.execution)
      (worker : w' = (hook.act s r.execution w).2) : Change s r r' w w' (hook.events r.execution)
  | decides (before : r.phase = .before [] ∨ r.phase = .deciding)
      (after : r'.phase = .deciding ∨ r'.phase = .working r.job ∨ ∃ result, r'.phase = .concluding result)
      (execution : r'.execution = r.execution) (worker : w' = w) : Change s r r' w w' []
  | works (parts : List (JobPart ω)) (before : r.phase = .working parts)
      (after : r'.phase = .working parts.tail ∨ ∃ result, r'.phase = .concluding result)
      (id : r'.execution.id = r.execution.id) (parameters : r'.execution.parameters = r.execution.parameters)
      (spares : w.Spares w') : Change s r r' w w' []
  | concludes (result : Except Failure Unit) (before : r.phase = .concluding result) (after : r'.phase = .leaving)
      (execution : r'.execution = r.execution.conclude result (w.stopRequested r.execution.id) w.now)
      (worker : w' = w) : Change s r r' w w' [.marked r'.execution.id r'.execution.status]
  | leaves (hooks : List Hook) (before : r.phase = .leaving) (after : r'.phase = .after hooks)
      (execution : r'.execution = r.execution)
      (worker : w' = { w with running := w.running.leave r.execution.id }) : Change s r r' w w' []
  | notifies (hook : Hook) (rest more : List Hook) (before : r.phase = .after (hook :: rest))
      (after : r'.phase = .after (more ++ rest)) (execution : r'.execution = r.execution)
      (worker : w' = (hook.act s r.execution w).2) : Change s r r' w w' (hook.events r.execution)
  | ends (before : r.phase = .after []) (after : r'.phase = .ended) (execution : r'.execution = r.execution)
      (worker : w' = w) : Change s r r' w w' []

theorem step_change (hr : r.IsConfined) (h : r.step? s w = some (r', w')) :
    r'.job = r.job ∧ Change s r r' w w' (r.events r') := by
  obtain ⟨listeners, job, execution, phase⟩ := r
  cases phase with
  | ended => cases h
  | starting =>
    cases h
    exact ⟨rfl, .starts _ rfl rfl rfl rfl⟩
  | before hooks =>
    cases hooks with
    | nil =>
      cases h
      exact ⟨rfl, .decides (.inl rfl) (.inl rfl) rfl rfl⟩
    | cons hook rest =>
      cases h
      exact ⟨rfl, .prepares hook rest _ rfl rfl rfl rfl⟩
  | deciding =>
    cases h
    refine ⟨rfl, .decides (.inr rfl) (.inr ?_) rfl rfl⟩
    dsimp only
    split
    · exact .inr ⟨_, rfl⟩
    · exact .inl rfl
  | working parts =>
    cases parts with
    | nil =>
      cases h
      exact ⟨rfl, .works [] rfl (.inr ⟨_, rfl⟩) rfl rfl (.refl w)⟩
    | cons part rest =>
      have hpart : part.IsConfined := hr part (List.mem_append_right _ List.mem_cons_self)
      obtain ⟨e', hact, rfl⟩ | ⟨f, e', hact, rfl⟩ := step_working h
      · obtain ⟨hid, hparameters, hspares⟩ := hpart _ _ _ hact
        exact ⟨rfl, .works (part :: rest) rfl (.inl rfl) hid hparameters hspares⟩
      · obtain ⟨hid, hparameters, hspares⟩ := hpart _ _ _ hact
        exact ⟨rfl, .works (part :: rest) rfl (.inr ⟨_, rfl⟩) hid hparameters hspares⟩
  | concluding result =>
    cases h
    exact ⟨rfl, .concludes result rfl rfl rfl rfl⟩
  | leaving =>
    cases h
    exact ⟨rfl, .leaves _ rfl rfl rfl rfl⟩
  | after hooks =>
    cases hooks with
    | nil =>
      cases h
      exact ⟨rfl, .ends rfl rfl rfl rfl⟩
    | cons hook rest =>
      cases h
      exact ⟨rfl, .notifies hook rest _ rfl rfl rfl rfl⟩

/-- No step finds new work. -/
theorem step_parts (h : r.step? s w = some (r', w')) : r'.parts ⊆ r.parts := by
  obtain ⟨listeners, job, execution, phase⟩ := r
  cases phase with
  | ended => cases h
  | starting =>
    cases h
    exact List.Subset.refl _
  | before hooks =>
    cases hooks with
    | nil =>
      cases h
      exact List.Subset.refl _
    | cons hook rest =>
      cases h
      exact List.Subset.refl _
  | deciding =>
    simp only [step?] at h
    split at h
    · cases h
      exact List.Subset.refl _
    · cases h
      exact List.append_subset.mpr ⟨List.subset_append_left _ _, List.subset_append_left _ _⟩
  | working parts =>
    cases parts with
    | nil =>
      cases h
      exact List.Subset.refl _
    | cons part rest =>
      obtain ⟨e', -, rfl⟩ | ⟨f, e', -, rfl⟩ := step_working h
      · exact List.append_subset.mpr
          ⟨List.subset_append_left _ _, fun p hp => List.mem_append_right _ (List.mem_cons_of_mem part hp)⟩
      · exact List.append_subset.mpr ⟨List.subset_append_left _ _, List.nil_subset _⟩
  | concluding result =>
    cases h
    exact List.Subset.refl _
  | leaving =>
    cases h
    exact List.Subset.refl _
  | after hooks =>
    cases hooks with
    | nil =>
      cases h
      exact List.Subset.refl _
    | cons hook rest =>
      cases h
      exact List.Subset.refl _

theorem Change.sameExecution {evs : List Event} (h : Change s r r' w w' evs) : r'.execution.id = r.execution.id := by
  cases h with
  | starts hooks before after execution => rw [execution]; rfl
  | prepares hook rest more before after execution => rw [execution]
  | decides before after execution => rw [execution]
  | works parts before after same => exact same
  | concludes result before after execution => rw [execution, Execution.conclude_id]
  | leaves hooks before after execution => rw [execution]
  | notifies hook rest more before after execution => rw [execution]
  | ends before after execution => rw [execution]

theorem Change.bindings {evs : List Event} (h : Change s r r' w w' evs) :
    w'.bindings = evs.foldl Event.applyTo w.bindings := by
  cases h with
  | starts hooks before after execution worker => rw [worker]; rfl
  | prepares hook rest more before after execution worker => rw [worker, Hook.act_bindings]
  | decides before after execution worker => rw [worker]; rfl
  | works parts before after id parameters spares => exact spares.bindings
  | concludes result before after execution worker => rw [worker]; rfl
  | leaves hooks before after execution worker => rw [worker]; rfl
  | notifies hook rest more before after execution worker => rw [worker, Hook.act_bindings]
  | ends before after execution worker => rw [worker]; rfl

end Run

theorem RollbackCall.Change.bindings {s : Surroundings ω} {i : Nat} {c c' : RollbackCall} {w w' : Worker ω}
    {evs : List Event} (h : Change s i c c' w w' evs) : w'.bindings = evs.foldl Event.applyTo w.bindings := by
  cases h with
  | takes id before after bound bindings => simp [bindings, Event.applyTo, Bindings.take, bound]
  | asks id result before after stop bindings => exact bindings
  | restores r restored before after bindings => exact bindings
  | returns id f before after bindings => exact bindings
  | goesOn before held brought bindings => exact bindings

theorem Deed.act_bindings (w : Worker ω) (d : Deed ω) :
    (d.act w).bindings = d.events.foldl Event.applyTo w.bindings := by
  cases d with
  | requestStop id => simp only [act, Worker.requestStop]; rfl
  | _ => rfl

namespace Scene

variable {s : Surroundings ω} {x x' : Scene ω} {m : Move ω} {evs : List Event}

/-- What a move can be. -/
inductive Change (s : Surroundings ω) (x x' : Scene ω) : Move ω → List Event → Prop
  | run (i : Nat) (r r' : Run ω) (there : x.tasks[i]? = some (.run r))
      (step : r.step? s x.worker = some (r', x'.worker))
      (tasks : x'.tasks = x.tasks.set i (.run r')) : Change s x x' (.step i) (r.events r')
  | call (i : Nat) (c c' : RollbackCall) (there : x.tasks[i]? = some (.rollback c))
      (step : c.step? s x.worker = some (c', x'.worker)) (tasks : x'.tasks = x.tasks.set i (.rollback c')) :
      Change s x x' (.step i) (c.events i c')
  | timeOut (i : Nat) (c c' : RollbackCall) (there : x.tasks[i]? = some (.rollback c)) (late : c.timeOut? = some c')
      (worker : x'.worker = x.worker) (tasks : x'.tasks = x.tasks.set i (.rollback c')) : Change s x x' (.timeOut i) []
  | deed (d : Deed ω) (worker : x'.worker = d.act x.worker) (tasks : x'.tasks = x.tasks) :
      Change s x x' (.deed d) d.events

theorem call?_of_there {i : Nat} {c : RollbackCall} (there : x.tasks[i]? = some (.rollback c)) :
    x.call? i = some c := by
  rw [call?, there]

theorem run?_of_there {i : Nat} {r : Run ω} (there : x.tasks[i]? = some (.run r)) : x.run? i = some r := by
  rw [run?, there]

/-- The tasks after one of them has changed. -/
private theorem tasks_after {i : Nat} {t t' : Task ω} (there : x.tasks[i]? = some t)
    (tasks : x'.tasks = x.tasks.set i t') (j : Nat) : x'.tasks[j]? = if j = i then some t' else x.tasks[j]? := by
  have hlt : i < x.tasks.length := (List.getElem?_eq_some_iff.mp there).1
  rw [tasks, List.getElem?_set]
  by_cases hj : j = i
  · subst hj
    rw [if_pos rfl, if_pos hlt, if_pos rfl]
  · rw [if_neg (Ne.symm hj), if_neg hj]

theorem run?_after_run {i : Nat} {r r' : Run ω} (there : x.tasks[i]? = some (.run r))
    (tasks : x'.tasks = x.tasks.set i (.run r')) (j : Nat) :
    x'.run? j = if j = i then some r' else x.run? j := by
  unfold run?
  rw [tasks_after there tasks]
  by_cases hj : j = i
  · rw [if_pos hj, if_pos hj]
  · rw [if_neg hj, if_neg hj]

theorem run?_after_call {i : Nat} {c c' : RollbackCall} (there : x.tasks[i]? = some (.rollback c))
    (tasks : x'.tasks = x.tasks.set i (.rollback c')) (j : Nat) : x'.run? j = x.run? j := by
  unfold run?
  rw [tasks_after there tasks]
  by_cases hj : j = i
  · rw [if_pos hj, hj, there]
  · rw [if_neg hj]

theorem call?_after_run {i : Nat} {r r' : Run ω} (there : x.tasks[i]? = some (.run r))
    (tasks : x'.tasks = x.tasks.set i (.run r')) (j : Nat) : x'.call? j = x.call? j := by
  unfold call?
  rw [tasks_after there tasks]
  by_cases hj : j = i
  · rw [if_pos hj, hj, there]
  · rw [if_neg hj]

theorem call?_after_call {i : Nat} {c c' : RollbackCall} (there : x.tasks[i]? = some (.rollback c))
    (tasks : x'.tasks = x.tasks.set i (.rollback c')) (j : Nat) :
    x'.call? j = if j = i then some c' else x.call? j := by
  unfold call?
  rw [tasks_after there tasks]
  by_cases hj : j = i
  · rw [if_pos hj, if_pos hj]
  · rw [if_neg hj, if_neg hj]

theorem play_change (h : x.play? s m = some (evs, x')) : Change s x x' m evs := by
  cases m with
  | step i =>
    obtain ⟨t, ht, h⟩ := Option.bind_eq_some_iff.mp h
    obtain ⟨⟨t', w'⟩, hstep, heq⟩ := Option.map_eq_some_iff.mp h
    cases heq
    cases t with
    | run r =>
      obtain ⟨⟨r', w''⟩, hr, heq⟩ := Option.map_eq_some_iff.mp hstep
      cases heq
      exact .run i r r' ht hr rfl
    | rollback c =>
      obtain ⟨⟨c', w''⟩, hc, heq⟩ := Option.map_eq_some_iff.mp hstep
      cases heq
      exact .call i c c' ht hc rfl
  | timeOut i =>
    obtain ⟨t, ht, h⟩ := Option.bind_eq_some_iff.mp h
    obtain ⟨t', hlate, heq⟩ := Option.map_eq_some_iff.mp h
    cases heq
    cases t with
    | run r => cases hlate
    | rollback c =>
      obtain ⟨c', hc, heq⟩ := Option.map_eq_some_iff.mp hlate
      cases heq
      exact .timeOut i c c' ht hc rfl rfl
  | deed d =>
    cases h
    exact .deed d rfl rfl

/-- No job of the scene does anything to the bindings, or to executions in flight but to ask them to stop. -/
def IsConfined (x : Scene ω) : Prop := ∀ r, Task.run r ∈ x.tasks → r.IsConfined

/-- No move finds new work. -/
theorem play_parts (h : x.play? s m = some (evs, x')) {r' : Run ω} (hr' : Task.run r' ∈ x'.tasks) :
    ∃ r, Task.run r ∈ x.tasks ∧ r'.parts ⊆ r.parts := by
  cases play_change h with
  | run i r q there step tasks =>
    rw [tasks] at hr'
    rcases List.mem_or_eq_of_mem_set hr' with hold | hnew
    · exact ⟨r', hold, List.Subset.refl _⟩
    · cases hnew
      exact ⟨r, List.mem_of_getElem? there, Run.step_parts step⟩
  | call i c c' there step tasks =>
    rw [tasks] at hr'
    rcases List.mem_or_eq_of_mem_set hr' with hold | hnew
    · exact ⟨r', hold, List.Subset.refl _⟩
    · cases hnew
  | timeOut i c c' there late worker tasks =>
    rw [tasks] at hr'
    rcases List.mem_or_eq_of_mem_set hr' with hold | hnew
    · exact ⟨r', hold, List.Subset.refl _⟩
    · cases hnew
  | deed d worker tasks => exact ⟨r', tasks ▸ hr', List.Subset.refl _⟩

theorem play_confined (hx : x.IsConfined) (h : x.play? s m = some (evs, x')) : x'.IsConfined := by
  intro r' hr' p hp
  obtain ⟨r, hr, hparts⟩ := play_parts h hr'
  exact hx r hr p (hparts hp)

/-- The events of a move tell what becomes of the bindings. -/
theorem play_bindings (hx : x.IsConfined) (h : x.play? s m = some (evs, x')) :
    x'.worker.bindings = evs.foldl Event.applyTo x.worker.bindings := by
  cases play_change h with
  | run i r r' there step => exact (Run.step_change (hx r (List.mem_of_getElem? there)) step).2.bindings
  | call i c c' there step => exact (RollbackCall.step_change i step).2.bindings
  | timeOut i c c' there late worker => rw [worker]; rfl
  | deed d worker => rw [worker, Deed.act_bindings]

end Scene
end BatchExport
