import BatchExport.Proofs.Lifecycle.Steps
import Mathlib.Logic.Relation

/-! Rollback calls that nobody gets in the way of. Main statement: a call that fails leaves all bindings and snapshots as
they were, so that another call can do what it could not; a call that brings a snapshot back takes only its own records
away; a binding that others make while a failing call is on its way stays. -/
namespace BatchExport

variable {ω : Type}

namespace Worker

/-- Every job is bound and has its snapshot as before. -/
structure SameRecords (w w' : Worker ω) : Prop where
  bindings : ∀ job, w'.bindings.get? job = w.bindings.get? job
  snapshots : ∀ job, w'.snapshots.get? job = w.snapshots.get? job

theorem SameRecords.refl (w : Worker ω) : w.SameRecords w := ⟨fun _ => rfl, fun _ => rfl⟩

theorem SameRecords.trans {w w' w'' : Worker ω} (h : w.SameRecords w') (h' : w'.SameRecords w'') : w.SameRecords w'' where
  bindings job := (h'.bindings job).trans (h.bindings job)
  snapshots job := (h'.snapshots job).trans (h.snapshots job)

/-- The job is bound as before. -/
def SameBinding (job : JobId) (w w' : Worker ω) : Prop := w'.bindings.get? job = w.bindings.get? job

end Worker

/-- What a call asks of the operator and of the restorer. -/
inductive RollbackRequest where
  | stop (id : ExecutionId)
  | await (id : ExecutionId)
  | restore (snapshot : String)
  deriving DecidableEq

namespace RollbackCall

/-- What the next step asks for. -/
def requests (c : RollbackCall) : List RollbackRequest :=
  match c.phase with
  | .stopping id => [.stop id]
  | .awaiting id => [.await id]
  | .handing r => [.restore r.snapshot]
  | _ => []

/-- How a call goes on, and what it asks for on its way. Between its moves the worker may change as `others` has it. -/
inductive Course (s : Surroundings ω) (others : Worker ω → Worker ω → Prop) (c₀ : RollbackCall) (w₀ : Worker ω) :
    List RollbackRequest → RollbackCall → Worker ω → Prop
  | start : Course s others c₀ w₀ [] c₀ w₀
  | step {log : List RollbackRequest} {c c' : RollbackCall} {w w' : Worker ω} (h : Course s others c₀ w₀ log c w)
      (hstep : c.step? s w = some (c', w')) : Course s others c₀ w₀ (log ++ c.requests) c' w'
  | timeOut {log : List RollbackRequest} {c c' : RollbackCall} {w : Worker ω} (h : Course s others c₀ w₀ log c w)
      (hlate : c.timeOut? = some c') : Course s others c₀ w₀ log c' w
  | others {log : List RollbackRequest} {c : RollbackCall} {w w' : Worker ω} (h : Course s others c₀ w₀ log c w)
      (hothers : others w w') : Course s others c₀ w₀ log c w'

/-- However the call goes on, it comes to the goal, after finitely many moves of its own. -/
inductive ComesTo (s : Surroundings ω) (others : Worker ω → Worker ω → Prop) (goal : RollbackCall → Worker ω → Prop) :
    RollbackCall → Worker ω → Prop
  | there {c : RollbackCall} {w : Worker ω} (reached : goal c w) : ComesTo s others goal c w
  | later {c : RollbackCall} {w : Worker ω}
      (able : ∀ w₁, others w w₁ → (∃ c' w', c.step? s w₁ = some (c', w')) ∨ ∃ c', c.timeOut? = some c')
      (step : ∀ w₁ c' w', others w w₁ → c.step? s w₁ = some (c', w') → ComesTo s others goal c' w')
      (late : ∀ w₁ c', others w w₁ → c.timeOut? = some c' → ComesTo s others goal c' w₁) : ComesTo s others goal c w

/-- A call is about one job. -/
theorem Course.job {s : Surroundings ω} {others : Worker ω → Worker ω → Prop} {c₀ c : RollbackCall} {w₀ w : Worker ω}
    {log : List RollbackRequest} (h : Course s others c₀ w₀ log c w) : c₀.job = c.job := by
  induction h with
  | start => rfl
  | step h hstep ih => exact ih.trans (step_change 0 hstep).1.symm
  | timeOut h hlate ih => exact ih.trans (timeOut_held hlate).1.symm
  | others h hothers ih => exact ih

section Undisturbed

variable {s : Surroundings ω} {others : Worker ω → Worker ω → Prop} {job : JobId} {w₀ w w' : Worker ω}
  {c c' : RollbackCall} {log : List RollbackRequest}

/-- The call holds the binding of its job. All else is as it was at first. -/
private structure Holds (job : JobId) (w₀ w : Worker ω) (id : ExecutionId) : Prop where
  bound : w₀.bindings.get? job = some id
  bindings : ∀ other, w.bindings.get? other = if other = job then none else w₀.bindings.get? other
  snapshots : ∀ other, w.snapshots.get? other = w₀.snapshots.get? other

/-- What a call leaves behind that has this result, and what it has asked for. If there is nothing to bring back, then
nobody but others has changed anything. -/
inductive Leaves (others : Worker ω → Worker ω → Prop) (job : JobId) (w₀ w : Worker ω) :
    List RollbackRequest → Except Failure RollbackOutcome → Prop
  | failed {log : List RollbackRequest} {f : Failure} {id : ExecutionId} (bound : w₀.bindings.get? job = some id)
      (same : w₀.SameRecords w) : Leaves others job w₀ w log (.error f)
  | nothing (unbound : w₀.bindings.get? job = none) (untouched : Relation.ReflTransGen others w₀ w) :
      Leaves others job w₀ w [] (.ok .nothing)
  | rolledBack {log : List RollbackRequest} {id : ExecutionId} {stopped : Bool} {snapshot restored : String}
      (bound : w₀.bindings.get? job = some id) (recorded : w₀.snapshots.get? job = some snapshot)
      (asked : .restore snapshot ∈ log)
      (bindings : ∀ other, w.bindings.get? other = if other = job then none else w₀.bindings.get? other)
      (snapshots : ∀ other, w.snapshots.get? other = if other = job then none else w₀.snapshots.get? other) :
      Leaves others job w₀ w log (.ok (.rolledBack id (report job ⟨id, stopped, snapshot⟩ restored)))

/-- Where an undisturbed call is. -/
private def Stands (others : Worker ω → Worker ω → Prop) (job : JobId) (w₀ w : Worker ω) (log : List RollbackRequest) :
    RollbackPhase → Prop
  | .taking => log = [] ∧ Relation.ReflTransGen others w₀ w
  | .stopping id | .awaiting id | .waiting id | .choosing id _ | .reinstating id _ => Holds job w₀ w id
  | .handing r => Holds job w₀ w r.id ∧ w₀.snapshots.get? job = some r.snapshot
  | .underway r | .forgetting r _ =>
    Holds job w₀ w r.id ∧ w₀.snapshots.get? job = some r.snapshot ∧ .restore r.snapshot ∈ log
  | .ended result => Leaves others job w₀ w log result

private theorem Holds.same {id : ExecutionId} (h : Holds job w₀ w id) (hsame : w.SameRecords w') : Holds job w₀ w' id where
  bound := h.bound
  bindings other := (hsame.bindings other).trans (h.bindings other)
  snapshots other := (hsame.snapshots other).trans (h.snapshots other)

private theorem Leaves.byOthers {result : Except Failure RollbackOutcome} (h : Leaves others job w₀ w log result)
    (hsame : w.SameRecords w') (hothers : others w w') : Leaves others job w₀ w' log result := by
  cases h with
  | failed bound same => exact .failed bound (same.trans hsame)
  | nothing unbound untouched => exact .nothing unbound (untouched.tail hothers)
  | rolledBack bound recorded asked bindings snapshots =>
    exact .rolledBack bound recorded asked (fun other => (hsame.bindings other).trans (bindings other))
      fun other => (hsame.snapshots other).trans (snapshots other)

private theorem Stands.byOthers {phase : RollbackPhase} (h : Stands others job w₀ w log phase) (hsame : w.SameRecords w')
    (hothers : others w w') : Stands others job w₀ w' log phase := by
  cases phase with
  | taking => exact ⟨h.1, h.2.tail hothers⟩
  | stopping | awaiting | waiting | choosing | reinstating => exact Holds.same h hsame
  | handing => exact ⟨h.1.same hsame, h.2⟩
  | underway | forgetting => exact ⟨h.1.same hsame, h.2⟩
  | ended result => exact Leaves.byOthers h hsame hothers

private theorem sameRecords_of_others (hothers : ∀ w w', others w w' → w.SameRecords w')
    (h : Relation.ReflTransGen others w₀ w) : w₀.SameRecords w := by
  induction h with
  | refl => exact .refl w₀
  | tail h hlast ih => exact ih.trans (hothers _ _ hlast)

private theorem Stands.step (hothers : ∀ w w', others w w' → w.SameRecords w')
    (h : Stands others c.job w₀ w log c.phase) (hstep : c.step? s w = some (c', w')) :
    c'.job = c.job ∧ Stands others c.job w₀ w' (log ++ c.requests) c'.phase := by
  obtain ⟨job, phase⟩ := c
  cases phase with
  | ended result => cases hstep
  | taking =>
    obtain ⟨rfl, huntouched⟩ := h
    have hsame := sameRecords_of_others hothers huntouched
    simp only [step?, Bindings.take] at hstep
    cases hbound : w.bindings.get? job with
    | none =>
      rw [hbound] at hstep
      cases hstep
      exact ⟨rfl, .nothing (by rw [← hsame.bindings, hbound]) huntouched⟩
    | some id =>
      rw [hbound] at hstep
      cases hstep
      refine ⟨rfl, by rw [← hsame.bindings, hbound], fun other => ?_, hsame.snapshots⟩
      rw [Registry.get?_erase, hsame.bindings]
  | stopping id =>
    obtain ⟨⟨result, running, outside⟩, -, heq⟩ := Option.map_eq_some_iff.mp hstep
    cases heq
    have hholds : Holds job w₀ w id := h
    obtain f | stopped := result
    · exact ⟨rfl, hholds.bound, hholds.bindings, hholds.snapshots⟩
    · cases stopped <;> exact ⟨rfl, hholds.bound, hholds.bindings, hholds.snapshots⟩
  | awaiting id =>
    obtain ⟨⟨result, outside⟩, -, heq⟩ := Option.map_eq_some_iff.mp hstep
    cases heq
    have hholds : Holds job w₀ w id := h
    cases result <;> exact ⟨rfl, hholds.bound, hholds.bindings, hholds.snapshots⟩
  | waiting id =>
    simp only [step?] at hstep
    split at hstep <;> cases hstep
    exact ⟨rfl, h⟩
  | choosing id stopped =>
    have hholds : Holds job w₀ w id := h
    simp only [step?] at hstep
    split at hstep <;> cases hstep
    · refine ⟨rfl, hholds, ?_⟩
      rw [← hholds.snapshots]
      assumption
    · exact ⟨rfl, hholds⟩
  | handing r =>
    cases hstep
    obtain ⟨hholds, hrecorded⟩ := h
    exact ⟨rfl, ⟨hholds.bound, hholds.bindings, hholds.snapshots⟩, hrecorded, List.mem_append_right _ List.mem_cons_self⟩
  | underway r =>
    obtain ⟨⟨result, files, outside⟩, -, heq⟩ := Option.map_eq_some_iff.mp hstep
    cases heq
    obtain ⟨hholds, hrecorded, hasked⟩ := h
    have hkept : Holds job w₀ { w with files, outside } r.id := ⟨hholds.bound, hholds.bindings, hholds.snapshots⟩
    cases result with
    | ok restored => exact ⟨rfl, hkept, hrecorded, List.mem_append_left _ hasked⟩
    | error f => exact ⟨rfl, hkept⟩
  | forgetting r restored =>
    obtain ⟨hholds, hrecorded, hasked⟩ := h
    have hthere : w.snapshots.get? job = some r.snapshot := (hholds.snapshots job).trans hrecorded
    simp only [step?, hthere, if_true] at hstep
    cases hstep
    refine ⟨rfl, .rolledBack hholds.bound hrecorded (List.mem_append_left _ hasked) hholds.bindings fun other => ?_⟩
    rw [Registry.get?_erase, hholds.snapshots]
  | reinstating id f =>
    cases hstep
    have hholds : Holds job w₀ w id := h
    have hfree : w.bindings.get? job = none := by rw [hholds.bindings, if_pos rfl]
    refine ⟨rfl, .failed hholds.bound ⟨fun other => ?_, hholds.snapshots⟩⟩
    rw [Bindings.reinstate, Registry.contains, hfree]
    simp only [Option.isSome_none, Bool.false_eq_true, if_false, Registry.get?_put]
    split
    · rw [‹other = job›, hholds.bound]
    · rw [hholds.bindings, if_neg ‹_›]

private theorem Stands.timeOut (h : Stands others c.job w₀ w log c.phase) (hlate : c.timeOut? = some c') :
    c'.job = c.job ∧ Stands others c.job w₀ w log c'.phase := by
  obtain ⟨job, phase⟩ := c
  cases phase <;> cases hlate
  exact ⟨rfl, h⟩

private theorem Course.stands (hothers : ∀ w w', others w w' → w.SameRecords w')
    (h : Course s others { job } w₀ log c w) : c.job = job ∧ Stands others job w₀ w log c.phase := by
  induction h with
  | start => exact ⟨rfl, rfl, .refl⟩
  | step h hstep ih =>
    obtain ⟨rfl, hstands⟩ := ih
    exact hstands.step hothers hstep
  | timeOut h hlate ih =>
    obtain ⟨rfl, hstands⟩ := ih
    exact hstands.timeOut hlate
  | others h hmove ih => exact ⟨ih.1, ih.2.byOthers (hothers _ _ hmove) hmove⟩

theorem phase_of_result? {result : Except Failure RollbackOutcome} (h : c.result? = some result) :
    c.phase = .ended result := by
  rw [result?] at h
  split at h
  · cases h
    assumption
  · cases h

/-- What a call leaves behind if nobody else changes the records. -/
theorem Course.leaves {result : Except Failure RollbackOutcome} (hothers : ∀ w w', others w w' → w.SameRecords w')
    (h : Course s others { job } w₀ log c w) (hresult : c.result? = some result) : Leaves others job w₀ w log result := by
  have hstands := (h.stands hothers).2
  rw [phase_of_result? hresult] at hstands
  exact hstands

end Undisturbed

section Retried

variable {s : Surroundings ω} {job : JobId} {w : Worker ω} {id : ExecutionId} {snapshot : String}

/-- The operator and the restorer answer without a failure. The operator is asked to wait if it has stopped the
execution. -/
structure CanSucceed (s : Surroundings ω) (job : JobId) (id : ExecutionId) (snapshot : String) : Prop where
  stops : ∀ state, ∃ stopped state', (s.operator.stop id).run state = some (.ok stopped, state')
  awaits {state state' : RunningSet × ω} (stopped : (s.operator.stop id).run state = some (.ok true, state')) :
    ∀ outside, ∃ outside', (s.operator.await id).run outside = some (.ok (), outside')
  restores : ∀ state, ∃ restored state', (s.restorer.finish job snapshot).run state = some (.ok restored, state')

/-- The call has brought back the snapshot of the job for this execution. -/
def HasRolledBack (job : JobId) (id : ExecutionId) (snapshot : String) (c : RollbackCall) (_ : Worker ω) : Prop :=
  ∃ stopped restored, c.phase = .ended (.ok (.rolledBack id (report job ⟨id, stopped, snapshot⟩ restored)))

private abbrev Succeeds (s : Surroundings ω) (job : JobId) (id : ExecutionId) (snapshot : String)
    (phase : RollbackPhase) (w : Worker ω) : Prop :=
  ComesTo s Worker.SameRecords (HasRolledBack job id snapshot) ⟨job, phase⟩ w

/-- A phase in which the only move is a step, which leads on. -/
private theorem ComesTo.of_step {others : Worker ω → Worker ω → Prop} {goal : RollbackCall → Worker ω → Prop}
    {c : RollbackCall}
    (hnever : c.timeOut? = none)
    (hstep : ∀ w₁, others w w₁ → ∃ c' w', c.step? s w₁ = some (c', w') ∧ ComesTo s others goal c' w') :
    ComesTo s others goal c w := by
  refine .later (fun w₁ hothers => ?_) (fun w₁ c' w' hothers hmove => ?_) fun w₁ c' _ hlate => ?_
  · obtain ⟨c', w', hmove, -⟩ := hstep w₁ hothers
    exact .inl ⟨c', w', hmove⟩
  · obtain ⟨c'', w'', hmove', hgoal⟩ := hstep w₁ hothers
    rw [hmove] at hmove'
    cases hmove'
    exact hgoal
  · rw [hnever] at hlate
    cases hlate

private theorem succeeds_forgetting (stopped : Bool) (restored : String) (w : Worker ω) :
    Succeeds s job id snapshot (.forgetting ⟨id, stopped, snapshot⟩ restored) w :=
  .of_step rfl fun _ _ => ⟨_, _, rfl, .there ⟨stopped, restored, rfl⟩⟩

private theorem succeeds_underway (hworks : CanSucceed s job id snapshot) (stopped : Bool) (w : Worker ω) :
    Succeeds s job id snapshot (.underway ⟨id, stopped, snapshot⟩) w := by
  refine .of_step rfl fun w₁ _ => ?_
  obtain ⟨restored, ⟨files, outside⟩, hfinish⟩ := hworks.restores (w₁.files, w₁.outside)
  refine ⟨⟨job, .forgetting ⟨id, stopped, snapshot⟩ restored⟩, { w₁ with files, outside }, ?_,
    succeeds_forgetting stopped restored _⟩
  simp only [step?, hfinish, Option.map_some]

private theorem succeeds_choosing (hworks : CanSucceed s job id snapshot) (stopped : Bool) {w : Worker ω}
    (hrecorded : w.snapshots.get? job = some snapshot) : Succeeds s job id snapshot (.choosing id stopped) w := by
  refine .of_step rfl fun w₁ hsame => ?_
  have hthere : w₁.snapshots.get? job = some snapshot := (hsame.snapshots job).trans hrecorded
  refine ⟨⟨job, .handing ⟨id, stopped, snapshot⟩⟩, w₁, by simp only [step?, hthere], .of_step rfl fun w₂ _ => ?_⟩
  exact ⟨_, _, rfl, succeeds_underway hworks stopped _⟩

private theorem succeeds_waiting (hworks : CanSucceed s job id snapshot) {w : Worker ω}
    (hrecorded : w.snapshots.get? job = some snapshot) : Succeeds s job id snapshot (.waiting id) w := by
  refine .later (fun w₁ _ => .inr ⟨_, rfl⟩) (fun w₁ c' w' hsame hmove => ?_) fun w₁ c' hsame hlate => ?_
  · simp only [step?] at hmove
    split at hmove <;> cases hmove
    exact succeeds_choosing hworks true ((hsame.snapshots job).trans hrecorded)
  · cases hlate
    exact succeeds_choosing hworks true ((hsame.snapshots job).trans hrecorded)

private theorem succeeds_awaiting (hworks : CanSucceed s job id snapshot)
    (hawaits : ∀ outside, ∃ outside', (s.operator.await id).run outside = some (.ok (), outside')) {w : Worker ω}
    (hrecorded : w.snapshots.get? job = some snapshot) : Succeeds s job id snapshot (.awaiting id) w := by
  refine .of_step rfl fun w₁ hsame => ?_
  obtain ⟨outside, hawait⟩ := hawaits w₁.outside
  refine ⟨⟨job, .waiting id⟩, { w₁ with outside }, ?_, succeeds_waiting hworks ((hsame.snapshots job).trans hrecorded)⟩
  simp only [step?, hawait, Option.map_some]

private theorem succeeds_stopping (hworks : CanSucceed s job id snapshot) {w : Worker ω}
    (hrecorded : w.snapshots.get? job = some snapshot) : Succeeds s job id snapshot (.stopping id) w := by
  refine .of_step rfl fun w₁ hsame => ?_
  have hthere : w₁.snapshots.get? job = some snapshot := (hsame.snapshots job).trans hrecorded
  obtain ⟨stopped, ⟨running, outside⟩, hstop⟩ := hworks.stops (w₁.running, w₁.outside)
  cases stopped with
  | false =>
    refine ⟨⟨job, .choosing id false⟩, { w₁ with running, outside }, ?_, succeeds_choosing hworks false hthere⟩
    simp only [step?, hstop, Option.map_some]
  | true =>
    refine ⟨⟨job, .awaiting id⟩, { w₁ with running, outside }, ?_, succeeds_awaiting hworks (hworks.awaits hstop) hthere⟩
    simp only [step?, hstop, Option.map_some]

/-- A call succeeds if nothing fails that it asks for and the job has its records. -/
theorem comesTo_rolledBack (hworks : CanSucceed s job id snapshot) (hbound : w.bindings.get? job = some id)
    (hrecorded : w.snapshots.get? job = some snapshot) :
    ComesTo s Worker.SameRecords (HasRolledBack job id snapshot) { job } w := by
  refine .of_step rfl fun w₁ hsame => ?_
  have hthere : w₁.bindings.get? job = some id := (hsame.bindings job).trans hbound
  refine ⟨⟨job, .stopping id⟩, { w₁ with bindings := w₁.bindings.erase job }, ?_,
    succeeds_stopping hworks ((hsame.snapshots job).trans hrecorded)⟩
  simp only [step?, Bindings.take, hthere]

end Retried

section Overtaken

variable {s : Surroundings ω} {w w' : Worker ω} {c c' : RollbackCall} {log : List RollbackRequest} {newer : ExecutionId}

/-- The newer binding is there, or the call itself holds it, or the call does not fail. -/
private def Keeps (newer : ExecutionId) (c : RollbackCall) (w : Worker ω) : Prop :=
  w.bindings.get? c.job = some newer ∨ (w.bindings.get? c.job = none ∧ c.phase.held? = some newer) ∨
    c.phase.brought?.isSome = true

private theorem Keeps.step (hkeeps : Keeps newer c w) (h : c.step? s w = some (c', w')) : Keeps newer c' w' := by
  obtain ⟨hjob, hchange⟩ := step_change 0 h
  rw [Keeps, hjob]
  generalize c.events 0 c' = events at hchange
  cases hchange with
  | takes id before after bound bindings =>
    obtain hbound | ⟨-, hheld⟩ | hbrought := hkeeps
    · rw [bound] at hbound
      cases hbound
      exact .inr (.inl ⟨by rw [bindings, Registry.get?_erase, if_pos rfl], by rw [after]; rfl⟩)
    · rw [before] at hheld
      cases hheld
    · rw [before] at hbrought
      cases hbrought
  | asks id result before after stop bindings =>
    obtain hbound | ⟨hfree, hheld⟩ | hbrought := hkeeps
    · exact .inl (by rw [bindings, hbound])
    · rw [before] at hheld
      exact .inr (.inl ⟨by rw [bindings, hfree], after.trans hheld⟩)
    · rw [before] at hbrought
      cases hbrought
  | restores r restored before after => exact .inr (.inr (by rw [after]; rfl))
  | returns id f before after bindings =>
    rw [bindings, Bindings.reinstate, Registry.contains]
    obtain hbound | ⟨hfree, hheld⟩ | hbrought := hkeeps
    · exact .inl (by simp only [hbound, Option.isSome_some, if_true])
    · rw [before] at hheld
      cases hheld
      exact .inl (by simp only [hfree, Option.isSome_none, Bool.false_eq_true, if_false, Registry.get?_put, if_true])
    · rw [before] at hbrought
      cases hbrought
  | goesOn before held brought bindings =>
    rw [bindings, held, brought]
    exact hkeeps

private theorem Course.keeps {c₀ : RollbackCall} {w₀ : Worker ω}
    (h : Course s (Worker.SameBinding c₀.job) c₀ (w₀.bind newer c₀.job) log c w) : Keeps newer c w := by
  induction h with
  | start => exact .inl (by rw [Worker.bind, Bindings.register, Registry.get?_put, if_pos rfl])
  | step h hstep ih => exact ih.step hstep
  | timeOut h hlate ih =>
    obtain ⟨hjob, -, hheld, hbrought⟩ := timeOut_held hlate
    rw [Keeps, hjob, hheld, hbrought]
    exact ih
  | others h hothers ih =>
    rw [Keeps, ← h.job, show _ = _ from hothers, h.job]
    exact ih

/-- A binding that somebody makes at any moment of a failing call is there in the end, if others leave it alone. -/
theorem Course.overtaken {c₀ : RollbackCall} {w₀ : Worker ω} {f : Failure}
    (h : Course s (Worker.SameBinding c₀.job) c₀ (w₀.bind newer c₀.job) log c w) (hfailed : c.result? = some (.error f)) :
    w.bindings.get? c₀.job = some newer := by
  have hphase := phase_of_result? hfailed
  rw [h.job]
  obtain hbound | ⟨-, hheld⟩ | hbrought := h.keeps
  · exact hbound
  · rw [hphase] at hheld
    cases hheld
  · rw [hphase] at hbrought
    cases hbrought

end Overtaken

/-- A call with which nobody interferes. If it fails, all jobs have their bindings and snapshots as before, and another
call succeeds as soon as the operator and the restorer answer and the job has a snapshot; if it brings one back, it takes
away the records of its own job; if there is nothing to bring back, it asks for nothing. A binding that somebody else
makes while a call is on its way is there in the end, if it fails. -/
theorem failure_keeps_records (s s' : Surroundings ω) (others : Worker ω → Worker ω → Prop)
    (hothers : ∀ w w', others w w' → w.SameRecords w') (job : JobId) (w₀ : Worker ω) :
    (∀ log c w result, Course s others { job } w₀ log c w → c.result? = some result →
      Leaves others job w₀ w log result) ∧
    (∀ log c w f id snapshot, Course s others { job } w₀ log c w → c.result? = some (.error f) →
      w₀.bindings.get? job = some id → w₀.snapshots.get? job = some snapshot → CanSucceed s' job id snapshot →
      ComesTo s' Worker.SameRecords (HasRolledBack job id snapshot) { job } w) ∧
    ∀ log c w newer log' c' w' f, Course s (fun _ _ => True) { job } w₀ log c w →
      Course s (Worker.SameBinding job) c (w.bind newer job) log' c' w' → c'.result? = some (.error f) →
      w'.bindings.get? job = some newer := by
  refine ⟨fun log c w result h hresult => h.leaves hothers hresult, ?_, ?_⟩
  · intro log c w f id snapshot h hfailed hbound hrecorded hworks
    cases h.leaves hothers hfailed with
    | failed _ same =>
      exact comesTo_rolledBack hworks ((same.bindings job).trans hbound) ((same.snapshots job).trans hrecorded)
  · intro log c w newer log' c' w' f h h' hfailed
    obtain rfl := h.job
    exact h'.overtaken hfailed

namespace Retrying

/-- Everything works. -/
def working : Surroundings Unit where
  publish _ _ := pure ()
  restorer := { finish := fun _ snapshot => pure snapshot }

/-- No snapshot can be brought back. -/
def full : Surroundings Unit where
  publish _ _ := pure ()
  restorer := { finish := fun _ _ => throw (.storage "disk full") }

/-- No execution can be stopped. -/
def refusing : Surroundings Unit where
  publish _ _ := pure ()
  operator := { stop := fun _ => throw (.storage "no stop"), isOver := fun _ _ => false }
  restorer := { finish := fun _ snapshot => pure snapshot }

def idle : Worker Unit := { cache := .new 0 [] none, files := .empty [], now := ⟨0, 0⟩, outside := () }

/-- A job that is bound. -/
def bound : Worker Unit := idle.bind 3 ⟨"J1"⟩

/-- The job has a snapshot, too. -/
def ready : Worker Unit := bound.recordSnapshot ⟨"J1"⟩ "items.csv"

/-- The steps of a call with which nobody interferes, and what it asks for. -/
def goOn? (s : Surroundings Unit) : Nat → RollbackCall → Worker Unit →
    Option (List RollbackRequest × RollbackCall × Worker Unit)
  | 0, c, w => some ([], c, w)
  | n + 1, c, w => do
    let (c', w') ← c.step? s w
    let (log, last) ← goOn? s n c' w'
    return (c.requests ++ log, last)

private theorem course_of_goOn {s : Surroundings Unit} {others : Worker Unit → Worker Unit → Prop} {c₀ c' : RollbackCall}
    {w₀ w' : Worker Unit} {log : List RollbackRequest} (n : Nat) (h : goOn? s n c₀ w₀ = some (log, c', w')) :
    Course s others c₀ w₀ log c' w' := by
  suffices hfrom : ∀ {c : RollbackCall} {w : Worker Unit} {before log : List RollbackRequest},
      Course s others c₀ w₀ before c w → goOn? s n c w = some (log, c', w') →
      Course s others c₀ w₀ (before ++ log) c' w' from hfrom .start h
  clear h
  intro c w before log hcourse h
  induction n generalizing c w before log with
  | zero =>
    cases h
    rw [List.append_nil]
    exact hcourse
  | succ n ih =>
    obtain ⟨⟨c₁, w₁⟩, hstep, hrest⟩ := Option.bind_eq_some_iff.mp h
    obtain ⟨⟨later, last⟩, hlater, heq⟩ := Option.bind_eq_some_iff.mp hrest
    cases heq
    rw [← List.append_assoc]
    exact ih (hcourse.step hstep) hlater

/-- How the call ends that cannot bring its snapshot back. -/
def failed : RollbackCall := ⟨⟨"J1"⟩, .ended (.error (restoreFailed "items.csv" (.storage "disk full")))⟩

private theorem working_canSucceed : CanSucceed working ⟨"J1"⟩ 3 "items.csv" where
  stops := fun _ => ⟨_, _, rfl⟩
  awaits := fun _ outside => ⟨outside, rfl⟩
  restores := fun state => ⟨_, state, rfl⟩

theorem retry_brings_back :
    (∃ log, Course full Worker.SameRecords { job := ⟨"J1"⟩ } ready log failed ready ∧
      Leaves Worker.SameRecords ⟨"J1"⟩ ready ready log (.error (restoreFailed "items.csv" (.storage "disk full")))) ∧
    ComesTo working Worker.SameRecords (HasRolledBack ⟨"J1"⟩ 3 "items.csv") { job := ⟨"J1"⟩ } ready ∧
    ∃ c w log w', Course full (fun _ _ => True) { job := ⟨"J1"⟩ } ready [.stop 3] c w ∧
      Course full (Worker.SameBinding ⟨"J1"⟩) c (w.bind 4 ⟨"J1"⟩) log failed w' ∧
      w'.bindings.get? ⟨"J1"⟩ = some 4 := by
  have hfails : Course full Worker.SameRecords { job := ⟨"J1"⟩ } ready [.stop 3, .restore "items.csv"] failed ready :=
    course_of_goOn 6 rfl
  have hbegins : Course full (fun _ _ => True) { job := ⟨"J1"⟩ } ready [.stop 3] ⟨⟨"J1"⟩, .choosing 3 false⟩
      (idle.recordSnapshot ⟨"J1"⟩ "items.csv") := course_of_goOn 2 rfl
  obtain ⟨w', hends⟩ : ∃ w', Course full (Worker.SameBinding ⟨"J1"⟩) ⟨⟨"J1"⟩, .choosing 3 false⟩
      ((idle.recordSnapshot ⟨"J1"⟩ "items.csv").bind 4 ⟨"J1"⟩) [.restore "items.csv"] failed w' :=
    ⟨_, course_of_goOn 4 rfl⟩
  obtain ⟨hleaves, hretry, hkept⟩ :=
    failure_keeps_records full working Worker.SameRecords (fun _ _ hsame => hsame) ⟨"J1"⟩ ready
  exact ⟨⟨_, hfails, hleaves _ _ _ _ hfails rfl⟩, hretry _ _ _ _ _ _ hfails rfl rfl rfl working_canSucceed,
    _, _, _, w', hbegins, hends, hkept _ _ _ _ _ _ _ _ hbegins hends rfl⟩

/-- A call fails, and so does the same call after it. -/
def FailsTwice (s : Surroundings Unit) (job : JobId) (w₀ : Worker Unit) : Prop :=
  ∃ f log c w log' c' w', Course s Worker.SameRecords { job } w₀ log c w ∧ c.result? = some (.error f) ∧
    Course s Worker.SameRecords { job } w log' c' w' ∧ c'.result? = some (.error f)

/-- A restorer that works is not enough: the operator has to work, too, and the job has to have a snapshot. -/
theorem retry_fails_again :
    FailsTwice refusing ⟨"J1"⟩ ready ∧ ready.snapshots.get? ⟨"J1"⟩ = some "items.csv" ∧
    FailsTwice working ⟨"J1"⟩ bound ∧ CanSucceed working ⟨"J1"⟩ 3 "items.csv" ∧
    refusing.restorer = working.restorer := by
  have hrefused : Course refusing Worker.SameRecords { job := ⟨"J1"⟩ } ready [.stop 3]
      ⟨⟨"J1"⟩, .ended (.error (.storage "no stop"))⟩ ready := course_of_goOn 3 rfl
  have hmissing : Course working Worker.SameRecords { job := ⟨"J1"⟩ } bound [.stop 3]
      ⟨⟨"J1"⟩, .ended (.error (noSnapshot ⟨"J1"⟩))⟩ bound := course_of_goOn 4 rfl
  exact ⟨⟨_, _, _, _, _, _, _, hrefused, rfl, hrefused, rfl⟩, rfl, ⟨_, _, _, _, _, _, _, hmissing, rfl, hmissing, rfl⟩,
    working_canSucceed, rfl⟩

end Retrying

end RollbackCall
end BatchExport
