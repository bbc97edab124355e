import BatchExport.Proofs.Lifecycle.Returning
import BatchExport.Proofs.Lifecycle.StopAnswers

/-! The body of a job and the restores of its execution. Main statement: no restore is called for before the execution
has left, unless the call gave up waiting, and the body neither works nor begins from then on. -/
namespace BatchExport

/-- What happens to the body of one execution, to its stops and to the restores of it. Calls are known by their position
among the tasks. -/
inductive BodyEvent where
  | stop (event : StopEvent)
  /-- The run has looked for a stop, found none, and the body is on. -/
  | began
  /-- A part of the body is done, or the body is over. -/
  | worked
  /-- A call has lost patience with the end of the execution. -/
  | gaveUp (call : Nat)
  | restoring (call : Nat)
  deriving DecidableEq

namespace BodyEvent

/-- Stops are accepted until the execution has left. Its body begins if none was accepted, and it works from then on
until the execution leaves. Restores come later than that, or from calls that have given up. -/
def Follows (before : List BodyEvent) : BodyEvent → Prop
  | stop (.asked accepted) => accepted = true ↔ stop .left ∉ before
  | stop (.marked _) | stop .left | gaveUp _ => True
  | began => stop (.asked true) ∉ before ∧ stop .left ∉ before
  | worked => began ∈ before ∧ stop .left ∉ before
  | restoring i => gaveUp i ∈ before ∨ stop .left ∈ before

end BodyEvent

section Events

variable {ω : Type} (id : ExecutionId)

def Run.bodyEvents (r r' : Run ω) : List BodyEvent :=
  match r.phase, r'.phase with
  | .deciding, .working _ => if r.execution.id = id then [.began] else []
  | .working _, _ => if r.execution.id = id then [.worked] else []
  | _, _ => []

def RollbackCall.bodyEvents (i : Nat) (c : RollbackCall) : List BodyEvent :=
  match c.phase with
  | .handing r => if r.id = id then [.restoring i] else []
  | _ => []

/-- What a call tells that gives up waiting. -/
def RollbackCall.lateEvents (i : Nat) (c : RollbackCall) : List BodyEvent :=
  match c.phase with
  | .waiting other => if other = id then [.gaveUp i] else []
  | _ => []

def Task.bodyEvents (i : Nat) : Task ω → Task ω → List BodyEvent
  | .run r, .run r' => r.bodyEvents id r'
  | .rollback c, .rollback _ => c.bodyEvents id i
  | _, _ => []

def Scene.bodyEvents (x x' : Scene ω) : Move ω → List BodyEvent
  | .step i =>
    match x.tasks[i]?, x'.tasks[i]? with
    | some t, some t' => t.bodyEvents id i t'
    | _, _ => []
  | .timeOut i => (x.call? i).toList.flatMap (RollbackCall.lateEvents id i)
  | .deed _ => []

/-- The move as it is, told as a matter of the body of one execution. -/
def Scene.playBody? (s : Surroundings ω) (x : Scene ω) (m : Move ω) : Option (List BodyEvent × Scene ω) :=
  (x.playStops? id s m).map fun (evs, x') => (evs.map .stop ++ x.bodyEvents id x' m, x')

end Events

/-- The execution that a call no longer waits for, on its way to the restore. -/
def RollbackPhase.proceeds? : RollbackPhase → Option ExecutionId
  | .choosing id _ => some id
  | .handing r | .underway r => some r.id
  | _ => none

theorem Run.bodyEvents_of_ne {ω : Type} {id : ExecutionId} {r r' : Run ω} (h : r.execution.id ≠ id) :
    r.bodyEvents id r' = [] := by
  rw [bodyEvents]
  split
  · exact if_neg h
  · exact if_neg h
  · rfl

/-- How far an execution has come, as far as its body is concerned. -/
inductive BodyStage where
  | ahead
  | within
  | finished (result : Except Failure Unit)
  | marked (status : BatchStatus)
  | left (status : BatchStatus)

def Run.bodyStage {ω : Type} (r : Run ω) : BodyStage :=
  match r.phase with
  | .starting | .before _ | .deciding => .ahead
  | .working _ => .within
  | .concluding result => .finished result
  | .leaving => .marked r.execution.status
  | .after _ | .ended => .left r.execution.status

section Told

variable {ω : Type} {s : Surroundings ω} {id : ExecutionId} {w w' : Worker ω} {r r' : Run ω} {stage : BodyStage}
  {flag : Option Bool} {log : List BodyEvent}

/-- What the stage of an execution says about its flag and about what has happened so far. -/
private inductive Stands (log : List BodyEvent) : BodyStage → Option Bool → Prop
  | ahead (stop : Bool) (flying : .stop .left ∉ log) (asked : .stop (.asked true) ∈ log → stop = true) :
      Stands log .ahead (some stop)
  | within (stop : Bool) (flying : .stop .left ∉ log) (begun : .began ∈ log) : Stands log .within (some stop)
  | finished (stop : Bool) (result : Except Failure Unit) (flying : .stop .left ∉ log)
      (idle : .began ∉ log → result = .ok () ∧ stop = true) : Stands log (.finished result) (some stop)
  | marked (stop : Bool) (status : BatchStatus) (flying : .stop .left ∉ log)
      (idle : .began ∉ log → status = .stopped) : Stands log (.marked status) (some stop)
  | left (status : BatchStatus) (left : .stop .left ∈ log) (idle : .began ∉ log → status = .stopped) :
      Stands log (.left status) none

private theorem Stands.flying_iff (h : Stands log stage flag) : flag.isSome = true ↔ .stop .left ∉ log := by
  cases h <;> simp_all

private theorem not_began_of_append {evs : List BodyEvent} (h : .began ∉ log ++ evs) : .began ∉ log :=
  fun hbegan => h (List.mem_append_left _ hbegan)

private theorem Stands.asks {evs : List StopEvent} (hlaw : Obeys BodyEvent.Follows log)
    (h : Stands log stage (w.running.get? id)) (hasks : Asks id w w' evs) :
    Obeys BodyEvent.Follows (log ++ evs.map .stop) ∧ Stands (log ++ evs.map .stop) stage (w'.running.get? id) := by
  cases hasks with
  | not same => simpa only [List.map_nil, List.append_nil, same] using ⟨hlaw, h⟩
  | once raised =>
    refine ⟨Obeys.snoc_iff.mpr ⟨hlaw, ?_⟩, ?_⟩
    · rw [BodyEvent.Follows, Worker.isRunning_eq]
      exact h.flying_iff
    · rw [raised]
      generalize w.running.get? id = flag at h
      cases h with
      | ahead stop flying asked => exact .ahead true (by simpa using flying) fun _ => rfl
      | within stop flying begun => exact .within true (by simpa using flying) (List.mem_append_left _ begun)
      | finished stop result flying idle =>
        exact .finished true result (by simpa using flying) fun h => ⟨(idle (not_began_of_append h)).1, rfl⟩
      | marked stop status flying idle =>
        exact .marked true status (by simpa using flying) fun h => idle (not_began_of_append h)
      | left status left idle =>
        exact .left status (List.mem_append_left _ left) fun h => idle (not_began_of_append h)

/-- What is told by a step and where it leads to. -/
private def Stands.Leads (log evs : List BodyEvent) (stage : BodyStage) (flag : Option Bool) : Prop :=
  Obeys BodyEvent.Follows (log ++ evs) ∧ Stands (log ++ evs) stage flag

/-- The moment at which the run looks for a stop. -/
private theorem Stands.decide (hlaw : Obeys BodyEvent.Follows log) (h : Stands log r.bodyStage (w.running.get? id))
    (hid : r.execution.id = id) (hphase : r.phase = .deciding) (hstep : r.step? s w = some (r', w')) :
    Leads log (r.bodyEvents id r') r'.bodyStage (w'.running.get? id) := by
  obtain ⟨listeners, job, e, phase⟩ := r
  dsimp only at hphase hid
  subst hphase hid
  cases hstep
  rw [Run.bodyStage] at h
  rw [Worker.stopRequested, RunningSet.stopRequested]
  generalize w.running.get? e.id = flag at h
  cases h with
  | ahead stop flying asked =>
    cases stop with
    | true =>
      simp only [Run.bodyEvents, Run.bodyStage, beq_self_eq_true, if_true, Leads, List.append_nil]
      exact ⟨hlaw, .finished true _ flying fun _ => ⟨rfl, rfl⟩⟩
    | false =>
      have hnone : Option.some false ≠ some true := by simp
      simp only [Run.bodyEvents, Run.bodyStage, beq_iff_eq, hnone, if_true, if_false]
      refine ⟨Obeys.snoc_iff.mpr ⟨hlaw, ?_, flying⟩, .within false (by simpa using flying) (by simp)⟩
      intro hasked
      cases asked hasked

private theorem Stands.work (hlaw : Obeys BodyEvent.Follows log) (h : Stands log .within flag)
    (hnext : stage = .within ∨ ∃ result, stage = .finished result) : Leads log [.worked] stage flag := by
  cases h with
  | within stop flying begun =>
    refine ⟨Obeys.snoc_iff.mpr ⟨hlaw, begun, flying⟩, ?_⟩
    have hflying : .stop .left ∉ log ++ [.worked] := by simpa using flying
    have hbegun : .began ∈ log ++ [.worked] := List.mem_append_left _ begun
    obtain rfl | ⟨result, rfl⟩ := hnext
    · exact .within stop hflying hbegun
    · exact .finished stop result hflying (absurd hbegun)

private theorem Stands.mark {result : Except Failure Unit} {e : Execution} {now : Instant}
    (hlaw : Obeys BodyEvent.Follows log) (h : Stands log (.finished result) flag) :
    Leads log [.stop (.marked (e.conclude result (flag == some true) now).status)]
      (.marked (e.conclude result (flag == some true) now).status) flag := by
  cases h with
  | finished stop _ flying idle =>
    refine ⟨hlaw.append_free (by simp [BodyEvent.Follows]), .marked stop _ (by simpa using flying) fun h => ?_⟩
    obtain ⟨rfl, rfl⟩ := idle (not_began_of_append h)
    rfl

private theorem Stands.leave {status : BatchStatus} (hlaw : Obeys BodyEvent.Follows log)
    (h : Stands log (.marked status) flag) : Leads log [.stop .left] (.left status) none := by
  cases h with
  | marked stop _ flying idle =>
    refine ⟨hlaw.append_free (by simp [BodyEvent.Follows]), .left status (by simp) fun h => ?_⟩
    exact idle (not_began_of_append h)

/-- The steps of the execution itself. -/
private theorem Stands.run (hlaw : Obeys BodyEvent.Follows log) (h : Stands log r.bodyStage (w.running.get? id))
    (hid : r.execution.id = id) (hconfined : r.IsConfined) (hstep : r.step? s w = some (r', w')) :
    Leads log ((r.stopEvents id r' w w').map .stop ++ r.bodyEvents id r') r'.bodyStage (w'.running.get? id) := by
  obtain ⟨-, hchange⟩ := Run.step_change hconfined hstep
  generalize r.events r' = happened at hchange
  have hasks (hmark : ∀ result, r.phase ≠ .concluding result) (hleave : r.phase ≠ .leaving) :
      Asks id w w' (r.stopEvents id r' w w') := by
    refine hchange.asks (fun _ before => ?_) (fun _ => hmark) fun _ => hleave
    rw [Run.bodyStage, before] at h
    rw [Worker.isRunning_eq]
    generalize w.running.get? id = flag at h
    cases h
    rfl
  -- Steps that leave the body as it is.
  have hquiet (hevents : r.bodyEvents id r' = []) (hstage : r'.bodyStage = r.bodyStage)
      (hmark : ∀ result, r.phase ≠ .concluding result) (hleave : r.phase ≠ .leaving) :
      Leads log ((r.stopEvents id r' w w').map .stop ++ r.bodyEvents id r') r'.bodyStage (w'.running.get? id) := by
    rw [hevents, List.append_nil, hstage]
    exact h.asks hlaw (hasks hmark hleave)
  cases hchange with
  | starts hooks before after =>
    refine hquiet ?_ ?_ ?_ ?_ <;> simp [Run.bodyEvents, Run.bodyStage, before, after]
  | prepares hook rest more before after =>
    refine hquiet ?_ ?_ ?_ ?_ <;> simp [Run.bodyEvents, Run.bodyStage, before, after]
  | decides before =>
    obtain before | before := before
    · have after : r'.phase = .deciding := by
        obtain ⟨listeners, job, e, phase⟩ := r
        dsimp only at before
        subst before
        cases hstep
        rfl
      refine hquiet ?_ ?_ ?_ ?_ <;> simp [Run.bodyEvents, Run.bodyStage, before, after]
    · have hnone : r.stopEvents id r' w w' = [] := by simp [Run.stopEvents, before]
      rw [hnone]
      exact h.decide hlaw hid before hstep
  | works parts before after =>
    obtain ⟨hlaw', h'⟩ := h.asks hlaw (hasks (by simp [before]) (by simp [before]))
    have hevents : r.bodyEvents id r' = [.worked] := by simp [Run.bodyEvents, before, hid]
    have hstage : r'.bodyStage = .within ∨ ∃ result, r'.bodyStage = .finished result := by
      obtain after | ⟨result, after⟩ := after
      · exact .inl (by simp [Run.bodyStage, after])
      · exact .inr ⟨result, by simp [Run.bodyStage, after]⟩
    rw [Run.bodyStage, before] at h'
    rw [hevents, Leads, ← List.append_assoc]
    exact h'.work hlaw' hstage
  | concludes result before after execution worker =>
    have hevents : r.bodyEvents id r' = [] := by simp [Run.bodyEvents, before]
    rw [Run.bodyStage, before] at h
    rw [hevents, Run.stopEvents, before, Run.bodyStage, after, worker, execution]
    subst hid
    rw [if_pos rfl, List.map_singleton, List.append_nil]
    exact h.mark hlaw
  | leaves hooks before after execution worker =>
    have hevents : r.bodyEvents id r' = [] := by simp [Run.bodyEvents, before]
    rw [Run.bodyStage, before] at h
    rw [hevents, Run.stopEvents, before, Run.bodyStage, after, worker, execution, hid, RunningSet.get?_leave, if_pos rfl]
    simpa using h.leave hlaw
  | notifies hook rest more before after execution =>
    refine hquiet ?_ ?_ ?_ ?_ <;> simp [Run.bodyEvents, Run.bodyStage, before, after, execution]
  | ends before after execution =>
    refine hquiet ?_ ?_ ?_ ?_ <;> simp [Run.bodyEvents, Run.bodyStage, before, after, execution]

/-- What calls tell is no matter of the run. -/
private theorem Stands.quiet {evs : List BodyEvent} (h : Stands log stage flag) (hevs : ∀ event, .stop event ∉ evs) :
    Stands (log ++ evs) stage flag := by
  have hstop (event : StopEvent) : .stop event ∈ log ++ evs ↔ .stop event ∈ log := by simp [hevs]
  cases h with
  | ahead stop flying asked => exact .ahead stop (by rwa [hstop]) (by rwa [hstop])
  | within stop flying begun => exact .within stop (by rwa [hstop]) (List.mem_append_left _ begun)
  | finished stop result flying idle => exact .finished stop result (by rwa [hstop]) fun h => idle (not_began_of_append h)
  | marked stop status flying idle => exact .marked stop status (by rwa [hstop]) fun h => idle (not_began_of_append h)
  | left status left idle => exact .left status (List.mem_append_left _ left) fun h => idle (not_began_of_append h)

private theorem Stands.left_of_mem (h : Stands log r.bodyStage flag) (hleft : .stop .left ∈ log) :
    flag = none ∧ r.stopStage = .left r.execution.status := by
  rw [Run.bodyStage] at h
  rw [Run.stopStage]
  cases hphase : r.phase with
  | after hooks =>
    rw [hphase] at h
    cases h
    exact ⟨rfl, rfl⟩
  | ended =>
    rw [hphase] at h
    cases h
    exact ⟨rfl, rfl⟩
  | _ =>
    rw [hphase] at h
    cases h
    contradiction

/-- A run whose body has not begun. -/
private theorem Stands.idle (h : Stands log r.bodyStage flag) (hidle : .began ∉ log) :
    (∀ parts, r.phase ≠ .working parts) ∧ (r.stopStage ≠ .unmarked → r.execution.status = .stopped) := by
  rw [Run.bodyStage] at h
  rw [Run.stopStage]
  cases hphase : r.phase with
  | working parts =>
    rw [hphase] at h
    cases h
    contradiction
  | leaving =>
    rw [hphase] at h
    cases h with
    | marked stop status flying idle => exact ⟨by simp, fun _ => idle hidle⟩
  | after hooks =>
    rw [hphase] at h
    cases h with
    | left status left idle => exact ⟨by simp, fun _ => idle hidle⟩
  | ended =>
    rw [hphase] at h
    cases h with
    | left status left idle => exact ⟨by simp, fun _ => idle hidle⟩
  | _ => exact ⟨by simp, absurd rfl⟩

end Told

section Calls

variable {ω : Type} {s : Surroundings ω} {id : ExecutionId} {w w' : Worker ω} {c c' : RollbackCall} {i : Nat}

/-- With the runner itself as the operator, a call goes on to the restore only of an execution that has left. -/
theorem RollbackCall.proceeds_of_step (hs : s.operator = .ofRunningSet ω) (hstep : c.step? s w = some (c', w'))
    (hafter : c'.phase.proceeds? = some id) : c.phase.proceeds? = some id ∨ w.isRunning id = false := by
  obtain ⟨job, phase⟩ := c
  cases phase with
  | taking =>
    simp only [step?] at hstep
    split at hstep <;> cases hstep <;> cases hafter
  | stopping other =>
    simp only [step?, hs, JobOperator.ofRunningSet, Effect.run_ofChange, Option.map_some, Option.some.injEq,
      Prod.mk.injEq] at hstep
    obtain ⟨rfl, -⟩ := hstep
    have hanswer : (w.running.requestStop other).1 = w.isRunning other := w.requestStop_answer other
    rw [hanswer] at hafter
    cases hrunning : w.isRunning other with
    | true => simp [hrunning, RollbackPhase.proceeds?] at hafter
    | false =>
      simp only [hrunning, RollbackPhase.proceeds?, Option.some.injEq] at hafter
      exact .inr (hafter ▸ hrunning)
  | awaiting other =>
    obtain ⟨⟨result, outside⟩, -, heq⟩ := Option.map_eq_some_iff.mp hstep
    cases heq
    cases result <;> cases hafter
  | waiting other =>
    simp only [step?, hs, JobOperator.ofRunningSet] at hstep
    split at hstep <;> cases hstep
    rename_i hover
    cases hafter
    exact .inr ((Bool.not_eq_true' _).mp hover)
  | choosing other stopped =>
    simp only [step?] at hstep
    split at hstep <;> cases hstep
    · exact .inl hafter
    · cases hafter
  | handing r =>
    cases hstep
    exact .inl hafter
  | underway r =>
    obtain ⟨⟨result, files, outside⟩, -, heq⟩ := Option.map_eq_some_iff.mp hstep
    cases heq
    cases result <;> cases hafter
  | forgetting r restored =>
    cases hstep
    cases hafter
  | reinstating other f =>
    cases hstep
    cases hafter
  | ended result => cases hstep

/-- A call that goes on without the end of the execution tells so. -/
theorem RollbackCall.lateEvents_of_proceeds (hlate : c.timeOut? = some c') (hafter : c'.phase.proceeds? = some id) :
    c.lateEvents id i = [.gaveUp i] := by
  obtain ⟨job, phase⟩ := c
  cases phase <;> cases hlate
  cases hafter
  exact if_pos rfl

theorem RollbackCall.mem_bodyEvents {event : BodyEvent} (h : event ∈ c.bodyEvents id i) :
    event = .restoring i ∧ c.phase.proceeds? = some id := by
  rw [bodyEvents] at h
  split at h
  · rename_i r hphase
    by_cases hid : r.id = id
    · rw [if_pos hid] at h
      exact ⟨List.mem_singleton.mp h, by rw [hphase, RollbackPhase.proceeds?, hid]⟩
    · rw [if_neg hid] at h
      cases h
  · cases h

theorem RollbackCall.mem_lateEvents {event : BodyEvent} (h : event ∈ c.lateEvents id i) : event = .gaveUp i := by
  rw [lateEvents] at h
  split at h
  · split at h
    · exact List.mem_singleton.mp h
    · cases h
  · cases h

end Calls

section Story

variable {ω : Type} {s : Surroundings ω} {id : ExecutionId} {k : Nat} {log evs : List BodyEvent} {x x' : Scene ω}

theorem RollbackPhase.held?_of_proceeds {phase : RollbackPhase} (h : phase.proceeds? = some id) :
    phase.held? = some id := by
  cases phase <;> first | exact h | cases h

def Move.isStepOf (k : Nat) : Move ω → Bool
  | .step i => i == k
  | _ => false

/-- Each step of a run lowers what is left of it, and nothing else changes that. -/
theorem Scene.play_left {r : Run ω} {m : Move ω} {happened : List Event} (hr : x.run? k = some r)
    (hmove : x.play? s m = some (happened, x')) :
    ∃ r', x'.run? k = some r' ∧ r'.left + (if m.isStepOf k then 1 else 0) ≤ r.left := by
  cases Scene.play_change hmove with
  | run i q q' there step tasks =>
    rw [Scene.run?_after_run there tasks]
    by_cases hk : k = i
    · subst hk
      cases (Scene.run?_of_there there).symm.trans hr
      refine ⟨q', if_pos rfl, ?_⟩
      rw [Move.isStepOf, beq_self_eq_true, if_pos rfl]
      exact Run.left_lt_of_step step
    · refine ⟨r, by rw [if_neg hk, hr], ?_⟩
      rw [Move.isStepOf, if_neg (by simpa using Ne.symm hk)]
      exact Nat.le_refl _
  | call i c c' there step tasks =>
    have hk : i ≠ k := by
      rintro rfl
      rw [Scene.run?, there] at hr
      cases hr
    refine ⟨r, by rw [Scene.run?_after_call there tasks, hr], ?_⟩
    rw [Move.isStepOf, if_neg (by simpa using hk)]
    exact Nat.le_refl _
  | timeOut i c c' there late worker tasks =>
    exact ⟨r, by rw [Scene.run?_after_call there tasks, hr], Nat.le_refl _⟩
  | deed d worker tasks => exact ⟨r, by rw [Scene.run?, tasks, ← Scene.run?, hr], Nat.le_refl _⟩

theorem Scene.play?_step_isSome {r : Run ω} (hr : x.run? k = some r) (hstep : (r.step? s x.worker).isSome = true) :
    (x.play? s (.step k)).isSome = true := by
  obtain ⟨⟨r', w'⟩, hstep⟩ := Option.isSome_iff_exists.mp hstep
  have there : x.tasks[k]? = some (.run r) := by
    rw [run?] at hr
    split at hr
    · cases hr
      assumption
    · cases hr
  rw [play?, there, Option.bind_some, Task.step?, hstep]
  rfl

theorem Scene.playBody?_eq_some {m : Move ω} (h : x.playBody? id s m = some (evs, x')) : ∃ happened,
    x.play? s m = some (happened, x') ∧ evs = (x.stopEvents id x' m).map .stop ++ x.bodyEvents id x' m := by
  obtain ⟨⟨stops, y⟩, hstops, heq⟩ := Option.map_eq_some_iff.mp h
  cases heq
  obtain ⟨⟨happened, y⟩, hmove, heq⟩ := Option.map_eq_some_iff.mp hstops
  cases heq
  exact ⟨happened, hmove, rfl⟩

/-- So a run makes no more steps than were left. -/
theorem Scene.story_left {moves : List (Move ω)} {r : Run ω} (hr : x.run? k = some r)
    (hplay : story? (playBody? id s) x moves = some (log, x')) :
    ∃ r', x'.run? k = some r' ∧ r'.left + moves.countP (·.isStepOf k) ≤ r.left := by
  have hstep (y : Scene ω) (m : Move ω) (evs : List BodyEvent) (z : Scene ω) (n : Nat)
      (hy : ∃ q, y.run? k = some q ∧ q.left = n) (hm : y.playBody? id s m = some (evs, z)) :
      ∃ n', (∃ q, z.run? k = some q ∧ q.left = n') ∧ n' + (if m.isStepOf k then 1 else 0) ≤ n := by
    obtain ⟨q, hq, rfl⟩ := hy
    obtain ⟨happened, hmove, -⟩ := playBody?_eq_some hm
    obtain ⟨q', hq', hless⟩ := play_left hq hmove
    exact ⟨_, ⟨q', hq', rfl⟩, hless⟩
  obtain ⟨n, ⟨r', hr', rfl⟩, hall⟩ := story_lowers hstep ⟨r, hr, rfl⟩ hplay
  exact ⟨r', hr', hall⟩

theorem Scene.bodyEvents_step {i : Nat} {t t' : Task ω} (there : x.tasks[i]? = some t)
    (tasks : x'.tasks = x.tasks.set i t') : x.bodyEvents id x' (.step i) = t.bodyEvents id i t' := by
  have hlt : i < x.tasks.length := (List.getElem?_eq_some_iff.mp there).1
  rw [bodyEvents, there, tasks, List.getElem?_set, if_pos rfl, if_pos hlt]

/-- This has been told about the body of the execution. -/
private structure BodyTold (id : ExecutionId) (k : Nat) (log : List BodyEvent) (x : Scene ω) : Prop where
  owns : x.Owns id k
  obeys : Obeys BodyEvent.Follows log
  stands : ∀ r, x.run? k = some r → Stands log r.bodyStage (x.worker.running.get? id)
  calls : ∀ i c, x.call? i = some c → c.phase.proceeds? = some id → .gaveUp i ∈ log ∨ .stop .left ∈ log

private theorem BodyTold.left_of_not_running (h : BodyTold id k log x) (hout : x.worker.isRunning id = false) :
    .stop .left ∈ log := by
  obtain ⟨r, hr, -⟩ := h.owns.run
  rw [Worker.isRunning_eq] at hout
  refine Decidable.byContradiction fun hflying => ?_
  rw [(h.stands r hr).flying_iff.mpr hflying] at hout
  cases hout

/-- Moves of others can do no more to the execution than to ask for its stop. -/
private theorem BodyTold.others {stops : List StopEvent} (h : BodyTold id k log x) (hsame : x'.run? k = x.run? k)
    (hasks : Asks id x.worker x'.worker stops) :
    Obeys BodyEvent.Follows (log ++ stops.map .stop) ∧ ∀ r, x'.run? k = some r →
      Stands (log ++ stops.map .stop) r.bodyStage (x'.worker.running.get? id) := by
  obtain ⟨own, hown, -⟩ := h.owns.run
  obtain ⟨hobeys, hstands⟩ := (h.stands own hown).asks h.obeys hasks
  refine ⟨hobeys, fun r hr => ?_⟩
  rw [hsame, hown] at hr
  cases hr
  exact hstands

private theorem BodyTold.proceeds (h : BodyTold id k log x) (evs : List BodyEvent) {i : Nat} {c : RollbackCall}
    (hc : x.call? i = some c) (hproceeds : c.phase.proceeds? = some id) :
    .gaveUp i ∈ log ++ evs ∨ .stop .left ∈ log ++ evs :=
  (h.calls i c hc hproceeds).imp (List.mem_append_left _) (List.mem_append_left _)

private theorem BodyTold.run {i : Nat} {q q' : Run ω} (h : BodyTold id k log x) (hconfined : x'.IsConfined)
    (there : x.tasks[i]? = some (.run q)) (step : q.step? s x.worker = some (q', x'.worker))
    (tasks : x'.tasks = x.tasks.set i (.run q')) :
    BodyTold id k (log ++ ((x.stopEvents id x' (.step i)).map .stop ++ x.bodyEvents id x' (.step i))) x' := by
  have hq := Scene.run?_of_there there
  have hafter := Scene.run?_after_run there tasks k
  have hqconfined := h.owns.confined q (List.mem_of_getElem? there)
  have hchange := (Run.step_change hqconfined step).2
  have howns := h.owns.step hconfined there tasks hchange.sameExecution
  have hsame (j : Nat) (c : RollbackCall) (hc : x'.call? j = some c) : x.call? j = some c := by
    rw [← hc, Scene.call?_after_run there tasks]
  rw [Scene.stopEvents_step there tasks, Scene.bodyEvents_step there tasks]
  by_cases hk : k = i
  · obtain ⟨hobeys, hstands⟩ :=
      (h.stands q (by rw [hk, hq])).run h.obeys ((h.owns.own_iff hq).mpr hk.symm) hqconfined step
    refine ⟨howns, hobeys, fun r hr => ?_, fun j c hc => h.proceeds _ (hsame j c hc)⟩
    rw [hafter, if_pos hk] at hr
    cases hr
    exact hstands
  · have hne : q.execution.id ≠ id := fun hid => hk ((h.owns.own_iff hq).mp hid).symm
    have hnone : (Task.run q).bodyEvents id i (.run q') = [] := Run.bodyEvents_of_ne hne
    rw [if_neg hk] at hafter
    obtain ⟨hobeys, hstands⟩ := h.others hafter (hchange.asks (absurd · hne) (absurd · hne) (absurd · hne))
    rw [hnone, List.append_nil]
    exact ⟨howns, hobeys, hstands, fun j c hc => h.proceeds _ (hsame j c hc)⟩

private theorem BodyTold.call {i : Nat} {c c' : RollbackCall} (hs : s.operator = .ofRunningSet ω)
    (h : BodyTold id k log x) (hconfined : x'.IsConfined) (there : x.tasks[i]? = some (.rollback c))
    (step : c.step? s x.worker = some (c', x'.worker)) (tasks : x'.tasks = x.tasks.set i (.rollback c')) :
    BodyTold id k (log ++ ((x.stopEvents id x' (.step i)).map .stop ++ x.bodyEvents id x' (.step i))) x' := by
  have hruns := Scene.run?_after_call there tasks
  have hc := Scene.call?_of_there there
  obtain ⟨hobeys, hstands⟩ := h.others (hruns k) (RollbackCall.asks hs step)
  rw [Scene.stopEvents_step there tasks, Scene.bodyEvents_step there tasks, ← List.append_assoc]
  have hrestoring (event : BodyEvent) (hevent : event ∈ c.bodyEvents id i) := RollbackCall.mem_bodyEvents hevent
  refine ⟨h.owns.others hconfined hruns, ?_, fun r hr => ?_, fun j d hd hproceeds => ?_⟩
  · refine hobeys.append_free fun event hevent more => ?_
    obtain ⟨rfl, hproceeds⟩ := hrestoring event hevent
    rw [List.append_assoc]
    exact h.proceeds _ hc hproceeds
  · exact (hstands r hr).quiet fun event hevent => by cases (hrestoring _ hevent).1
  · rw [Scene.call?_after_call there tasks] at hd
    rw [List.append_assoc]
    split at hd
    · rename_i hj
      cases hd
      subst hj
      obtain hearlier | hout := RollbackCall.proceeds_of_step hs step hproceeds
      · exact h.proceeds _ hc hearlier
      · exact .inr (List.mem_append_left _ (h.left_of_not_running hout))
    · exact h.proceeds _ hd hproceeds

private theorem BodyTold.timeOut {i : Nat} {c c' : RollbackCall} (h : BodyTold id k log x) (hconfined : x'.IsConfined)
    (there : x.tasks[i]? = some (.rollback c)) (late : c.timeOut? = some c') (worker : x'.worker = x.worker)
    (tasks : x'.tasks = x.tasks.set i (.rollback c')) : BodyTold id k (log ++ x.bodyEvents id x' (.timeOut i)) x' := by
  have hruns := Scene.run?_after_call there tasks
  have hc := Scene.call?_of_there there
  obtain ⟨hobeys, hstands⟩ := h.others (hruns k) (.of_running (by rw [worker]))
  rw [List.map_nil, List.append_nil] at hobeys hstands
  have hevents : x.bodyEvents id x' (.timeOut i) = c.lateEvents id i := by simp [Scene.bodyEvents, hc]
  have hlate (event : BodyEvent) (hevent : event ∈ c.lateEvents id i) := RollbackCall.mem_lateEvents hevent
  rw [hevents]
  refine ⟨h.owns.others hconfined hruns, ?_, fun r hr => ?_, fun j d hd hproceeds => ?_⟩
  · refine hobeys.append_free fun event hevent more => ?_
    rw [hlate event hevent]
    trivial
  · exact (hstands r hr).quiet fun event hevent => by cases hlate _ hevent
  · rw [Scene.call?_after_call there tasks] at hd
    split at hd
    · rename_i hj
      cases hd
      rw [RollbackCall.lateEvents_of_proceeds late hproceeds, hj]
      exact .inl (List.mem_append_right _ List.mem_cons_self)
    · exact h.proceeds _ hd hproceeds

private theorem BodyTold.play {m : Move ω} (hs : s.operator = .ofRunningSet ω) (h : BodyTold id k log x)
    (hplay : x.playBody? id s m = some (evs, x')) : BodyTold id k (log ++ evs) x' := by
  obtain ⟨happened, hmove, rfl⟩ := Scene.playBody?_eq_some hplay
  have hconfined := Scene.play_confined h.owns.confined hmove
  cases Scene.play_change hmove with
  | run i q q' there step tasks => exact h.run hconfined there step tasks
  | call i c c' there step tasks => exact h.call hs hconfined there step tasks
  | timeOut i c c' there late worker tasks => exact h.timeOut hconfined there late worker tasks
  | deed d worker tasks =>
    have hruns (j : Nat) : x'.run? j = x.run? j := by rw [Scene.run?, Scene.run?, tasks]
    have hsame (j : Nat) : x'.call? j = x.call? j := by rw [Scene.call?, Scene.call?, tasks]
    obtain ⟨hobeys, hstands⟩ := h.others (hruns k) (worker ▸ d.asks x.worker)
    rw [Scene.bodyEvents, List.append_nil]
    exact ⟨h.owns.others hconfined hruns, hobeys, hstands, fun j c hc => h.proceeds _ (by rw [← hsame, hc])⟩

variable {jobName : String} {parameters : JobParameters} {listeners : List Listener} {job : List (JobPart ω)}

private theorem Scene.call?_of_launch {i : Nat} {c : RollbackCall}
    (h : (x.launch jobName parameters listeners job).call? i = some c) : x.call? i = some c := by
  rw [call?, launch, List.getElem?_append] at h
  rw [call?]
  split at h
  · rename_i heq
    split at heq
    · rw [heq]
      exact h
    · rw [List.getElem?_singleton] at heq
      split at heq <;> cases heq
  · cases h

private theorem BodyTold.launch (hconfined : x.IsConfined) (hjob : ∀ p ∈ job, p.IsConfined)
    (hnew : ∀ j r, x.run? j = some r → r.execution.id ≠ x.worker.nextId)
    (hfree : ∀ i c, x.call? i = some c → c.phase.held? ≠ some x.worker.nextId) :
    BodyTold x.worker.nextId x.tasks.length [] (x.launch jobName parameters listeners job) := by
  refine ⟨Scene.launch_owns hconfined hjob hnew, .nil, fun r hr => ?_, fun i c hc hproceeds => ?_⟩
  · cases Scene.launch_run?.symm.trans hr
    rw [Scene.launch_flag]
    exact .ahead false List.not_mem_nil (absurd · List.not_mem_nil)
  · refine absurd ?_ (hfree i c (Scene.call?_of_launch hc))
    exact RollbackPhase.held?_of_proceeds hproceeds

/-- An execution is prepared and run once. Anybody may ask for its stop at any time, and the other runs and rollback
calls of the scene go on. A call that has not given up waiting calls for the restore when the execution has left; its
body is not on then and does not begin later. A stop that comes before the body is accepted, the body is left out, and
the execution ends stopped: its run has only so many steps, and the next one can be made until it has ended. -/
theorem Scene.restores_follow_body {log : List BodyEvent} (hconfined : x.IsConfined) (hjob : ∀ p ∈ job, p.IsConfined)
    (hnew : ∀ j r, x.run? j = some r → r.execution.id ≠ x.worker.nextId)
    (hfree : ∀ i c, x.call? i = some c → c.phase.held? ≠ some x.worker.nextId) (hs : s.operator = .ofRunningSet ω)
    {moves : List (Move ω)}
    (hplay : story? (playBody? x.worker.nextId s) (x.launch jobName parameters listeners job) moves = some (log, x')) :
    ∃ r, x'.run? x.tasks.length = some r ∧
      (∀ i before after, log = before ++ .restoring i :: after → .gaveUp i ∉ before →
        .stop .left ∈ before ∧ .began ∉ after ∧ .worked ∉ after ∧ r.stopStage = .left r.execution.status ∧
          x'.worker.isRunning x.worker.nextId = false) ∧
      (∀ accepted before after, log = before ++ .stop (.asked accepted) :: after → .began ∉ before →
        .stop .left ∉ before → accepted = true ∧ .began ∉ log ∧ .worked ∉ log ∧
          (r.stopStage ≠ .unmarked → r.execution.status = .stopped) ∧
          (r.isEnded ∨ (x'.play? s (.step x.tasks.length)).isSome) ∧
          moves.countP (·.isStepOf x.tasks.length) ≤ (x.newRun jobName parameters listeners job).left) := by
  have hstory := story_keeps (fun _ => True) (fun _ _ _ _ _ _ h hstep => h.play hs hstep) (fun _ _ => trivial)
    (BodyTold.launch hconfined hjob hnew hfree) hplay
  rw [List.nil_append] at hstory
  obtain ⟨r, hr, -⟩ := hstory.owns.run
  have hstands := hstory.stands r hr
  refine ⟨r, hr, ?_, ?_⟩
  · intro i before after hsplit hpatient
    have hleft : .stop .left ∈ before := (hstory.obeys before _ after hsplit).resolve_left hpatient
    obtain ⟨hflag, hstage⟩ := hstands.left_of_mem (by rw [hsplit]; exact List.mem_append_left _ hleft)
    have hobeys : Obeys BodyEvent.Follows (before ++ (.restoring i :: after)) := hsplit ▸ hstory.obeys
    have hbegan : .began ∉ .restoring i :: after :=
      hobeys.not_mem_after fun more h => h.2 (List.mem_append_left _ hleft)
    have hworked : .worked ∉ .restoring i :: after :=
      hobeys.not_mem_after fun more h => h.2 (List.mem_append_left _ hleft)
    refine ⟨hleft, List.not_mem_of_not_mem_cons hbegan, List.not_mem_of_not_mem_cons hworked, hstage, ?_⟩
    rw [Worker.isRunning_eq, hflag]
    rfl
  · intro accepted before after hsplit hbefore hflying
    have haccepted : accepted = true := (hstory.obeys before _ after hsplit).mpr hflying
    subst haccepted
    have hbegan : .began ∉ log := by
      have hobeys : Obeys BodyEvent.Follows ((before ++ [.stop (.asked true)]) ++ after) := by
        rw [List.append_assoc, List.singleton_append, ← hsplit]
        exact hstory.obeys
      have hafter : .began ∉ after := hobeys.not_mem_after fun more h => h.1 (by simp)
      rw [hsplit]
      simp [hbefore, hafter]
    have hworked : .worked ∉ log := by
      intro hworked
      obtain ⟨earlier, later, hlog⟩ := List.append_of_mem hworked
      exact hbegan (by rw [hlog]; exact List.mem_append_left _ (hstory.obeys _ _ _ hlog).1)
    obtain ⟨hidle, hstatus⟩ := hstands.idle hbegan
    refine ⟨rfl, hbegan, hworked, hstatus, ?_, ?_⟩
    · cases hended : r.isEnded with
      | true => exact .inl rfl
      | false => exact .inr (Scene.play?_step_isSome hr (Run.step?_isSome hended hidle _))
    · obtain ⟨r', -, hleft⟩ := Scene.story_left Scene.launch_run? hplay
      omega

end Story

namespace StopBeforeTheBody

/-- A call to roll a job back that has not been bound yet. -/
def scene : Scene Unit where
  worker := { cache := .new 0 [] none, files := .empty [], now := ⟨0, 0⟩, outside := () }
  tasks := [.rollback { job := ⟨"J1"⟩ }]

/-- An export that would go on until it is stopped. -/
def launched : Scene Unit := scene.launch "orders-export" [(Key.jobId, "J1")] [] [.waitForStop]

/-- The export is bound and the call asks for its stop; the run ends, and the call restores the snapshot. -/
def moves : List (Move Unit) :=
  [.deed (.bind 1 ⟨"J1"⟩), .deed (.recordSnapshot ⟨"J1"⟩ "orders.json"), .step 1] ++
    List.replicate 3 (.step 0) ++ List.replicate 5 (.step 1) ++ List.replicate 5 (.step 0)

private theorem waitForStop_isConfined : (JobPart.waitForStop : JobPart Unit).IsConfined :=
  .pure (fun _ => ⟨rfl, rfl, .refl _⟩) ()

theorem restore_waits_for_the_end : ∃ x r,
    story? (Scene.playBody? 1 .quiet) launched moves =
        some ([.stop (.asked true), .stop (.marked .stopped), .stop .left, .restoring 0], x) ∧
      x.run? 1 = some r ∧ r.stopStage = .left .stopped ∧ x.worker.isRunning 1 = false := by
  have hplayed : (story? (Scene.playBody? 1 .quiet) launched moves).map (·.1) =
      some [.stop (.asked true), .stop (.marked .stopped), .stop .left, .restoring 0] := by decide
  obtain ⟨⟨log, x⟩, hplay, rfl⟩ := Option.map_eq_some_iff.mp hplayed
  have hconfined : scene.IsConfined := by simp [Scene.IsConfined, scene]
  have hjob : ∀ p ∈ [(JobPart.waitForStop : JobPart Unit)], p.IsConfined := by simp [waitForStop_isConfined]
  have hnone (j : Nat) (q : Run Unit) : scene.run? j ≠ some q := by cases j <;> simp [Scene.run?, scene]
  have hfree (i : Nat) (c : RollbackCall) (hc : scene.call? i = some c) : c.phase.held? ≠ some 1 := by
    obtain rfl : c = { job := ⟨"J1"⟩ } := by
      cases i with
      | zero => exact (Option.some.inj hc).symm
      | succ i => simp [Scene.call?, scene] at hc
    simp [RollbackPhase.held?]
  obtain ⟨r, hr, hrestores, hstops⟩ :=
    Scene.restores_follow_body hconfined hjob (fun j q hq => absurd hq (hnone j q)) hfree rfl hplay
  obtain ⟨-, -, -, hstage, hout⟩ := hrestores 0
    [.stop (.asked true), .stop (.marked .stopped), .stop .left] [] rfl (by simp)
  obtain ⟨-, -, -, hstatus, -⟩ := hstops true [] _ rfl (List.not_mem_nil) (List.not_mem_nil)
  have hstopped : r.execution.status = .stopped := hstatus (by simp [hstage])
  exact ⟨x, r, hplay, hr, by rw [hstage, hstopped], hout⟩

end StopBeforeTheBody
end BatchExport
