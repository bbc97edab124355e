import BatchExport.Proofs.Lifecycle.Erasure

/-! Those who watch a run, its publisher among them. Main statements: they change nothing of how a run goes, and a
notifier has its hooks tell them three things in all. -/
namespace BatchExport

variable {ν ω : Type}

inductive RunEvent where
  | published (job : JobId) (record : StatusRecord)
  | acknowledged (a : Acknowledgement)
  | worked (part : Nat)
  deriving DecidableEq

/-- Those who watch a run, its publisher among them. They have a state of their own, and all that comes back from them
are the answers of the publisher. -/
structure Audience (ν : Type) where
  published : JobId → StatusRecord → ν → Except Failure Unit × ν
  acknowledged : Acknowledgement → ν → ν
  worked : Nat → ν → ν

/-- Keeps all that it is told, with a publisher that may answer anything. -/
def Audience.recorder (answer : JobId → StatusRecord → List RunEvent → Except Failure Unit) :
    Audience (List RunEvent) where
  published job record log := (answer job record log, log ++ [.published job record])
  acknowledged a log := log ++ [.acknowledged a]
  worked part log := log ++ [.worked part]

def Surroundings.watched (s : Surroundings ω) (a : Audience ν) : Surroundings (ν × ω) where
  publish job record := .ofStep fun (n, x) =>
    ((a.published job record n).1, (a.published job record n).2, (s.publish job record).aftermath x)
  acknowledge ack t := (a.acknowledged ack t.1, s.acknowledge ack t.2)
  observe moment name e t := (t.1, s.observe moment name e t.2)
  operator := {
    stop id := (s.operator.stop id).onPart (fun t => (t.1, t.2.2)) fun p t => (p.1, t.2.1, p.2)
    await id := (s.operator.await id).onPart (·.2) fun x t => (t.1, x)
    isOver id t := s.operator.isOver id (t.1, t.2.2) }
  restorer := {
    start job snapshot t := (t.1, s.restorer.start job snapshot t.2)
    finish job snapshot := (s.restorer.finish job snapshot).onPart (fun t => (t.1, t.2.2)) fun p t => (p.1, t.2.1, p.2) }
  others w := (s.others (w.on Prod.snd)).withOutside (w.outside.1, (s.others (w.on Prod.snd)).outside)

def JobPart.watched (a : Audience ν) (i : Nat) (p : JobPart ω) : JobPart (ν × ω) where
  ready e w := p.ready e (w.on Prod.snd)
  act := .ofRun fun (e, w) => (p.act.run (e, w.on Prod.snd)).map fun (r, e, w') =>
    (r, e, w'.withOutside (a.worked i w.outside.1, w'.outside))

/-- A run at its start. -/
def Run.watched (a : Audience ν) (r : Run ω) : Run (ν × ω) where
  listeners := r.listeners
  job := r.job.mapIdx (JobPart.watched a)
  execution := r.execution

def Worker.watched (w : Worker ω) (n : ν) : Worker (ν × ω) := w.withOutside (n, w.outside)

section Erasure

variable (a : Audience ν)

theorem Surroundings.watched_erases (s : Surroundings ω) : (s.watched a).Erases Prod.snd s where
  publish _ _ _ := rfl
  acknowledge _ _ := rfl
  observe _ _ _ _ := rfl
  others _ := rfl

theorem JobPart.watched_erases (i : Nat) (p : JobPart ω) : (p.watched a i).Erases Prod.snd p where
  ready _ _ := rfl
  act := by
    rintro ⟨e, w⟩
    rw [watched, Effect.run_ofRun]
    dsimp only
    cases p.act.run (e, w.on Prod.snd) <;> rfl

private theorem forall₂_mapIdx (parts : List (JobPart ω)) (f : Nat → Nat) :
    List.Forall₂ (JobPart.Erases Prod.snd) (parts.mapIdx fun i => JobPart.watched a (f i)) parts := by
  induction parts generalizing f with
  | nil => exact .nil
  | cons p rest ih =>
    rw [List.mapIdx_cons]
    exact .cons (p.watched_erases a (f 0)) (ih fun i => f (i + 1))

theorem Run.watched_erases {r : Run ω} (h : r.phase = .starting) : (r.watched a).Erases Prod.snd r := by
  refine ⟨rfl, forall₂_mapIdx a r.job id, rfl, ?_⟩
  rw [h]
  exact .starting

end Erasure

/-- The hooks that tell something: publications and acknowledgements. -/
def Hook.talks : Hook → Bool
  | publish _ | acknowledge => true
  | _ => false

def Listener.isNotifier : Listener → Bool
  | notifier _ => true
  | _ => false

private theorem filter_talks (hooks : Listener → List Hook)
    (hsilent : ∀ l, l.isNotifier = false → (hooks l).filter Hook.talks = []) (listeners : List Listener) :
    (listeners.flatMap hooks).filter Hook.talks =
      (listeners.filter Listener.isNotifier).flatMap fun l => (hooks l).filter Hook.talks := by
  induction listeners with
  | nil => rfl
  | cons l rest ih =>
    rw [List.flatMap_cons, List.filter_append, ih]
    cases hl : l.isNotifier with
    | true => rw [List.filter_cons_of_pos hl, List.flatMap_cons]
    | false => rw [List.filter_cons_of_neg (by simp [hl]), hsilent l hl, List.nil_append]

namespace Hook

variable {listeners : List Listener} {described : List DescribedStep}

theorem talks_before (h : listeners.filter Listener.isNotifier = [.notifier described]) :
    (listeners.flatMap Listener.before).filter talks = [.publish described] := by
  rw [filter_talks, h]
  · rfl
  · intro l hl
    cases l with
    | notifier described => cases hl
    | observer name => rfl
    | rollback => rfl

theorem talks_after (h : listeners.filter Listener.isNotifier = [.notifier described]) :
    (listeners.flatMap Listener.after).filter talks = [.acknowledge, .publish described] := by
  rw [filter_talks, h]
  · rfl
  · intro l hl
    cases l with
    | notifier described => cases hl
    | observer name => rfl
    | rollback => rfl

variable {s : Surroundings ω} {answer : JobId → StatusRecord → List RunEvent → Except Failure Unit}

/-- What a hook tells. -/
def told (e : Execution) (w : Worker ω) : Hook → List RunEvent
  | publish described => e.jobId?.toList.map fun job => .published job (.ofExecution described job e)
  | acknowledge => (e.jobId?.bind w.parked.get?).toList.map .acknowledged
  | _ => []

theorem act_told (hook : Hook) (e : Execution) (w : Worker (List RunEvent × ω)) :
    (hook.act (s.watched (.recorder answer)) e w).2.outside.1 = w.outside.1 ++ hook.told e w := by
  cases hook with
  | observe moment name => exact (List.append_nil _).symm
  | publish described =>
    unfold act told
    cases e.jobId? with
    | none => exact (List.append_nil _).symm
    | some job => rfl
  | acknowledge =>
    unfold act told
    cases e.jobId? with
    | none => exact (List.append_nil _).symm
    | some job =>
      simp only [acknowledgeJob, Worker.unpark, Option.bind_some]
      cases w.parked.get? job with
      | none => exact (List.append_nil _).symm
      | some a => rfl
  | cleanUp =>
    unfold act told
    cases e.jobId? with
    | none => exact (List.append_nil _).symm
    | some job =>
      simp only [cleanUpFiles]
      cases e.parameters.nonBlank? Key.tempOutputPath <;> exact (List.append_nil _).symm
  | forgetBinding =>
    unfold act told
    cases e.status <;> cases e.jobId? <;> exact (List.append_nil _).symm
  | forgetSnapshot =>
    unfold act told
    cases e.jobId? <;> exact (List.append_nil _).symm

/-- Whatever a hook makes necessary tells nothing. -/
theorem act_silent (s : Surroundings ω) (hook : Hook) (e : Execution) (w : Worker ω) :
    (hook.act s e w).1.filter talks = [] := by
  obtain hnone | ⟨-, hone⟩ := hook.act_more s e w
  · rw [hnone]
    rfl
  · rw [hone]
    rfl

variable (s answer) in
/-- The first of some hooks is silent, or it tells what it has to. -/
theorem act_first (hook : Hook) (rest : List Hook) (e : Execution) (w : Worker (List RunEvent × ω)) :
    (((hook.act (s.watched (.recorder answer)) e w).1 ++ rest).filter talks = (hook :: rest).filter talks ∧
      (hook.act (s.watched (.recorder answer)) e w).2.outside.1 = w.outside.1) ∨
    ((hook :: rest).filter talks = hook :: ((hook.act (s.watched (.recorder answer)) e w).1 ++ rest).filter talks ∧
      (hook.act (s.watched (.recorder answer)) e w).2.outside.1 = w.outside.1 ++ hook.told e w) := by
  have hmore : ((hook.act (s.watched (.recorder answer)) e w).1 ++ rest).filter talks = rest.filter talks := by
    rw [List.filter_append, act_silent, List.nil_append]
  rw [hmore, act_told]
  cases htalks : hook.talks with
  | true => exact .inr ⟨List.filter_cons_of_pos htalks, rfl⟩
  | false =>
    refine .inl ⟨(List.filter_cons_of_neg (by simp [htalks])).symm, ?_⟩
    cases hook with
    | publish described => cases htalks
    | acknowledge => cases htalks
    | _ => exact List.append_nil _

end Hook

end BatchExport
