import BatchExport.Proofs.Lifecycle.Steps
import Mathlib.Tactic.SplitIfs

/-! Where each binding of a job is: in the table, with a call, used up by a restore or lost. Main statement: a
binding is restored at most once. -/
namespace BatchExport

inductive Place where
  | table
  | held (call : Nat)
  | used
  | lost
  deriving DecidableEq

structure BindingRecord where
  execution : ExecutionId
  place : Place
  deriving DecidableEq

/-- All bindings of one job, oldest first. Each of them is at one place at a time. -/
abbrev Ledger := List BindingRecord

namespace Ledger

/-- The executions whose bindings are at a place. -/
def inPlace (l : Ledger) (p : Place) : List ExecutionId :=
  l.filterMap fun r => if r.place = p then some r.execution else none

/-- Move what is at one place to another. -/
def shift (source target : Place) (l : Ledger) : Ledger :=
  l.map fun r => if r.place = source then { r with place := target } else r

/-- A binding displaces the one in the table; one that is given back does not. -/
def enter (l : Ledger) : Event → Ledger
  | .bound _ id => l.shift .table .lost ++ [⟨id, .table⟩]
  | .unbound _ => l.shift .table .lost
  | .released _ id => if l.inPlace .table = [id] then l.shift .table .lost else l
  | .took i _ _ => l.shift .table (.held i)
  | .restored i _ _ => l.shift (.held i) .used
  | .returned i _ _ => l.shift (.held i) (if l.inPlace .table = [] then .table else .lost)
  | .stopAsked _ _ | .marked _ _ | .published _ _ => l

def note (job : JobId) (l : Ledger) (event : Event) : Ledger := if event.job? = some job then l.enter event else l

/-- The ledger of a job after a story. -/
def ofStory (job : JobId) (tr : List Event) : Ledger := tr.foldl (note job) []

variable {l : Ledger} {source target p : Place}

theorem inPlace_append (l l' : Ledger) (p : Place) : inPlace (l ++ l') p = l.inPlace p ++ l'.inPlace p :=
  List.filterMap_append

private theorem inPlace_cons (r : BindingRecord) (l : Ledger) (p : Place) :
    inPlace (r :: l) p = if r.place = p then r.execution :: l.inPlace p else l.inPlace p := by
  rw [inPlace]
  rw [List.filterMap_cons]
  split_ifs <;> rfl

private theorem shift_cons (r : BindingRecord) (l : Ledger) (source target : Place) :
    shift source target (r :: l) =
      (if r.place = source then { r with place := target } else r) :: l.shift source target := rfl

theorem inPlace_shift_other (hsource : p ≠ source) (htarget : p ≠ target) :
    (l.shift source target).inPlace p = l.inPlace p := by
  induction l with
  | nil => rfl
  | cons r l ih =>
    rw [shift_cons, inPlace_cons, inPlace_cons, ih]
    by_cases h : r.place = source
    · simp [h, hsource.symm, htarget.symm]
    · simp [h]

theorem inPlace_shift_source (h : source ≠ target) : (l.shift source target).inPlace source = [] := by
  induction l with
  | nil => rfl
  | cons r l ih =>
    rw [shift_cons, inPlace_cons, ih]
    by_cases hr : r.place = source
    · simp [hr, h.symm]
    · simp [hr]

theorem inPlace_shift_target (h : l.inPlace target = []) :
    (l.shift source target).inPlace target = l.inPlace source := by
  induction l with
  | nil => rfl
  | cons r l ih =>
    rw [inPlace_cons] at h
    split_ifs at h with ht
    rw [shift_cons, inPlace_cons, inPlace_cons, ih h]
    by_cases hr : r.place = source
    · simp [hr]
    · simp [hr, ht]

theorem length_inPlace_shift (h : source ≠ target) :
    ((l.shift source target).inPlace target).length = (l.inPlace source).length + (l.inPlace target).length := by
  induction l with
  | nil => rfl
  | cons r l ih =>
    rw [shift_cons, inPlace_cons, inPlace_cons, inPlace_cons]
    by_cases hr : r.place = source
    · simp [hr, h, ih]
      omega
    · by_cases ht : r.place = target
      · simp [ht, h.symm, ih]
        omega
      · simp [hr, ht, ih]

theorem executions_shift (l : Ledger) : (l.shift source target).map (·.execution) = l.map (·.execution) := by
  simp only [shift, List.map_map]
  apply List.map_congr_left
  intro r _
  simp only [Function.comp]
  split <;> rfl

/-- What an event that concerns the job does to the binding in the table. A call gives back what it holds. -/
private theorem enter_table {b : Bindings} {job : JobId} {event : Event} (hjob : event.job? = some job)
    (h : l.inPlace .table = (b.get? job).toList)
    (hback : ∀ i id, event = .returned i job id → l.inPlace (.held i) = [id]) :
    (l.enter event).inPlace .table = ((event.applyTo b).get? job).toList := by
  have hempty (target : Place) (htarget : Place.table ≠ target) :
      (l.shift .table target).inPlace .table = ((b.erase job).get? job).toList := by
    rw [inPlace_shift_source htarget, Registry.get?_erase, if_pos rfl]
    rfl
  cases event with
  | bound job id =>
    cases hjob
    rw [enter, inPlace_append, inPlace_shift_source (by simp)]
    simp [Event.applyTo, Bindings.register, Registry.get?_put, inPlace]
  | unbound job =>
    cases hjob
    exact hempty .lost (by simp)
  | released job id =>
    cases hjob
    simp only [enter, Event.applyTo, Bindings.forgetExecution, h]
    by_cases hown : b.get? job = some id
    · rw [if_pos (by rw [hown]; rfl), if_pos hown]
      exact hempty .lost (by simp)
    · rw [if_neg (by rw [Option.toList_eq_singleton_iff]; exact hown), if_neg hown, h]
  | took i job id =>
    cases hjob
    rw [enter, hempty (.held i) (by simp), Event.applyTo, Bindings.take]
    split
    · rfl
    · rw [Registry.get?_erase, if_pos rfl, ‹b.get? job = none›]
  | restored i job snapshot =>
    cases hjob
    rw [enter, inPlace_shift_other (by simp) (by simp), h]
    rfl
  | returned i job id =>
    cases hjob
    have hheld := hback i id rfl
    simp only [enter, Event.applyTo, Bindings.reinstate, Registry.contains]
    obtain hb | ⟨other, hb⟩ := Option.eq_none_or_eq_some (b.get? job)
    · rw [hb] at h
      simp [h, hb, inPlace_shift_target h, hheld, Registry.get?_put]
    · rw [hb] at h
      simp [h, hb, inPlace_shift_other]
  | _ => cases hjob

/-- The call that an event is about. -/
def callOf? : Event → Option Nat
  | .took i _ _ | .restored i _ _ | .returned i _ _ => some i
  | _ => none

private theorem enter_held {event : Event} {i : Nat} (h : callOf? event ≠ some i) :
    (l.enter event).inPlace (.held i) = l.inPlace (.held i) := by
  cases event with
  | bound job id =>
    rw [enter, inPlace_append, inPlace_shift_other (by simp) (by simp)]
    simp [inPlace]
  | unbound job => exact inPlace_shift_other (by simp) (by simp)
  | released job id =>
    rw [enter]
    split
    · exact inPlace_shift_other (by simp) (by simp)
    · rfl
  | took j job id =>
    have hij : i ≠ j := fun e => h (by rw [callOf?, e])
    exact inPlace_shift_other (by simp) (by simp [hij])
  | restored j job snapshot =>
    have hij : i ≠ j := fun e => h (by rw [callOf?, e])
    exact inPlace_shift_other (by simp [hij]) (by simp)
  | returned j job id =>
    have hij : i ≠ j := fun e => h (by rw [callOf?, e])
    rw [enter]
    split <;> exact inPlace_shift_other (by simp [hij]) (by simp)
  | _ => rfl

private theorem applyTo_other {b : Bindings} {job : JobId} {event : Event} (h : event.job? ≠ some job) :
    (event.applyTo b).get? job = b.get? job := by
  cases event <;>
    grind [Event.applyTo, Event.job?, Bindings.register, Bindings.forget, Bindings.forgetExecution, Bindings.take,
      Bindings.reinstate, Registry.get?_put, Registry.get?_erase]

variable {job : JobId} {b : Bindings}

private theorem note_table (event : Event) (h : l.inPlace .table = (b.get? job).toList)
    (hback : ∀ i id, event = .returned i job id → l.inPlace (.held i) = [id]) :
    (note job l event).inPlace .table = ((event.applyTo b).get? job).toList := by
  rw [note]
  split
  · exact enter_table ‹_› h hback
  · rw [applyTo_other ‹_›, h]

private theorem note_held {event : Event} {i : Nat} (h : callOf? event ≠ some i) :
    (note job l event).inPlace (.held i) = l.inPlace (.held i) := by
  rw [note]
  split
  · exact enter_held h
  · rfl

private theorem note_used {event : Event} (h : ∀ i, callOf? event ≠ some i) :
    (note job l event).inPlace .used = l.inPlace .used := by
  have hother (target : Place) (htarget : Place.used ≠ target) :
      (l.shift .table target).inPlace .used = l.inPlace .used :=
    inPlace_shift_other (by simp) htarget
  rw [note]
  cases event with
  | took i => exact absurd rfl (h i)
  | restored i => exact absurd rfl (h i)
  | returned i => exact absurd rfl (h i)
  | _ => grind [enter, inPlace_append, inPlace]

/-- The execution that an event binds the job to. -/
def boundTo? (job : JobId) : Event → Option ExecutionId
  | .bound job' id => if job' = job then some id else none
  | _ => none

private theorem note_executions (l : Ledger) (event : Event) :
    (note job l event).map (·.execution) = l.map (·.execution) ++ (boundTo? job event).toList := by
  rw [note]
  cases event <;> grind [Event.job?, enter, boundTo?, executions_shift]

private theorem notes_executions (tr : List Event) (l : Ledger) :
    (tr.foldl (note job) l).map (·.execution) = l.map (·.execution) ++ tr.filterMap (boundTo? job) := by
  induction tr generalizing l with
  | nil => simp
  | cons event tr ih =>
    rw [List.foldl_cons, ih, note_executions, List.filterMap_cons]
    cases boundTo? job event <;> simp

/-- The ledger has all bindings of the job, in order. -/
theorem executions_ofStory (job : JobId) (tr : List Event) :
    (ofStory job tr).map (·.execution) = tr.filterMap (boundTo? job) := notes_executions tr []

end Ledger

namespace Scene

variable {ω : Type}

/-- The execution whose binding a call of the job holds. -/
def holding? (x : Scene ω) (job : JobId) (i : Nat) : Option ExecutionId :=
  (x.call? i).bind fun c => if c.job = job then c.phase.held? else none

/-- The execution that a call of the job has brought back. -/
def brought? (x : Scene ω) (job : JobId) (i : Nat) : Option ExecutionId :=
  (x.call? i).bind fun c => if c.job = job then c.phase.brought? else none

end Scene

/-- The ledger tells what is in the table and what calls hold. -/
structure Ledger.Agrees {ω : Type} (l : Ledger) (job : JobId) (x : Scene ω) : Prop where
  table : l.inPlace .table = (x.worker.bindings.get? job).toList
  held : ∀ i, l.inPlace (.held i) = (x.holding? job i).toList
  brought : ∀ i id, x.brought? job i = some id → id ∈ l.map (·.execution)

namespace Ledger

variable {ω : Type} {l : Ledger} {job : JobId} {s : Surroundings ω} {x x' : Scene ω} {evs : List Event}

theorem mem_executions {p : Place} {id : ExecutionId} (h : id ∈ l.inPlace p) : id ∈ l.map (·.execution) := by
  obtain ⟨r, hr, hid⟩ := List.mem_filterMap.mp h
  split at hid
  · cases hid
    exact List.mem_map_of_mem hr
  · cases hid

/-- Events of no call change the table at most. -/
private theorem notes_places {b : Bindings} (hevs : ∀ event ∈ evs, callOf? event = none)
    (hb : l.inPlace .table = (b.get? job).toList) :
    (evs.foldl (note job) l).inPlace .table = ((evs.foldl Event.applyTo b).get? job).toList ∧
      (∀ i, (evs.foldl (note job) l).inPlace (.held i) = l.inPlace (.held i)) ∧
      (evs.foldl (note job) l).inPlace .used = l.inPlace .used := by
  induction evs generalizing l b with
  | nil => exact ⟨hb, fun _ => rfl, rfl⟩
  | cons event evs ih =>
    have hnone := hevs event List.mem_cons_self
    have hnow := note_table event hb (fun i id he => by rw [he] at hnone; cases hnone)
    obtain ⟨htable, hheld, hused⟩ := ih (fun e he => hevs e (List.mem_cons_of_mem _ he)) hnow
    exact ⟨htable, fun i => (hheld i).trans (note_held (by simp [hnone])), hused.trans (note_used (by simp [hnone]))⟩

private theorem Agrees.others (h : l.Agrees job x) (hevs : ∀ event ∈ evs, callOf? event = none)
    (hcalls : ∀ i, x'.call? i = x.call? i)
    (hbindings : x'.worker.bindings = evs.foldl Event.applyTo x.worker.bindings) :
    (evs.foldl (note job) l).Agrees job x' := by
  obtain ⟨htable, hheld, -⟩ := notes_places hevs h.table
  refine ⟨by rw [htable, hbindings], fun i => ?_, fun i id hb => ?_⟩
  · rw [hheld, h.held, Scene.holding?, Scene.holding?, hcalls]
  · rw [Scene.brought?, hcalls] at hb
    rw [notes_executions]
    exact List.mem_append_left _ (h.brought i id hb)

section Calls

variable {i : Nat} {c c' : RollbackCall} (there : x.tasks[i]? = some (.rollback c))
  (tasks : x'.tasks = x.tasks.set i (.rollback c')) (hjob : c'.job = c.job)

include there tasks hjob

private theorem Agrees.goesOn (h : l.Agrees job x) (hheld : c'.phase.held? = c.phase.held?)
    (hbrought : c'.phase.brought? = c.phase.brought?) (hbindings : x'.worker.bindings = x.worker.bindings) :
    l.Agrees job x' := by
  have hcall := Scene.call?_of_there there
  refine ⟨by rw [h.table, hbindings], fun j => ?_, fun j id hb => h.brought j id ?_⟩
  · rw [h.held, Scene.holding?, Scene.holding?, Scene.call?_after_call there tasks]
    split
    · rw [‹j = i›, hcall, Option.bind_some, Option.bind_some, hjob, hheld]
    · rfl
  · rw [Scene.brought?, Scene.call?_after_call there tasks] at hb
    rw [Scene.brought?]
    split at hb
    · rwa [‹j = i›, hcall, Option.bind_some, ← hjob, ← hbrought]
    · exact hb

/-- A call that takes, restores or gives back moves its own binding. -/
private theorem Agrees.handsOver (h : l.Agrees job x) {event : Event} (hcall : callOf? event = some i)
    (hown : event.job? = some c.job) (hbindings : x'.worker.bindings = event.applyTo x.worker.bindings)
    (hback : ∀ k id, event = .returned k job id → l.inPlace (.held k) = [id])
    (hheld : c.job = job → (note job l event).inPlace (.held i) = c'.phase.held?.toList)
    (hbrought : c.job = job → ∀ id, c'.phase.brought? = some id → id ∈ l.map (·.execution)) :
    (note job l event).Agrees job x' := by
  have hkept (k : ExecutionId) (hk : k ∈ l.map (·.execution)) : k ∈ (note job l event).map (·.execution) := by
    rw [note_executions]
    exact List.mem_append_left _ hk
  refine ⟨by rw [note_table event h.table hback, hbindings], fun j => ?_, fun j id hb => hkept id ?_⟩
  · rw [Scene.holding?, Scene.call?_after_call there tasks]
    split
    · subst j
      rw [Option.bind_some, hjob]
      split
      · exact hheld ‹_›
      · have hother : note job l event = l := by
          refine if_neg fun e => ‹¬c.job = job› ?_
          rw [hown] at e
          exact Option.some.inj e
        rw [hother, h.held, Scene.holding?, Scene.call?_of_there there, Option.bind_some, if_neg ‹¬c.job = job›]
    · rw [note_held (by rw [hcall]; simpa using Ne.symm ‹¬j = i›), h.held]
      rfl
  · rw [Scene.brought?, Scene.call?_after_call there tasks] at hb
    split at hb
    · rw [Option.bind_some, hjob] at hb
      split at hb
      · exact hbrought ‹_› id hb
      · cases hb
    · exact h.brought j id hb

end Calls

private theorem Agrees.call {i : Nat} {c c' : RollbackCall} (h : l.Agrees job x)
    (there : x.tasks[i]? = some (.rollback c)) (tasks : x'.tasks = x.tasks.set i (.rollback c'))
    (step : c.step? s x.worker = some (c', x'.worker)) :
    ((c.events i c').foldl (note job) l).Agrees job x' := by
  obtain ⟨hjob, hchange⟩ := RollbackCall.step_change i step
  generalize c.events i c' = evs at hchange
  have hbindings := hchange.bindings
  have hheld (hc : c.job = job) : l.inPlace (.held i) = c.phase.held?.toList := by
    rw [h.held, Scene.holding?, Scene.call?_of_there there, Option.bind_some, if_pos hc]
  have hown {event : Event} (hc : c.job = job) (hevent : event.job? = some c.job) : note job l event = l.enter event :=
    if_pos (by rw [hevent, hc])
  cases hchange with
  | takes id before after bound =>
    refine h.handsOver there tasks hjob rfl rfl hbindings (fun _ _ e => by cases e) (fun hc => ?_) (fun _ _ e => ?_)
    · rw [hown hc rfl, enter, inPlace_shift_target, h.table, ← hc, bound, after]
      · rfl
      · rw [hheld hc, before]
        rfl
    · rw [after] at e
      cases e
  | asks id result before after stop bindings =>
    refine h.goesOn there tasks hjob (by rw [after, before]; rfl) ?_ bindings
    rw [before]
    generalize c'.phase = phase at after
    cases phase <;> first | rfl | cases after
  | restores r restored before after =>
    refine h.handsOver there tasks hjob rfl rfl hbindings (fun _ _ e => by cases e) (fun hc => ?_) (fun hc id e => ?_)
    · rw [hown hc rfl, enter, inPlace_shift_source (by simp), after]
      rfl
    · rw [after] at e
      cases e
      exact mem_executions (p := .held i) (by rw [hheld hc, before]; exact List.mem_singleton_self _)
  | returns id f before after =>
    refine h.handsOver there tasks hjob rfl rfl hbindings (fun k other e => ?_) (fun hc => ?_) (fun _ _ e => ?_)
    · cases e
      rw [hheld rfl, before]
      rfl
    · rw [hown hc rfl, enter, inPlace_shift_source (by split <;> simp), after]
      rfl
    · rw [after] at e
      cases e
  | goesOn before held brought bindings => exact h.goesOn there tasks hjob held brought bindings

end Ledger

namespace Event

def isBindingOf (job : JobId) : Event → Bool
  | bound job' _ => job' = job
  | _ => false

/-- A restore that succeeded. -/
def isRestoreOf (job : JobId) : Event → Bool
  | restored _ job' _ => job' = job
  | _ => false

end Event

namespace Ledger

variable {ω : Type} {job : JobId} {s : Surroundings ω} {x x' : Scene ω} {tr evs : List Event} {m : Move ω}

/-- The ledger of a story fits the scene at its end, and every restore has used a binding up. -/
structure Accounts (job : JobId) (tr : List Event) (x : Scene ω) : Prop where
  confined : x.IsConfined
  agrees : (ofStory job tr).Agrees job x
  used : ((ofStory job tr).inPlace .used).length = tr.countP (·.isRestoreOf job)

theorem callOf?_run {r r' : Run ω} {event : Event} (h : event ∈ r.events r') : callOf? event = none := by
  have hhook (hook : Hook) (h : event ∈ hook.events r.execution) : callOf? event = none := by
    unfold Hook.events at h
    grind [callOf?]
  rw [Run.events] at h
  split at h
  · rw [List.mem_singleton.mp h]
    rfl
  · exact hhook _ h
  · exact hhook _ h
  · cases h

theorem callOf?_deed {d : Deed ω} {event : Event} (h : event ∈ d.events) : callOf? event = none := by
  unfold Deed.events at h
  grind [callOf?]

private theorem countP_others (hevs : ∀ event ∈ evs, callOf? event = none) : evs.countP (·.isRestoreOf job) = 0 := by
  rw [List.countP_eq_zero]
  intro event he
  have hnone := hevs event he
  cases event <;> simp [Event.isRestoreOf, callOf?] at hnone ⊢

private theorem used_call {l : Ledger} {i : Nat} {c c' : RollbackCall} (h : l.Agrees job x)
    (there : x.tasks[i]? = some (.rollback c)) (step : c.step? s x.worker = some (c', x'.worker)) :
    (((c.events i c').foldl (note job) l).inPlace .used).length =
      (l.inPlace .used).length + (c.events i c').countP (·.isRestoreOf job) := by
  obtain ⟨hjob, hchange⟩ := RollbackCall.step_change i step
  generalize c.events i c' = evs at hchange
  have hkeep {event : Event} (h : (l.enter event).inPlace .used = l.inPlace .used) :
      (note job l event).inPlace .used = l.inPlace .used := by
    rw [note]
    split
    · exact h
    · rfl
  cases hchange with
  | takes id =>
    have hsame : (note job l (.took i c.job id)).inPlace .used = l.inPlace .used :=
      hkeep (inPlace_shift_other (by simp) (by simp))
    rw [List.foldl_cons, List.foldl_nil, hsame]
    rfl
  | asks => rfl
  | restores r restored before after =>
    by_cases hc : c.job = job
    · have hheld : l.inPlace (.held i) = [r.id] := by
        rw [h.held, Scene.holding?, Scene.call?_of_there there, Option.bind_some, if_pos hc, before]
        rfl
      have hnote : note job l (.restored i c.job r.snapshot) = l.shift (.held i) .used :=
        if_pos (by rw [Event.job?, hc])
      have hone : [Event.restored i c.job r.snapshot].countP (·.isRestoreOf job) = 1 := by
        simp [Event.isRestoreOf, hc]
      rw [List.foldl_cons, List.foldl_nil, hnote, hone, length_inPlace_shift (by simp), hheld, Nat.add_comm]
      rfl
    · have hnote : note job l (.restored i c.job r.snapshot) = l := if_neg (by simpa [Event.job?] using hc)
      simp [hnote, Event.isRestoreOf, hc]
  | returns id =>
    have hplace : Place.used ≠ if l.inPlace .table = [] then .table else .lost := by split <;> simp
    have hsame : (note job l (.returned i c.job id)).inPlace .used = l.inPlace .used :=
      hkeep (inPlace_shift_other (by simp) hplace)
    rw [List.foldl_cons, List.foldl_nil, hsame]
    rfl
  | goesOn => rfl

theorem Accounts.play (h : Accounts job tr x) (hplay : x.play? s m = some (evs, x')) :
    Accounts job (tr ++ evs) x' := by
  have hbindings := Scene.play_bindings h.confined hplay
  have hstory : ofStory job (tr ++ evs) = evs.foldl (note job) (ofStory job tr) := List.foldl_append
  refine ⟨Scene.play_confined h.confined hplay, ?_, ?_⟩ <;> rw [hstory]
  · cases Scene.play_change hplay with
    | run i r r' there step tasks =>
      exact h.agrees.others (fun _ => callOf?_run) (Scene.call?_after_run there tasks) hbindings
    | call i c c' there step tasks => exact h.agrees.call there tasks step
    | timeOut i c c' there late worker tasks =>
      obtain ⟨hjob, -, hheld, hbrought⟩ := RollbackCall.timeOut_held late
      exact h.agrees.goesOn there tasks hjob hheld hbrought (by rw [worker])
    | deed d worker tasks =>
      exact h.agrees.others (fun _ => callOf?_deed) (fun i => by rw [Scene.call?, Scene.call?, tasks]) hbindings
  · rw [List.countP_append, ← h.used]
    cases Scene.play_change hplay with
    | run i r r' there step tasks =>
      rw [countP_others fun _ => callOf?_run, (notes_places (fun _ => callOf?_run) h.agrees.table).2.2]
      rfl
    | call i c c' there step tasks => exact used_call h.agrees there step
    | timeOut => rfl
    | deed d worker tasks =>
      rw [countP_others fun _ => callOf?_deed, (notes_places (fun _ => callOf?_deed) h.agrees.table).2.2]
      rfl

theorem Accounts.nil (hconfined : x.IsConfined) (hunbound : x.worker.bindings.get? job = none)
    (hfresh : x.IsFresh) : Accounts job [] x := by
  refine ⟨hconfined, ⟨by rw [hunbound]; rfl, fun i => ?_, fun i id hb => ?_⟩, rfl⟩
  · rw [Scene.holding?]
    cases hc : x.call? i with
    | none => rfl
    | some c =>
      rw [Option.bind_some, hfresh i c hc]
      split <;> rfl
  · obtain ⟨c, hc, hb⟩ := Option.bind_eq_some_iff.mp hb
    rw [hfresh i c hc] at hb
    split at hb <;> cases hb

theorem mem_of_brought {id : ExecutionId} (h : id ∈ (ofStory job tr).map (·.execution)) :
    .bound job id ∈ tr := by
  rw [executions_ofStory] at h
  obtain ⟨event, hevent, hid⟩ := List.mem_filterMap.mp h
  cases event with
  | bound job' id' =>
    rw [boundTo?] at hid
    split at hid
    · cases hid
      rwa [‹job' = job›] at hevent
    · cases hid
  | _ => cases hid

/-- An execution that was bound once has its binding at one place. -/
theorem one_place {id : ExecutionId} (honce : tr.count (.bound job id) ≤ 1)
    {p q : Place} (hp : id ∈ (ofStory job tr).inPlace p) (hq : id ∈ (ofStory job tr).inPlace q) : p = q := by
  have hrecord {p : Place} (hp : id ∈ (ofStory job tr).inPlace p) :
      ⟨id, p⟩ ∈ (ofStory job tr).filter (·.execution = id) := by
    obtain ⟨r, hr, hid⟩ := List.mem_filterMap.mp hp
    split at hid
    · cases hid
      subst ‹r.place = p›
      exact List.mem_filter.mpr ⟨hr, decide_eq_true rfl⟩
    · cases hid
  have hbound (event : Event) : boundTo? job event = some id ↔ event = .bound job id := by
    cases event with
    | bound job' id' =>
      rw [boundTo?]
      by_cases hjob : job' = job
      · simp [hjob]
      · simp [hjob]
    | _ => simp [boundTo?]
  have hone : ((ofStory job tr).filter (·.execution = id)).length ≤ 1 := by
    calc ((ofStory job tr).filter (·.execution = id)).length
      _ = (ofStory job tr).countP (·.execution = id) := List.countP_eq_length_filter.symm
      _ = ((ofStory job tr).map (·.execution)).count id := by rw [List.count_eq_countP, List.countP_map]; rfl
      _ = tr.countP fun event => boundTo? job event == some id := by rw [executions_ofStory, List.count_filterMap]
      _ = tr.count (.bound job id) := by
        rw [List.count_eq_countP]
        exact List.countP_congr fun event _ => by rw [beq_iff_eq, beq_iff_eq, hbound]
      _ ≤ 1 := honce
  have hfirst := hrecord hp
  have hsecond := hrecord hq
  generalize (ofStory job tr).filter (·.execution = id) = records at hone hfirst hsecond
  match records with
  | [] => cases hfirst
  | [r] =>
    have hsame : (⟨id, p⟩ : BindingRecord) = ⟨id, q⟩ :=
      (List.mem_singleton.mp hfirst).trans (List.mem_singleton.mp hsecond).symm
    cases hsame
    rfl
  | _ :: _ :: _ =>
    rw [List.length_cons, List.length_cons] at hone
    omega

private theorem used_le (h : Accounts job tr x) : tr.countP (·.isRestoreOf job) ≤ tr.countP (·.isBindingOf job) := by
  have hbound (event : Event) : (boundTo? job event).isSome = event.isBindingOf job := by
    cases event with
    | bound job' id =>
      rw [boundTo?, Event.isBindingOf]
      by_cases hjob : job' = job
      · simp [hjob]
      · simp [hjob]
    | _ => rfl
  calc tr.countP (·.isRestoreOf job)
    _ = ((ofStory job tr).inPlace .used).length := h.used.symm
    _ ≤ (ofStory job tr).length := List.length_filterMap_le _ _
    _ = (tr.filterMap (boundTo? job)).length := by rw [← executions_ofStory, List.length_map]
    _ = tr.countP (·.isBindingOf job) := by rw [List.length_filterMap_eq_countP]; simp only [hbound]

private theorem Agrees.at_held {l : Ledger} (h : l.Agrees job x) {i : Nat} {id : ExecutionId}
    (hi : x.holding? job i = some id) : ∃ n : Nat, l[n]? = some (.mk id (.held i) : BindingRecord) := by
  have hmem : id ∈ l.inPlace (.held i) := by
    rw [h.held, hi]
    exact List.mem_singleton_self id
  obtain ⟨r, hr, hid⟩ := List.mem_filterMap.mp hmem
  split at hid
  · cases hid
    obtain ⟨n, hn⟩ := List.getElem?_of_mem hr
    exact ⟨n, by rw [hn, ← ‹r.place = .held i›]⟩
  · cases hid

/-- Whatever the order of steps, and whatever fails: a job is restored at most once for each time that it was bound.
What a call has rolled back was bound to the job, and two calls never hold the same binding. -/
theorem restores_le_bindings (hconfined : x.IsConfined) (hunbound : x.worker.bindings.get? job = none)
    (hfresh : x.IsFresh) {moves : List (Move ω)} (hplay : x.playAll? s moves = some (tr, x')) :
    tr.countP (·.isRestoreOf job) ≤ tr.countP (·.isBindingOf job) ∧
      (∀ i c id message, x'.call? i = some c → c.job = job → c.result? = some (.ok (.rolledBack id message)) →
        .bound job id ∈ tr) ∧
      ∀ i j id, i ≠ j → x'.holding? job i = some id → x'.holding? job j = some id →
        ∃ m n : Nat, m ≠ n ∧ (ofStory job tr)[m]? = some (.mk id (.held i) : BindingRecord) ∧
          (ofStory job tr)[n]? = some (.mk id (.held j) : BindingRecord) := by
  have h : Accounts job ([] ++ tr) x' := Scene.playAll_keeps (fun _ => True)
    (fun _ _ _ _ _ _ h hm => h.play hm) (fun _ _ => trivial) (Accounts.nil hconfined hunbound hfresh) hplay
  rw [List.nil_append] at h
  refine ⟨used_le h, fun i c id message hc hjob hresult => ?_, fun i j id hij hi hj => ?_⟩
  · refine mem_of_brought (h.agrees.brought i id ?_)
    rw [Scene.brought?, hc, Option.bind_some, if_pos hjob]
    obtain ⟨job, phase⟩ := c
    cases phase <;> cases hresult
    rfl
  · obtain ⟨m, hm⟩ := h.agrees.at_held hi
    obtain ⟨n, hn⟩ := h.agrees.at_held hj
    refine ⟨m, n, fun e => hij ?_, hm, hn⟩
    rw [e, hn] at hm
    cases hm
    rfl

/-- A restorer that fails while the world says so, once. -/
def flaky : Surroundings Bool where
  publish _ _ := pure ()
  restorer := { finish := fun _ snapshot => .ofStep fun (files, fails) =>
    (if fails then .error (.storage "disk full") else .ok snapshot, files, false) }

def twoCalls (job : JobId) : Scene Bool where
  worker := { cache := .new 0 [] none, files := .empty [], now := ⟨0, 0⟩, outside := true }
  tasks := [.rollback { job }, .rollback { job }]

/-- The job is bound once. The first call fails and gives the binding back before the second one takes it. -/
def inTurn (job : JobId) : List (Move Bool) :=
  [.deed (.bind 1 job), .deed (.recordSnapshot job "snapshot.json")] ++ List.replicate 6 (.step 0) ++
    List.replicate 6 (.step 1)

private theorem inTurn_events : ((twoCalls ⟨"J1"⟩).playAll? flaky (inTurn ⟨"J1"⟩)).map (·.1) =
    some [.bound ⟨"J1"⟩ 1, .took 0 ⟨"J1"⟩ 1, .stopAsked 0 1, .returned 0 ⟨"J1"⟩ 1, .took 1 ⟨"J1"⟩ 1, .stopAsked 1 1,
      .restored 1 ⟨"J1"⟩ "snapshot.json"] := by
  decide

theorem restores_le_bindings_retry :
    ∃ tr x', (twoCalls ⟨"J1"⟩).playAll? flaky (inTurn ⟨"J1"⟩) = some (tr, x') ∧
      .returned 0 ⟨"J1"⟩ 1 ∈ tr ∧ .restored 1 ⟨"J1"⟩ "snapshot.json" ∈ tr ∧
      tr.countP (·.isRestoreOf ⟨"J1"⟩) ≤ tr.countP (·.isBindingOf ⟨"J1"⟩) := by
  obtain ⟨⟨tr, x'⟩, hplay, htr⟩ := Option.map_eq_some_iff.mp inTurn_events
  have hconfined : (twoCalls ⟨"J1"⟩).IsConfined := fun r hr => by simp [twoCalls] at hr
  have hfresh : (twoCalls ⟨"J1"⟩).IsFresh := by
    intro i c hc
    match i with
    | 0 => cases hc; rfl
    | 1 => cases hc; rfl
    | i + 2 => cases hc
  refine ⟨tr, x', hplay, ?_, ?_, (restores_le_bindings hconfined rfl hfresh hplay).1⟩ <;>
    rw [show tr = _ from htr] <;> decide

end Ledger
end BatchExport
