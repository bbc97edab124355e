import BatchExport.Proofs.Lifecycle.Handles
import BatchExport.Proofs.Lifecycle.Moments
import BatchExport.Proofs.Lifecycle.Scene

/-! Deliveries of messages over one worker: each parks its handle and goes through a run of its own, in any order of
steps. Main statement: a run acknowledges the last handle parked for its job, which may belong to another run. -/
namespace BatchExport

variable {ω : Type}

/-- A message that asks for a job, the handle that confirms it, and the run that it leads to. -/
structure Inbox.Delivery (ω : Type) where
  job : JobId
  handle : Acknowledgement
  isParked : Bool := false
  run : Run ω

structure Inbox (ω : Type) where
  worker : Worker ω
  deliveries : List (Inbox.Delivery ω)

inductive InboxMove (ω : Type) where
  | park (i : Nat)
  | step (i : Nat)
  /-- What others do to the worker. -/
  | change (f : Worker ω → Worker ω)

def Hook.handleEvents (i : Nat) (e : Execution) (w : Worker ω) : Hook → List HandleEvent
  | .acknowledge => e.jobId?.toList.map fun job => .released i job (w.parked.get? job)
  | _ => []

/-- What a step tells that leads from one run to the other. -/
def Run.handleEvents (i : Nat) (w : Worker ω) (r r' : Run ω) : List HandleEvent :=
  match r.phase, r'.phase with
  | .before (hook :: _), _ | .after (hook :: _), _ => hook.handleEvents i r.execution w
  | .deciding, .concluding _ | .working _, .concluding _ => [.finished i]
  | _, _ => []

/-- A delivery parks first and only then begins to run. No answer if the move cannot be made now. -/
def Inbox.play? (s : Surroundings ω) (x : Inbox ω) : InboxMove ω → Option (List HandleEvent × Inbox ω)
  | .park i =>
    x.deliveries[i]?.bind fun d =>
      if d.isParked then none
      else some ([.parked i d.job d.handle],
        { worker := (x.worker.park d.job d.handle).2, deliveries := x.deliveries.set i { d with isParked := true } })
  | .step i =>
    x.deliveries[i]?.bind fun d =>
      if d.isParked then (d.run.step? s x.worker).map fun (run, worker) =>
        (d.run.handleEvents i x.worker run, { worker, deliveries := x.deliveries.set i { d with run } })
      else none
  | .change f => some ([], { x with worker := f x.worker })

/-- Only deliveries and their runs deal with handles. -/
def InboxMove.SparesHandles : InboxMove ω → Prop
  | .change f => ∀ w, (f w).parked = w.parked
  | _ => True

def JobPart.SparesHandles (p : JobPart ω) : Prop := p.act.Keeps fun (_, w) (_, w') => w'.parked = w.parked

/-- Nothing has been parked, and each delivery has a handle of its own. -/
structure Inbox.IsFresh (x : Inbox ω) : Prop where
  registry : ∀ job, x.worker.parked.get? job = none
  handles : (x.deliveries.map Delivery.handle).Nodup
  waiting : ∀ d ∈ x.deliveries, d.isParked = false ∧ d.run.phase = .starting ∧ d.run.execution.jobId? = some d.job
  parts : ∀ d ∈ x.deliveries, ∀ p ∈ d.run.job, p.KeepsJob ∧ p.SparesHandles

namespace Run

variable {s : Surroundings ω} {r r' : Run ω} {w w' : Worker ω} {job : JobId} {i : Nat} {tr : List HandleEvent}

/-- A run acknowledges nothing before its body is over. -/
def BodyFirst (i : Nat) (tr : List HandleEvent) (r : Run ω) : Prop :=
  match r.phase with
  | .before hooks => .acknowledge ∉ hooks
  | .concluding _ | .leaving | .after _ | .ended => .finished i ∈ tr
  | _ => True

private theorem acknowledge_not_mem_before (listeners : List Listener) :
    .acknowledge ∉ listeners.flatMap Listener.before := by
  intro hmem
  obtain ⟨l, -, hl⟩ := List.mem_flatMap.mp hmem
  cases l with
  | rollback => cases hl
  | observer name => simp [Listener.before] at hl
  | notifier described => simp [Listener.before] at hl

private theorem acknowledge_not_mem_act (hook : Hook) (s : Surroundings ω) (e : Execution) (w : Worker ω) :
    .acknowledge ∉ (hook.act s e w).1 := by
  obtain hnone | ⟨-, hone⟩ := hook.act_more s e w
  · rw [hnone]
    exact List.not_mem_nil
  · rw [hone]
    simp

private theorem handleEvents_hook (hjob : r.execution.jobId? = some job) (hook : Hook) :
    (hook = .acknowledge ∧ hook.handleEvents i r.execution w = [.released i job (w.parked.get? job)] ∧
      (hook.act s r.execution w).2.parked = w.parked.erase job) ∨
    (hook ≠ .acknowledge ∧ hook.handleEvents i r.execution w = [] ∧
      (hook.act s r.execution w).2.parked = w.parked) := by
  by_cases hhook : hook = .acknowledge
  · subst hhook
    refine .inl ⟨rfl, ?_, Hook.acknowledge_parked hjob⟩
    rw [Hook.handleEvents, hjob]
    rfl
  · refine .inr ⟨hhook, ?_, Hook.act_parked hhook⟩
    cases hook with
    | acknowledge => exact absurd rfl hhook
    | _ => rfl

/-- A step tells that the body is over, or it takes what is parked for the job, or it tells nothing. -/
theorem step_handles (hjob : r.execution.jobId? = some job) (hparts : ∀ p ∈ r.parts, p.SparesHandles)
    (h : r.BodyFirst i tr) (hstep : r.step? s w = some (r', w')) :
    r'.BodyFirst i (tr ++ r.handleEvents i w r') ∧
      ((w'.parked = w.parked ∧ (r.handleEvents i w r' = [] ∨ r.handleEvents i w r' = [.finished i])) ∨
        (.finished i ∈ tr ∧ w'.parked = w.parked.erase job ∧
          r.handleEvents i w r' = [.released i job (w.parked.get? job)])) := by
  obtain ⟨listeners, jobParts, e, phase⟩ := r
  cases phase with
  | ended => cases hstep
  | starting =>
    cases hstep
    exact ⟨acknowledge_not_mem_before listeners, .inl ⟨rfl, .inl rfl⟩⟩
  | before hooks =>
    cases hooks with
    | nil =>
      cases hstep
      exact ⟨trivial, .inl ⟨rfl, .inl rfl⟩⟩
    | cons hook rest =>
      rw [step?_before] at hstep
      cases hstep
      obtain ⟨hhook, hrest⟩ := not_or.mp (mt List.mem_cons.mpr h)
      obtain ⟨rfl, -⟩ | ⟨-, hevents, hparked⟩ := handleEvents_hook (s := s) (i := i) (w := w) hjob hook
      · exact absurd rfl hhook
      · refine ⟨?_, .inl ⟨hparked, .inl hevents⟩⟩
        intro hmem
        obtain hmem | hmem := List.mem_append.mp hmem
        · exact acknowledge_not_mem_act hook s e w hmem
        · exact hrest hmem
  | deciding =>
    simp only [step?] at hstep
    split at hstep
    · cases hstep
      exact ⟨List.mem_append_right _ List.mem_cons_self, .inl ⟨rfl, .inr rfl⟩⟩
    · cases hstep
      exact ⟨trivial, .inl ⟨rfl, .inl rfl⟩⟩
  | working parts =>
    cases parts with
    | nil =>
      cases hstep
      exact ⟨List.mem_append_right _ List.mem_cons_self, .inl ⟨rfl, .inr rfl⟩⟩
    | cons part rest =>
      have hpart : part.SparesHandles := hparts part (List.mem_append_right _ List.mem_cons_self)
      obtain ⟨e', hact, rfl⟩ | ⟨f, e', hact, rfl⟩ := step_working hstep
      · exact ⟨trivial, .inl ⟨hpart _ _ _ hact, .inl rfl⟩⟩
      · exact ⟨List.mem_append_right _ List.mem_cons_self, .inl ⟨hpart _ _ _ hact, .inr rfl⟩⟩
  | concluding result =>
    cases hstep
    exact ⟨List.mem_append_left _ h, .inl ⟨rfl, .inl rfl⟩⟩
  | leaving =>
    cases hstep
    exact ⟨List.mem_append_left _ h, .inl ⟨rfl, .inl rfl⟩⟩
  | after hooks =>
    cases hooks with
    | nil =>
      cases hstep
      exact ⟨List.mem_append_left _ h, .inl ⟨rfl, .inl rfl⟩⟩
    | cons hook rest =>
      rw [step?_after] at hstep
      cases hstep
      refine ⟨List.mem_append_left _ h, ?_⟩
      obtain ⟨-, hevents, hparked⟩ | ⟨-, hevents, hparked⟩ := handleEvents_hook (s := s) (i := i) (w := w) hjob hook
      · exact .inr ⟨h, hparked, hevents⟩
      · exact .inl ⟨hparked, .inl hevents⟩

theorem BodyFirst.mono {evs : List HandleEvent} (h : r.BodyFirst i tr) : r.BodyFirst i (tr ++ evs) := by
  obtain ⟨listeners, parts, e, phase⟩ := r
  cases phase with
  | before hooks => exact h
  | concluding result => exact List.mem_append_left _ h
  | leaving => exact List.mem_append_left _ h
  | after hooks => exact List.mem_append_left _ h
  | ended => exact List.mem_append_left _ h
  | _ => trivial

end Run

namespace Inbox

variable {s : Surroundings ω} {x x' : Inbox ω} {tr evs : List HandleEvent} {i : Nat} {d d' : Delivery ω}

/-- How a delivery stands after a story. -/
structure Delivery.Fits (i : Nat) (tr : List HandleEvent) (d : Delivery ω) : Prop where
  job : d.run.execution.jobId? = some d.job
  parts : ∀ p ∈ d.run.parts, p.KeepsJob ∧ p.SparesHandles
  parked : d.isParked = true → .parked i d.job d.handle ∈ tr
  body : d.run.BodyFirst i tr

theorem Delivery.Fits.mono (h : d.Fits i tr) : d.Fits i (tr ++ evs) where
  job := h.job
  parts := h.parts
  parked hparked := List.mem_append_left _ (h.parked hparked)
  body := h.body.mono

/-- The worker keeps what is pending, and whoever has parked says so. -/
structure Accounts (tr : List HandleEvent) (x : Inbox ω) : Prop where
  lawful : HandleEvent.Lawful tr
  registry : ∀ job, x.worker.parked.get? job = (HandleEvent.pending job tr).map Prod.snd
  handles : (x.deliveries.map Delivery.handle).Nodup
  parked : ∀ i job a, .parked i job a ∈ tr → ∃ d, x.deliveries[i]? = some d ∧ d.isParked = true ∧ d.handle = a
  deliveries : ∀ (i : Nat) (d : Delivery ω), x.deliveries[i]? = some d → d.Fits i tr

theorem IsFresh.accounts (h : x.IsFresh) : Accounts [] x where
  lawful := HandleEvent.lawful_nil
  registry := h.registry
  handles := h.handles
  parked i job a hmem := by cases hmem
  deliveries i d there := by
    have hmem : d ∈ x.deliveries := List.mem_of_getElem? there
    obtain ⟨hwaiting, hphase, hjob⟩ := h.waiting d hmem
    refine ⟨hjob, ?_, ?_, ?_⟩
    · intro p hp
      rw [Run.parts, hphase] at hp
      exact h.parts d hmem p (by simpa using hp)
    · intro hparked
      rw [hwaiting] at hparked
      cases hparked
    · rw [Run.BodyFirst, hphase]
      trivial

/-- One delivery changes, and the worker with it. -/
private theorem Accounts.set (h : Accounts tr x) (there : x.deliveries[i]? = some d) (hfits : d'.Fits i (tr ++ evs))
    (hhandle : d'.handle = d.handle) (hparked : d.isParked = true → d'.isParked = true) {worker : Worker ω}
    (hlawful : HandleEvent.Lawful (tr ++ evs))
    (hregistry : ∀ job, worker.parked.get? job = (HandleEvent.pending job (tr ++ evs)).map Prod.snd)
    (hevs : ∀ k job a, .parked k job a ∈ evs → k = i ∧ a = d.handle ∧ d'.isParked = true) :
    Accounts (tr ++ evs) { worker, deliveries := x.deliveries.set i d' } := by
  have hlt : i < x.deliveries.length := (List.getElem?_eq_some_iff.mp there).1
  have hthere : (x.deliveries.set i d')[i]? = some d' := by rw [List.getElem?_set_self hlt]
  refine ⟨hlawful, hregistry, ?_, ?_, ?_⟩
  · have hsame : (x.deliveries.set i d').map Delivery.handle = x.deliveries.map Delivery.handle := by
      obtain ⟨_, hget⟩ := List.getElem?_eq_some_iff.mp there
      have hlt' : i < (x.deliveries.map Delivery.handle).length := by rwa [List.length_map]
      have hget' : (x.deliveries.map Delivery.handle)[i] = d.handle := by rw [List.getElem_map, hget]
      rw [List.map_set, hhandle, ← hget', List.set_getElem_self]
    rw [hsame]
    exact h.handles
  · intro k job a hmem
    by_cases hk : k = i
    · subst hk
      refine ⟨d', hthere, ?_⟩
      obtain hmem | hmem := List.mem_append.mp hmem
      · obtain ⟨d₀, there₀, hparked₀, hhandle₀⟩ := h.parked k job a hmem
        cases there.symm.trans there₀
        exact ⟨hparked hparked₀, hhandle.trans hhandle₀⟩
      · obtain ⟨-, rfl, hparked'⟩ := hevs k job a hmem
        exact ⟨hparked', hhandle⟩
    · obtain hmem | hmem := List.mem_append.mp hmem
      · obtain ⟨d₀, there₀, hd₀⟩ := h.parked k job a hmem
        exact ⟨d₀, by rw [List.getElem?_set_ne (Ne.symm hk), there₀], hd₀⟩
      · exact absurd (hevs k job a hmem).1 hk
  · intro k d₀ there₀
    by_cases hk : k = i
    · subst hk
      cases hthere.symm.trans there₀
      exact hfits
    · rw [List.getElem?_set_ne (Ne.symm hk)] at there₀
      exact (h.deliveries k d₀ there₀).mono

private theorem Accounts.park (h : Accounts tr x) (there : x.deliveries[i]? = some d) (hwaiting : d.isParked = false) :
    Accounts (tr ++ [.parked i d.job d.handle])
      { worker := (x.worker.park d.job d.handle).2, deliveries := x.deliveries.set i { d with isParked := true } } := by
  have hfits := h.deliveries i d there
  have hfollows : (HandleEvent.parked i d.job d.handle).Follows tr := by
    intro k job b hmem
    obtain ⟨d₀, there₀, hparked₀, rfl⟩ := h.parked k job b hmem
    have hne : k ≠ i := by
      rintro rfl
      cases there.symm.trans there₀
      rw [hwaiting] at hparked₀
      cases hparked₀
    refine ⟨hne, ?_⟩
    intro hsame
    have hlt : k < (x.deliveries.map Delivery.handle).length := by
      rw [List.length_map]
      exact (List.getElem?_eq_some_iff.mp there₀).1
    refine hne ((List.getElem?_inj hlt h.handles).mp ?_)
    rw [List.getElem?_map, List.getElem?_map, there, there₀, Option.map_some, Option.map_some, hsame]
  have hfits' : ({ d with isParked := true } : Delivery ω).Fits i (tr ++ [.parked i d.job d.handle]) :=
    ⟨hfits.job, hfits.parts, fun _ => List.mem_append_right _ List.mem_cons_self, hfits.body.mono⟩
  refine h.set there hfits' rfl (fun _ => rfl) (HandleEvent.lawful_snoc.mpr ⟨h.lawful, hfollows⟩) ?_ ?_
  · intro job
    rw [HandleEvent.pending_snoc, HandleEvent.applyTo]
    have hget : ((x.worker.park d.job d.handle).2.parked).get? job =
        if job = d.job then some d.handle else x.worker.parked.get? job := Registry.get?_put _ _ _ _
    rw [hget, h.registry]
    split <;> rfl
  · intro k job a hmem
    cases List.mem_singleton.mp hmem
    exact ⟨rfl, rfl, rfl⟩

private theorem Accounts.step (h : Accounts tr x) (there : x.deliveries[i]? = some d) (hparked : d.isParked = true)
    {r : Run ω} {w : Worker ω} (hstep : d.run.step? s x.worker = some (r, w)) :
    Accounts (tr ++ d.run.handleEvents i x.worker r)
      { worker := w, deliveries := x.deliveries.set i { d with run := r } } := by
  have hfits := h.deliveries i d there
  obtain ⟨hbody, hevents⟩ := Run.step_handles hfits.job (fun p hp => (hfits.parts p hp).2) hfits.body hstep
  have hjob : r.execution.jobId? = some d.job := by
    rw [Run.step_jobId? (fun p hp => (hfits.parts p hp).1) hstep]
    exact hfits.job
  have hfits' : ({ d with run := r } : Delivery ω).Fits i (tr ++ d.run.handleEvents i x.worker r) :=
    ⟨hjob, fun p hp => hfits.parts p (Run.step_parts hstep hp), hfits.mono.parked, hbody⟩
  obtain ⟨hregistry, hnone | hfinished⟩ | ⟨hfinished, hregistry, hreleased⟩ := hevents
  · rw [hnone] at hfits' ⊢
    refine h.set there hfits' rfl id ?_ ?_ ?_
    · rw [List.append_nil]
      exact h.lawful
    · intro job
      rw [hregistry, List.append_nil]
      exact h.registry job
    · intro k job a hmem
      cases hmem
  · rw [hfinished] at hfits' ⊢
    refine h.set there hfits' rfl id (HandleEvent.lawful_snoc.mpr ⟨h.lawful, trivial⟩) ?_ ?_
    · intro job
      rw [hregistry, HandleEvent.pending_snoc]
      exact h.registry job
    · intro k job a hmem
      cases List.mem_singleton.mp hmem
  · rw [hreleased] at hfits' ⊢
    have hfollows : (HandleEvent.released i d.job (x.worker.parked.get? d.job)).Follows tr :=
      ⟨hfinished, ⟨d.handle, hfits.parked hparked⟩, h.registry d.job⟩
    refine h.set there hfits' rfl id (HandleEvent.lawful_snoc.mpr ⟨h.lawful, hfollows⟩) ?_ ?_
    · intro job
      rw [hregistry, Registry.get?_erase, h.registry, HandleEvent.pending_snoc, HandleEvent.applyTo]
      split <;> rfl
    · intro k job a hmem
      cases List.mem_singleton.mp hmem

private theorem Accounts.play {m : InboxMove ω} (hspares : m.SparesHandles) (h : Accounts tr x)
    (hplay : x.play? s m = some (evs, x')) : Accounts (tr ++ evs) x' := by
  cases m with
  | park i =>
    obtain ⟨d, there, hplay⟩ := Option.bind_eq_some_iff.mp hplay
    split at hplay
    · cases hplay
    · rename_i hwaiting
      cases hplay
      exact h.park there (Bool.eq_false_iff.mpr hwaiting)
  | step i =>
    obtain ⟨d, there, hplay⟩ := Option.bind_eq_some_iff.mp hplay
    split at hplay
    · rename_i hparked
      obtain ⟨⟨r, w⟩, hstep, heq⟩ := Option.map_eq_some_iff.mp hplay
      cases heq
      exact h.step there hparked hstep
    · cases hplay
  | change f =>
    cases hplay
    rw [List.append_nil]
    refine ⟨h.lawful, ?_, h.handles, h.parked, h.deliveries⟩
    intro job
    rw [hspares]
    exact h.registry job

/-- In every order of steps no handle is acknowledged twice, and what a run acknowledges is the last handle parked for
its job, if no run has taken it since. So the run of a delivery may acknowledge the handle of another one, whose body
is not over; a handle is acknowledged after the body of its own run if no delivery for the same job parks while that of
another one is under way. -/
theorem story_acknowledges (hfresh : x.IsFresh) {moves : List (InboxMove ω)} (hmoves : ∀ m ∈ moves, m.SparesHandles)
    (hplay : story? (play? s) x moves = some (tr, x')) :
    (∀ a, tr.countP (HandleEvent.acknowledges a) ≤ 1) ∧
    (∀ before k job found after, tr = before ++ .released k job found :: after →
      .finished k ∈ before ∧ found = (HandleEvent.pending job before).map Prod.snd) ∧
    (∀ i job a, .parked i job a ∈ tr → (HandleEvent.AfterBody tr i a ↔
      ∀ before k found after, tr = before ++ .released k job found :: after →
        HandleEvent.pending job before = some (i, a) → .finished i ∈ before)) ∧
    (¬ HandleEvent.Overlap tr → ∀ i job a, .parked i job a ∈ tr → HandleEvent.AfterBody tr i a) := by
  have haccounts : Accounts ([] ++ tr) x' :=
    story_keeps InboxMove.SparesHandles (fun _ _ _ _ _ hm h hplay => h.play hm hplay) hmoves hfresh.accounts hplay
  rw [List.nil_append] at haccounts
  have hlawful := haccounts.lawful
  refine ⟨hlawful.acknowledged_once, ?_, ?_, ?_⟩
  · intro before k job found after hsplit
    obtain ⟨hfinished, -, hfound⟩ := hlawful before _ after hsplit
    exact ⟨hfinished, hfound⟩
  · intro i job a hparked
    exact hlawful.afterBody_iff hparked
  · intro hturns i job a hparked
    exact hlawful.afterBody hturns hparked

end Inbox

namespace Redelivery

def job : JobId := ⟨"J1"⟩

def delivery (id : ExecutionId) (handle : Acknowledgement) : Inbox.Delivery Unit where
  job
  handle
  run := {
    listeners := [.notifier []]
    job := [.ofChange fun e w => (e.putContext "rows" "2", w)]
    execution := .new id "orders-export" [(Key.jobId, "J1")] ⟨0, 0⟩ }

/-- A message that is delivered twice. -/
def inbox : Inbox Unit where
  worker := { cache := .new 0 [] none, files := .empty [], now := ⟨0, 0⟩, outside := () }
  deliveries := [delivery 1 ⟨"first"⟩, delivery 2 ⟨"second"⟩]

theorem inbox_isFresh : inbox.IsFresh where
  registry job := rfl
  handles := by decide
  waiting := by
    intro d hd
    simp only [inbox, List.mem_cons, List.not_mem_nil, or_false] at hd
    obtain rfl | rfl := hd
    · exact ⟨rfl, rfl, by decide⟩
    · exact ⟨rfl, rfl, by decide⟩
  parts := by
    have hpart : ∀ p ∈ (delivery 1 ⟨"first"⟩).run.job, p.KeepsJob ∧ p.SparesHandles := by
      intro p hp
      rw [List.mem_singleton.mp hp]
      constructor
      · rintro ⟨e, w⟩ result ⟨e', w'⟩ hrun
        cases hrun
        rfl
      · rintro ⟨e, w⟩ result ⟨e', w'⟩ hrun
        cases hrun
        rfl
    intro d hd
    simp only [inbox, List.mem_cons, List.not_mem_nil, or_false] at hd
    obtain rfl | rfl := hd
    · exact hpart
    · exact hpart

/-- A delivery goes through its run, to the end. -/
def run (i : Nat) : List (InboxMove Unit) := List.replicate 12 (.step i)

/-- The second delivery parks before the run of the first one begins. -/
def hurried : List (InboxMove Unit) := [.park 0, .park 1] ++ run 0

def inTurn : List (InboxMove Unit) := .park 0 :: run 0 ++ .park 1 :: run 1

private theorem hurried_events : (story? (Inbox.play? .quiet) inbox hurried).map Prod.fst =
    some [.parked 0 job ⟨"first"⟩, .parked 1 job ⟨"second"⟩, .finished 0, .released 0 job (some ⟨"second"⟩)] := by
  decide

/-- A handle confirms its message while the run of that delivery has not begun. -/
theorem confirmed_early :
    inbox.IsFresh ∧ (∀ m ∈ hurried, m.SparesHandles) ∧
      ∃ tr x', story? (Inbox.play? .quiet) inbox hurried = some (tr, x') ∧
        .parked 1 job ⟨"second"⟩ ∈ tr ∧ ¬ HandleEvent.AfterBody tr 1 ⟨"second"⟩ := by
  refine ⟨inbox_isFresh, ?_, ?_⟩
  · simp [hurried, run, InboxMove.SparesHandles]
  · obtain ⟨⟨tr, x'⟩, hplay, htr⟩ := Option.map_eq_some_iff.mp hurried_events
    dsimp only at htr
    subst htr
    refine ⟨_, x', hplay, by simp, ?_⟩
    intro hafter
    have hfinished : HandleEvent.finished 1 ∈ _ := hafter [_, _, _] 0 job [] rfl
    simp at hfinished

private theorem inTurn_events : (story? (Inbox.play? .quiet) inbox inTurn).map Prod.fst =
    some [.parked 0 job ⟨"first"⟩, .finished 0, .released 0 job (some ⟨"first"⟩), .parked 1 job ⟨"second"⟩, .finished 1,
      .released 1 job (some ⟨"second"⟩)] := by
  decide

private theorem inTurn_turns : ¬ HandleEvent.Overlap [.parked 0 job ⟨"first"⟩, .finished 0,
    .released 0 job (some ⟨"first"⟩), .parked 1 job ⟨"second"⟩, .finished 1, .released 1 job (some ⟨"second"⟩)] := by
  rintro ⟨before, middle, after, i, k, job', a, b, found, -, hmem, hsplit⟩
  simp only [List.cons_eq_append_iff, List.cons.injEq, HandleEvent.parked.injEq, reduceCtorEq, false_and, and_false,
    List.append_eq_nil_iff, and_self, List.nil_eq, exists_const, or_self, or_false, ↓existsAndEq, true_and,
    false_or] at hsplit
  obtain ⟨rfl, -⟩ | ⟨rfl, -, hlater⟩ := hsplit
  · cases hmem
  · have hk : k = 0 := by
      simp only [List.mem_cons, HandleEvent.parked.injEq, reduceCtorEq, List.not_mem_nil, or_false] at hmem
      exact hmem.1
    have hreleased : HandleEvent.released k job' found ∈ [.finished 1, .released 1 job (some ⟨"second"⟩)] := by
      rw [← hlater]
      simp
    simp [hk] at hreleased

theorem story_acknowledges_in_turn :
    ∃ tr x', story? (Inbox.play? .quiet) inbox inTurn = some (tr, x') ∧
      tr.countP (HandleEvent.acknowledges ⟨"first"⟩) ≤ 1 ∧ HandleEvent.AfterBody tr 0 ⟨"first"⟩ ∧
      HandleEvent.AfterBody tr 1 ⟨"second"⟩ ∧ .released 1 job (some ⟨"second"⟩) ∈ tr := by
  have hmoves : ∀ m ∈ inTurn, m.SparesHandles := by simp [inTurn, run, InboxMove.SparesHandles]
  obtain ⟨⟨tr, x'⟩, hplay, htr⟩ := Option.map_eq_some_iff.mp inTurn_events
  dsimp only at htr
  obtain ⟨honce, -, -, hturns⟩ := Inbox.story_acknowledges inbox_isFresh hmoves hplay
  rw [htr] at hplay hturns honce
  have hafter := hturns inTurn_turns
  exact ⟨_, x', hplay, honce _, hafter 0 job _ (by simp), hafter 1 job _ (by simp), by simp⟩

end Redelivery
end BatchExport
