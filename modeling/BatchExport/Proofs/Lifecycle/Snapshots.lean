import BatchExport.Proofs.Lifecycle.Ledger

/-! What becomes of the snapshot that is recorded for a job. Main statement: a rollback is handed what the launch has
recorded exactly if no other launch has recorded another one since and the end of no other execution has removed it. -/
namespace BatchExport

variable {ω : Type}

inductive SnapshotChange where
  | recorded (snapshot : String)
  /-- By the completion or the rollback of an execution, or by a release. -/
  | removed (through? : Option ExecutionId)
  deriving DecidableEq

namespace SnapshotChange

/-- The last change counts. -/
def applyTo (_ : Option String) : SnapshotChange → Option String
  | recorded snapshot => some snapshot
  | removed _ => none

end SnapshotChange

/-- The work of a job leaves the recorded snapshots alone. -/
def JobPart.SparesSnapshots (p : JobPart ω) : Prop := p.act.Keeps fun (_, w) (_, w') => w'.snapshots = w.snapshots

def Deed.snapshotChanges (job : JobId) : Deed ω → List SnapshotChange
  | recordSnapshot job' snapshot => if job' = job then [.recorded snapshot] else []
  | dropSnapshot job' => if job' = job then [.removed none] else []
  | _ => []

namespace Hook

variable {s : Surroundings ω} {e : Execution} {w : Worker ω} {hook : Hook} {job : JobId}

def snapshotChanges (job : JobId) (e : Execution) : Hook → List SnapshotChange
  | forgetSnapshot => if e.jobId? = some job then [.removed (some e.id)] else []
  | _ => []

theorem act_snapshots : (hook.act s e w).2.snapshots.get? job =
    (hook.snapshotChanges job e).foldl SnapshotChange.applyTo (w.snapshots.get? job) := by
  cases hook with
  | observe moment name => rfl
  | publish described => unfold act; cases e.jobId? <;> rfl
  | acknowledge =>
    rw [act]
    cases e.jobId? with
    | none => rfl
    | some own =>
      obtain ⟨parked, outside, heq⟩ := acknowledgeJob_eq s w own
      dsimp only
      rw [heq]
      rfl
  | cleanUp =>
    rw [act]
    cases e.jobId? with
    | none => rfl
    | some own =>
      dsimp only
      rw [cleanUpFiles]
      split <;> rfl
  | forgetBinding => unfold act; cases e.status <;> cases e.jobId? <;> rfl
  | forgetSnapshot =>
    rw [act, snapshotChanges]
    cases e.jobId? with
    | none => rfl
    | some own =>
      dsimp only
      rw [Registry.get?_erase]
      by_cases hown : job = own
      · rw [if_pos hown, if_pos (congrArg some hown.symm)]
        rfl
      · rw [if_neg hown, if_neg fun heq => hown (Option.some.inj heq).symm]
        rfl

/-- Only a completed execution that is still bound forgets its snapshot. -/
theorem forgets (h : .forgetSnapshot ∈ (hook.act s e w).1) :
    ∃ own, e.jobId? = some own ∧ w.bindings.get? own = some e.id ∧ hook.events e = [.released own e.id] := by
  cases hook with
  | observe moment name => cases h
  | publish described => unfold act at h; cases hown : e.jobId? <;> rw [hown] at h <;> cases h
  | acknowledge => unfold act at h; cases hown : e.jobId? <;> rw [hown] at h <;> cases h
  | cleanUp => unfold act at h; cases hown : e.jobId? <;> rw [hown] at h <;> cases h
  | forgetSnapshot => unfold act at h; cases hown : e.jobId? <;> rw [hown] at h <;> cases h
  | forgetBinding =>
    simp only [act] at h
    split at h
    · rename_i own hstatus hown
      by_cases hbound : w.bindings.get? own = some e.id
      · refine ⟨own, hown, hbound, ?_⟩
        rw [events, if_pos hstatus, hown]
        rfl
      · rw [Bindings.forgetExecution, if_neg hbound] at h
        cases h
    · cases h

end Hook

namespace Run

variable {s : Surroundings ω} {r r' : Run ω} {w w' : Worker ω} {job : JobId}

/-- The steps of listeners that are left to do. -/
def hooks (r : Run ω) : List Hook :=
  match r.phase with
  | .before hooks | .after hooks => hooks
  | _ => []

/-- What the next step does to the snapshot. -/
def snapshotChanges (job : JobId) (r : Run ω) : List SnapshotChange :=
  match r.hooks with
  | [] => []
  | hook :: _ => hook.snapshotChanges job r.execution

theorem step_snapshots (hspares : ∀ p ∈ r.parts, p.SparesSnapshots) (h : r.step? s w = some (r', w')) :
    w'.snapshots.get? job = (r.snapshotChanges job).foldl SnapshotChange.applyTo (w.snapshots.get? job) := by
  obtain ⟨listeners, parts, execution, phase⟩ := r
  cases phase with
  | ended => cases h
  | before hooks =>
    cases hooks with
    | nil =>
      cases h
      rfl
    | cons hook rest =>
      cases h
      exact Hook.act_snapshots
  | after hooks =>
    cases hooks with
    | nil =>
      cases h
      rfl
    | cons hook rest =>
      cases h
      exact Hook.act_snapshots
  | working parts =>
    cases parts with
    | nil =>
      cases h
      rfl
    | cons part rest =>
      have hpart : part.SparesSnapshots := hspares part (List.mem_append_right _ List.mem_cons_self)
      have hsame : w'.snapshots = w.snapshots := by
        obtain ⟨e', hact, -⟩ | ⟨f, e', hact, -⟩ := step_working h
        · exact hpart (execution, w) _ (e', w') hact
        · exact hpart (execution, w) _ (e', w') hact
      rw [hsame]
      rfl
  | _ =>
    cases h
    rfl

theorem forgets_of_change {id : ExecutionId} (h : .removed (some id) ∈ r.snapshotChanges job) :
    .forgetSnapshot ∈ r.hooks ∧ r.execution.id = id ∧ r.execution.jobId? = some job := by
  rw [snapshotChanges] at h
  split at h
  · cases h
  · rename_i hook rest hhooks
    rw [hhooks]
    cases hook with
    | forgetSnapshot =>
      rw [Hook.snapshotChanges] at h
      split at h
      · cases List.mem_singleton.mp h
        exact ⟨List.mem_cons_self, rfl, ‹_›⟩
      · cases h
    | _ => cases h

/-- What is left to forget was left before, or a completed execution has just been released. -/
theorem step_forgets (h : r.step? s w = some (r', w')) (hforgets : .forgetSnapshot ∈ r'.hooks) :
    r'.execution = r.execution ∧ (.forgetSnapshot ∈ r.hooks ∨
      ∃ own, r.execution.jobId? = some own ∧ w.bindings.get? own = some r.execution.id ∧
        r.events r' = [.released own r.execution.id]) := by
  obtain ⟨listeners, parts, execution, phase⟩ := r
  cases phase with
  | ended => cases h
  | starting =>
    cases h
    obtain ⟨listener, -, hhook⟩ := List.mem_flatMap.mp hforgets
    cases listener <;> simp [Listener.before] at hhook
  | before hooks =>
    cases hooks with
    | nil =>
      cases h
      cases hforgets
    | cons hook rest =>
      cases h
      rcases List.mem_append.mp hforgets with hmore | hrest
      · exact ⟨rfl, .inr (Hook.forgets hmore)⟩
      · exact ⟨rfl, .inl (List.mem_cons_of_mem hook hrest)⟩
  | deciding =>
    simp only [step?] at h
    split at h <;> cases h <;> cases hforgets
  | working parts =>
    cases parts with
    | nil =>
      cases h
      cases hforgets
    | cons part rest => obtain ⟨e', -, rfl⟩ | ⟨f, e', -, rfl⟩ := step_working h <;> cases hforgets
  | concluding result =>
    cases h
    cases hforgets
  | leaving =>
    cases h
    obtain ⟨listener, -, hhook⟩ := List.mem_flatMap.mp hforgets
    cases listener <;> simp [Listener.after] at hhook
  | after hooks =>
    cases hooks with
    | nil =>
      cases h
      cases hforgets
    | cons hook rest =>
      cases h
      rcases List.mem_append.mp hforgets with hmore | hrest
      · exact ⟨rfl, .inr (Hook.forgets hmore)⟩
      · exact ⟨rfl, .inl (List.mem_cons_of_mem hook hrest)⟩

end Run

/-- A call does not hold any more what it has brought back. -/
theorem RollbackPhase.brought?_of_held {id : ExecutionId} (phase : RollbackPhase) (h : phase.held? = some id) :
    phase.brought? = none := by
  cases phase with
  | forgetting r restored => cases h
  | ended result => cases h
  | _ => rfl

namespace RollbackCall

variable {s : Surroundings ω} {c c' : RollbackCall} {w w' : Worker ω} {job : JobId}

/-- What the next step does to the snapshot: only the one that was restored is removed. -/
def snapshotChanges (job : JobId) (c : RollbackCall) (w : Worker ω) : List SnapshotChange :=
  match c.phase with
  | .forgetting r _ => if c.job = job ∧ w.snapshots.get? job = some r.snapshot then [.removed (some r.id)] else []
  | _ => []

theorem brought?_of_change {id : ExecutionId} (h : .removed (some id) ∈ c.snapshotChanges job w) :
    c.job = job ∧ c.phase.brought? = some id := by
  rw [snapshotChanges] at h
  split at h
  · rename_i r restored hphase
    split at h
    · cases List.mem_singleton.mp h
      rw [hphase]
      exact ⟨‹c.job = job ∧ _›.1, rfl⟩
    · cases h
  · cases h

theorem step_snapshots (h : c.step? s w = some (c', w')) :
    w'.snapshots.get? job = (c.snapshotChanges job w).foldl SnapshotChange.applyTo (w.snapshots.get? job) := by
  obtain ⟨own, phase⟩ := c
  cases phase with
  | ended result => cases h
  | taking =>
    simp only [step?] at h
    split at h <;> cases h <;> rfl
  | stopping id =>
    obtain ⟨⟨result, running, outside⟩, -, heq⟩ := Option.map_eq_some_iff.mp h
    cases heq
    rfl
  | awaiting id =>
    obtain ⟨⟨result, outside⟩, -, heq⟩ := Option.map_eq_some_iff.mp h
    cases heq
    rfl
  | waiting id =>
    simp only [step?] at h
    split at h <;> cases h
    rfl
  | choosing id stopped =>
    simp only [step?] at h
    split at h <;> cases h <;> rfl
  | handing r =>
    cases h
    rfl
  | underway r =>
    obtain ⟨⟨result, files, outside⟩, -, heq⟩ := Option.map_eq_some_iff.mp h
    cases heq
    rfl
  | reinstating id f =>
    cases h
    rfl
  | forgetting r restored =>
    cases h
    rw [snapshotChanges]
    dsimp only
    by_cases hown : own = job
    · subst hown
      by_cases hsame : w.snapshots.get? own = some r.snapshot
      · rw [if_pos hsame, if_pos ⟨rfl, hsame⟩, Registry.get?_erase, if_pos rfl]
        rfl
      · rw [if_neg hsame, if_neg fun hboth => hsame hboth.2]
        rfl
    · have hother : ¬(own = job ∧ w.snapshots.get? job = some r.snapshot) := fun hboth => hown hboth.1
      rw [if_neg hother]
      split
      · rw [Registry.get?_erase, if_neg (Ne.symm hown)]
        rfl
      · rfl

end RollbackCall

namespace Deed

variable {w : Worker ω} {job : JobId}

/-- Others remove a snapshot on nobody's behalf. -/
theorem snapshotChanges_others (d : Deed ω) {id : ExecutionId} : .removed (some id) ∉ d.snapshotChanges job := by
  intro h
  cases d <;> simp [snapshotChanges] at h

theorem act_snapshots (d : Deed ω) : (d.act w).snapshots.get? job =
    (d.snapshotChanges job).foldl SnapshotChange.applyTo (w.snapshots.get? job) := by
  cases d with
  | recordSnapshot own snapshot =>
    rw [act, Worker.recordSnapshot, snapshotChanges]
    dsimp only
    rw [Registry.get?_put]
    by_cases hown : own = job
    · rw [if_pos hown.symm, if_pos hown]
      rfl
    · rw [if_neg (Ne.symm hown), if_neg hown]
      rfl
  | dropSnapshot own =>
    rw [act, snapshotChanges]
    dsimp only
    rw [Registry.get?_erase]
    by_cases hown : own = job
    · rw [if_pos hown.symm, if_pos hown]
      rfl
    · rw [if_neg (Ne.symm hown), if_neg hown]
      rfl
  | _ => rfl

end Deed

namespace Scene

variable {s : Surroundings ω} {x x' : Scene ω} {m : Move ω} {evs tr : List Event} {job : JobId} {id : ExecutionId}

/-- What a move does to the snapshot of a job. -/
def snapshotChanges (job : JobId) (x : Scene ω) : Move ω → List SnapshotChange
  | .step i =>
    match x.tasks[i]? with
    | some (.run r) => r.snapshotChanges job
    | some (.rollback c) => c.snapshotChanges job x.worker
    | none => []
  | .timeOut _ => []
  | .deed d => d.snapshotChanges job

/-- What moves do to the snapshot of a job. -/
def changesDuring (s : Surroundings ω) (job : JobId) : Scene ω → List (Move ω) → List SnapshotChange
  | _, [] => []
  | x, m :: rest =>
    x.snapshotChanges job m ++ match x.play? s m with
      | some (_, x) => changesDuring s job x rest
      | none => []

/-- No job of the scene does anything to the recorded snapshots. -/
def SparesSnapshots (x : Scene ω) : Prop := ∀ r, Task.run r ∈ x.tasks → ∀ p ∈ r.parts, p.SparesSnapshots

theorem play_spares (hx : x.SparesSnapshots) (h : x.play? s m = some (evs, x')) : x'.SparesSnapshots := by
  intro r' hr' p hp
  obtain ⟨r, hr, hparts⟩ := play_parts h hr'
  exact hx r hr p (hparts hp)

theorem play_snapshots (hx : x.SparesSnapshots) (h : x.play? s m = some (evs, x')) :
    x'.worker.snapshots.get? job =
      (x.snapshotChanges job m).foldl SnapshotChange.applyTo (x.worker.snapshots.get? job) := by
  cases play_change h with
  | run i r r' there step tasks =>
    rw [snapshotChanges, there]
    exact Run.step_snapshots (hx r (List.mem_of_getElem? there)) step
  | call i c c' there step tasks =>
    rw [snapshotChanges, there]
    exact RollbackCall.step_snapshots step
  | timeOut i c c' there late worker tasks =>
    rw [worker]
    rfl
  | deed d worker tasks =>
    rw [worker]
    exact d.act_snapshots

/-- The snapshot that is recorded is what the last change has left. -/
theorem playAll_snapshots (hx : x.SparesSnapshots) (job : JobId) {moves : List (Move ω)}
    (hplay : x.playAll? s moves = some (evs, x')) :
    x'.SparesSnapshots ∧ x'.worker.snapshots.get? job =
      (x.changesDuring s job moves).foldl SnapshotChange.applyTo (x.worker.snapshots.get? job) := by
  induction moves generalizing x evs with
  | nil =>
    cases hplay
    exact ⟨hx, rfl⟩
  | cons m rest ih =>
    obtain ⟨⟨now, y⟩, hm, hrest⟩ := Option.bind_eq_some_iff.mp hplay
    obtain ⟨⟨later, z⟩, hz, heq⟩ := Option.map_eq_some_iff.mp hrest
    cases heq
    rw [changesDuring, hm, List.foldl_append, ← play_snapshots hx hm]
    exact ih (play_spares hx hm) hz

/-- The binding of an execution is behind it: it is neither in the table nor with a call. -/
structure Spent (x : Scene ω) (job : JobId) (id : ExecutionId) (tr : List Event) : Prop where
  bound : .bound job id ∈ tr
  table : x.worker.bindings.get? job ≠ some id
  held : ∀ i, x.holding? job i ≠ some id

/-- Whoever may remove the snapshot on behalf of an execution has its binding behind it. -/
structure RemovesLate (x : Scene ω) (job : JobId) (id : ExecutionId) (tr : List Event) : Prop where
  accounts : Ledger.Accounts job tr x
  runs : ∀ i r, x.run? i = some r → r.execution.id = id → r.execution.jobId? = some job → .forgetSnapshot ∈ r.hooks →
    x.Spent job id tr
  calls : ∀ i, x.brought? job i = some id → x.Spent job id tr

section Calls

variable {k : Nat} {c c' : RollbackCall} (there : x.tasks[k]? = some (.rollback c))

include there

private theorem holding?_there : x.holding? job k = if c.job = job then c.phase.held? else none := by
  rw [holding?, call?_of_there there, Option.bind_some]

private theorem brought?_there : x.brought? job k = if c.job = job then c.phase.brought? else none := by
  rw [brought?, call?_of_there there, Option.bind_some]

variable (tasks : x'.tasks = x.tasks.set k (.rollback c')) (hjob : c'.job = c.job)

include tasks hjob

private theorem holding?_after (i : Nat) :
    x'.holding? job i = if i = k then (if c.job = job then c'.phase.held? else none) else x.holding? job i := by
  rw [holding?, call?_after_call there tasks]
  split
  · rw [Option.bind_some, hjob]
  · rfl

private theorem brought?_after (i : Nat) :
    x'.brought? job i = if i = k then (if c.job = job then c'.phase.brought? else none) else x.brought? job i := by
  rw [brought?, call?_after_call there tasks]
  split
  · rw [Option.bind_some, hjob]
  · rfl

end Calls

/-- What a call holds after a move it held before, or it has taken it from the table. -/
private theorem holding_after (h : x.play? s m = some (evs, x')) {i : Nat} (hheld : x'.holding? job i = some id) :
    x.holding? job i = some id ∨ x.worker.bindings.get? job = some id := by
  cases play_change h with
  | run k r r' there step tasks =>
    rw [holding?, call?_after_run there tasks] at hheld
    exact .inl hheld
  | deed d worker tasks =>
    rw [holding?, call?, tasks] at hheld
    exact .inl hheld
  | timeOut k c c' there late worker tasks =>
    obtain ⟨hjob, -, hsame, -⟩ := RollbackCall.timeOut_held late
    rw [holding?_after there tasks hjob, hsame, ← holding?_there there] at hheld
    split at hheld
    · rw [‹i = k›]
      exact .inl hheld
    · exact .inl hheld
  | call k c c' there step tasks =>
    obtain ⟨hjob, hchange⟩ := RollbackCall.step_change k step
    generalize c.events k c' = evs at hchange
    rw [holding?_after there tasks hjob] at hheld
    split at hheld
    · subst ‹i = k›
      rw [holding?_there there]
      split at hheld
      · rw [if_pos ‹c.job = job›]
        cases hchange with
        | takes id' before after bound =>
          rw [after] at hheld
          cases hheld
          rw [‹c.job = job›] at bound
          exact .inr bound
        | asks id' result before after =>
          rw [after] at hheld
          rw [before]
          exact .inl hheld
        | restores r restored before after =>
          rw [after] at hheld
          cases hheld
        | returns id' f before after =>
          rw [after] at hheld
          cases hheld
        | goesOn before held =>
          rw [held] at hheld
          exact .inl hheld
      · cases hheld
    · exact .inl hheld

/-- A call gives back what it holds. -/
private theorem holding_of_returned (h : x.play? s m = some (evs, x')) {i : Nat} (hback : .returned i job id ∈ evs) :
    x.holding? job i = some id := by
  cases play_change h with
  | run k r r' there step tasks => cases Ledger.callOf?_run hback
  | deed d worker tasks => cases Ledger.callOf?_deed hback
  | timeOut k c c' there late worker tasks => cases hback
  | call k c c' there step tasks =>
    obtain ⟨hjob, hchange⟩ := RollbackCall.step_change k step
    generalize c.events k c' = evs at hchange hback
    cases hchange with
    | returns id' f before after =>
      cases List.mem_singleton.mp hback
      rw [holding?_there there, if_pos rfl, before]
      rfl
    | takes => cases List.mem_singleton.mp hback
    | asks => cases List.mem_singleton.mp hback
    | restores => cases List.mem_singleton.mp hback
    | goesOn => cases hback

theorem Spent.play (h : x.Spent job id tr) (hconfined : x.IsConfined) (hplay : x.play? s m = some (evs, x'))
    (honce : (tr ++ evs).count (.bound job id) ≤ 1) : x'.Spent job id (tr ++ evs) := by
  have hnew : .bound job id ∉ evs := by
    intro hagain
    have hbefore : 0 < tr.count (.bound job id) := List.count_pos_iff.mpr h.bound
    have hnow : 0 < evs.count (.bound job id) := List.count_pos_iff.mpr hagain
    rw [List.count_append] at honce
    omega
  constructor
  · exact List.mem_append_left evs h.bound
  · intro htable
    rw [play_bindings hconfined hplay] at htable
    rcases Event.get?_foldl htable with hold | hbound | ⟨i, hback⟩
    · exact h.table hold
    · exact hnew hbound
    · exact h.held i (holding_of_returned hplay hback)
  · intro i hheld
    rcases holding_after hplay hheld with hold | htable
    · exact h.held i hold
    · exact h.table htable

section Once

variable (haccounts : Ledger.Accounts job tr x)

include haccounts

private theorem mem_table (htable : x.worker.bindings.get? job = some id) : id ∈ (Ledger.ofStory job tr).inPlace .table := by
  rw [haccounts.agrees.table, htable]
  exact List.mem_singleton_self id

private theorem mem_held {i : Nat} (hheld : x.holding? job i = some id) :
    id ∈ (Ledger.ofStory job tr).inPlace (.held i) := by
  rw [haccounts.agrees.held, hheld]
  exact List.mem_singleton_self id

variable (honce : tr.count (.bound job id) ≤ 1)

include honce

/-- A binding that is released from the table is lost. -/
private theorem Spent.of_release (evs : List Event) (htable : x.worker.bindings.get? job = some id)
    (hbindings : x'.worker.bindings = (Event.released job id).applyTo x.worker.bindings)
    (hcalls : ∀ i, x'.call? i = x.call? i) : x'.Spent job id (tr ++ evs) := by
  have hrecord := mem_table haccounts htable
  constructor
  · exact List.mem_append_left evs (Ledger.mem_of_brought (Ledger.mem_executions hrecord))
  · rw [hbindings, Event.applyTo, Bindings.forgetExecution, if_pos htable, Registry.get?_erase, if_pos rfl]
    exact (Option.some_ne_none id).symm
  · intro i hheld
    rw [holding?, hcalls] at hheld
    cases Ledger.one_place honce hrecord (mem_held haccounts hheld)

/-- A binding that a call lets go of is used up. -/
private theorem Spent.of_restore {k : Nat} {c c' : RollbackCall} (evs : List Event)
    (there : x.tasks[k]? = some (.rollback c)) (tasks : x'.tasks = x.tasks.set k (.rollback c')) (hjob : c'.job = c.job)
    (hheld : x.holding? job k = some id) (hfree : c'.phase.held? = none)
    (hbindings : x'.worker.bindings = x.worker.bindings) : x'.Spent job id (tr ++ evs) := by
  have hrecord := mem_held haccounts hheld
  constructor
  · exact List.mem_append_left evs (Ledger.mem_of_brought (Ledger.mem_executions hrecord))
  · rw [hbindings]
    intro htable
    cases Ledger.one_place honce hrecord (mem_table haccounts htable)
  · intro i hother
    rw [holding?_after there tasks hjob, hfree, ite_self] at hother
    split at hother
    · cases hother
    · cases Ledger.one_place honce hrecord (mem_held haccounts hother)
      exact absurd rfl ‹¬k = k›

end Once

/-- Who is about to forget the snapshot has its binding behind it still, or has lost it just now. -/
private theorem RemovesLate.play_runs (h : x.RemovesLate job id tr) (hplay : x.play? s m = some (evs, x'))
    (honce : tr.count (.bound job id) ≤ 1) (hstill : x.Spent job id tr → x'.Spent job id (tr ++ evs)) {i : Nat} {r' : Run ω}
    (hr' : x'.run? i = some r') (hid : r'.execution.id = id) (hjob : r'.execution.jobId? = some job)
    (hforgets : .forgetSnapshot ∈ r'.hooks) : x'.Spent job id (tr ++ evs) := by
  have hbindings := play_bindings h.accounts.confined hplay
  cases play_change hplay with
  | run k r q there step tasks =>
    rw [run?_after_run there tasks] at hr'
    split at hr'
    · cases hr'
      obtain ⟨hexecution, hleft⟩ := Run.step_forgets step hforgets
      rw [hexecution] at hid hjob
      rcases hleft with hleft | ⟨own, hown, htable, hevents⟩
      · exact hstill (h.runs k r (run?_of_there there) hid hjob hleft)
      · obtain rfl : job = own := Option.some.inj (hjob.symm.trans hown)
        rw [hid] at htable hevents
        rw [hevents] at hbindings
        exact .of_release h.accounts honce _ htable hbindings (call?_after_run there tasks)
    · exact hstill (h.runs i r' hr' hid hjob hforgets)
  | call k c c' there step tasks =>
    rw [run?_after_call there tasks] at hr'
    exact hstill (h.runs i r' hr' hid hjob hforgets)
  | timeOut k c c' there late worker tasks =>
    rw [run?_after_call there tasks] at hr'
    exact hstill (h.runs i r' hr' hid hjob hforgets)
  | deed d worker tasks =>
    rw [run?, tasks] at hr'
    exact hstill (h.runs i r' hr' hid hjob hforgets)

/-- Who has brought an execution back has its binding behind it still, or has used it up just now. -/
private theorem RemovesLate.play_calls (h : x.RemovesLate job id tr) (hplay : x.play? s m = some (evs, x'))
    (honce : tr.count (.bound job id) ≤ 1) (hstill : x.Spent job id tr → x'.Spent job id (tr ++ evs)) {i : Nat}
    (hbrought : x'.brought? job i = some id) : x'.Spent job id (tr ++ evs) := by
  cases play_change hplay with
  | run k r q there step tasks =>
    rw [brought?, call?_after_run there tasks] at hbrought
    exact hstill (h.calls i hbrought)
  | deed d worker tasks =>
    rw [brought?, call?, tasks] at hbrought
    exact hstill (h.calls i hbrought)
  | timeOut k c c' there late worker tasks =>
    obtain ⟨hjob, -, -, hsame⟩ := RollbackCall.timeOut_held late
    rw [brought?_after there tasks hjob, hsame, ← brought?_there there] at hbrought
    split at hbrought
    · exact hstill (h.calls k hbrought)
    · exact hstill (h.calls i hbrought)
  | call k c c' there step tasks =>
    obtain ⟨hjob, hchange⟩ := RollbackCall.step_change k step
    rw [brought?_after there tasks hjob] at hbrought
    generalize c.events k c' = evs at hchange hstill ⊢
    split at hbrought
    · split at hbrought
      · rename_i hown
        cases hchange with
        | takes id' before after =>
          rw [after] at hbrought
          cases hbrought
        | asks id' result before after =>
          rw [c'.phase.brought?_of_held after] at hbrought
          cases hbrought
        | restores r restored before after bindings =>
          rw [after] at hbrought
          cases hbrought
          have hheld : x.holding? job k = some r.id := by
            rw [holding?_there there, if_pos hown, before]
            rfl
          exact .of_restore h.accounts honce _ there tasks hjob hheld (by rw [after]; rfl) bindings
        | returns id' f before after =>
          rw [after] at hbrought
          cases hbrought
        | goesOn before held brought =>
          rw [brought] at hbrought
          refine hstill (h.calls k ?_)
          rw [brought?_there there, if_pos hown, hbrought]
      · cases hbrought
    · exact hstill (h.calls i hbrought)

theorem RemovesLate.play (h : x.RemovesLate job id tr) (hplay : x.play? s m = some (evs, x'))
    (honce : (tr ++ evs).count (.bound job id) ≤ 1) : x'.RemovesLate job id (tr ++ evs) := by
  have hstill (hspent : x.Spent job id tr) : x'.Spent job id (tr ++ evs) :=
    hspent.play h.accounts.confined hplay honce
  have hbefore : tr.count (.bound job id) ≤ 1 := by
    rw [List.count_append] at honce
    omega
  constructor
  · exact h.accounts.play hplay
  · intro i r' hr' hid hjob hforgets
    exact h.play_runs hplay hbefore hstill hr' hid hjob hforgets
  · intro i hbrought
    exact h.play_calls hplay hbefore hstill hbrought

/-- What is removed on behalf of an execution is removed late. -/
private theorem RemovesLate.spent_of_change (h : x.RemovesLate job id tr)
    (hchange : .removed (some id) ∈ x.snapshotChanges job m) : x.Spent job id tr := by
  cases m with
  | timeOut i => cases hchange
  | deed d => exact absurd hchange d.snapshotChanges_others
  | step i =>
    rw [snapshotChanges] at hchange
    split at hchange
    · rename_i r there
      obtain ⟨hforgets, hid, hjob⟩ := r.forgets_of_change hchange
      exact h.runs i r (run?_of_there there) hid hjob hforgets
    · rename_i c there
      obtain ⟨hjob, hbrought⟩ := c.brought?_of_change hchange
      refine h.calls i ?_
      rw [brought?_there there, if_pos hjob, hbrought]
    · cases hchange

private theorem RemovesLate.playAll (h : x.RemovesLate job id tr) {moves : List (Move ω)}
    (hplay : x.playAll? s moves = some (evs, x')) (honce : (tr ++ evs).count (.bound job id) ≤ 1) :
    x'.RemovesLate job id (tr ++ evs) ∧ (x.Spent job id tr → x'.Spent job id (tr ++ evs)) ∧
      (.removed (some id) ∈ x.changesDuring s job moves → x'.Spent job id (tr ++ evs)) := by
  induction moves generalizing tr x evs with
  | nil =>
    cases hplay
    rw [List.append_nil]
    exact ⟨h, fun hspent => hspent, fun hchange => by cases hchange⟩
  | cons m rest ih =>
    obtain ⟨⟨now, y⟩, hm, hrest⟩ := Option.bind_eq_some_iff.mp hplay
    obtain ⟨⟨later, z⟩, hz, heq⟩ := Option.map_eq_some_iff.mp hrest
    cases heq
    rw [← List.append_assoc] at honce ⊢
    have hnow : (tr ++ now).count (.bound job id) ≤ 1 := by
      rw [List.count_append] at honce
      omega
    obtain ⟨hlate, hkept, hchanged⟩ := ih (h.play hm hnow) hz honce
    have hstill (hspent : x.Spent job id tr) : x'.Spent job id (tr ++ now ++ later) :=
      hkept (hspent.play h.accounts.confined hm hnow)
    refine ⟨hlate, hstill, fun hchange => ?_⟩
    rw [changesDuring, hm] at hchange
    rcases List.mem_append.mp hchange with hfirst | hafter
    · exact hstill (h.spent_of_change hfirst)
    · exact hchanged hafter

/-- No run has begun. -/
def IsUnbegun (x : Scene ω) : Prop := ∀ i r, x.run? i = some r → r.phase = .starting

private theorem RemovesLate.nil (hconfined : x.IsConfined) (hunbound : x.worker.bindings.get? job = none)
    (hfresh : x.IsFresh) (hunbegun : x.IsUnbegun) : x.RemovesLate job id [] := by
  constructor
  · exact .nil hconfined hunbound hfresh
  · intro i r hr _ _ hforgets
    rw [Run.hooks, hunbegun i r hr] at hforgets
    cases hforgets
  · intro i hbrought
    obtain ⟨c, hc, hbrought⟩ := Option.bind_eq_some_iff.mp hbrought
    rw [hfresh i c hc] at hbrought
    split at hbrought <;> cases hbrought

end Scene

namespace RollbackCall

variable {s : Surroundings ω} {x y y' z : Scene ω} {job : JobId} {snapshot : String} {before since : List (Move ω)}
  {earlier later : List Event} {i : Nat} {id : ExecutionId} {stopped : Bool}

/-- Whatever happens at the same time: a rollback of an execution that was bound once is handed the snapshot that the last
launch has recorded, or none if it was removed since, and it was not the execution itself that removed it. -/
theorem handed_last_snapshot (hconfined : x.IsConfined) (hspares : x.SparesSnapshots)
    (hunbound : x.worker.bindings.get? job = none) (hfresh : x.IsFresh) (hunbegun : x.IsUnbegun)
    (hbefore : x.playAll? s before = some (earlier, y))
    (hrecords : y' = { y with worker := y.worker.recordSnapshot job snapshot })
    (hsince : y'.playAll? s since = some (later, z)) (honce : (earlier ++ later).count (.bound job id) ≤ 1)
    (hcall : z.call? i = some { job, phase := .choosing id stopped }) :
    .removed (some id) ∉ y'.changesDuring s job since ∧
      step? s { job, phase := .choosing id stopped } z.worker =
        some ({ job, phase := match (y'.changesDuring s job since).foldl SnapshotChange.applyTo (some snapshot) with
          | some found => .handing ⟨id, stopped, found⟩
          | none => .reinstating id (noSnapshot job) }, z.worker) := by
  have hrecord : y.play? s (.deed (.recordSnapshot job snapshot)) = some ([], y') := by
    rw [hrecords]
    rfl
  have hlate : z.RemovesLate job id (earlier ++ later) ∧
      (.removed (some id) ∈ y'.changesDuring s job since → z.Spent job id (earlier ++ later)) := by
    have hfirst : earlier.count (.bound job id) ≤ 1 := by
      rw [List.count_append] at honce
      omega
    have hy : y.RemovesLate job id ([] ++ earlier) :=
      ((Scene.RemovesLate.nil hconfined hunbound hfresh hunbegun).playAll hbefore hfirst).1
    have hy' : y'.RemovesLate job id (earlier ++ []) := hy.play hrecord (by rwa [List.append_nil])
    rw [List.append_nil] at hy'
    obtain ⟨hz, -, hchanged⟩ := hy'.playAll hsince honce
    exact ⟨hz, hchanged⟩
  have hfound : z.worker.snapshots.get? job =
      (y'.changesDuring s job since).foldl SnapshotChange.applyTo (some snapshot) := by
    have hy : y.SparesSnapshots := (Scene.playAll_snapshots hspares job hbefore).1
    have hrecorded : y'.worker.snapshots.get? job = some snapshot := by
      rw [hrecords]
      dsimp only [Worker.recordSnapshot]
      rw [Registry.get?_put, if_pos rfl]
    rw [(Scene.playAll_snapshots (Scene.play_spares hy hrecord) job hsince).2, hrecorded]
  constructor
  · intro hown
    refine (hlate.2 hown).held i ?_
    rw [Scene.holding?, hcall, Option.bind_some, if_pos rfl]
    rfl
  · rw [step?, hfound]
    cases (y'.changesDuring s job since).foldl SnapshotChange.applyTo (some snapshot) <;> rfl

end RollbackCall

namespace Relaunch

def job : JobId := ⟨"J1"⟩

/-- The first launch of a job runs, and somebody rolls the job back. -/
def scene : Scene Unit where
  worker := { cache := .new 0 [] none, files := .empty [], now := ⟨0, 0⟩, outside := () }
  tasks := [
    .run { listeners := [.rollback], job := [], execution := .new 1 "orders-export" [(Key.jobId, "J1")] ⟨0, 0⟩ },
    .rollback { job }]

/-- The first launch completes. Its binding is forgotten, but not yet its snapshot. -/
def completion : List (Move Unit) :=
  [.deed (.recordSnapshot job "first"), .deed (.bind 1 job)] ++ List.replicate 7 (.step 0)

/-- The snapshot is forgotten once the second launch has recorded its own. That one is rolled back then. -/
def overtaken : List (Move Unit) := [.deed (.bind 2 job), .step 0] ++ List.replicate 2 (.step 1)

/-- The second launch records its snapshot before the first one is rolled back. -/
def hurried : List (Move Unit) :=
  [.deed (.recordSnapshot job "first"), .deed (.bind 1 job), .deed (.recordSnapshot job "second")]

def failsWithoutSnapshot (c : RollbackCall) : Bool :=
  match c.phase with
  | .ended (.error f) => f = RollbackCall.noSnapshot job
  | _ => false

private theorem overtaken_end : (scene.playAll? .quiet
    (completion ++ .deed (.recordSnapshot job "second") :: overtaken ++ List.replicate 2 (.step 1))).map
      (fun (tr, x) => (tr, (x.call? 1).map failsWithoutSnapshot)) =
    some ([.bound job 1, .marked 1 .completed, .released job 1, .bound job 2, .took 1 job 2, .stopAsked 1 2,
      .returned 1 job 2], some true) := by
  decide +kernel

private theorem hurried_end : (scene.playAll? .quiet (hurried ++ List.replicate 5 (.step 1))).map (·.1) =
    some [.bound job 1, .took 1 job 1, .stopAsked 1 1, .restored 1 job "second"] := by
  decide +kernel

/-- A rollback that takes the second execution, which is launched by then, finds no snapshot; and one that takes the first
one restores the snapshot of the second. -/
theorem rollback_misses_snapshot :
    (∃ tr x c, scene.playAll? .quiet
        (completion ++ .deed (.recordSnapshot job "second") :: overtaken ++ List.replicate 2 (.step 1)) = some (tr, x) ∧
      .took 1 job 2 ∈ tr ∧ x.call? 1 = some c ∧ failsWithoutSnapshot c = true) ∧
    ∃ tr x, scene.playAll? .quiet (hurried ++ List.replicate 5 (.step 1)) = some (tr, x) ∧
      .took 1 job 1 ∈ tr ∧ .restored 1 job "second" ∈ tr := by
  constructor
  · obtain ⟨⟨tr, x⟩, hplay, heq⟩ := Option.map_eq_some_iff.mp overtaken_end
    obtain ⟨htr, hcall⟩ := Prod.mk.inj heq
    obtain ⟨c, hc, hfails⟩ := Option.map_eq_some_iff.mp hcall
    refine ⟨tr, x, c, hplay, ?_, hc, hfails⟩
    rw [htr]
    decide
  · obtain ⟨⟨tr, x⟩, hplay, htr⟩ := Option.map_eq_some_iff.mp hurried_end
    refine ⟨tr, x, hplay, ?_, ?_⟩ <;> rw [show tr = _ from htr] <;> decide

/-- The scene once a snapshot is recorded. -/
def recording (x : Scene Unit) (snapshot : String) : Scene Unit :=
  { x with worker := x.worker.recordSnapshot job snapshot }

/-- Which call has to choose a snapshot, for which execution. -/
def chooses (c : RollbackCall) : Option (JobId × ExecutionId × Bool) :=
  match c.phase with
  | .choosing id stopped => some (c.job, id, stopped)
  | _ => none

private theorem chooses_eq {c : RollbackCall} {own : JobId} {id : ExecutionId} {stopped : Bool}
    (h : chooses c = some (own, id, stopped)) : c = { job := own, phase := .choosing id stopped } := by
  obtain ⟨job', phase⟩ := c
  cases phase <;> cases h
  rfl

private theorem chooses_second : (scene.playAll? .quiet completion).bind (fun (earlier, y) =>
    ((recording y "second").playAll? .quiet overtaken).map fun (later, z) =>
      ((earlier ++ later).count (.bound job 2), (z.call? 1).bind chooses,
        (recording y "second").changesDuring .quiet job overtaken)) =
    some (1, some (job, 2, false), [.removed (some 1)]) := by
  decide +kernel

/-- The snapshot was removed by the completion of the other execution. -/
theorem removed_by_completion : ∃ earlier later y z, scene.playAll? .quiet completion = some (earlier, y) ∧
    (recording y "second").playAll? .quiet overtaken = some (later, z) ∧
    (recording y "second").changesDuring .quiet job overtaken = [.removed (some 1)] ∧
    RollbackCall.step? .quiet { job, phase := .choosing 2 false } z.worker =
      some ({ job, phase := .reinstating 2 (RollbackCall.noSnapshot job) }, z.worker) := by
  obtain ⟨⟨earlier, y⟩, hbefore, hrest⟩ := Option.bind_eq_some_iff.mp chooses_second
  obtain ⟨⟨later, z⟩, hsince, heq⟩ := Option.map_eq_some_iff.mp hrest
  simp only [Prod.mk.injEq] at heq
  obtain ⟨honce, hcall, hchanges⟩ := heq
  obtain ⟨c, hc, hchooses⟩ := Option.bind_eq_some_iff.mp hcall
  rw [chooses_eq hchooses] at hc
  have hconfined : scene.IsConfined := by
    intro r hr p hp
    simp [scene] at hr
    subst hr
    cases hp
  have hspares : scene.SparesSnapshots := by
    intro r hr p hp
    simp [scene] at hr
    subst hr
    cases hp
  have hfresh : scene.IsFresh := by
    intro i c hc
    match i with
    | 0 => cases hc
    | 1 => cases hc; rfl
    | i + 2 => cases hc
  have hunbegun : scene.IsUnbegun := by
    intro i r hr
    match i with
    | 0 => cases hr; rfl
    | 1 => cases hr
    | i + 2 => cases hr
  have hrecords : recording y "second" = { y with worker := y.worker.recordSnapshot job "second" } := rfl
  obtain ⟨-, hstep⟩ := RollbackCall.handed_last_snapshot hconfined hspares rfl hfresh hunbegun hbefore hrecords hsince
    (Nat.le_of_eq honce) hc
  rw [hchanges] at hstep
  exact ⟨earlier, later, y, z, hbefore, hsince, hchanges, hstep⟩

end Relaunch
end BatchExport
