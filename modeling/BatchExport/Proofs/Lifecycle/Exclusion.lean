import BatchExport.Proofs.Lifecycle.Steps

/-! Completion of an execution against rollbacks of it. Main statement: a rollback of an execution that is published
as completed came too late to stop it. -/
namespace BatchExport

/-- The one event happens before the other. -/
def Precedes (tr : List Event) (a b : Event) : Prop := [a, b].Sublist tr

section Precedes

variable {tr evs : List Event} {a b : Event}

private theorem Precedes.append (h : Precedes tr a b) : Precedes (tr ++ evs) a b :=
  List.Sublist.trans h (List.sublist_append_left tr evs)

private theorem precedes_of_mem (ha : a ∈ tr) (hb : b ∈ evs) : Precedes (tr ++ evs) a b :=
  List.Sublist.append (List.singleton_sublist.mpr ha) (List.singleton_sublist.mpr hb)

private theorem Precedes.of_append (h : Precedes (tr ++ evs) a b) (hb : b ∉ evs) : Precedes tr a b := by
  obtain ⟨l, l', hl, htr, hevs⟩ := List.sublist_append_iff.mp h
  obtain rfl | ⟨rest, last, rfl⟩ := l'.eq_nil_or_concat
  · rw [List.append_nil] at hl
    rw [← hl] at htr
    exact htr
  · have hlast : b = last := by
      have h := congrArg List.getLast? hl
      simpa using h
    exact absurd (hevs.subset (by simp [hlast])) hb

private theorem Precedes.mem (h : Precedes tr a b) : a ∈ tr ∧ b ∈ tr :=
  ⟨h.subset (by simp), h.subset (by simp)⟩

private theorem precedes_total (hne : a ≠ b) (ha : a ∈ tr) (hb : b ∈ tr) : Precedes tr a b ∨ Precedes tr b a := by
  induction tr with
  | nil => cases ha
  | cons e tr ih =>
    rcases List.mem_cons.mp ha with rfl | ha'
    · have hb' := (List.mem_cons.mp hb).resolve_left hne.symm
      exact .inl (.cons_cons a (List.singleton_sublist.mpr hb'))
    · rcases List.mem_cons.mp hb with rfl | hb'
      · exact .inr (.cons_cons b (List.singleton_sublist.mpr ha'))
      · exact (ih ha' hb').imp (.cons e) (.cons e)

end Precedes

/-- The execution is in flight still if it was, and a stop asked for stays asked for. -/
structure Worker.KeepsFlag {ω : Type} (id : ExecutionId) (w w' : Worker ω) : Prop where
  running : w.isRunning id → w'.isRunning id
  stop : w.stopRequested id → w'.stopRequested id

namespace RunningSet

variable (r : RunningSet) (id other : ExecutionId)

private theorem requestStop_running (h : r.isRunning id) : (r.requestStop id).2.stopRequested id := by
  obtain ⟨stop, hstop⟩ := Option.isSome_iff_exists.mp h
  rw [stopRequested, get?_requestStop, if_pos rfl, hstop]
  rfl

private theorem isRunning_ensure (h : r.isRunning other) : (r.ensure id).isRunning other := by
  rw [isRunning, Registry.contains, get?_ensure]
  split
  · rfl
  · exact h

end RunningSet

section Steps

variable {ω : Type} {s : Surroundings ω} {id : ExecutionId} {job : JobId} {tr evs : List Event} {w w' : Worker ω}

private theorem Worker.KeepsFlag.of_running (h : w'.running = w.running) : w.KeepsFlag id w' where
  running hr := by rwa [isRunning, h]
  stop hs := by rwa [stopRequested, h]

private theorem Worker.KeepsFlag.of_requestStop {other : ExecutionId}
    (h : w'.running = (w.running.requestStop other).2) : w.KeepsFlag id w' where
  running hr := by rwa [isRunning, h, RunningSet.isRunning_requestStop]
  stop hs := by
    rw [stopRequested, h]
    exact RunningSet.stopRequested_requestStop _ _ _ hs

private theorem Deed.keepsFlag (w : Worker ω) (d : Deed ω) : w.KeepsFlag id (d.act w) := by
  cases d with
  | requestStop other => exact .of_requestStop rfl
  | _ => exact .of_running rfl

/-- With the runner itself as the operator, a call does no more to an execution in flight than to ask for its stop. -/
private theorem RollbackCall.Change.keepsFlag {i : Nat} {c c' : RollbackCall}
    (h : RollbackCall.Change s i c c' w w' evs)
    (id : ExecutionId) (hs : s.operator = .ofRunningSet ω) :
    w.KeepsFlag id w' ∧ (.stopAsked i id ∈ evs → w.isRunning id → w'.stopRequested id) := by
  cases h with
  | takes other before after bound bindings running => exact ⟨.of_running running, by simp⟩
  | asks other result before after stop =>
    have hrunning : w'.running = (w.running.requestStop other).2 := by
      rw [hs] at stop
      simp only [JobOperator.ofRunningSet, Effect.run_ofChange, Option.some.injEq, Prod.mk.injEq] at stop
      exact stop.2.1.symm
    refine ⟨.of_requestStop hrunning, fun hasked hr => ?_⟩
    obtain rfl : id = other := by simpa using hasked
    rw [Worker.stopRequested, hrunning]
    exact RunningSet.requestStop_running _ _ hr
  | restores r restored before after bindings running => exact ⟨.of_running running, by simp⟩
  | returns other f before after bindings running => exact ⟨.of_running running, by simp⟩
  | goesOn before held brought bindings running => exact ⟨.of_running running, by simp⟩

/-- Only its own end takes an execution out of flight. -/
private theorem Run.Change.keepsFlag {r r' : Run ω} (h : Run.Change s r r' w w' evs)
    (hleaving : r.execution.id = id → r.phase ≠ .leaving) : w.KeepsFlag id w' := by
  cases h with
  | starts hooks before after execution worker =>
    rw [worker]
    exact ⟨RunningSet.isRunning_ensure _ _ _, RunningSet.stopRequested_ensure _ _ _⟩
  | prepares hook rest more before after execution worker => exact .of_running (by rw [worker, Hook.act_running])
  | decides before after execution worker => exact .of_running (by rw [worker])
  | works parts before after same parameters spares =>
    exact ⟨fun hr => (spares.running id).symm ▸ hr, spares.stops id⟩
  | concludes result before after execution worker => exact .of_running (by rw [worker])
  | leaves hooks before after execution worker =>
    have hne : r.execution.id ≠ id := fun e => hleaving e before
    rw [worker]
    constructor <;> intro h
    · rwa [Worker.isRunning, RunningSet.isRunning, Registry.contains, RunningSet.get?_leave, if_neg (Ne.symm hne)]
    · rwa [Worker.stopRequested, RunningSet.stopRequested, RunningSet.get?_leave, if_neg (Ne.symm hne)]
  | notifies hook rest more before after execution worker => exact .of_running (by rw [worker, Hook.act_running])
  | ends before after execution worker => exact .of_running (by rw [worker])

private theorem Hook.mem_events {e : Execution} {hook : Hook} {event : Event} (h : event ∈ hook.events e) :
    (∃ record, event = .published e.id record ∧ record.status = e.status) ∨
      ∃ job, e.status = .completed ∧ event = .released job e.id ∧ hook.events e = [event] := by
  cases hook with
  | publish described =>
    obtain ⟨job, -, rfl⟩ := List.mem_map.mp h
    exact .inl ⟨_, rfl, rfl⟩
  | forgetBinding =>
    simp only [Hook.events] at h ⊢
    split at h
    · cases hjob : e.jobId? with
      | none => simp [hjob] at h
      | some job =>
        obtain rfl : event = .released job e.id := by simpa [hjob] using h
        exact .inr ⟨job, ‹_›, rfl, if_pos ‹_›⟩
    · cases h
  | _ => cases h

end Steps

section Invariant

variable {ω : Type} {s : Surroundings ω} {id : ExecutionId} {job : JobId} {tr evs : List Event} {x x' : Scene ω}

/-- The execution is in flight, its end is open, and every stop that a call asked for has raised its flag. -/
private structure IsOpen (id : ExecutionId) (tr : List Event) (w : Worker ω) : Prop where
  running : w.isRunning id
  asked : ∀ i, .stopAsked i id ∈ tr → w.stopRequested id
  unmarked : .marked id .completed ∉ tr

/-- Where the run of the execution is, and what the story has to say about it. -/
private def Run.IsAt (id : ExecutionId) (tr : List Event) (r : Run ω) (w : Worker ω) : Prop :=
  match r.phase with
  | .leaving | .after _ | .ended => .marked id r.execution.status ∈ tr
  | .before _ => IsOpen id tr w ∧ r.execution.status = .started
  | _ => IsOpen id tr w

private theorem IsOpen.goOn {w w' : Worker ω} (h : IsOpen id tr w) (hflag : w.KeepsFlag id w')
    (hasked : ∀ i, .stopAsked i id ∈ evs → w.isRunning id → w'.stopRequested id)
    (hmarked : .marked id .completed ∉ evs) : IsOpen id (tr ++ evs) w' where
  running := hflag.running h.running
  asked i hi := by
    rcases List.mem_append.mp hi with hi | hi
    · exact hflag.stop (h.asked i hi)
    · exact hasked i hi h.running
  unmarked hm := (List.mem_append.mp hm).elim h.unmarked hmarked

private theorem Run.IsAt.goOn {r : Run ω} {w w' : Worker ω} (h : r.IsAt id tr w) (hflag : w.KeepsFlag id w')
    (hasked : ∀ i, .stopAsked i id ∈ evs → w.isRunning id → w'.stopRequested id)
    (hmarked : .marked id .completed ∉ evs) : r.IsAt id (tr ++ evs) w' := by
  have hopen (h : IsOpen id tr w) : IsOpen id (tr ++ evs) w' := h.goOn hflag hasked hmarked
  rw [IsAt] at h ⊢
  split at h
  · exact List.mem_append_left _ h
  · exact List.mem_append_left _ h
  · exact List.mem_append_left _ h
  · exact ⟨hopen h.1, h.2⟩
  · exact hopen h

/-- A call has taken the binding that it holds or has used, and has asked for a stop before anything else. -/
private def CallsTold (tr : List Event) (x : Scene ω) : Prop :=
  ∀ i c id, x.call? i = some c → c.phase.held? = some id ∨ c.phase.brought? = some id →
    .took i c.job id ∈ tr ∧ (c.phase = .stopping id ∨ .stopAsked i id ∈ tr)

private theorem CallsTold.append (h : CallsTold tr x) (hcalls : ∀ i, x'.call? i = x.call? i) :
    CallsTold (tr ++ evs) x' := by
  intro i c id hc hheld
  obtain ⟨htook, hasked⟩ := h i c id (by rw [← hcalls, hc]) hheld
  exact ⟨List.mem_append_left _ htook, hasked.imp_right (List.mem_append_left _)⟩

private theorem CallsTold.set {i : Nat} {c c' : RollbackCall} (h : CallsTold tr x)
    (there : x.tasks[i]? = some (.rollback c)) (tasks : x'.tasks = x.tasks.set i (.rollback c'))
    (hnew : ∀ id, c'.phase.held? = some id ∨ c'.phase.brought? = some id →
      .took i c'.job id ∈ tr ++ evs ∧ (c'.phase = .stopping id ∨ .stopAsked i id ∈ tr ++ evs)) :
    CallsTold (tr ++ evs) x' := by
  intro j d id hd hheld
  rw [Scene.call?_after_call there tasks] at hd
  split at hd
  · cases hd
    subst j
    exact hnew id hheld
  · obtain ⟨htook, hasked⟩ := h j d id hd hheld
    exact ⟨List.mem_append_left _ htook, hasked.imp_right (List.mem_append_left _)⟩

private theorem CallsTold.goesOn {i : Nat} {c c' : RollbackCall} (h : CallsTold tr x)
    (there : x.tasks[i]? = some (.rollback c)) (tasks : x'.tasks = x.tasks.set i (.rollback c')) (hjob : c'.job = c.job)
    (before : ∀ id, c.phase ≠ .stopping id) (held : c'.phase.held? = c.phase.held?)
    (brought : c'.phase.brought? = c.phase.brought?) : CallsTold (tr ++ evs) x' := by
  apply h.set there tasks
  intro id hid
  rw [held, brought] at hid
  obtain ⟨htook, hasked⟩ := h i c id (Scene.call?_of_there there) hid
  exact ⟨List.mem_append_left _ (hjob ▸ htook), .inr (List.mem_append_left _ (hasked.resolve_left (before id)))⟩

private theorem CallsTold.call {i : Nat} {c c' : RollbackCall} (h : CallsTold tr x)
    (there : x.tasks[i]? = some (.rollback c)) (tasks : x'.tasks = x.tasks.set i (.rollback c')) (hjob : c'.job = c.job)
    (hchange : RollbackCall.Change s i c c' x.worker x'.worker evs) : CallsTold (tr ++ evs) x' := by
  have hcall := Scene.call?_of_there there
  cases hchange with
  | takes id before after =>
    apply h.set there tasks
    intro id' hid
    rw [after] at hid ⊢
    obtain hid | hid := hid <;> cases hid
    exact ⟨List.mem_append_right _ (by rw [hjob]; exact List.mem_singleton_self _), .inl rfl⟩
  | asks id result before after =>
    apply h.set there tasks
    intro id' hid
    have hbrought : c'.phase.brought? = none := by
      generalize c'.phase = phase at after
      cases phase <;> first | rfl | cases after
    obtain rfl : id' = id := by
      rw [after, hbrought] at hid
      simpa [eq_comm] using hid
    obtain ⟨htook, -⟩ := h i c id' hcall (.inl (by rw [before]; rfl))
    exact ⟨List.mem_append_left _ (hjob ▸ htook), .inr (List.mem_append_right _ (List.mem_singleton_self _))⟩
  | restores r restored before after =>
    apply h.set there tasks
    intro id' hid
    rw [after] at hid
    obtain hid | hid := hid <;> cases hid
    obtain ⟨htook, hasked⟩ := h i c r.id hcall (.inl (by rw [before]; rfl))
    exact ⟨List.mem_append_left _ (hjob ▸ htook),
      .inr (List.mem_append_left _ (hasked.resolve_left (by simp [before])))⟩
  | returns id f before after =>
    apply h.set there tasks
    intro id' hid
    rw [after] at hid
    obtain hid | hid := hid <;> cases hid
  | goesOn before held brought => exact h.goesOn there tasks hjob before held brought

/-- What the events say about the end of the execution and the use of its binding. -/
private structure Chronicle (id : ExecutionId) (job : JobId) (tr : List Event) (b : Bindings) : Prop where
  late : ∀ i, ¬ Precedes tr (.stopAsked i id) (.marked id .completed)
  published : ∀ record, .published id record ∈ tr → record.status = .completed → .marked id .completed ∈ tr
  released : .released job id ∈ tr →
    (∃ i, Precedes tr (.took i job id) (.released job id)) ∨ b.get? job ≠ some id ∧ ∀ i, .took i job id ∉ tr

/-- Events that neither end the execution nor publish it or let go of its binding. -/
private theorem Chronicle.goOn {b : Bindings} (h : Chronicle id job tr b) (hmarked : .marked id .completed ∉ evs)
    (hpublished : ∀ record, .published id record ∈ evs → record.status = .completed → .marked id .completed ∈ tr)
    (hreleased : .released job id ∉ evs) (hbound : .bound job id ∉ evs)
    (htook : ∀ i, .took i job id ∈ evs → b.get? job = some id)
    (hreturned : ∀ i, .returned i job id ∈ evs → .took i job id ∈ tr) :
    Chronicle id job (tr ++ evs) (evs.foldl Event.applyTo b) where
  late i hi := h.late i (hi.of_append hmarked)
  published record hr hcompleted := by
    apply List.mem_append_left _
    exact (List.mem_append.mp hr).elim (h.published record · hcompleted) (hpublished record · hcompleted)
  released hr := by
    rcases h.released ((List.mem_append.mp hr).resolve_right hreleased) with ⟨i, hi⟩ | ⟨hb, hnone⟩
    · exact .inl ⟨i, hi.append⟩
    · refine .inr ⟨fun hb' => ?_, fun i hi => ?_⟩
      · rcases Event.get?_foldl hb' with hb' | hb' | ⟨i, hb'⟩
        · exact hb hb'
        · exact hbound hb'
        · exact hnone i (hreturned i hb')
      · exact (List.mem_append.mp hi).elim (hnone i) fun hi => hb (htook i hi)

private structure Story (id : ExecutionId) (job : JobId) (tr : List Event) (x : Scene ω) : Prop where
  confined : x.IsConfined
  run : ∃ k r, x.run? k = some r ∧ r.execution.id = id ∧ r.IsAt id tr x.worker ∧
    ∀ j q, x.run? j = some q → q.execution.id = id → j = k
  calls : CallsTold tr x
  chronicle : Chronicle id job tr x.worker.bindings

/-- The listener of the completed execution lets go of its binding. -/
private theorem Chronicle.release {b : Bindings} (h : Chronicle id job tr b) :
    Chronicle id job (tr ++ [.released job id]) (b.forgetExecution job id).2 where
  late i hi := h.late i (hi.of_append (by simp))
  published record hr hcompleted := List.mem_append_left _ (h.published record (by simpa using hr) hcompleted)
  released _ := by
    by_cases htook : ∃ i, .took i job id ∈ tr
    · obtain ⟨i, hi⟩ := htook
      exact .inl ⟨i, precedes_of_mem hi (List.mem_singleton_self _)⟩
    · refine .inr ⟨?_, fun i hi => htook ⟨i, by simpa using hi⟩⟩
      rw [Bindings.forgetExecution]
      split
      · rw [Registry.get?_erase, if_pos rfl]
        simp
      · assumption

/-- The execution is marked completed before any call asked for its stop. -/
private theorem Chronicle.mark {b : Bindings} (h : Chronicle id job tr b) (hnone : ∀ i, .stopAsked i id ∉ tr) :
    Chronicle id job (tr ++ [.marked id .completed]) b where
  late i hi := hnone i (by simpa using hi.mem.1)
  published _ _ _ := List.mem_append_right _ (List.mem_singleton_self _)
  released hr := by
    rcases h.released (by simpa using hr) with ⟨i, hi⟩ | ⟨hb, htook⟩
    · exact .inl ⟨i, hi.append⟩
    · exact .inr ⟨hb, fun i => by simpa using htook i⟩

/-- The steps of the execution itself. -/
private theorem Chronicle.run {r r' : Run ω} {w w' : Worker ω} (h : Chronicle id job tr w.bindings)
    (hid : r.execution.id = id) (hat : r.IsAt id tr w) (hchange : Run.Change s r r' w w' evs) :
    r'.execution.id = id ∧ r'.IsAt id (tr ++ evs) w' ∧ Chronicle id job (tr ++ evs) w'.bindings := by
  have hbindings := hchange.bindings
  have hflag (hleaving : r.phase ≠ .leaving) : w.KeepsFlag id w' := hchange.keepsFlag fun _ => hleaving
  have hquiet (hevs : evs = []) : Chronicle id job (tr ++ evs) w'.bindings := by
    rw [hbindings]
    subst hevs
    exact h.goOn (by simp) (by simp) (by simp) (by simp) (by simp) (by simp)
  rw [Run.IsAt] at hat ⊢
  cases hchange with
  | starts hooks before after execution worker =>
    rw [before] at hat
    rw [after]
    exact ⟨by rw [execution]; exact hid,
      ⟨hat.goOn (hflag (by simp [before])) (by simp) (by simp), by rw [execution]; rfl⟩, hquiet rfl⟩
  | decides before after execution worker =>
    have hopen : IsOpen id tr w := by
      rcases before with before | before <;> rw [before] at hat
      · exact hat.1
      · exact hat
    refine ⟨by rw [execution]; exact hid, ?_, hquiet rfl⟩
    rcases after with after | after | ⟨result, after⟩ <;> rw [after, worker, List.append_nil] <;> exact hopen
  | works parts before after same parameters spares =>
    rw [before] at hat
    have hopen : IsOpen id (tr ++ []) w' := hat.goOn (hflag (by simp [before])) (by simp) (by simp)
    refine ⟨same.trans hid, ?_, hquiet rfl⟩
    rcases after with after | ⟨result, after⟩ <;> rw [after] <;> exact hopen
  | prepares hook rest more before after execution worker =>
    rw [before] at hat
    rw [after]
    have hflag := hflag (by simp [before])
    obtain ⟨hopen, hstarted⟩ := hat
    have hevents (event) (hevent : event ∈ hook.events r.execution) :
        ∃ record, event = .published id record ∧ record.status ≠ .completed := by
      rcases hook.mem_events hevent with ⟨record, rfl, hstatus⟩ | ⟨job', hcompleted, -⟩
      · exact ⟨record, by rw [hid], by simp [hstatus, hstarted]⟩
      · rw [hstarted] at hcompleted
        cases hcompleted
    have hnot {event : Event} (hne : ∀ record, event ≠ .published id record) : event ∉ hook.events r.execution := by
      intro he
      obtain ⟨record, heq, -⟩ := hevents event he
      exact hne record heq
    refine ⟨by rw [execution]; exact hid,
      ⟨hopen.goOn hflag (fun i hi => (hnot (by simp) hi).elim) (hnot (by simp)), ?_⟩, ?_⟩
    · rw [execution, hstarted]
    · rw [hbindings]
      refine h.goOn (hnot (by simp)) (fun record hr hcompleted => ?_) (hnot (by simp)) (hnot (by simp))
        (fun i hi => (hnot (by simp) hi).elim) fun i hi => (hnot (by simp) hi).elim
      obtain ⟨record', heq, hstatus⟩ := hevents _ hr
      cases heq
      exact absurd hcompleted hstatus
  | concludes result before after execution worker =>
    rw [before] at hat
    rw [after]
    have hid' : r'.execution.id = id := by rw [execution, Execution.conclude_id, hid]
    rw [hid'] at hbindings ⊢
    refine ⟨rfl, List.mem_append_right _ (List.mem_singleton_self _), ?_⟩
    by_cases hcompleted : r'.execution.status = .completed
    · have hflag : w.stopRequested id = false := by
        rw [execution, hid] at hcompleted
        exact (Execution.conclude_completed hcompleted).2
      rw [hbindings, hcompleted]
      exact h.mark fun i hi => by simp [hat.asked i hi] at hflag
    · rw [hbindings]
      exact h.goOn (by simpa [eq_comm] using hcompleted) (by simp) (by simp) (by simp) (by simp) (by simp)
  | leaves hooks before after execution worker =>
    rw [before] at hat
    rw [after]
    exact ⟨by rw [execution]; exact hid, by rw [execution, List.append_nil]; exact hat, hquiet rfl⟩
  | notifies hook rest more before after execution worker =>
    rw [before] at hat
    rw [after]
    refine ⟨by rw [execution]; exact hid, by rw [execution]; exact List.mem_append_left _ hat, ?_⟩
    by_cases hreleased : .released job id ∈ hook.events r.execution
    · rcases hook.mem_events hreleased with ⟨record, heq, -⟩ | ⟨job', -, heq, hevents⟩
      · cases heq
      · rw [hbindings, hevents]
        exact h.release
    · have hevents {event : Event} (he : event ∈ hook.events r.execution) :
          (∃ record, event = .published id record ∧ record.status = r.execution.status) ∨
            ∃ job', event = .released job' id := by
        rcases hook.mem_events he with ⟨record, rfl, hstatus⟩ | ⟨job', -, rfl, -⟩
        · exact .inl ⟨record, by rw [hid], hstatus⟩
        · exact .inr ⟨job', by rw [hid]⟩
      have hnot {event : Event} (hpublished : ∀ record, event ≠ .published id record)
          (hreleased : ∀ job', event ≠ .released job' id) : event ∉ hook.events r.execution := by
        intro he
        rcases hevents he with ⟨record, heq, -⟩ | ⟨job', heq⟩
        · exact hpublished record heq
        · exact hreleased job' heq
      rw [hbindings]
      refine h.goOn (hnot (by simp) (by simp)) (fun record hr hcompleted => ?_) hreleased (hnot (by simp) (by simp))
        (fun i hi => (hnot (by simp) (by simp) hi).elim) fun i hi => (hnot (by simp) (by simp) hi).elim
      rcases hevents hr with ⟨record', heq, hstatus⟩ | ⟨job', heq⟩ <;> cases heq
      rw [← hcompleted, hstatus]
      exact hat
  | ends before after execution worker =>
    rw [before] at hat
    rw [after]
    exact ⟨by rw [execution]; exact hid, by rw [execution, List.append_nil]; exact hat, hquiet rfl⟩

/-- The events of a run are about its own execution. -/
private theorem Run.Change.mem_events {r r' : Run ω} {w w' : Worker ω} (h : Run.Change s r r' w w' evs) {event : Event}
    (he : event ∈ evs) : (∃ status, event = .marked r.execution.id status) ∨
      (∃ record, event = .published r.execution.id record) ∨ ∃ job, event = .released job r.execution.id := by
  have hid := h.sameExecution
  have hhook (hook : Hook) (he : event ∈ hook.events r.execution) : _ := hook.mem_events he
  cases h with
  | prepares hook =>
    rcases hhook hook he with ⟨record, rfl, -⟩ | ⟨job, -, rfl, -⟩
    · exact .inr (.inl ⟨record, rfl⟩)
    · exact .inr (.inr ⟨job, rfl⟩)
  | notifies hook =>
    rcases hhook hook he with ⟨record, rfl, -⟩ | ⟨job, -, rfl, -⟩
    · exact .inr (.inl ⟨record, rfl⟩)
    · exact .inr (.inr ⟨job, rfl⟩)
  | concludes result => exact .inl ⟨r'.execution.status, by rw [← hid]; exact List.mem_singleton.mp he⟩
  | _ => cases he

/-- Moves that are not steps of the execution itself: they may ask for its stop and move its binding. -/
private theorem Story.others (h : Story id job tr x) (hflag : x.worker.KeepsFlag id x'.worker)
    (hruns : ∀ j q, x'.run? j = some q → x.run? j = some q ∨ q.execution.id ≠ id)
    (hkept : ∀ j q, x.run? j = some q → q.execution.id = id → x'.run? j = some q)
    (hconfined : x'.IsConfined) (hcalls : CallsTold (tr ++ evs) x')
    (hbindings : x'.worker.bindings = evs.foldl Event.applyTo x.worker.bindings)
    (hasked : ∀ i, .stopAsked i id ∈ evs → x.worker.isRunning id → x'.worker.stopRequested id)
    (hown : ∀ event ∈ evs, (∀ status, event ≠ .marked id status) ∧ (∀ record, event ≠ .published id record) ∧
      (∀ job', event ≠ .released job' id) ∧ ∀ job', event ≠ .bound job' id)
    (htook : ∀ i, .took i job id ∈ evs → x.worker.bindings.get? job = some id)
    (hreturned : ∀ i, .returned i job id ∈ evs → .took i job id ∈ tr) : Story id job (tr ++ evs) x' := by
  obtain ⟨k, r, hr, hid, hat, hsingle⟩ := h.run
  have hmarked : .marked id .completed ∉ evs := fun he => (hown _ he).1 _ rfl
  refine ⟨hconfined, ⟨k, r, hkept k r hr hid, hid, hat.goOn hflag hasked hmarked, fun j q hq hqid => ?_⟩, hcalls, ?_⟩
  · exact hsingle j q ((hruns j q hq).resolve_right fun hne => hne hqid) hqid
  · rw [hbindings]
    exact h.chronicle.goOn hmarked (fun record he _ => ((hown _ he).2.1 record rfl).elim)
      (fun he => (hown _ he).2.2.1 job rfl) (fun he => (hown _ he).2.2.2 job rfl) htook hreturned

private theorem Story.play {m : Move ω} (h : Story id job tr x) (hs : s.operator = .ofRunningSet ω)
    (hm : ∀ job', m ≠ .deed (.bind id job')) (hplay : x.play? s m = some (evs, x')) : Story id job (tr ++ evs) x' := by
  have hconfined := Scene.play_confined h.confined hplay
  have hbindings := Scene.play_bindings h.confined hplay
  cases Scene.play_change hplay with
  | run i q q' there step tasks =>
    obtain ⟨-, hchange⟩ := Run.step_change (h.confined q (List.mem_of_getElem? there)) step
    have hcalls : CallsTold (tr ++ q.events q') x' := h.calls.append (Scene.call?_after_run there tasks)
    obtain ⟨k, r, hr, hid, hat, hsingle⟩ := h.run
    have hq := Scene.run?_of_there there
    by_cases hown : q.execution.id = id
    · have hatq : q.IsAt id tr x.worker := by
        rw [← hsingle i q hq hown, hq] at hr
        cases hr
        exact hat
      obtain ⟨hid', hat', hchronicle⟩ := h.chronicle.run hown hatq hchange
      refine ⟨hconfined, ⟨i, q', by rw [Scene.run?_after_run there tasks, if_pos rfl], hid', hat',
        fun j p hp hpid => ?_⟩, hcalls, hchronicle⟩
      rw [Scene.run?_after_run there tasks] at hp
      split at hp
      · assumption
      · exact (hsingle j p hp hpid).trans (hsingle i q hq hown).symm
    · have hother {event : Event} (he : event ∈ q.events q') := hchange.mem_events he
      refine h.others (hchange.keepsFlag fun e => absurd e hown) (fun j p hp => ?_) (fun j p hp hpid => ?_) hconfined
        hcalls hbindings (fun j he => ?_) (fun event he => ?_) (fun j he => ?_) fun j he => ?_
      · rw [Scene.run?_after_run there tasks] at hp
        split at hp
        · cases hp
          exact .inr (by rwa [hchange.sameExecution])
        · exact .inl hp
      · rw [Scene.run?_after_run there tasks, if_neg, hp]
        rintro rfl
        rw [hq] at hp
        cases hp
        exact hown hpid
      · rcases hother he with ⟨_, e⟩ | ⟨_, e⟩ | ⟨_, e⟩ <;> cases e
      · rcases hother he with ⟨_, rfl⟩ | ⟨_, rfl⟩ | ⟨_, rfl⟩ <;> simp [hown]
      · rcases hother he with ⟨_, e⟩ | ⟨_, e⟩ | ⟨_, e⟩ <;> cases e
      · rcases hother he with ⟨_, e⟩ | ⟨_, e⟩ | ⟨_, e⟩ <;> cases e
  | call i c c' there step tasks =>
    obtain ⟨hjob, hchange⟩ := RollbackCall.step_change i step
    obtain ⟨hflag, hasked⟩ := hchange.keepsFlag id hs
    have hcalls := h.calls.call there tasks hjob hchange
    have hcall := Scene.call?_of_there there
    generalize c.events i c' = evs at *
    refine h.others hflag (fun j p hp => ?_) (fun j p hp _ => ?_) hconfined hcalls hbindings ?_ ?_ ?_ ?_
    · exact .inl (by rwa [← Scene.run?_after_call there tasks])
    · rwa [Scene.run?_after_call there tasks]
    · intro j he hrunning
      obtain rfl : j = i := by cases hchange <;> simp_all
      exact hasked he hrunning
    · cases hchange <;> simp
    · intro j he
      cases hchange with
      | takes id' before after bound =>
        obtain ⟨-, rfl, rfl⟩ : j = i ∧ job = c.job ∧ id = id' := by simpa using he
        exact bound
      | _ => simp at he
    · intro j he
      cases hchange with
      | returns id' f before =>
        obtain ⟨rfl, rfl, rfl⟩ : j = i ∧ job = c.job ∧ id = id' := by simpa using he
        exact (h.calls j c id hcall (.inl (by rw [before]; rfl))).1
      | _ => simp at he
  | timeOut i c c' there late worker tasks =>
    obtain ⟨hjob, before, held, brought⟩ := RollbackCall.timeOut_held late
    refine h.others (.of_running (by rw [worker])) (fun j p hp => ?_) (fun j p hp _ => ?_) hconfined
      (h.calls.goesOn there tasks hjob before held brought) hbindings (by simp) (by simp) (by simp) (by simp)
    · exact .inl (by rwa [← Scene.run?_after_call there tasks])
    · rwa [Scene.run?_after_call there tasks]
  | deed d worker tasks =>
    have hrun (j : Nat) : x'.run? j = x.run? j := by rw [Scene.run?, Scene.run?, tasks]
    refine h.others (worker ▸ d.keepsFlag x.worker) (fun j p hp => .inl (by rwa [← hrun]))
      (fun j p hp _ => by rwa [hrun]) hconfined (h.calls.append fun i => by rw [Scene.call?, Scene.call?, tasks])
      hbindings ?_ ?_ ?_ ?_
    · cases d <;> simp [Deed.events]
    · cases d with
      | bind id' job' =>
        have hne : id ≠ id' := fun e => hm job' (by rw [e])
        simp [Deed.events, hne.symm]
      | _ => simp [Deed.events]
    · cases d <;> simp [Deed.events]
    · cases d <;> simp [Deed.events]

end Invariant

/-- One run of the scene is about to start, that of a prepared execution; calls are about to begin. -/
structure Scene.IsBefore {ω : Type} (id : ExecutionId) (x : Scene ω) : Prop where
  confined : x.IsConfined
  fresh : x.IsFresh
  run : ∃ k r, x.run? k = some r ∧ r.execution.id = id ∧ r.phase = .starting ∧
    ∀ j q, x.run? j = some q → q.execution.id = id → j = k
  prepared : x.worker.isRunning id

section Exclusion

variable {ω : Type} {s : Surroundings ω} {id : ExecutionId} {job : JobId} {tr : List Event} {x x' : Scene ω}

private theorem Story.nil (h : x.IsBefore id) : Story id job [] x := by
  obtain ⟨k, r, hr, hid, hphase, hsingle⟩ := h.run
  refine ⟨h.confined, ⟨k, r, hr, hid, ?_, hsingle⟩, ?_, ?_, ?_, ?_⟩
  · rw [Run.IsAt]
    rw [hphase]
    exact ⟨h.prepared, by simp, by simp⟩
  · intro i c id' hc hid'
    rw [h.fresh i c hc] at hid'
    obtain hid' | hid' := hid' <;> cases hid'
  · intro i hi
    cases hi.mem.1
  · simp
  · simp

/-- An execution runs while calls roll its job back. If it is published as completed and a call has rolled it back
nevertheless, then no call had asked for its stop before it was marked completed, so that this one came too late; and if
the rollback listener has let go of its binding, then a call had taken the binding before. -/
theorem rollback_of_completed_is_late (hbefore : x.IsBefore id) (hoperator : s.operator = .ofRunningSet ω)
    {moves : List (Move ω)} (hbound : ∀ m ∈ moves, ∀ job', m ≠ .deed (.bind id job'))
    (hplay : x.playAll? s moves = some (tr, x')) {record : StatusRecord} (hpublished : .published id record ∈ tr)
    (hcompleted : record.status = .completed) {i : Nat} {c : RollbackCall} (hcall : x'.call? i = some c)
    (hjob : c.job = job) {message : String} (hresult : c.result? = some (.ok (.rolledBack id message))) :
    Precedes tr (.marked id .completed) (.stopAsked i id) ∧
      (∀ j, ¬ Precedes tr (.stopAsked j id) (.marked id .completed)) ∧
      (.released job id ∈ tr → ∃ j, Precedes tr (.took j job id) (.released job id)) := by
  have h : Story id job ([] ++ tr) x' := Scene.playAll_keeps (fun m => ∀ job', m ≠ .deed (.bind id job'))
    (fun _ _ _ _ _ hm h hstep => h.play hoperator hm hstep) hbound (Story.nil hbefore) hplay
  rw [List.nil_append] at h
  have hbrought : c.phase.brought? = some id := by
    obtain ⟨job, phase⟩ := c
    cases phase <;> cases hresult
    rfl
  have hmarked := h.chronicle.published record hpublished hcompleted
  obtain ⟨htook, hasked⟩ := h.calls i c id hcall (.inr hbrought)
  have hasked : .stopAsked i id ∈ tr := hasked.resolve_left fun e => by rw [e] at hbrought; cases hbrought
  refine ⟨?_, h.chronicle.late, fun hreleased => ?_⟩
  · exact (precedes_total (by simp) hmarked hasked).resolve_right (h.chronicle.late i)
  · rcases h.chronicle.released hreleased with hi | ⟨-, hnone⟩
    · exact hi
    · rw [hjob] at htook
      exact absurd htook (hnone i)

end Exclusion

namespace LateCall

/-- An update job about to run, with the listeners of an export, and a call to roll it back. -/
def scene : Scene Unit where
  worker := {
    nextId := 2
    running := RunningSet.enrol .empty 1
    bindings := Registry.put .empty ⟨"J1"⟩ 1
    snapshots := Registry.put .empty ⟨"J1"⟩ "snapshot.json"
    cache := .new 0 [] none
    files := .empty []
    now := ⟨0, 0⟩
    outside := () }
  tasks := [
    .run {
      listeners := [.notifier [], .rollback]
      job := []
      execution := .new 1 "orders-export" [(Key.jobId, "J1")] ⟨0, 0⟩ },
    .rollback { job := ⟨"J1"⟩ }]

/-- The call comes when the execution has left and its listeners have not begun. -/
def moves : List (Move Unit) := List.replicate 7 (.step 0) ++ List.replicate 6 (.step 1) ++ List.replicate 5 (.step 0)

private def isCompletion : Event → Bool
  | .published 1 record => record.status = .completed
  | _ => false

private def answer? (x : Scene Unit) : Option (ExecutionId × String) :=
  match x.call? 1 with
  | some ⟨⟨"J1"⟩, .ended (.ok (.rolledBack id message))⟩ => some (id, message)
  | _ => none

private def message : String := "Execution 1 of job J1 had already finished; snapshot.json restored to snapshot.json"

private theorem played :
    (scene.playAll? .quiet moves).map (fun (tr, x) => (tr.any isCompletion, answer? x,
      tr.filter (·.job? = some ⟨"J1"⟩))) =
    some (true, some (1, message),
      [.took 1 ⟨"J1"⟩ 1, .restored 1 ⟨"J1"⟩ "snapshot.json", .released ⟨"J1"⟩ 1]) := by
  decide

private theorem outcome : ∃ tr x, scene.playAll? .quiet moves = some (tr, x) ∧
    (∃ record, .published 1 record ∈ tr ∧ record.status = .completed) ∧ .restored 1 ⟨"J1"⟩ "snapshot.json" ∈ tr ∧
    .released ⟨"J1"⟩ 1 ∈ tr ∧
    ∃ c, x.call? 1 = some c ∧ c.job = ⟨"J1"⟩ ∧ c.result? = some (.ok (.rolledBack 1 message)) := by
  obtain ⟨⟨tr, x⟩, hplay, h⟩ := Option.map_eq_some_iff.mp played
  simp only [Prod.mk.injEq] at h
  obtain ⟨hpublished, hanswer, htr⟩ := h
  have hmem (event : Event) (h : event ∈ tr.filter (·.job? = some ⟨"J1"⟩)) : event ∈ tr := (List.mem_filter.mp h).1
  refine ⟨tr, x, hplay, ?_, hmem _ (by simp [htr]), hmem _ (by simp [htr]), ?_⟩
  · obtain ⟨event, hevent, hcompletion⟩ := List.any_eq_true.mp hpublished
    unfold isCompletion at hcompletion
    split at hcompletion
    · exact ⟨_, hevent, by simpa using hcompletion⟩
    · cases hcompletion
  · rw [answer?] at hanswer
    split at hanswer
    · cases hanswer
      exact ⟨_, ‹_›, rfl, rfl⟩
    · cases hanswer

private theorem before : scene.IsBefore 1 where
  confined r hr := by
    obtain rfl : r = _ := by simpa [scene] using hr
    intro p hp
    cases hp
  fresh i c hc := by
    match i with
    | 0 => cases hc
    | 1 => cases hc; rfl
    | i + 2 => cases hc
  run := by
    refine ⟨0, _, rfl, rfl, rfl, fun j q hq _ => ?_⟩
    match j with
    | 0 => rfl
    | 1 => cases hq
    | j + 2 => cases hq
  prepared := by decide

/-- A call that comes before the listeners restores the snapshot of a job that is published as completed. -/
theorem completed_and_rolled_back :
    scene.IsBefore 1 ∧ scene.worker.bindings.get? ⟨"J1"⟩ = some 1 ∧
      scene.worker.snapshots.get? ⟨"J1"⟩ = some "snapshot.json" ∧
      ∃ tr x, scene.playAll? .quiet moves = some (tr, x) ∧
        (∃ record, .published 1 record ∈ tr ∧ record.status = .completed) ∧
        .restored 1 ⟨"J1"⟩ "snapshot.json" ∈ tr ∧
        ∃ c message, x.call? 1 = some c ∧ c.result? = some (.ok (.rolledBack 1 message)) := by
  obtain ⟨tr, x, hplay, hpublished, hrestored, -, c, hcall, -, hresult⟩ := outcome
  exact ⟨before, rfl, rfl, tr, x, hplay, hpublished, hrestored, c, message, hcall, hresult⟩

theorem rollback_of_completed_after_mark :
    ∃ tr x, scene.playAll? .quiet moves = some (tr, x) ∧ .released ⟨"J1"⟩ 1 ∈ tr ∧
      Precedes tr (.marked 1 .completed) (.stopAsked 1 1) ∧
      ∃ j, Precedes tr (.took j ⟨"J1"⟩ 1) (.released ⟨"J1"⟩ 1) := by
  obtain ⟨tr, x, hplay, ⟨record, hpublished, hcompleted⟩, -, hreleased, c, hcall, hjob, hresult⟩ := outcome
  have hmoves : ∀ m ∈ moves, ∀ job', m ≠ .deed (.bind 1 job') := by
    intro m hm job'
    simp only [moves, List.mem_append, List.mem_replicate] at hm
    rcases hm with (⟨-, rfl⟩ | ⟨-, rfl⟩) | ⟨-, rfl⟩ <;> simp
  obtain ⟨hlate, -, htook⟩ :=
    rollback_of_completed_is_late before rfl hmoves hplay hpublished hcompleted hcall hjob hresult
  exact ⟨tr, x, hplay, hreleased, hlate, htook hreleased⟩

end LateCall
end BatchExport
