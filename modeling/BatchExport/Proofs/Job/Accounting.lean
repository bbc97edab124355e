import BatchExport.Proofs.Job.FlowLog

/-! What a step that succeeds has counted, written and skipped. Main statement: its counters and its writer account for
every item that was pulled, once and in order. -/
namespace BatchExport

variable {σ ι ο : Type}

namespace FlowLog

variable (log : FlowLog ι ο) (item : ι)

@[simp] theorem processed_process (outcome : Except Failure (Option ο)) :
    (log.process item outcome).processed = log.processed ++ [(item, outcome)] := rfl

@[simp] theorem delivered_process (outcome : Except Failure (Option ο)) :
    (log.process item outcome).delivered = log.delivered := rfl

@[simp] theorem outputs_process_ok (output? : Option ο) :
    (log.process item (.ok output?)).outputs = log.outputs ++ output?.toList := by
  rw [outputs]
  rw [processed_process, List.filterMap_append]
  cases output? <;> rfl

@[simp] theorem outputs_process_error (f : Failure) : (log.process item (.error f)).outputs = log.outputs := by
  rw [outputs]
  rw [processed_process, List.filterMap_append]
  exact List.append_nil _

@[simp] theorem failures_process_ok (output? : Option ο) : (log.process item (.ok output?)).failures = log.failures := by
  simp [failures, failure?]

@[simp] theorem failures_process_error (f : Failure) :
    (log.process item (.error f)).failures = log.failures ++ [f] := by
  simp [failures, failure?]

@[simp] theorem filtered_process (outcome : Except Failure (Option ο)) :
    (log.process item outcome).filtered = log.filtered + if isNothing outcome then 1 else 0 := by
  simp [filtered, List.countP_append, List.countP_singleton]

@[simp] theorem processed_deliver (answer : Except Failure (Option ι)) :
    (log.deliver answer).processed = log.processed := by
  cases answer with
  | error f => rfl
  | ok item? => cases item? <;> rfl

@[simp] theorem outputs_deliver (answer : Except Failure (Option ι)) : (log.deliver answer).outputs = log.outputs := by
  simp [outputs]

@[simp] theorem failures_deliver (answer : Except Failure (Option ι)) :
    (log.deliver answer).failures = log.failures := by
  simp [failures]

@[simp] theorem filtered_deliver (answer : Except Failure (Option ι)) :
    (log.deliver answer).filtered = log.filtered := by
  simp [filtered]

/-- An item has an output, has failed or comes to nothing. -/
theorem length_processed (log : FlowLog ι ο) :
    log.outputs.length + log.failures.length + log.filtered = log.processed.length := by
  obtain ⟨delivered, processed⟩ := log
  induction processed with
  | nil => rfl
  | cons p processed ih =>
    obtain ⟨item, outcome⟩ := p
    have houtputs : outputs ⟨delivered, (item, outcome) :: processed⟩ =
        (output? outcome).toList ++ outputs ⟨delivered, processed⟩ := by
      cases h : output? outcome <;> simp [outputs, h]
    have hfailures : failures ⟨delivered, (item, outcome) :: processed⟩ =
        (failure? outcome).toList ++ failures ⟨delivered, processed⟩ := by
      cases h : failure? outcome <;> simp [failures, h]
    have hfiltered : filtered ⟨delivered, (item, outcome) :: processed⟩ =
        filtered ⟨delivered, processed⟩ + if isNothing outcome then 1 else 0 := List.countP_cons
    rw [houtputs, hfailures, hfiltered, List.length_append, List.length_append]
    have hone : (output? outcome).toList.length + (failure? outcome).toList.length +
        (if isNothing outcome then 1 else 0) = 1 := by
      cases outcome with
      | error f => rfl
      | ok answer => cases answer <;> rfl
    dsimp only [List.length_cons] at ih ⊢
    omega

end FlowLog

/-- The state of a flow tells what was written and what was skipped. Pulling and processing do not change that. -/
structure ItemFlow.Tells (flow : ItemFlow σ ι ο) (tells : List ο → List Failure → σ → Prop) : Prop where
  next {written skipped x x' item?} (h : tells written skipped x) (hrun : flow.next.run x = some (.ok item?, x')) :
    tells written skipped x'
  process {written skipped x x' item outcome} (h : tells written skipped x)
    (hrun : (flow.process item).run x = some (outcome, x')) : tells written skipped x'
  write {written skipped x x' items} (h : tells written skipped x)
    (hrun : (flow.write items).run x = some (.ok (), x')) : tells (written ++ items) skipped x'
  writeSkipped {written skipped x x' f} (h : tells written skipped x)
    (hrun : (flow.writeSkipped f).run x = some (.ok (), x')) : tells written (skipped ++ [f]) x'

namespace ChunkStep

variable {s : ChunkStep σ ι ο} {tells : List ο → List Failure → σ → Prop} {pending : List ι} {chunk chunk' : List ο}
  {run run' : StepRun} {log log' : FlowLog ι ο} {x x' : σ}

/-- The counters and the flow account for what was pulled: pending items have not been processed, and what is in the
chunk has not been written. -/
structure Accounts (s : ChunkStep σ ι ο) (tells : List ο → List Failure → σ → Prop) (pending : List ι) (chunk : List ο)
    (run : StepRun) (log : FlowLog ι ο) (x : σ) : Prop where
  inOrder : log.processed.map (·.1) ++ pending = log.delivered
  read : run.read = log.processed.length
  filtered : run.filtered = log.filtered
  skipped : run.skipped = log.failures.length
  skippable : ∀ f ∈ log.failures, f.isSkippable
  answered : ∀ p ∈ log.processed, ∃ y y', (s.flow.process p.1).run y = some (p.2, y')
  written : ∃ written, written ++ chunk = log.outputs ∧ run.written = written.length ∧ tells written log.failures x

private theorem onFlow_some {α : Type} {e : Effect σ α} {r : Except Failure α}
    (hrun : (onFlow (e.onPart (·.2) fun x y => (y.1, x))).run (run, log, x) = some (r, run', log', x')) :
    run' = run ∧ log' = log ∧ e.run x = some (r, x') := by
  obtain ⟨y, hpart, heq⟩ := Effect.onPart_some hrun
  obtain ⟨z, he, heq'⟩ := Effect.onPart_some hpart
  cases heq'
  cases heq
  exact ⟨rfl, rfl, he⟩

private theorem attempt_some {item : ι} {r : Except Failure (Except Failure (Option ο))}
    (hrun : (onFlow (s.logged.flow.process item)).attempt.run (run, log, x) = some (r, run', log', x')) :
    ∃ outcome, r = .ok outcome ∧ run' = run ∧ log' = log.process item outcome ∧
      (s.flow.process item).run x = some (outcome, x') := by
  obtain ⟨⟨outcome, y⟩, hpart, heq⟩ := Option.map_eq_some_iff.mp hrun
  obtain ⟨z, hprocess, heq'⟩ := Effect.onPart_some hpart
  obtain ⟨⟨outcome', x₁⟩, hanswer, heq''⟩ := Option.map_eq_some_iff.mp hprocess
  cases heq''
  cases heq'
  cases heq
  exact ⟨outcome, rfl, rfl, rfl, hanswer⟩

variable (hflow : s.flow.Tells tells)
include hflow

private theorem next_accounts {item? : Option ι} (h : s.Accounts tells [] chunk run log x)
    (hrun : (onFlow s.logged.flow.next).run (run, log, x) = some (.ok item?, run', log', x')) :
    s.Accounts tells item?.toList chunk run' log' x' := by
  obtain ⟨y, hnext, heq⟩ := Effect.onPart_some hrun
  obtain ⟨⟨answer, x₁⟩, hanswer, heq'⟩ := Option.map_eq_some_iff.mp hnext
  cases heq'
  cases heq
  obtain ⟨written, hchunk, hcount, htells⟩ := h.written
  have hwritten := hflow.next htells hanswer
  cases item? with
  | none => exact ⟨h.inOrder, h.read, h.filtered, h.skipped, h.skippable, h.answered, written, hchunk, hcount, hwritten⟩
  | some item =>
    refine ⟨?_, h.read, h.filtered, h.skipped, h.skippable, h.answered, written, hchunk, hcount, hwritten⟩
    have hdelivered : log.processed.map (·.1) = log.delivered := by simpa using h.inOrder
    simp [FlowLog.deliver, hdelivered]

private theorem flush_accounts (h : s.Accounts tells [] chunk run log x)
    (hrun : (s.logged.flush chunk).run (run, log, x) = some (.ok (), run', log', x')) :
    s.Accounts tells [] [] run' log' x' := by
  obtain ⟨written, hchunk, hcount, htells⟩ := h.written
  rw [flush] at hrun
  split at hrun
  · have hempty : chunk = [] := by simpa using ‹chunk.isEmpty = true›
    subst chunk
    cases hrun
    exact h
  · obtain ⟨⟨⟩, ⟨run₁, log₁, x₁⟩, hwrite, hcounted⟩ := Effect.bind_ok hrun
    obtain ⟨rfl, rfl, hwritten⟩ := onFlow_some (e := s.flow.write chunk) hwrite
    cases hcounted
    refine ⟨h.inOrder, h.read, h.filtered, h.skipped, h.skippable, h.answered, log'.outputs, by simp, ?_, ?_⟩
    · rw [← hchunk, List.length_append, ← hcount]
    · rw [← hchunk]
      exact hflow.write htells hwritten

private theorem handle_accounts {item : ι} (h : s.Accounts tells [item] chunk run log x)
    (hrun : (s.logged.handle chunk item).run (run, log, x) = some (.ok chunk', run', log', x')) :
    s.Accounts tells [] chunk' run' log' x' := by
  obtain ⟨written, hchunk, hcount, htells⟩ := h.written
  obtain ⟨⟨⟩, y, hcounted, hrun⟩ := Effect.bind_ok hrun
  cases hcounted
  obtain ⟨outcome, ⟨run₁, log₁, x₁⟩, hattempt, hrun⟩ := Effect.bind_ok hrun
  obtain ⟨outcome, heq, rfl, rfl, hanswer⟩ := attempt_some hattempt
  cases heq
  have hkept := hflow.process htells hanswer
  have hanswered (p : ι × Except Failure (Option ο)) (hp : p ∈ (log.process item outcome).processed) :
      ∃ y y', (s.flow.process p.1).run y = some (p.2, y') := by
    rcases List.mem_append.mp hp with hp | hp
    · exact h.answered p hp
    · cases List.mem_singleton.mp hp
      exact ⟨x, x₁, hanswer⟩
  have hinOrder : (log.process item outcome).processed.map (·.1) ++ [] = (log.process item outcome).delivered := by
    simpa using h.inOrder
  cases outcome with
  | ok output? =>
    have hskipped : run.skipped = (log.process item (.ok output?)).failures.length := by simpa using h.skipped
    have hskippable : ∀ f ∈ (log.process item (.ok output?)).failures, f.isSkippable := by simpa using h.skippable
    cases output? with
    | some output =>
      cases hrun
      refine ⟨hinOrder, by simp [h.read], by simp [h.filtered, FlowLog.isNothing], hskipped, hskippable, hanswered,
        written, by simp [← hchunk], hcount, by simpa using hkept⟩
    | none =>
      obtain ⟨⟨⟩, y, hfiltered, hrun⟩ := Effect.bind_ok hrun
      cases hfiltered
      cases hrun
      refine ⟨hinOrder, by simp [h.read], by simp [h.filtered, FlowLog.isNothing], hskipped, hskippable, hanswered,
        written, by simp [← hchunk], hcount, by simpa using hkept⟩
  | error f =>
    dsimp only at hrun
    split at hrun
    · obtain ⟨⟨⟩, y, hcounted, hrun⟩ := Effect.bind_ok hrun
      cases hcounted
      obtain ⟨⟨⟩, ⟨run₂, log₂, x₂⟩, hwrite, hrun⟩ := Effect.bind_ok hrun
      obtain ⟨rfl, rfl, hskipped⟩ := onFlow_some (e := s.flow.writeSkipped f) hwrite
      cases hrun
      have hskippable : ∀ f' ∈ (log.process item (.error f)).failures, f'.isSkippable := by
        intro f' hf'
        rw [FlowLog.failures_process_error] at hf'
        rcases List.mem_append.mp hf' with hf' | hf'
        · exact h.skippable f' hf'
        · cases List.mem_singleton.mp hf'
          assumption
      refine ⟨hinOrder, by simp [h.read], by simp [h.filtered, FlowLog.isNothing], by simp [h.skipped], hskippable,
        hanswered, written, by simpa using hchunk, hcount, ?_⟩
      rw [FlowLog.failures_process_error]
      exact hflow.writeSkipped hkept hskipped
    · cases hrun

private theorem settle_accounts (h : s.Accounts tells [] chunk run log x)
    (hrun : (s.logged.settle chunk).run (run, log, x) = some (.ok chunk', run', log', x')) :
    s.Accounts tells [] chunk' run' log' x' := by
  rw [settle] at hrun
  split at hrun
  · cases hrun
    exact h
  · obtain ⟨⟨⟩, ⟨run₁, log₁, x₁⟩, hflush, hrun⟩ := Effect.bind_ok hrun
    cases hrun
    exact flush_accounts hflow h hflush

private theorem drain_accounts {fuel : Nat} {ending : Ending} (h : s.Accounts tells [] chunk run log x)
    (hrun : (s.logged.drain fuel chunk).run (run, log, x) = some (.ok ending, run', log', x')) :
    s.Accounts tells [] [] run' log' x' := by
  induction fuel generalizing chunk run log x with
  | zero =>
    rw [drain] at hrun
    obtain ⟨stopped, y, hstopped, hrun⟩ := Effect.bind_ok hrun
    cases hstopped
    split at hrun
    · obtain ⟨⟨⟩, ⟨run₁, log₁, x₁⟩, hflush, hrun⟩ := Effect.bind_ok hrun
      cases hrun
      exact flush_accounts hflow h hflush
    · cases hrun
  | succ fuel ih =>
    rw [drain] at hrun
    obtain ⟨stopped, y, hstopped, hrun⟩ := Effect.bind_ok hrun
    cases hstopped
    split at hrun
    · obtain ⟨⟨⟩, ⟨run₁, log₁, x₁⟩, hflush, hrun⟩ := Effect.bind_ok hrun
      cases hrun
      exact flush_accounts hflow h hflush
    · obtain ⟨item?, ⟨run₁, log₁, x₁⟩, hnext, hrun⟩ := Effect.bind_ok hrun
      have hdelivered := next_accounts hflow h hnext
      cases item? with
      | none =>
        obtain ⟨⟨⟩, ⟨run₂, log₂, x₂⟩, hflush, hrun⟩ := Effect.bind_ok hrun
        cases hrun
        exact flush_accounts hflow hdelivered hflush
      | some item =>
        obtain ⟨chunk₁, ⟨run₂, log₂, x₂⟩, hhandle, hrun⟩ := Effect.bind_ok hrun
        obtain ⟨chunk₂, ⟨run₃, log₃, x₃⟩, hsettle, hrun⟩ := Effect.bind_ok hrun
        have hhandled := handle_accounts hflow hdelivered hhandle
        exact ih (settle_accounts hflow hhandled hsettle) hrun

/-- The counters of a step that succeeds, and what is told before its writer is closed, account for every item. -/
theorem body_accounts {fuel : Nat} {ending : Ending} {name : String} (h : tells [] [] x)
    (hrun : (s.logged.body fuel).run ({ name }, {}, x) = some (.ok ending, run', log', x')) :
    ∃ y, s.Accounts tells [] [] run' log' y ∧ s.flow.close.run y = some (.ok (), x') := by
  have hstart : s.Accounts tells [] [] { name } {} x := by
    refine ⟨rfl, rfl, rfl, rfl, ?_, ?_, [], rfl, rfl, h⟩
    · intro f hf
      cases hf
    · intro p hp
      cases hp
  rw [body] at hrun
  obtain ⟨drained, ⟨run₁, log₁, x₁⟩, hdrain, hrest⟩ := Effect.bind_ok hrun
  obtain ⟨⟨⟩, ⟨run₂, log₂, x₂⟩, hclose, heq⟩ := Effect.bind_ok hrest
  cases heq
  obtain ⟨rfl, rfl, hclosed⟩ := onFlow_some (e := s.flow.close) hclose
  exact ⟨x₁, drain_accounts hflow hstart hdrain, hclosed⟩

end ChunkStep
end BatchExport
