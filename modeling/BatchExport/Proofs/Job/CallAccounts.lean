import BatchExport.Proofs.Job.Accounting
import BatchExport.Proofs.Job.Calls
import BatchExport.Proofs.Job.RunsOut

/-! The counters of a step and its calls. Main statement: however a step ends, they account for every item, and it does
end if the items run out. -/
namespace BatchExport

variable {σ ι ο : Type}

namespace ChunkStep
open FlowCalls

variable {s : ChunkStep σ ι ο} {chunk : List ο} {run : StepRun} {calls : FlowCalls ι ο} {call : FlowCall ι ο} {x : σ}

theorem size_pos (s : ChunkStep σ ι ο) : 0 < s.size := Nat.lt_of_lt_of_le Nat.zero_lt_one (Nat.le_max_right _ _)

/-- The counters of a step agree with its calls: every item is processed, in order, what is written is a beginning of
what came out, in full chunks but for the last one, and every item to skip was reported. -/
structure Accounted (s : ChunkStep σ ι ο) (run : StepRun) (calls : FlowCalls ι ο) : Prop where
  inOrder : (log calls).processed.map (·.1) = (log calls).delivered
  outputs : written calls <+: (log calls).outputs
  sizes : ∀ chunk ∈ chunks calls, chunk ≠ [] ∧ chunk.length ≤ s.size
  full : ∀ chunk ∈ (chunks calls).dropLast, chunk.length = s.size
  skips : skips calls = (log calls).failures.filter (·.isSkippable)
  name : run.name = s.name
  read : run.read = (log calls).processed.length
  written : run.written = (written calls).length
  filtered : run.filtered = (log calls).filtered
  skipped : run.skipped = (FlowCalls.skips calls).length

/-- All that came out is written, and the writer was closed once, last. -/
structure Finished (s : ChunkStep σ ι ο) (run : StepRun) (calls : FlowCalls ι ο) : Prop extends Accounted s run calls where
  balance : run.read = run.written + run.filtered + run.skipped
  all : FlowCalls.written calls = (log calls).outputs
  closed : ∃ earlier, calls = earlier ++ [.closed (.ok ())] ∧ Going earlier

/-- The last call failed and no other did; the writer was closed at most by that call. -/
structure BrokenOff (s : ChunkStep σ ι ο) (f : Failure) (run : StepRun) (calls : FlowCalls ι ο) : Prop
    extends Accounted s run calls where
  atLeast : run.written + run.filtered + run.skipped ≤ run.read
  atMost : run.read ≤ run.written + run.filtered + run.skipped + s.size
  cause : ∃ earlier last, calls = earlier ++ [last] ∧ last.failure? = some f ∧ Going earlier

/-- Between two items: what is in the chunk has not been written. -/
structure Midway (s : ChunkStep σ ι ο) (chunk : List ο) (run : StepRun) (calls : FlowCalls ι ο) : Prop
    extends Accounted s run calls where
  pending : FlowCalls.written calls ++ chunk = (log calls).outputs
  skippable : ∀ f ∈ (log calls).failures, f.isSkippable
  going : Going calls

namespace Accounted

theorem atLeast (h : Accounted s run calls) : run.written + run.filtered + run.skipped ≤ run.read := by
  have houtputs := h.outputs.length_le
  have hfailures : (FlowCalls.skips calls).length ≤ (log calls).failures.length := by
    rw [h.skips]
    exact List.length_filter_le _ _
  have hprocessed := FlowLog.length_processed (log calls)
  rw [h.read, h.written, h.filtered, h.skipped]
  omega

theorem finish (h : Accounted s run calls) (status : BatchStatus) (now : Instant) :
    Accounted s (run.finish status now) calls :=
  ⟨h.inOrder, h.outputs, h.sizes, h.full, h.skips, h.name, h.read, h.written, h.filtered, h.skipped⟩

theorem empty : Accounted s { name := s.name } [] := by
  refine ⟨rfl, List.prefix_rfl, ?_, ?_, rfl, rfl, rfl, rfl, rfl, rfl⟩
  · intro chunk hchunk
    cases hchunk
  · intro chunk hchunk
    cases hchunk

/-- A call that neither brings an item nor is about one. -/
theorem concat (h : Accounted s run calls) (hlog : log (calls.note call) = log calls) (hchunk : call.chunk? = none)
    (hwritten : call.written = []) (hskipped : call.skipped? = none) : Accounted s run (calls.note call) := by
  have hchunks : chunks (calls.note call) = chunks calls := by simp [hchunk]
  have hall : FlowCalls.written (calls.note call) = FlowCalls.written calls := by simp [hwritten]
  have hskips : FlowCalls.skips (calls.note call) = FlowCalls.skips calls := by simp [hskipped]
  constructor
  · rw [hlog]
    exact h.inOrder
  · rw [hlog, hall]
    exact h.outputs
  · rw [hchunks]
    exact h.sizes
  · rw [hchunks]
    exact h.full
  · rw [hlog, hskips]
    exact h.skips
  · exact h.name
  · rw [hlog]
    exact h.read
  · rw [hall]
    exact h.written
  · rw [hlog]
    exact h.filtered
  · rw [hskips]
    exact h.skipped

/-- An item with an output, or without one. -/
theorem output (h : Accounted s run calls) (item : ι) (output? : Option ο) :
    Accounted s { run with read := run.read + 1, filtered := run.filtered + if output?.isNone then 1 else 0 }
      ((calls.note (.pulled (.ok (some item)))).note (.processed item (.ok output?))) := by
  constructor
  · simp [h.inOrder, FlowLog.deliver]
  · simpa [FlowCall.written] using h.outputs.trans (List.prefix_append _ _)
  · simpa [FlowCall.chunk?] using h.sizes
  · simpa [FlowCall.chunk?] using h.full
  · simpa [FlowCall.skipped?] using h.skips
  · exact h.name
  · simp [h.read]
  · simp [h.written, FlowCall.written]
  · simp [h.filtered, FlowLog.isNothing, FlowLog.filtered, FlowLog.deliver]
  · simp [h.skipped, FlowCall.skipped?]

theorem failed (h : Accounted s run calls) (item : ι) {f : Failure} (hf : ¬f.isSkippable) :
    Accounted s { run with read := run.read + 1 }
      ((calls.note (.pulled (.ok (some item)))).note (.processed item (.error f))) := by
  constructor
  · simp [h.inOrder, FlowLog.deliver]
  · simpa [FlowCall.written] using h.outputs
  · simpa [FlowCall.chunk?] using h.sizes
  · simpa [FlowCall.chunk?] using h.full
  · simpa [FlowCall.skipped?, hf] using h.skips
  · exact h.name
  · simp [h.read]
  · simp [h.written, FlowCall.written]
  · simp [h.filtered, FlowLog.isNothing]
  · simp [h.skipped, FlowCall.skipped?]

theorem skipped_item (h : Accounted s run calls) (item : ι) {f : Failure} (hf : f.isSkippable)
    (answer : Except Failure Unit) : Accounted s { run with read := run.read + 1, skipped := run.skipped + 1 }
      (((calls.note (.pulled (.ok (some item)))).note (.processed item (.error f))).note (.wroteSkipped f answer)) := by
  constructor
  · simp [h.inOrder, FlowLog.deliver]
  · simpa [FlowCall.written] using h.outputs
  · simpa [FlowCall.chunk?] using h.sizes
  · simpa [FlowCall.chunk?] using h.full
  · simp [FlowCall.skipped?, hf, h.skips]
  · exact h.name
  · simp [h.read]
  · simp [h.written, FlowCall.written]
  · simp [h.filtered, FlowLog.isNothing]
  · simp [h.skipped, FlowCall.skipped?]

end Accounted

theorem Finished.finish (h : Finished s run calls) (status : BatchStatus) (now : Instant) :
    Finished s (run.finish status now) calls := ⟨h.toAccounted.finish status now, h.balance, h.all, h.closed⟩

theorem BrokenOff.finish {f : Failure} (h : BrokenOff s f run calls) (status : BatchStatus) (now : Instant) :
    BrokenOff s f (run.finish status now) calls := ⟨h.toAccounted.finish status now, h.atLeast, h.atMost, h.cause⟩

namespace Midway

theorem empty : Midway s [] { name := s.name } [] := by
  refine ⟨.empty, rfl, ?_, ?_⟩
  · intro f hf
    cases hf
  · intro call hcall
    cases hcall

theorem balance (h : Midway s chunk run calls) :
    run.read = run.written + chunk.length + run.filtered + run.skipped := by
  have houtputs : (log calls).outputs.length = (FlowCalls.written calls).length + chunk.length := by
    rw [← h.pending, List.length_append]
  have hskips : (FlowCalls.skips calls).length = (log calls).failures.length := by
    rw [h.skips, List.filter_eq_self.mpr h.skippable]
  have hprocessed := FlowLog.length_processed (log calls)
  rw [h.read, h.written, h.filtered, h.skipped]
  omega

/-- The writer is handed a chunk after full ones. -/
theorem wrote (h : Midway s chunk run calls) (hall : ∀ c ∈ chunks calls, c.length = s.size) (hchunk : chunk ≠ [])
    (hlength : chunk.length ≤ s.size) (answer : Except Failure Unit) :
    Accounted s { run with written := run.written + (FlowCall.wrote chunk answer : FlowCall ι ο).written.length }
      (calls.note (.wrote chunk answer)) := by
  have hchunks : chunks (calls.note (.wrote chunk answer)) = chunks calls ++ [chunk] := by simp [FlowCall.chunk?]
  have hwritten : (FlowCall.wrote chunk answer : FlowCall ι ο).written <+: chunk := by
    cases answer with
    | error f => exact List.nil_prefix
    | ok _ => exact List.prefix_rfl
  constructor
  · simpa using h.inOrder
  · rw [log_wrote, written_note, ← h.pending]
    exact (List.prefix_append_right_inj _).mpr hwritten
  · intro c hc
    rw [hchunks] at hc
    rcases List.mem_append.mp hc with hc | hc
    · exact h.sizes c hc
    · cases List.mem_singleton.mp hc
      exact ⟨hchunk, hlength⟩
  · rw [hchunks, List.dropLast_concat]
    exact hall
  · simpa [FlowCall.skipped?] using h.skips
  · exact h.name
  · simpa using h.read
  · simp [h.written]
  · simpa using h.filtered
  · simpa [FlowCall.skipped?] using h.skipped

/-- A call that is not about an item fails. -/
theorem breaksOff (h : Midway s chunk run calls) (hlength : chunk.length ≤ s.size) {f : Failure}
    (hfailure : call.failure? = some f) (haccounted : Accounted s run (calls.note call)) :
    BrokenOff s f run (calls.note call) := by
  have hbalance := h.balance
  exact ⟨haccounted, haccounted.atLeast, by omega, calls, call, rfl, hfailure, h.going⟩

end Midway

/-- A part of a step has an answer as required, or it breaks the step off. -/
def OrBreaks {α : Type} (s : ChunkStep σ ι ο) (post : α → StepRun → FlowCalls ι ο → Prop) :
    Except Failure α → StepRun × FlowCalls ι ο × σ → Prop
  | .ok a, (run, calls, _) => post a run calls
  | .error f, (run, calls, _) => BrokenOff s f run calls

section Rules

variable {α β : Type} {e : Effect σ α} {note : Except Failure α → FlowCalls ι ο → FlowCalls ι ο}

private theorem count_bind {τ : Type} {f : StepRun → StepRun} {k : Unit → Effect (StepRun × τ) α} {y : τ}
    {post : Except Failure α → StepRun × τ → Prop} (h : (k ()).Ensures (f run, y) post) :
    (count f >>= k).Ensures (run, y) post := by
  intro r t hrun
  rw [Effect.run_bind] at hrun
  exact h r t hrun

private theorem noting_bind {k : α → Effect (StepRun × FlowCalls ι ο × σ) β}
    {post : Except Failure β → StepRun × FlowCalls ι ο × σ → Prop}
    (hok : ∀ a x', (k a).Ensures (run, note (.ok a) calls, x') post)
    (herror : ∀ f x', post (.error f) (run, note (.error f) calls, x')) :
    (onFlow (e.noting note) >>= k).Ensures (run, calls, x) post := by
  intro r t hrun
  rw [Effect.run_bind] at hrun
  obtain ⟨⟨answer, t₁⟩, hcall, hrest⟩ := Option.bind_eq_some_iff.mp hrun
  obtain ⟨y, hnoting, heq⟩ := Effect.onPart_some hcall
  obtain ⟨⟨answer', x'⟩, -, heq'⟩ := Option.map_eq_some_iff.mp hnoting
  cases heq'
  cases heq
  cases answer with
  | error f =>
    cases hrest
    exact herror f x'
  | ok a => exact hok a x' r t hrest

private theorem noting_attempt_bind {k : Except Failure α → Effect (StepRun × FlowCalls ι ο × σ) β}
    {post : Except Failure β → StepRun × FlowCalls ι ο × σ → Prop}
    (h : ∀ outcome x', (k outcome).Ensures (run, note outcome calls, x') post) :
    ((onFlow (e.noting note)).attempt >>= k).Ensures (run, calls, x) post := by
  intro r t hrun
  rw [Effect.run_bind] at hrun
  obtain ⟨⟨answer, t₁⟩, hcall, hrest⟩ := Option.bind_eq_some_iff.mp hrun
  obtain ⟨⟨outcome, t₂⟩, hpart, heq⟩ := Option.map_eq_some_iff.mp hcall
  obtain ⟨y, hnoting, heq'⟩ := Effect.onPart_some hpart
  obtain ⟨⟨outcome', x'⟩, -, heq''⟩ := Option.map_eq_some_iff.mp hnoting
  cases heq''
  cases heq'
  cases heq
  exact h outcome x' r t hrest

end Rules

variable (s) in
private theorem traced_next :
    s.traced.flow.next = s.flow.next.noting fun answer calls => FlowCalls.note calls (.pulled answer) := rfl

private theorem traced_process (item : ι) : s.traced.flow.process item =
    (s.flow.process item).noting fun outcome calls => FlowCalls.note calls (.processed item outcome) := rfl

private theorem traced_write (items : List ο) : s.traced.flow.write items =
    (s.flow.write items).noting fun answer calls => FlowCalls.note calls (.wrote items answer) := rfl

private theorem traced_writeSkipped (f : Failure) : s.traced.flow.writeSkipped f =
    (s.flow.writeSkipped f).noting fun answer calls => FlowCalls.note calls (.wroteSkipped f answer) := rfl

private theorem traced_close :
    s.traced.flow.close = s.flow.close.noting fun answer calls => FlowCalls.note calls (.closed answer) := rfl

/-- Items left for the writer: so far only full chunks were handed to it. -/
def Fills (s : ChunkStep σ ι ο) (chunk : List ο) (run : StepRun) (calls : FlowCalls ι ο) : Prop :=
  Midway s chunk run calls ∧ ∀ c ∈ chunks calls, c.length = s.size

private theorem flush_traced (h : Fills s chunk run calls) (hlength : chunk.length ≤ s.size) :
    (s.traced.flush chunk).Ensures (run, calls, x) (OrBreaks s fun _ run calls =>
      Midway s [] run calls ∧ (chunk.length = s.size → ∀ c ∈ chunks calls, c.length = s.size)) := by
  obtain ⟨h, hall⟩ := h
  rw [flush]
  split
  · have hempty : chunk = [] := List.isEmpty_iff.mp ‹_›
    subst chunk
    exact .pure ⟨h, fun _ => hall⟩
  · have hchunk : chunk ≠ [] := fun hempty => ‹¬chunk.isEmpty = true› (List.isEmpty_iff.mpr hempty)
    rw [traced_write]
    refine noting_bind ?_ ?_
    · intro _ x'
      refine .ofChange ⟨⟨h.wrote hall hchunk hlength (.ok ()), ?_, ?_, ?_⟩, ?_⟩
      · simp [FlowCall.written, h.pending]
      · simpa using h.skippable
      · exact h.going.note rfl rfl
      · intro hfull c hc
        rw [chunks_note] at hc
        rcases List.mem_append.mp hc with hc | hc
        · exact hall c hc
        · cases List.mem_singleton.mp hc
          exact hfull
    · intro f x'
      exact h.breaksOff hlength rfl (h.wrote hall hchunk hlength (.error f))

private theorem settle_traced (h : Fills s chunk run calls) (hlength : chunk.length ≤ s.size) :
    (s.traced.settle chunk).Ensures (run, calls, x) (OrBreaks s fun chunk run calls =>
      Fills s chunk run calls ∧ chunk.length < s.size) := by
  have hsize : s.traced.size = s.size := rfl
  rw [settle, hsize]
  split
  · exact .pure ⟨h, ‹_›⟩
  · refine .bind (flush_traced h hlength) ?_ fun _ _ hbroken => hbroken
    rintro _ t ⟨hflushed, hfull⟩
    refine .pure ⟨⟨hflushed, hfull (by omega)⟩, ?_⟩
    exact size_pos s

private theorem handle_traced (h : Fills s chunk run calls) (hlength : chunk.length < s.size) (item : ι) :
    (s.traced.handle chunk item).Ensures (run, calls.note (.pulled (.ok (some item))), x)
      (OrBreaks s fun chunk run calls => Fills s chunk run calls ∧ chunk.length ≤ s.size) := by
  obtain ⟨h, hall⟩ := h
  have hbalance := h.balance
  have hpulled : Going (calls.note (.pulled (.ok (some item)))) := h.going.note rfl rfl
  rw [handle, traced_process]
  refine count_bind (noting_attempt_bind ?_)
  intro outcome x'
  cases outcome with
  | ok output? =>
    have haccounted := h.toAccounted.output item output?
    have hskippable : ∀ f ∈ ((log calls).process item (.ok output?)).failures, f.isSkippable := by
      simpa using h.skippable
    have hgoing : Going ((calls.note (.pulled (.ok (some item)))).note (.processed item (.ok output?))) :=
      hpulled.note rfl rfl
    cases output? with
    | some output =>
      refine .pure ⟨⟨⟨haccounted, ?_, by simpa using h.skippable, hgoing⟩, ?_⟩, ?_⟩
      · simp [FlowCall.written, ← h.pending]
      · simpa [FlowCall.chunk?] using hall
      · rw [List.length_append]
        exact hlength
    | none =>
      refine count_bind (.pure ⟨⟨⟨haccounted, ?_, by simpa using h.skippable, hgoing⟩, ?_⟩, (Nat.le_of_lt hlength)⟩)
      · simp [FlowCall.written, h.pending]
      · simpa [FlowCall.chunk?] using hall
  | error f =>
    dsimp only
    split
    · rename_i hf
      have hprocessed : Going ((calls.note (.pulled (.ok (some item)))).note (.processed item (.error f))) :=
        hpulled.note (if_pos hf) rfl
      rw [traced_writeSkipped]
      refine count_bind (noting_bind ?_ ?_)
      · intro _ x''
        have haccounted := h.toAccounted.skipped_item item hf (.ok ())
        refine .pure ⟨⟨⟨haccounted, ?_, ?_, hprocessed.note rfl rfl⟩, ?_⟩, (Nat.le_of_lt hlength)⟩
        · simp [FlowCall.written, h.pending]
        · simp only [log_wroteSkipped, log_processed, log_pulled, FlowLog.failures_process_error, FlowLog.failures_deliver]
          intro g hg
          rcases List.mem_append.mp hg with hg | hg
          · exact h.skippable g hg
          · cases List.mem_singleton.mp hg
            exact hf
        · simpa [FlowCall.chunk?] using hall
      · intro g x''
        have haccounted := h.toAccounted.skipped_item item hf (.error g)
        refine ⟨haccounted, haccounted.atLeast, ?_, _, _, rfl, rfl, hprocessed⟩
        dsimp only
        omega
    · rename_i hf
      have haccounted := h.toAccounted.failed item hf
      refine .throw ⟨haccounted, haccounted.atLeast, ?_, _, _, rfl, if_neg hf, hpulled⟩
      dsimp only
      omega

private theorem isStopped_bind {α : Type} {k : Bool → Effect (StepRun × FlowCalls ι ο × σ) α}
    {post : Except Failure α → StepRun × FlowCalls ι ο × σ → Prop}
    (h : (k (s.flow.stopRequested x)).Ensures (run, calls, x) post) :
    (s.traced.isStopped >>= k).Ensures (run, calls, x) post := by
  intro r t hrun
  rw [Effect.run_bind] at hrun
  exact h r t hrun

/-- The last chunk, full or not. -/
private theorem last_traced (h : Fills s chunk run calls) (hlength : chunk.length < s.size) (ending : Ending) :
    (s.traced.flush chunk >>= fun _ => pure ending).Ensures (run, calls, x)
      (OrBreaks s fun _ run calls => Midway s [] run calls) := by
  refine .bind (flush_traced h (Nat.le_of_lt hlength)) ?_ fun _ _ hbroken => hbroken
  rintro _ t ⟨hflushed, _⟩
  exact .pure hflushed

private theorem drain_traced {fuel : Nat} (h : Fills s chunk run calls) (hlength : chunk.length < s.size) :
    (s.traced.drain fuel chunk).Ensures (run, calls, x)
      (OrBreaks s fun _ run calls => Midway s [] run calls) := by
  induction fuel generalizing chunk run calls x with
  | zero =>
    rw [drain]
    refine isStopped_bind ?_
    cases s.flow.stopRequested x with
    | true => exact last_traced h hlength .stopped
    | false =>
      intro r t hrun
      cases hrun
  | succ fuel ih =>
    rw [drain]
    refine isStopped_bind ?_
    cases s.flow.stopRequested x with
    | true => exact last_traced h hlength .stopped
    | false =>
      rw [traced_next]
      refine noting_bind ?_ ?_
      · intro item? x'
        cases item? with
        | none =>
          have hlog : log (calls.note (.pulled (.ok none))) = log calls := log_pulled calls (.ok none)
          have hmidway : Midway s chunk run (calls.note (.pulled (.ok none))) := by
            refine ⟨h.1.toAccounted.concat hlog rfl rfl rfl, ?_, ?_, h.1.going.note rfl rfl⟩
            · rw [hlog, written_note]
              simpa [FlowCall.written] using h.1.pending
            · rw [hlog]
              exact h.1.skippable
          refine last_traced ⟨hmidway, ?_⟩ hlength .exhausted
          simpa [FlowCall.chunk?] using h.2
        | some item =>
          refine .bind (handle_traced h hlength item) ?_ fun _ _ hbroken => hbroken
          rintro chunk' t ⟨hhandled, hlength'⟩
          refine .bind (settle_traced hhandled hlength') ?_ fun _ _ hbroken => hbroken
          rintro chunk'' t' ⟨hsettled, hlength''⟩
          exact ih hsettled hlength''
      · intro f x'
        have hlog : log (calls.note (.pulled (.error f))) = log calls := log_pulled calls (.error f)
        exact h.1.breaksOff (Nat.le_of_lt hlength) rfl (h.1.toAccounted.concat hlog rfl rfl rfl)

private theorem body_traced (fuel : Nat) :
    (s.traced.body fuel).Ensures ({ name := s.name }, [], x)
      (OrBreaks s fun _ run calls => Finished s run calls) := by
  have hstart : Fills s [] { name := s.name } ([] : FlowCalls ι ο) := by
    refine ⟨.empty, ?_⟩
    intro c hc
    cases hc
  rw [body]
  refine .bind (drain_traced hstart (size_pos s)) ?_ fun _ _ hbroken => hbroken
  intro ending t hdrained
  obtain ⟨run, calls, x'⟩ := t
  have hmidway : Midway s [] run calls := hdrained
  rw [traced_close]
  refine noting_bind ?_ ?_
  · intro _ x''
    have hbalance := hmidway.balance
    have hclosed := hmidway.toAccounted.concat (log_closed calls (.ok ())) rfl rfl rfl
    refine .pure ⟨hclosed, ?_, ?_, calls, rfl, hmidway.going⟩
    · simpa using hbalance
    · simpa [FlowCall.written] using hmidway.pending
  · intro f x''
    exact hmidway.breaksOff (Nat.zero_le _) rfl (hmidway.toAccounted.concat (log_closed calls (.error f)) rfl rfl rfl)

/-- However a step ends, it adds one run of itself to the execution, and this run and the calls of the step account for
every item. It does end if there is room for its chunks, every call ends and the items run out. -/
theorem execute_accounts (s : ChunkStep σ ι ο) (fuel : Nat) (now : Instant) (e : Execution) (x : σ) :
    (∀ r e' x', (s.execute fuel now).run (e, x) = some (r, e', x') →
      ∃ run calls, (s.traced.execute fuel now).run (e, [], x) = some (r, e', calls, x') ∧ e' = e.addStep run ∧
        (r = .ok () → (run.status = .completed ∨ run.status = .stopped) ∧ Finished s run calls) ∧
        ∀ f, r = .error f → ∃ cause, f = .step s.name cause ∧ run.status = .failed ∧
          BrokenOff s cause run calls) ∧
    (s.size ≤ s.room → ∀ left, s.flow.RunsOut left → left x < fuel →
      ∃ r e' x', (s.execute fuel now).run (e, x) = some (r, e', x')) := by
  constructor
  · intro r e' x' hrun
    have herases : (s.traced.execute fuel now).Erases (Prod.map id Prod.snd) (s.execute fuel now) :=
      erases_execute s.flow.traced_erases fuel now
    obtain ⟨⟨e₁, calls, x₁⟩, htraced, heq⟩ := herases.run_of_run (t := (e, [], x)) hrun
    cases heq
    obtain ⟨⟨ending, run, calls', x''⟩, hbody, heq⟩ := Option.map_eq_some_iff.mp (execute_some htraced).2
    have hends := body_traced (s := s) (x := x) fuel _ _ hbody
    cases ending with
    | ok ending =>
      cases heq
      have hfinished : Finished s run calls := hends
      have hstatus : ending.status = .completed ∨ ending.status = .stopped := by
        cases ending with
        | exhausted => exact .inl rfl
        | stopped => exact .inr rfl
      refine ⟨run.finish ending.status now, calls, htraced, rfl, ?_, ?_⟩
      · intro _
        exact ⟨hstatus, hfinished.finish ending.status now⟩
      · intro f hf
        cases hf
    | error cause =>
      cases heq
      have hbroken : BrokenOff s cause run calls := hends
      refine ⟨run.finish .failed now, calls, htraced, rfl, ?_, ?_⟩
      · intro hok
        cases hok
      · intro f hf
        cases hf
        exact ⟨cause, rfl, rfl, hbroken.finish .failed now⟩
  · intro hroom left hflow hfuel
    obtain ⟨r, ⟨e', x'⟩, hrun, -⟩ := execute_returns hroom hflow hfuel now e
    exact ⟨r, e', x', hrun⟩

end ChunkStep

namespace SampleStep
open ChunkStep

/-- Two outputs, a record that cannot be processed, one that is filtered out, and one more output. -/
def script : StepScript where
  items := [{ result := .ok (some (.string "r1")) }, { result := .ok (some (.string "r2")) },
    { result := .error (.partialFailure "r3" "no service point") }, {}, { result := .ok (some (.string "r5")) }]

def step : ChunkStep StepScript ScriptedItem Json := ⟨"exportStep", 2, 1000, StepScript.flow true⟩

def execution : Execution := .new 1 "orders-export" [] ⟨0, 0⟩

/-- The step ends, and its run accounts for the five records. -/
theorem script_accounts : (∃ r e' x', (step.execute 6 ⟨0, 0⟩).run (execution, script) = some (r, e', x')) ∧
    ∃ run calls x', (step.execute 6 ⟨0, 0⟩).run (execution, script) = some (.ok (), execution.addStep run, x') ∧
      Finished step run calls := by
  have hran : ((step.execute 6 ⟨0, 0⟩).run (execution, script)).any (fun outcome => outcome.1.isOk) = true := by
    decide +kernel
  obtain ⟨haccounts, hends⟩ := execute_accounts step 6 ⟨0, 0⟩ execution script
  have hrun := hends (by decide) _ (StepScript.flow_runsOut true) (by decide)
  refine ⟨hrun, ?_⟩
  obtain ⟨r, e', x', hrun⟩ := hrun
  rw [hrun] at hran
  cases r with
  | error f => cases hran
  | ok _ =>
    obtain ⟨run, calls, _, rfl, hok, _⟩ := haccounts _ _ _ hrun
    exact ⟨run, calls, x', hrun, (hok rfl).2⟩

/-- The largest chunk that a configuration can ask for, where a buffer takes less than 2^63 bytes and an output 32. -/
def large : ChunkStep StepScript ScriptedItem Json := { step with chunkSize := twoTo 63 - 1, room := (twoTo 63 - 1) / 32 }

/-- The source has no record, only a failure with which an item would be skipped. -/
def lost : StepScript where
  items := [{ readFailure := some (.partialFailure "r1" "no service point") }]

/-- The large step never adds a run of itself. The failure of the source is not handed to the writer. -/
theorem large_step_and_lost_record :
    (∀ fuel now e x, (large.execute fuel now).run (e, x) = none) ∧
    ∃ run calls x', (step.traced.execute 6 ⟨0, 0⟩).run (execution, [], lost) =
        some (.error (.step "exportStep" (.partialFailure "r1" "no service point")), execution.addStep run, calls, x') ∧
      FlowCalls.skips calls = [] :=
  ⟨fun _ _ _ _ => run_execute_of_lt (by decide), _, _, _, rfl, rfl⟩

end SampleStep
end BatchExport
