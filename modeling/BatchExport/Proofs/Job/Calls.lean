import BatchExport.Proofs.Job.FlowLog

/-! The calls of a step to its flow, and what they amount to. Main statement: keeping them changes nothing else. -/
namespace BatchExport

variable {σ ι ο : Type}

/-- A call of a step to its flow, with the answer. -/
inductive FlowCall (ι ο : Type) where
  | pulled (answer : Except Failure (Option ι))
  | processed (item : ι) (outcome : Except Failure (Option ο))
  | wrote (items : List ο) (answer : Except Failure Unit)
  | wroteSkipped (f : Failure) (answer : Except Failure Unit)
  | closed (answer : Except Failure Unit)

namespace FlowCall

def item? : FlowCall ι ο → Option ι
  | pulled (.ok item?) => item?
  | _ => none

def processed? : FlowCall ι ο → Option (ι × Except Failure (Option ο))
  | processed item outcome => some (item, outcome)
  | _ => none

def chunk? : FlowCall ι ο → Option (List ο)
  | wrote items _ => some items
  | _ => none

/-- What is written by now that was not before. -/
def written : FlowCall ι ο → List ο
  | wrote items (.ok ()) => items
  | _ => []

def skipped? : FlowCall ι ο → Option Failure
  | wroteSkipped f _ => some f
  | _ => none

/-- The failure after which a step does not go on. -/
def failure? : FlowCall ι ο → Option Failure
  | pulled (.error f) | wrote _ (.error f) | wroteSkipped _ (.error f) | closed (.error f) => some f
  | processed _ (.error f) => if f.isSkippable then none else some f
  | _ => none

def isClose : FlowCall ι ο → Bool
  | closed _ => true
  | _ => false

end FlowCall

/-- The calls of a step, oldest first. -/
abbrev FlowCalls (ι ο : Type) := List (FlowCall ι ο)

namespace FlowCalls

def note (calls : FlowCalls ι ο) (call : FlowCall ι ο) : FlowCalls ι ο := calls ++ [call]

/-- The items that were pulled and what became of them. -/
def log (calls : FlowCalls ι ο) : FlowLog ι ο := ⟨calls.filterMap FlowCall.item?, calls.filterMap FlowCall.processed?⟩

/-- The chunks that were handed to the writer, whatever its answer. -/
def chunks (calls : FlowCalls ι ο) : List (List ο) := calls.filterMap FlowCall.chunk?

def written (calls : FlowCalls ι ο) : List ο := calls.flatMap FlowCall.written

/-- The failures that were handed to the writer, whatever its answer. -/
def skips (calls : FlowCalls ι ο) : List Failure := calls.filterMap FlowCall.skipped?

/-- Nothing has ended the step, and the writer is open. -/
def Going (calls : FlowCalls ι ο) : Prop := ∀ call ∈ calls, call.failure? = none ∧ call.isClose = false

variable (calls : FlowCalls ι ο) (call : FlowCall ι ο)

theorem log_note : log (calls.note call) =
    ⟨(log calls).delivered ++ call.item?.toList, (log calls).processed ++ call.processed?.toList⟩ := by
  have hitem : [call].filterMap FlowCall.item? = call.item?.toList := by
    cases h : call.item? <;> simp [h]
  have hprocessed : [call].filterMap FlowCall.processed? = call.processed?.toList := by
    cases h : call.processed? <;> simp [h]
  rw [log, note, List.filterMap_append, List.filterMap_append, hitem, hprocessed]
  rfl

@[simp] theorem log_pulled (answer : Except Failure (Option ι)) :
    log (calls.note (.pulled answer)) = (log calls).deliver answer := by
  rw [log_note]
  cases answer with
  | error f => simp [FlowCall.item?, FlowCall.processed?, FlowLog.deliver]
  | ok item? => cases item? <;> simp [FlowCall.item?, FlowCall.processed?, FlowLog.deliver]

@[simp] theorem log_processed (item : ι) (outcome : Except Failure (Option ο)) :
    log (calls.note (.processed item outcome)) = (log calls).process item outcome := by
  rw [log_note]
  simp [FlowCall.item?, FlowCall.processed?, FlowLog.process]

@[simp] theorem log_wrote (items : List ο) (answer : Except Failure Unit) :
    log (calls.note (.wrote items answer)) = log calls := by
  rw [log_note]
  simp [FlowCall.item?, FlowCall.processed?]

@[simp] theorem log_wroteSkipped (f : Failure) (answer : Except Failure Unit) :
    log (calls.note (.wroteSkipped f answer)) = log calls := by
  rw [log_note]
  simp [FlowCall.item?, FlowCall.processed?]

@[simp] theorem log_closed (answer : Except Failure Unit) : log (calls.note (.closed answer)) = log calls := by
  rw [log_note]
  simp [FlowCall.item?, FlowCall.processed?]

@[simp] theorem chunks_note : chunks (calls.note call) = chunks calls ++ call.chunk?.toList := by
  rw [chunks, note, List.filterMap_append]
  cases h : call.chunk? <;> simp [h, chunks]

@[simp] theorem written_note : written (calls.note call) = written calls ++ call.written := by
  simp [written, note]

@[simp] theorem skips_note : skips (calls.note call) = skips calls ++ call.skipped?.toList := by
  rw [skips, note, List.filterMap_append]
  cases h : call.skipped? <;> simp [h, skips]

theorem Going.note {calls : FlowCalls ι ο} {call : FlowCall ι ο} (h : Going calls) (hcall : call.failure? = none)
    (hopen : call.isClose = false) : Going (calls.note call) := by
  intro c hc
  rcases List.mem_append.mp hc with hc | hc
  · exact h c hc
  · cases List.mem_singleton.mp hc
    exact ⟨hcall, hopen⟩

end FlowCalls

namespace ItemFlow

/-- The flow with its calls beside its state. -/
def traced (flow : ItemFlow σ ι ο) : ItemFlow (FlowCalls ι ο × σ) ι ο where
  stopRequested x := flow.stopRequested x.2
  next := flow.next.noting fun answer calls => calls.note (.pulled answer)
  process item := (flow.process item).noting fun outcome calls => calls.note (.processed item outcome)
  write items := (flow.write items).noting fun answer calls => calls.note (.wrote items answer)
  writeSkipped f := (flow.writeSkipped f).noting fun answer calls => calls.note (.wroteSkipped f answer)
  close := flow.close.noting fun answer calls => calls.note (.closed answer)

theorem traced_erases (flow : ItemFlow σ ι ο) : flow.traced.Erases Prod.snd flow where
  stopRequested _ := rfl
  next := flow.next.noting_erases fun answer calls => FlowCalls.note calls (.pulled answer)
  process item := (flow.process item).noting_erases fun outcome calls => FlowCalls.note calls (.processed item outcome)
  write items := (flow.write items).noting_erases fun answer calls => FlowCalls.note calls (.wrote items answer)
  writeSkipped f := (flow.writeSkipped f).noting_erases fun answer calls => FlowCalls.note calls (.wroteSkipped f answer)
  close := flow.close.noting_erases fun answer calls => FlowCalls.note calls (.closed answer)

end ItemFlow

def ChunkStep.traced (s : ChunkStep σ ι ο) : ChunkStep (FlowCalls ι ο × σ) ι ο := { s with flow := s.flow.traced }

end BatchExport
