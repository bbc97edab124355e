import BatchExport.Effect
import BatchExport.Execution

/-! A step that pulls items one by one and writes what becomes of them in chunks. -/
namespace BatchExport

/-- Where items come from and where they go. The stop flag is read before every pull. -/
structure ItemFlow (σ ι ο : Type) where
  stopRequested : σ → Bool
  next : Effect σ (Option ι)
  /-- No output means that the item is filtered out. -/
  process : ι → Effect σ (Option ο)
  write : List ο → Effect σ Unit
  writeSkipped : Failure → Effect σ Unit
  close : Effect σ Unit

structure ChunkStep (σ ι ο : Type) where
  name : String
  chunkSize : Nat
  /-- How many outputs a buffer can be made for. -/
  room : Nat
  flow : ItemFlow σ ι ο

namespace ChunkStep

variable {σ ι ο : Type}

/-- What ended the pulls. -/
inductive Ending where
  | exhausted
  | stopped
  deriving DecidableEq, Repr

def Ending.status : Ending → BatchStatus
  | exhausted => .completed
  | stopped => .stopped

/-- A chunk holds at least one item. -/
def size (s : ChunkStep σ ι ο) : Nat := max s.chunkSize 1

def onFlow (e : Effect σ α) : Effect (StepRun × σ) α := e.onPart (·.2) fun w t => (t.1, w)

def count (f : StepRun → StepRun) : Effect (StepRun × σ) Unit := .ofChange fun (run, w) => ((), f run, w)

def isStopped (s : ChunkStep σ ι ο) : Effect (StepRun × σ) Bool :=
  .ofChange fun (run, w) => (s.flow.stopRequested w, run, w)

/-- Write a chunk unless it is empty. -/
def flush (s : ChunkStep σ ι ο) (chunk : List ο) : Effect (StepRun × σ) Unit := do
  if chunk.isEmpty then return
  onFlow (s.flow.write chunk)
  count fun run => { run with written := run.written + chunk.length }

/-- Process an item; answers the chunk with its output. Skippable failures are written, others end the step. -/
def handle (s : ChunkStep σ ι ο) (chunk : List ο) (item : ι) : Effect (StepRun × σ) (List ο) := do
  count fun run => { run with read := run.read + 1 }
  match ← (onFlow (s.flow.process item)).attempt with
  | .ok (some output) => return chunk ++ [output]
  | .ok none =>
    count fun run => { run with filtered := run.filtered + 1 }
    return chunk
  | .error f =>
    if f.isSkippable then
      count fun run => { run with skipped := run.skipped + 1 }
      onFlow (s.flow.writeSkipped f)
      return chunk
    else throw f

/-- A full chunk is written at once. -/
def settle (s : ChunkStep σ ι ο) (chunk : List ο) : Effect (StepRun × σ) (List ο) := do
  if chunk.length < s.size then return chunk
  s.flush chunk
  return []

/-- Pull until the source ends or a stop is asked for; `fuel` bounds the pulls. -/
def drain (s : ChunkStep σ ι ο) : Nat → List ο → Effect (StepRun × σ) Ending
  | fuel, chunk => do
    if ← s.isStopped then
      s.flush chunk
      return .stopped
    match fuel with
    | 0 => .ofRun fun _ => none
    | fuel + 1 =>
      match ← onFlow s.flow.next with
      | none =>
        s.flush chunk
        return .exhausted
      | some item =>
        let chunk ← s.settle (← s.handle chunk item)
        s.drain fuel chunk

/-- The writer is closed unless the pulls failed. -/
def body (s : ChunkStep σ ι ο) (fuel : Nat) : Effect (StepRun × σ) Ending := do
  let ending ← s.drain fuel []
  onFlow s.flow.close
  return ending

/-- The counters are added to the execution whatever the outcome. -/
def record (s : ChunkStep σ ι ο) (e : Execution) (now : Instant) :
    Effect.Outcome (StepRun × σ) Ending → Effect.Outcome (Execution × σ) Unit
  | (.ok ending, run, w) => (.ok (), e.addStep (run.finish ending.status now), w)
  | (.error f, run, w) => (.error (.step s.name f), e.addStep (run.finish .failed now), w)

/-- Run the step. The buffer for a chunk is made in full before the first pull, and a size that there is no room for
takes the program with it. -/
def execute (s : ChunkStep σ ι ο) (fuel : Nat) (now : Instant) : Effect (Execution × σ) Unit :=
  .ofRun fun (e, w) =>
    if s.room < s.size then none else ((s.body fuel).run ({ name := s.name }, w)).map (s.record e now)

section Execute

variable {s : ChunkStep σ ι ο} {fuel : Nat} {now : Instant} {e : Execution} {w : σ}

theorem run_execute (h : s.size ≤ s.room) :
    (s.execute fuel now).run (e, w) = ((s.body fuel).run ({ name := s.name }, w)).map (s.record e now) :=
  if_neg (Nat.not_lt.mpr h)

theorem run_execute_of_lt (h : s.room < s.size) : (s.execute fuel now).run (e, w) = none := if_pos h

/-- A step that comes to an end has had the room for its chunks. -/
theorem execute_some {outcome : Effect.Outcome (Execution × σ) Unit}
    (hrun : (s.execute fuel now).run (e, w) = some outcome) :
    s.size ≤ s.room ∧ ((s.body fuel).run ({ name := s.name }, w)).map (s.record e now) = some outcome := by
  have hroom : s.size ≤ s.room := by
    refine Nat.le_of_not_lt fun hless => ?_
    rw [run_execute_of_lt hless] at hrun
    cases hrun
  exact ⟨hroom, run_execute hroom ▸ hrun⟩

end Execute

end ChunkStep
end BatchExport
