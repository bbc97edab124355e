import BatchExport.Files.Storage
import BatchExport.Lifecycle.Worker
import BatchExport.StatusRecord

/-! What a worker reaches around itself. -/
namespace BatchExport

inductive Moment where
  | before
  | after
  deriving DecidableEq, Repr

/-- Stops executions and waits for their end. -/
structure JobOperator (ω : Type) where
  /-- Whether the execution was still in flight. -/
  stop : ExecutionId → Effect (RunningSet × ω) Bool
  /-- Begin to wait. -/
  await : ExecutionId → Effect ω Unit := fun _ => pure ()
  isOver : ExecutionId → RunningSet × ω → Bool

/-- The operator over the running set itself. -/
def JobOperator.ofRunningSet (ω : Type) : JobOperator ω where
  stop id := .ofChange fun (running, w) =>
    let (accepted, running) := running.requestStop id
    (accepted, running, w)
  isOver id state := !state.1.isRunning id

/-- Brings back the data of a snapshot. -/
structure SnapshotRestorer (ω : Type) where
  /-- Others move on while the restore is under way. -/
  start : JobId → String → ω → ω := fun _ _ w => w
  /-- Answers where the data is now. -/
  finish : JobId → String → Effect (FileTree × ω) String

/-- Snapshots that are files, copied to a directory. -/
def SnapshotRestorer.intoDirectory (ω : Type) (dir : String) : SnapshotRestorer ω where
  finish job snapshot := (Storage.restore dir job snapshot).onPart (·.1) fun files state => (files, state.2)

structure Surroundings (ω : Type) where
  publish : JobId → StatusRecord → Effect ω Unit
  acknowledge : Acknowledgement → ω → ω := fun _ w => w
  observe : Moment → String → Execution → ω → ω := fun _ _ _ w => w
  operator : JobOperator ω := .ofRunningSet ω
  restorer : SnapshotRestorer ω
  /-- What others do to the shared state between two steps. -/
  others : Worker ω → Worker ω := fun w => w

end BatchExport
