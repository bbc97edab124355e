import BatchExport.Lifecycle.Task
import BatchExport.Proofs.Effect
import BatchExport.Proofs.Story

/-! Runs and rollback calls over one worker, whose atomic steps happen in any order, and the events that tell their
story. Main statement: what every move keeps is kept by every story. -/
namespace BatchExport

/-- What happens to the binding of a job, to a call that holds it, and to an execution. Calls are known by their
position among the tasks. -/
inductive Event where
  | bound (job : JobId) (id : ExecutionId)
  | unbound (job : JobId)
  /-- The rollback listener of a completed execution forgets the binding, if it is still its own. -/
  | released (job : JobId) (id : ExecutionId)
  | took (call : Nat) (job : JobId) (id : ExecutionId)
  | stopAsked (call : Nat) (id : ExecutionId)
  | restored (call : Nat) (job : JobId) (snapshot : String)
  | returned (call : Nat) (job : JobId) (id : ExecutionId)
  | marked (id : ExecutionId) (status : BatchStatus)
  | published (id : ExecutionId) (record : StatusRecord)
  deriving DecidableEq

namespace Event

/-- The job whose binding is concerned. -/
def job? : Event → Option JobId
  | bound job _ | unbound job | released job _ | took _ job _ | restored _ job _ | returned _ job _ => some job
  | stopAsked _ _ | marked _ _ | published _ _ => none

/-- What an event does to the bindings. -/
def applyTo (b : Bindings) : Event → Bindings
  | bound job id => (b.register job id).2
  | unbound job => b.forget job
  | released job id => (b.forgetExecution job id).2
  | took _ job _ => (b.take job).2
  | returned _ job id => (b.reinstate job id).2
  | stopAsked _ _ | restored _ _ _ | marked _ _ | published _ _ => b

variable {job : JobId} {id : ExecutionId} {b : Bindings}

/-- A binding gets into the table by being made or by being given back. -/
theorem get?_applyTo {event : Event} (h : (event.applyTo b).get? job = some id) :
    b.get? job = some id ∨ event = .bound job id ∨ ∃ i, event = .returned i job id := by
  cases event <;>
    grind [applyTo, Bindings.register, Bindings.forget, Bindings.forgetExecution, Bindings.take, Bindings.reinstate,
      Registry.get?_put, Registry.get?_erase]

theorem get?_foldl {evs : List Event} (h : (evs.foldl applyTo b).get? job = some id) :
    b.get? job = some id ∨ .bound job id ∈ evs ∨ ∃ i, .returned i job id ∈ evs := by
  induction evs generalizing b with
  | nil => exact .inl h
  | cons event evs ih =>
    rcases ih h with hnow | hbound | ⟨i, hback⟩
    · rcases get?_applyTo hnow with hold | rfl | ⟨i, rfl⟩
      · exact .inl hold
      · exact .inr (.inl List.mem_cons_self)
      · exact .inr (.inr ⟨i, List.mem_cons_self⟩)
    · exact .inr (.inl (List.mem_cons_of_mem event hbound))
    · exact .inr (.inr ⟨i, List.mem_cons_of_mem event hback⟩)

end Event

namespace RollbackPhase

/-- The execution whose binding the call holds. -/
def held? : RollbackPhase → Option ExecutionId
  | .stopping id | .awaiting id | .waiting id | .choosing id _ | .reinstating id _ => some id
  | .handing r | .underway r => some r.id
  | .taking | .forgetting _ _ | .ended _ => none

/-- The execution that the call has brought back. -/
def brought? : RollbackPhase → Option ExecutionId
  | .forgetting r _ => some r.id
  | .ended (.ok (.rolledBack id _)) => some id
  | _ => none

end RollbackPhase

def RollbackCall.events (i : Nat) (c c' : RollbackCall) : List Event :=
  match c.phase, c'.phase with
  | .taking, .stopping id => [.took i c.job id]
  | .stopping id, _ => [.stopAsked i id]
  | .underway r, .forgetting _ _ => [.restored i c.job r.snapshot]
  | .reinstating id _, _ => [.returned i c.job id]
  | _, _ => []

def Hook.events (e : Execution) : Hook → List Event
  | .publish described => e.jobId?.toList.map fun job => .published e.id (.ofExecution described job e)
  | .forgetBinding => if e.status = .completed then e.jobId?.toList.map fun job => .released job e.id else []
  | _ => []

def Run.events (r r' : Run ω) : List Event :=
  match r.phase with
  | .concluding _ => [.marked r'.execution.id r'.execution.status]
  | .before (hook :: _) | .after (hook :: _) => hook.events r.execution
  | _ => []

def Task.events (i : Nat) : Task ω → Task ω → List Event
  | .run r, .run r' => r.events r'
  | .rollback c, .rollback c' => c.events i c'
  | _, _ => []

/-- Every record is published, and snapshots are restored to where they are. -/
def Surroundings.quiet : Surroundings Unit where
  publish _ _ := pure ()
  restorer := { finish := fun _ snapshot => pure snapshot }

/-- What others may do between two steps. -/
inductive Deed (ω : Type) where
  | bind (id : ExecutionId) (job : JobId)
  | recordSnapshot (job : JobId) (snapshot : String)
  /-- A release is two steps: the binding goes first, then the snapshot. -/
  | unbind (job : JobId)
  | dropSnapshot (job : JobId)
  | requestStop (id : ExecutionId)
  /-- Time goes by, and whatever runs and calls do not share is changed. -/
  | drift (now : Instant) (files : FileTree) (cache : ReferenceCache) (outside : ω)

namespace Deed

variable {ω : Type}

def act (w : Worker ω) : Deed ω → Worker ω
  | bind id job => w.bind id job
  | recordSnapshot job snapshot => w.recordSnapshot job snapshot
  | unbind job => { w with bindings := w.bindings.forget job }
  | dropSnapshot job => { w with snapshots := w.snapshots.erase job }
  | requestStop id => (w.requestStop id).2
  | drift now files cache outside => { w with now, files, cache, outside }

def events : Deed ω → List Event
  | bind id job => [.bound job id]
  | unbind job => [.unbound job]
  | _ => []

end Deed

inductive Move (ω : Type) where
  | step (i : Nat)
  /-- The call gives up waiting. -/
  | timeOut (i : Nat)
  | deed (d : Deed ω)

structure Scene (ω : Type) where
  worker : Worker ω
  tasks : List (Task ω)

namespace Scene

variable {ω : Type}

/-- No answer if the move cannot be made now. -/
def play? (s : Surroundings ω) (x : Scene ω) : Move ω → Option (List Event × Scene ω)
  | .step i =>
    x.tasks[i]?.bind fun t => (t.step? s x.worker).map fun (t', worker) =>
      (t.events i t', { worker, tasks := x.tasks.set i t' })
  | .timeOut i =>
    x.tasks[i]?.bind fun t => t.timeOut?.map fun t' => ([], { x with tasks := x.tasks.set i t' })
  | .deed d => some (d.events, { x with worker := d.act x.worker })

/-- Moves in the given order; any order is possible. -/
def playAll? (s : Surroundings ω) : Scene ω → List (Move ω) → Option (List Event × Scene ω)
  | x, [] => some ([], x)
  | x, m :: rest =>
    (x.play? s m).bind fun (now, x) => (playAll? s x rest).map fun (later, x) => (now ++ later, x)

/-- The rollback call at a position. -/
def call? (x : Scene ω) (i : Nat) : Option RollbackCall :=
  match x.tasks[i]? with
  | some (.rollback c) => some c
  | _ => none

/-- The run at a position. -/
def run? (x : Scene ω) (i : Nat) : Option (Run ω) :=
  match x.tasks[i]? with
  | some (.run r) => some r
  | _ => none

/-- No call has begun. -/
def IsFresh (x : Scene ω) : Prop := ∀ i c, x.call? i = some c → c.phase = .taking

theorem playAll?_eq_story (s : Surroundings ω) (moves : List (Move ω)) (x : Scene ω) :
    x.playAll? s moves = story? (play? s) x moves := by
  induction moves generalizing x with
  | nil => rfl
  | cons m rest ih =>
    rw [playAll?, story?]
    simp only [ih]

/-- What holds of a story and its scene holds on, if each move keeps it. -/
theorem playAll_keeps {s : Surroundings ω} {Inv : List Event → Scene ω → Prop} (allowed : Move ω → Prop)
    (hstep : ∀ tr x m evs x', allowed m → Inv tr x → x.play? s m = some (evs, x') → Inv (tr ++ evs) x')
    {moves : List (Move ω)} (hmoves : ∀ m ∈ moves, allowed m) {tr : List Event} {x : Scene ω} (h : Inv tr x)
    {later : List Event} {x' : Scene ω} (hplay : x.playAll? s moves = some (later, x')) :
    Inv (tr ++ later) x' := by
  rw [playAll?_eq_story] at hplay
  exact story_keeps allowed hstep hmoves h hplay

end Scene
end BatchExport
