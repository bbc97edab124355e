import BatchExport.Lifecycle.RollbackCall
import BatchExport.Lifecycle.Run

/-! Runs and rollback calls side by side: each goes on until it has to wait, then it is the turn of the next. -/
namespace BatchExport

inductive Task (ω : Type) where
  | run (r : Run ω)
  | rollback (c : RollbackCall)

namespace Task

variable {ω : Type}

def step? (s : Surroundings ω) (w : Worker ω) : Task ω → Option (Task ω × Worker ω)
  | run r => (r.step? s w).map fun (r, w) => (run r, w)
  | rollback c => (c.step? s w).map fun (c, w) => (rollback c, w)

def isEnded : Task ω → Bool
  | run r => r.isEnded
  | rollback c => c.result?.isSome

/-- Others go first while a restore is under way. -/
def yields : Task ω → Bool
  | rollback ⟨_, .underway _⟩ => true
  | _ => false

def timeOut? : Task ω → Option (Task ω)
  | run _ => none
  | rollback c => c.timeOut?.map rollback

/-- Go on until there is a reason to wait. -/
def advance (s : Surroundings ω) : Nat → Task ω × Worker ω → Task ω × Worker ω
  | 0, state => state
  | fuel + 1, (t, w) =>
    match t.step? s w with
    | none => (t, w)
    | some (t, w) => if t.yields then (t, s.others w) else advance s fuel (t, s.others w)

/-- Every task gets one turn. -/
def turn (s : Surroundings ω) (fuel : Nat) : List (Task ω) → Worker ω → List (Task ω) × Worker ω
  | [], w => ([], w)
  | t :: rest, w =>
    let (t, w) := advance s fuel (t, w)
    let (rest, w) := turn s fuel rest w
    (t :: rest, w)

def canMove (s : Surroundings ω) (tasks : List (Task ω)) (w : Worker ω) : Bool :=
  tasks.any fun t => (t.step? s w).isSome

/-- Turns until all tasks wait. -/
def settle (s : Surroundings ω) : Nat → List (Task ω) × Worker ω → List (Task ω) × Worker ω
  | 0, state => state
  | fuel + 1, (tasks, w) => if canMove s tasks w then settle s fuel (turn s fuel tasks w) else (tasks, w)

/-- The first wait that can be given up is given up. -/
def timeOutFirst? : List (Task ω) → Option (List (Task ω))
  | [] => none
  | t :: rest =>
    match t.timeOut? with
    | some t => some (t :: rest)
    | none => (timeOutFirst? rest).map (t :: ·)

end Task
end BatchExport
