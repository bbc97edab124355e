import BatchExport.Job.ChunkStep
import BatchExport.Json.Value

/-! Items and a writer whose behaviour is known in advance. -/
namespace BatchExport

/-- What pulling an item and processing it lead to. -/
structure ScriptedItem where
  readFailure : Option Failure := none
  /-- The source says that it is exhausted. -/
  ends : Bool := false
  result : Except Failure (Option Json) := .ok none
  stopOnRead : Bool := false
  stopOnProcess : Bool := false

/-- What a writer does besides its work. -/
inductive WriterAct where
  | fail (f : Failure)
  | requestStop
  deriving DecidableEq, Repr

inductive WriterEvent where
  | wrote (items : List Json)
  | skipped (message : String)
  | closed
  deriving Repr

structure StepScript where
  items : List ScriptedItem
  /-- In which of the calls, counted from one. -/
  onWrite : Option (Nat × WriterAct) := none
  onSkip : Option (Nat × WriterAct) := none
  /-- In every call. -/
  onClose : Option WriterAct := none
  stop : Bool := false
  events : List WriterEvent := []

namespace StepScript

def isWrite : WriterEvent → Bool
  | .wrote _ => true
  | _ => false

def isSkip : WriterEvent → Bool
  | .skipped _ => true
  | _ => false

def act (s : StepScript) : Option WriterAct → Except Failure Unit × StepScript
  | none => (.ok (), s)
  | some (.fail f) => (.error f, s)
  | some .requestStop => (.ok (), { s with stop := true })

/-- The plan of a call if this is the one it is for. -/
def due (plan : Option (Nat × WriterAct)) (n : Nat) : Option WriterAct := (plan.filter (·.1 == n)).map (·.2)

def log (s : StepScript) (event : WriterEvent) : StepScript := { s with events := s.events ++ [event] }

def next (s : StepScript) : Except Failure (Option ScriptedItem) × StepScript :=
  match s.items with
  | [] => (.ok none, s)
  | item :: items =>
    let s := { s with items, stop := s.stop || item.stopOnRead }
    match item.readFailure with
    | some f => (.error f, s)
    | none => (.ok (if item.ends then none else some item), s)

/-- A step that listens to the stop flag, or one that cannot be stopped. -/
def flow (listens : Bool) : ItemFlow StepScript ScriptedItem Json where
  stopRequested s := listens && s.stop
  next := .ofStep next
  process item := .ofStep fun s => (item.result, { s with stop := s.stop || item.stopOnProcess })
  write items := .ofStep fun s =>
    let s := s.log (.wrote items)
    s.act (due s.onWrite (s.events.countP isWrite))
  writeSkipped f := .ofStep fun s =>
    let s := s.log (.skipped f.message)
    s.act (due s.onSkip (s.events.countP isSkip))
  close := .ofStep fun s =>
    let s := s.log .closed
    s.act s.onClose

end StepScript
end BatchExport
