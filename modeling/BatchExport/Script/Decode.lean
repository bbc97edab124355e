import BatchExport.Json.Access
import BatchExport.Script.Lifecycle
import BatchExport.Script.Pages
import BatchExport.Script.References
import BatchExport.Script.Step

/-! Scripts written as JSON. A value with a member `error` stands for a failure. -/
namespace BatchExport

/-- Failures that carry one message. -/
def Failure.plain : List (String × (String → Failure)) := [
  ("Configuration", .configuration), ("MalformedJobRequest", .malformedRequest), ("Cleanup", .cleanup),
  ("Publication", .publication), ("Rollback", .rollback), ("SourceAborted", .sourceAborted),
  ("Validation", .validation), ("Serialization", .serialization), ("Io", .storage),
  ("ConnectionFailed", fun d => .remoteUnavailable (.connectionFailed d)),
  ("InvalidResponse", fun d => .remoteUnavailable (.invalidResponse d)),
  ("Timeout", fun d => .remoteUnavailable (.timeout d))]

/-- Failures without a cause, by the name of their kind. -/
def Failure.simple? (j : Json) : Option Failure :=
  let message := j.textAt "message"
  let kind := j.textAt "kind"
  match kind with
  | "NotFound" => some (.notFound (j.textAt "ref") (j.textAt "key"))
  | "PartialFailure" => some (.partialFailure (j.textAt "record") (j.textAt "reason"))
  | "ServerError" => some (.remoteUnavailable (.serverError (j.natAt "status" 0) message))
  | "ClientError" => some (.remoteUnavailable (.clientError (j.natAt "status" 0) message))
  | _ => (Failure.plain.lookup kind).map (· message)

/-- A failure; a step names its cause in the member `source`. -/
def Failure.ofJson? : Nat → Json → Option Failure
  | 0, _ => none
  | depth + 1, j =>
    if j.textAt "kind" = "Step" then
      (Failure.ofJson? depth (j.member "source")).map (.step (j.textAt "step"))
    else Failure.simple? j

namespace Json

/-- Failures may be nested so deeply. -/
def failureDepth : Nat := 1000

def failure? (j : Json) : Option Failure := Failure.ofJson? failureDepth j

def failureAt (j : Json) (key : String) : Failure := (j.member key).failure?.getD (.storage "")

/-- A failure, or what the value stands for. -/
def scripted (j : Json) (read : Json → α) : Except Failure α :=
  match j.get? "error" >>= failure? with
  | some f => .error f
  | none => .ok (read j)

end Json

/-- A text, a failure, or a chain of errors that may lead back into itself. -/
def RecordedFailure.ofJson (j : Json) : RecordedFailure :=
  match j, j.get? "chain" with
  | .string s, _ => .ofText s
  | _, some _ =>
    let graph := CauseGraph.ofChain (j.textsAt "chain") (j.natAt? "loop_to")
    let shifted := graph.map fun node => { node with cause := node.cause.map (· + 1) }
    ⟨shifted.take 1 ++ shifted⟩
  | _, none => .ofFailure (j.failure?.getD (.storage ""))

def StepRun.ofJson (now : Instant) (j : Json) : StepRun :=
  let s : StepRun :=
    { name := j.textAt "name", read := j.natAt "read" 0, written := j.natAt "write" 0
      filtered := j.natAt "filter" 0, skipped := j.natAt "skip" 0 }
  match j.textAt? "status" >>= BatchStatus.ofName? with
  | some status => s.finish status now
  | none => s

/-- Any other name stands for the end after a stop. -/
def Execution.markNamed (now : Instant) (e : Execution) : String → Execution
  | "started" => e.markStarted now
  | "stopping" => e.markStopping now
  | "completed" => e.markCompleted now
  | "failed" => e.markFailed now
  | _ => e.markStopped now

/-- Seconds and nanoseconds. -/
def Instant.ofJson? (j : Json) : Option Instant :=
  match j.items? with
  | some [s, n] => do return ⟨← s.int?, ← n.nat?⟩
  | _ => none

def DescribedStep.ofScript (j : Json) : DescribedStep := ⟨j.textAt "step", j.textAt "label"⟩

def Json.textsByKey (j : Json) (key : String) : Entries String :=
  .ofList ((j.tableAt key).filterMap fun (k, v) => v.text?.map (k, ·))

/-- An execution that has gone through all that is listed; given times win. -/
def Execution.ofJson (now : Instant) (j : Json) : Execution :=
  let e := Execution.new (j.natAt "id" 1) ((j.textAt? "job").getD "job") (j.textsByKey "params") now
  let e := (j.listAt "steps").foldl (fun e s => e.addStep (.ofJson now s)) e
  let e := (j.textsByKey "context").foldl (fun e (k, v) => e.putContext k v) e
  let e := (j.listAt "failures").foldl (fun e f => e.addFailure (.ofJson f) now) e
  let e := (j.textsAt "marks").foldl (Execution.markNamed now) e
  let times := j.member "times"
  let given (key : String) (old : Option Instant) : Option Instant :=
    (times.get? key).elim old Instant.ofJson?
  { e with
    created := (given "created" none).getD e.created
    updated := (given "updated" none).getD e.updated
    started := given "started" e.started
    ended := given "ended" e.ended }

def PageScript.ofJson (j : Json) : PageScript Json :=
  { collection := (j.get? "collection").bind Json.items?
    answers := (j.listAt "pages").map (·.scripted fun page => ⟨page.listAt "records", page.textAt? "next"⟩) }

namespace ReferenceScript

/-- A null entity is unknown. -/
def entity (kind : ReferenceKind) (id : String) : Json → Except Failure Json
  | .null => .error (.notFound kind.label id)
  | j => j.scripted fun entity => entity

def answer (j : Json) : Except Failure (List Json) := j.scripted fun found => found.items?.getD []

def entries (j : Json) (read : ReferenceKind → String → Json → α) : List ((ReferenceKind × String) × α) :=
  (j.members?.getD []).flatMap fun (name, table) =>
    match ReferenceKind.ofName? name with
    | some kind => (table.members?.getD []).map fun (key, v) => ((kind, key), read kind key v)
    | none => []

def ofJson (j : Json) : ReferenceScript :=
  { entities := entries (j.member "by_id") entity
    answers := entries (j.member "by_query") fun _ _ => answer }

end ReferenceScript

def ScriptedItem.ofJson (j : Json) : ScriptedItem :=
  { readFailure := j.get? "read_error" >>= Json.failure?, ends := j.has "end"
    result := j.scripted fun item => item.get? "out"
    stopOnRead := j.has "stop_on_read", stopOnProcess := j.has "stop_on_process" }

def WriterAct.ofJson? (j : Json) : Option WriterAct :=
  match j.get? "error" >>= Json.failure? with
  | some f => some (.fail f)
  | none => if j.has "stop" then some .requestStop else none

def StepScript.ofJson (j : Json) : StepScript :=
  let writer := j.member "writer"
  let due? (key : String) : Option (Nat × WriterAct) := do
    return (← (writer.member key).natAt? "at", ← WriterAct.ofJson? (writer.member key))
  { items := (j.listAt "items").map ScriptedItem.ofJson, stop := j.has "stop_first", onWrite := due? "write"
    onSkip := due? "skip", onClose := WriterAct.ofJson? (writer.member "close") }

def ScriptedRestore.ofJson (j : Json) : ScriptedRestore :=
  { result := j.scripted fun j => j.textAt? "ok", bind := j.natAt? "then_bind"
    snapshot := j.textAt? "then_snapshot", release := j.has "then_release" }

def Delivery.ofName : String → Delivery
  | "channel" => .kept
  | "log" => .ignored
  | _ => .refused

/-- Null is the running set itself and a text an operator that does not wait; else answers by execution. -/
def LifecycleScript.operatorOfJson : Json → JobOperator LifecycleScript
  | .null => .ofRunningSet LifecycleScript
  | .string _ => hastyOperator
  | j =>
    let entry (table : String) (id : ExecutionId) : Json := (j.member table).member (toString id)
    operator (fun id => (entry "stop" id).scripted fun answer => answer.flag?.getD true)
      (fun id => if (entry "wait" id).text? = some "hang" then none else some ((entry "wait" id).scripted fun _ => ()))

/-- Files with their texts; without a text it is a directory. -/
def FileTree.putAll (t : FileTree) (files : List (String × Json)) : FileTree :=
  files.foldl (fun t (path, content) =>
    match content with
    | .string text =>
      let (_, t) := makeDirs ((Path.parent? path).getD "") t
      (write path text.toList t).2
    | _ => (makeDirs path t).2) t

/-- A part of a job by its name; an unknown one does nothing. -/
def JobPart.ofJson (j : Json) : JobPart LifecycleScript :=
  match j.textAt "do" with
  | "put" => .ofChange fun e w => (e.putContext (j.textAt "key") (j.textAt "value"), w)
  | "step" => .ofChange fun e w => (e.addStep (.ofJson w.now j), w)
  | "failure" => .ofChange fun e w => (e.addFailure (.ofJson (j.member "failure")) w.now, w)
  | "fail" => { act := throw (j.failureAt "failure") }
  | "file" => .ofChange fun e w => (e, { w with files := w.files.putAll (j.tableAt "files") })
  | "stop_self" => .stopSelf
  | "look" => LifecycleScript.look
  | "wait_stop" => .waitForStop
  | _ => .ofChange fun e w => (e, w)

end BatchExport
