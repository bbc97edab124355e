import BatchExport.Files.Cleanup
import BatchExport.Lifecycle.Command
import BatchExport.Script.Lifecycle
import BatchExport.Script.Pages
import BatchExport.Script.References
import BatchExport.Script.Step

/-! What scripts have seen, as JSON. -/
namespace BatchExport

def Json.ofTexts (ss : List String) : Json := .array (ss.map .string)

def PageRequest.toJson (r : PageRequest) : Json :=
  let place := match r.position with
    | .offset n => ("offset", .ofNat n)
    | .cursor marker => ("cursor", .string marker)
  .ofMembers [place, ("limit", .ofNat r.limit), ("position", .string r.position.label),
    ("range_start", .ofText? r.rangeStart), ("range_end", .ofText? r.rangeEnd)]

def ReferenceTable.name : ReferenceTable → String
  | byId => "by_id"
  | byQuery => "by_query"

def ReferenceScript.callsJson (s : ReferenceScript) : Json :=
  .array (s.calls.map fun (table, kind, key) => .ofTexts [table.name, kind.name, key])

def WriterEvent.toJson : WriterEvent → Json
  | wrote items => .ofMembers [("write", .array items)]
  | skipped message => .ofMembers [("skipped", .string message)]
  | closed => .string "close"

def Moment.name : Moment → String
  | before => "before"
  | after => "after"

def WorkerEvent.toJson : WorkerEvent → Json
  | observed moment name id status =>
    .ofMembers [(moment.name, .string name), ("id", .ofNat id), ("status", .string status.name)]
  | looked id running stop status code =>
    .ofMembers [("look", .ofNat id), ("running", .bool running), ("stop", .bool stop),
      ("status", .string status.name), ("exit_code", .string code)]
  | published job record => .ofMembers [("publish", .string job.text), ("record", record.toJson)]
  | acknowledged a => .ofMembers [("acknowledged", .string a.tag)]
  | dropped a => .ofMembers [("dropped", .string a.tag)]
  | stopAsked id => .ofMembers [("stop", .ofNat id)]
  | waited id => .ofMembers [("wait", .ofNat id)]
  | restoring job snapshot => .ofMembers [("restore", .ofTexts [job.text, snapshot])]

def Reply.toJson : Reply → Json
  | done => .null
  | flag b => .bool b
  | execution id => .ofOption .ofNat id
  | snapshot path => .ofText? path
  | acknowledgement a => .bool a.isSome

def CleanupReport.toJson (r : CleanupReport) : Json := .ofMembers [
  ("deleted", .ofTexts (r.deleted.mergeSort (· ≤ ·))), ("failed", .ofTexts (r.failed.mergeSort (· ≤ ·)))]

end BatchExport
