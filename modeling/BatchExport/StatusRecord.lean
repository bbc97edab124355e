import BatchExport.JobId
import BatchExport.Json.Decode
import BatchExport.Status
import BatchExport.Time.Instant

/-! The status record of an execution, as it is published. -/
namespace BatchExport

structure StatusRecord where
  id : JobId
  created : Option Instant
  started : Option Instant
  ended : Option Instant
  updated : Instant
  status : BatchStatus
  exit : ExitStatus
  files : List String
  errorDetails : Option String
  description : Option String
  deriving DecidableEq, Repr

/-- What a status record is made from; the exit status follows the batch status unless it is given. -/
structure StatusDraft where
  id : JobId
  created : Option Instant := none
  started : Option Instant := none
  ended : Option Instant := none
  updated : Instant
  status : BatchStatus := .starting
  exit : Option ExitStatus := none
  files : List String := []
  errorDetails : Option String := none
  description : Option String := none

/-- Empty details are no details. -/
def StatusDraft.withErrorDetails (d : StatusDraft) (details : String) : StatusDraft :=
  { d with errorDetails := if details.isEmpty then none else some details }

def StatusDraft.build (d : StatusDraft) : StatusRecord :=
  { id := d.id, created := d.created, started := d.started, ended := d.ended, updated := d.updated
    status := d.status, exit := d.exit.getD (.ofBatchStatus d.status), files := d.files
    errorDetails := d.errorDetails, description := d.description }

namespace StatusRecord

/-- The wire form; details and description are left out when there are none. -/
def toJson (r : StatusRecord) : Json :=
  let time (t : Instant) : Json := .string t.render
  let optional (key : String) (value : Option String) : List (String × Json) :=
    value.toList.map fun v => (key, .string v)
  .ofMembers <|
    [ ("id", .string r.id.text),
      ("createdDate", .ofOption time r.created),
      ("startTime", .ofOption time r.started),
      ("endTime", .ofOption time r.ended),
      ("updatedDate", time r.updated),
      ("batchStatus", .string r.status.name),
      ("exitStatus", .ofMembers [
        ("exitCode", .string r.exit.code), ("exitDescription", .string r.exit.description)]),
      ("files", .array (r.files.map .string)) ] ++
    optional "errorDetails" r.errorDetails ++ optional "description" r.description

def readInstant (j : Json) : Option Instant := j.text? >>= Instant.parse?

def readStatus (j : Json) : Option BatchStatus := Json.name? .json j >>= BatchStatus.ofName?

def readExit (j : Json) : Option ExitStatus := do
  let f ← j.fields? .json ["exitCode", "exitDescription"]
  let code ← f.required "exitCode" Json.text?
  let description ← f.required "exitDescription" Json.text?
  return ⟨code, description⟩

/-- Times and texts that may be absent may also be null. -/
def ofJson? (j : Json) : Option StatusRecord := do
  let f ← j.fields? .json ["id", "createdDate", "startTime", "endTime", "updatedDate", "batchStatus",
    "exitStatus", "files", "errorDetails", "description"]
  let id ← f.required "id" Json.text?
  let created ← f.nullable "createdDate" readInstant
  let started ← f.nullable "startTime" readInstant
  let ended ← f.nullable "endTime" readInstant
  let updated ← f.required "updatedDate" readInstant
  let status ← f.required "batchStatus" readStatus
  let exit ← f.required "exitStatus" readExit
  let files ← f.required "files" (Json.list? Json.text?)
  let errorDetails ← f.nullable "errorDetails" Json.text?
  let description ← f.nullable "description" Json.text?
  return { id := ⟨id⟩, created, started, ended, updated, status, exit, files, errorDetails, description }

def isTerminal (r : StatusRecord) : Bool := r.status.isTerminal

end StatusRecord
end BatchExport
