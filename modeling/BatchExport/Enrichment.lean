import BatchExport.Config.Settings
import BatchExport.Json.Printer
import BatchExport.Reference.Cache

/-! Records whose reference ids get the names they stand for. -/
namespace BatchExport

def unknownRecordId : String := "<unknown>"

/-- The member that identifies a record in reports: a text, or a number in its JSON text. -/
def recordId (record : Json) (idField : String) : String :=
  match record.get? idField with
  | some (.string id) => id
  | some (.number n) => String.ofList (Json.numberText n)
  | _ => unknownRecordId

namespace Enrichment

variable {σ : Type}

/-- A non-empty text names a reference; a rule does not fire on anything else. -/
def reference? (rule : EnrichRule) (members : List (String × Json)) : Option String :=
  match members.lookup rule.field with
  | some (.string id) => if id.isEmpty then none else some id
  | _ => none

/-- The name of an entity is its query field. -/
def entityName (kind : ReferenceKind) (entity : Json) : Json := (entity.get? kind.queryField).getD .null

/-- An unknown reference fails the record alone; other failures stay as they are. -/
def blame (id : String) (f : Failure) : Failure :=
  if f.isNotFound then .partialFailure id f.message else f

/-- Later rules see the targets of earlier ones. -/
def applyRules (lookup : ReferenceLookup σ) (id : String) :
    List EnrichRule → List (String × Json) → Effect (ReferenceCache × σ) (List (String × Json))
  | [], members => pure members
  | rule :: rules, members =>
    match reference? rule members with
    | none => applyRules lookup id rules members
    | some reference => do
      let entity ← (ReferenceCache.resolveId lookup rule.kind reference).mapFailure (blame id)
      applyRules lookup id rules
        (Json.insertMember rule.target (entityName rule.kind entity) members)

/-- Apply the rules to a record. Without rules a record need not even be an object. -/
def process (lookup : ReferenceLookup σ) (rules : List EnrichRule) (idField : String) (record : Json) :
    Effect (ReferenceCache × σ) Json :=
  if rules.isEmpty then pure record
  else
    let id := recordId record idField
    match record with
    | .object members => (applyRules lookup id rules members).map .object
    | _ => throw (.partialFailure id "record is not a JSON object")

end Enrichment
end BatchExport
