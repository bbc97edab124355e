import BatchExport.Text.Lower

/-! Kinds of reference entities and how a remote service lays them out. -/
namespace BatchExport

inductive ReferenceKind where
  | callNumberType
  | damagedStatus
  | itemNoteType
  | electronicAccessRelationship
  | servicePoint
  | statisticalCode
  | user
  | location
  | materialType
  | holdingsRecord
  | instanceRecord
  | loanType
  deriving DecidableEq, Repr

namespace ReferenceKind

def all : List ReferenceKind := [
  callNumberType, damagedStatus, itemNoteType, electronicAccessRelationship, servicePoint,
  statisticalCode, user, location, materialType, holdingsRecord, instanceRecord, loanType]

def name : ReferenceKind → String
  | callNumberType => "call-number-type"
  | damagedStatus => "damaged-status"
  | itemNoteType => "item-note-type"
  | electronicAccessRelationship => "electronic-access-relationship"
  | servicePoint => "service-point"
  | statisticalCode => "statistical-code"
  | user => "user"
  | location => "location"
  | materialType => "material-type"
  | holdingsRecord => "holdings-record"
  | instanceRecord => "instance"
  | loanType => "loan-type"

/-- As messages name the kind. -/
def label : ReferenceKind → String
  | callNumberType => "Call number type"
  | damagedStatus => "Damaged status"
  | itemNoteType => "Note type"
  | electronicAccessRelationship => "Electronic access relationship"
  | servicePoint => "Service point"
  | statisticalCode => "Statistical code"
  | user => "User"
  | location => "Location"
  | materialType => "Material type"
  | holdingsRecord => "Holdings record"
  | instanceRecord => "Instance"
  | loanType => "Loan type"

/-- The path of the collection below the base URL. -/
def path : ReferenceKind → String
  | callNumberType => "call-number-types"
  | damagedStatus => "item-damaged-statuses"
  | itemNoteType => "item-note-types"
  | electronicAccessRelationship => "electronic-access-relationships"
  | servicePoint => "service-points"
  | statisticalCode => "statistical-codes"
  | user => "users"
  | location => "locations"
  | materialType => "material-types"
  | holdingsRecord => "holdings-storage/holdings"
  | instanceRecord => "instance-storage/instances"
  | loanType => "loan-types"

/-- The member of a query answer that holds the entities. -/
def collectionField : ReferenceKind → String
  | callNumberType => "callNumberTypes"
  | damagedStatus => "itemDamageStatuses"
  | itemNoteType => "itemNoteTypes"
  | electronicAccessRelationship => "electronicAccessRelationships"
  | servicePoint => "servicepoints"
  | statisticalCode => "statisticalCodes"
  | user => "users"
  | location => "locations"
  | materialType => "mtypes"
  | holdingsRecord => "holdingsRecords"
  | instanceRecord => "instances"
  | loanType => "loantypes"

/-- The member that names an entity to people, and that name lookups match. -/
def queryField : ReferenceKind → String
  | statisticalCode => "code"
  | user => "username"
  | holdingsRecord | instanceRecord => "hrid"
  | _ => "name"

/-- The name of the cache partition, which is also its key in the configuration. -/
def cacheName : ReferenceKind → String
  | callNumberType => "callNumberTypes"
  | damagedStatus => "damagedStatuses"
  | itemNoteType => "noteTypes"
  | electronicAccessRelationship => "relationships"
  | servicePoint => "servicePoints"
  | statisticalCode => "statisticalCodes"
  | user => "users"
  | location => "locations"
  | materialType => "materialTypes"
  | holdingsRecord => "briefHoldings"
  | instanceRecord => "briefInstances"
  | loanType => "loanTypes"

def ofName? (s : String) : Option ReferenceKind := all.find? (·.name == s)

/-- A cache name in any case, or the exact name of the kind. -/
def parse? (s : String) : Option ReferenceKind :=
  all.find? fun kind => Text.equalIgnoringAsciiCase kind.cacheName s || kind.name == s

def unknownMessage (s : String) : String := s!"Unknown reference kind: {s}"

/-- Quotes, backslashes and the wildcards of the query language stand for themselves after a backslash. -/
def escapeLiteral : List Char → List Char
  | [] => []
  | c :: rest =>
    if c = '\\' ∨ c = '"' ∨ c = '*' ∨ c = '?' ∨ c = '^' then '\\' :: c :: escapeLiteral rest
    else c :: escapeLiteral rest

/-- The query for entities whose query field is exactly this value. -/
def exactMatchQuery (kind : ReferenceKind) (value : String) : String :=
  kind.queryField ++ "==\"" ++ String.ofList (escapeLiteral value.toList) ++ "\""

theorem ofName?_name (kind : ReferenceKind) : ofName? kind.name = some kind := by
  cases kind <;> rfl

end ReferenceKind
end BatchExport
