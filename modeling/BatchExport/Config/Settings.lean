import BatchExport.Completion
import BatchExport.Entries
import BatchExport.Reference.Kind
import BatchExport.Remote.RetryPolicy

/-! The configuration of the worker, section by section, with its defaults. -/
namespace BatchExport

structure ApplicationSettings where
  /-- Also the directory of staged files below the work directory. -/
  name : String := "ferry"
  logLevel : String := "info"
  workDir : String
  deriving DecidableEq, Repr

structure RemoteSettings where
  baseUrl : String := "http://localhost:9130"
  tenant : Option String := none
  token : Option String := none
  timeoutSeconds : Nat := 60
  retry : RetryPolicy := {}
  deriving DecidableEq, Repr

structure CacheSettings where
  defaultCapacity : Nat := 1000
  ttlSeconds : Option Nat := none
  /-- By the name of the partition or of its kind. -/
  capacities : Entries Nat := []
  deriving DecidableEq, Repr

inductive PublisherKind where
  | log
  | http
  deriving DecidableEq, Repr

structure PublisherSettings where
  kind : PublisherKind := .log
  endpoint : Option String := none
  topic : String := "data-export.job.update"
  timeoutSeconds : Nat := 60
  deriving DecidableEq, Repr

structure StorageSettings where
  outputDir : String := "./output"
  deriving DecidableEq, Repr

structure RollbackSettings where
  restoreDir : String := "./restore"
  deriving DecidableEq, Repr

def defaultDescribedSteps : List DescribedStep := [
  ⟨"chargeFeesFinesExportStep", "# of charges"⟩, ⟨"refundFeesFinesExportStep", "# of refunds"⟩]

structure NotifierSettings where
  describedSteps : List DescribedStep := defaultDescribedSteps
  deriving DecidableEq, Repr

inductive PagingMode where
  | offset
  | cursor
  deriving DecidableEq, Repr

/-- Replace the reference id in one member by a name in another. -/
structure EnrichRule where
  field : String
  kind : ReferenceKind
  target : String
  deriving DecidableEq, Repr

/-- One remote collection that can be exported. -/
structure SourceSettings where
  path : String
  paging : PagingMode := .offset
  pageSize : Nat := 100
  startOffset : UInt64 := 0
  maxItems : Option Nat := none
  rangeStart : Option String := none
  rangeEnd : Option String := none
  recordsField : String := "records"
  nextField : String := "next"
  query : Option String := none
  params : Entries String := []
  chunkSize : Nat := 100
  stepName : Option String := none
  idField : String := "id"
  enrich : List EnrichRule := []
  deriving DecidableEq, Repr

structure LoggingSettings where
  localEnabled : Bool := false
  localPath : String := "./logs"
  localRotation : String := "daily"
  deriving DecidableEq, Repr

structure Config where
  application : ApplicationSettings
  remote : RemoteSettings := {}
  cache : CacheSettings := {}
  publisher : PublisherSettings := {}
  storage : StorageSettings := {}
  rollback : RollbackSettings := {}
  notifier : NotifierSettings := {}
  sources : Entries SourceSettings := []
  logging : LoggingSettings := {}
  deriving DecidableEq, Repr

namespace PublisherKind

def name : PublisherKind → String
  | log => "log"
  | http => "http"

def ofName? (s : String) : Option PublisherKind := [log, http].find? (·.name == s)

end PublisherKind

namespace PagingMode

def name : PagingMode → String
  | offset => "offset"
  | cursor => "cursor"

def ofName? (s : String) : Option PagingMode := [offset, cursor].find? (·.name == s)

/-- As reports for people name the mode. -/
def label : PagingMode → String
  | offset => "Offset"
  | cursor => "Cursor"

end PagingMode

namespace CacheSettings

/-- Capacities by kind, in the order of their names; a name without a kind is left out. -/
def kindCapacities (c : CacheSettings) : List (ReferenceKind × Nat) :=
  c.capacities.filterMap fun (name, n) => (ReferenceKind.parse? name).map (·, n)

end CacheSettings

namespace Config

def source? (c : Config) (name : String) : Option SourceSettings := Entries.get? c.sources name

def unknownSourceMessage (c : Config) (name : String) : String :=
  let known := if c.sources.isEmpty then "<none>" else Text.joinWith ", " (Entries.keys c.sources)
  s!"Unknown source '{name}'. Configured sources: " ++ known

end Config
end BatchExport
