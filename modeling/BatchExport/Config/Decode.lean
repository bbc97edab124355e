import BatchExport.Config.Settings
import BatchExport.Json.Decode

/-! Configurations read from data. Missing members take their defaults; unknown ones are ignored. -/
namespace BatchExport

open Json (Dialect)

variable (dialect : Dialect)

def ReferenceKind.ofJson? (j : Json) : Option ReferenceKind :=
  Json.name? dialect j >>= ReferenceKind.ofName?

def ApplicationSettings.ofJson? (tempDir : String) (j : Json) : Option ApplicationSettings := do
  let d : ApplicationSettings := { workDir := tempDir }
  let f ← j.fields? dialect ["name", "log_level", "work_dir"]
  let name ← f.withDefault "name" Json.text? d.name
  let logLevel ← f.withDefault "log_level" Json.text? d.logLevel
  let workDir ← f.withDefault "work_dir" Json.text? d.workDir
  return { name, logLevel, workDir }

def RetryPolicy.ofJson? (j : Json) : Option RetryPolicy := do
  let d : RetryPolicy := {}
  let f ← j.fields? dialect ["max_retries", "initial_delay_ms", "max_delay_ms", "backoff_multiplier"]
  let attempts ← f.withDefault "max_retries" Json.word? d.attempts
  let initialDelay ← f.withDefault "initial_delay_ms" Json.word? d.initialDelay
  let maxDelay ← f.withDefault "max_delay_ms" Json.word? d.maxDelay
  let multiplier ← f.withDefault "backoff_multiplier" Json.real? d.multiplier
  return { attempts, initialDelay, maxDelay, multiplier }

def RemoteSettings.ofJson? (j : Json) : Option RemoteSettings := do
  let d : RemoteSettings := {}
  let f ← j.fields? dialect ["base_url", "tenant", "token", "timeout_seconds", "retry"]
  let baseUrl ← f.withDefault "base_url" Json.text? d.baseUrl
  let tenant ← f.withDefault "tenant" (Json.option? Json.text?) none
  let token ← f.withDefault "token" (Json.option? Json.text?) none
  let timeoutSeconds ← f.withDefault "timeout_seconds" Json.word? d.timeoutSeconds
  let retry ← f.withDefault "retry" (RetryPolicy.ofJson? dialect) d.retry
  return { baseUrl, tenant, token, timeoutSeconds, retry }

def CacheSettings.ofJson? (j : Json) : Option CacheSettings := do
  let d : CacheSettings := {}
  let f ← j.fields? dialect ["default_capacity", "ttl_seconds", "capacities"]
  let defaultCapacity ← f.withDefault "default_capacity" Json.word? d.defaultCapacity
  let ttlSeconds ← f.withDefault "ttl_seconds" (Json.option? Json.word?) none
  let capacities ← f.withDefault "capacities" (Json.table? Json.word?) []
  return { defaultCapacity, ttlSeconds, capacities }

def PublisherSettings.ofJson? (j : Json) : Option PublisherSettings := do
  let d : PublisherSettings := {}
  let f ← j.fields? dialect ["kind", "endpoint", "topic", "timeout_seconds"]
  let kind ← f.withDefault "kind" (fun v => Json.name? dialect v >>= PublisherKind.ofName?) d.kind
  let endpoint ← f.withDefault "endpoint" (Json.option? Json.text?) none
  let topic ← f.withDefault "topic" Json.text? d.topic
  let timeoutSeconds ← f.withDefault "timeout_seconds" Json.word? d.timeoutSeconds
  return { kind, endpoint, topic, timeoutSeconds }

def StorageSettings.ofJson? (j : Json) : Option StorageSettings := do
  let d : StorageSettings := {}
  let f ← j.fields? dialect ["output_dir"]
  let outputDir ← f.withDefault "output_dir" Json.text? d.outputDir
  return { outputDir }

def RollbackSettings.ofJson? (j : Json) : Option RollbackSettings := do
  let d : RollbackSettings := {}
  let f ← j.fields? dialect ["restore_dir"]
  let restoreDir ← f.withDefault "restore_dir" Json.text? d.restoreDir
  return { restoreDir }

def DescribedStep.ofJson? (j : Json) : Option DescribedStep := do
  let f ← j.fields? dialect ["step", "label"]
  let step ← f.required "step" Json.text?
  let label ← f.required "label" Json.text?
  return { step, label }

def NotifierSettings.ofJson? (j : Json) : Option NotifierSettings := do
  let d : NotifierSettings := {}
  let f ← j.fields? dialect ["described_steps"]
  let describedSteps ← f.withDefault "described_steps" (Json.list? (DescribedStep.ofJson? dialect))
    d.describedSteps
  return { describedSteps }

def EnrichRule.ofJson? (j : Json) : Option EnrichRule := do
  let f ← j.fields? dialect ["field", "kind", "target"]
  let field ← f.required "field" Json.text?
  let kind ← f.required "kind" (ReferenceKind.ofJson? dialect)
  let target ← f.required "target" Json.text?
  return { field, kind, target }

def SourceSettings.ofJson? (j : Json) : Option SourceSettings := do
  let f ← j.fields? dialect ["path", "pagination", "page_size", "start_offset", "max_items", "range_start",
    "range_end", "records_field", "next_field", "query", "params", "chunk_size", "step_name", "id_field",
    "enrich"]
  let path ← f.required "path" Json.text?
  let d : SourceSettings := { path }
  let paging ← f.withDefault "pagination" (fun v => Json.name? dialect v >>= PagingMode.ofName?) d.paging
  let pageSize ← f.withDefault "page_size" Json.word? d.pageSize
  let startOffset ← f.withDefault "start_offset" (fun v => (Json.word? v).map .ofNat) d.startOffset
  let maxItems ← f.withDefault "max_items" (Json.option? Json.word?) none
  let rangeStart ← f.withDefault "range_start" (Json.option? Json.text?) none
  let rangeEnd ← f.withDefault "range_end" (Json.option? Json.text?) none
  let recordsField ← f.withDefault "records_field" Json.text? d.recordsField
  let nextField ← f.withDefault "next_field" Json.text? d.nextField
  let query ← f.withDefault "query" (Json.option? Json.text?) none
  let params ← f.withDefault "params" (Json.table? Json.text?) []
  let chunkSize ← f.withDefault "chunk_size" Json.word? d.chunkSize
  let stepName ← f.withDefault "step_name" (Json.option? Json.text?) none
  let idField ← f.withDefault "id_field" Json.text? d.idField
  let enrich ← f.withDefault "enrich" (Json.list? (EnrichRule.ofJson? dialect)) []
  return { path, paging, pageSize, startOffset, maxItems, rangeStart, rangeEnd, recordsField, nextField
           query, params, chunkSize, stepName, idField, enrich }

def LoggingSettings.ofJson? (j : Json) : Option LoggingSettings := do
  let d : LoggingSettings := {}
  let f ← j.fields? dialect ["local_enabled", "local_path", "local_rotation"]
  let localEnabled ← f.withDefault "local_enabled" Json.flag? d.localEnabled
  let localPath ← f.withDefault "local_path" Json.text? d.localPath
  let localRotation ← f.withDefault "local_rotation" Json.text? d.localRotation
  return { localEnabled, localPath, localRotation }

/-- The default work directory depends on the machine. -/
def Config.default (tempDir : String) : Config := { application := { workDir := tempDir } }

def Config.ofJson? (tempDir : String) (j : Json) : Option Config := do
  let d := Config.default tempDir
  let f ← j.fields? dialect ["application", "remote", "cache", "publisher", "storage", "rollback",
    "notifier", "sources", "logging"]
  let application ← f.withDefault "application" (ApplicationSettings.ofJson? dialect tempDir) d.application
  let remote ← f.withDefault "remote" (RemoteSettings.ofJson? dialect) d.remote
  let cache ← f.withDefault "cache" (CacheSettings.ofJson? dialect) d.cache
  let publisher ← f.withDefault "publisher" (PublisherSettings.ofJson? dialect) d.publisher
  let storage ← f.withDefault "storage" (StorageSettings.ofJson? dialect) d.storage
  let rollback ← f.withDefault "rollback" (RollbackSettings.ofJson? dialect) d.rollback
  let notifier ← f.withDefault "notifier" (NotifierSettings.ofJson? dialect) d.notifier
  let sources ← f.withDefault "sources" (Json.table? (SourceSettings.ofJson? dialect)) []
  let logging ← f.withDefault "logging" (LoggingSettings.ofJson? dialect) d.logging
  return { application, remote, cache, publisher, storage, rollback, notifier, sources, logging }

end BatchExport
