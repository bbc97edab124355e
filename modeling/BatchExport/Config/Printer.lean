import BatchExport.Config.Settings
import BatchExport.Json.Value

/-! Configurations as JSON, every setting written out. -/
namespace BatchExport

def RetryPolicy.toJson (p : RetryPolicy) : Json := .ofMembers [
  ("max_retries", .ofNat p.attempts), ("initial_delay_ms", .ofNat p.initialDelay),
  ("max_delay_ms", .ofNat p.maxDelay), ("backoff_multiplier", .number (.real p.multiplier))]

def EnrichRule.toJson (r : EnrichRule) : Json := .ofMembers [
  ("field", .string r.field), ("kind", .string r.kind.name), ("target", .string r.target)]

def SourceSettings.toJson (s : SourceSettings) : Json := .ofMembers [
  ("path", .string s.path), ("pagination", .string s.paging.name), ("page_size", .ofNat s.pageSize),
  ("start_offset", .ofNat s.startOffset.toNat), ("max_items", .ofOption .ofNat s.maxItems),
  ("range_start", .ofText? s.rangeStart), ("range_end", .ofText? s.rangeEnd),
  ("records_field", .string s.recordsField), ("next_field", .string s.nextField), ("query", .ofText? s.query),
  ("params", .ofMembers (s.params.map fun (k, v) => (k, .string v))), ("chunk_size", .ofNat s.chunkSize),
  ("step_name", .ofText? s.stepName), ("id_field", .string s.idField),
  ("enrich", .array (s.enrich.map EnrichRule.toJson))]

def DescribedStep.toJson (d : DescribedStep) : Json := .ofMembers [
  ("step", .string d.step), ("label", .string d.label)]

def Config.toJson (c : Config) : Json := .ofMembers [
  ("application", .ofMembers [("name", .string c.application.name),
    ("log_level", .string c.application.logLevel), ("work_dir", .string c.application.workDir)]),
  ("remote", .ofMembers [("base_url", .string c.remote.baseUrl), ("tenant", .ofText? c.remote.tenant),
    ("token", .ofText? c.remote.token), ("timeout_seconds", .ofNat c.remote.timeoutSeconds),
    ("retry", c.remote.retry.toJson)]),
  ("cache", .ofMembers [("default_capacity", .ofNat c.cache.defaultCapacity),
    ("ttl_seconds", .ofOption .ofNat c.cache.ttlSeconds),
    ("capacities", .ofMembers (c.cache.capacities.map fun (k, n) => (k, .ofNat n)))]),
  ("publisher", .ofMembers [("kind", .string c.publisher.kind.name), ("endpoint", .ofText? c.publisher.endpoint),
    ("topic", .string c.publisher.topic), ("timeout_seconds", .ofNat c.publisher.timeoutSeconds)]),
  ("storage", .ofMembers [("output_dir", .string c.storage.outputDir)]),
  ("rollback", .ofMembers [("restore_dir", .string c.rollback.restoreDir)]),
  ("notifier", .ofMembers [("described_steps", .array (c.notifier.describedSteps.map DescribedStep.toJson))]),
  ("sources", .ofMembers (c.sources.map fun (k, s) => (k, s.toJson))),
  ("logging", .ofMembers [("local_enabled", .bool c.logging.localEnabled),
    ("local_path", .string c.logging.localPath), ("local_rotation", .string c.logging.localRotation)])]

end BatchExport
