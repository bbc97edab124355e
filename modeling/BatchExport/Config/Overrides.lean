import BatchExport.Config.Settings
import BatchExport.Decimal.Power
import BatchExport.Environment
import BatchExport.Text.Blank
import BatchExport.Text.Decimal
import BatchExport.Text.Lower

/-! Settings that environment variables override. -/
namespace BatchExport

inductive OverrideProblem where
  | badValue (value key : String)
  | badPublisherKind (kind : String)
  deriving DecidableEq, Repr

def OverrideProblem.message : OverrideProblem → String
  | badValue value key => s!"Invalid value '{value}' for {key}"
  | badPublisherKind kind => s!"Invalid FERRY_PUBLISHER_KIND '{kind}'. Must be 'log' or 'http'"

/-- A blank credential is none. -/
def credential? (value : Option String) : Option String := value.filter fun s => !Text.isBlank s

namespace Config

/-- A variable that is set, read as a value. -/
def parsedVariable (env : Environment) (key : String) (read : String → Option α) :
    Except OverrideProblem (Option α) :=
  match Entries.get? env key with
  | none => .ok none
  | some raw =>
    match read raw with
    | some value => .ok (some value)
    | none => .error (.badValue raw key)

private def word? : String → Option Nat := Text.parseUnsigned? maxWord

private def publisherKind (env : Environment) : Except OverrideProblem (Option PublisherKind) :=
  match Entries.get? env "FERRY_PUBLISHER_KIND" with
  | none => .ok none
  | some raw =>
    match PublisherKind.ofName? (Text.lower raw) with
    | some kind => .ok (some kind)
    | none => .error (.badPublisherKind (Text.lower raw))

/-- Numbers and truth values are read in section order, so the first bad one is reported. -/
def override (env : Environment) (c : Config) : Except OverrideProblem Config := do
  let setting (key : String) : Option String := Entries.get? env key
  let text (key old : String) : String := (setting key).getD old
  let timeout ← parsedVariable env "FERRY_REMOTE_TIMEOUT_SECONDS" word?
  let attempts ← parsedVariable env "FERRY_REMOTE_RETRY_MAX_RETRIES" word?
  let capacity ← parsedVariable env "FERRY_CACHE_DEFAULT_CAPACITY" word?
  let ttl ← parsedVariable env "FERRY_CACHE_TTL_SECONDS" word?
  let kind ← publisherKind env
  let localEnabled ← parsedVariable env "FERRY_LOGGING_LOCAL_ENABLED" Text.parseFlag?
  return {
    application := {
      name := text "FERRY_APPLICATION_NAME" c.application.name
      logLevel := text "FERRY_APPLICATION_LOG_LEVEL" c.application.logLevel
      workDir := text "FERRY_APPLICATION_WORK_DIR" c.application.workDir }
    remote := {
      baseUrl := text "FERRY_REMOTE_BASE_URL" c.remote.baseUrl
      tenant := setting "FERRY_REMOTE_TENANT" <|> c.remote.tenant
      token := credential? (setting "FERRY_REMOTE_TOKEN") <|> c.remote.token
      timeoutSeconds := timeout.getD c.remote.timeoutSeconds
      retry := { c.remote.retry with attempts := attempts.getD c.remote.retry.attempts } }
    cache := {
      defaultCapacity := capacity.getD c.cache.defaultCapacity
      ttlSeconds := ttl <|> c.cache.ttlSeconds
      capacities := c.cache.capacities }
    publisher := {
      kind := kind.getD c.publisher.kind
      endpoint := setting "FERRY_PUBLISHER_ENDPOINT" <|> c.publisher.endpoint
      topic := text "FERRY_PUBLISHER_TOPIC" c.publisher.topic
      timeoutSeconds := c.publisher.timeoutSeconds }
    storage := { outputDir := text "FERRY_STORAGE_OUTPUT_DIR" c.storage.outputDir }
    rollback := { restoreDir := text "FERRY_ROLLBACK_RESTORE_DIR" c.rollback.restoreDir }
    notifier := c.notifier
    sources := c.sources
    logging := {
      localEnabled := localEnabled.getD c.logging.localEnabled
      localPath := text "FERRY_LOGGING_LOCAL_PATH" c.logging.localPath
      localRotation := text "FERRY_LOGGING_LOCAL_ROTATION" c.logging.localRotation } }

end Config
end BatchExport
