import BatchExport.Config.Settings
import BatchExport.Text.Blank

/-! What makes a configuration unusable. The first problem in section order is the one reported. -/
namespace BatchExport

inductive SourceProblem where
  | blankPath
  | pageSize (n : Nat)
  | zeroChunkSize
  | blankRecordsField
  | missingRange
  | blankRule
  deriving DecidableEq, Repr

inductive ConfigProblem where
  | blankName
  | separatorInName
  | logLevel (level : String)
  | emptyBaseUrl
  | baseUrlScheme
  | zeroTimeout
  | noAttempts
  | zeroCapacity
  | unknownKind (name : String)
  | blankTopic
  | missingEndpoint
  | endpointScheme
  | blankDescribedStep
  | source (name : String) (problem : SourceProblem)
  | rotation (strategy : String)
  | blankLogPath
  deriving DecidableEq, Repr

def logLevels : List String := ["trace", "debug", "info", "warn", "error"]

def rotations : List String := ["daily", "hourly", "never"]

def SourceProblem.message : SourceProblem → String
  | blankPath => "path cannot be empty"
  | pageSize n => s!"page_size must be between 1 and 10000, got {n}"
  | zeroChunkSize => "chunk_size must be greater than 0"
  | blankRecordsField => "records_field cannot be empty"
  | missingRange => "cursor pagination requires range_start and range_end"
  | blankRule => "enrich rules need a field and a target"

def ConfigProblem.message : ConfigProblem → String
  | blankName => "application.name cannot be empty"
  | separatorInName => "application.name cannot contain path separators"
  | logLevel level => s!"Invalid log_level '{level}'. Must be one of: " ++ Text.joinWith ", " logLevels
  | emptyBaseUrl => "remote.base_url cannot be empty"
  | baseUrlScheme => "remote.base_url must start with http:// or https://"
  | zeroTimeout => "remote.timeout_seconds must be greater than 0"
  | noAttempts => "remote.retry.max_retries must be at least 1"
  | zeroCapacity => "cache.default_capacity must be greater than 0"
  | unknownKind name => "cache.capacities: " ++ ReferenceKind.unknownMessage name
  | blankTopic => "publisher.topic cannot be empty"
  | missingEndpoint => "publisher.endpoint is required when publisher.kind = 'http'"
  | endpointScheme => "publisher.endpoint must start with http:// or https://"
  | blankDescribedStep => "notifier.described_steps entries need a step and a label"
  | source name problem => s!"sources.{name}: " ++ problem.message
  | rotation strategy =>
    s!"Invalid logging.local_rotation '{strategy}'. Must be one of: " ++ Text.joinWith ", " rotations
  | blankLogPath => "logging.local_path cannot be empty when local logging is enabled"

/-- The first problem whose condition holds. -/
def firstProblem (checks : List (Bool × π)) : Option π := (checks.find? (·.1)).map (·.2)

def hasWebScheme (url : String) : Bool :=
  Text.startsWith "http://".toList url.toList || Text.startsWith "https://".toList url.toList

namespace ApplicationSettings

def problem? (a : ApplicationSettings) : Option ConfigProblem :=
  firstProblem [
    (Text.isBlank a.name, .blankName),
    (a.name.toList.any fun c => c == '/' || c == '\\', .separatorInName),
    (!logLevels.contains a.logLevel, .logLevel a.logLevel)]

end ApplicationSettings

namespace RemoteSettings

def problem? (r : RemoteSettings) : Option ConfigProblem :=
  firstProblem [
    (r.baseUrl.isEmpty, .emptyBaseUrl),
    (!hasWebScheme r.baseUrl, .baseUrlScheme),
    (r.timeoutSeconds == 0, .zeroTimeout),
    (r.retry.attempts == 0, .noAttempts)]

end RemoteSettings

namespace CacheSettings

def problem? (c : CacheSettings) : Option ConfigProblem :=
  firstProblem <|
    (c.defaultCapacity == 0, .zeroCapacity) ::
      c.capacities.map fun (name, _) => ((ReferenceKind.parse? name).isNone, .unknownKind name)

end CacheSettings

namespace PublisherSettings

/-- Only the web publisher needs an endpoint. -/
def problem? (p : PublisherSettings) : Option ConfigProblem :=
  let web := p.kind == .http
  firstProblem [
    (Text.isBlank p.topic, .blankTopic),
    (web && (p.endpoint.getD "").isEmpty, .missingEndpoint),
    (web && !hasWebScheme (p.endpoint.getD ""), .endpointScheme)]

end PublisherSettings

namespace NotifierSettings

def problem? (n : NotifierSettings) : Option ConfigProblem :=
  firstProblem <| n.describedSteps.map fun d =>
    (Text.isBlank d.step || Text.isBlank d.label, .blankDescribedStep)

end NotifierSettings

namespace SourceSettings

def problem? (s : SourceSettings) : Option SourceProblem :=
  firstProblem <| [
    (Text.isBlank s.path, .blankPath),
    (s.pageSize == 0 || s.pageSize > 10000, .pageSize s.pageSize),
    (s.chunkSize == 0, .zeroChunkSize),
    (Text.isBlank s.recordsField, .blankRecordsField),
    (s.paging == .cursor && (s.rangeStart.isNone || s.rangeEnd.isNone), .missingRange)] ++
    s.enrich.map fun rule => (Text.isBlank rule.field || Text.isBlank rule.target, .blankRule)

end SourceSettings

namespace LoggingSettings

def problem? (l : LoggingSettings) : Option ConfigProblem :=
  firstProblem [
    (!rotations.contains l.localRotation, .rotation l.localRotation),
    (l.localEnabled && Text.isBlank l.localPath, .blankLogPath)]

end LoggingSettings

namespace Config

/-- The first problem of a configuration; one without problems is valid. -/
def problem? (c : Config) : Option ConfigProblem :=
  c.application.problem? <|> c.remote.problem? <|> c.cache.problem? <|> c.publisher.problem? <|>
    c.notifier.problem? <|>
    (c.sources.findSome? fun (name, s) => s.problem?.map (ConfigProblem.source name)) <|>
    c.logging.problem?

def IsValid (c : Config) : Prop := c.problem? = none

instance (c : Config) : Decidable c.IsValid := inferInstanceAs (Decidable (c.problem? = none))

end Config
end BatchExport
