/-! Sample configurations, with and without explanations. -/
namespace BatchExport.SampleConfig

def ofLines (lines : List String) : String := String.join (lines.map (· ++ "\n"))

/-- What a configuration needs at least. -/
def minimal : String := ofLines [
  "# Ferry Configuration File",
  "",
  "[application]",
  "name = \"ferry\"",
  "log_level = \"info\"",
  "work_dir = \"/tmp\"",
  "",
  "[remote]",
  "base_url = \"http://localhost:9130\"",
  "tenant = \"$\x7bFERRY_REMOTE_TENANT\x7d\"",
  "token = \"$\x7bFERRY_REMOTE_TOKEN\x7d\"",
  "",
  "[publisher]",
  "kind = \"log\"",
  "",
  "[storage]",
  "output_dir = \"./output\"",
  "",
  "[sources.circulation-log]",
  "path = \"audit-data/circulation/logs\"",
  "page_size = 100",
  "",
  "[logging]",
  "local_enabled = false"]

/-- All settings, with examples. -/
def explained : String := ofLines [
  "# Ferry Configuration File",
  "#",
  "# This file contains all configuration options with examples and explanations.",
  "# Values of the form $\x7bVAR\x7d are substituted from the environment, and any",
  "# key can be overridden with FERRY_<SECTION>_<KEY>.",
  "",
  "# Application Settings",
  "[application]",
  "# Application name (also the temp directory under work_dir)",
  "name = \"ferry\"",
  "",
  "# Log level (trace, debug, info, warn, error)",
  "log_level = \"info\"",
  "",
  "# Root for job temp files: <work_dir>/<name>/<jobId>-<source>*",
  "work_dir = \"/tmp\"",
  "",
  "# Remote Services",
  "[remote]",
  "# Base URL of the upstream REST services",
  "base_url = \"http://localhost:9130\"",
  "",
  "# Tenant and token sent with every request (use environment variables)",
  "tenant = \"$\x7bFERRY_REMOTE_TENANT\x7d\"",
  "token = \"$\x7bFERRY_REMOTE_TOKEN\x7d\"",
  "",
  "# Request timeout in seconds",
  "timeout_seconds = 60",
  "",
  "[remote.retry]",
  "# Attempts per request for connection errors, timeouts and 5xx responses",
  "max_retries = 3",
  "initial_delay_ms = 1000",
  "max_delay_ms = 30000",
  "backoff_multiplier = 2.0",
  "",
  "# Reference Data Cache",
  "[cache]",
  "# Entries kept per reference kind",
  "default_capacity = 1000",
  "",
  "# Optional: expire entries after this many seconds",
  "# ttl_seconds = 3600",
  "",
  "# Per-kind capacities, keyed by cache name",
  "[cache.capacities]",
  "users = 5000",
  "servicePoints = 200",
  "",
  "# Job Status Publication",
  "[publisher]",
  "# \"log\" writes status records to the log, \"http\" POSTs them",
  "kind = \"log\"",
  "# endpoint = \"http://localhost:8080/topics\"",
  "topic = \"data-export.job.update\"",
  "",
  "# Output Storage",
  "[storage]",
  "output_dir = \"./output\"",
  "",
  "# Update Job Rollback",
  "[rollback]",
  "restore_dir = \"./restore\"",
  "",
  "# Completion Description",
  "# Steps whose write counts are listed in the job description",
  "[[notifier.described_steps]]",
  "step = \"chargeFeesFinesExportStep\"",
  "label = \"# of charges\"",
  "",
  "[[notifier.described_steps]]",
  "step = \"refundFeesFinesExportStep\"",
  "label = \"# of refunds\"",
  "",
  "# Sources",
  "# Offset paging: offset/limit query parameters with a fixed stride",
  "[sources.circulation-log]",
  "path = \"audit-data/circulation/logs\"",
  "pagination = \"offset\"",
  "page_size = 100",
  "records_field = \"logRecords\"",
  "# query = \"action==\\\"Checked out\\\"\"",
  "",
  "# Resolve reference ids into readable names",
  "[[sources.circulation-log.enrich]]",
  "field = \"servicePointId\"",
  "kind = \"service-point\"",
  "target = \"servicePointName\"",
  "",
  "# Cursor paging: the server returns the next upper bound",
  "[sources.authority-stats]",
  "path = \"authority-storage/authorities\"",
  "pagination = \"cursor\"",
  "page_size = 500",
  "range_start = \"2024-01-01T00:00:00Z\"",
  "range_end = \"2024-12-31T23:59:59Z\"",
  "records_field = \"authorities\"",
  "next_field = \"next\"",
  "",
  "# Logging",
  "[logging]",
  "# Enable local JSON file logging",
  "local_enabled = true",
  "",
  "# Local log file directory",
  "local_path = \"./logs\"",
  "",
  "# Log rotation (daily, hourly or never)",
  "local_rotation = \"daily\""]

end BatchExport.SampleConfig
