import RecordArchive.Settings.Decoder
import RecordArchive.Sink
import RecordArchive.Source

/-!
# The settings of an archive

Everything that can be set, with its defaults, and how it is read from a tree of
values.  What can be checked before the first record moves is checked by
`validate`.
-/

namespace RecordArchive

/-- Which object store receives the objects. -/
inductive StoreSettings
  | memory
  | directory (root : String)
  | s3 (region : String) (endpoint : Option String) (forcePathStyle : Bool)
  deriving DecidableEq, Repr

/-- How records get from the source to the sink. -/
structure RuntimeSettings where
  queueCapacity : Nat := 10
  batchSize : Nat := 100
  writeTimeoutMilliseconds : Option Nat := none
  ageCheckMilliseconds : Nat := 1000
  deriving DecidableEq, Repr

namespace RuntimeSettings

/-- The longest wait for room in a queue where none is set, in milliseconds. -/
def defaultWriteTimeout : Nat := 2147483647

def writeTimeout (r : RuntimeSettings) : Duration :=
  .ofMilliseconds (r.writeTimeoutMilliseconds.getD defaultWriteTimeout)

end RuntimeSettings

structure ArchiveSettings where
  source : SourceSettings
  sink : SinkSettings
  store : StoreSettings := .memory
  runtime : RuntimeSettings := {}

namespace Settings

def batchLimits? (dialect : Dialect) (v : Json) : Option BatchLimits := do
  let [records, bytes] ← fields dialect [["max_batch_size_docs"], ["max_batch_size_bytes"]] v
    | none
  let default : BatchLimits := {}
  return {
    records := ← withDefault default.records word64? records
    bytes := ← withDefault default.bytes word64? bytes }

def source? (dialect : Dialect) (v : Json) : Option SourceSettings := do
  match ← choice dialect v with
  | ("File", some content) =>
    let [path, limits] ← fields dialect [["file_name"], ["common_config"]] content | none
    return .file (← required text? path) (← withDefault {} (batchLimits? dialect) limits)
  | ("InMemory", some content) =>
    let [lines, limits] ← fields dialect [["lines"], ["common_config"]] content | none
    return .listed (← withDefault [] (listOf text?) lines)
      (← withDefault {} (batchLimits? dialect) limits)
  | _ => none

def keys? (dialect : Dialect) (v : Json) : Option Naming.KeySettings := do
  let [path, name, unique] ←
    fields dialect [["path_prefix"], ["name_pattern"], ["unique_suffix"]] v | none
  let default : Naming.KeySettings := {}
  return {
    pathPrefix := ← nullable text? path
    namePattern := ← withDefault default.namePattern text? name
    uniqueSuffix := ← withDefault default.uniqueSuffix boolean? unique }

def limits? (dialect : Dialect) (v : Json) : Option LimitSettings := do
  let [count, size, seconds] ←
    fields dialect [["event_count"], ["maximum_size"], ["event_collect_secs", "event_collect"]] v
    | none
  let seconds ← required word64? seconds
  let default : LimitSettings := { collectSeconds := seconds }
  return {
    eventCount := ← withDefault default.eventCount word64? count
    maximumSize := ← withDefault default.maximumSize size? size
    collectSeconds := seconds }

def bufferKind? (dialect : Dialect) (v : Json) : Option BufferKind := do
  let (name, content) ← choice dialect v
  if !isPlain dialect content then none
  else match name with
    | "in_memory" => return .memory
    | "local_file" => return .staged
    | _ => none

def policy? (dialect : Dialect) (v : Json) : Option EncodePolicy := do
  let (name, content) ← choice dialect v
  if !isPlain dialect content then none
  else match name with
    | "abort" => return .abort
    | "skip" => return .skip
    | _ => none

def codec? (dialect : Dialect) (v : Json) : Option Codec := do
  match ← choice dialect v with
  | ("ndjson", content) => if isPlain dialect content then return .ndjson else none
  | ("raw", some content) =>
    if dialect = .document ∧ !isTable content then none
    else
      let [field] ← fields dialect [["field"]] content | none
      return .raw (← withDefault messageField text? field)
  | _ => none

def sink? (dialect : Dialect) (v : Json) : Option SinkSettings := do
  let [bucket, keys, kind, staging, limits, uploads, connections, delay, jitter, codec, policy] ←
    fields dialect [["bucket"], ["object_key"], ["buffer_type"], ["staging_dir"], ["threshold"],
      ["max_upload_retries"], ["max_connection_retries"], ["upload_retry_delay_ms"],
      ["upload_retry_jitter"], ["codec"], ["on_encode_error"]] v | none
  let bucket ← required text? bucket
  let limits ← required (limits? dialect) limits
  let default : SinkSettings := { bucket := bucket, limits := limits }
  return {
    bucket := bucket
    keys := ← withDefault default.keys (keys? dialect) keys
    kind := ← withDefault default.kind (bufferKind? dialect) kind
    stagingDirectory := ← nullable text? staging
    limits := limits
    uploadAttempts := ← withDefault default.uploadAttempts word32? uploads
    connectionAttempts := ← withDefault default.connectionAttempts word32? connections
    delayMilliseconds := ← withDefault default.delayMilliseconds word64? delay
    jitter := ← withDefault default.jitter number? jitter
    codec := ← withDefault default.codec (codec? dialect) codec
    policy := ← withDefault default.policy (policy? dialect) policy }

def store? (dialect : Dialect) (v : Json) : Option StoreSettings := do
  match ← choice dialect v with
  | ("InMemory", content) => if isPlain dialect content then return .memory else none
  | ("File", some content) =>
    let [root] ← fields dialect [["root_dir"]] content | none
    return .directory (← required text? root)
  | ("S3", some content) =>
    let [region, endpoint, style] ←
      fields dialect [["region"], ["endpoint_url"], ["force_path_style"]] content | none
    return .s3 (← required text? region) (← nullable text? endpoint)
      (← withDefault false boolean? style)
  | _ => none

def runtime? (dialect : Dialect) (v : Json) : Option RuntimeSettings := do
  let [capacity, batch, timeout, interval] ←
    fields dialect [["queue_capacity", "channel_size"], ["batch_size"], ["write_timeout_ms"],
      ["age_check_interval_ms"]] v | none
  let default : RuntimeSettings := {}
  return {
    queueCapacity := ← withDefault default.queueCapacity word64? capacity
    batchSize := ← withDefault default.batchSize word64? batch
    writeTimeoutMilliseconds := ← nullable word64? timeout
    ageCheckMilliseconds := ← withDefault default.ageCheckMilliseconds word64? interval }

def archive? (dialect : Dialect) (v : Json) : Option ArchiveSettings := do
  let [source, sink, store, runtime] ←
    fields dialect [["source_config"], ["sink_config"], ["store_config"],
      ["runtime", "supervisor_config"]] v | none
  return {
    source := ← required (source? dialect) source
    sink := ← required (sink? dialect) sink
    store := ← withDefault .memory (store? dialect) store
    runtime := ← withDefault {} (runtime? dialect) runtime }

end Settings

namespace ArchiveSettings

/-- Refuses settings with which no sink can be set up, a jitter beyond the whole
delay, and a queue without room. -/
def validate (settings : ArchiveSettings) : Except ArchiveError Unit := do
  let sink := settings.sink
  sink.checkBucket
  let _ ← Naming.KeyNamer.ofSettings sink.keys (some sink.codec.name)
  let _ ← Limits.ofSettings sink.limits
  if !sink.jitter.inUnitInterval then
    .error (.configuration ("upload_retry_jitter must be between 0.0 and 1.0, got " ++
      String.ofList (sink.jitter.render Layout.message)))
  else if settings.runtime.queueCapacity = 0 then
    .error (.configuration "runtime queue_capacity must be greater than zero")
  else return ()

end ArchiveSettings

end RecordArchive
