import RecordArchive.Time.Duration

/-!
# Errors

Everything that can go wrong between a record and its object, each cause with
the one text by which it is reported.
-/

namespace RecordArchive

/-- Why an object store refused a put.  Either kind is worth another attempt. -/
inductive StoreError
  | transient (reason : String)
  | client (reason : String)
  deriving DecidableEq, Repr

def StoreError.message : StoreError → String
  | transient reason => "the object store rejected the request: " ++ reason
  | client reason => "client or network failure while talking to the object store: " ++ reason

/-- Why a record did not get into a queue. -/
inductive QueueError
  | timeout (waited : Duration)
  | closed
  deriving DecidableEq, Repr

def QueueError.message : QueueError → String
  | timeout waited => "no space freed up within " ++ waited.text
  | closed => "the buffer is closed"

/-- The failures of the archive itself. -/
inductive ArchiveError
  | invalidTemplate (template reason : String)
  | configuration (reason : String)
  | encoding (codec reason : String)
  | write (location reason : String)
  | connectorTimeout (sink source : String) (waited : Duration)
  | connectorInactive (sink source : String)
  | cancelled (key : String)
  deriving DecidableEq, Repr

def ArchiveError.kind : ArchiveError → String
  | invalidTemplate _ _ => "InvalidPattern"
  | configuration _ => "Configuration"
  | encoding _ _ => "Encoding"
  | write _ _ => "Write"
  | connectorTimeout _ _ _ => "ConnectorTimeout"
  | connectorInactive _ _ => "ConnectorInactive"
  | cancelled _ => "Cancelled"

def ArchiveError.message : ArchiveError → String
  | invalidTemplate template reason =>
    "💀 invalid naming template '" ++ template ++ "': " ++ reason
  | configuration reason => "💀 invalid configuration: " ++ reason
  | encoding codec reason =>
    "💀 the " ++ codec ++ " codec could not encode a record: " ++ reason
  | write location reason =>
    "💀 local buffer write failed for '" ++ location ++ "': " ++ reason
  | connectorTimeout sink source waited =>
    "PipelineConnector [" ++ sink ++ "-" ++ source ++ "]: Timed out after " ++ waited.text ++
      " writing to pipeline [" ++ source ++ "]'s buffer"
  | connectorInactive sink source =>
    "PipelineConnector [" ++ sink ++ "-" ++ source ++ "]: Pipeline [" ++ source ++
      "] is not active, cannot proceed"
  | cancelled key => "🛑 upload of '" ++ key ++ "' was cancelled while waiting to retry"

end RecordArchive
