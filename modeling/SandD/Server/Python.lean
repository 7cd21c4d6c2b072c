import SandD.Server.Registry

/-!
# The calls of the Python API

The seven calls that wait for a response have one shape: they look the daemon up, register a
request, send a message and wait.  `RequestCall` has what they differ in, and `exec`,
`createSnapshot`, … are its values.  The conversion of results to Python objects is left out.
-/

namespace SandD

/-- The exceptions raised. -/
inductive PyError
  | valueError (message : String)
  | runtimeError (message : String)
  | timeoutError (message : String)
  deriving DecidableEq

/-- The values returned. -/
inductive PyValue
  | commandResult (stdout stderr : String) (exitCode : ℤ) (durationMs : ℕ)
  | snapshotId (id : String)
  | fileCount (n : ℕ)
  | snapshots (list : List SnapshotInfo)
  | snapshot (info : Option SnapshotInfo)
  | session (id : String)
  | bytes (data : List UInt8)
  | none
  deriving DecidableEq

/-- What a call returns or raises. -/
abbrev Outcome := Except PyError PyValue

/-- What the error of `send_message` says. -/
def channelClosed : String := "Daemon channel closed"

/-- A call that waits for a response. -/
structure RequestCall where
  /-- the message sent, for a request id -/
  message : String → Message
  /-- what an error of sending is wrapped in -/
  sending : String
  /-- the seconds given to `tokio::time::timeout` -/
  timeout : ℕ
  /-- the kinds of response it knows, and what it makes of them -/
  receive : Message → Option Outcome
  /-- the error when the channel was closed -/
  closed : String
  /-- the error when the time is over -/
  timedOut : String

namespace RequestCall

variable (call : RequestCall)

/-- What the call makes of a response. -/
def result (response : Message) : Outcome :=
  (call.receive response).getD (.error (.runtimeError "Unexpected response type"))

end RequestCall

/-- `exec`. -/
def execCall (command : String) (timeout : ℕ) (env : StringMap String) (cwd : Option String) :
    RequestCall where
  message r := .executeCommand r command timeout env cwd
  sending := "Failed to send command"
  timeout := timeout
  receive
    | .commandOutput _ stdout stderr exitCode durationMs =>
      some (.ok (.commandResult stdout stderr exitCode durationMs))
    | .commandError _ error => some (.error (.runtimeError s!"Command error: {error}"))
    | _ => none
  closed := "Command channel closed"
  timedOut := "Command execution timed out"

/-- `create_snapshot`. -/
def createSnapshotCall (workspace : String) (message : Option String)
    (tags : Option (List String)) : RequestCall where
  message r := .createSnapshot r workspace message tags
  sending := "Failed to send snapshot request"
  timeout := 300
  receive
    | .snapshotCreated _ snapshotId _ _ => some (.ok (.snapshotId snapshotId))
    | .snapshotError _ error => some (.error (.runtimeError s!"Snapshot error: {error}"))
    | _ => none
  closed := "Snapshot channel closed"
  timedOut := "Snapshot creation timed out"

/-- `restore_snapshot`. -/
def restoreSnapshotCall (snapshotId destination : String) : RequestCall where
  message r := .restoreSnapshot r snapshotId destination
  sending := "Failed to send restore request"
  timeout := 300
  receive
    | .snapshotRestored _ fileCount => some (.ok (.fileCount fileCount))
    | .snapshotError _ error => some (.error (.runtimeError s!"Restore error: {error}"))
    | _ => none
  closed := "Restore channel closed"
  timedOut := "Restore timed out"

/-- `list_snapshots`. -/
def listSnapshotsCall (tags : Option (List String)) : RequestCall where
  message r := .listSnapshots r tags
  sending := "Failed to send list request"
  timeout := 60
  receive
    | .snapshotList _ snapshots => some (.ok (.snapshots snapshots))
    | .snapshotError _ error => some (.error (.runtimeError s!"List error: {error}"))
    | _ => none
  closed := "List channel closed"
  timedOut := "List timed out"

/-- `find_snapshot_by_tag`. -/
def findSnapshotByTagCall (tag : String) : RequestCall where
  message r := .findSnapshotByTag r tag
  sending := "Failed to send find request"
  timeout := 60
  receive
    | .snapshotDetails _ snapshot => some (.ok (.snapshot snapshot))
    | .snapshotError _ error => some (.error (.runtimeError s!"Find error: {error}"))
    | _ => none
  closed := "Find channel closed"
  timedOut := "Find timed out"

/-- `get_snapshot`. -/
def getSnapshotCall (snapshotId : String) : RequestCall where
  message r := .getSnapshot r snapshotId
  sending := "Failed to send get request"
  timeout := 60
  receive
    | .snapshotDetails _ snapshot => some (.ok (.snapshot snapshot))
    | .snapshotError _ error => some (.error (.runtimeError s!"Get error: {error}"))
    | _ => none
  closed := "Get channel closed"
  timedOut := "Get timed out"

/-- `delete_snapshot`. -/
def deleteSnapshotCall (snapshotId : String) : RequestCall where
  message r := .deleteSnapshot r snapshotId
  sending := "Failed to send delete request"
  timeout := 60
  receive
    | .snapshotDeleted _ => some (.ok .none)
    | .snapshotError _ error => some (.error (.runtimeError s!"Delete error: {error}"))
    | _ => none
  closed := "Delete channel closed"
  timedOut := "Delete timed out"

/-- The calls that wait for a response, with their arguments. -/
inductive Ask
  | exec (command : String) (timeout : ℕ) (env : StringMap String) (cwd : Option String)
  | createSnapshot (workspace : String) (message : Option String) (tags : Option (List String))
  | restoreSnapshot (snapshotId destination : String)
  | listSnapshots (tags : Option (List String))
  | findSnapshotByTag (tag : String)
  | getSnapshot (snapshotId : String)
  | deleteSnapshot (snapshotId : String)
  deriving DecidableEq

/-- The call made. -/
def Ask.call : Ask → RequestCall
  | exec command timeout env cwd => execCall command timeout env cwd
  | createSnapshot workspace message tags => createSnapshotCall workspace message tags
  | restoreSnapshot snapshotId destination => restoreSnapshotCall snapshotId destination
  | listSnapshots tags => listSnapshotsCall tags
  | findSnapshotByTag tag => findSnapshotByTagCall tag
  | getSnapshot snapshotId => getSnapshotCall snapshotId
  | deleteSnapshot snapshotId => deleteSnapshotCall snapshotId

/-- A message that is sent without anything to wait for. -/
inductive Posting
  | uploadStart (path : String) (totalSize : ℕ)
  | uploadChunk (data : List UInt8) (offset : ℕ)
  | write (sessionId : String) (data : List UInt8)
  | resize (sessionId : String) (rows cols : ℕ)
  | close (sessionId : String)
  deriving DecidableEq

namespace Posting

/-- The message sent, for a request id. -/
def message (requestId : String) : Posting → Message
  | uploadStart path totalSize => .fileUploadStart requestId path totalSize none
  | uploadChunk data offset => .fileUploadChunk requestId data offset
  | write sessionId data => .sessionInput sessionId data
  | resize sessionId rows cols => .sessionResize sessionId rows cols
  | close sessionId => .sessionClose sessionId

/-- What an error of sending is wrapped in. -/
def sending : Posting → String
  | uploadStart .. => "Failed to start upload"
  | uploadChunk .. => "Failed to send chunk"
  | write .. => "Failed to write"
  | resize .. => "Failed to resize"
  | close .. => "Failed to close session"

end Posting

/-- The methods of `Server` and `Session` that reach a daemon: those that wait for a response,
`new_session`, `download_file`, and those that only send, `upload_file` and the methods of a
session, with the messages they send one after the other. -/
inductive Method
  | request (ask : Ask)
  | newSession (rows cols : ℕ) (term : String)
  | downloadFile (path : String)
  | post (ofSession : Bool) (messages : List Posting)
  deriving DecidableEq

/-- Whether the method waits for a response. -/
def Method.isRequest : Method → Bool
  | request _ => true
  | _ => false

/-- The error when the daemon is not registered. -/
def Method.notFound (daemonId : String) : Method → PyError
  | post true _ => .runtimeError "Daemon disconnected"
  | _ => .valueError s!"Daemon {daemonId} not found"

/-- The error when a message could not be sent. -/
def sendError (what : String) : PyError := .runtimeError s!"{what}: {channelClosed}"

end SandD
