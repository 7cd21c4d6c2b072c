import Mathlib.Data.Finmap

/-!
# The messages between server and daemon

`Message` has a constructor for each variant of the enumeration the two programs share, with its
fields.  Integers are natural numbers (`exit_code` an integer), hash maps are finite maps.
-/

namespace SandD

/-- A `HashMap` or `DashMap` with strings as keys. -/
abbrev StringMap (V : Type) := Finmap fun _ : String => V

/-- `SnapshotInfo`. -/
structure SnapshotInfo where
  id : String
  createdAt : ℕ
  message : String
  tags : List String
  fileCount : ℕ
  totalSize : ℕ
  deriving DecidableEq

/-- `DaemonMetadata`. -/
structure DaemonMetadata where
  hostname : String
  platform : String
  arch : String
  version : String
  labels : StringMap String
  deriving DecidableEq

/-- `Message`. -/
inductive Message
  | register (daemonId : String) (metadata : DaemonMetadata)
  | registerAck (success : Bool) (message : String)
  | heartbeat
  | heartbeatAck (success : Bool) (reason : String)
  | pong
  | executeCommand (requestId command : String) (timeoutSecs : ℕ) (env : StringMap String)
      (cwd : Option String)
  | commandOutput (requestId stdout stderr : String) (exitCode : ℤ) (durationMs : ℕ)
  | commandError (requestId error : String)
  | newSession (sessionId : String) (rows cols : ℕ) (term : String)
  | sessionStarted (sessionId : String) (success : Bool) (error : Option String)
  | sessionInput (sessionId : String) (data : List UInt8)
  | sessionOutput (sessionId : String) (data : List UInt8)
  | sessionResize (sessionId : String) (rows cols : ℕ)
  | sessionClose (sessionId : String)
  | sessionExit (sessionId : String) (exitCode : ℤ)
  | fileUploadStart (requestId path : String) (totalSize : ℕ) (mode : Option ℕ)
  | fileUploadChunk (requestId : String) (data : List UInt8) (offset : ℕ)
  | fileUploadComplete (requestId : String) (success : Bool) (error : Option String)
  | fileDownloadStart (requestId path : String)
  | fileDownloadChunk (requestId : String) (data : List UInt8) (offset : ℕ) (isLast : Bool)
  | fileDownloadError (requestId error : String)
  | createSnapshot (requestId workspace : String) (message : Option String)
      (tags : Option (List String))
  | snapshotCreated (requestId snapshotId : String) (fileCount totalSize : ℕ)
  | restoreSnapshot (requestId snapshotId destination : String)
  | snapshotRestored (requestId : String) (fileCount : ℕ)
  | listSnapshots (requestId : String) (tags : Option (List String))
  | snapshotList (requestId : String) (snapshots : List SnapshotInfo)
  | findSnapshotByTag (requestId tag : String)
  | getSnapshot (requestId snapshotId : String)
  | snapshotDetails (requestId : String) (snapshot : Option SnapshotInfo)
  | deleteSnapshot (requestId snapshotId : String)
  | snapshotDeleted (requestId : String)
  | snapshotError (requestId error : String)
  | error (message : String) (recoverable : Bool)
  deriving DecidableEq

namespace Message

/-- The request a message of the request/response pattern answers: the alternatives of the
response arm of `handle_daemon_message`. -/
def answers : Message → Option String
  | commandOutput requestId .. => some requestId
  | commandError requestId .. => some requestId
  | snapshotCreated requestId .. => some requestId
  | snapshotRestored requestId .. => some requestId
  | snapshotList requestId .. => some requestId
  | snapshotDetails requestId .. => some requestId
  | snapshotDeleted requestId => some requestId
  | snapshotError requestId .. => some requestId
  | _ => none

/-- The request id of a message that asks for a response. -/
def asks : Message → Option String
  | executeCommand requestId .. => some requestId
  | createSnapshot requestId .. => some requestId
  | restoreSnapshot requestId .. => some requestId
  | listSnapshots requestId .. => some requestId
  | findSnapshotByTag requestId .. => some requestId
  | getSnapshot requestId .. => some requestId
  | deleteSnapshot requestId .. => some requestId
  | _ => none

end Message

end SandD
