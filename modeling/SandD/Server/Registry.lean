import SandD.Protocol.Message

/-!
# Connections of daemons

`DaemonConnection` with its operations.  Channels and shared pointers are numbers: `TaskId` is a
`handle_websocket` task together with the channel of requests it made, `CallId` a call of the
Python API together with the channel on which it receives, `ConnRef` an `Arc<DaemonConnection>`.
The clock counts seconds.
-/

namespace SandD

abbrev TaskId := ℕ
abbrev CallId := ℕ
abbrev ConnRef := ℕ

/-- `FileTransfer`. -/
structure FileTransfer where
  path : String
  chunks : List (List UInt8)
  totalSize : ℕ
  receivedSize : ℕ
  deriving DecidableEq

/-- `DaemonConnection`. -/
structure DaemonConnection where
  id : String
  metadata : DaemonMetadata
  lastHeartbeat : ℕ
  connectedAt : ℕ
  requestTx : TaskId
  pendingRequests : StringMap CallId
  sessions : StringMap CallId
  fileTransfers : StringMap FileTransfer
  deriving DecidableEq

theorem StringMap.lookup_erase_eq_ite {V : Type} (m : StringMap V) (r r' : String) :
    (m.erase r).lookup r' = if r' = r then none else m.lookup r' := by
  split_ifs with h
  · subst h
    exact Finmap.lookup_erase _ _
  · exact Finmap.lookup_erase_ne h

namespace DaemonConnection

/-- `new`. -/
def new (id : String) (metadata : DaemonMetadata) (requestTx : TaskId) (time : ℕ) :
    DaemonConnection where
  id := id
  metadata := metadata
  lastHeartbeat := time
  connectedAt := time
  requestTx := requestTx
  pendingRequests := ∅
  sessions := ∅
  fileTransfers := ∅

variable (conn : DaemonConnection)

/-- `update_heartbeat`. -/
def updateHeartbeat (time : ℕ) : DaemonConnection := { conn with lastHeartbeat := time }

/-- `seconds_since_heartbeat`. -/
def secondsSinceHeartbeat (time : ℕ) : ℕ := time - conn.lastHeartbeat

/-- `register_request`. -/
def registerRequest (requestId : String) (tx : CallId) : DaemonConnection :=
  { conn with pendingRequests := conn.pendingRequests.insert requestId tx }

/-- `complete_request`: the sender it removes, if any, and what is left. -/
def completeRequest (requestId : String) : Option CallId × DaemonConnection :=
  (conn.pendingRequests.lookup requestId,
    { conn with pendingRequests := conn.pendingRequests.erase requestId })

/-- `is_busy`. -/
def isBusy : Bool := decide (conn.pendingRequests ≠ ∅)

/-- `register_session`. -/
def registerSession (sessionId : String) (tx : CallId) : DaemonConnection :=
  { conn with sessions := conn.sessions.insert sessionId tx }

/-- `send_session_output`: the channel the output goes to, if any. -/
def sendSessionOutput (sessionId : String) : Option CallId := conn.sessions.lookup sessionId

/-- `close_session`. -/
def closeSession (sessionId : String) : DaemonConnection :=
  { conn with sessions := conn.sessions.erase sessionId }

/-- `start_file_transfer`. -/
def startFileTransfer (transferId path : String) (totalSize : ℕ) : DaemonConnection :=
  { conn with fileTransfers := conn.fileTransfers.insert transferId ⟨path, [], totalSize, 0⟩ }

/-- `add_file_chunk`. -/
def addFileChunk (transferId : String) (data : List UInt8) : DaemonConnection :=
  match conn.fileTransfers.lookup transferId with
  | some t =>
    let t' :=
      { t with chunks := t.chunks ++ [data], receivedSize := t.receivedSize + data.length }
    { conn with fileTransfers := conn.fileTransfers.insert transferId t' }
  | none => conn

/-- `complete_file_transfer`. -/
def completeFileTransfer (transferId : String) : Option (List UInt8) × DaemonConnection :=
  ((conn.fileTransfers.lookup transferId).map fun t => t.chunks.flatten,
    { conn with fileTransfers := conn.fileTransfers.erase transferId })

/-- The connection whose last `Arc` is gone: its senders are dropped. -/
def dropped : DaemonConnection :=
  { conn with pendingRequests := ∅, sessions := ∅, fileTransfers := ∅ }

/-! ### What each operation leaves as it was -/

section

variable {conn} {r r' : String} {k : CallId} {time : ℕ}

@[simp] theorem new_pendingRequests {id md c} :
    (new id md c time).pendingRequests = ∅ := rfl

@[simp] theorem updateHeartbeat_pendingRequests :
    (conn.updateHeartbeat time).pendingRequests = conn.pendingRequests := rfl

@[simp] theorem registerSession_pendingRequests :
    (conn.registerSession r k).pendingRequests = conn.pendingRequests := rfl

@[simp] theorem closeSession_pendingRequests :
    (conn.closeSession r).pendingRequests = conn.pendingRequests := rfl

@[simp] theorem startFileTransfer_pendingRequests {path n} :
    (conn.startFileTransfer r path n).pendingRequests = conn.pendingRequests := rfl

@[simp] theorem addFileChunk_pendingRequests {data} :
    (conn.addFileChunk r data).pendingRequests = conn.pendingRequests := by
  unfold addFileChunk
  cases conn.fileTransfers.lookup r <;> rfl

theorem addFileChunk_id {data} : (conn.addFileChunk r data).id = conn.id := by
  unfold addFileChunk
  cases conn.fileTransfers.lookup r <;> rfl

theorem addFileChunk_requestTx {data} :
    (conn.addFileChunk r data).requestTx = conn.requestTx := by
  unfold addFileChunk
  cases conn.fileTransfers.lookup r <;> rfl

theorem addFileChunk_sessions {data} : (conn.addFileChunk r data).sessions = conn.sessions := by
  unfold addFileChunk
  cases conn.fileTransfers.lookup r <;> rfl

theorem registerSession_lookup {k' : CallId}
    (h : (conn.registerSession r k).sessions.lookup r' = some k') :
    (r' = r ∧ k' = k) ∨ conn.sessions.lookup r' = some k' := by
  unfold registerSession at h
  by_cases hr : r' = r
  · subst hr
    rw [Finmap.lookup_insert, Option.some_inj] at h
    exact .inl ⟨rfl, h.symm⟩
  · exact .inr (by rwa [Finmap.lookup_insert_of_ne _ hr] at h)

theorem closeSession_lookup (h : (conn.closeSession r).sessions.lookup r' = some k) :
    conn.sessions.lookup r' = some k := by
  unfold closeSession at h
  rw [StringMap.lookup_erase_eq_ite] at h
  split_ifs at h
  exact h

@[simp] theorem completeFileTransfer_pendingRequests :
    (conn.completeFileTransfer r).2.pendingRequests = conn.pendingRequests := rfl

@[simp] theorem dropped_pendingRequests : conn.dropped.pendingRequests = ∅ := rfl

@[simp] theorem dropped_sessions : conn.dropped.sessions = ∅ := rfl

@[simp] theorem new_sessions {id md c} : (new id md c time).sessions = ∅ := rfl

theorem registerRequest_lookup :
    (conn.registerRequest r k).pendingRequests.lookup r' =
      if r' = r then some k else conn.pendingRequests.lookup r' := by
  split_ifs with h
  · subst h
    exact Finmap.lookup_insert _
  · exact Finmap.lookup_insert_of_ne _ h

theorem isBusy_eq_true : conn.isBusy = true ↔ ∃ r, r ∈ conn.pendingRequests := by
  rw [isBusy, decide_eq_true_iff]
  constructor
  · intro h
    by_contra hr
    refine h (Finmap.ext_lookup fun r => ?_)
    rw [Finmap.lookup_empty, Finmap.lookup_eq_none]
    exact fun h' => hr ⟨r, h'⟩
  · rintro ⟨r, hr⟩ h
    rw [h] at hr
    exact Finmap.notMem_empty hr

end

end DaemonConnection

end SandD
