import SandD.Lib.Transition
import SandD.Server.Python

/-!
# The server

The registry, the `handle_websocket` tasks, the calls of the Python API and the reaper as one
transition system.  An event is one access to what the tasks share (a map, a channel, the
socket), so that a list of events is an interleaving of the tasks as fine as the program allows;
only `complete_request`, which takes a sender out of a map and sends on it, is one event.

* `Task`, `Call`, `Server`: what the tasks and calls hold in their local variables, and what is
  shared; `Server.arcs` has the owners of each `Arc<DaemonConnection>`.
* `Server.register`, `remove`, `cleanupStale`, … are the operations of `DaemonRegistry`.
* `Server.handleDaemonMessage` and `Server.routed` are the two halves of
  `handle_daemon_message`: up to the look-up of the connection, and what is done with it.
* `Server.step` is one event.  Identifiers drawn from `Uuid::new_v4` are fresh.

What arrives on a connection, the order of everything, and whether a write to the socket
succeeds is up to the environment.  The channels of requests are unbounded, and messages can
always be serialised.
-/

namespace SandD

/-- What `ws_rx.next()` yields besides the end of the stream: a text frame, with the message
when it can be parsed, a frame of another kind, a Close frame, or an error. -/
inductive Frame
  | text (message : Option Message)
  | other
  | close
  | error
  deriving DecidableEq

/-- How an inbound stream has ended. -/
inductive Ending
  | close
  | error
  | none
  deriving DecidableEq

/-- Where a `handle_websocket` task is. -/
inductive Phase
  /-- not there yet -/
  | absent
  /-- waiting in `select!`; whether the branch of the inbound stream is enabled this round -/
  | select (inbound : Bool)
  /-- in `handle_daemon_message`, before the look-up -/
  | handling (message : Message)
  /-- in `handle_daemon_message`, with the connection that was looked up -/
  | routing (message : Message) (conn : ConnRef)
  /-- about to write an acknowledgement; an error is only logged -/
  | replying (message : Message)
  /-- about to write a request -/
  | sending (message : Message)
  /-- out of the loop, about to clean up -/
  | leaving
  /-- about to return -/
  | returning
  /-- returned -/
  | exited
  deriving DecidableEq

/-- A `handle_websocket` task with its ends of the socket and of the channel of requests. -/
structure Task where
  phase : Phase
  /-- frames on their way in -/
  inbound : List Frame
  /-- whether the stream yields `None` after them -/
  ended : Bool
  /-- how the loop has seen the stream end -/
  sawEnd : Option Ending
  /-- `request_rx` -/
  requests : List Message
  /-- whether the function still owns its `request_tx` -/
  ownSender : Bool
  /-- messages on their way out -/
  outbound : List Message
  daemonId : Option String
  deriving DecidableEq

/-- A oneshot channel, seen by its receiver. -/
inductive Oneshot
  /-- the sender is there and has sent nothing -/
  | empty
  | value (message : Message)
  /-- the sender is gone, or has sent to nobody -/
  | closed
  deriving DecidableEq

/-- Where a call is. -/
inductive CallPhase
  | idle
  /-- `registry.get` gave a connection -/
  | found (conn : ConnRef)
  /-- its request, session or transfer is registered -/
  | opened (conn : ConnRef)
  /-- its message is sent, at the given time -/
  | waiting (conn : ConnRef) (since : ℕ)
  | returned (outcome : Outcome)
  deriving DecidableEq

/-- A call of the Python API. -/
structure Call where
  method : Method
  phase : CallPhase
  /-- the request, session or transfer id it drew -/
  requestId : Option String
  /-- the connection it registered its request, session or transfer on -/
  registeredOn : Option ConnRef
  rx : Oneshot
  /-- what its session has put out -/
  output : List (List UInt8)

/-- An owner of an `Arc<DaemonConnection>`. -/
inductive Owner
  | registry
  | task (c : TaskId)
  | call (k : CallId)
  deriving DecidableEq

/-- The state of the server. -/
structure Server where
  time : ℕ
  /-- `DaemonRegistry::connections` -/
  registry : StringMap ConnRef
  conn : ConnRef → DaemonConnection
  arcs : ConnRef → Finset Owner
  /-- the number of connections made so far -/
  made : ℕ
  task : TaskId → Task
  call : CallId → Call
  /-- the identifiers drawn so far -/
  drawn : List String

/-- `PyDaemonInfo`. -/
structure PyDaemonInfo where
  id : String
  version : String
  labels : StringMap String
  isBusy : Bool
  deriving DecidableEq

/-- `DaemonInfo`. -/
structure DaemonInfo where
  hostname : String
  platform : String
  arch : String
  version : String
  labels : StringMap String
  isBusy : Bool
  connectedSecs : ℕ
  secondsSinceHeartbeat : ℕ
  deriving DecidableEq

/-- `RegistryStats`, the daemons in some order. -/
structure RegistryStats where
  totalDaemons : ℕ
  byPlatform : String → ℕ
  oldestConnectionSecs : ℕ
  daemons : Multiset (String × DaemonInfo)

/-- The connection the call holds. -/
def CallPhase.conn : CallPhase → Option ConnRef
  | found o => some o
  | opened o => some o
  | waiting o _ => some o
  | _ => none

namespace Call

/-- The call as its receiver finds it when the senders of `conn` are dropped. -/
def senderDropped (conn : DaemonConnection) (k : CallId) (call : Call) : Call :=
  match call.requestId with
  | some r => if conn.pendingRequests.lookup r = some k then { call with rx := .closed } else call
  | none => call

/-- The call after a response was sent to it: a call that has returned does not receive. -/
def receive (m : Message) (call : Call) : Call :=
  match call.phase with
  | .returned _ => { call with rx := .closed }
  | _ => { call with rx := .value m }

/-- The call with its request, session or transfer registered. -/
def register (o : ConnRef) (call : Call) : Call :=
  { call with phase := .opened o, registeredOn := some o }

end Call

namespace Server

/-- A server that was just started. -/
def initial : Server where
  time := 0
  registry := ∅
  conn _ := .new "" ⟨"", "", "", "", ∅⟩ 0 0
  arcs _ := ∅
  made := 0
  task _ := ⟨.absent, [], false, none, [], false, [], none⟩
  call _ := ⟨.post false [], .idle, none, none, .empty, []⟩
  drawn := []

variable (s : Server)

def setTask (c : TaskId) (t : Task) : Server := { s with task := Function.update s.task c t }

def setPhase (c : TaskId) (phase : Phase) : Server :=
  s.setTask c { s.task c with phase := phase }

def setConn (o : ConnRef) (conn : DaemonConnection) : Server :=
  { s with conn := Function.update s.conn o conn }

def setCall (k : CallId) (call : Call) : Server :=
  { s with call := Function.update s.call k call }

def setCallPhase (k : CallId) (phase : CallPhase) : Server :=
  s.setCall k { s.call k with phase := phase }

/-! ### Shared pointers -/

/-- `Arc::clone`. -/
def hold (h : Owner) (o : ConnRef) : Server :=
  { s with arcs := Function.update s.arcs o (insert h (s.arcs o)) }

/-- Drop an `Arc`.  With the last one the connection and its senders are dropped. -/
def release (h : Owner) (o : ConnRef) : Server :=
  if (s.arcs o).erase h = ∅ then
    { s with
      arcs := Function.update s.arcs o ∅
      conn := Function.update s.conn o (s.conn o).dropped
      call := fun k => (s.call k).senderDropped (s.conn o) k }
  else { s with arcs := Function.update s.arcs o ((s.arcs o).erase h) }

/-! ### The registry -/

/-- `DaemonRegistry::get`. -/
def get (id : String) : Option ConnRef := s.registry.lookup id

/-- A new connection, with the registry as its owner. -/
def insertNew (id : String) (metadata : DaemonMetadata) (c : TaskId) : Server :=
  { s.setConn s.made (.new id metadata c s.time) with
    made := s.made + 1
    arcs := Function.update s.arcs s.made {.registry}
    registry := s.registry.insert id s.made }

/-- `DaemonConnection::new` and `DaemonRegistry::register`. -/
def register (id : String) (metadata : DaemonMetadata) (c : TaskId) : Server :=
  match s.get id with
  | some old => (s.insertNew id metadata c).release .registry old
  | none => s.insertNew id metadata c

/-- `DaemonRegistry::remove`. -/
def remove (id : String) : Server :=
  match s.get id with
  | some o => { s with registry := s.registry.erase id }.release .registry o
  | none => s

/-- `DaemonRegistry::count`. -/
def count : ℕ := s.registry.keys.card

/-- What `cleanup_stale` does with the entry of `id`, when it removes it. -/
def cleanupStale (timeoutSecs : ℕ) (id : String) : Option Server :=
  match s.get id with
  | some o =>
    if timeoutSecs < (s.conn o).secondsSinceHeartbeat s.time then some (s.remove id) else none
  | none => none

/-! ### What is shown of the registry -/

/-- The filter of `list_all`: the daemon has all the labels. -/
def hasLabels (labels : Option (StringMap String)) (conn : DaemonConnection) : Bool :=
  match labels with
  | some filter =>
    decide (∀ key ∈ filter.keys, conn.metadata.labels.lookup key = filter.lookup key)
  | none => true

/-- `DaemonRegistry::list_all`, in some order. -/
def listAll (labels : Option (StringMap String)) : Multiset String :=
  (s.registry.entries.filter fun entry => hasLabels labels (s.conn entry.2)).map (·.1)

/-- The `PyDaemonInfo` of a connection. -/
def pyInfo (conn : DaemonConnection) : PyDaemonInfo :=
  ⟨conn.id, conn.metadata.version, conn.metadata.labels, conn.isBusy⟩

/-- `get_daemon`. -/
def getDaemon (daemonId : String) : Option PyDaemonInfo :=
  (s.get daemonId).map fun o => pyInfo (s.conn o)

/-- `list_daemons`, in some order. -/
def listDaemons (labels : Option (StringMap String)) : Multiset PyDaemonInfo :=
  (s.listAll labels).filterMap s.getDaemon

/-- The `DaemonInfo` of a connection. -/
def daemonInfo (conn : DaemonConnection) : DaemonInfo where
  hostname := conn.metadata.hostname
  platform := conn.metadata.platform
  arch := conn.metadata.arch
  version := conn.metadata.version
  labels := conn.metadata.labels
  isBusy := conn.isBusy
  connectedSecs := s.time - conn.connectedAt
  secondsSinceHeartbeat := conn.secondsSinceHeartbeat s.time

/-- `DaemonRegistry::get_stats`. -/
def getStats : RegistryStats where
  totalDaemons := s.count
  byPlatform platform :=
    (s.registry.entries.filter fun entry => (s.conn entry.2).metadata.platform = platform).card
  oldestConnectionSecs :=
    (s.registry.entries.map fun entry => s.time - (s.conn entry.2).connectedAt).fold max 0
  daemons :=
    s.registry.entries.map fun entry => ((s.conn entry.2).id, s.daemonInfo (s.conn entry.2))

/-! ### Operations of a connection that reach further -/

/-- `send_message`: it fails when the receiver is gone. -/
def sendMessage (o : ConnRef) (m : Message) : Option Server :=
  let c := (s.conn o).requestTx
  let t := s.task c
  if t.phase = .exited then none
  else some (s.setTask c { t with requests := t.requests ++ [m] })

/-- `complete_request`. -/
def completeRequest (o : ConnRef) (requestId : String) (response : Message) : Server :=
  match (s.conn o).completeRequest requestId with
  | (some k, conn) => (s.setConn o conn).setCall k ((s.call k).receive response)
  | (none, _) => s

/-- `send_session_output`. -/
def sendSessionOutput (o : ConnRef) (sessionId : String) (data : List UInt8) : Server :=
  match (s.conn o).sendSessionOutput sessionId with
  | some k => s.setCall k { s.call k with output := (s.call k).output ++ [data] }
  | none => s

/-! ### `handle_websocket` -/

/-- The acknowledgement of a heartbeat. -/
def heartbeatAck (registered : Bool) : Message :=
  .heartbeatAck registered (if registered then "" else "daemon is not registered")

/-- Look the daemon of the connection up, for a message that needs its connection. -/
def lookUp (c : TaskId) (m : Message) : Server :=
  match (s.task c).daemonId with
  | none => s.setPhase c (.select true)
  | some id =>
    match s.get id with
    | some o => (s.hold (.task c) o).setPhase c (.routing m o)
    | none =>
      if m = .heartbeat then s.setPhase c (.replying (heartbeatAck false))
      else s.setPhase c (.select true)

/-- `handle_daemon_message`, up to the look-up. -/
def handleDaemonMessage (c : TaskId) (m : Message) : Server :=
  match m with
  | .register id metadata =>
    if id = "" then s.setPhase c (.replying (.registerAck false "no daemon id"))
    else
      (s.register id metadata c).setTask c
        { s.task c with
          daemonId := some id
          phase := .replying (.registerAck true "Successfully registered") }
  | .heartbeat => s.lookUp c m
  | .commandOutput .. => s.lookUp c m
  | .commandError .. => s.lookUp c m
  | .snapshotCreated .. => s.lookUp c m
  | .snapshotRestored .. => s.lookUp c m
  | .snapshotList .. => s.lookUp c m
  | .snapshotDetails .. => s.lookUp c m
  | .snapshotDeleted .. => s.lookUp c m
  | .snapshotError .. => s.lookUp c m
  | .sessionOutput .. => s.lookUp c m
  | .sessionExit .. => s.lookUp c m
  | .fileDownloadChunk .. => s.lookUp c m
  | _ => s.setPhase c (.select true)

/-- What `handle_daemon_message` does with the connection it looked up. -/
def onConnection (m : Message) (o : ConnRef) : Server :=
  match m with
  | .heartbeat => s.setConn o ((s.conn o).updateHeartbeat s.time)
  | .sessionOutput sessionId data => s.sendSessionOutput o sessionId data
  | .sessionExit sessionId _ => s.setConn o ((s.conn o).closeSession sessionId)
  | .fileDownloadChunk requestId data _ _ => s.setConn o ((s.conn o).addFileChunk requestId data)
  | m =>
    match m.answers with
    | some requestId => s.completeRequest o requestId m
    | none => s

/-- `handle_daemon_message`, after the look-up. -/
def routed (c : TaskId) (m : Message) (o : ConnRef) : Server :=
  ((s.onConnection m o).release (.task c) o).setPhase c
    (if m = .heartbeat then .replying (heartbeatAck true) else .select true)

/-- The branch of the inbound stream in `select!`. -/
def next (c : TaskId) : Option Server :=
  let t := s.task c
  if t.phase = .select true then
    match t.inbound with
    | .text (some m) :: rest =>
      some (s.setTask c { t with inbound := rest, phase := .handling m })
    | .text none :: rest => some (s.setTask c { t with inbound := rest })
    | .other :: rest => some (s.setTask c { t with inbound := rest })
    | .close :: rest =>
      some (s.setTask c { t with inbound := rest, sawEnd := some .close, phase := .leaving })
    | .error :: rest =>
      some (s.setTask c { t with inbound := rest, sawEnd := some .error, phase := .leaving })
    | [] =>
      -- `None` does not match `Some(ws_msg)`: the branch is disabled for this round
      if t.ended then some (s.setTask c { t with sawEnd := some .none, phase := .select false })
      else none
  else none

/-- The branch of the requests in `select!`. -/
def recv (c : TaskId) : Option Server :=
  let t := s.task c
  match t.phase, t.requests with
  | .select _, m :: rest => some (s.setTask c { t with requests := rest, phase := .sending m })
  | _, _ => none

/-- The `else` of `select!`, which runs when both branches are disabled.  That of the requests
never is while the function owns a sender, whoever else has one. -/
def orElse (c : TaskId) : Option Server :=
  let t := s.task c
  if t.phase = .select false ∧ t.requests = [] ∧ t.ownSender = false then
    some (s.setPhase c .leaving)
  else none

/-- The end of a write to the socket. -/
def write (c : TaskId) (ok : Bool) : Option Server :=
  let t := s.task c
  let sent (m : Message) := if ok then t.outbound ++ [m] else t.outbound
  match t.phase with
  | .replying m => some (s.setTask c { t with outbound := sent m, phase := .select true })
  | .sending m =>
    some (s.setTask c
      { t with outbound := sent m, phase := if ok then .select true else .leaving })
  | _ => none

/-- The clean-up after the loop. -/
def cleanUp (c : TaskId) : Server :=
  match (s.task c).daemonId with
  | some id => (s.remove id).setPhase c .returning
  | none => s.setPhase c .returning

/-- The return of `handle_websocket`, which drops `request_tx` and `request_rx`. -/
def finish (c : TaskId) : Server :=
  s.setTask c { s.task c with phase := .exited, requests := [], ownSender := false }

/-! ### Calls -/

/-- The first step of a call: the look-up, and drawing an identifier. -/
def beginCall (k : CallId) (daemonId : String) (method : Method) (id : String) : Option Server :=
  match (s.call k).phase with
  | .idle =>
    match s.get daemonId with
    | some o =>
      if id ∈ s.drawn then none
      else
        some (({ s with drawn := id :: s.drawn }.hold (.call k) o).setCall k
          { s.call k with method := method, phase := .found o, requestId := some id })
    | none =>
      some (s.setCall k
        { s.call k with method := method, phase := .returned (.error (method.notFound daemonId)) })
  | _ => none

/-- The call returns, and drops its `Arc`. -/
def returns (k : CallId) (o : ConnRef) (outcome : Outcome) : Server :=
  (s.setCallPhase k (.returned outcome)).release (.call k) o

/-- A call sends its message, and goes on to `phase`. -/
def callSend (k : CallId) (o : ConnRef) (m : Message) (e : PyError) (phase : CallPhase) : Server :=
  match s.sendMessage o m with
  | some s' =>
    match phase with
    | .returned outcome => s'.returns k o outcome
    | phase => s'.setCallPhase k phase
  | none => s.returns k o (.error e)

/-- The next step of a call that does not wait. -/
def proceed (k : CallId) : Option Server :=
  let call := s.call k
  match call.phase, call.requestId, call.method with
  | .found o, some r, .request _ =>
    some ((s.setConn o ((s.conn o).registerRequest r k)).setCall k (call.register o))
  | .found o, some r, .newSession .. =>
    some ((s.setConn o ((s.conn o).registerSession r k)).setCall k (call.register o))
  | .found o, some r, .downloadFile path =>
    some ((s.setConn o ((s.conn o).startFileTransfer r path 0)).setCall k (call.register o))
  | .found o, some _, .post _ [] => some (s.returns k o (.ok .none))
  | .found o, some r, .post b (posting :: rest) =>
    some ((s.setCall k { call with method := .post b rest }).callSend k o (posting.message r)
      (sendError posting.sending) (.found o))
  | .opened o, some r, .request ask =>
    some (s.callSend k o (ask.call.message r) (sendError ask.call.sending) (.waiting o s.time))
  | .opened o, some r, .newSession rows cols term =>
    some (s.callSend k o (.newSession r rows cols term) (sendError "Failed to start session")
      (.returned (.ok (.session r))))
  | .opened o, some r, .downloadFile path =>
    some (s.callSend k o (.fileDownloadStart r path) (sendError "Failed to start download")
      (.waiting o s.time))
  | _, _, _ => none

/-- A call that waits goes on: its response is there, its channel was closed, or the five seconds
of a download are over. -/
def resume (k : CallId) : Option Server :=
  let call := s.call k
  match call.phase, call.method, call.rx with
  | .waiting o _, .request ask, .value m => some (s.returns k o (ask.call.result m))
  | .waiting o _, .request ask, .closed =>
    some (s.returns k o (.error (.runtimeError ask.call.closed)))
  | .waiting o since, .downloadFile _, _ =>
    match call.requestId with
    | some r =>
      if since + 5 ≤ s.time then
        let (data, conn) := (s.conn o).completeFileTransfer r
        some ((s.setConn o conn).returns k o
          (match data with
          | some data => .ok (.bytes data)
          | none => .error (.runtimeError "File transfer did not complete")))
      else none
    | none => none
  | _, _, _ => none

/-- The time of a call that waits for a response is over. -/
def timeOut (k : CallId) : Option Server :=
  let call := s.call k
  match call.phase, call.method, call.rx with
  | .waiting o since, .request ask, .empty =>
    if since + ask.call.timeout ≤ s.time then
      some (s.returns k o (.error (.timeoutError ask.call.timedOut)))
    else none
  | _, _, _ => none

end Server

/-- What can happen. -/
inductive Event
  /-- time passes -/
  | tick (secs : ℕ)
  /-- a WebSocket connection is made -/
  | accept (c : TaskId)
  /-- a frame arrives -/
  | arrive (c : TaskId) (frame : Frame)
  /-- the inbound stream ends -/
  | endStream (c : TaskId)
  /-- a message reaches the daemon -/
  | deliver (c : TaskId)
  /-- `select!` takes what the inbound stream yields -/
  | next (c : TaskId)
  /-- `handle_daemon_message`, up to the look-up -/
  | handle (c : TaskId)
  /-- `handle_daemon_message`, after the look-up -/
  | route (c : TaskId)
  /-- `select!` takes a request -/
  | recv (c : TaskId)
  /-- the `else` of `select!` -/
  | orElse (c : TaskId)
  /-- a write to the socket ends -/
  | write (c : TaskId) (ok : Bool)
  /-- the clean-up after the loop -/
  | cleanUp (c : TaskId)
  /-- `handle_websocket` returns -/
  | finish (c : TaskId)
  /-- the reaper removes an entry -/
  | reap (id : String)
  /-- a call starts; the identifier is drawn if the daemon is there -/
  | begin (k : CallId) (daemonId : String) (method : Method) (id : String)
  /-- the next step of a call that does not wait -/
  | proceed (k : CallId)
  /-- a call that waits goes on -/
  | resume (k : CallId)
  /-- the time of a call is over -/
  | timeOut (k : CallId)
  deriving DecidableEq

namespace Server

variable (s : Server)

/-- The seconds after which `heartbeat_monitor` takes a daemon for dead. -/
def staleAfter : ℕ := 30

/-- One event. -/
def step : Event → Option Server
  | .tick secs => some { s with time := s.time + secs }
  | .accept c =>
    if (s.task c).phase = .absent then
      some (s.setTask c { s.task c with phase := .select true, ownSender := true })
    else none
  | .arrive c frame =>
    if (s.task c).ended then none
    else some (s.setTask c { s.task c with inbound := (s.task c).inbound ++ [frame] })
  | .endStream c => some (s.setTask c { s.task c with ended := true })
  | .deliver c =>
    match (s.task c).outbound with
    | _ :: rest => some (s.setTask c { s.task c with outbound := rest })
    | [] => none
  | .next c => s.next c
  | .handle c =>
    match (s.task c).phase with
    | .handling m => some (s.handleDaemonMessage c m)
    | _ => none
  | .route c =>
    match (s.task c).phase with
    | .routing m o => some (s.routed c m o)
    | _ => none
  | .recv c => s.recv c
  | .orElse c => s.orElse c
  | .write c ok => s.write c ok
  | .cleanUp c => if (s.task c).phase = .leaving then some (s.cleanUp c) else none
  | .finish c => if (s.task c).phase = .returning then some (s.finish c) else none
  | .reap id => s.cleanupStale staleAfter id
  | .begin k daemonId method id => s.beginCall k daemonId method id
  | .proceed k => s.proceed k
  | .resume k => s.resume k
  | .timeOut k => s.timeOut k

end Server

end SandD
