import SandD.Server.Loop

/-!
# A daemon and its connections

`serve` of the daemon as far as registration goes, composed with the server: the daemon registers
on every connection it makes, sends heartbeats once that is acknowledged, and registers again on
the same connection when a heartbeat is rejected.  It serves one connection at a time; those it
has given up may still hold messages that the server has not seen.

* `System.step`: one event of the daemon, or of the server and everybody else.
* `Round`: a heartbeat, its acknowledgement, and the registration that follows a rejection.
* `round_heals_iff`: when a round leaves the daemon reachable on the connection.
-/

namespace SandD

/-- Where `serve` is, and on which connection. -/
inductive Session
  /-- not connected -/
  | none
  /-- waiting for the acknowledgement of its registration -/
  | registering (c : TaskId)
  /-- in its loop -/
  | serving (c : TaskId)
  deriving DecidableEq

/-- A daemon. -/
structure Daemon where
  id : String
  metadata : DaemonMetadata
  session : Session
  /-- the connections it has made -/
  dialed : List TaskId

namespace Session

/-- The connection, if any. -/
def conn : Session → Option TaskId
  | none => .none
  | registering c => some c
  | serving c => some c

end Session

namespace Daemon

variable (d : Daemon)

/-- The registration. -/
def register : Message := .register d.id d.metadata

/-- What `serve` does with a message: the message it sends itself, if any.  What `handle_message`
sends is an event of its own. -/
def receive (m : Message) : Daemon × Option Message :=
  match d.session, m with
  | .registering _, .registerAck false _ => ({ d with session := .none }, none)
  | .registering c, _ => ({ d with session := .serving c }, none)
  | .serving _, .heartbeatAck false _ => (d, some d.register)
  | _, _ => (d, none)

end Daemon

/-- The server and a daemon. -/
structure System where
  server : Server
  daemon : Daemon

/-- What can happen in the system. -/
inductive SystemEvent
  /-- the server takes a step, or something happens on a connection that is not the daemon's, or
  is no longer served -/
  | server (e : Event)
  /-- the daemon connects, and registers -/
  | dial (c : TaskId)
  /-- it takes the next message -/
  | read
  /-- it sends a heartbeat -/
  | beat
  /-- it sends what it has to answer, or a session's output -/
  | emit (m : Message)
  /-- `serve` returns; on a shutdown it sends a Close frame -/
  | hangUp (shutdown : Bool)
  deriving DecidableEq

/-- What the network and others may do: a connection that the daemon serves is theirs neither to
read nor to write, on one that it has given up an error or the end may arrive, and no other daemon
has its id. -/
def Daemon.leaves (d : Daemon) : Event → Bool
  | .arrive c frame =>
    if c ∈ d.dialed then decide (d.session.conn ≠ some c ∧ frame = .error)
    else
      match frame with
      | .text (some (.register id _)) => decide (id ≠ d.id)
      | _ => true
  | .endStream c => decide (d.session.conn ≠ some c)
  | .deliver c => decide (d.session.conn ≠ some c)
  | _ => true

namespace System

variable (y : System)

/-- A server and a daemon that were just started. -/
def initial (id : String) (metadata : DaemonMetadata) : System :=
  ⟨.initial, ⟨id, metadata, .none, []⟩⟩

/-- A message of the daemon arrives. -/
def send (c : TaskId) (m : Message) : Option System :=
  (y.server.step (.arrive c (.text (some m)))).map fun s => { y with server := s }

/-- One event. -/
def step : SystemEvent → Option System
  | .server e =>
    if y.daemon.leaves e then (y.server.step e).map fun s => { y with server := s } else none
  | .dial c =>
    if y.daemon.session = .none ∧ c ∉ y.daemon.dialed ∧ (y.server.task c).phase = .absent ∧
        (y.server.task c).inbound = [] then
      { y with daemon := { y.daemon with
        session := .registering c, dialed := c :: y.daemon.dialed } }.send c y.daemon.register
    else none
  | .read =>
    match y.daemon.session.conn with
    | some c =>
      match (y.server.task c).outbound with
      | m :: _ =>
        (y.server.step (.deliver c)).bind fun s =>
          match y.daemon.receive m with
          | (d, some m') => System.send ⟨s, d⟩ c m'
          | (d, none) => some ⟨s, d⟩
      | [] => none
    | none => none
  | .beat =>
    match y.daemon.session with
    | .serving c => y.send c .heartbeat
    | _ => none
  | .emit m =>
    match y.daemon.session, m with
    | .serving _, .heartbeat => none
    | .serving _, .register .. => none
    | .serving c, m => y.send c m
    | _, _ => none
  | .hangUp shutdown =>
    match y.daemon.session.conn with
    | some c =>
      let y' := { y with daemon := { y.daemon with session := .none } }
      if shutdown then
        (y.server.step (.arrive c .close)).map fun s => { y' with server := s }
      else some y'
    | none => none

/-! ### Steps of the system as steps of the server -/

variable {y} {y' y'' : System} {e : SystemEvent} {c : TaskId} {o : ConnRef} {id : String}

/-- The entry of an id in the registry, unlike what it points to, is that of another server. -/
structure SameEntry (s s' : Server) (id : String) : Prop where
  get : s'.get id = s.get id
  requestTx : ∀ o, s.get id = some o → (s'.conn o).requestTx = (s.conn o).requestTx

/-- Whether an event of the server is one for the id: a registration, a clean-up after a connection
that has registered under it, or the reaper's. -/
def Concerns (s : Server) (id : String) : Event → Prop
  | .handle c => ∃ md, (s.task c).phase = .handling (.register id md)
  | .cleanUp c => (s.task c).daemonId = some id
  | .reap id' => id' = id
  | _ => False

/-- Not an event for the id of the daemon, and the connection stays. -/
def Quiet (y : System) : SystemEvent → Prop
  | .server e => ¬ Concerns y.server y.daemon.id e
  | .hangUp _ => False
  | _ => True

/-- Not a step of the task of the connection either. -/
def Elsewhere (c : TaskId) (y : System) (e : SystemEvent) : Prop :=
  Quiet y e ∧ ∀ e', e = .server e' → e'.actor ≠ some c

/-- Some events that `P` allows lead from one state to another. -/
def Through (P : System → SystemEvent → Prop) (y y' : System) : Prop :=
  ∃ es, run step y es = some y' ∧ Along step P y es

/-- The server processes the heartbeat it has in hand on the connection, and writes the
acknowledgement. -/
inductive Answered (c : TaskId) (y : System) : Bool → System → Prop
  | registered {y₁ y₂ y₃ y₄ y' : System} (h₁ : y.step (.server (.handle c)) = some y₁)
      (h₂ : Through (Elsewhere c) y₁ y₂) (h₃ : y₂.step (.server (.route c)) = some y₃)
      (h₄ : Through (Elsewhere c) y₃ y₄) (h₅ : y₄.step (.server (.write c true)) = some y') :
      Answered c y true y'
  | unregistered {y₁ y₂ y' : System} (h₁ : y.step (.server (.handle c)) = some y₁)
      (h₂ : Through (Elsewhere c) y₁ y₂) (h₃ : y₂.step (.server (.write c true)) = some y') :
      Answered c y false y'

/-- The next message the daemon takes from the connection. -/
def Takes (c : TaskId) (m : Message) (y : System) : Prop :=
  y.daemon.session = .serving c ∧ ∃ rest, (y.server.task c).outbound = m :: rest

/-- The server processes a heartbeat, the daemon its acknowledgement, and the server the Register
the daemon then sends, if any, with no other event for the id. -/
inductive Round (c : TaskId) (y : System) : System → Prop
  | acked {y₁ y₂ y' : System} (h₁ : Answered c y true y₁) (h₂ : Through Quiet y₁ y₂)
      (h₃ : Takes c (Server.heartbeatAck true) y₂) (h₄ : y₂.step .read = some y') : Round c y y'
  | renewed {y₁ y₂ y₃ y₄ y' : System} {md : DaemonMetadata} (h₁ : Answered c y false y₁)
      (h₂ : Through Quiet y₁ y₂) (h₃ : Takes c (Server.heartbeatAck false) y₂)
      (h₄ : y₂.step .read = some y₃) (h₅ : Through Quiet y₃ y₄)
      (h₆ : (y₄.server.task c).phase = .handling (.register y.daemon.id md))
      (h₇ : y₄.step (.server (.handle c)) = some y') : Round c y y'

/-! ### What leaves the entry as it is -/

namespace SameEntry

variable {s s' s'' : Server}

theorem refl (s : Server) (id : String) : SameEntry s s id := ⟨rfl, fun _ _ => rfl⟩

theorem trans (h : SameEntry s s' id) (h' : SameEntry s' s'' id) : SameEntry s s'' id where
  get := h'.get.trans h.get
  requestTx o ho := (h'.requestTx o (h.get.trans ho)).trans (h.requestTx o ho)

theorem of_step (hs : s.Linked) {e : Event} (h : s.step e = some s') (hq : ¬ Concerns s id e) :
    SameEntry s s' id := by
  refine ⟨?_, fun o ho =>
    (Server.conn_same h (hs.lt_made (hs.entries id o ho).2.2)).requestTx⟩
  cases Server.entry_step h with
  | same hreg _ =>
    unfold Server.get
    rw [hreg]
  | @registered c₁ id₁ md _ hp hne hs' =>
    have hid : id ≠ id₁ := fun hid => hq ⟨md, hid ▸ hp⟩
    subst hs'
    have hget := Server.register_get (s := s) (c := c₁) id₁ md id
    rw [if_neg hid] at hget
    rw [Server.handleDaemonMessage_register hne]
    exact hget
  | @removed _ id₁ _ hwho hget _ =>
    rw [hget, if_neg]
    rintro rfl
    rcases hwho with rfl | ⟨c₁, rfl, -, hid⟩
    · exact hq rfl
    · exact hq hid

end SameEntry

/-- The daemon's own events are arrivals and deliveries. -/
theorem daemon_step (h : y.step e = some y') (he : ∀ e', e ≠ .server e') :
    y'.daemon.id = y.daemon.id ∧ ∃ es, run Server.step y.server es = some y'.server ∧
      ∀ e' ∈ es, (∃ c f, e' = .arrive c f) ∨ ∃ c, e' = .deliver c := by
  have hsend : ∀ {y₁ : System} {c m}, y₁.send c m = some y' →
      y'.daemon = y₁.daemon ∧ run Server.step y₁.server [.arrive c (.text (some m))] =
        some y'.server := by
    intro y₁ c m h
    obtain ⟨s, hs, rfl⟩ := Option.map_eq_some_iff.1 h
    exact ⟨rfl, run_singleton.trans hs⟩
  have harrive : ∀ {c m}, ∀ e' ∈ [Event.arrive c (.text (some m))],
      (∃ c f, e' = .arrive c f) ∨ ∃ c, e' = .deliver c :=
    fun e' he' => .inl ⟨_, _, List.mem_singleton.1 he'⟩
  cases e with
  | server e => exact absurd rfl (he e)
  | dial c =>
    unfold System.step at h
    dsimp only at h
    split_ifs at h
    obtain ⟨hd, hrun⟩ := hsend h
    exact ⟨by rw [hd], _, hrun, harrive⟩
  | read =>
    unfold System.step at h
    dsimp only at h
    split at h
    next c hc =>
      split at h
      next m rest _ =>
        obtain ⟨s, hs, h⟩ := Option.bind_eq_some_iff.1 h
        have hid : (y.daemon.receive m).1.id = y.daemon.id := by
          unfold Daemon.receive
          split <;> rfl
        split at h
        next d m' hr =>
          obtain ⟨hd, hrun⟩ := hsend h
          rw [hr] at hid
          refine ⟨by rw [hd]; exact hid, .deliver c :: _,
            run_cons_eq_some.2 ⟨s, hs, hrun⟩, ?_⟩
          rintro e' (_ | ⟨_, he'⟩)
          · exact .inr ⟨c, rfl⟩
          · exact harrive e' he'
        next d hr =>
          obtain rfl := Option.some_inj.1 h
          rw [hr] at hid
          refine ⟨hid, [.deliver c], run_singleton.trans hs, ?_⟩
          exact fun e' he' => .inr ⟨c, List.mem_singleton.1 he'⟩
      next => cases h
    next => cases h
  | beat =>
    unfold System.step at h
    dsimp only at h
    split at h
    · obtain ⟨hd, hrun⟩ := hsend h
      exact ⟨by rw [hd], _, hrun, harrive⟩
    · cases h
  | emit m =>
    unfold System.step at h
    dsimp only at h
    split at h
    · cases h
    · cases h
    · obtain ⟨hd, hrun⟩ := hsend h
      exact ⟨by rw [hd], _, hrun, harrive⟩
    · cases h
  | hangUp shutdown =>
    unfold System.step at h
    dsimp only at h
    split at h
    next c hc =>
      split_ifs at h
      · obtain ⟨s, hs, rfl⟩ := Option.map_eq_some_iff.1 h
        exact ⟨rfl, _, run_singleton.trans hs,
          fun e' he' => .inl ⟨_, _, List.mem_singleton.1 he'⟩⟩
      · obtain rfl := Option.some_inj.1 h
        exact ⟨rfl, [], rfl, nofun⟩
    next => cases h

theorem server_step {e : Event} (h : y.step (.server e) = some y') :
    y'.daemon = y.daemon ∧ y.server.step e = some y'.server := by
  unfold System.step at h
  dsimp only at h
  split_ifs at h
  obtain ⟨s, hs, rfl⟩ := Option.map_eq_some_iff.1 h
  exact ⟨rfl, hs⟩

/-- What the steps of the server keep, the steps of the system keep. -/
theorem step_invariant {I : Server → Prop} (hI : ∀ s e s', I s → s.step e = some s' → I s')
    (hs : I y.server) (h : y.step e = some y') : I y'.server := by
  by_cases he : ∃ e', e = .server e'
  · obtain ⟨e', rfl⟩ := he
    exact hI _ _ _ hs (server_step h).2
  · obtain ⟨-, es, hrun, -⟩ := daemon_step h fun e' he' => he ⟨e', he'⟩
    exact run_invariant hI hrun hs

theorem linked_of_reach {md : DaemonMetadata} (hr : Reach step (initial id md) y) :
    y.server.Linked :=
  hr.invariant (I := fun y => y.server.Linked) .initial
    fun _ _ _ hs h => step_invariant (fun _ _ _ hs h => hs.step h) hs h

theorem daemonId_of_reach {md : DaemonMetadata} (hr : Reach step (initial id md) y) (c : TaskId) :
    (y.server.task c).daemonId ≠ some "" :=
  hr.invariant (I := fun y => (y.server.task c).daemonId ≠ some "") nofun fun _ _ _ hs h =>
    step_invariant (I := fun s => (s.task c).daemonId ≠ some "")
      (fun _ _ _ hs h => Server.daemonId_step h hs) hs h

/-- What two states of the system have in common when no event for the id of the daemon has
happened between them. -/
structure Calm (y y' : System) : Prop where
  linked : y'.server.Linked
  id : y'.daemon.id = y.daemon.id
  entry : SameEntry y.server y'.server y.daemon.id

theorem Calm.trans (h : Calm y y') (h' : Calm y' y'') : Calm y y'' :=
  ⟨h'.linked, h'.id.trans h.id, h.entry.trans (h.id ▸ h'.entry)⟩

/-- An event of the server that is not one for the id. -/
theorem calm_server (hs : y.server.Linked) {e : Event} (h : y.step (.server e) = some y')
    (hq : ¬ Concerns y.server y.daemon.id e) : Calm y y' := by
  obtain ⟨hd, h⟩ := server_step h
  exact ⟨hs.step h, by rw [hd], .of_step hs h hq⟩

/-- An event of the daemon. -/
theorem calm_daemon (hs : y.server.Linked) (h : y.step e = some y') (he : ∀ e', e ≠ .server e') :
    Calm y y' := by
  obtain ⟨hid, es, hrun, hes⟩ := daemon_step h he
  have hinv := run_invariant_along
    (I := fun s => s.Linked ∧ SameEntry y.server s y.daemon.id)
    (P := fun _ e => (∃ c f, e = .arrive c f) ∨ ∃ c, e = .deliver c)
    (fun s e s' ⟨hs, hsame⟩ he h => ⟨hs.step h, hsame.trans (.of_step hs h ?_)⟩)
    hrun (.of_forall fun e' he' _ => hes e' he') ⟨hs, .refl _ _⟩
  · exact ⟨hinv.1, hid, hinv.2⟩
  · rcases he with ⟨c, f, rfl⟩ | ⟨c, rfl⟩ <;> exact id

theorem calm_quiet (hs : y.server.Linked) (h : y.step e = some y') (hq : Quiet y e) :
    Calm y y' := by
  by_cases he : ∃ e', e = .server e'
  · obtain ⟨e', rfl⟩ := he
    exact calm_server hs h hq
  · exact calm_daemon hs h fun e' he' => he ⟨e', he'⟩

theorem calm_through {P : System → SystemEvent → Prop} (hP : ∀ y e, P y e → Quiet y e)
    (hs : y.server.Linked) (h : Through P y y') : Calm y y' := by
  obtain ⟨es, hrun, hq⟩ := h
  refine run_invariant_along (I := fun y' => Calm y y') (P := P) ?_ hrun hq
    ⟨hs, rfl, .refl _ _⟩
  exact fun y₁ e y₂ hc hp h => hc.trans (calm_quiet hc.linked h (hP y₁ e hp))

/-- Elsewhere nothing moves the task of the connection. -/
theorem phase_elsewhere (h : Through (Elsewhere c) y y') :
    (y'.server.task c).phase = (y.server.task c).phase := by
  obtain ⟨es, hrun, hq⟩ := h
  refine run_invariant_along
    (I := fun y' => (y'.server.task c).phase = (y.server.task c).phase) ?_ hrun hq rfl
  intro y₁ e y₂ hphase hp h
  rw [← hphase]
  by_cases he : ∃ e', e = .server e'
  · obtain ⟨e', rfl⟩ := he
    exact (Server.task_kept (server_step h).2 (hp.2 e' rfl)).kept.phase
  · obtain ⟨-, es, hrun, hes⟩ := daemon_step h fun e' he' => he ⟨e', he'⟩
    refine run_invariant_along (I := fun s => (s.task c).phase = (y₁.server.task c).phase)
      (P := fun _ e => (∃ c f, e = .arrive c f) ∨ ∃ c, e = .deliver c) ?_ hrun
      (.of_forall fun e' he' _ => hes e' he') rfl
    intro s e s' hphase he h
    rw [← hphase]
    refine (Server.task_kept h ?_).kept.phase
    rcases he with ⟨c, f, rfl⟩ | ⟨c, rfl⟩ <;> nofun

/-! ### A round -/

/-- The look-up for a heartbeat. -/
theorem calm_handle (hs : y.server.Linked) (hp : (y.server.task c).phase = .handling .heartbeat)
    (hid : (y.server.task c).daemonId = some y.daemon.id)
    (h : y.step (.server (.handle c)) = some y') :
    Calm y y' ∧ (y'.server.task c).phase =
      match y.server.get y.daemon.id with
      | some o => .routing .heartbeat o
      | none => .replying (Server.heartbeatAck false) := by
  constructor
  · refine calm_server hs h ?_
    rintro ⟨md, hp'⟩
    cases hp.symm.trans hp'
  · have hstep := (server_step h).2
    rw [Server.step, hp] at hstep
    rw [← Option.some_inj.1 hstep]
    exact Server.lookUp_heartbeat hid

/-- The acknowledgement tells whether the id has an entry, whichever connection it is of. -/
theorem answered_calm (hs : y.server.Linked) (hp : (y.server.task c).phase = .handling .heartbeat)
    (hid : (y.server.task c).daemonId = some y.daemon.id) {b : Bool} (h : Answered c y b y') :
    Calm y y' ∧ (y.server.get y.daemon.id).isSome = b := by
  have helse : ∀ y e, Elsewhere c y e → Quiet y e := fun _ _ h => h.1
  cases h with
  | registered h₁ h₂ h₃ h₄ h₅ =>
    obtain ⟨hc₁, hphase⟩ := calm_handle hs hp hid h₁
    have hc₂ := hc₁.trans (calm_through helse hc₁.linked h₂)
    have hc₃ := hc₂.trans (calm_server hc₂.linked h₃ id)
    have hc₄ := hc₃.trans (calm_through helse hc₃.linked h₄)
    refine ⟨hc₄.trans (calm_server hc₄.linked h₅ id), ?_⟩
    have hroute := (server_step h₃).2
    rw [← phase_elsewhere h₂] at hphase
    cases hget : y.server.get y.daemon.id with
    | some o => rfl
    | none =>
      rw [hget] at hphase
      rw [Server.step, hphase] at hroute
      cases hroute
  | unregistered h₁ h₂ h₃ =>
    obtain ⟨hc₁, hphase⟩ := calm_handle hs hp hid h₁
    have hc₂ := hc₁.trans (calm_through helse hc₁.linked h₂)
    refine ⟨hc₂.trans (calm_server hc₂.linked h₃ id), ?_⟩
    have hwrite := (server_step h₃).2
    rw [← phase_elsewhere h₂] at hphase
    cases hget : y.server.get y.daemon.id with
    | none => rfl
    | some o =>
      rw [hget] at hphase
      change Server.write _ c true = _ at hwrite
      unfold Server.write at hwrite
      dsimp only at hwrite
      rw [hphase] at hwrite
      cases hwrite

/-- The entry of the daemon's id routes requests to the connection. -/
def Routes (c : TaskId) (y : System) : Prop :=
  ∃ o, y.server.get y.daemon.id = some o ∧ (y.server.conn o).requestTx = c

/-- **A heartbeat round leaves the entry routing to the connection, if and only if the entry, when
the server looks it up for the heartbeat, is absent or routes to the connection already.** -/
theorem round_heals_iff {md : DaemonMetadata} (hr : Reach step (initial id md) y)
    (hp : (y.server.task c).phase = .handling .heartbeat)
    (hid : (y.server.task c).daemonId = some y.daemon.id) (h : Round c y y') :
    y'.Routes c ↔ (∀ o, y.server.get y.daemon.id = some o → (y.server.conn o).requestTx = c) := by
  have hs := linked_of_reach hr
  cases h with
  | acked h₁ h₂ h₃ h₄ =>
    obtain ⟨hc₁, hsome⟩ := answered_calm hs hp hid h₁
    have hc₂ := hc₁.trans (calm_through (fun _ _ h => h) hc₁.linked h₂)
    have hc := hc₂.trans (calm_daemon hc₂.linked h₄ nofun)
    obtain ⟨o, ho⟩ := Option.isSome_iff_exists.1 hsome
    constructor
    · rintro ⟨o', ho', hconn⟩ o₁ ho₁
      rw [hc.id, hc.entry.get, ho₁] at ho'
      obtain rfl := Option.some_inj.1 ho'
      exact (hc.entry.requestTx o₁ ho₁).symm.trans hconn
    · intro hroute
      exact ⟨o, by rw [hc.id, hc.entry.get, ho], (hc.entry.requestTx o ho).trans (hroute o ho)⟩
  | @renewed y₁ y₂ y₃ y₄ _ md h₁ h₂ h₃ h₄ h₅ h₆ h₇ =>
    obtain ⟨hc₁, hnone⟩ := answered_calm hs hp hid h₁
    have hc₂ := hc₁.trans (calm_through (fun _ _ h => h) hc₁.linked h₂)
    have hc₃ := hc₂.trans (calm_daemon hc₂.linked h₄ nofun)
    have hc₄ := hc₃.trans (calm_through (fun _ _ h => h) hc₃.linked h₅)
    have hget : y.server.get y.daemon.id = none := by
      rwa [Option.isSome_eq_false_iff, Option.isNone_iff_eq_none] at hnone
    refine ⟨fun _ o ho => (nomatch hget.symm.trans ho), fun _ => ?_⟩
    obtain ⟨hd, hstep⟩ := server_step h₇
    have hne : y.daemon.id ≠ "" := fun h => daemonId_of_reach hr c (h ▸ hid)
    have hnew := Server.register_new (s := y₄.server) (c := c) y.daemon.id md
    have hget := Server.register_get (s := y₄.server) (c := c) y.daemon.id md y.daemon.id
    rw [if_pos rfl] at hget
    have hs' := Server.handle_eq h₆ hstep
    rw [Server.handleDaemonMessage_register hne] at hs'
    refine ⟨y₄.server.made, ?_, ?_⟩
    · rw [hd, hc₄.id, hs']
      exact hget
    · rw [hs']
      exact hnew.requestTx

/-- The daemon has lost its first connection and has registered on a second one; the server sees the
registration on the first after that, and then a heartbeat on the second. -/
def sampleDelayed : List SystemEvent :=
  [.dial 0, .hangUp false, .dial 1, .server (.accept 1), .server (.next 1), .server (.handle 1),
    .server (.write 1 true), .read, .server (.accept 0), .server (.next 0), .server (.handle 0),
    .server (.write 0 true), .beat, .server (.next 1)]

def sampleHeartbeat : System :=
  (run step (initial "d" ⟨"h", "linux", "x86_64", "0.1.0", ∅⟩) sampleDelayed).getD
    (initial "d" ⟨"h", "linux", "x86_64", "0.1.0", ∅⟩)

/-- What follows. -/
def sampleAfter (es : List SystemEvent) : System :=
  (run step sampleHeartbeat es).getD sampleHeartbeat

theorem sampleHeartbeat_reach :
    Reach step (initial "d" ⟨"h", "linux", "x86_64", "0.1.0", ∅⟩) sampleHeartbeat :=
  .of_isSome (by decide +kernel)

theorem sampleHeartbeat_phase :
    (sampleHeartbeat.server.task 1).phase = .handling .heartbeat ∧
      (sampleHeartbeat.server.task 1).daemonId = some sampleHeartbeat.daemon.id ∧
      sampleHeartbeat.daemon.session = .serving 1 := by
  decide +kernel

theorem sampleRound : Round 1 sampleHeartbeat
    (sampleAfter [.server (.handle 1), .server (.route 1), .server (.write 1 true), .read]) := by
  have hstep : ∀ es e, (run step sampleHeartbeat (es ++ [e])).isSome = true →
      (sampleAfter es).step e = some (sampleAfter (es ++ [e])) := by
    intro es e h
    obtain ⟨y, hy⟩ := Option.isSome_iff_exists.1 h
    obtain ⟨y₁, h₁, h₂⟩ := run_append_eq_some.1 hy
    rw [run_singleton] at h₂
    rw [sampleAfter, sampleAfter, h₁, hy]
    exact h₂
  have hthrough : ∀ (P : System → SystemEvent → Prop) y, Through P y y :=
    fun _ _ => ⟨[], rfl, trivial⟩
  refine .acked
    (.registered (hstep [] _ ?_) (hthrough ..) (hstep [.server (.handle 1)] _ ?_) (hthrough ..)
      (hstep [.server (.handle 1), .server (.route 1)] _ ?_))
    (hthrough ..) ⟨?_, [], ?_⟩
    (hstep [.server (.handle 1), .server (.route 1), .server (.write 1 true)] _ ?_)
  all_goals decide +kernel

/-- The theorem at a round that heals nothing. -/
theorem round_heals_iff_sample : ¬ Routes 1
    (sampleAfter [.server (.handle 1), .server (.route 1), .server (.write 1 true), .read]) := by
  intro h
  have hget : sampleHeartbeat.server.get sampleHeartbeat.daemon.id = some 1 := by decide +kernel
  have hroutes := (round_heals_iff sampleHeartbeat_reach sampleHeartbeat_phase.1
    sampleHeartbeat_phase.2.1 sampleRound).1 h 1 hget
  have hne : (sampleHeartbeat.server.conn 1).requestTx = 0 := by decide +kernel
  cases hne.symm.trans hroutes

/-- The daemon serves a connection it has registered on, its heartbeat is acknowledged, and the
entry routes to another connection before and after. -/
theorem round_without_healing : ∃ id md y y' c, Reach step (initial id md) y ∧
    y.daemon.session = .serving c ∧ (y.server.task c).daemonId = some y.daemon.id ∧
    (y.server.task c).phase = .handling .heartbeat ∧ Round c y y' ∧ ¬ y'.Routes c := by
  refine ⟨_, _, sampleHeartbeat, _, 1, sampleHeartbeat_reach, sampleHeartbeat_phase.2.2,
    sampleHeartbeat_phase.2.1, sampleHeartbeat_phase.1, sampleRound, ?_⟩
  rintro ⟨o, ho, hroutes⟩
  have hget : (sampleAfter [.server (.handle 1), .server (.route 1), .server (.write 1 true),
      .read]).server.get "d" = some 1 := by decide +kernel
  obtain rfl := Option.some_inj.1 (hget.symm.trans ho)
  have hne : ((sampleAfter [.server (.handle 1), .server (.route 1), .server (.write 1 true),
      .read]).server.conn 1).requestTx = 0 := by decide +kernel
  cases hne.symm.trans hroutes

end System

end SandD
