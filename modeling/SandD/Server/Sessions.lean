import SandD.Server.Matching

/-!
# Sessions on the server

What a session puts out goes into the channel of the call that opened it, as long as the connection
it was opened on is the one that the registry gives for the daemon.

* `session_step`: an event leaves the sessions and their channels alone, opens one session, or puts
  the data of one message into one channel;
* `looksUp_step`: a connection that a task no longer finds in the registry it never finds again;
* `news_step`: the message that opens a session is put on its way once, by the call that drew the
  id, and reaches the daemon at most once.
-/

namespace SandD

/-- The session a message of a daemon is about. -/
def Message.session : Message → Option String
  | sessionOutput r _ => some r
  | sessionExit r _ => some r
  | _ => none

/-- Whether the message opens the session. -/
def Message.opens (r : String) : Message → Bool
  | newSession r' .. => decide (r' = r)
  | _ => false

/-- What messages have to put out for a session. -/
def bytesOf (r : String) (ms : List Message) : List UInt8 :=
  ms.flatMap fun m =>
    match m with
    | .sessionOutput r' data => if r' = r then data else []
    | _ => []

/-- How many of the messages open the session. -/
def newsOf (r : String) (ms : List Message) : ℕ := ms.countP (Message.opens r)

section

variable {r : String} {m : Message} {ms ms' : List Message}

@[simp] theorem bytesOf_nil : bytesOf r [] = [] := rfl

@[simp] theorem bytesOf_append : bytesOf r (ms ++ ms') = bytesOf r ms ++ bytesOf r ms' :=
  List.flatMap_append

@[simp] theorem bytesOf_sessionOutput {data : List UInt8} :
    bytesOf r [.sessionOutput r data] = data := by
  simp [bytesOf]

/-- Only output of the session counts. -/
theorem bytesOf_singleton (h : ∀ data, m ≠ .sessionOutput r data) : bytesOf r [m] = [] := by
  cases m with
  | sessionOutput r' data =>
    have hr : r' ≠ r := fun hr => h data (hr ▸ rfl)
    simp [bytesOf, hr]
  | _ => rfl

theorem bytesOf_of_session (h : ∀ m ∈ ms, m.session ≠ some r) : bytesOf r ms = [] := by
  induction ms with
  | nil => rfl
  | cons m ms ih =>
    have hm : bytesOf r [m] = [] := bytesOf_singleton fun data hm =>
      h m List.mem_cons_self (hm ▸ rfl)
    rw [← List.singleton_append, bytesOf_append, hm, List.nil_append]
    exact ih fun m' hm' => h m' (List.mem_cons_of_mem m hm')

@[simp] theorem newsOf_nil : newsOf r [] = 0 := rfl

@[simp] theorem newsOf_append : newsOf r (ms ++ ms') = newsOf r ms + newsOf r ms' :=
  List.countP_append

theorem newsOf_cons : newsOf r (m :: ms) = newsOf r [m] + newsOf r ms := by
  rw [← newsOf_append]
  rfl

theorem newsOf_singleton (h : m.opens r = false) : newsOf r [m] = 0 := by
  simp [newsOf, h]

theorem newsOf_newSession {rows cols : ℕ} {term : String} (r' : String) :
    newsOf r' [.newSession r rows cols term] = if r = r' then 1 else 0 := by
  by_cases h : r = r' <;> simp [newsOf, Message.opens, h]

end

/-- Acknowledgements open no session. -/
theorem TaskStep.news {t t' : Task} {e : Event} (h : TaskStep t e t') (r : String)
    (hack : ∀ m, t'.phase = .replying m → m.opens r = false) :
    newsOf r t'.outgoing ≤ newsOf r t.outgoing := by
  have hout : ∀ t : Task, newsOf r t.outgoing =
      newsOf r t.outbound + newsOf r t.phase.inWriting + newsOf r t.requests := fun t => by
    rw [Task.outgoing, newsOf_append, newsOf_append]
  rw [hout, hout]
  cases h with
  | accept hp | message hp _ | skip hp _ _ | close hp _ _ | none hp _ _ | orElse hp _ _
    | cleanUp hp => simp [hp, Phase.inWriting]
  | finish hp =>
    simp only [hp, Phase.inWriting, newsOf_nil]
    omega
  | handle hp hphase hid =>
    rcases hphase with rfl | ⟨o, rfl⟩ | ⟨m, rfl, -⟩
    · simp [hp, Phase.inWriting]
    · simp [hp, Phase.inWriting]
    · simp [hp, Phase.inWriting, newsOf_singleton (hack m rfl)]
  | route hp hphase =>
    rcases hphase with rfl | ⟨m, rfl, -⟩
    · simp [hp, Phase.inWriting]
    · simp [hp, Phase.inWriting, newsOf_singleton (hack m rfl)]
  | @recv _ b m rest hp hreq =>
    rw [hreq, hp, newsOf_cons]
    simp only [Phase.inWriting, newsOf_nil]
    omega
  | @replied _ m ok hp | @sent _ m ok hp =>
    cases ok <;> simp [hp, Phase.inWriting]

namespace Server

variable {s s' s'' : Server} {c : TaskId} {o o' : ConnRef} {k k' : CallId} {r : String} {e : Event}

/-! ### Sessions and their channels -/

/-- No session was opened, and none has put anything out. -/
structure Hushed (s s' : Server) : Prop where
  output : ∀ k, (s'.call k).output = (s.call k).output
  sessions : ∀ o r k, (s'.conn o).sessions.lookup r = some k →
    (s.conn o).sessions.lookup r = some k

namespace Hushed

theorem refl (s : Server) : Hushed s s := ⟨fun _ => rfl, fun _ _ _ h => h⟩

theorem trans (h : Hushed s s') (h' : Hushed s' s'') : Hushed s s'' :=
  ⟨fun k => (h'.output k).trans (h.output k),
    fun o r k hk => h.sessions o r k (h'.sessions o r k hk)⟩

theorem of_eq (hcall : s'.call = s.call) (hconn : s'.conn = s.conn) : Hushed s s' :=
  ⟨fun k => by rw [hcall], fun o r k h => by rwa [hconn] at h⟩

theorem setTask (t : Task) : Hushed s (s.setTask c t) := .of_eq rfl rfl

theorem setCall {call : Call} (h : call.output = (s.call k).output) :
    Hushed s (s.setCall k call) := by
  refine ⟨fun k' => ?_, fun _ _ _ h => h⟩
  rw [setCall_call, Function.update_apply]
  split_ifs with hk
  · rw [hk, h]
  · rfl

theorem setConn {conn : DaemonConnection} (h : ∀ r k, conn.sessions.lookup r = some k →
    (s.conn o).sessions.lookup r = some k) : Hushed s (s.setConn o conn) := by
  refine ⟨fun _ => rfl, fun o' r k hk => ?_⟩
  rw [setConn_conn, Function.update_apply] at hk
  split_ifs at hk with ho
  · exact ho ▸ h r k hk
  · exact hk

theorem release (h : Owner) (o : ConnRef) : Hushed s (s.release h o) := by
  by_cases ho : (s.arcs o).erase h = ∅
  · rw [release_of_eq ho]
    refine ⟨fun k => ?_, fun o' r k hk => ?_⟩
    · show ((s.call k).senderDropped (s.conn o) k).output = _
      rcases Call.senderDropped_cases (s.call k) (s.conn o) k with heq | ⟨-, heq⟩ <;> rw [heq]
    · dsimp only at hk
      rw [Function.update_apply] at hk
      split_ifs at hk
      · rw [DaemonConnection.dropped_sessions] at hk
        cases hk.symm.trans (Finmap.lookup_empty r)
      · exact hk
  · rw [release_of_ne ho]
    exact .of_eq rfl rfl

theorem returns (k : CallId) (o : ConnRef) (outcome : Outcome) :
    Hushed s (s.returns k o outcome) :=
  (Hushed.setCall (s := s) (by rfl)).trans (.release ..)

theorem sendMessage {m : Message} (h : s.sendMessage o m = some s') : Hushed s s' := by
  obtain ⟨-, rfl⟩ := sendMessage_eq h
  exact .setTask _

theorem callSend (k : CallId) (o : ConnRef) (m : Message) (er : PyError) (phase : CallPhase) :
    Hushed s (s.callSend k o m er phase) := by
  obtain ⟨s₁, h₁, h⟩ := callSend_eq (s := s) (k := k) (o := o) m er phase
  have hs₁ : Hushed s s₁ := by
    rcases h₁ with rfl | h₁
    · exact .refl _
    · exact .sendMessage h₁
  rcases h with ⟨outcome, h⟩ | h
  · rw [h]
    exact hs₁.trans (.returns ..)
  · rw [h]
    exact hs₁.trans (.setCall (by rfl))

theorem insertNew (id : String) (md : DaemonMetadata) (c : TaskId) :
    Hushed s (s.insertNew id md c) := by
  refine (Hushed.setConn (s := s) fun r k hk => ?_).trans (.of_eq rfl rfl)
  rw [DaemonConnection.new_sessions] at hk
  cases hk.symm.trans (Finmap.lookup_empty r)

theorem register (id : String) (md : DaemonMetadata) (c : TaskId) :
    Hushed s (s.register id md c) := by
  unfold Server.register
  split
  · exact (insertNew id md c).trans (.release ..)
  · exact insertNew id md c

theorem remove (id : String) : Hushed s (s.remove id) := by
  unfold Server.remove
  split
  next o _ =>
    have herase : Hushed s { s with registry := s.registry.erase id } := .of_eq rfl rfl
    exact herase.trans (.release ..)
  next => exact .refl _

theorem handleDaemonMessage (m : Message) : Hushed s (s.handleDaemonMessage c m) := by
  unfold Server.handleDaemonMessage
  split
  · split_ifs
    · exact .setTask _
    · exact (register _ _ c).trans (.setTask _)
  all_goals first
    | exact .setTask _
    | exact .of_eq (lookUp_call _) lookUp_conn

/-- A message that is no output of a session. -/
theorem onConnection {m : Message} (h : ∀ r data, m ≠ .sessionOutput r data) :
    Hushed s (s.onConnection m o) := by
  unfold Server.onConnection
  split
  · exact .setConn fun _ _ hk => hk
  next r data => exact absurd rfl (h r data)
  · exact .setConn fun _ _ hk => DaemonConnection.closeSession_lookup hk
  · exact .setConn fun _ _ hk => by rwa [DaemonConnection.addFileChunk_sessions] at hk
  next =>
    split
    · unfold Server.completeRequest
      split
      next k conn hconn =>
        refine (Hushed.setConn (s := s) ?_).trans (.setCall ?_)
        · intro r' k' hk
          rw [DaemonConnection.completeRequest, Prod.mk.injEq] at hconn
          rw [← hconn.2] at hk
          exact hk
        · unfold Call.receive
          split <;> rfl
      next => exact .refl _
    · exact .refl _

end Hushed

/-- What an event does to the sessions and their channels. -/
inductive SessionStep (s : Server) : Event → Server → Prop
  | hushed {e : Event} {s' : Server} (h : Hushed s s') : SessionStep s e s'
  | opened {k : CallId} {o : ConnRef} {r : String} {s' : Server} (hp : (s.call k).phase = .found o)
      (hr : (s.call k).requestId = some r) (hout : ∀ k, (s'.call k).output = (s.call k).output)
      (hsess : ∀ o' r' k', (s'.conn o').sessions.lookup r' = some k' →
        (s.conn o').sessions.lookup r' = some k' ∨ o' = o ∧ r' = r ∧ k' = k) :
      SessionStep s (.proceed k) s'
  | put {c : TaskId} {o : ConnRef} {r : String} {k : CallId} {data : List UInt8} {s' : Server}
      (hp : (s.task c).phase = .routing (.sessionOutput r data) o)
      (hk : (s.conn o).sessions.lookup r = some k)
      (hout : ∀ k', (s'.call k').output =
        if k' = k then (s.call k).output ++ [data] else (s.call k').output)
      (hsess : ∀ o r k, (s'.conn o).sessions.lookup r = some k →
        (s.conn o).sessions.lookup r = some k) : SessionStep s (.route c) s'

theorem proceed_session (h : s.proceed k = some s') : SessionStep s (.proceed k) s' := by
  unfold Server.proceed at h
  dsimp only at h
  split at h
  case h_1 =>
    obtain rfl := Option.some_inj.1 h
    exact .hushed ((Hushed.setConn (s := s) (by exact fun _ _ hk => hk)).trans (.setCall (by rfl)))
  case h_2 o r rows cols term hp hr hm =>
    obtain rfl := Option.some_inj.1 h
    refine .opened hp hr (fun k' => ?_) (fun o' r' k' hk => ?_)
    · exact (Hushed.setCall (s := s.setConn o ((s.conn o).registerSession r k)) (by rfl)).output k'
    · rw [setCall_conn, setConn_conn, Function.update_apply] at hk
      split_ifs at hk with ho
      · subst ho
        exact (DaemonConnection.registerSession_lookup hk).symm.imp_right fun h => ⟨rfl, h⟩
      · exact .inl hk
  case h_3 =>
    obtain rfl := Option.some_inj.1 h
    exact .hushed ((Hushed.setConn (s := s) (by exact fun _ _ hk => hk)).trans (.setCall (by rfl)))
  case h_4 =>
    obtain rfl := Option.some_inj.1 h
    exact .hushed (.returns ..)
  case h_5 =>
    obtain rfl := Option.some_inj.1 h
    exact .hushed ((Hushed.setCall (s := s) (by rfl)).trans (.callSend ..))
  case h_9 => cases h
  all_goals
    obtain rfl := Option.some_inj.1 h
    exact .hushed (.callSend ..)

theorem resume_hushed (h : s.resume k = some s') : Hushed s s' := by
  unfold Server.resume at h
  dsimp only at h
  split at h
  · obtain rfl := Option.some_inj.1 h
    exact .returns ..
  · obtain rfl := Option.some_inj.1 h
    exact .returns ..
  · split at h
    next =>
      split_ifs at h
      obtain rfl := Option.some_inj.1 h
      exact (Hushed.setConn (s := s) (by exact fun _ _ hk => hk)).trans (.returns ..)
    next => cases h
  · cases h

theorem timeOut_hushed (h : s.timeOut k = some s') : Hushed s s' := by
  unfold Server.timeOut at h
  dsimp only at h
  split at h
  · split_ifs at h
    obtain rfl := Option.some_inj.1 h
    exact .returns ..
  · cases h

theorem beginCall_hushed {id : String} {method : Method} (h : s.beginCall k id method r = some s') :
    Hushed s s' := by
  unfold Server.beginCall at h
  split at h
  next =>
    split at h
    next o _ =>
      split_ifs at h
      obtain rfl := Option.some_inj.1 h
      have hhold : Hushed s ({ s with drawn := r :: s.drawn }.hold (.call k) o) := .of_eq rfl rfl
      exact hhold.trans (.setCall (by rfl))
    next =>
      obtain rfl := Option.some_inj.1 h
      exact .setCall rfl
  next => cases h

theorem routed_session {m : Message} (hp : (s.task c).phase = .routing m o) :
    SessionStep s (.route c) (s.routed c m o) := by
  have hafter : Hushed (s.onConnection m o) (s.routed c m o) :=
    (Hushed.release (s := s.onConnection m o) (.task c) o).trans (.setTask _)
  by_cases hm : ∃ r data, m = .sessionOutput r data
  · obtain ⟨r, data, rfl⟩ := hm
    cases hk : (s.conn o).sessions.lookup r with
    | none =>
      have heq : s.onConnection (.sessionOutput r data) o = s := by
        rw [Server.onConnection, Server.sendSessionOutput, DaemonConnection.sendSessionOutput, hk]
      rw [heq] at hafter
      exact .hushed hafter
    | some k =>
      have heq : s.onConnection (.sessionOutput r data) o =
          s.setCall k { s.call k with output := (s.call k).output ++ [data] } := by
        rw [Server.onConnection, Server.sendSessionOutput, DaemonConnection.sendSessionOutput, hk]
      refine .put hp hk (fun k' => ?_) (fun o' r' k' h => ?_)
      · rw [hafter.output, heq, setCall_call, Function.update_apply]
        split_ifs <;> rfl
      · have h' := hafter.sessions o' r' k' h
        rwa [heq] at h'
  · exact .hushed ((Hushed.onConnection fun r data hm' => hm ⟨r, data, hm'⟩).trans hafter)

/-- **What an event does to the sessions and their channels.** -/
theorem session_step (h : s.step e = some s') : SessionStep s e s' := by
  have hset : ∀ {c t}, s' = s.setTask c t → SessionStep s e s' := by
    rintro c t rfl
    exact .hushed (.setTask t)
  cases e with
  | tick secs => exact .hushed (Option.some_inj.1 h ▸ .of_eq rfl rfl)
  | accept c =>
    change (if _ then _ else _) = some s' at h
    split_ifs at h
    exact hset (Option.some_inj.1 h).symm
  | arrive c frame =>
    change (if _ then _ else _) = some s' at h
    split_ifs at h
    exact hset (Option.some_inj.1 h).symm
  | endStream c => exact hset (Option.some_inj.1 h).symm
  | deliver c =>
    unfold Server.step at h
    dsimp only at h
    split at h
    · exact hset (Option.some_inj.1 h).symm
    · cases h
  | next c =>
    obtain ⟨t, ht⟩ := next_eq h
    exact hset ht
  | handle c =>
    unfold Server.step at h
    dsimp only at h
    split at h
    · obtain rfl := Option.some_inj.1 h
      exact .hushed (.handleDaemonMessage _)
    · cases h
  | route c =>
    unfold Server.step at h
    dsimp only at h
    split at h
    next hp =>
      obtain rfl := Option.some_inj.1 h
      exact routed_session hp
    next => cases h
  | recv c =>
    obtain ⟨t, ht⟩ := recv_eq h
    exact hset ht
  | orElse c =>
    obtain ⟨t, ht⟩ := orElse_eq h
    exact hset ht
  | write c ok =>
    obtain ⟨t, ht⟩ := write_eq h
    exact hset ht
  | cleanUp c =>
    change (if _ then _ else _) = some s' at h
    split_ifs at h
    obtain rfl := Option.some_inj.1 h
    unfold Server.cleanUp
    split
    · exact .hushed ((Hushed.remove _).trans (.setTask _))
    · exact .hushed (.setTask _)
  | finish c =>
    change (if _ then _ else _) = some s' at h
    split_ifs at h
    exact hset (Option.some_inj.1 h).symm
  | reap id =>
    change s.cleanupStale _ id = some s' at h
    unfold Server.cleanupStale at h
    split at h
    · split_ifs at h
      obtain rfl := Option.some_inj.1 h
      exact .hushed (.remove id)
    · cases h
  | begin k daemonId method id => exact .hushed (beginCall_hushed h)
  | proceed k => exact proceed_session h
  | resume k => exact .hushed (resume_hushed h)
  | timeOut k => exact .hushed (timeOut_hushed h)

/-! ### What a task finds in the registry -/

/-- The registry gives the task the connection for the id it has registered. -/
def LooksUp (s : Server) (c : TaskId) (o : ConnRef) : Prop :=
  (s.task c).daemonId.bind s.get = some o

/-- **A connection that a task finds it has found before, unless it is new.** -/
theorem looksUp_step (h : s.step e = some s') (ho : o < s.made) (hl : s'.LooksUp c o) :
    s.LooksUp c o := by
  obtain ⟨id, hid, hget⟩ := Option.bind_eq_some_iff.1 hl
  have hget' : s.get id = some o := by
    cases entry_step h with
    | same hreg _ =>
      rw [Server.get, ← hreg]
      exact hget
    | @registered c₁ id₁ md _ hp hne hs' =>
      rw [hs', handleDaemonMessage_register hne] at hget
      have hreg := (register_get (s := s) (c := c₁) id₁ md id).symm.trans hget
      split_ifs at hreg
      · exact absurd ho (Option.some_inj.1 hreg ▸ lt_irrefl _)
      · exact hreg
    | removed _ hrem _ =>
      have hrem := (hrem id).symm.trans hget
      split_ifs at hrem
      exact hrem
  refine Option.bind_eq_some_iff.2 ⟨id, ?_, hget'⟩
  by_cases ha : e.actor = some c
  · have hstep := task_step h ha
    generalize ht : s'.task c = t' at hstep
    rw [ht] at hid
    cases hstep with
    | @handle c₁ m phase id' hp hphase hid' =>
      rcases hid' with rfl | ⟨i, md, rfl, hne, rfl⟩
      · exact hid
      · -- what the task has just registered leads to the new connection
        obtain rfl : c₁ = c := Option.some_inj.1 ha
        obtain rfl : i = id := Option.some_inj.1 hid
        rw [handle_eq hp h, handleDaemonMessage_register hne] at hget
        have hreg := (register_get (s := s) (c := c₁) i md i).symm.trans hget
        rw [if_pos rfl] at hreg
        exact absurd ho (Option.some_inj.1 hreg ▸ lt_irrefl _)
    | _ => exact hid
  · rwa [(task_kept h ha).kept.daemonId] at hid

/-! ### Opening a session -/

/-- The call has opened the session on the connection, and has returned. -/
structure Opened (s : Server) (k : CallId) (r : String) (o : ConnRef) : Prop where
  requestId : (s.call k).requestId = some r
  on : (s.call k).registeredOn = some o
  returned : (s.call k).phase.conn = none

namespace Opened

theorem lt_made (hs : s.Linked) (h : s.Opened k r o) : o < s.made := hs.made k o h.on

theorem step (hs : s.Linked) (h : s.step e = some s') (hk : s.Opened k r o) :
    s'.Opened k r o := by
  have hidle : (s.call k).phase ≠ .idle := fun hp => by
    cases ((hs.calls k).idle hp).1.symm.trans hk.requestId
  have hover := over_step hs h (by simp [hk.on]) hk.returned
  have hret := hk.returned
  have hkeep : (s'.call k).requestId = some r ∧ (s'.call k).registeredOn = some o := by
    have hcall := call_step hs h k
    generalize s'.call k = call' at hcall
    cases hcall with
    | kept hkept => exact ⟨hkept.requestId.trans hk.requestId, hkept.registeredOn.trans hk.on⟩
    | received _ _ _ hconn => exact absurd hret hconn
    | found hp | notFound hp => exact absurd hp hidle
    | registered hp | posted hp | waits hp =>
      rw [hp] at hret
      cases hret
    | returned hp =>
      rw [hp] at hret
      cases hret
  exact ⟨hkeep.1, hkeep.2, hover.2⟩

/-- The session of a call is in the map of no other connection, and under no other id. -/
theorem lookup_eq (hs : s.Linked) (hk : s.Opened k r o) {o' : ConnRef} {r' : String}
    (h : (s.conn o').sessions.lookup r' = some k) : o' = o ∧ r' = r :=
  ⟨(Option.some_inj.1 ((hs.sessions o' r' k h).1.symm.trans hk.on)),
    Option.some_inj.1 ((hs.sessions o' r' k h).2.symm.trans hk.requestId)⟩

/-- What is in a map under its id is the session of the call. -/
theorem of_lookup (hs : s.Linked) (hk : s.Opened k r o) {o' : ConnRef} {k' : CallId}
    (h : (s.conn o').sessions.lookup r = some k') : k' = k ∧ o' = o := by
  obtain rfl : k' = k := hs.ids k' k r (hs.sessions o' r k' h).2 hk.requestId
  exact ⟨rfl, (hk.lookup_eq hs h).1⟩

/-- A session that is in no map does not come back. -/
theorem lookup_step (hs : s.Linked) (hk : s.Opened k r o) (h : s.step e = some s')
    (hnone : (s.conn o).sessions.lookup r = none) : (s'.conn o).sessions.lookup r = none := by
  cases hsess : (s'.conn o).sessions.lookup r with
  | none => rfl
  | some k' =>
    exfalso
    cases session_step h with
    | hushed hh => cases hnone.symm.trans (hh.sessions o r k' hsess)
    | @opened k₁ o₁ r₁ _ hp hr _ hsess' =>
      rcases hsess' o r k' hsess with hold | ⟨-, rfl, rfl⟩
      · cases hnone.symm.trans hold
      · obtain rfl : k' = k := hs.ids k' k r hr hk.requestId
        have hret := hk.returned
        rw [hp] at hret
        cases hret
    | put _ _ _ hsess' => cases hnone.symm.trans (hsess' o r k' hsess)

end Opened

/-- What a call does to the messages on their way that open sessions: nothing, or it puts the one of
its own session there and returns. -/
inductive News (s : Server) (k : CallId) (s' : Server) : Prop
  | nothing (h : ∀ c r, newsOf r (s'.task c).outgoing = newsOf r (s.task c).outgoing)
  | one {o : ConnRef} {r : String} (hp : (s.call k).phase = .opened o)
      (hr : (s.call k).requestId = some r) (hk : s'.Opened k r o)
      (h : ∀ c r', newsOf r' (s'.task c).outgoing = newsOf r' (s.task c).outgoing +
        if c = (s.conn o).requestTx ∧ r' = r then 1 else 0)

theorem outgoing_append {t : Task} (m : Message) :
    ({ t with requests := t.requests ++ [m] } : Task).outgoing = t.outgoing ++ [m] := by
  simp [Task.outgoing]

/-- A call that sends puts at most its message on the way. -/
theorem callSend_news (m : Message) (er : PyError) (phase : CallPhase) :
    (∀ c r, newsOf r ((s.callSend k o m er phase).task c).outgoing =
      newsOf r (s.task c).outgoing) ∨
    ∀ c r, newsOf r ((s.callSend k o m er phase).task c).outgoing =
      newsOf r (s.task c).outgoing + if c = (s.conn o).requestTx then newsOf r [m] else 0 := by
  obtain ⟨s₁, h₁, h⟩ := callSend_eq (s := s) (k := k) (o := o) m er phase
  have htask : (s.callSend k o m er phase).task = s₁.task := by
    rcases h with ⟨outcome, h⟩ | h
    · rw [h, returns_task]
    · rw [h]
      rfl
  rw [htask]
  rcases h₁ with rfl | h₁
  · exact .inl fun _ _ => rfl
  · obtain ⟨-, rfl⟩ := sendMessage_eq h₁
    refine .inr fun c r => ?_
    rw [setTask_task, Function.update_apply]
    split_ifs with hc
    · rw [outgoing_append, newsOf_append, hc]
    · rfl

theorem proceed_news (hs : s.Linked) (h : s.proceed k = some s') : News s k s' := by
  have hsend : ∀ {s₁ : Server} {o : ConnRef} {m : Message} {er : PyError} {phase : CallPhase},
      s₁.task = s.task → (∀ r, m.opens r = false) →
      ∀ c r, newsOf r ((s₁.callSend k o m er phase).task c).outgoing =
        newsOf r (s.task c).outgoing := by
    intro s₁ o m er phase htask hm c r
    rcases callSend_news (s := s₁) (k := k) (o := o) m er phase with heq | heq
    · rw [heq, htask]
    · rw [heq, htask, newsOf_singleton (hm r), ite_self, Nat.add_zero]
  unfold Server.proceed at h
  dsimp only at h
  split at h
  case h_4 =>
    obtain rfl := Option.some_inj.1 h
    exact .nothing fun c r => by rw [returns_task]
  case h_5 o r b posting rest hp hr hm =>
    obtain rfl := Option.some_inj.1 h
    exact .nothing (hsend rfl fun r' => by cases posting <;> rfl)
  case h_6 o r ask hp hr hm =>
    obtain rfl := Option.some_inj.1 h
    exact .nothing (hsend rfl fun r' => by cases ask <;> rfl)
  case h_7 o r rows cols term hp hr hm =>
    obtain rfl := Option.some_inj.1 h
    have hon : (s.call k).registeredOn = some o := by
      rcases (hs.calls k).registered o (by rw [hp]; rfl) with hfound | hon
      · cases hp.symm.trans hfound
      · exact hon
    have hopened : Opened (s.callSend k o (.newSession r rows cols term)
        (sendError "Failed to start session") (.returned (.ok (.session r)))) k r o := by
      rcases callSend_self hs o k (.newSession r rows cols term)
        (sendError "Failed to start session") (.returned (.ok (.session r))) with
        ⟨-, hk⟩ | ⟨-, hk⟩
      · exact ⟨hk.requestId.trans hr, hk.registeredOn.trans hon, congrArg CallPhase.conn hk.phase⟩
      · exact ⟨hk.requestId.trans hr, hk.registeredOn.trans hon, congrArg CallPhase.conn hk.phase⟩
    rcases callSend_news (s := s) (k := k) (o := o) (.newSession r rows cols term)
      (sendError "Failed to start session") (.returned (.ok (.session r))) with heq | heq
    · exact .nothing heq
    · refine .one hp hr hopened fun c r' => ?_
      rw [heq, newsOf_newSession]
      by_cases hc : c = (s.conn o).requestTx <;> by_cases hr' : r = r' <;> simp [hc, hr', eq_comm]
  case h_8 o r path hp hr hm =>
    obtain rfl := Option.some_inj.1 h
    exact .nothing (hsend rfl fun r' => rfl)
  case h_9 => cases h
  all_goals
    obtain rfl := Option.some_inj.1 h
    exact .nothing fun _ _ => rfl

/-! ### Output on its way -/

/-- An id that a call has drawn it keeps. -/
theorem requestId_step (hs : s.Linked) (h : s.step e = some s')
    (hr : (s.call k).requestId = some r) : (s'.call k).requestId = some r := by
  have hidle : (s.call k).phase ≠ .idle := fun hp => by
    cases ((hs.calls k).idle hp).1.symm.trans hr
  have hcall := call_step hs h k
  generalize s'.call k = call' at hcall
  cases hcall with
  | kept hkept => exact hkept.requestId.trans hr
  | received _ _ _ _ hcall => exact hcall ▸ hr
  | found hp | notFound hp => exact absurd hp hidle
  | registered _ hcall => exact hcall ▸ hr
  | posted _ _ hkept | waits _ _ hkept | returned _ _ _ hkept => exact hkept.requestId.trans hr

/-- A task routes what it routed before, or what it has just found a connection for. -/
theorem routing_step (h : s.step e = some s') {m : Message}
    (hp : (s'.task c).phase = .routing m o) :
    (s.task c).phase = .routing m o ∧ e ≠ .route c ∨ e = .handle c ∧ s.LooksUp c o := by
  by_cases ha : e.actor = some c
  · have hstep := task_step h ha
    generalize ht : s'.task c = t' at hstep
    rw [ht] at hp
    cases hstep with
    | @handle c₁ m₁ phase id hp' hphase _ =>
      obtain rfl : c₁ = c := Option.some_inj.1 ha
      rw [handle_eq hp' h] at ht
      obtain ⟨id, hid, hget, -⟩ := handleDaemonMessage_routing ((congrArg Task.phase ht).trans hp)
      exact .inr ⟨rfl, Option.bind_eq_some_iff.2 ⟨id, hid, hget⟩⟩
    | route _ hphase => rcases hphase with rfl | ⟨m', rfl, -⟩ <;> cases hp
    | skip hp' => cases hp'.symm.trans hp
    | @sent _ _ ok => cases ok <;> cases hp
    | _ => cases hp
  · rw [(task_kept h ha).kept.phase] at hp
    exact .inl ⟨hp, fun he => ha (he ▸ rfl)⟩

/-- Once a stream has ended it stays so. -/
theorem ended_of_step (h : s.step e = some s') (hend : (s'.task c).ended = false) :
    (s.task c).ended = false := by
  by_cases ha : e.actor = some c
  · have hstep := task_step h ha
    generalize s'.task c = t' at hstep hend
    cases hstep <;> exact hend
  · by_contra hne
    have := ((task_kept h ha).kept.ended (by simpa using hne)).1
    rw [hend] at this
    cases this

/-- What the task of a connection does with output while it finds the connection. -/
theorem handle_output {r' : String} {data : List UInt8} (hl : s.LooksUp c o)
    (hp : (s.task c).phase = .handling (.sessionOutput r' data))
    (h : s.step (.handle c) = some s') :
    (s'.task c).phase = .routing (.sessionOutput r' data) o := by
  obtain ⟨id, hid, hget⟩ := Option.bind_eq_some_iff.1 hl
  rw [handle_eq hp h, handleDaemonMessage, lookUp, hid]
  dsimp only
  rw [hget]
  dsimp only
  rw [setPhase, setTask_task, Function.update_self]

theorem route_output {data : List UInt8}
    (hp : (s.task c).phase = .routing (.sessionOutput r data) o)
    (hk : (s.conn o).sessions.lookup r = some k) (h : s.step (.route c) = some s') :
    (s'.call k).output = (s.call k).output ++ [data] := by
  have hafter : Hushed (s.onConnection (.sessionOutput r data) o) s' := by
    rw [route_eq hp h]
    exact (Hushed.release (s := s.onConnection _ o) (.task c) o).trans (.setTask _)
  rw [hafter.output, onConnection, sendSessionOutput, DaemonConnection.sendSessionOutput, hk]
  dsimp only
  rw [setCall_call, Function.update_self]

/-- What a task routes goes to the connection it has registered, while it finds that one. -/
def Steady (s : Server) : Prop :=
  ∀ c m o o', (s.task c).phase = .routing m o' → o < s.made → (s.conn o).requestTx = c →
    s.LooksUp c o → o' = o

theorem Steady.step (hst : s.Steady) (h : s.step e = some s') : s'.Steady := by
  intro c m o o' hp ho htx hl
  by_cases hold : o < s.made
  · have hl' := looksUp_step h hold hl
    rcases routing_step h hp with ⟨hp, -⟩ | ⟨-, hl''⟩
    · exact hst c m o o' hp hold ((conn_same h hold).requestTx.symm.trans htx) hl'
    · exact Option.some_inj.1 (hl''.symm.trans hl')
  · exfalso
    cases entry_step h with
    | same _ hmade => exact hold (hmade ▸ ho)
    | removed _ _ hmade => exact hold (hmade ▸ ho)
    | @registered c₁ id md _ hp₁ hne hs' =>
      rw [handleDaemonMessage_register hne] at hs'
      have hmade : s'.made = s.made + 1 := hs' ▸ register_made
      obtain rfl : o = s.made := by omega
      have hnew : (s'.conn s.made).requestTx = c₁ := hs' ▸ (register_new (s := s) id md).requestTx
      obtain rfl : c₁ = c := hnew.symm.trans htx
      -- the task that registers is not routing anything
      rw [hs', setTask_task, Function.update_self] at hp
      cases hp

/-- What a call has in its channel changes by the output of its session alone. -/
theorem output_step (hs : s.Linked) (hk : s.Opened k r o) (h : s.step e = some s') :
    (s'.call k).output = (s.call k).output ∨ ∃ c data, e = .route c ∧
      (s.task c).phase = .routing (.sessionOutput r data) o ∧
      (s.conn o).sessions.lookup r = some k := by
  cases session_step h with
  | hushed hh => exact .inl (hh.output k)
  | opened _ _ hout _ => exact .inl (hout k)
  | @put c₁ o₁ r₁ k₁ data _ hp hk₁ hout _ =>
    by_cases hkk : k = k₁
    · subst hkk
      obtain ⟨rfl, rfl⟩ := hk.lookup_eq hs hk₁
      exact .inr ⟨c₁, data, rfl, hp, hk₁⟩
    · have := hout k
      rw [if_neg hkk] at this
      exact .inl this

/-- What a session has put out and what of it has arrived at the server. -/
def arrived (s : Server) (k : CallId) (r : String) (c : TaskId) : List UInt8 :=
  (s.call k).output.flatten ++ bytesOf r (s.task c).incoming

/-- Between the shell and the caller nothing is missing: `stream` is what the shell has put out,
and `unread`, if it will be sent, what the daemon has not read of it. -/
structure Flowing (s : Server) (k : CallId) (r : String) (c : TaskId)
    (stream : List UInt8) (unread : Option (List UInt8)) : Prop where
  start : s.arrived k r c <+: stream
  all : ∀ rest, unread = some rest → (s.task c).ended = false → s.arrived k r c ++ rest = stream

/-- Nothing more reaches the caller. -/
structure Deaf (s : Server) (k : CallId) (r : String) (o : ConnRef) (c : TaskId)
    (stream : List UInt8) : Prop where
  start : (s.call k).output.flatten <+: stream
  nothing : (s.conn o).sessions.lookup r = none ∨
    ¬ s.LooksUp c o ∧ ∀ m, (s.task c).phase ≠ .routing m o

section

variable {stream : List UInt8} {unread : Option (List UInt8)}

/-- The channel of a deaf session stays as it is. -/
theorem Deaf.step (hd : s.Deaf k r o c stream) (hs : s.Linked) (hk : s.Opened k r o)
    (hc : ∀ c' m, m ∈ (s.task c').incoming → m.session = some r → c' = c)
    (h : s.step e = some s') : s'.Deaf k r o c stream := by
  have hout : (s'.call k).output = (s.call k).output := by
    rcases output_step hs hk h with hout | ⟨c', data, rfl, hp, hlook⟩
    · exact hout
    · exfalso
      have hin : .sessionOutput r data ∈ (s.task c').incoming := by
        simp [Task.incoming, hp, Phase.inHand]
      obtain rfl := hc c' _ hin rfl
      rcases hd.nothing with hnone | ⟨-, hno⟩
      · cases hnone.symm.trans hlook
      · exact hno _ hp
  refine ⟨hout ▸ hd.start, ?_⟩
  rcases hd.nothing with hnone | ⟨hl, hno⟩
  · exact .inl (hk.lookup_step hs h hnone)
  · refine .inr ⟨fun hl' => hl (looksUp_step h (hk.lt_made hs) hl'), fun m hp => ?_⟩
    rcases routing_step h hp with ⟨hp, -⟩ | ⟨-, hl'⟩
    · exact hno m hp
    · exact hl hl'

/-- What arrives of a session reaches its caller, or nothing more does. -/
theorem Flowing.step (hf : s.Flowing k r c stream unread) (hs : s.Linked) (hst : s.Steady)
    (hk : s.Opened k r o) (htx : (s.conn o).requestTx = c)
    (hc : ∀ c' m, m ∈ (s.task c').incoming → m.session = some r → c' = c)
    (harr : bytesOf r (e.arrival c) = []) (h : s.step e = some s') :
    s'.Flowing k r c stream unread ∨ s'.Deaf k r o c stream := by
  obtain ⟨done, hin, hdone⟩ := taken_step (c := c) h
  have hbytes : bytesOf r (s.task c).incoming =
      bytesOf r done ++ bytesOf r (s'.task c).incoming := by
    rw [← bytesOf_append, ← hin, bytesOf_append, harr, List.append_nil]
  have hlooks : s'.LooksUp c o → s.LooksUp c o := looksUp_step h (hk.lt_made hs)
  -- as long as the bytes that are dealt with reach the channel
  have hflow : (s'.call k).output.flatten = (s.call k).output.flatten ++ bytesOf r done →
      s'.Flowing k r c stream unread := by
    intro hout
    have heq : s'.arrived k r c = s.arrived k r c := by
      rw [arrived, arrived, hout, hbytes, List.append_assoc]
    refine ⟨heq ▸ hf.start, fun rest hrest hend => ?_⟩
    rw [heq]
    exact hf.all rest hrest (ended_of_step h hend)
  have hprefix : (s.call k).output.flatten <+: stream := (List.prefix_append _ _).trans hf.start
  by_cases hput : ∃ data, e = .route c ∧ (s.task c).phase = .routing (.sessionOutput r data) o
  · obtain ⟨data, rfl, hp⟩ := hput
    obtain rfl : done = [.sessionOutput r data] := by
      rcases hdone with ⟨hne, -⟩ | ⟨m, o', -, hp', rfl⟩
      · exact absurd rfl hne
      · cases hp.symm.trans hp'
        rfl
    cases hlook : (s.conn o).sessions.lookup r with
    | some k' =>
      obtain ⟨rfl, -⟩ := hk.of_lookup hs hlook
      refine .inl (hflow ?_)
      rw [route_output hp hlook h, bytesOf_sessionOutput, List.flatten_append,
        List.flatten_singleton]
    | none =>
      have hout : (s'.call k).output = (s.call k).output := by
        rcases output_step hs hk h with hout | ⟨_, _, _, _, hlook'⟩
        · exact hout
        · cases hlook.symm.trans hlook'
      exact .inr ⟨hout ▸ hprefix, .inl (hk.lookup_step hs h hlook)⟩
  have hout : (s'.call k).output = (s.call k).output := by
    rcases output_step hs hk h with hout | ⟨c', data, rfl, hp, hlook⟩
    · exact hout
    · have hin' : .sessionOutput r data ∈ (s.task c').incoming := by
        simp [Task.incoming, hp, Phase.inHand]
      obtain rfl := hc c' _ hin' rfl
      exact absurd ⟨data, rfl, hp⟩ hput
  by_cases hnil : bytesOf r done = []
  · exact .inl (hflow (by rw [hout, hnil, List.append_nil]))
  refine .inr ⟨hout ▸ hprefix, .inr ⟨fun hl => ?_, fun m hp => ?_⟩⟩
  · rcases hdone with ⟨-, rfl | ⟨m, rfl, hp, hno, rfl⟩⟩ | ⟨m, o', rfl, hp, rfl⟩
    · exact hnil rfl
    · obtain ⟨data, rfl⟩ : ∃ data, m = .sessionOutput r data := by
        by_contra hm
        exact hnil (bytesOf_singleton fun data hm' => hm ⟨data, hm'⟩)
      exact hno _ _ (handle_output (hlooks hl) hp h)
    · obtain ⟨data, rfl⟩ : ∃ data, m = .sessionOutput r data := by
        by_contra hm
        exact hnil (bytesOf_singleton fun data hm' => hm ⟨data, hm'⟩)
      obtain rfl := hst c _ o _ hp (hk.lt_made hs) htx (hlooks hl)
      exact hput ⟨data, rfl, hp⟩
  · rcases hdone with ⟨-, rfl | ⟨m', rfl, -, hno, -⟩⟩ | ⟨m', o', rfl, hp', rfl⟩
    · exact hnil rfl
    · exact hno _ _ hp
    · rcases routing_step h hp with ⟨-, hne⟩ | ⟨he, -⟩
      · exact hne rfl
      · cases he

end

end Server

end SandD
