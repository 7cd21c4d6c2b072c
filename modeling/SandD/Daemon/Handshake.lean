import SandD.Daemon.Serve
import SandD.Server.Matching

/-!
# The registration handshake

The server puts a connection into the registry before it acknowledges its registration, so that
callers may send at once, and the daemon takes the first frame it reads for the acknowledgement.

* `Watch`: a system, with what the daemon has read from one connection and what callers have put
  into the channel of its requests;
* `Flow`: what a step of the system does to the connection;
* `nothing_swallowed`: the acknowledgement is read first, and every request is read after it, in
  the order of the channel.
-/

namespace SandD

/-- An acknowledgement of the server, which is no request. -/
def Message.isAck : Message → Bool
  | registerAck .. => true
  | heartbeatAck .. => true
  | _ => false

/-- The requests among messages. -/
def requestsOf (ms : List Message) : List Message := ms.filter fun m => !m.isAck

@[simp] theorem requestsOf_nil : requestsOf [] = [] := rfl

@[simp] theorem requestsOf_append (ms ms' : List Message) :
    requestsOf (ms ++ ms') = requestsOf ms ++ requestsOf ms' := List.filter_append ..

theorem requestsOf_ack {m : Message} (h : m.isAck = true) : requestsOf [m] = [] := by
  simp [requestsOf, h]

theorem requestsOf_request {m : Message} (h : m.isAck = false) : requestsOf [m] = [m] := by
  simp [requestsOf, h]

theorem ask_isAck (ask : Ask) (r : String) : (ask.call.message r).isAck = false := by
  cases ask <;> rfl

theorem posting_isAck (posting : Posting) (r : String) : (posting.message r).isAck = false := by
  cases posting <;> rfl

theorem TaskStep.of_handling {t t' : Task} {e : Event} {m : Message} (h : TaskStep t e t')
    (hp : t.phase = .handling m) : ∃ c, e = .handle c := by
  cases h with
  | handle => exact ⟨_, rfl⟩
  | accept hp' | message hp' | skip hp' | close hp' | none hp' | route hp' | recv hp' | orElse hp'
    | replied hp' | sent hp' | cleanUp hp' | finish hp' => cases hp.symm.trans hp'

/-- A task takes requests, and puts none. -/
theorem TaskStep.requests {t t' : Task} {e : Event} (h : TaskStep t e t') :
    t'.requests <:+ t.requests := by
  cases h with
  | recv hp hreq => exact hreq ▸ List.suffix_cons _ _
  | finish hp => exact List.nil_suffix
  | _ => exact List.suffix_rfl

/-- A task's own steps do not end its stream. -/
theorem TaskStep.ended {t t' : Task} {e : Event} (h : TaskStep t e t') : t'.ended = t.ended := by
  cases h <;> rfl

/-- A task turns to reply when it handles a message. -/
theorem TaskStep.replying {t t' : Task} {e : Event} (h : TaskStep t e t') {m : Message}
    (hp : t'.phase = .replying m) : (∃ c, e = .handle c) ∨ ∃ c, e = .route c := by
  cases h with
  | handle => exact .inl ⟨_, rfl⟩
  | route => exact .inr ⟨_, rfl⟩
  | skip hp' => cases hp'.symm.trans hp
  | @sent c m ok hp' => cases ok <;> cases hp
  | _ => cases hp

/-- No step of a task leads back to where the connection was not accepted. -/
theorem TaskStep.ne_absent {t t' : Task} {e : Event} (h : TaskStep t e t') :
    t'.phase ≠ .absent := by
  intro hp
  cases h with
  | handle hp' hphase hid =>
    rcases hphase with rfl | ⟨o, rfl⟩ | ⟨m, rfl, -⟩ <;> cases hp
  | route hp' hphase => rcases hphase with rfl | ⟨m, rfl, -⟩ <;> cases hp
  | skip hp' => cases hp'.symm.trans hp
  | @sent c m ok hp' => cases ok <;> cases hp
  | _ => cases hp

namespace Server

variable {s s' : Server} {c : TaskId} {o : ConnRef} {k : CallId} {e : Event}

/-! ### Requests -/

/-- A call leaves the tasks alone, or puts a request into the channel of its connection. -/
inductive Queues (s : Server) (k : CallId) (s' : Server) : Prop
  | nothing (ht : s'.task = s.task)
  | one {o : ConnRef} {m : Message} (ho : (s.call k).phase.conn = some o) (hm : m.isAck = false)
      (ht : s'.task = Function.update s.task (s.conn o).requestTx
        { s.task (s.conn o).requestTx with
          requests := (s.task (s.conn o).requestTx).requests ++ [m] })

theorem callSend_queues {m : Message} {er : PyError} {phase : CallPhase}
    (ho : (s.call k).phase.conn = some o) (hm : m.isAck = false) :
    Queues s k (s.callSend k o m er phase) := by
  obtain ⟨s₁, h₁, h⟩ := callSend_eq (s := s) (k := k) (o := o) m er phase
  have htask : (s.callSend k o m er phase).task = s₁.task := by
    rcases h with ⟨outcome, h⟩ | h
    · rw [h, returns_task]
    · rw [h]
      rfl
  rcases h₁ with rfl | h₁
  · exact .nothing htask
  · obtain ⟨-, rfl⟩ := sendMessage_eq h₁
    exact .one ho hm htask

theorem proceed_queues (h : s.proceed k = some s') : Queues s k s' := by
  unfold Server.proceed at h
  dsimp only at h
  split at h
  case h_4 =>
    obtain rfl := Option.some_inj.1 h
    exact .nothing returns_task
  case h_5 o r b posting rest hp hr hm =>
    obtain rfl := Option.some_inj.1 h
    have hsend : Queues (s.setCall k { s.call k with method := .post b rest }) k
        ((s.setCall k { s.call k with method := .post b rest }).callSend k o (posting.message r)
          (sendError posting.sending) (.found o)) :=
      callSend_queues (by rw [setCall_call, Function.update_self, hp]; rfl)
        (posting_isAck posting r)
    cases hsend with
    | nothing ht => exact .nothing ht
    | one ho hm ht =>
      rw [setCall_call, Function.update_self] at ho
      exact .one ho hm ht
  case h_6 o r ask hp hr hm =>
    obtain rfl := Option.some_inj.1 h
    exact callSend_queues (by rw [hp]; rfl) (ask_isAck ask r)
  case h_7 o r rows cols term hp hr hm =>
    obtain rfl := Option.some_inj.1 h
    exact callSend_queues (by rw [hp]; rfl) rfl
  case h_8 o r path hp hr hm =>
    obtain rfl := Option.some_inj.1 h
    exact callSend_queues (by rw [hp]; rfl) rfl
  case h_9 => cases h
  all_goals
    obtain rfl := Option.some_inj.1 h
    exact .nothing rfl

/-- No connection leads to the task. -/
def Unrouted (s : Server) (c : TaskId) : Prop := ∀ o, o < s.made → (s.conn o).requestTx ≠ c

/-- Requests that are put into the channel of the task of a connection. -/
def Posted (s : Server) (c : TaskId) (ms : List Message) : Prop :=
  ms = [] ∨ ¬ s.Unrouted c ∧ ∃ m, ms = [m] ∧ m.isAck = false

/-- The task is as it was, apart from requests that were put into its channel. -/
def Fed (s : Server) (c : TaskId) (s' : Server) : Prop :=
  ∃ ms, s.Posted c ms ∧ s'.task c = { s.task c with requests := (s.task c).requests ++ ms }

theorem Fed.of_eq (h : s'.task c = s.task c) : Fed s c s' :=
  ⟨[], .inl rfl, by rw [h, List.append_nil]⟩

/-- The events of others feed a task, apart from what reaches it from outside. -/
theorem task_fed (hs : s.Linked) (h : s.step e = some s') (ha : e.actor ≠ some c)
    (hin : ∀ f, e ≠ .arrive c f) (hend : e ≠ .endStream c) (hout : e ≠ .deliver c) :
    Fed s c s' := by
  have hset : ∀ {c' : TaskId} {t : Task}, c' ≠ c → s' = s.setTask c' t → Fed s c s' := by
    rintro c' t hne rfl
    refine .of_eq ?_
    rw [setTask_task, Function.update_of_ne hne.symm]
  have hne : ∀ c', some c' ≠ some c → c' ≠ c := fun c' h h' => h (congrArg some h')
  cases e with
  | tick secs => exact .of_eq (Option.some_inj.1 h ▸ rfl)
  | accept c' =>
    change (if _ then _ else _) = some s' at h
    split_ifs at h
    exact hset (hne c' ha) (Option.some_inj.1 h).symm
  | arrive c' frame =>
    change (if _ then _ else _) = some s' at h
    split_ifs at h
    exact hset (fun hc => hin frame (hc ▸ rfl)) (Option.some_inj.1 h).symm
  | endStream c' => exact hset (fun hc => hend (hc ▸ rfl)) (Option.some_inj.1 h).symm
  | deliver c' =>
    unfold Server.step at h
    dsimp only at h
    split at h
    · exact hset (fun hc => hout (hc ▸ rfl)) (Option.some_inj.1 h).symm
    · cases h
  | next c' =>
    obtain ⟨t, ht⟩ := next_eq h
    exact hset (hne c' ha) ht
  | handle c' =>
    unfold Server.step at h
    dsimp only at h
    split at h
    · obtain rfl := Option.some_inj.1 h
      exact .of_eq (handleDaemonMessage_task_of_ne (hne c' ha).symm _)
    · cases h
  | route c' =>
    unfold Server.step at h
    dsimp only at h
    split at h
    · obtain rfl := Option.some_inj.1 h
      refine .of_eq ?_
      rw [routed_task, Function.update_of_ne (hne c' ha).symm]
    · cases h
  | recv c' =>
    obtain ⟨t, ht⟩ := recv_eq h
    exact hset (hne c' ha) ht
  | orElse c' =>
    obtain ⟨t, ht⟩ := orElse_eq h
    exact hset (hne c' ha) ht
  | write c' ok =>
    obtain ⟨t, ht⟩ := write_eq h
    exact hset (hne c' ha) ht
  | cleanUp c' =>
    change (if _ then _ else _) = some s' at h
    split_ifs at h
    obtain rfl := Option.some_inj.1 h
    refine .of_eq ?_
    unfold Server.cleanUp
    split
    · rw [setPhase, setTask_task, Function.update_of_ne (hne c' ha).symm, remove_task]
    · rw [setPhase, setTask_task, Function.update_of_ne (hne c' ha).symm]
  | finish c' =>
    change (if _ then _ else _) = some s' at h
    split_ifs at h
    exact hset (hne c' ha) (Option.some_inj.1 h).symm
  | reap id =>
    change s.cleanupStale _ id = some s' at h
    unfold Server.cleanupStale at h
    split at h
    · split_ifs at h
      obtain rfl := Option.some_inj.1 h
      exact .of_eq (congrFun (remove_task id) c)
    · cases h
  | begin k daemonId method id => exact .of_eq (congrFun (beginCall_still h).task c)
  | resume k => exact .of_eq (congrFun (resume_still h).task c)
  | timeOut k => exact .of_eq (congrFun (timeOut_still h).task c)
  | proceed k =>
    cases proceed_queues h with
    | nothing ht => exact .of_eq (congrFun ht c)
    | @one o m ho hm ht =>
      by_cases hc : (s.conn o).requestTx = c
      · subst hc
        refine ⟨[m], .inr ⟨fun hun => hun o (hs.lt_made (hs.holds k o ho)) rfl, m, rfl, hm⟩, ?_⟩
        rw [ht, Function.update_self]
      · refine .of_eq ?_
        rw [ht, Function.update_of_ne (Ne.symm hc)]

/-! ### Acknowledgements -/

theorem lookUp_isAck {m m' : Message} (hp : ((s.lookUp c m).task c).phase = .replying m') :
    m'.isAck = true := by
  have hset : ∀ {s₁ : Server} {phase : Phase}, ((s₁.setPhase c phase).task c).phase = phase := by
    intro s₁ phase
    rw [setPhase, setTask_task, Function.update_self]
  unfold Server.lookUp at hp
  split at hp
  · cases hset.symm.trans hp
  · split at hp
    · cases hset.symm.trans hp
    · split_ifs at hp
      · cases hset.symm.trans hp
        rfl
      · cases hset.symm.trans hp

/-- A task that turns to reply replies with an acknowledgement. -/
theorem replying_isAck {m : Message} (h : s.step e = some s') (ha : e.actor = some c)
    (hp : (s'.task c).phase = .replying m) : m.isAck = true := by
  rcases (task_step h ha).replying hp with ⟨c', rfl⟩ | ⟨c', rfl⟩
  · obtain rfl : c' = c := Option.some_inj.1 ha
    unfold Server.step at h
    dsimp only at h
    split at h
    next m₀ _ =>
      obtain rfl := Option.some_inj.1 h
      unfold Server.handleDaemonMessage at hp
      split at hp
      case h_1 id md =>
        split_ifs at hp
        · rw [setPhase, setTask_task, Function.update_self] at hp
          cases hp
          rfl
        · rw [setTask_task, Function.update_self] at hp
          cases hp
          rfl
      case h_14 =>
        rw [setPhase, setTask_task, Function.update_self] at hp
        cases hp
      all_goals exact lookUp_isAck hp
    next => cases h
  · obtain rfl : c' = c := Option.some_inj.1 ha
    unfold Server.step at h
    dsimp only at h
    split at h
    next m₀ o _ =>
      obtain rfl := Option.some_inj.1 h
      rw [routed_task, Function.update_self] at hp
      dsimp only at hp
      split_ifs at hp
      cases hp
      rfl
    next => cases h

/-! ### Connections that nothing leads to yet -/

theorem Unrouted.step (hun : s.Unrouted c) (h : s.step e = some s')
    (hne : ∀ id md, e = .handle c → (s.task c).phase = .handling (.register id md) → id = "") :
    s'.Unrouted c := by
  have hold : ∀ o, o < s.made → (s'.conn o).requestTx ≠ c := fun o ho heq =>
    hun o ho ((conn_same h ho).requestTx.symm.trans heq)
  cases entry_step h with
  | same _ hmade => exact fun o ho => hold o (hmade ▸ ho)
  | removed _ _ hmade => exact fun o ho => hold o (hmade ▸ ho)
  | @registered c₁ id md _ hp hid hs' =>
    rw [handleDaemonMessage_register hid] at hs'
    have hmade : s'.made = s.made + 1 := hs' ▸ register_made
    have hnew : (s'.conn s.made).requestTx = c₁ := hs' ▸ (register_new (s := s) id md).requestTx
    intro o ho
    rcases Nat.lt_succ_iff_lt_or_eq.1 (hmade ▸ ho) with ho | rfl
    · exact hold o ho
    · intro heq
      obtain rfl : c₁ = c := hnew.symm.trans heq
      exact hid (hne id md rfl hp)

/-- A connection that the server has not accepted yet: nothing is on its way to the daemon. -/
structure Fresh (s : Server) (c : TaskId) : Prop where
  outbound : (s.task c).outbound = []
  requests : (s.task c).requests = []
  unrouted : s.Unrouted c

theorem Fresh.initial : Server.initial.Fresh c where
  outbound := rfl
  requests := rfl
  unrouted o ho := absurd ho (Nat.not_lt_zero o)

theorem fresh_step (hs : s.Linked) (hf : (s.task c).phase = .absent → s.Fresh c)
    (h : s.step e = some s') (hp : (s'.task c).phase = .absent) : s'.Fresh c := by
  have ha : e.actor ≠ some c := fun ha => (task_step h ha).ne_absent hp
  have hk := task_kept h ha
  have hf := hf (hk.kept.phase ▸ hp)
  refine ⟨List.suffix_nil.1 (hf.outbound ▸ hk.kept.outbound), ?_,
    hf.unrouted.step h fun id md he => absurd (he ▸ rfl) ha⟩
  rcases hk.requests with hreq | ⟨k, rfl⟩
  · rw [hreq, hf.requests]
  · cases proceed_queues h with
    | nothing ht => rw [ht, hf.requests]
    | @one o m ho hm ht =>
      have hne := hf.unrouted o (hs.lt_made (hs.holds k o ho))
      rw [ht, Function.update_of_ne hne.symm, hf.requests]

end Server

namespace System

variable {y y' : System} {c : TaskId} {e : SystemEvent}

/-! ### A connection and a step of the system -/

/-- What the daemon reads from a connection with an event, when it is in the given session. -/
def reads (y : System) (session : Session) (c : TaskId) : SystemEvent → List Message
  | .read => if y.daemon.session = session then (y.server.task c).outbound.take 1 else []
  | _ => []

/-- The socket of the connection stays up with an event. -/
def staysUp (y : System) (c : TaskId) : SystemEvent → Bool
  | .server (.write c' ok) => decide (c' ≠ c) || ok
  | .server (.arrive c' _) => decide (c' ≠ c)
  | .server (.endStream c') => decide (c' ≠ c)
  | .hangUp _ => decide (y.daemon.session.conn ≠ some c)
  | _ => true

/-- What the daemon sends on a connection: one message, when it serves it. -/
def Sent (y : System) (c : TaskId) (fs : List Frame) : Prop :=
  fs = [] ∨ y.daemon.session = .serving c ∧ ∃ m, fs = [.text (some m)]

/-- What a step of the system does to a connection that the daemon has made. -/
inductive Flow (y : System) (c : TaskId) (e : SystemEvent) (y' : System) : Prop
  /-- a step of its task -/
  | own {e' : Event} (he : e = .server e') (ha : e'.actor = some c) (hd : y'.daemon = y.daemon)
      (h : y.server.step e' = some y'.server)
  /-- its channels are fed -/
  | fed {fs : List Frame} {ms : List Message} (he : ∀ e', e = .server e' → e'.actor ≠ some c)
      (hread : ∀ session : Session, session.conn = some c → y.reads session c e = [])
      (hfs : y.Sent c fs) (hms : y.server.Posted c ms)
      (ht : y'.server.task c = { y.server.task c with
        inbound := (y.server.task c).inbound ++ fs
        requests := (y.server.task c).requests ++ ms })
      (hd : y'.daemon.session = y.daemon.session ∨
        y.daemon.session.conn ≠ some c ∧ y'.daemon.session.conn ≠ some c)
  /-- the daemon reads from it -/
  | read {m : Message} {rest : List Message} {fs : List Frame} (he : e = .read)
      (hconn : y.daemon.session.conn = some c) (hout : (y.server.task c).outbound = m :: rest)
      (hfs : y.Sent c fs) (ht : y'.server.task c = { y.server.task c with
        inbound := (y.server.task c).inbound ++ fs
        outbound := rest })
      (hd : y'.daemon = (y.daemon.receive m).1)
  /-- a message reaches a daemon that has given it up -/
  | lost (hconn : y.daemon.session.conn ≠ some c) (hout : (y.server.task c).outbound ≠ [])

theorem send_task {m : Message} {c' : TaskId} (h : y.send c' m = some y') :
    y'.daemon = y.daemon ∧ y'.server.task c = if c' = c then { y.server.task c with
      inbound := (y.server.task c).inbound ++ [.text (some m)] } else y.server.task c := by
  obtain ⟨s, hs, rfl⟩ := Option.map_eq_some_iff.1 h
  refine ⟨rfl, ?_⟩
  change (if _ then _ else _) = some s at hs
  split_ifs at hs
  obtain rfl := Option.some_inj.1 hs
  rw [Server.setTask_task, Function.update_apply]
  split_ifs with hc hc' hc'
  · rw [hc]
  · exact absurd hc.symm hc'
  · exact absurd hc'.symm hc
  · rfl

theorem flow_server (hs : y.server.Linked) {e : Event} (h : y.step (.server e) = some y')
    (hup : y.staysUp c (.server e) = true) : Flow y c (.server e) y' := by
  have hleaves : y.daemon.leaves e = true := by
    unfold System.step at h
    dsimp only at h
    split_ifs at h with hleaves
    exact hleaves
  obtain ⟨hd, h⟩ := server_step h
  by_cases ha : e.actor = some c
  · exact .own rfl ha hd h
  by_cases hdel : e = .deliver c
  · subst hdel
    refine .lost (of_decide_eq_true hleaves) fun hout => ?_
    rw [Server.step, hout] at h
    cases h
  · obtain ⟨ms, hms, ht⟩ := Server.task_fed hs h ha
      (by rintro f rfl; exact of_decide_eq_true hup rfl)
      (by rintro rfl; exact of_decide_eq_true hup rfl) hdel
    refine .fed ?_ (fun _ _ => rfl) (.inl rfl) hms (by rw [ht, List.append_nil]) (.inl (by rw [hd]))
    rintro e' he
    cases he
    exact ha

/-- Nothing happens to the connection. -/
theorem Flow.of_eq (he : ∀ e', e ≠ .server e')
    (hread : ∀ session : Session, session.conn = some c → y.reads session c e = [])
    (ht : y'.server.task c = y.server.task c)
    (hd : y'.daemon.session = y.daemon.session ∨
      y.daemon.session.conn ≠ some c ∧ y'.daemon.session.conn ≠ some c) : Flow y c e y' :=
  .fed (fun e' h => absurd h (he e')) hread (.inl rfl) (.inl rfl)
    (by rw [ht, List.append_nil, List.append_nil]) hd

/-- The daemon sends something of its own. -/
theorem flow_send {c' : TaskId} {m : Message} (he : ∀ e', e ≠ .server e')
    (hread : ∀ session, y.reads session c e = []) (hses : y.daemon.session = .serving c')
    (h : y.send c' m = some y') : Flow y c e y' := by
  obtain ⟨hd, ht⟩ := send_task (c := c) h
  split_ifs at ht with hc
  · subst hc
    exact .fed (fun e' h => absurd h (he e')) (fun _ _ => hread _) (.inr ⟨hses, m, rfl⟩) (.inl rfl)
      (by rw [ht, List.append_nil]) (.inl (by rw [hd]))
  · exact .of_eq he (fun _ _ => hread _) ht (.inl (by rw [hd]))

theorem receive_session (d : Daemon) (m : Message) :
    (d.receive m).1.session.conn = d.session.conn ∨ (d.receive m).1.session = .none := by
  unfold Daemon.receive
  split
  · exact .inr rfl
  next c hses _ => exact .inl (by rw [hses]; rfl)
  · exact .inl rfl
  · exact .inl rfl

/-- What the daemon sends by itself when it reads a message, it sends in its loop. -/
theorem receive_sends {d d' : Daemon} {m m' : Message} (h : d.receive m = (d', some m')) :
    d' = d ∧ ∃ c, d.session = .serving c := by
  unfold Daemon.receive at h
  split at h
  · cases h
  · cases h
  next c _ hses => exact ⟨(congrArg Prod.fst h).symm, c, hses⟩
  · cases h

theorem flow_read (h : y.step .read = some y') : Flow y c .read y' := by
  unfold System.step at h
  dsimp only at h
  split at h
  next c' hc' =>
    split at h
    next m rest hout =>
      obtain ⟨s, hs, h⟩ := Option.bind_eq_some_iff.1 h
      rw [Server.step, hout] at hs
      obtain rfl := Option.some_inj.1 hs
      have hy' : ∃ fs, y.Sent c' fs ∧ y'.daemon = (y.daemon.receive m).1 ∧
          y'.server.task c = if c' = c then { y.server.task c with
            inbound := (y.server.task c).inbound ++ fs
            outbound := rest } else y.server.task c := by
        have htask : ∀ t, Function.update y.server.task c' t c =
            if c' = c then t else y.server.task c := by
          intro t
          rw [Function.update_apply]
          simp only [eq_comm]
        split at h
        next d m' hrec =>
          obtain ⟨hd, ht⟩ := send_task (c := c) h
          obtain ⟨rfl, c₁, hses⟩ := receive_sends hrec
          rw [hses] at hc'
          obtain rfl := Option.some_inj.1 hc'
          refine ⟨_, .inr ⟨hses, m', rfl⟩, hd.trans (by rw [hrec]), ht.trans ?_⟩
          dsimp only
          rw [Server.setTask_task, htask]
          split_ifs with hc
          · rw [hc]
          · rfl
        next d hrec =>
          obtain rfl := Option.some_inj.1 h
          refine ⟨[], .inl rfl, by rw [hrec], ?_⟩
          dsimp only
          rw [Server.setTask_task, htask]
          split_ifs with hc
          · rw [hc, List.append_nil]
          · rfl
      obtain ⟨fs, hfs, hd, ht⟩ := hy'
      split_ifs at ht with hc
      · subst hc
        exact .read rfl hc' hout hfs ht hd
      · have hne : y.daemon.session.conn ≠ some c := fun heq =>
          hc (Option.some_inj.1 (hc'.symm.trans heq))
        refine .of_eq (by simp) (fun session hses => if_neg ?_) ht (.inr ⟨hne, ?_⟩)
        · rintro rfl
          exact hne hses
        · rw [hd]
          rcases receive_session y.daemon m with heq | heq <;> rw [heq]
          · exact hne
          · simp [Session.conn]
    next => cases h
  next => cases h

/-- **What a step of the system does to a connection that the daemon has made.** -/
theorem flow_step (hs : y.server.Linked) (hdialed : c ∈ y.daemon.dialed)
    (h : y.step e = some y') (hup : y.staysUp c e = true) : Flow y c e y' := by
  cases e with
  | server e => exact flow_server hs h hup
  | dial c' =>
    unfold System.step at h
    dsimp only at h
    split_ifs at h with hdial
    have hne : c' ≠ c := fun hc => hdial.2.1 (hc ▸ hdialed)
    obtain ⟨hd, ht⟩ := send_task (c := c) h
    rw [if_neg hne] at ht
    refine .of_eq (by simp) (fun _ _ => rfl) ht (.inr ⟨?_, ?_⟩)
    · rw [hdial.1]
      simp [Session.conn]
    · rw [hd]
      exact fun heq => hne (Option.some_inj.1 heq)
  | read => exact flow_read h
  | beat =>
    unfold System.step at h
    dsimp only at h
    split at h
    next c' hses => exact flow_send (by simp) (fun _ => rfl) hses h
    next => cases h
  | emit m =>
    unfold System.step at h
    dsimp only at h
    split at h
    · cases h
    · cases h
    next c' m hses _ _ => exact flow_send (by simp) (fun _ => rfl) hses h
    · cases h
  | hangUp shutdown =>
    have hne : y.daemon.session.conn ≠ some c := of_decide_eq_true hup
    unfold System.step at h
    dsimp only at h
    split at h
    next c' hc' =>
      have hc : c' ≠ c := fun hc => hne (hc ▸ hc')
      split_ifs at h
      · obtain ⟨s, hs, rfl⟩ := Option.map_eq_some_iff.1 h
        change (if _ then _ else _) = some s at hs
        split_ifs at hs
        obtain rfl := Option.some_inj.1 hs
        refine .of_eq (by simp) (fun _ _ => rfl) ?_ (.inr ⟨hne, by simp [Session.conn]⟩)
        rw [Server.setTask_task, Function.update_of_ne hc.symm]
      · obtain rfl := Option.some_inj.1 h
        exact .of_eq (by simp) (fun _ _ => rfl) rfl (.inr ⟨hne, by simp [Session.conn]⟩)
    next => cases h

/-- Nothing leads to the connection after a step, unless its task registers it. -/
theorem unrouted_step (hun : y.server.Unrouted c) (h : y.step e = some y')
    (hne : ∀ id md, e = .server (.handle c) →
      (y.server.task c).phase = .handling (.register id md) → id = "") :
    y'.server.Unrouted c := by
  by_cases he : ∃ e', e = .server e'
  · obtain ⟨e', rfl⟩ := he
    exact hun.step (server_step h).2 fun id md he' => hne id md (he' ▸ rfl)
  · obtain ⟨-, es, hrun, hes⟩ := daemon_step h fun e' he' => he ⟨e', he'⟩
    refine run_invariant_along (I := fun s => s.Unrouted c)
      (P := fun _ e => (∃ c f, e = .arrive c f) ∨ ∃ c, e = .deliver c) ?_ hrun
      (.of_forall fun e' he' _ => hes e' he') hun
    intro s e s' hun he h
    refine hun.step h fun id md he' => ?_
    rcases he with ⟨c, f, rfl⟩ | ⟨c, rfl⟩ <;> cases he'

/-- The daemon keeps its registration, and the connections it has made. -/
theorem daemon_kept (h : y.step e = some y') :
    y'.daemon.register = y.daemon.register ∧ y.daemon.dialed ⊆ y'.daemon.dialed := by
  have hsend : ∀ {y₁ : System} {c m}, y₁.send c m = some y' → y'.daemon = y₁.daemon := by
    intro y₁ c m h
    obtain ⟨s, -, rfl⟩ := Option.map_eq_some_iff.1 h
    rfl
  have hof : y'.daemon = y.daemon →
      y'.daemon.register = y.daemon.register ∧ y.daemon.dialed ⊆ y'.daemon.dialed :=
    fun hd => hd ▸ ⟨rfl, List.Subset.refl _⟩
  cases e with
  | server e => exact hof (server_step h).1
  | dial c =>
    unfold System.step at h
    dsimp only at h
    split_ifs at h
    rw [hsend h]
    exact ⟨rfl, List.subset_cons_self _ _⟩
  | read =>
    unfold System.step at h
    dsimp only at h
    split at h
    next =>
      split at h
      next m _ _ =>
        obtain ⟨s, -, h⟩ := Option.bind_eq_some_iff.1 h
        have hrec : (y.daemon.receive m).1.register = y.daemon.register ∧
            y.daemon.dialed ⊆ (y.daemon.receive m).1.dialed := by
          unfold Daemon.receive
          split <;> exact ⟨rfl, List.Subset.refl _⟩
        split at h
        next heq =>
          rw [hsend h]
          rwa [heq] at hrec
        next heq =>
          obtain rfl := Option.some_inj.1 h
          rwa [heq] at hrec
      next => cases h
    next => cases h
  | beat =>
    unfold System.step at h
    dsimp only at h
    split at h
    · exact hof (hsend h)
    · cases h
  | emit m =>
    unfold System.step at h
    dsimp only at h
    split at h
    · cases h
    · cases h
    · exact hof (hsend h)
    · cases h
  | hangUp shutdown =>
    unfold System.step at h
    dsimp only at h
    split at h
    · split_ifs at h
      · obtain ⟨s, -, rfl⟩ := Option.map_eq_some_iff.1 h
        exact ⟨rfl, List.Subset.refl _⟩
      · obtain rfl := Option.some_inj.1 h
        exact ⟨rfl, List.Subset.refl _⟩
    · cases h

end System

/-! ### From the registration to the first request -/

/-- In its loop the daemon stays on its connection, whatever it reads. -/
theorem receive_serving {d : Daemon} {c : TaskId} {m : Message} (h : d.session = .serving c) :
    (d.receive m).1.session = d.session := by
  unfold Daemon.receive
  split
  next hses => cases h.symm.trans hses
  next hses _ => cases h.symm.trans hses
  · rfl
  · rfl

/-- Where a connection can be while nothing leads to it. -/
inductive Opening (d : Daemon) (c : TaskId) (handshake : List Message) (t : Task) : Prop
  /-- the registration is on its way -/
  | sent (hses : d.session = .registering c) (hhand : handshake = [])
      (hp : t.phase = .absent ∨ t.phase = .select true)
      (hin : t.inbound = [.text (some d.register)]) (hout : t.outbound = [])
  /-- it is there -/
  | handling (hses : d.session = .registering c) (hhand : handshake = [])
      (hp : t.phase = .handling d.register) (hin : t.inbound = []) (hout : t.outbound = [])
  /-- it was refused -/
  | refusing {text : String} (hses : d.session = .registering c) (hhand : handshake = [])
      (hp : t.phase = .replying (.registerAck false text)) (hin : t.inbound = [])
      (hout : t.outbound = [])
  | refused {text : String} {b : Bool} (hses : d.session = .registering c) (hhand : handshake = [])
      (hp : t.phase = .select b) (hin : t.inbound = [])
      (hout : t.outbound = [.registerAck false text])
  /-- the daemon knows, and has given the connection up -/
  | told {text : String} {b : Bool} (hses : d.session.conn ≠ some c)
      (hhand : handshake = [.registerAck false text]) (hp : t.phase = .select b)
      (hin : t.inbound = []) (hout : t.outbound = [])

namespace Opening

variable {d d' : Daemon} {c : TaskId} {handshake : List Message} {t t' : Task}

/-- A step of the task, other than handling the registration. -/
theorem own (h : Opening d c handshake t) (hreq : t.requests = []) {e : Event}
    (hs : TaskStep t e t') (hend : t.AtEnd) (hok : ∀ c' ok, e = .write c' ok → ok = true)
    (hne : t.phase ≠ .handling d.register) : t'.requests = [] ∧ Opening d c handshake t' := by
  -- while the task waits there is nothing to take, and it owns its sender
  have hidle : ∀ {b : Bool}, t.phase = .select b → t.inbound = [] →
      ∃ b, t' = { t with sawEnd := t'.sawEnd, phase := .select b } := by
    intro b hp hin
    cases hs with
    | none hp' hin' hend' => exact ⟨false, rfl⟩
    | message hp' hin' | skip hp' hin' | close hp' hin' => cases hin.symm.trans hin'
    | recv hp' hreq' => cases hreq.symm.trans hreq'
    | orElse hp' hreq' hown =>
      have := hend.owns (by simp [hp]) (by simp [hp])
      cases hown.symm.trans this
    | accept hp' | handle hp' | route hp' | replied hp' | sent hp' | cleanUp hp' | finish hp' =>
      cases hp.symm.trans hp'
  cases h with
  | sent hses hhand hp hin hout =>
    cases hs with
    | accept hp' => exact ⟨hreq, .sent hses hhand (.inr rfl) hin hout⟩
    | @message _ m rest hp' hin' =>
      obtain ⟨hm, rfl⟩ := List.cons_eq_cons.1 (hin'.symm.trans hin)
      cases hm
      exact ⟨hreq, .handling hses hhand rfl rfl hout⟩
    | @skip _ f rest hp' hin' hf =>
      rw [(List.cons_eq_cons.1 (hin'.symm.trans hin)).1] at hf
      rcases hf with hf | hf <;> cases hf
    | @close _ f rest ending hp' hin' hf =>
      rw [(List.cons_eq_cons.1 (hin'.symm.trans hin)).1] at hf
      rcases hf with ⟨hf, -⟩ | ⟨hf, -⟩ <;> cases hf
    | none hp' hin' => cases hin.symm.trans hin'
    | recv hp' hreq' => cases hreq.symm.trans hreq'
    | orElse hp' | handle hp' | route hp' | replied hp' | sent hp' | cleanUp hp' | finish hp' =>
      rcases hp with hp | hp <;> cases hp.symm.trans hp'
  | handling hses hhand hp hin hout => exact absurd hp hne
  | @refusing text hses hhand hp hin hout =>
    cases hs with
    | @replied _ m ok hp' =>
      obtain rfl := hok _ _ rfl
      cases hp.symm.trans hp'
      refine ⟨hreq, .refused hses hhand rfl hin (?_ : _ = [Message.registerAck false text])⟩
      rw [if_pos rfl, hout]
      rfl
    | accept hp' | message hp' | skip hp' | close hp' | none hp' | handle hp' | route hp' | recv hp'
    | orElse hp' | sent hp' | cleanUp hp' | finish hp' => cases hp.symm.trans hp'
  | refused hses hhand hp hin hout =>
    obtain ⟨b, ht⟩ := hidle hp hin
    rw [ht]
    exact ⟨hreq, .refused hses hhand rfl hin hout⟩
  | told hses hhand hp hin hout =>
    obtain ⟨b, ht⟩ := hidle hp hin
    rw [ht]
    exact ⟨hreq, .told hses hhand rfl hin hout⟩

/-- The daemon is where it was, as far as the connection goes. -/
theorem kept (h : Opening d c handshake t) (hreg : d'.register = d.register)
    (hd : d'.session = d.session ∨ d.session.conn ≠ some c ∧ d'.session.conn ≠ some c) :
    Opening d' c handshake t := by
  have hses : ∀ {session : Session}, session.conn = some c → d.session = session →
      d'.session = session := by
    rintro session hconn rfl
    exact hd.resolve_right fun hd => hd.1 hconn
  cases h with
  | sent h₁ hhand hp hin hout =>
    exact .sent (hses rfl h₁) hhand hp (hreg ▸ hin) hout
  | handling h₁ hhand hp hin hout =>
    exact .handling (hses rfl h₁) hhand (hreg ▸ hp) hin hout
  | refusing h₁ hhand hp hin hout => exact .refusing (hses rfl h₁) hhand hp hin hout
  | refused h₁ hhand hp hin hout => exact .refused (hses rfl h₁) hhand hp hin hout
  | told h₁ hhand hp hin hout =>
    refine .told ?_ hhand hp hin hout
    rcases hd with hd | hd
    · rwa [hd]
    · exact hd.2

end Opening

/-- A connection that was registered: the acknowledgement is in front of everything that the daemon
reads, and no request is lost. -/
structure Greeted (d : Daemon) (c : TaskId) (handshake served queued : List Message) (t : Task) :
    Prop where
  session : d.session = .registering c ∧ handshake = [] ∧ served = [] ∨
    d.session = .serving c ∧ ∃ text, handshake = [.registerAck true text]
  first : ∃ text rest,
    handshake ++ (served ++ (t.outbound ++ t.phase.inWriting)) = .registerAck true text :: rest
  queued : requestsOf (served ++ t.outgoing) = queued
  inside : t.phase.isOut = false
  accepted : t.phase ≠ .absent
  frames : ∀ f ∈ t.inbound, ∃ m, f = .text (some m)

namespace Greeted

variable {d d' : Daemon} {c : TaskId} {handshake served queued : List Message} {t t' : Task}

/-- What moves on the way to the daemon keeps its place. -/
theorem moved (h : Greeted d c handshake served queued t) (ms : List Message)
    (hpath : t'.outbound ++ t'.phase.inWriting = t.outbound ++ t.phase.inWriting ++ ms)
    (hreq : requestsOf (ms ++ t'.requests) = requestsOf t.requests)
    (hinside : t'.phase.isOut = false) (haccepted : t'.phase ≠ .absent)
    (hframes : t'.inbound <:+ t.inbound) : Greeted d c handshake served queued t' where
  session := h.session
  first := by
    obtain ⟨text, rest, hfirst⟩ := h.first
    refine ⟨text, rest ++ ms, ?_⟩
    rw [hpath, ← List.append_assoc served, ← List.append_assoc handshake, hfirst, List.cons_append]
  queued := by
    have hreq' := hreq
    rw [requestsOf_append] at hreq'
    rw [← h.queued, Task.outgoing, hpath, Task.outgoing]
    simp only [requestsOf_append, List.append_assoc, hreq']
  inside := hinside
  accepted := haccepted
  frames f hf := h.frames f (hframes.subset hf)

/-- A step of the task. -/
theorem own (h : Greeted d c handshake served queued t) {e : Event} (hs : TaskStep t e t')
    (hend : t.AtEnd)
    (hack : ∀ m, t'.phase = .replying m → m.isAck = true)
    (hok : ∀ c' ok, e = .write c' ok → ok = true) : Greeted d c handshake served queued t' := by
  have hin := h.inside
  cases hs with
  | accept hp => exact absurd hp h.accepted
  | message hp hin' =>
    exact h.moved [] (by rw [hp, List.append_nil]; rfl) rfl rfl (by simp)
      (hin' ▸ List.suffix_cons _ _)
  | @skip _ f rest hp hin' hf =>
    obtain ⟨m, rfl⟩ := h.frames f (hin' ▸ List.mem_cons_self)
    rcases hf with hf | hf <;> cases hf
  | @close _ f rest ending hp hin' hf =>
    obtain ⟨m, rfl⟩ := h.frames f (hin' ▸ List.mem_cons_self)
    rcases hf with ⟨hf, -⟩ | ⟨hf, -⟩ <;> cases hf
  | none hp hin' hend =>
    exact h.moved [] (by rw [hp, List.append_nil]; rfl) rfl rfl (by simp) List.suffix_rfl
  | @handle _ m phase id hp hphase hid =>
    rcases hphase with rfl | ⟨o, rfl⟩ | ⟨m', rfl, -⟩
    · exact h.moved [] (by rw [hp, List.append_nil]; rfl) rfl rfl (by simp) List.suffix_rfl
    · exact h.moved [] (by rw [hp, List.append_nil]; rfl) rfl rfl (by simp) List.suffix_rfl
    · have hm' : m'.isAck = true := hack m' rfl
      exact h.moved [m'] (by rw [hp]; simp only [Phase.inWriting, List.append_nil])
        (by rw [requestsOf_append, requestsOf_ack hm', List.nil_append]) rfl (by simp)
        List.suffix_rfl
  | @route _ m o phase hp hphase =>
    rcases hphase with rfl | ⟨m', rfl, -⟩
    · exact h.moved [] (by rw [hp, List.append_nil]; rfl) rfl rfl (by simp) List.suffix_rfl
    · have hm' : m'.isAck = true := hack m' rfl
      exact h.moved [m'] (by rw [hp]; simp only [Phase.inWriting, List.append_nil])
        (by rw [requestsOf_append, requestsOf_ack hm', List.nil_append]) rfl (by simp)
        List.suffix_rfl
  | @recv _ b m rest hp hreq =>
    exact h.moved [m] (by rw [hp]; simp only [Phase.inWriting, List.append_nil])
      (by rw [hreq]; rfl) rfl (by simp) List.suffix_rfl
  | orElse hp hreq hown =>
    have := hend.owns (by simp [hp]) (by simp [hp])
    rw [hown] at this
    cases this
  | @replied _ m ok hp =>
    obtain rfl := hok _ _ rfl
    exact h.moved [] (by rw [hp, List.append_nil]; simp [Phase.inWriting]) rfl rfl (by simp)
      List.suffix_rfl
  | @sent _ m ok hp =>
    obtain rfl := hok _ _ rfl
    exact h.moved [] (by rw [hp, List.append_nil]; simp [Phase.inWriting]) rfl rfl (by simp)
      List.suffix_rfl
  | cleanUp hp =>
    rw [hp] at hin
    cases hin
  | finish hp =>
    rw [hp] at hin
    cases hin

/-- Its channels are fed. -/
theorem fed (h : Greeted d c handshake served queued t) {fs : List Frame} {ms : List Message}
    (hfs : ∀ f ∈ fs, ∃ m, f = .text (some m)) (hms : requestsOf ms = ms)
    (ht : t' = { t with inbound := t.inbound ++ fs, requests := t.requests ++ ms })
    (hd : d'.session = d.session) : Greeted d' c handshake served (queued ++ ms) t' := by
  subst ht
  refine ⟨hd ▸ h.session, h.first, ?_, h.inside, h.accepted, fun f hf => ?_⟩
  · rw [← h.queued, Task.outgoing, Task.outgoing, ← List.append_assoc _ t.requests,
      ← List.append_assoc served, requestsOf_append, hms]
  · rcases List.mem_append.1 hf with hf | hf
    · exact h.frames f hf
    · exact hfs f hf

/-- The daemon reads the next message. -/
theorem read (h : Greeted d c handshake served queued t) {m : Message} {rest : List Message}
    {fs : List Frame} (hout : t.outbound = m :: rest) (hfs : ∀ f ∈ fs, ∃ m, f = .text (some m))
    (ht : t' = { t with inbound := t.inbound ++ fs, outbound := rest }) :
    Greeted (d.receive m).1 c (handshake ++ if d.session = .registering c then [m] else [])
      (served ++ if d.session = .serving c then [m] else []) queued t' := by
  obtain ⟨text, ahead, hfirst⟩ := h.first
  have hframes : ∀ f ∈ t'.inbound, ∃ m, f = .text (some m) := by
    intro f hf
    rw [ht] at hf
    rcases List.mem_append.1 hf with hf | hf
    · exact h.frames f hf
    · exact hfs f hf
  have hqueued := h.queued
  rw [Task.outgoing, hout] at hqueued
  rcases h.session with ⟨hses, rfl, rfl⟩ | ⟨hses, text', rfl⟩
  · rw [hout] at hfirst
    obtain rfl : m = .registerAck true text := List.head_eq_of_cons_eq hfirst
    have hrec : (d.receive (.registerAck true text)).1.session = .serving c := by
      unfold Daemon.receive
      rw [hses]
    rw [if_pos hses, if_neg (by simp [hses]), List.nil_append, List.append_nil]
    subst ht
    refine ⟨.inr ⟨hrec, text, rfl⟩, ⟨text, _, rfl⟩, ?_, h.inside, h.accepted, hframes⟩
    exact hqueued
  · have hrec : (d.receive m).1.session = .serving c := by
      rw [receive_serving hses, hses]
    rw [if_neg (by simp [hses]), if_pos hses, List.append_nil]
    subst ht
    refine ⟨.inr ⟨hrec, text', rfl⟩, ⟨text', _, rfl⟩, ?_, h.inside, h.accepted, hframes⟩
    rw [← hqueued, Task.outgoing]
    simp only [List.append_assoc, List.cons_append, List.nil_append]

end Greeted

/-- A system, and what has become of the messages of a connection. -/
structure Watch where
  system : System
  /-- what the daemon has read while it waited for the acknowledgement of its registration -/
  handshake : List Message
  /-- what it has read in its loop -/
  served : List Message
  /-- what callers have put into the channel of requests -/
  queued : List Message

namespace Watch

variable {w w' : Watch} {c : TaskId} {e : SystemEvent} {es : List SystemEvent}

/-- Nothing has happened yet. -/
def start (y : System) : Watch := ⟨y, [], [], []⟩

/-- The task of the connection. -/
def task (w : Watch) (c : TaskId) : Task := w.system.server.task c

/-- One event. -/
def step (c : TaskId) (w : Watch) (e : SystemEvent) : Option Watch :=
  (w.system.step e).map fun y =>
    { system := y
      handshake := w.handshake ++ w.system.reads (.registering c) c e
      served := w.served ++ w.system.reads (.serving c) c e
      queued := w.queued ++ (y.server.task c).requests.drop (w.task c).requests.length }

/-- What is so in every state after the daemon has registered. -/
structure Watched (c : TaskId) (w : Watch) : Prop where
  linked : w.system.server.Linked
  atEnd : (w.task c).AtEnd
  dialed : c ∈ w.system.daemon.dialed
  up : (w.task c).ended = false
  stage : (w.system.server.Unrouted c ∧ (w.task c).requests = [] ∧ w.served = [] ∧ w.queued = [] ∧
      Opening w.system.daemon c w.handshake (w.task c)) ∨
    Greeted w.system.daemon c w.handshake w.served w.queued (w.task c)

/-- A step of the task, while nothing leads to the connection. -/
theorem opening_own {s s' : Server} {d : Daemon} {handshake : List Message} {e : Event}
    (hun : s.Unrouted c) (hreq : (s.task c).requests = []) (hend : (s.task c).AtEnd)
    (hop : Opening d c handshake (s.task c)) (h : s.step e = some s') (ha : e.actor = some c)
    (hok : ∀ c' ok, e = .write c' ok → ok = true) :
    (s'.Unrouted c ∧ (s'.task c).requests = [] ∧ Opening d c handshake (s'.task c)) ∨
      Greeted d c handshake [] [] (s'.task c) := by
  by_cases hp : (s.task c).phase = .handling d.register
  · obtain ⟨c', rfl⟩ := (Server.task_step h ha).of_handling hp
    obtain rfl : c' = c := Option.some_inj.1 ha
    have hpos : d.session = .registering c' ∧ handshake = [] ∧ (s.task c').inbound = [] ∧
        (s.task c').outbound = [] := by
      cases hop with
      | handling hses hhand _ hin hout => exact ⟨hses, hhand, hin, hout⟩
      | sent _ _ hp' => rcases hp' with hp' | hp' <;> cases hp.symm.trans hp'
      | refusing _ _ hp' | refused _ _ hp' | told _ _ hp' => cases hp.symm.trans hp'
    obtain ⟨hses, rfl, hin, hout⟩ := hpos
    have hs' := Server.handle_eq hp h
    by_cases hid : d.id = ""
    · rw [Daemon.register, Server.handleDaemonMessage, if_pos hid, Server.setPhase] at hs'
      have ht : s'.task c' = { s.task c' with
          phase := .replying (.registerAck false "no daemon id") } := by
        rw [hs', Server.setTask_task, Function.update_self]
      refine .inl ⟨hun.step h fun id md _ hp' => ?_, ?_, ?_⟩
      · cases hp.symm.trans hp'
        exact hid
      · rw [ht]
        exact hreq
      · rw [ht]
        exact .refusing hses rfl rfl hin hout
    · rw [Daemon.register, Server.handleDaemonMessage_register hid] at hs'
      have ht : s'.task c' = { s.task c' with
          daemonId := some d.id
          phase := .replying (.registerAck true "Successfully registered") } := by
        rw [hs', Server.setTask_task, Function.update_self]
      rw [ht]
      refine .inr
        ⟨.inl ⟨hses, rfl, rfl⟩, ⟨"Successfully registered", [], ?_⟩, ?_, rfl, (by simp), ?_⟩
      · simp [hout, Phase.inWriting]
      · simp [Task.outgoing, hout, hreq, Phase.inWriting, requestsOf, Message.isAck]
      · simp [hin]
  · refine .inl ?_
    obtain ⟨hreq', hop'⟩ := hop.own hreq (Server.task_step h ha) hend hok hp
    refine ⟨hun.step h fun id md _ hp' => ?_, hreq', hop'⟩
    cases hop with
    | handling _ _ hp'' => exact absurd hp'' hp
    | sent _ _ hp'' => rcases hp'' with hp'' | hp'' <;> cases hp'.symm.trans hp''
    | refusing _ _ hp'' | refused _ _ hp'' | told _ _ hp'' => cases hp'.symm.trans hp''

/-- Nothing is on its way to a daemon that has given the connection up. -/
theorem Watched.outbound (h : w.Watched c) (hconn : w.system.daemon.session.conn ≠ some c) :
    (w.task c).outbound = [] := by
  rcases h.stage with ⟨-, -, -, -, hop⟩ | hgr
  · cases hop with
    | told _ _ _ _ hout' => exact hout'
    | sent hses | handling hses | refusing hses | refused hses =>
      exact absurd (by rw [hses]; rfl) hconn
  · rcases hgr.session with ⟨hses, -⟩ | ⟨hses, -⟩ <;> exact absurd (by rw [hses]; rfl) hconn

/-- The stream stays open. -/
theorem Watched.up_step {y : System} (h : w.Watched c) (hy : w.system.step e = some y)
    (hup : w.system.staysUp c e = true) : (y.server.task c).ended = false := by
  cases System.flow_step h.linked h.dialed hy hup with
  | own he ha hd hstep => exact (Server.task_step hstep ha).ended.trans h.up
  | fed he hread hfs hms ht => exact (congrArg Task.ended ht).trans h.up
  | read he hconn hout hfs ht => exact (congrArg Task.ended ht).trans h.up
  | lost hconn hout => exact absurd (h.outbound hconn) hout

theorem Watched.step (h : w.Watched c) (hs : w.step c e = some w')
    (hup : w.system.staysUp c e = true) : w'.Watched c := by
  obtain ⟨y, hy, rfl⟩ := Option.map_eq_some_iff.1 hs
  refine ⟨System.step_invariant (fun _ _ _ hs h => hs.step h) h.linked hy,
    System.step_invariant (I := fun s => (s.task c).AtEnd)
      (fun _ _ _ hs h => Server.atEnd_step h hs) h.atEnd hy,
    (System.daemon_kept hy).2 h.dialed, h.up_step hy hup, ?_⟩
  dsimp only [task]
  cases System.flow_step h.linked h.dialed hy hup with
  | @own e' he ha hd hstep =>
    subst he
    have hok : ∀ c' ok, e' = .write c' ok → ok = true := by
      rintro c' ok rfl
      obtain rfl : c' = c := Option.some_inj.1 ha
      simpa [System.staysUp] using hup
    have hdrop : (y.server.task c).requests.drop (w.system.server.task c).requests.length = [] :=
      List.drop_eq_nil_of_le (Server.task_step hstep ha).requests.length_le
    rw [hdrop, hd]
    simp only [System.reads, List.append_nil]
    rcases h.stage with ⟨hun, hreq, hserved, hqueued, hop⟩ | hgr
    · rcases opening_own hun hreq h.atEnd hop hstep ha hok with ⟨hun', hreq', hop'⟩ | hgr
      · exact .inl ⟨hun', hreq', hserved, hqueued, hop'⟩
      · exact .inr (hserved ▸ hqueued ▸ hgr)
    · exact .inr (hgr.own (Server.task_step hstep ha) h.atEnd
        (fun m hp => Server.replying_isAck hstep ha hp) hok)
  | @fed fs ms he hread hfs hms ht hd =>
    have hdrop : (y.server.task c).requests.drop (w.system.server.task c).requests.length = ms := by
      rw [ht]
      exact List.drop_left
    rw [hdrop, hread _ rfl, hread _ rfl, List.append_nil, List.append_nil]
    rcases h.stage with ⟨hun, hreq, hserved, hqueued, hop⟩ | hgr
    · obtain rfl : ms = [] := hms.resolve_right fun hms => hms.1 hun
      obtain rfl : fs = [] := hfs.resolve_right fun hfs => by
        cases hop with
        | told hses => exact hses (by rw [hfs.1]; rfl)
        | sent hses | handling hses | refusing hses | refused hses => cases hses.symm.trans hfs.1
      have ht : y.server.task c = w.task c := by rw [ht, List.append_nil, List.append_nil]; rfl
      rw [ht]
      refine .inl ⟨System.unrouted_step hun hy fun _ _ he' _ => absurd rfl (he _ he'), hreq,
        hserved, by rw [hqueued]; rfl, hop.kept (System.daemon_kept hy).1 hd⟩
    · refine .inr (hgr.fed ?_ ?_ ht ?_)
      · rcases hfs with rfl | ⟨-, m, rfl⟩
        · simp
        · exact fun f hf => ⟨m, List.mem_singleton.1 hf⟩
      · rcases hms with rfl | ⟨-, m, rfl, hm⟩
        · rfl
        · exact requestsOf_request hm
      · refine hd.resolve_right fun hd => ?_
        rcases hgr.session with ⟨hses, -⟩ | ⟨hses, -⟩ <;> exact hd.1 (by rw [hses]; rfl)
  | @read m rest fs he hconn hout hfs ht hd =>
    subst he
    have hdrop : (y.server.task c).requests.drop (w.system.server.task c).requests.length = [] := by
      rw [ht]
      exact List.drop_length
    have hreads : ∀ session, w.system.reads session c .read =
        if w.system.daemon.session = session then [m] else [] := by
      intro session
      rw [System.reads, hout]
      rfl
    rw [hdrop, List.append_nil, hreads, hreads, hd]
    rcases h.stage with ⟨hun, hreq, hserved, hqueued, hop⟩ | hgr
    · refine .inl ⟨System.unrouted_step hun hy (by simp), ?_, ?_, hqueued, ?_⟩
      · rw [ht]
        exact hreq
      · cases hop with
        | told hses => exact absurd hconn hses
        | sent hses | handling hses | refusing hses | refused hses =>
          rw [hserved, hses, if_neg (by simp)]
          rfl
      · cases hop with
        | told hses => exact absurd hconn hses
        | sent _ _ _ _ hout' | handling _ _ _ _ hout' | refusing _ _ _ _ hout' =>
          cases hout.symm.trans hout'
        | @refused text b hses hhand hp hin hout' =>
          obtain ⟨rfl, rfl⟩ := List.cons_eq_cons.1 (hout.symm.trans hout')
          obtain rfl : fs = [] := hfs.resolve_right fun hfs => by cases hses.symm.trans hfs.1
          rw [ht, hhand, if_pos hses]
          refine .told ?_ rfl hp (by rw [List.append_nil]; exact hin) rfl
          unfold Daemon.receive
          rw [hses]
          simp [Session.conn]
    · refine .inr (hgr.read hout ?_ ht)
      rcases hfs with rfl | ⟨-, m, rfl⟩
      · simp
      · exact fun f hf => ⟨m, List.mem_singleton.1 hf⟩
  | lost hconn hout => exact absurd (h.outbound hconn) hout

/-! ### The way to the daemon can be emptied -/

/-- How many steps the phase may still take to `select!`. -/
def phaseWork : Phase → ℕ
  | .handling _ => 4
  | .routing _ _ => 3
  | .replying _ => 2
  | .sending _ => 2
  | _ => 0

/-- How many steps there may be until the daemon has read everything. -/
def work (t : Task) : ℕ := t.outbound.length + 3 * t.requests.length + phaseWork t.phase

theorem work_handle {t t' : Task} (h : TaskStep t (.handle c) t') : work t' < work t := by
  cases h with
  | handle hp hphase hid =>
    rcases hphase with rfl | ⟨o, rfl⟩ | ⟨m, rfl, -⟩ <;> simp only [work, hp, phaseWork] <;> omega

theorem work_route {t t' : Task} (h : TaskStep t (.route c) t') : work t' < work t := by
  cases h with
  | route hp hphase =>
    rcases hphase with rfl | ⟨m, rfl, -⟩ <;> simp only [work, hp, phaseWork] <;> omega

theorem work_recv {t t' : Task} (h : TaskStep t (.recv c) t') : work t' < work t := by
  cases h with
  | recv hp hreq =>
    simp only [work, hp, hreq, phaseWork, List.length_cons]
    omega

theorem work_write {t t' : Task} (h : TaskStep t (.write c true) t') : work t' < work t := by
  cases h with
  | replied hp | sent hp =>
    simp only [work, hp, phaseWork, if_pos, List.length_append, List.length_singleton]
    omega

/-- An event of the task of the connection, or of the daemon that reads. -/
def Ours (c : TaskId) (e : SystemEvent) : Prop :=
  e = .read ∨ ∃ e', e = .server e' ∧ e'.actor = some c

/-- One of the task's steps, or the daemon's next read, brings what is on the way further. -/
structure Further (c : TaskId) (w w' : Watch) (e : SystemEvent) : Prop where
  ours : Ours c e
  up : w.system.staysUp c e = true
  step : w.step c e = some w'
  queued : w'.queued = w.queued
  work : work (w'.task c) < work (w.task c)

theorem further_own {e : Event} {s' : Server} (h : w.system.server.step e = some s')
    (ha : e.actor = some c) (hleaves : w.system.daemon.leaves e = true)
    (hup : w.system.staysUp c (.server e) = true)
    (hwork : TaskStep (w.task c) e (s'.task c) → work (s'.task c) < work (w.task c)) :
    ∃ w', Further c w w' (.server e) := by
  have hy : w.system.step (.server e) = some { w.system with server := s' } := by
    unfold System.step
    dsimp only
    rw [if_pos hleaves, h]
    rfl
  have hs : w.step c (.server e) = some _ := congrArg (Option.map _) hy
  refine ⟨_, .inr ⟨e, rfl, ha⟩, hup, hs, ?_, hwork (Server.task_step h ha)⟩
  exact (congrArg (w.queued ++ ·) (List.drop_eq_nil_of_le
    (Server.task_step h ha).requests.length_le)).trans (List.append_nil _)

/-- While the socket is up the daemon can read what has arrived. -/
theorem read_isSome {y : System} {m : Message} {rest : List Message}
    (hconn : y.daemon.session.conn = some c) (hout : (y.server.task c).outbound = m :: rest)
    (hup : (y.server.task c).ended = false) : ∃ y', y.step .read = some y' := by
  have hdeliver : y.server.step (.deliver c) =
      some (y.server.setTask c { y.server.task c with outbound := rest }) := by
    rw [Server.step, hout]
  have hsend : ∀ d m', ∃ y', System.send
      ⟨y.server.setTask c { y.server.task c with outbound := rest }, d⟩ c m' = some y' := by
    intro d m'
    refine ⟨_, congrArg (Option.map _) (if_neg ?_)⟩
    rw [Server.setTask_task, Function.update_self, hup]
    simp
  unfold System.step
  dsimp only
  rw [hconn]
  dsimp only
  rw [hout]
  dsimp only
  rw [hdeliver, Option.bind_some]
  rcases y.daemon.receive m with ⟨d, _ | m'⟩
  · exact ⟨_, rfl⟩
  · exact hsend d m'

theorem further_read {m : Message} {rest : List Message}
    (hconn : w.system.daemon.session.conn = some c) (hout : (w.task c).outbound = m :: rest)
    (hup : (w.task c).ended = false) : ∃ w', Further c w w' .read := by
  obtain ⟨y, hy⟩ := read_isSome hconn hout hup
  have hs : w.step c .read = some _ := congrArg (Option.map _) hy
  cases System.flow_read (c := c) hy with
  | own he => cases he
  | fed he hread =>
    have hread := hread _ hconn
    rw [System.reads, if_pos rfl, show (w.system.server.task c).outbound = _ from hout] at hread
    cases hread
  | lost hconn' => exact absurd hconn hconn'
  | @read m' rest' fs he hconn' hout' hfs ht hd =>
    have hreq : (y.server.task c).requests = (w.task c).requests := by rw [ht]; rfl
    refine ⟨_, .inl rfl, rfl, hs, ?_, ?_⟩
    · dsimp only
      rw [hreq, List.drop_length, List.append_nil]
    · show work (y.server.task c) < work (w.system.server.task c)
      simp only [work, ht, hout', List.length_cons]
      omega

/-- As long as something is on the way to the daemon, it can be brought further. -/
theorem Watched.further (h : w.Watched c) (hgr : Greeted w.system.daemon c w.handshake w.served
    w.queued (w.task c)) (hwork : work (w.task c) ≠ 0) :
    ∃ e w', Further c w w' e := by
  have hconn : w.system.daemon.session.conn = some c := by
    rcases hgr.session with ⟨hses, -⟩ | ⟨hses, -⟩ <;> rw [hses] <;> rfl
  cases hp : (w.task c).phase with
  | absent => exact absurd hp hgr.accepted
  | leaving | returning | exited =>
    have := hgr.inside
    rw [hp] at this
    cases this
  | handling m =>
    have hs : w.system.server.step (.handle c) =
        some (w.system.server.handleDaemonMessage c m) := by
      rw [Server.step, show (w.system.server.task c).phase = _ from hp]
    exact ⟨_, further_own hs rfl rfl rfl work_handle⟩
  | routing m o =>
    have hs : w.system.server.step (.route c) = some (w.system.server.routed c m o) := by
      rw [Server.step, show (w.system.server.task c).phase = _ from hp]
    exact ⟨_, further_own hs rfl rfl rfl work_route⟩
  | replying m | sending m =>
    obtain ⟨s', hs⟩ : ∃ s', w.system.server.step (.write c true) = some s' := by
      simp [Server.step, Server.write, show (w.system.server.task c).phase = _ from hp]
    exact ⟨_, further_own hs rfl rfl (by simp [System.staysUp]) work_write⟩
  | select b =>
    cases hreq : (w.task c).requests with
    | cons m rest =>
      obtain ⟨s', hs⟩ : ∃ s', w.system.server.step (.recv c) = some s' := by
        simp [Server.step, Server.recv, show (w.system.server.task c).phase = _ from hp,
          show (w.system.server.task c).requests = _ from hreq]
      exact ⟨_, further_own hs rfl rfl rfl work_recv⟩
    | nil =>
      cases hout : (w.task c).outbound with
      | cons m rest => exact ⟨_, further_read hconn hout h.up⟩
      | nil =>
        refine absurd ?_ hwork
        simp only [work, hp, hreq, hout, phaseWork, List.length_nil]

/-- Where there is nothing left to do, everything has been read. -/
theorem outgoing_of_work {t : Task} (h : work t = 0) : t.outgoing = [] := by
  have hout : t.outbound = [] := List.length_eq_zero_iff.1 (by unfold work at h; omega)
  have hreq : t.requests = [] := List.length_eq_zero_iff.1 (by unfold work at h; omega)
  have hphase : phaseWork t.phase = 0 := by unfold work at h; omega
  have hin : t.phase.inWriting = [] := by
    cases hp : t.phase with
    | replying m | sending m =>
      rw [hp] at hphase
      cases hphase
    | _ => rfl
  rw [Task.outgoing, hout, hreq, hin]
  rfl

/-- The requests that callers have put into the channel are on their way, or have been read. -/
theorem Watched.on_the_way (h : w.Watched c) :
    requestsOf (w.served ++ (w.task c).outgoing) = w.queued := by
  rcases h.stage with ⟨-, hreq, hserved, hqueued, hop⟩ | hgr
  · have hpath : requestsOf ((w.task c).outbound ++ (w.task c).phase.inWriting) = [] := by
      cases hop with
      | sent _ _ hp _ hout => rcases hp with hp | hp <;> simp [hp, hout, Phase.inWriting]
      | handling _ _ hp _ hout | told _ _ hp _ hout => simp [hp, hout, Phase.inWriting]
      | refusing _ _ hp _ hout | refused _ _ hp _ hout =>
        simp [hp, hout, Phase.inWriting, requestsOf, Message.isAck]
    rw [Task.outgoing, hserved, hqueued, hreq, List.append_nil, List.nil_append, hpath]
  · exact hgr.queued

/-- The daemon has read every request that was put into the channel. -/
def Drained (w : Watch) : Prop := requestsOf w.served = w.queued

/-- The steps of the task and of the daemon lead to where every request has been read. -/
theorem Watched.drains (h : w.Watched c) :
    ∃ es w', run (Watch.step c) w es = some w' ∧
      Along (Watch.step c) (fun w e => Ours c e ∧ w.system.staysUp c e = true) w es ∧
      (w'.Watched c ∧ w'.queued = w.queued) ∧ w'.Drained := by
  refine exists_run_of_lt (I := fun w' : Watch => w'.Watched c ∧ w'.queued = w.queued)
    (fun w : Watch => work (w.task c)) ?_ ⟨h, rfl⟩
  rintro w₁ ⟨h₁, hq⟩ hnot
  rcases h₁.stage with ⟨-, -, hserved, hqueued, -⟩ | hgr
  · exact absurd (by rw [Drained, hserved, hqueued]; rfl) hnot
  · have hwork : work (w₁.task c) ≠ 0 := by
      intro hwork
      have hq := h₁.on_the_way
      rw [outgoing_of_work hwork, List.append_nil] at hq
      exact hnot hq
    obtain ⟨e, w₂, hf⟩ := h₁.further hgr hwork
    exact ⟨e, w₂, ⟨hf.ours, hf.up⟩, hf.step, ⟨h₁.step hf.step hf.up, hf.queued.trans hq⟩, hf.work⟩

/-- A daemon that connects registers on a connection to which nothing leads. -/
theorem watched_start {id : String} {md : DaemonMetadata} {y y₁ : System}
    (hr : Reach System.step (.initial id md) y) (h : y.step (.dial c) = some y₁) :
    (start y₁).Watched c := by
  have hr₁ := hr.tail h
  have hfresh : (y.server.task c).phase = .absent → y.server.Fresh c :=
    (hr.invariant (I := fun y => y.server.Linked ∧
        ((y.server.task c).phase = .absent → y.server.Fresh c)) ⟨.initial, fun _ => .initial⟩
      fun _ _ _ hs h => System.step_invariant
        (I := fun s => s.Linked ∧ ((s.task c).phase = .absent → s.Fresh c))
        (fun _ _ _ hs h => ⟨hs.1.step h, Server.fresh_step hs.1 hs.2 h⟩) hs h).2
  have hend : (y.server.task c).AtEnd :=
    hr.invariant (I := fun y => (y.server.task c).AtEnd) ⟨fun h => absurd rfl h,
      fun _ h => (by cases h), fun h => (by cases h)⟩ fun _ _ _ hs h => System.step_invariant
        (I := fun s => (s.task c).AtEnd) (fun _ _ _ hs h => Server.atEnd_step h hs) hs h
  have hun : y₁.server.Unrouted c := by
    have hp : (y.server.task c).phase = .absent := by
      unfold System.step at h
      dsimp only at h
      split_ifs at h with hdial
      exact hdial.2.2.1
    exact System.unrouted_step (hfresh hp).unrouted h fun _ _ he => by cases he
  have hend₁ : (y₁.server.task c).AtEnd := System.step_invariant (I := fun s => (s.task c).AtEnd)
    (fun _ _ _ hs h => Server.atEnd_step h hs) hend h
  unfold System.step at h
  dsimp only at h
  split_ifs at h with hdial
  obtain ⟨hses, hnew, hp, hin⟩ := hdial
  have hup : (y.server.task c).ended = false := by
    obtain ⟨s, hs, -⟩ := Option.map_eq_some_iff.1 h
    change (if _ then _ else _) = some s at hs
    split_ifs at hs with hended
    exact Bool.eq_false_iff.2 hended
  obtain ⟨hd, ht⟩ := System.send_task (c := c) h
  rw [if_pos rfl] at ht
  have hf := hfresh hp
  refine ⟨System.linked_of_reach hr₁, hend₁, ?_, ?_, .inl ⟨hun, ?_, rfl, rfl, ?_⟩⟩
  · rw [start, hd]
    exact List.mem_cons_self
  · exact (congrArg Task.ended ht).trans hup
  · exact (congrArg Task.requests ht).trans hf.requests
  · refine .sent ?_ rfl (.inl ?_) ?_ ?_
    · rw [start, hd]
    · exact (congrArg Task.phase ht).trans hp
    · rw [start, hd, task, ht]
      dsimp only
      rw [hin]
      rfl
    · exact (congrArg Task.outbound ht).trans hf.outbound

theorem watched_run {es : List SystemEvent} (h : w.Watched c) (hrun : run (step c) w es = some w')
    (hup : Along (step c) (fun w e => w.system.staysUp c e = true) w es) : w'.Watched c :=
  run_invariant_along (fun _ _ _ h hup hs => h.step hs hup) hrun hup h

/-- **The handshake swallows no request: as long as the socket stays up, whatever callers do and
whenever, what the daemon reads while it registers is the acknowledgement and nothing else, it reads
nothing else before, every request that was put into the channel has been read by its loop or is on
its way, in the order of the channel, and the steps of the two sides alone lead to where all of them
have been read.** -/
theorem nothing_swallowed {id : String} {md : DaemonMetadata} {y y₁ : System}
    (hr : Reach System.step (.initial id md) y) (hdial : y.step (.dial c) = some y₁)
    {es : List SystemEvent} (hrun : run (step c) (start y₁) es = some w)
    (hup : Along (step c) (fun w e => w.system.staysUp c e = true) (start y₁) es) :
    (w.handshake = [] ∧ w.served = [] ∨ ∃ b text, w.handshake = [.registerAck b text]) ∧
      (w.handshake = [] ↔ w.system.daemon.session = .registering c) ∧
      requestsOf (w.served ++ (w.task c).outgoing) = w.queued ∧
      ∃ es' w', run (step c) w es' = some w' ∧
        Along (step c) (fun w e => Ours c e ∧ w.system.staysUp c e = true) w es' ∧
        w'.queued = w.queued ∧ requestsOf w'.served = w.queued := by
  have h := watched_run (watched_start hr hdial) hrun hup
  refine ⟨?_, ?_, h.on_the_way, ?_⟩
  · rcases h.stage with ⟨-, -, hserved, -, hop⟩ | hgr
    · cases hop with
      | told _ hhand => exact .inr ⟨_, _, hhand⟩
      | sent _ hhand | handling _ hhand | refusing _ hhand | refused _ hhand =>
        exact .inl ⟨hhand, hserved⟩
    · rcases hgr.session with ⟨-, hhand, hserved⟩ | ⟨-, text, hhand⟩
      · exact .inl ⟨hhand, hserved⟩
      · exact .inr ⟨_, _, hhand⟩
  · rcases h.stage with ⟨-, -, -, -, hop⟩ | hgr
    · cases hop with
      | told hses hhand =>
        refine iff_of_false (by simp [hhand]) fun heq => hses ?_
        rw [heq]
        rfl
      | sent hses hhand | handling hses hhand | refusing hses hhand | refused hses hhand =>
        exact iff_of_true hhand hses
    · rcases hgr.session with ⟨hses, hhand, -⟩ | ⟨hses, text, hhand⟩
      · exact iff_of_true hhand hses
      · exact iff_of_false (by simp [hhand]) (by simp [hses])
  · obtain ⟨es', w', hrun', hours, ⟨-, hq⟩, hdrained⟩ := h.drains
    exact ⟨es', w', hrun', hours, hq, Eq.trans hdrained hq⟩

/-- A daemon that has just connected. -/
def sampleDialed : System :=
  ((System.initial "d" ⟨"h", "linux", "x86_64", "0.1.0", ∅⟩).step (.dial 0)).getD
    (.initial "" ⟨"", "", "", "", ∅⟩)

/-- A caller strikes before the acknowledgement is written. -/
def sampleStrike : List SystemEvent :=
  [.server (.accept 0), .server (.next 0), .server (.handle 0),
    .server (.begin 0 "d" (.request (.exec "true" 300 ∅ none)) "r"), .server (.proceed 0),
    .server (.proceed 0)]

def sampleStruck : Watch :=
  (run (step 0) (start sampleDialed) sampleStrike).getD (start sampleDialed)

/-- The theorem there: the daemon has read nothing yet, and the command will reach its loop. -/
theorem nothing_swallowed_sample : sampleStruck.handshake = [] ∧ sampleStruck.queued ≠ [] ∧
    ∃ es w, run (step 0) sampleStruck es = some w ∧ requestsOf w.served = sampleStruck.queued := by
  have hdial : (System.initial "d" ⟨"h", "linux", "x86_64", "0.1.0", ∅⟩).step (.dial 0) =
      some sampleDialed :=
    (Option.getD_of_ne_none (Option.isSome_iff_ne_none.1 (by decide +kernel)) _).symm
  have hrun : run (step 0) (start sampleDialed) sampleStrike = some sampleStruck :=
    run_eq_getD (by decide +kernel)
  obtain ⟨-, -, -, es, w, hes, -, -, hw⟩ :=
    nothing_swallowed (.refl _) hdial hrun (by decide +kernel)
  exact ⟨by decide +kernel, by decide +kernel, es, w, hes, hw⟩

end Watch

end SandD
