import SandD.Server.Calls

/-!
# What an event does to tasks, connections and the registry

* `task_kept`: the events of others leave a task where it is, they only feed its channels;
* `entry_step`: entries of the registry come by a Register and go by a clean-up or the reaper;
* `conn_step`: a connection keeps its id and its task, and a new one has those of the task that
  handles a Register.
-/

namespace SandD

/-- The task whose code the event is a step of. -/
def Event.actor : Event → Option TaskId
  | accept c => some c
  | next c => some c
  | handle c => some c
  | route c => some c
  | recv c => some c
  | orElse c => some c
  | write c _ => some c
  | cleanUp c => some c
  | finish c => some c
  | _ => none

/-- The task is where it was. -/
structure Task.Kept (t t' : Task) : Prop where
  phase : t'.phase = t.phase
  sawEnd : t'.sawEnd = t.sawEnd
  ownSender : t'.ownSender = t.ownSender
  daemonId : t'.daemonId = t.daemonId
  requests : t.requests <+: t'.requests
  outbound : t'.outbound <:+ t.outbound
  ended : t.ended = true → t'.ended = true ∧ t'.inbound = t.inbound

theorem Task.Kept.refl (t : Task) : t.Kept t :=
  ⟨rfl, rfl, rfl, rfl, List.prefix_rfl, List.suffix_rfl, fun h => ⟨h, rfl⟩⟩

/-- The connection of the same daemon and task. -/
structure DaemonConnection.Same (conn conn' : DaemonConnection) : Prop where
  id : conn'.id = conn.id
  requestTx : conn'.requestTx = conn.requestTx

namespace DaemonConnection.Same

theorem refl (conn : DaemonConnection) : conn.Same conn := ⟨rfl, rfl⟩

theorem trans {conn conn' conn'' : DaemonConnection} (h : conn.Same conn')
    (h' : conn'.Same conn'') : conn.Same conn'' :=
  ⟨h'.id.trans h.id, h'.requestTx.trans h.requestTx⟩

end DaemonConnection.Same

/-- A relation that every operation on a connection respects at a given time, apart from the chunks
of files. -/
structure DaemonConnection.RespectedApart (time : ℕ)
    (R : DaemonConnection → DaemonConnection → Prop) : Prop where
  refl : ∀ conn, R conn conn
  trans : ∀ {conn conn' conn''}, R conn conn' → R conn' conn'' → R conn conn''
  dropped : ∀ conn, R conn conn.dropped
  updateHeartbeat : ∀ conn, R conn (conn.updateHeartbeat time)
  registerRequest : ∀ conn r k, R conn (conn.registerRequest r k)
  completeRequest : ∀ conn r, R conn (conn.completeRequest r).2
  registerSession : ∀ conn r k, R conn (conn.registerSession r k)
  closeSession : ∀ conn r, R conn (conn.closeSession r)
  startFileTransfer : ∀ conn r path n, R conn (conn.startFileTransfer r path n)
  completeFileTransfer : ∀ conn r, R conn (conn.completeFileTransfer r).2

/-- A relation that every operation on a connection respects, at a given time. -/
structure DaemonConnection.Respected (time : ℕ)
    (R : DaemonConnection → DaemonConnection → Prop) : Prop
    extends DaemonConnection.RespectedApart time R where
  addFileChunk : ∀ conn r data, R conn (conn.addFileChunk r data)

theorem DaemonConnection.respected_same {time : ℕ} :
    DaemonConnection.Respected time DaemonConnection.Same where
  refl := .refl
  trans := .trans
  dropped _ := ⟨rfl, rfl⟩
  updateHeartbeat _ := ⟨rfl, rfl⟩
  registerRequest _ _ _ := ⟨rfl, rfl⟩
  completeRequest _ _ := ⟨rfl, rfl⟩
  registerSession _ _ _ := ⟨rfl, rfl⟩
  closeSession _ _ := ⟨rfl, rfl⟩
  startFileTransfer _ _ _ _ := ⟨rfl, rfl⟩
  addFileChunk _ _ _ := ⟨addFileChunk_id, addFileChunk_requestTx⟩
  completeFileTransfer _ _ := ⟨rfl, rfl⟩

namespace Server

variable {s s' : Server} {c : TaskId} {o o' : ConnRef} {k : CallId} {r : String} {e : Event}

/-! ### Tasks -/

@[simp] theorem returns_task {outcome : Outcome} : (s.returns k o outcome).task = s.task := by
  rw [returns, release_task]
  rfl

@[simp] theorem returns_registry {outcome : Outcome} :
    (s.returns k o outcome).registry = s.registry := by
  rw [returns, release_registry]
  rfl

@[simp] theorem returns_made {outcome : Outcome} : (s.returns k o outcome).made = s.made := by
  rw [returns, release_made]
  rfl

@[simp] theorem returns_time {outcome : Outcome} : (s.returns k o outcome).time = s.time := by
  rw [returns, release_time]
  rfl

/-- Sending a message feeds the channel of one task, and changes nothing else. -/
theorem sendMessage_eq {m : Message} (h : s.sendMessage o m = some s') :
    (s.task (s.conn o).requestTx).phase ≠ .exited ∧
      s' = s.setTask (s.conn o).requestTx
        { s.task (s.conn o).requestTx with
          requests := (s.task (s.conn o).requestTx).requests ++ [m] } := by
  unfold Server.sendMessage at h
  dsimp only at h
  split_ifs at h with hp
  exact ⟨hp, (Option.some_inj.1 h).symm⟩

theorem callSend_eq (m : Message) (er : PyError) (phase : CallPhase) :
    ∃ s₁ : Server, (s₁ = s ∨ s.sendMessage o m = some s₁) ∧
      ((∃ outcome, s.callSend k o m er phase = s₁.returns k o outcome) ∨
        s.callSend k o m er phase = s₁.setCallPhase k phase) := by
  unfold Server.callSend
  split
  next s₁ h =>
    refine ⟨s₁, .inr h, ?_⟩
    split
    · exact .inl ⟨_, rfl⟩
    · exact .inr rfl
  next => exact ⟨s, .inl rfl, .inl ⟨_, rfl⟩⟩

/-- What a call does to the tasks when it goes on: nothing, or it puts one message into the channel
of the task of its connection. -/
inductive Sends (s : Server) (k : CallId) (s' : Server) : Prop
  | nothing (ht : s'.task = s.task)
  | one {o : ConnRef} {m : Message} (ho : (s.call k).phase.conn = some o)
      (hm : m.asks = none ∨ ∃ ask r, (s.call k).phase = .opened o ∧
        (s.call k).method = .request ask ∧ (s.call k).requestId = some r ∧ m = ask.call.message r)
      (ht : s'.task = Function.update s.task (s.conn o).requestTx
        { s.task (s.conn o).requestTx with
          requests := (s.task (s.conn o).requestTx).requests ++ [m] })

theorem callSend_sends {m : Message} {er : PyError} {phase : CallPhase}
    (ho : (s.call k).phase.conn = some o)
    (hm : m.asks = none ∨ ∃ ask r, (s.call k).phase = .opened o ∧
      (s.call k).method = .request ask ∧ (s.call k).requestId = some r ∧ m = ask.call.message r) :
    Sends s k (s.callSend k o m er phase) := by
  obtain ⟨s₁, h₁, h⟩ := callSend_eq (s := s) (k := k) (o := o) m er phase
  have htask : (s.callSend k o m er phase).task = s₁.task := by
    rcases h with ⟨outcome, h⟩ | h
    · rw [h, returns_task]
    · rw [h]
      rfl
  rcases h₁ with rfl | h₁
  · exact .nothing htask
  · obtain ⟨-, rfl⟩ := sendMessage_eq h₁
    exact .one ho hm htask

theorem callSend_entries (m : Message) (er : PyError) (phase : CallPhase) :
    (s.callSend k o m er phase).registry = s.registry ∧
      (s.callSend k o m er phase).made = s.made ∧ (s.callSend k o m er phase).time = s.time := by
  obtain ⟨s₁, h₁, h⟩ := callSend_eq (s := s) (k := k) (o := o) m er phase
  have hs₁ : s₁.registry = s.registry ∧ s₁.made = s.made ∧ s₁.time = s.time := by
    rcases h₁ with rfl | h₁
    · exact ⟨rfl, rfl, rfl⟩
    · obtain ⟨-, rfl⟩ := sendMessage_eq h₁
      exact ⟨rfl, rfl, rfl⟩
  rcases h with ⟨outcome, h⟩ | h <;> rw [h]
  · rw [returns_registry, returns_made, returns_time]
    exact hs₁
  · exact hs₁

theorem ask_asks (ask : Ask) (r : String) : (ask.call.message r).asks = some r := by
  cases ask <;> rfl

theorem posting_asks (posting : Posting) (r : String) : (posting.message r).asks = none := by
  cases posting <;> rfl

theorem proceed_sends (h : s.proceed k = some s') : Sends s k s' := by
  unfold Server.proceed at h
  dsimp only at h
  split at h
  case h_4 =>
    obtain rfl := Option.some_inj.1 h
    exact .nothing returns_task
  case h_5 o r b posting rest hp hr hm =>
    obtain rfl := Option.some_inj.1 h
    have hsend : Sends (s.setCall k { s.call k with method := .post b rest }) k
        ((s.setCall k { s.call k with method := .post b rest }).callSend k o (posting.message r)
          (sendError posting.sending) (.found o)) :=
      callSend_sends (by rw [setCall_call, Function.update_self, hp]; rfl)
        (.inl (posting_asks posting r))
    cases hsend with
    | nothing ht => exact .nothing ht
    | @one o' m ho hm ht =>
      rw [setCall_call, Function.update_self] at ho hm
      refine .one ho (hm.imp_right ?_) ht
      rintro ⟨ask, r', -, hask, -⟩
      cases hask
  case h_6 o r ask hp hr hm =>
    obtain rfl := Option.some_inj.1 h
    exact callSend_sends (by rw [hp]; rfl) (.inr ⟨ask, r, hp, hm, hr, rfl⟩)
  case h_7 o r rows cols term hp hr hm =>
    obtain rfl := Option.some_inj.1 h
    exact callSend_sends (by rw [hp]; rfl) (.inl rfl)
  case h_8 o r path hp hr hm =>
    obtain rfl := Option.some_inj.1 h
    exact callSend_sends (by rw [hp]; rfl) (.inl rfl)
  case h_9 => cases h
  all_goals
    obtain rfl := Option.some_inj.1 h
    exact .nothing rfl

/-- The steps of calls touch neither the registry nor the clock. -/
theorem proceed_entries (h : s.proceed k = some s') :
    s'.registry = s.registry ∧ s'.made = s.made ∧ s'.time = s.time := by
  unfold Server.proceed at h
  dsimp only at h
  split at h
  case h_4 =>
    obtain rfl := Option.some_inj.1 h
    exact ⟨returns_registry, returns_made, returns_time⟩
  case h_9 => cases h
  all_goals
    obtain rfl := Option.some_inj.1 h
    first
      | exact callSend_entries ..
      | exact ⟨rfl, rfl, rfl⟩

/-- Neither tasks nor the registry nor the clock are touched. -/
structure Still (s s' : Server) : Prop where
  task : s'.task = s.task
  registry : s'.registry = s.registry
  made : s'.made = s.made
  time : s'.time = s.time

theorem returns_still (s : Server) (k : CallId) (o : ConnRef) (outcome : Outcome) :
    Still s (s.returns k o outcome) :=
  ⟨returns_task, returns_registry, returns_made, returns_time⟩

theorem resume_still (h : s.resume k = some s') : Still s s' := by
  unfold Server.resume at h
  dsimp only at h
  split at h
  · obtain rfl := Option.some_inj.1 h
    exact returns_still ..
  · obtain rfl := Option.some_inj.1 h
    exact returns_still ..
  · split at h
    · split_ifs at h
      obtain rfl := Option.some_inj.1 h
      exact ⟨returns_task, returns_registry, returns_made, returns_time⟩
    · cases h
  · cases h

theorem timeOut_still (h : s.timeOut k = some s') : Still s s' := by
  unfold Server.timeOut at h
  dsimp only at h
  split at h
  · split_ifs at h
    obtain rfl := Option.some_inj.1 h
    exact returns_still ..
  · cases h

theorem beginCall_still {id : String} {method : Method} (h : s.beginCall k id method r = some s') :
    Still s s' := by
  unfold Server.beginCall at h
  split at h
  · split at h
    · split_ifs at h
      obtain rfl := Option.some_inj.1 h
      exact ⟨rfl, rfl, rfl, rfl⟩
    · obtain rfl := Option.some_inj.1 h
      exact ⟨rfl, rfl, rfl, rfl⟩
  · cases h

@[simp] theorem remove_task (id : String) : (s.remove id).task = s.task := by
  unfold Server.remove
  split
  · exact release_task
  · rfl

@[simp] theorem remove_made (id : String) : (s.remove id).made = s.made := by
  unfold Server.remove
  split
  · exact release_made
  · rfl

theorem remove_get (id id' : String) :
    (s.remove id).get id' = if id' = id then none else s.get id' := by
  unfold Server.remove
  split
  next o ho =>
    unfold Server.get
    rw [release_registry]
    exact StringMap.lookup_erase_eq_ite _ _ _
  next hnone =>
    split_ifs with h
    · rw [h]
      exact hnone
    · rfl

@[simp] theorem register_task {id : String} {md : DaemonMetadata} :
    (s.register id md c).task = s.task := by
  unfold Server.register
  split
  · exact release_task
  · rfl

theorem register_made {id : String} {md : DaemonMetadata} :
    (s.register id md c).made = s.made + 1 := by
  unfold Server.register
  split
  · exact release_made
  · rfl

theorem register_get (id : String) (md : DaemonMetadata) (id' : String) :
    (s.register id md c).get id' = if id' = id then some s.made else s.get id' := by
  have h : (s.insertNew id md c).get id' = if id' = id then some s.made else s.get id' := by
    show (s.registry.insert id s.made).lookup id' = _
    split_ifs with h
    · rw [h, Finmap.lookup_insert]
    · exact Finmap.lookup_insert_of_ne _ h
  unfold Server.register
  split
  · unfold Server.get at h ⊢
    rw [release_registry]
    exact h
  · exact h

theorem lookUp_task_of_ne {c' : TaskId} (hne : c' ≠ c) (m : Message) :
    (s.lookUp c m).task c' = s.task c' := by
  unfold Server.lookUp
  split
  · exact Function.update_of_ne hne ..
  · split
    · exact Function.update_of_ne hne ..
    · split_ifs <;> exact Function.update_of_ne hne ..

theorem handleDaemonMessage_task_of_ne {c' : TaskId} (hne : c' ≠ c) (m : Message) :
    (s.handleDaemonMessage c m).task c' = s.task c' := by
  unfold Server.handleDaemonMessage
  split
  · split_ifs
    · exact Function.update_of_ne hne ..
    · rw [setTask_task, Function.update_of_ne hne, register_task]
  all_goals first
    | exact lookUp_task_of_ne hne _
    | exact Function.update_of_ne hne ..

@[simp] theorem completeRequest_task {m : Message} :
    (s.completeRequest o r m).task = s.task := by
  unfold Server.completeRequest
  split <;> rfl

@[simp] theorem sendSessionOutput_task {data : List UInt8} :
    (s.sendSessionOutput o r data).task = s.task := by
  unfold Server.sendSessionOutput
  split <;> rfl

@[simp] theorem onConnection_task {m : Message} : (s.onConnection m o).task = s.task := by
  unfold Server.onConnection
  split
  · rfl
  · exact sendSessionOutput_task
  · rfl
  · rfl
  · split
    · exact completeRequest_task
    · rfl

theorem routed_task {m : Message} :
    (s.routed c m o).task = Function.update s.task c { s.task c with
      phase := if m = .heartbeat then .replying (heartbeatAck true) else .select true } := by
  unfold Server.routed setPhase
  rw [setTask_task, release_task, onConnection_task]

theorem handle_eq {m : Message} (hp : (s.task c).phase = .handling m)
    (h : s.step (.handle c) = some s') : s' = s.handleDaemonMessage c m := by
  rw [step, hp] at h
  exact (Option.some_inj.1 h).symm

theorem route_eq {m : Message} (hp : (s.task c).phase = .routing m o)
    (h : s.step (.route c) = some s') : s' = s.routed c m o := by
  rw [step, hp] at h
  exact (Option.some_inj.1 h).symm

theorem handleDaemonMessage_register {id : String} (hne : id ≠ "") (md : DaemonMetadata) :
    s.handleDaemonMessage c (.register id md) = (s.register id md c).setTask c
      { s.task c with
        daemonId := some id
        phase := .replying (.registerAck true "Successfully registered") } :=
  if_neg hne

/-- What an event of others does to a task: it is where it was, and its channels are fed. -/
structure Unmoved (s : Server) (c : TaskId) (e : Event) (s' : Server) : Prop where
  kept : (s.task c).Kept (s'.task c)
  inbound : (s'.task c).inbound = (s.task c).inbound ∨
    ∃ f, e = .arrive c f ∧ (s'.task c).inbound = (s.task c).inbound ++ [f]
  requests : (s'.task c).requests = (s.task c).requests ∨ ∃ k, e = .proceed k

theorem Unmoved.of_eq (h : s'.task c = s.task c) : Unmoved s c e s' := by
  refine ⟨?_, ?_, ?_⟩ <;> rw [h]
  · exact .refl _
  · exact .inl rfl
  · exact .inl rfl

/-- The events of others leave a task where it is. -/
theorem task_kept (h : s.step e = some s') (ha : e.actor ≠ some c) : Unmoved s c e s' := by
  have hset : ∀ {c' : TaskId} {t : Task}, c' ≠ c → s' = s.setTask c' t → Unmoved s c e s' := by
    rintro c' t hne rfl
    refine .of_eq ?_
    rw [setTask_task, Function.update_of_ne hne.symm]
  have hstill : Still s s' → Unmoved s c e s' := fun hf => .of_eq (congrFun hf.task c)
  have hne : ∀ c', some c' ≠ some c → c' ≠ c := fun c' h h' => h (congrArg some h')
  cases e with
  | tick secs => exact .of_eq (Option.some_inj.1 h ▸ rfl)
  | accept c' =>
    change (if _ then _ else _) = some s' at h
    split_ifs at h
    exact hset (hne c' ha) (Option.some_inj.1 h).symm
  | arrive c' frame =>
    change (if _ then _ else _) = some s' at h
    split_ifs at h with hend
    by_cases hc : c' = c
    · subst hc
      obtain rfl := Option.some_inj.1 h
      refine ⟨?_, .inr ⟨frame, rfl, ?_⟩, .inl ?_⟩ <;> rw [setTask_task, Function.update_self]
      exact ⟨rfl, rfl, rfl, rfl, List.prefix_rfl, List.suffix_rfl, fun h => absurd h hend⟩
    · exact hset hc (Option.some_inj.1 h).symm
  | endStream c' =>
    by_cases hc : c' = c
    · subst hc
      obtain rfl := Option.some_inj.1 h
      refine ⟨?_, .inl ?_, .inl ?_⟩ <;> rw [setTask_task, Function.update_self]
      exact ⟨rfl, rfl, rfl, rfl, List.prefix_rfl, List.suffix_rfl, fun _ => ⟨rfl, rfl⟩⟩
    · exact hset hc (Option.some_inj.1 h).symm
  | deliver c' =>
    unfold Server.step at h
    dsimp only at h
    split at h
    next m rest hout =>
      by_cases hc : c' = c
      · subst hc
        obtain rfl := Option.some_inj.1 h
        refine ⟨?_, .inl ?_, .inl ?_⟩ <;> rw [setTask_task, Function.update_self]
        exact ⟨rfl, rfl, rfl, rfl, List.prefix_rfl, hout ▸ List.suffix_cons m rest,
          fun h => ⟨h, rfl⟩⟩
      · exact hset hc (Option.some_inj.1 h).symm
    next => cases h
  | next c' =>
    obtain ⟨t, ht⟩ := next_eq h
    exact hset (hne c' ha) ht
  | handle c' =>
    unfold Server.step at h
    dsimp only at h
    split at h
    · obtain rfl := Option.some_inj.1 h
      exact .of_eq (handleDaemonMessage_task_of_ne (hne c' ha).symm _)
    · cases h
  | route c' =>
    unfold Server.step at h
    dsimp only at h
    split at h
    · obtain rfl := Option.some_inj.1 h
      refine .of_eq ?_
      rw [routed_task, Function.update_of_ne (hne c' ha).symm]
    · cases h
  | recv c' =>
    obtain ⟨t, ht⟩ := recv_eq h
    exact hset (hne c' ha) ht
  | orElse c' =>
    obtain ⟨t, ht⟩ := orElse_eq h
    exact hset (hne c' ha) ht
  | write c' ok =>
    obtain ⟨t, ht⟩ := write_eq h
    exact hset (hne c' ha) ht
  | cleanUp c' =>
    change (if _ then _ else _) = some s' at h
    split_ifs at h
    obtain rfl := Option.some_inj.1 h
    refine .of_eq ?_
    unfold Server.cleanUp
    split
    · rw [setPhase, setTask_task, Function.update_of_ne (hne c' ha).symm, remove_task]
    · rw [setPhase, setTask_task, Function.update_of_ne (hne c' ha).symm]
  | finish c' =>
    change (if _ then _ else _) = some s' at h
    split_ifs at h
    exact hset (hne c' ha) (Option.some_inj.1 h).symm
  | reap id =>
    change s.cleanupStale _ id = some s' at h
    unfold Server.cleanupStale at h
    split at h
    · split_ifs at h
      obtain rfl := Option.some_inj.1 h
      exact .of_eq (congrFun (remove_task id) c)
    · cases h
  | begin k daemonId method id => exact hstill (beginCall_still h)
  | proceed k =>
    cases proceed_sends h with
    | nothing ht => exact .of_eq (congrFun ht c)
    | @one o m ho hm ht =>
      by_cases hc : c = (s.conn o).requestTx
      · subst hc
        refine ⟨?_, .inl ?_, .inr ⟨k, rfl⟩⟩ <;> rw [ht, Function.update_self]
        exact ⟨rfl, rfl, rfl, rfl, List.prefix_append _ _, List.suffix_rfl, fun h => ⟨h, rfl⟩⟩
      · refine .of_eq ?_
        rw [ht, Function.update_of_ne hc]
  | resume k => exact hstill (resume_still h)
  | timeOut k => exact hstill (timeOut_still h)

/-- What an event can do to the entries. -/
inductive EntryStep (s : Server) : Event → Server → Prop
  | same {e₁ : Event} {s₁ : Server} (hreg : s₁.registry = s.registry)
      (hmade : s₁.made = s.made) : EntryStep s e₁ s₁
  | registered {c₁ : TaskId} {id : String} {md : DaemonMetadata} {s₁ : Server}
      (hp : (s.task c₁).phase = .handling (.register id md)) (hne : id ≠ "")
      (hs : s₁ = s.handleDaemonMessage c₁ (.register id md)) : EntryStep s (.handle c₁) s₁
  | removed {e₁ : Event} {id : String} {s₁ : Server}
      (hwho : e₁ = .reap id ∨ ∃ c, e₁ = .cleanUp c ∧ (s.task c).phase = .leaving ∧
        (s.task c).daemonId = some id)
      (hget : ∀ id', s₁.get id' = if id' = id then none else s.get id')
      (hmade : s₁.made = s.made) : EntryStep s e₁ s₁

@[simp] theorem lookUp_registry {m : Message} : (s.lookUp c m).registry = s.registry := by
  unfold Server.lookUp
  split
  · rfl
  · split
    · rfl
    · split_ifs <;> rfl

@[simp] theorem lookUp_made {m : Message} : (s.lookUp c m).made = s.made := by
  unfold Server.lookUp
  split
  · rfl
  · split
    · rfl
    · split_ifs <;> rfl

@[simp] theorem onConnection_registry {m : Message} :
    (s.onConnection m o).registry = s.registry := by
  unfold Server.onConnection Server.sendSessionOutput Server.completeRequest
  split
  · rfl
  · split <;> rfl
  · rfl
  · rfl
  · split
    · split <;> rfl
    · rfl

@[simp] theorem onConnection_made {m : Message} : (s.onConnection m o).made = s.made := by
  unfold Server.onConnection Server.sendSessionOutput Server.completeRequest
  split
  · rfl
  · split <;> rfl
  · rfl
  · rfl
  · split
    · split <;> rfl
    · rfl

@[simp] theorem onConnection_time {m : Message} : (s.onConnection m o).time = s.time := by
  unfold Server.onConnection Server.sendSessionOutput Server.completeRequest
  split
  · rfl
  · split <;> rfl
  · rfl
  · rfl
  · split
    · split <;> rfl
    · rfl

@[simp] theorem remove_time (id : String) : (s.remove id).time = s.time := by
  unfold Server.remove
  split
  · exact release_time
  · rfl

@[simp] theorem register_time {id : String} {md : DaemonMetadata} :
    (s.register id md c).time = s.time := by
  unfold Server.register
  split
  · exact release_time
  · rfl

@[simp] theorem handleDaemonMessage_time {m : Message} :
    (s.handleDaemonMessage c m).time = s.time := by
  unfold Server.handleDaemonMessage Server.lookUp
  split
  · split_ifs
    · rfl
    · exact register_time
  all_goals first
    | rfl
    | (split
       · rfl
       · split
         · rfl
         · split_ifs <;> rfl)

theorem entry_step (h : s.step e = some s') : EntryStep s e s' := by
  have hset : ∀ {c t}, s' = s.setTask c t → EntryStep s e s' := by
    rintro c t rfl
    exact .same rfl rfl
  have hstill : Still s s' → EntryStep s e s' := fun hf => .same hf.registry hf.made
  cases e with
  | tick secs => exact Option.some_inj.1 h ▸ .same rfl rfl
  | accept c =>
    change (if _ then _ else _) = some s' at h
    split_ifs at h
    exact hset (Option.some_inj.1 h).symm
  | arrive c frame =>
    change (if _ then _ else _) = some s' at h
    split_ifs at h
    exact hset (Option.some_inj.1 h).symm
  | endStream c => exact hset (Option.some_inj.1 h).symm
  | deliver c =>
    unfold Server.step at h
    dsimp only at h
    split at h
    · exact hset (Option.some_inj.1 h).symm
    · cases h
  | next c =>
    obtain ⟨t, ht⟩ := next_eq h
    exact hset ht
  | handle c =>
    unfold Server.step at h
    dsimp only at h
    split at h
    next m hp =>
      obtain rfl := Option.some_inj.1 h
      by_cases hm : ∃ id md, m = .register id md ∧ id ≠ ""
      · obtain ⟨id, md, rfl, hne⟩ := hm
        exact .registered hp hne rfl
      · unfold Server.handleDaemonMessage
        split
        next id md =>
          rw [if_pos (by_contra fun hne => hm ⟨id, md, rfl, hne⟩)]
          exact .same rfl rfl
        all_goals first
          | exact .same lookUp_registry lookUp_made
          | exact .same rfl rfl
    next => cases h
  | route c =>
    unfold Server.step at h
    dsimp only at h
    split at h
    · obtain rfl := Option.some_inj.1 h
      unfold Server.routed
      exact .same (release_registry.trans onConnection_registry)
        (release_made.trans onConnection_made)
    · cases h
  | recv c =>
    obtain ⟨t, ht⟩ := recv_eq h
    exact hset ht
  | orElse c =>
    obtain ⟨t, ht⟩ := orElse_eq h
    exact hset ht
  | write c ok =>
    obtain ⟨t, ht⟩ := write_eq h
    exact hset ht
  | cleanUp c =>
    change (if _ then _ else _) = some s' at h
    split_ifs at h with hp
    obtain rfl := Option.some_inj.1 h
    unfold Server.cleanUp
    split
    next id hid => exact .removed (.inr ⟨c, rfl, hp, hid⟩) (remove_get id) (remove_made id)
    next => exact .same rfl rfl
  | finish c =>
    change (if _ then _ else _) = some s' at h
    split_ifs at h
    exact hset (Option.some_inj.1 h).symm
  | reap id =>
    change s.cleanupStale _ id = some s' at h
    unfold Server.cleanupStale at h
    split at h
    · split_ifs at h
      obtain rfl := Option.some_inj.1 h
      exact .removed (.inl rfl) (remove_get id) (remove_made id)
    · cases h
  | begin k daemonId method id => exact hstill (beginCall_still h)
  | proceed k => exact .same (proceed_entries h).1 (proceed_entries h).2.1
  | resume k => exact hstill (resume_still h)
  | timeOut k => exact hstill (timeOut_still h)

/-- The clock is moved by `tick` alone. -/
theorem time_step (h : s.step e = some s') (he : ∀ secs, e ≠ .tick secs) : s'.time = s.time := by
  have hset : ∀ {c t}, s' = s.setTask c t → s'.time = s.time := by
    rintro c t rfl
    rfl
  cases e with
  | tick secs => exact absurd rfl (he secs)
  | accept c =>
    change (if _ then _ else _) = some s' at h
    split_ifs at h
    exact hset (Option.some_inj.1 h).symm
  | arrive c frame =>
    change (if _ then _ else _) = some s' at h
    split_ifs at h
    exact hset (Option.some_inj.1 h).symm
  | endStream c => exact hset (Option.some_inj.1 h).symm
  | deliver c =>
    unfold Server.step at h
    dsimp only at h
    split at h
    · exact hset (Option.some_inj.1 h).symm
    · cases h
  | next c =>
    obtain ⟨t, ht⟩ := next_eq h
    exact hset ht
  | handle c =>
    unfold Server.step at h
    dsimp only at h
    split at h
    · exact Option.some_inj.1 h ▸ handleDaemonMessage_time
    · cases h
  | route c =>
    unfold Server.step at h
    dsimp only at h
    split at h
    · exact Option.some_inj.1 h ▸ release_time.trans onConnection_time
    · cases h
  | recv c =>
    obtain ⟨t, ht⟩ := recv_eq h
    exact hset ht
  | orElse c =>
    obtain ⟨t, ht⟩ := orElse_eq h
    exact hset ht
  | write c ok =>
    obtain ⟨t, ht⟩ := write_eq h
    exact hset ht
  | cleanUp c =>
    change (if _ then _ else _) = some s' at h
    split_ifs at h
    obtain rfl := Option.some_inj.1 h
    unfold Server.cleanUp
    split
    · exact remove_time _
    · rfl
  | finish c =>
    change (if _ then _ else _) = some s' at h
    split_ifs at h
    exact hset (Option.some_inj.1 h).symm
  | reap id =>
    change s.cleanupStale _ id = some s' at h
    unfold Server.cleanupStale at h
    split at h
    · split_ifs at h
      exact Option.some_inj.1 h ▸ remove_time id
    · cases h
  | begin k daemonId method id => exact (beginCall_still h).time
  | proceed k => exact (proceed_entries h).2.2
  | resume k => exact (resume_still h).time
  | timeOut k => exact (timeOut_still h).time

/-! ### Connections -/

section Respected

variable {R : DaemonConnection → DaemonConnection → Prop}

theorem release_rel (hR : DaemonConnection.RespectedApart s.time R) (h : Owner) (o o' : ConnRef) :
    R (s.conn o') ((s.release h o).conn o') := by
  by_cases ho : (s.arcs o).erase h = ∅
  · rw [release_of_eq ho]
    show R (s.conn o') (Function.update s.conn o _ o')
    rw [Function.update_apply]
    split_ifs with heq
    · rw [heq]
      exact hR.dropped _
    · exact hR.refl _
  · rw [release_of_ne ho]
    exact hR.refl _

theorem setConn_rel (hR : DaemonConnection.RespectedApart s.time R) (o : ConnRef)
    {conn : DaemonConnection} (h : R (s.conn o) conn) (o' : ConnRef) :
    R (s.conn o') ((s.setConn o conn).conn o') := by
  rw [setConn_conn, Function.update_apply]
  split_ifs with heq
  · rw [heq]
    exact h
  · exact hR.refl _

theorem remove_rel (hR : DaemonConnection.RespectedApart s.time R) (id : String) (o : ConnRef) :
    R (s.conn o) ((s.remove id).conn o) := by
  unfold Server.remove
  split
  · exact release_rel (s := { s with registry := s.registry.erase id }) hR ..
  · exact hR.refl _

theorem register_rel (hR : DaemonConnection.RespectedApart s.time R) {id : String}
    {md : DaemonMetadata} (ho : o ≠ s.made) : R (s.conn o) ((s.register id md c).conn o) := by
  have h : (s.insertNew id md c).conn o = s.conn o := Function.update_of_ne ho ..
  unfold Server.register
  split
  · rw [← h]
    exact release_rel (s := s.insertNew id md c) hR ..
  · rw [h]
    exact hR.refl _

/-- What a connection is when it has just been registered. -/
theorem register_new_rel (hR : DaemonConnection.RespectedApart s.time R) (id : String)
    (md : DaemonMetadata) :
    R (.new id md c s.time) ((s.register id md c).conn s.made) := by
  have h : (s.insertNew id md c).conn s.made = .new id md c s.time := Function.update_self ..
  unfold Server.register
  split
  · rw [← h]
    exact release_rel (s := s.insertNew id md c) hR ..
  · rw [h]
    exact hR.refl _

theorem returns_rel (hR : DaemonConnection.RespectedApart s.time R) (outcome : Outcome)
    (o o' : ConnRef) : R (s.conn o') ((s.returns k o outcome).conn o') :=
  release_rel (s := s.setCallPhase k (.returned outcome)) hR ..

theorem callSend_rel (hR : DaemonConnection.RespectedApart s.time R) (m : Message) (er : PyError)
    (phase : CallPhase) (o' : ConnRef) : R (s.conn o') ((s.callSend k o m er phase).conn o') := by
  obtain ⟨s₁, h₁, h⟩ := callSend_eq (s := s) (k := k) (o := o) m er phase
  have hsame : s₁.conn = s.conn ∧ s₁.time = s.time := by
    rcases h₁ with rfl | h₁
    · exact ⟨rfl, rfl⟩
    · obtain ⟨-, rfl⟩ := sendMessage_eq h₁
      exact ⟨rfl, rfl⟩
  rw [← hsame.1]
  rcases h with ⟨outcome, h⟩ | h <;> rw [h]
  · exact returns_rel (hsame.2 ▸ hR) ..
  · exact hR.refl _

theorem proceed_rel (hR : DaemonConnection.RespectedApart s.time R) (h : s.proceed k = some s')
    (o : ConnRef) : R (s.conn o) (s'.conn o) := by
  unfold Server.proceed at h
  dsimp only at h
  split at h
  case h_1 =>
    obtain rfl := Option.some_inj.1 h
    exact setConn_rel hR _ (hR.registerRequest _ _ _) o
  case h_2 =>
    obtain rfl := Option.some_inj.1 h
    exact setConn_rel hR _ (hR.registerSession _ _ _) o
  case h_3 =>
    obtain rfl := Option.some_inj.1 h
    exact setConn_rel hR _ (hR.startFileTransfer _ _ _ _) o
  case h_5 o' r b posting rest hp hr hm =>
    obtain rfl := Option.some_inj.1 h
    exact callSend_rel (s := s.setCall k { s.call k with method := .post b rest }) hR ..
  case h_9 => cases h
  all_goals
    obtain rfl := Option.some_inj.1 h
    first
      | exact callSend_rel hR ..
      | exact returns_rel hR ..

theorem resume_rel (hR : DaemonConnection.RespectedApart s.time R) (h : s.resume k = some s')
    (o : ConnRef) : R (s.conn o) (s'.conn o) := by
  unfold Server.resume at h
  dsimp only at h
  split at h
  · obtain rfl := Option.some_inj.1 h
    exact returns_rel hR ..
  · obtain rfl := Option.some_inj.1 h
    exact returns_rel hR ..
  case h_3 o' _ _ _ _ =>
    split at h
    next r _ =>
      split_ifs at h
      obtain rfl := Option.some_inj.1 h
      have hdone := setConn_rel hR o' (hR.completeFileTransfer (s.conn o') r) o
      exact hR.trans hdone (returns_rel (s := s.setConn o' _) hR ..)
    next => cases h
  · cases h

theorem timeOut_rel (hR : DaemonConnection.RespectedApart s.time R) (h : s.timeOut k = some s')
    (o : ConnRef) : R (s.conn o) (s'.conn o) := by
  unfold Server.timeOut at h
  dsimp only at h
  split at h
  · split_ifs at h
    obtain rfl := Option.some_inj.1 h
    exact returns_rel hR ..
  · cases h

theorem onConnection_rel (hR : DaemonConnection.RespectedApart s.time R) {m : Message}
    (hadd : ∀ r data offset last, m = .fileDownloadChunk r data offset last →
      R (s.conn o) ((s.conn o).addFileChunk r data)) (o' : ConnRef) :
    R (s.conn o') ((s.onConnection m o).conn o') := by
  unfold Server.onConnection Server.sendSessionOutput Server.completeRequest
  split
  · exact setConn_rel hR o (hR.updateHeartbeat _) o'
  · split <;> exact hR.refl _
  · exact setConn_rel hR o (hR.closeSession _ _) o'
  · exact setConn_rel hR o (hadd _ _ _ _ rfl) o'
  · split
    · split
      next heq =>
        obtain rfl := congrArg Prod.snd heq
        exact setConn_rel hR o (hR.completeRequest _ _) o'
      next => exact hR.refl _
    · exact hR.refl _

end Respected

theorem register_new (id : String) (md : DaemonMetadata) :
    (DaemonConnection.new id md c s.time).Same ((s.register id md c).conn s.made) :=
  register_new_rel DaemonConnection.respected_same.toRespectedApart id md

theorem lookUp_conn {m : Message} : (s.lookUp c m).conn = s.conn := by
  unfold Server.lookUp
  split
  · rfl
  · split
    · rfl
    · split_ifs <;> rfl

theorem beginCall_conn {id : String} {method : Method} (h : s.beginCall k id method r = some s') :
    s'.conn = s.conn := by
  unfold Server.beginCall at h
  split at h
  · split at h
    · split_ifs at h
      obtain rfl := Option.some_inj.1 h
      rfl
    · obtain rfl := Option.some_inj.1 h
      rfl
  · cases h

/-- What an event other than the routing of a message makes of a connection. -/
theorem conn_step_rel_of_ne {R : DaemonConnection → DaemonConnection → Prop}
    (hR : DaemonConnection.RespectedApart s.time R) (h : s.step e = some s')
    (he : ∀ c, e ≠ .route c) (o : ConnRef) :
    R (s.conn o) (s'.conn o) ∨ o = s.made ∧ ∃ c id md, e = .handle c ∧
      (s.task c).phase = .handling (.register id md) ∧ id ≠ "" ∧
      R (.new id md c s.time) (s'.conn o) := by
  have hset : ∀ {c t}, s' = s.setTask c t → R (s.conn o) (s'.conn o) := by
    rintro c t rfl
    exact hR.refl _
  cases e with
  | tick secs => exact .inl (Option.some_inj.1 h ▸ hR.refl _)
  | accept c =>
    change (if _ then _ else _) = some s' at h
    split_ifs at h
    exact .inl (hset (Option.some_inj.1 h).symm)
  | arrive c frame =>
    change (if _ then _ else _) = some s' at h
    split_ifs at h
    exact .inl (hset (Option.some_inj.1 h).symm)
  | endStream c => exact .inl (hset (Option.some_inj.1 h).symm)
  | deliver c =>
    unfold Server.step at h
    dsimp only at h
    split at h
    · exact .inl (hset (Option.some_inj.1 h).symm)
    · cases h
  | next c =>
    obtain ⟨t, ht⟩ := next_eq h
    exact .inl (hset ht)
  | handle c =>
    unfold Server.step at h
    dsimp only at h
    split at h
    next m hp =>
      obtain rfl := Option.some_inj.1 h
      unfold Server.handleDaemonMessage
      split
      next id md =>
        split_ifs with hne
        · exact .inl (hR.refl _)
        · by_cases ho : o = s.made
          · subst ho
            exact .inr ⟨rfl, c, id, md, rfl, hp, hne, register_new_rel hR id md⟩
          · exact .inl (register_rel hR ho)
      all_goals first
        | exact .inl (lookUp_conn ▸ hR.refl _)
        | exact .inl (hR.refl _)
    next => cases h
  | route c => exact absurd rfl (he c)
  | recv c =>
    obtain ⟨t, ht⟩ := recv_eq h
    exact .inl (hset ht)
  | orElse c =>
    obtain ⟨t, ht⟩ := orElse_eq h
    exact .inl (hset ht)
  | write c ok =>
    obtain ⟨t, ht⟩ := write_eq h
    exact .inl (hset ht)
  | cleanUp c =>
    change (if _ then _ else _) = some s' at h
    split_ifs at h
    obtain rfl := Option.some_inj.1 h
    left
    unfold Server.cleanUp
    split
    · exact remove_rel hR ..
    · exact hR.refl _
  | finish c =>
    change (if _ then _ else _) = some s' at h
    split_ifs at h
    exact .inl (hset (Option.some_inj.1 h).symm)
  | reap id =>
    change s.cleanupStale _ id = some s' at h
    unfold Server.cleanupStale at h
    split at h
    · split_ifs at h
      obtain rfl := Option.some_inj.1 h
      exact .inl (remove_rel hR ..)
    · cases h
  | begin k daemonId method id => exact .inl (beginCall_conn h ▸ hR.refl _)
  | proceed k => exact .inl (proceed_rel hR h o)
  | resume k => exact .inl (resume_rel hR h o)
  | timeOut k => exact .inl (timeOut_rel hR h o)

/-- What an event makes of a connection that was there before. -/
theorem conn_step_rel {R : DaemonConnection → DaemonConnection → Prop}
    (hR : DaemonConnection.Respected s.time R) (h : s.step e = some s') (o : ConnRef) :
    R (s.conn o) (s'.conn o) ∨ o = s.made ∧ ∃ c id md, e = .handle c ∧
      (s.task c).phase = .handling (.register id md) ∧ id ≠ "" ∧
      R (.new id md c s.time) (s'.conn o) := by
  by_cases he : ∃ c, e = .route c
  · obtain ⟨c, rfl⟩ := he
    unfold Server.step at h
    dsimp only at h
    split at h
    next m o' _ =>
      obtain rfl := Option.some_inj.1 h
      have hrel := release_rel (s := s.onConnection m o')
        (onConnection_time.symm ▸ hR.toRespectedApart) (.task c) o' o
      exact .inl (hR.trans
        (onConnection_rel hR.toRespectedApart (fun _ _ _ _ _ => hR.addFileChunk _ _ _) o) hrel)
    next => cases h
  · exact conn_step_rel_of_ne hR.toRespectedApart h (fun c hc => he ⟨c, hc⟩) o

/-- A connection keeps its id and its task; a new one has those of the task that registers. -/
theorem conn_step (h : s.step e = some s') (o : ConnRef) :
    (s.conn o).Same (s'.conn o) ∨
      o = s.made ∧ ∃ c id md, e = .handle c ∧ (s.task c).phase = .handling (.register id md) ∧
        id ≠ "" ∧ (s'.conn o).id = id ∧ (s'.conn o).requestTx = c := by
  refine (conn_step_rel DaemonConnection.respected_same h o).imp_right ?_
  rintro ⟨ho, c, id, md, he, hp, hne, hnew⟩
  exact ⟨ho, c, id, md, he, hp, hne, hnew.id, hnew.requestTx⟩

theorem conn_same (h : s.step e = some s') (ho : o < s.made) : (s.conn o).Same (s'.conn o) :=
  (conn_step h o).resolve_right fun hn => absurd (hn.1 ▸ ho) (lt_irrefl _)

end Server

end SandD
