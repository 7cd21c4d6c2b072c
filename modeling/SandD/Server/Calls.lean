import SandD.Server.Pending

/-!
# What an event does to a call

`call_step` is the inversion of `Server.step` as one call sees it: another actor's event leaves the
call where it is, and what it receives comes from the task that routes a response with its request
id to the connection it registered on (`CallStep.received`); its own events take it one step on.
`Ends` lists the ways in which it can end.
-/

namespace SandD

/-- The call is where it was, and has received nothing. A call that has returned may have lost its
sender. -/
structure Call.Kept (call call' : Call) : Prop where
  phase : call'.phase = call.phase
  method : call'.method = call.method
  requestId : call'.requestId = call.requestId
  registeredOn : call'.registeredOn = call.registeredOn
  rx : call'.rx = call.rx ∨
    call'.rx = .closed ∧ call.phase.conn = none ∧ call.registeredOn ≠ none

namespace Call.Kept

variable {call call' call'' : Call}

theorem refl (call : Call) : call.Kept call := ⟨rfl, rfl, rfl, rfl, .inl rfl⟩

theorem of_eq (h : call' = call) : call.Kept call' := h ▸ refl call

theorem trans (h : call.Kept call') (h' : call'.Kept call'') : call.Kept call'' where
  phase := h'.phase.trans h.phase
  method := h'.method.trans h.method
  requestId := h'.requestId.trans h.requestId
  registeredOn := h'.registeredOn.trans h.registeredOn
  rx := by
    have hrx := h'.rx
    rw [h.phase, h.registeredOn] at hrx
    rcases hrx with hrx | hrx
    · rw [hrx]
      exact h.rx
    · exact .inr hrx

/-- A call in progress keeps what it has received. -/
theorem rx_eq (h : call.Kept call') (hc : call.phase.conn ≠ none) : call'.rx = call.rx :=
  h.rx.resolve_right fun hrx => hc hrx.2.1

/-- What has received nothing and lost no sender had not before. -/
theorem rx_empty (h : call.Kept call') (hrx : call'.rx = .empty) : call.rx = .empty := by
  rcases h.rx with h | ⟨h, -⟩
  · exact h.symm.trans hrx
  · cases h.symm.trans hrx

end Call.Kept

namespace Server

variable {s s' : Server} {c : TaskId} {o o' : ConnRef} {k k' : CallId} {r : String} {e : Event}

/-- The ways in which an event ends a call that has found its connection. -/
inductive Ends (s : Server) (k : CallId) : Event → Outcome → Prop
  | response {ask m} (hm : (s.call k).method = .request ask) (hrx : (s.call k).rx = .value m) :
      Ends s k (.resume k) (ask.call.result m)
  | closed {ask} (hm : (s.call k).method = .request ask) (hrx : (s.call k).rx = .closed) :
      Ends s k (.resume k) (.error (.runtimeError ask.call.closed))
  | timedOut {ask o since} (hm : (s.call k).method = .request ask)
      (hp : (s.call k).phase = .waiting o since) (hrx : (s.call k).rx = .empty)
      (ht : since + ask.call.timeout ≤ s.time) :
      Ends s k (.timeOut k) (.error (.timeoutError ask.call.timedOut))
  | unsent {ask o m} (hm : (s.call k).method = .request ask) (hp : (s.call k).phase = .opened o)
      (hsend : s.sendMessage o m = none) :
      Ends s k (.proceed k) (.error (sendError ask.call.sending))
  | other {e outcome} (hm : (s.call k).method.isRequest = false)
      (he : e = .proceed k ∨ e = .resume k) : Ends s k e outcome

/-- What an event can do to a call. -/
inductive CallStep (s : Server) (k : CallId) : Event → Call → Prop
  | kept {e call'} (h : (s.call k).Kept call') : CallStep s k e call'
  | received {c m o r call'} (hc : (s.task c).phase = .routing m o) (hm : m.answers = some r)
      (hk : (s.conn o).pendingRequests.lookup r = some k) (hconn : (s.call k).phase.conn ≠ none)
      (hcall : call' = { s.call k with rx := .value m }) : CallStep s k (.route c) call'
  | found {id method r o call'} (hp : (s.call k).phase = .idle) (hget : s.get id = some o)
      (hcall : call' =
        { s.call k with method := method, phase := .found o, requestId := some r }) :
      CallStep s k (.begin k id method r) call'
  | notFound {id method r call'} (hp : (s.call k).phase = .idle)
      (hcall : call' = { s.call k with
        method := method, phase := .returned (.error (method.notFound id)) }) :
      CallStep s k (.begin k id method r) call'
  | registered {o call'} (hp : (s.call k).phase = .found o)
      (hcall : call' = (s.call k).register o) : CallStep s k (.proceed k) call'
  | posted {o b rest call'} (hp : (s.call k).phase = .found o)
      (hm : (s.call k).method.isRequest = false)
      (hk : { s.call k with method := .post b rest }.Kept call') : CallStep s k (.proceed k) call'
  | waits {o m call'} (hp : (s.call k).phase = .opened o) (hsend : (s.sendMessage o m).isSome)
      (hk : { s.call k with phase := .waiting o s.time }.Kept call') :
      CallStep s k (.proceed k) call'
  | returned {e o outcome method call'} (hp : (s.call k).phase.conn = some o)
      (hends : Ends s k e outcome)
      (hm : method = (s.call k).method ∨
        method.isRequest = false ∧ (s.call k).method.isRequest = false)
      (hk : { s.call k with phase := .returned outcome, method := method }.Kept call') :
      CallStep s k e call'

/-! ### Operations -/

theorem release_kept (hs : Linked s) {h : Owner}
    (hcall : ∀ k, h = .call k → (s.call k).phase.conn ≠ some o) (k : CallId) :
    (s.call k).Kept ((s.release h o).call k) := by
  rcases hs.release_call hcall k with he | ⟨hn, hon, he⟩
  · exact .of_eq he
  · rw [he]
    exact ⟨rfl, rfl, rfl, rfl, .inr ⟨rfl, hn, by rw [hon]; exact Option.some_ne_none o⟩⟩

theorem remove_kept (hs : Linked s) (id : String) (k : CallId) :
    (s.call k).Kept ((s.remove id).call k) := by
  unfold Server.remove
  split
  · refine release_kept (hs.eraseEntry id) ?_ k
    exact fun _ h => nomatch h
  · exact .refl _

theorem register_kept (hs : Linked s) {id : String} {md : DaemonMetadata} (hne : id ≠ "")
    (k : CallId) : (s.call k).Kept ((s.register id md c).call k) := by
  unfold Server.register
  split
  · refine release_kept (hs.insertNew hne) ?_ k
    exact fun _ h => nomatch h
  · exact .refl _

theorem lookUp_call (m : Message) : (s.lookUp c m).call = s.call := by
  unfold Server.lookUp
  split
  · rfl
  · split
    · rfl
    · split_ifs <;> rfl

theorem handleDaemonMessage_kept (hs : Linked s) (m : Message) (k : CallId) :
    (s.call k).Kept ((s.handleDaemonMessage c m).call k) := by
  unfold Server.handleDaemonMessage
  split
  · split_ifs with h
    · exact .refl _
    · exact register_kept hs h k
  all_goals first
    | exact .refl _
    | exact .of_eq (congrFun (lookUp_call _) k)

/-- What a message does to the calls once its connection was looked up. -/
theorem onConnection_call (hs : Linked s) (m : Message) (k : CallId) :
    (s.call k).Kept ((s.onConnection m o).call k) ∨
      ∃ r, m.answers = some r ∧ (s.conn o).pendingRequests.lookup r = some k ∧
        (s.call k).phase.conn ≠ none ∧
        (s.onConnection m o).call k = { s.call k with rx := .value m } := by
  unfold Server.onConnection
  split
  · exact .inl (.refl _)
  · left
    unfold Server.sendSessionOutput
    split
    next k' _ =>
      rw [setCall_call, Function.update_apply]
      split_ifs with h
      · rw [h]
        exact ⟨rfl, rfl, rfl, rfl, .inl rfl⟩
      · exact .refl _
    next => exact .refl _
  · exact .inl (.refl _)
  · exact .inl (.refl _)
  · split
    next r hr =>
      unfold Server.completeRequest DaemonConnection.completeRequest
      split
      next k' conn heq =>
        have hk' : (s.conn o).pendingRequests.lookup r = some k' := congrArg Prod.fst heq
        rw [setCall_call, setConn_call, Function.update_apply]
        split_ifs with h
        · subst h
          by_cases hc : (s.call k).phase.conn = none
          · left
            have hon := ((hs.pending o r k).1 hk').1
            have hi : (s.call k).phase ≠ .idle := fun hi =>
              nomatch ((hs.calls k).idle hi).2.symm.trans hon
            rw [Call.receive_of_returned hc hi]
            exact ⟨rfl, rfl, rfl, rfl, .inr ⟨rfl, hc, by rw [hon]; exact Option.some_ne_none o⟩⟩
          · exact .inr ⟨r, hr, hk', hc, Call.receive_of_conn hc⟩
        · exact .inl (.refl _)
      next => exact .inl (.refl _)
    next => exact .inl (.refl _)

theorem returns_kept (hs : Linked s) (outcome : Outcome) (k' : CallId) :
    ((s.setCallPhase k (.returned outcome)).call k').Kept ((s.returns k o outcome).call k') := by
  have hs' : Linked (s.setCallPhase k (.returned outcome)) :=
    hs.setCall _ ((hs.calls k).returned outcome) rfl rfl rfl (fun _ => rfl) fun _ h => nomatch h
  refine release_kept hs' ?_ k'
  rintro k₁ hk₁ h
  cases hk₁
  rw [setCallPhase, setCall_call, Function.update_self] at h
  cases h

theorem returns_kept_of_ne (hs : Linked s) (outcome : Outcome) (hne : k' ≠ k) :
    (s.call k').Kept ((s.returns k o outcome).call k') := by
  have h := returns_kept (o := o) (k := k) hs outcome k'
  rwa [setCallPhase, setCall_call, Function.update_of_ne hne] at h

theorem returns_kept_self (hs : Linked s) (outcome : Outcome) :
    { s.call k with phase := .returned outcome }.Kept ((s.returns k o outcome).call k) := by
  have h := returns_kept (o := o) (k := k) hs outcome k
  rwa [setCallPhase, setCall_call, Function.update_self] at h

theorem callSend_kept_of_ne (hs : Linked s) (m : Message) (er : PyError) (phase : CallPhase)
    (hne : k' ≠ k) : (s.call k').Kept ((s.callSend k o m er phase).call k') := by
  unfold Server.callSend
  split
  next s' h =>
    obtain ⟨hs', hcall⟩ := hs.sendMessage h
    rw [← hcall]
    split
    · exact returns_kept_of_ne hs' _ hne
    · rw [setCallPhase, setCall_call, Function.update_of_ne hne]
      exact .refl _
  next => exact returns_kept_of_ne hs _ hne

/-- A call that sends its message goes on, or ends because nobody receives. -/
theorem callSend_self (hs : Linked s) (o : ConnRef) (k : CallId) (m : Message) (er : PyError)
    (phase : CallPhase) :
    (s.sendMessage o m).isSome ∧
        { s.call k with phase := phase }.Kept ((s.callSend k o m er phase).call k) ∨
      s.sendMessage o m = none ∧
        { s.call k with phase := .returned (.error er) }.Kept
          ((s.callSend k o m er phase).call k) := by
  unfold Server.callSend
  split
  next s' h =>
    left
    obtain ⟨hs', hcall⟩ := hs.sendMessage h
    refine ⟨by rw [h]; rfl, ?_⟩
    rw [← hcall]
    split
    · exact returns_kept_self hs' _
    · rw [setCallPhase, setCall_call, Function.update_self]
      exact .refl _
  next h => exact .inr ⟨h, returns_kept_self hs _⟩

/-! ### Events -/

/-- The events of other calls leave a call where it is. -/
theorem proceed_kept_of_ne (hs : Linked s) (h : s.proceed k = some s') (hne : k' ≠ k) :
    (s.call k').Kept (s'.call k') := by
  unfold Server.proceed at h
  dsimp only at h
  split at h
  case h_4 =>
    obtain rfl := Option.some_inj.1 h
    exact returns_kept_of_ne hs _ hne
  case h_5 o r b posting rest hp hr hm =>
    obtain rfl := Option.some_inj.1 h
    have hs' := hs.post (k := k) (by rw [hm]; rfl) b rest
    have hk := callSend_kept_of_ne (o := o) hs' (posting.message r) (sendError posting.sending)
      (.found o) hne
    rwa [setCall_call, Function.update_of_ne hne] at hk
  case h_9 => cases h
  all_goals
    obtain rfl := Option.some_inj.1 h
    first
      | exact callSend_kept_of_ne hs _ _ _ hne
      | (rw [setCall_call, setConn_call, Function.update_of_ne hne]; exact .refl _)

theorem resume_kept_of_ne (hs : Linked s) (h : s.resume k = some s') (hne : k' ≠ k) :
    (s.call k').Kept (s'.call k') := by
  unfold Server.resume at h
  dsimp only at h
  split at h
  · obtain rfl := Option.some_inj.1 h
    exact returns_kept_of_ne hs _ hne
  · obtain rfl := Option.some_inj.1 h
    exact returns_kept_of_ne hs _ hne
  · split at h
    · split_ifs at h
      obtain rfl := Option.some_inj.1 h
      exact returns_kept_of_ne
        (hs.setConn ((s.conn _).completeFileTransfer _).2 rfl rfl fun _ _ h => h) _ hne
    · cases h
  · cases h

theorem timeOut_kept_of_ne (hs : Linked s) (h : s.timeOut k = some s') (hne : k' ≠ k) :
    (s.call k').Kept (s'.call k') := by
  unfold Server.timeOut at h
  dsimp only at h
  split at h
  · split_ifs at h
    obtain rfl := Option.some_inj.1 h
    exact returns_kept_of_ne hs _ hne
  · cases h

theorem beginCall_kept_of_ne {id : String} {method : Method}
    (h : s.beginCall k id method r = some s') (hne : k' ≠ k) : s'.call k' = s.call k' := by
  unfold Server.beginCall at h
  split at h
  · split at h
    · split_ifs at h
      obtain rfl := Option.some_inj.1 h
      rw [setCall_call, Function.update_of_ne hne]
      rfl
    · obtain rfl := Option.some_inj.1 h
      rw [setCall_call, Function.update_of_ne hne]
  · cases h

/-- A call's own steps. -/
theorem proceed_step (hs : Linked s) (h : s.proceed k = some s') :
    CallStep s k (.proceed k) (s'.call k) := by
  unfold Server.proceed at h
  dsimp only at h
  split at h
  case h_1 o r ask hp hr hm =>
    obtain rfl := Option.some_inj.1 h
    exact .registered hp (Function.update_self ..)
  case h_2 o r _ _ _ hp hr hm =>
    obtain rfl := Option.some_inj.1 h
    exact .registered hp (Function.update_self ..)
  case h_3 o r path hp hr hm =>
    obtain rfl := Option.some_inj.1 h
    exact .registered hp (Function.update_self ..)
  case h_4 o r b hp hr hm =>
    obtain rfl := Option.some_inj.1 h
    exact .returned (by rw [hp]; rfl) (.other (by rw [hm]; rfl) (.inl rfl)) (.inl rfl)
      (returns_kept_self hs _)
  case h_5 o r b posting rest hp hr hm =>
    obtain rfl := Option.some_inj.1 h
    have hm' : (s.call k).method.isRequest = false := by rw [hm]; rfl
    have hs' := hs.post (k := k) hm' b rest
    have hsend := callSend_self hs' o k (posting.message r) (sendError posting.sending) (.found o)
    rw [setCall_call, Function.update_self] at hsend
    rcases hsend with ⟨-, hk⟩ | ⟨-, hk⟩
    · exact .posted hp hm' ⟨hk.phase.trans hp.symm, hk.method, hk.requestId, hk.registeredOn,
        .inl (hk.rx_eq (Option.some_ne_none o))⟩
    · exact .returned (by rw [hp]; rfl) (.other hm' (.inl rfl)) (.inr ⟨rfl, hm'⟩) hk
  case h_6 o r ask hp hr hm =>
    obtain rfl := Option.some_inj.1 h
    rcases callSend_self hs o k (ask.call.message r) (sendError ask.call.sending)
      (.waiting o s.time) with ⟨hsend, hk⟩ | ⟨hsend, hk⟩
    · exact .waits hp hsend hk
    · exact .returned (by rw [hp]; rfl) (.unsent hm hp hsend) (.inl rfl) hk
  case h_7 o r rows cols term hp hr hm =>
    obtain rfl := Option.some_inj.1 h
    have hm' : (s.call k).method.isRequest = false := by rw [hm]; rfl
    rcases callSend_self hs o k (.newSession r rows cols term) (sendError "Failed to start session")
      (.returned (.ok (.session r))) with ⟨-, hk⟩ | ⟨-, hk⟩
    · exact .returned (by rw [hp]; rfl) (.other hm' (.inl rfl)) (.inl rfl) hk
    · exact .returned (by rw [hp]; rfl) (.other hm' (.inl rfl)) (.inl rfl) hk
  case h_8 o r path hp hr hm =>
    obtain rfl := Option.some_inj.1 h
    have hm' : (s.call k).method.isRequest = false := by rw [hm]; rfl
    rcases callSend_self hs o k (.fileDownloadStart r path) (sendError "Failed to start download")
      (.waiting o s.time) with ⟨hsend, hk⟩ | ⟨-, hk⟩
    · exact .waits hp hsend hk
    · exact .returned (by rw [hp]; rfl) (.other hm' (.inl rfl)) (.inl rfl) hk
  case h_9 => cases h

theorem resume_step (hs : Linked s) (h : s.resume k = some s') :
    CallStep s k (.resume k) (s'.call k) := by
  unfold Server.resume at h
  dsimp only at h
  split at h
  next o since ask m hp hm hrx =>
    obtain rfl := Option.some_inj.1 h
    exact .returned (by rw [hp]; rfl) (.response hm hrx) (.inl rfl) (returns_kept_self hs _)
  next o since ask hp hm hrx =>
    obtain rfl := Option.some_inj.1 h
    exact .returned (by rw [hp]; rfl) (.closed hm hrx) (.inl rfl) (returns_kept_self hs _)
  next _ o since path hp hm =>
    split at h
    next r _ =>
      split_ifs at h
      obtain rfl := Option.some_inj.1 h
      have hs' := hs.setConn (o := o) ((s.conn o).completeFileTransfer r).2 rfl rfl fun _ _ h => h
      exact .returned (by rw [hp]; rfl) (.other (by rw [hm]; rfl) (.inr rfl)) (.inl rfl)
        (returns_kept_self hs' _)
    next => cases h
  next => cases h

theorem timeOut_step (hs : Linked s) (h : s.timeOut k = some s') :
    CallStep s k (.timeOut k) (s'.call k) := by
  unfold Server.timeOut at h
  dsimp only at h
  split at h
  next o since ask hp hm hrx =>
    split_ifs at h with ht
    obtain rfl := Option.some_inj.1 h
    exact .returned (by rw [hp]; rfl) (.timedOut hm hp hrx ht) (.inl rfl) (returns_kept_self hs _)
  next => cases h

theorem beginCall_step {id : String} {method : Method} (h : s.beginCall k id method r = some s') :
    CallStep s k (.begin k id method r) (s'.call k) := by
  unfold Server.beginCall at h
  split at h
  next hp =>
    split at h
    next o ho =>
      split_ifs at h
      obtain rfl := Option.some_inj.1 h
      exact .found hp ho (Function.update_self ..)
    next =>
      obtain rfl := Option.some_inj.1 h
      exact .notFound hp (Function.update_self ..)
  next => cases h

/-- After the message is dealt with, the task gives the connection back. -/
theorem routed_kept (hs : Linked s) (m : Message) (k : CallId) :
    ((s.onConnection m o).call k).Kept ((s.routed c m o).call k) := by
  unfold Server.routed
  refine release_kept (hs.onConnection m) ?_ k
  exact fun _ h => nomatch h

theorem routed_step (hs : Linked s) {m : Message} (hc : (s.task c).phase = .routing m o)
    (k : CallId) : CallStep s k (.route c) ((s.routed c m o).call k) := by
  have hs' := hs.onConnection (o := o) m
  have hrel := routed_kept (c := c) (o := o) hs m k
  rcases onConnection_call (o := o) hs m k with hk | ⟨r, hr, hk, hconn, hcall⟩
  · exact .kept (hk.trans hrel)
  · -- a call in progress owns the connection, which therefore stays
    refine .received hc hr hk hconn ?_
    rcases hs'.release_call (o := o) (h := .task c) (fun _ h => nomatch h) k with he | ⟨hn, -, -⟩
    · exact he.trans hcall
    · rw [hcall] at hn
      exact absurd hn hconn

/-- **What an event does to a call.** -/
theorem call_step (hs : Linked s) (h : s.step e = some s') (k : CallId) :
    CallStep s k e (s'.call k) := by
  cases e with
  | tick secs => exact .kept (Option.some_inj.1 h ▸ .refl _)
  | accept c =>
    change (if _ then _ else _) = some s' at h
    split_ifs at h
    exact .kept (Option.some_inj.1 h ▸ .refl _)
  | arrive c frame =>
    change (if _ then _ else _) = some s' at h
    split_ifs at h
    exact .kept (Option.some_inj.1 h ▸ .refl _)
  | endStream c => exact .kept (Option.some_inj.1 h ▸ .refl _)
  | deliver c =>
    unfold Server.step at h
    dsimp only at h
    split at h
    · exact .kept (Option.some_inj.1 h ▸ .refl _)
    · cases h
  | next c =>
    obtain ⟨t, rfl⟩ := next_eq h
    exact .kept (.refl _)
  | handle c =>
    unfold Server.step at h
    dsimp only at h
    split at h
    · exact .kept (Option.some_inj.1 h ▸ handleDaemonMessage_kept hs _ k)
    · cases h
  | route c =>
    unfold Server.step at h
    dsimp only at h
    split at h
    next m o hc =>
      obtain rfl := Option.some_inj.1 h
      exact routed_step hs hc k
    next => cases h
  | recv c =>
    obtain ⟨t, rfl⟩ := recv_eq h
    exact .kept (.refl _)
  | orElse c =>
    obtain ⟨t, rfl⟩ := orElse_eq h
    exact .kept (.refl _)
  | write c ok =>
    obtain ⟨t, rfl⟩ := write_eq h
    exact .kept (.refl _)
  | cleanUp c =>
    change (if _ then _ else _) = some s' at h
    split_ifs at h
    obtain rfl := Option.some_inj.1 h
    refine .kept ?_
    unfold Server.cleanUp
    split
    · exact remove_kept hs _ k
    · exact .refl _
  | finish c =>
    change (if _ then _ else _) = some s' at h
    split_ifs at h
    exact .kept (Option.some_inj.1 h ▸ .refl _)
  | reap id =>
    change s.cleanupStale _ id = some s' at h
    unfold Server.cleanupStale at h
    split at h
    · split_ifs at h
      exact .kept (Option.some_inj.1 h ▸ remove_kept hs id k)
    · cases h
  | begin k' daemonId method id =>
    by_cases hk : k = k'
    · subst hk
      exact beginCall_step h
    · exact .kept (.of_eq (beginCall_kept_of_ne h hk))
  | proceed k' =>
    by_cases hk : k = k'
    · subst hk
      exact proceed_step hs h
    · exact .kept (proceed_kept_of_ne hs h hk)
  | resume k' =>
    by_cases hk : k = k'
    · subst hk
      exact resume_step hs h
    · exact .kept (resume_kept_of_ne hs h hk)
  | timeOut k' =>
    by_cases hk : k = k'
    · subst hk
      exact timeOut_step hs h
    · exact .kept (timeOut_kept_of_ne hs h hk)

end Server

end SandD
