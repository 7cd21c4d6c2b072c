import SandD.Server.Tasks

/-!
# Callers that wait

Three things a caller may expect of the connection its request is registered on, and when it can.

* `busyRight_iff`: the connection is shown as busy exactly while a caller waits on it.
* `returned_leaves_none_iff`: when `handle_websocket` has returned, nobody waits on its connections.
* `response_received_iff`: a response that the daemon sends reaches the caller.
-/

namespace SandD

/-- The call is in progress with a request on `o`, and has no response yet. -/
structure Call.Waits (call : Call) (o : ConnRef) : Prop where
  on : call.registeredOn = some o
  conn : call.phase.conn = some o
  request : call.method.isRequest = true
  rx : call.rx = .empty

/-- The call has raised because its time was over or its message could not be sent, and no
response to it has come in since. -/
structure Call.GaveUp (call : Call) (o : ConnRef) : Prop where
  on : call.registeredOn = some o
  ended : ∃ ask, call.method = .request ask ∧
    (call.phase = .returned (.error (.timeoutError ask.call.timedOut)) ∨
      call.phase = .returned (.error (sendError ask.call.sending)))
  rx : call.rx = .empty

namespace Server

variable {s s' : Server} {c : TaskId} {o : ConnRef} {k : CallId} {r : String} {e : Event}

/-- The connection of the entry is shown as busy for the requests that callers wait for. -/
structure BusyRight (s : Server) (id : String) (o : ConnRef) : Prop where
  pending : ∀ r, r ∈ (s.conn o).pendingRequests ↔
    ∃ k, (s.call k).requestId = some r ∧ (s.call k).Waits o
  isBusy : (s.conn o).isBusy = true ↔ ∃ k, (s.call k).Waits o
  getDaemon : ∀ info, s.getDaemon id = some info → (info.isBusy = true ↔ ∃ k, (s.call k).Waits o)
  listDaemons : ∀ labels, ∀ info ∈ s.listDaemons labels, info.id = id →
    (info.isBusy = true ↔ ∃ k, (s.call k).Waits o)
  stats : ∀ info, (id, info) ∈ s.getStats.daemons → (info.isBusy = true ↔ ∃ k, (s.call k).Waits o)

/-! ### Busy -/

/-- A request that has returned and has no response gave up: the step lemma. -/
theorem gaveUp_step (hs : Linked s)
    (ih : ∀ k o, (s.call k).registeredOn = some o → (s.call k).method.isRequest = true →
      (s.call k).phase.conn = none → (s.call k).rx = .empty → (s.call k).GaveUp o)
    (h : s.step e = some s') (hon : (s'.call k).registeredOn = some o)
    (hm : (s'.call k).method.isRequest = true) (hp : (s'.call k).phase.conn = none)
    (hrx : (s'.call k).rx = .empty) : (s'.call k).GaveUp o := by
  have hcall := call_step hs h k
  generalize s'.call k = call' at hcall hon hm hp hrx ⊢
  cases hcall with
  | kept hk =>
    have hrx₀ := hk.rx_empty hrx
    obtain ⟨-, ⟨ask, hask, hended⟩, -⟩ := ih k o (hk.registeredOn ▸ hon) (hk.method ▸ hm)
      (hk.phase ▸ hp) hrx₀
    exact ⟨hon, ⟨ask, hk.method.trans hask, by rw [hk.phase]; exact hended⟩, hrx⟩
  | received _ _ _ _ hc =>
    rw [hc] at hrx
    cases hrx
  | found hidle _ hc =>
    rw [hc] at hon
    cases ((hs.calls k).idle hidle).2.symm.trans hon
  | notFound hidle hc =>
    rw [hc] at hon
    cases ((hs.calls k).idle hidle).2.symm.trans hon
  | registered _ hc =>
    rw [hc] at hp
    cases hp
  | posted hf hm' hk =>
    rw [hk.method] at hm
    cases hm
  | waits _ _ hk =>
    rw [hk.phase] at hp
    cases hp
  | returned _ hends hm' hk =>
    rcases hm' with rfl | ⟨hm', -⟩
    case inr =>
      rw [hk.method] at hm
      cases hm'.symm.trans hm
    have hrx₀ : (s.call k).rx = .empty := hk.rx_empty hrx
    cases hends with
    | response _ hv => cases hv.symm.trans hrx₀
    | closed _ hv => cases hv.symm.trans hrx₀
    | timedOut hask _ _ _ => exact ⟨hon, ⟨_, hk.method.trans hask, .inl hk.phase⟩, hrx⟩
    | unsent hask _ _ => exact ⟨hon, ⟨_, hk.method.trans hask, .inr hk.phase⟩, hrx⟩
    | other hother _ =>
      rw [hk.method] at hm
      cases hother.symm.trans hm

/-- In every state, a request that has returned and has no response gave up. -/
theorem gaveUp_of_reach (hr : Reach step Server.initial s)
    (hon : (s.call k).registeredOn = some o) (hm : (s.call k).method.isRequest = true)
    (hp : (s.call k).phase.conn = none) (hrx : (s.call k).rx = .empty) : (s.call k).GaveUp o := by
  refine (hr.invariant (I := fun s => Linked s ∧ ∀ k o, (s.call k).registeredOn = some o →
    (s.call k).method.isRequest = true → (s.call k).phase.conn = none →
    (s.call k).rx = .empty → (s.call k).GaveUp o) ⟨Linked.initial, ?_⟩ ?_).2 k o hon hm hp hrx
  · exact fun _ _ h => nomatch h
  · intro s e s' ⟨hs, ih⟩ h
    exact ⟨hs.step h, fun _ _ => gaveUp_step hs ih h⟩

/-- What is waited for is in the map, and nothing else but what was given up. -/
theorem mem_pending_iff (hs : Linked s) : r ∈ (s.conn o).pendingRequests ↔
    ∃ k, (s.call k).requestId = some r ∧ (s.call k).registeredOn = some o ∧
      (s.call k).rx = .empty ∧ (s.call k).method.isRequest = true := by
  rw [Finmap.mem_iff]
  refine exists_congr fun k => ?_
  rw [hs.pending o r k]
  tauto

theorem busyRight_of (hs : Linked s) {id : String} (hid : s.get id = some o)
    (h : ∀ k, (s.call k).registeredOn = some o → (s.call k).method.isRequest = true →
      (s.call k).rx = .empty → (s.call k).phase.conn ≠ none) : s.BusyRight id o := by
  have hpending : ∀ r, r ∈ (s.conn o).pendingRequests ↔
      ∃ k, (s.call k).requestId = some r ∧ (s.call k).Waits o := by
    intro r
    rw [mem_pending_iff hs]
    refine exists_congr fun k => and_congr_right fun hr =>
      ⟨?_, fun hw => ⟨hw.on, hw.rx, hw.request⟩⟩
    rintro ⟨hon, hrx, hm⟩
    obtain ⟨o', ho'⟩ := Option.ne_none_iff_exists'.1 (h k hon hm hrx)
    obtain rfl := (hs.calls k).one o' o ho' hon
    exact ⟨hon, ho', hm, hrx⟩
  have hbusy : (s.conn o).isBusy = true ↔ ∃ k, (s.call k).Waits o := by
    rw [DaemonConnection.isBusy_eq_true]
    constructor
    · rintro ⟨r, hr⟩
      obtain ⟨k, -, hw⟩ := (hpending r).1 hr
      exact ⟨k, hw⟩
    · rintro ⟨k, hw⟩
      obtain ⟨r, hr⟩ := Option.ne_none_iff_exists'.1
        ((hs.calls k).drawn (.inr (by rw [hw.on]; exact Option.some_ne_none o)))
      exact ⟨r, (hpending r).2 ⟨k, hr, hw⟩⟩
  have hentry := (hs.entries id o hid).1
  refine ⟨hpending, hbusy, ?_, ?_, ?_⟩
  · intro info hinfo
    rw [getDaemon, hid] at hinfo
    obtain rfl := Option.some_inj.1 hinfo
    exact hbusy
  · intro labels info hinfo hinfoid
    obtain ⟨id', -, hinfo⟩ := (Multiset.mem_filterMap _ _).1 hinfo
    obtain ⟨o', ho', rfl⟩ := Option.map_eq_some_iff.1 hinfo
    have : id' = id := (hs.entries id' o' ho').1.symm.trans hinfoid
    subst this
    obtain rfl := Option.some_inj.1 (hid.symm.trans ho')
    exact hbusy
  · intro info hinfo
    obtain ⟨⟨id', o'⟩, hmem, heq⟩ := Multiset.mem_map.1 hinfo
    have ho' : s.get id' = some o' := Finmap.lookup_eq_some_iff.2 hmem
    obtain ⟨h₁, rfl⟩ := Prod.mk.injEq .. ▸ heq
    have : id' = id := (hs.entries id' o' ho').1.symm.trans h₁
    subst this
    obtain rfl := Option.some_inj.1 (hid.symm.trans ho')
    exact hbusy

theorem not_busyRight_of_gaveUp (hs : Linked s) {id : String} (hk : (s.call k).GaveUp o) :
    ¬ s.BusyRight id o := by
  intro h
  obtain ⟨ask, hask, hended⟩ := hk.ended
  obtain ⟨r, hr⟩ := Option.ne_none_iff_exists'.1
    ((hs.calls k).drawn (.inr (by rw [hk.on]; exact Option.some_ne_none o)))
  obtain ⟨k', hr', hw⟩ := (h.pending r).1
    ((mem_pending_iff hs).2 ⟨k, hr, hk.on, hk.rx, by rw [hask]; rfl⟩)
  obtain rfl := hs.ids k' k r hr' hr
  have hconn := hw.conn
  rcases hended with hp | hp <;> rw [hp] at hconn <;> cases hconn

/-- **A connection is shown as busy exactly while a caller waits on it, if and only if no call on
it has given up.** -/
theorem busyRight_iff (hr : Reach step Server.initial s) {id : String}
    (hid : s.get id = some o) : s.BusyRight id o ↔ ∀ k, ¬ (s.call k).GaveUp o := by
  have hs := linked_of_reach hr
  refine ⟨fun h k hk => not_busyRight_of_gaveUp hs hk h, fun h => ?_⟩
  exact busyRight_of hs hid fun k hon hm hrx hp => h k (gaveUp_of_reach hr hon hm hp hrx)

/-- A daemon registers, and a command is sent to it. -/
def sampleExec (timeout : ℕ) : List Event :=
  [.accept 0, .arrive 0 (.text (some (.register "d" ⟨"h", "linux", "x86_64", "0.1.0", ∅⟩))),
    .next 0, .handle 0, .write 0 true, .begin 0 "d" (.request (.exec "true" timeout ∅ none)) "r",
    .proceed 0, .proceed 0, .recv 0, .write 0 true]

/-- The caller's time is over before the response has come. -/
def sampleGaveUp : Server :=
  (run step initial (sampleExec 1 ++ [.tick 1, .timeOut 0])).getD initial

theorem sampleGaveUp_reach : Reach step initial sampleGaveUp := .of_isSome (by decide +kernel)

theorem sampleGaveUp_get : sampleGaveUp.get "d" = some 0 := by decide +kernel

theorem sampleGaveUp_gaveUp : (sampleGaveUp.call 0).GaveUp 0 :=
  ⟨by decide +kernel, ⟨.exec "true" 1 ∅ none, by decide +kernel, .inl (by decide +kernel)⟩,
    by decide +kernel⟩

/-- The theorem at a state in which a call has given up. -/
theorem busyRight_iff_sample : ¬ sampleGaveUp.BusyRight "d" 0 :=
  fun h => (busyRight_iff sampleGaveUp_reach sampleGaveUp_get).1 h 0 sampleGaveUp_gaveUp

/-- The daemon is shown as busy for a call that has raised. -/
theorem busy_without_caller : ∃ s id o, Reach step initial s ∧ s.get id = some o ∧
    (s.conn o).isBusy = true ∧ ¬ s.BusyRight id o :=
  ⟨sampleGaveUp, "d", 0, sampleGaveUp_reach, sampleGaveUp_get, by decide +kernel,
    not_busyRight_of_gaveUp (linked_of_reach sampleGaveUp_reach) sampleGaveUp_gaveUp⟩

/-! ### Disconnects -/

/-- Messages that answer a request are looked up for. -/
theorem handleDaemonMessage_of_answers {m : Message} (hm : m.answers = some r) :
    s.handleDaemonMessage c m = s.lookUp c m := by
  cases m <;> cases hm <;> rfl

theorem onConnection_of_answers {m : Message} (hm : m.answers = some r) :
    s.onConnection m o = s.completeRequest o r m := by
  cases m <;> cases hm <;> rfl

/-- A response that is routed to the connection the caller waits on is received. -/
theorem routed_receives (hs : Linked s) {m : Message} (hm : m.answers = some r)
    (hr : (s.call k).requestId = some r) (hw : (s.call k).Waits o) :
    ((s.routed c m o).call k).rx = .value m := by
  have hlookup := (hs.pending o r k).2 ⟨hw.on, hr, hw.rx, hw.request⟩
  have hc : (s.call k).phase.conn ≠ none := by rw [hw.conn]; exact Option.some_ne_none o
  have hcall : ((s.onConnection m o).call k) = { s.call k with rx := .value m } := by
    rw [onConnection_of_answers hm, completeRequest, DaemonConnection.completeRequest, hlookup]
    exact (Function.update_self ..).trans (Call.receive_of_conn hc)
  have hkept := routed_kept (c := c) (o := o) hs m k
  rw [hcall] at hkept
  exact hkept.rx_eq hc

/-- The server processes the message that a task has in hand, while `P` holds at the moment it is
done with it: the task looks the daemon up, and when it finds a connection goes on with it, after
any steps of the others. -/
inductive Processed (s : Server) (c : TaskId) (P : Server → Prop) : Server → Prop
  | unrouted {s₁ : Server} (hP : P s) (h : s.step (.handle c) = some s₁)
      (hp : ∀ m o, (s₁.task c).phase ≠ .routing m o) : Processed s c P s₁
  | routed {s₁ s₂ s₃ : Server} {es : List Event} (h : s.step (.handle c) = some s₁)
      (hrun : run step s₁ es = some s₂) (hes : ∀ e ∈ es, e.actor ≠ some c) (hP : P s₂)
      (hroute : s₂.step (.route c) = some s₃) : Processed s c P s₃

/-- Where a task is does not change by the steps of others. -/
theorem run_phase {es : List Event} (hes : ∀ e ∈ es, e.actor ≠ some c)
    (hrun : run step s es = some s') : (s'.task c).phase = (s.task c).phase := by
  refine run_invariant_along (I := fun s' => (s'.task c).phase = (s.task c).phase)
    (P := fun _ e => e.actor ≠ some c) (fun s₁ e s₂ h₁ ha h => ?_) hrun (.of_forall ?_) rfl
  · rw [(task_kept h ha).kept.phase, h₁]
  · exact fun e he _ => hes e he

/-- The look-up for a response. -/
theorem lookUp_phase {m : Message} (hm : m.answers = some r) :
    ((s.lookUp c m).task c).phase =
      match (s.task c).daemonId.bind s.get with
      | some o => .routing m o
      | none => .select true := by
  have hne : m ≠ .heartbeat := by
    rintro rfl
    cases hm
  unfold Server.lookUp setPhase
  cases hid : (s.task c).daemonId with
  | none => rw [setTask_task, Function.update_self]; rfl
  | some id =>
    dsimp only [Option.bind]
    cases s.get id with
    | none => rw [if_neg hne, setTask_task, Function.update_self]
    | some o => rw [setTask_task, Function.update_self]

/-- **A response that the daemon sends on a connection reaches the caller that still waits, if and
only if the registry's entry for the daemon is, when the server looks it up, the connection the
caller registered its request on.** -/
theorem response_received_iff (hr : Reach step Server.initial s) {m : Message}
    (hp : (s.task c).phase = .handling m) (hm : m.answers = some r)
    (h : Processed s c (fun s => (s.call k).requestId = some r ∧ (s.call k).Waits o) s') :
    (s'.call k).rx = .value m ↔ ∃ id, (s.task c).daemonId = some id ∧ s.get id = some o := by
  have hs := linked_of_reach hr
  have hhandle : ∀ {s₁}, s.step (.handle c) = some s₁ → s₁ = s.lookUp c m := by
    intro s₁ h
    rw [step, hp] at h
    exact (Option.some_inj.1 h).symm.trans (handleDaemonMessage_of_answers hm)
  have hfound : (∃ id, (s.task c).daemonId = some id ∧ s.get id = some o) ↔
      (s.task c).daemonId.bind s.get = some o := Option.bind_eq_some_iff.symm
  rw [hfound]
  cases h with
  | unrouted hP h hun =>
    obtain rfl := hhandle h
    rw [lookUp_call, hP.2.rx]
    refine ⟨fun h => (by cases h), fun hget => absurd ?_ (hun m o)⟩
    rw [lookUp_phase hm, hget]
  | routed h hrun hes hP hroute =>
    obtain rfl := hhandle h
    rename_i s₂ es
    have hs₂ : Linked s₂ := run_invariant (fun _ _ _ hs h => hs.step h) hrun (hs.step h)
    have hphase := run_phase hes hrun
    rw [lookUp_phase hm] at hphase
    cases hget : (s.task c).daemonId.bind s.get with
    | none =>
      rw [hget] at hphase
      rw [step, hphase] at hroute
      cases hroute
    | some o' =>
      rw [hget] at hphase
      have hcall := call_step hs₂ hroute k
      rw [step, hphase] at hroute
      obtain rfl := Option.some_inj.1 hroute
      rw [Option.some_inj]
      constructor
      · intro hrx
        cases hcall with
        | kept hkept =>
          rw [hkept.rx_eq (by rw [hP.2.conn]; exact Option.some_ne_none o), hP.2.rx] at hrx
          cases hrx
        | received hc _ hk' _ _ =>
          cases hphase.symm.trans hc
          exact Option.some_inj.1 (((hs₂.pending _ _ k).1 hk').1.symm.trans hP.2.on)
        | returned hc hends hm' hkept =>
          cases hends with
          | other hother _ => cases hother.symm.trans hP.2.request
      · rintro rfl
        exact routed_receives hs₂ hm hP.1 hP.2

/-- A run in which the reaper takes the daemon for dead while its socket is healthy, and the
response comes after that. -/
def sampleReaped : Server :=
  (run step initial (sampleExec 300 ++ [.tick 31, .reap "d",
    .arrive 0 (.text (some (.commandOutput "r" "" "" 0 5))), .next 0])).getD initial

theorem sampleReaped_reach : Reach step initial sampleReaped := .of_isSome (by decide +kernel)

theorem sampleReaped_waits : (sampleReaped.call 0).requestId = some "r" ∧
    (sampleReaped.call 0).Waits 0 :=
  ⟨by decide +kernel, ⟨by decide +kernel, by decide +kernel, by decide +kernel,
    by decide +kernel⟩⟩

theorem sampleReaped_phase :
    (sampleReaped.task 0).phase = .handling (.commandOutput "r" "" "" 0 5) := by decide +kernel

theorem sampleReaped_processed : Processed sampleReaped 0
    (fun s => (s.call 0).requestId = some "r" ∧ (s.call 0).Waits 0)
    (sampleReaped.lookUp 0 (.commandOutput "r" "" "" 0 5)) := by
  refine .unrouted sampleReaped_waits (by rw [step, sampleReaped_phase]; rfl) fun m o h => ?_
  rw [lookUp_phase (r := "r") rfl] at h
  have hget : (sampleReaped.task 0).daemonId.bind sampleReaped.get = none := by decide +kernel
  rw [hget] at h
  cases h

/-- The theorem at a state in which the entry is gone. -/
theorem response_received_iff_sample :
    ((sampleReaped.lookUp 0 (.commandOutput "r" "" "" 0 5)).call 0).rx ≠
      .value (.commandOutput "r" "" "" 0 5) := by
  intro h
  obtain ⟨id, hid, hget⟩ := (response_received_iff sampleReaped_reach sampleReaped_phase
    (r := "r") (o := 0) rfl sampleReaped_processed).1 h
  have hnone : (sampleReaped.task 0).daemonId.bind sampleReaped.get = none := by decide +kernel
  rw [hid, Option.bind_some, hget] at hnone
  cases hnone

/-- A response is lost: the caller waits for the request it sent on the connection, the daemon
responds on it, and nothing is received. -/
theorem response_lost : ∃ s s' c k o m, Reach step initial s ∧
    (s.conn o).requestTx = c ∧ (s.task c).daemonId = some (s.conn o).id ∧
    (s.task c).phase = .handling m ∧
    Processed s c (fun s => (s.call k).requestId = m.answers ∧ (s.call k).Waits o) s' ∧
    (s'.call k).rx ≠ .value m := by
  refine ⟨sampleReaped, sampleReaped.lookUp 0 (.commandOutput "r" "" "" 0 5), 0, 0, 0,
    .commandOutput "r" "" "" 0 5, sampleReaped_reach, by decide +kernel, by decide +kernel,
    sampleReaped_phase, sampleReaped_processed, ?_⟩
  rw [lookUp_call, sampleReaped_waits.2.rx]
  exact (nomatch ·)

end Server

end SandD
