import SandD.Server.Loop

/-!
# Heartbeats and the reaper

The server with a clock finer than the second, of which it reads the whole seconds, the interval
on which a daemon sends its heartbeats, and the interval of `heartbeat_monitor`.

* `Clocked.step`: one event.  No time passes while a heartbeat that has arrived is not processed.
* `OnTime`: how old the heartbeat of the daemon's entry can be.
* `neverReaped_iff`: for which intervals the reaper leaves the entry alone.
-/

namespace SandD

/-- A server with its clock, a daemon's interval and the monitor's. -/
structure Clocked where
  server : Server
  clock : ℕ
  /-- when the daemon sends its next heartbeat -/
  nextBeat : ℕ
  /-- when `heartbeat_monitor` ticks next -/
  nextTick : ℕ

/-- What can happen. -/
inductive ClockedEvent
  /-- time passes -/
  | pass (n : ℕ)
  /-- the daemon's interval fires -/
  | beat
  /-- the monitor waits for its next tick -/
  | tick
  /-- the server takes a step, or something happens on its connections -/
  | server (e : Event)
  deriving DecidableEq

/-- A heartbeat has arrived, and is not processed. -/
def Task.heartbeatPending (t : Task) : Bool :=
  decide (Frame.text (some .heartbeat) ∈ t.inbound) ||
    match t.phase with
    | .handling .heartbeat => true
    | .routing .heartbeat _ => true
    | _ => false

namespace Clocked

/-- The period of `heartbeat_monitor`, in seconds. -/
def monitorPeriod : ℕ := 5

/-- Time passes on the clock alone, the monitor reaps when it ticks, and on the daemon's connection
only the daemon registers. -/
def allows (c : TaskId) (id : String) (y : Clocked) : Event → Bool
  | .tick _ => false
  | .reap _ => decide (y.clock = y.nextTick)
  | .arrive c' (.text (some (.register id' _))) => decide (c' = c → id' = id)
  | _ => true

/-- One event, for a daemon with interval `h` on the connection `c`, on a clock with `r` units a
second. -/
def step (r h : ℕ) (c : TaskId) (id : String) (y : Clocked) : ClockedEvent → Option Clocked
  | .pass n =>
    if y.clock + n ≤ y.nextBeat ∧ y.clock + n ≤ y.nextTick ∧
        (y.server.task c).heartbeatPending = false then
      (y.server.step (.tick ((y.clock + n) / r - y.clock / r))).map fun s =>
        { y with server := s, clock := y.clock + n }
    else none
  | .beat =>
    if y.clock = y.nextBeat then
      (y.server.step (.arrive c (.text (some .heartbeat)))).map fun s =>
        { y with server := s, nextBeat := y.clock + h * r }
    else none
  | .tick =>
    if y.clock = y.nextTick then some { y with nextTick := y.clock + monitorPeriod * r } else none
  | .server e =>
    if y.allows c id e then (y.server.step e).map fun s => { y with server := s } else none

end Clocked

/-! ### Heartbeats of connections -/

/-- The heartbeat is that from before, or from now. -/
def DaemonConnection.Beaten (time : ℕ) (conn conn' : DaemonConnection) : Prop :=
  conn'.lastHeartbeat = conn.lastHeartbeat ∨ conn'.lastHeartbeat = time

theorem DaemonConnection.respected_beaten {time : ℕ} :
    DaemonConnection.Respected time (DaemonConnection.Beaten time) where
  refl _ := .inl rfl
  trans h h' := h'.elim (fun h' => h.imp h'.trans h'.trans) .inr
  dropped _ := .inl rfl
  updateHeartbeat _ := .inr rfl
  registerRequest _ _ _ := .inl rfl
  completeRequest _ _ := .inl rfl
  registerSession _ _ _ := .inl rfl
  closeSession _ _ := .inl rfl
  startFileTransfer _ _ _ _ := .inl rfl
  addFileChunk _ _ _ := by
    left
    unfold DaemonConnection.addFileChunk
    split <;> rfl
  completeFileTransfer _ _ := .inl rfl

/-- A heartbeat is on its way to the connection. -/
def Task.HeartbeatDue (t : Task) (o : ConnRef) : Prop :=
  Frame.text (some .heartbeat) ∈ t.inbound ∨ t.phase = .handling .heartbeat ∨
    t.phase = .routing .heartbeat o

/-- The task is for the connection of a daemon of this id, and for no other. -/
structure Task.IsFor (t : Task) (id : String) : Prop where
  daemonId : t.daemonId = some id
  inbound : ∀ id' md, Frame.text (some (.register id' md)) ∈ t.inbound → id' = id
  handling : ∀ id' md, t.phase = .handling (.register id' md) → id' = id

namespace Task

variable {t t' : Task} {o : ConnRef} {id : String} {e : Event}

theorem HeartbeatDue.pending (h : t.HeartbeatDue o) : t.heartbeatPending = true := by
  unfold heartbeatPending
  rcases h with hin | hp | hp
  · rw [decide_eq_true hin, Bool.true_or]
  · rw [hp, Bool.or_true]
  · rw [hp, Bool.or_true]

/-- It stays on its way, until the task takes it from hand to hand. -/
theorem HeartbeatDue.step (h : t.HeartbeatDue o) (hs : TaskStep t e t') :
    t'.HeartbeatDue o ∨ t.phase = .handling .heartbeat ∨ t.phase = .routing .heartbeat o := by
  rcases h with hin | hp
  case inr => exact .inr hp
  left
  cases hs with
  | message hp hin' =>
    rw [hin'] at hin
    rcases List.mem_cons.1 hin with heq | hin
    · cases heq
      exact .inr (.inl rfl)
    · exact .inl hin
  | skip hp hin' hf =>
    rw [hin'] at hin
    rcases List.mem_cons.1 hin with rfl | hin
    · rcases hf with hf | hf <;> cases hf
    · exact .inl hin
  | close hp hin' hf =>
    rw [hin'] at hin
    rcases List.mem_cons.1 hin with rfl | hin
    · rcases hf with ⟨hf, -⟩ | ⟨hf, -⟩ <;> cases hf
    · exact .inl hin
  | _ => exact .inl hin

theorem IsFor.step (h : t.IsFor id) (hs : TaskStep t e t') : t'.IsFor id := by
  cases hs with
  | message hp hin =>
    refine ⟨h.daemonId, fun id' md hmem => h.inbound id' md ?_, fun id' md hm => ?_⟩
    · rw [hin]
      exact List.mem_cons_of_mem _ hmem
    · cases hm
      exact h.inbound id' md (hin ▸ List.mem_cons_self)
  | skip hp hin _ =>
    refine ⟨h.daemonId, fun id' md hmem => h.inbound id' md ?_, h.handling⟩
    rw [hin]
    exact List.mem_cons_of_mem _ hmem
  | close hp hin _ =>
    refine ⟨h.daemonId, fun id' md hmem => h.inbound id' md ?_, nofun⟩
    rw [hin]
    exact List.mem_cons_of_mem _ hmem
  | handle hp hphase hid =>
    refine ⟨?_, h.inbound, fun id' md hm => ?_⟩
    · rcases hid with rfl | ⟨i, md, rfl, -, rfl⟩
      · exact h.daemonId
      · exact congrArg some (h.handling i md hp)
    · rcases hphase with rfl | ⟨_, rfl⟩ | ⟨_, rfl, -⟩ <;> cases hm
  | route hp hphase =>
    refine ⟨h.daemonId, h.inbound, fun id' md hm => ?_⟩
    rcases hphase with rfl | ⟨_, rfl, -⟩ <;> cases hm
  | @sent _ _ ok _ => 
    refine ⟨h.daemonId, h.inbound, fun id' md hm => ?_⟩
    cases ok <;> cases hm
  | _ => exact ⟨h.daemonId, h.inbound, nofun⟩

theorem eq_handle_of_step {m : Message} (hs : TaskStep t e t') (hp : t.phase = .handling m) :
    ∃ c, e = .handle c := by
  cases hs with
  | handle => exact ⟨_, rfl⟩
  | _ hp' => cases hp.symm.trans hp'

theorem eq_route_of_step {m : Message} (hs : TaskStep t e t') (hp : t.phase = .routing m o) :
    ∃ c, e = .route c := by
  cases hs with
  | route => exact ⟨_, rfl⟩
  | _ hp' => cases hp.symm.trans hp'

end Task

/-! ### What the steps of the server do to the entry -/

namespace Server

variable {s s' : Server} {c : TaskId} {o : ConnRef} {id : String} {e : Event}

theorem isFor_step (h : s.step e = some s') (hs : (s.task c).IsFor id)
    (harrive : ∀ id' md, e = .arrive c (.text (some (.register id' md))) → id' = id) :
    (s'.task c).IsFor id := by
  by_cases ha : e.actor = some c
  · exact hs.step (task_step h ha)
  · have hu := task_kept h ha
    refine ⟨hu.kept.daemonId.trans hs.daemonId, fun id' md hmem => ?_, fun id' md hm => ?_⟩
    · rcases hu.inbound with hin | ⟨f, rfl, hin⟩ <;> rw [hin] at hmem
      · exact hs.inbound id' md hmem
      · rcases List.mem_append.1 hmem with hmem | hmem
        · exact hs.inbound id' md hmem
        · obtain rfl := List.mem_singleton.1 hmem
          exact harrive id' md rfl
    · rw [hu.kept.phase] at hm
      exact hs.handling id' md hm

/-- The entry of an id is the one from before, or it has just been made. -/
theorem get_step (h : s.step e = some s') (ho : s'.get id = some o) :
    s.get id = some o ∨ (s'.conn o).lastHeartbeat = s.time := by
  cases entry_step h with
  | same hreg _ =>
    left
    unfold Server.get at ho ⊢
    rwa [hreg] at ho
  | @registered c₁ id₁ md _ hp hne hs' =>
    subst hs'
    rw [handleDaemonMessage_register hne] at ho ⊢
    change (s.register id₁ md c₁).get id = some o at ho
    rw [register_get] at ho
    split_ifs at ho with hid
    · obtain rfl := Option.some_inj.1 ho
      exact .inr ((register_new_rel
        DaemonConnection.respected_beaten.toRespectedApart id₁ md).elim (fun h => h) fun h => h)
    · exact .inl ho
  | removed _ hget _ =>
    rw [hget] at ho
    split_ifs at ho
    exact .inl ho

theorem lastHeartbeat_step (hs : s.Linked) (h : s.step e = some s') (ho : s.get id = some o) :
    DaemonConnection.Beaten s.time (s.conn o) (s'.conn o) := by
  refine (conn_step_rel DaemonConnection.respected_beaten h o).resolve_right fun hnew => ?_
  exact (hs.lt_made (hs.entries id o ho).2.2).ne hnew.1

theorem routed_lastHeartbeat : ((s.routed c .heartbeat o).conn o).lastHeartbeat = s.time :=
  (release_rel (s := s.onConnection .heartbeat o)
    DaemonConnection.respected_beaten.toRespectedApart (.task c) o o).elim
    (fun h => h.trans (by rw [onConnection, setConn_conn, Function.update_self]; rfl))
    (fun h => h.trans onConnection_time)

/-- A heartbeat that is on its way to the entry stays so, or gets there. -/
theorem heartbeatDue_step (h : s.step e = some s') (hid : (s.task c).daemonId = some id)
    (ho : s.get id = some o) (hdue : (s.task c).HeartbeatDue o) :
    (s'.task c).HeartbeatDue o ∨ (s'.conn o).lastHeartbeat = s.time := by
  by_cases ha : e.actor = some c
  · have hstep := task_step h ha
    rcases hdue.step hstep with hdue | hp | hp
    · exact .inl hdue
    · obtain ⟨c', rfl⟩ := Task.eq_handle_of_step hstep hp
      obtain rfl := Option.some_inj.1 ha
      have hlook := lookUp_heartbeat hid
      rw [ho] at hlook
      rw [handle_eq hp h]
      exact .inl (.inr (.inr hlook))
    · obtain ⟨c', rfl⟩ := Task.eq_route_of_step hstep hp
      obtain rfl := Option.some_inj.1 ha
      rw [route_eq hp h]
      exact .inr routed_lastHeartbeat
  · have hu := task_kept h ha
    left
    rcases hdue with hin | hp
    · rcases hu.inbound with hin' | ⟨f, -, hin'⟩
      · exact .inl (hin' ▸ hin)
      · exact .inl (hin' ▸ List.mem_append_left _ hin)
    · exact .inr (hu.kept.phase ▸ hp)

end Server

/-! ### How old the heartbeat of the entry is -/

variable {r h : ℕ} {c : TaskId} {id : String}

/-- The heartbeat of the daemon's entry is from the last time the interval fired, or a newer one, or
the next is on its way to it. -/
structure OnTime (r h : ℕ) (c : TaskId) (id : String) (y : Clocked) : Prop where
  linked : y.server.Linked
  seconds : y.server.time = y.clock / r
  isFor : (y.server.task c).IsFor id
  notLate : y.clock ≤ y.nextBeat
  soon : y.nextBeat ≤ y.clock + h * r
  entry : ∀ o, y.server.get id = some o → ∃ u ≤ y.clock,
    (y.server.conn o).lastHeartbeat = u / r ∧ y.clock ≤ u + h * r ∧
      (y.nextBeat ≤ u + h * r ∨ (y.server.task c).HeartbeatDue o)

namespace OnTime

variable {y y' : Clocked}

/-- An event of the server at this instant. -/
theorem server {s : Server} {e : Event} (hy : OnTime r h c id y)
    (hs : y.server.step e = some s) (htime : s.time = y.server.time)
    (harrive : ∀ id' md, e = .arrive c (.text (some (.register id' md))) → id' = id) :
    OnTime r h c id { y with server := s } where
  linked := hy.linked.step hs
  seconds := htime.trans hy.seconds
  isFor := Server.isFor_step hs hy.isFor harrive
  notLate := hy.notLate
  soon := hy.soon
  entry o ho := by
    have hnow : (s.conn o).lastHeartbeat = y.server.time → ∃ u ≤ y.clock,
        (s.conn o).lastHeartbeat = u / r ∧ y.clock ≤ u + h * r ∧
          (y.nextBeat ≤ u + h * r ∨ (s.task c).HeartbeatDue o) := fun hbeat =>
      ⟨y.clock, le_rfl, hbeat.trans hy.seconds, Nat.le_add_right _ _, .inl hy.soon⟩
    rcases Server.get_step hs ho with ho | hbeat
    case inr => exact hnow hbeat
    obtain ⟨u, hu, hlast, hold, hnext⟩ := hy.entry o ho
    rcases Server.lastHeartbeat_step hy.linked hs ho with hsame | hbeat
    case inr => exact hnow hbeat
    rcases hnext with hnext | hdue
    · exact ⟨u, hu, hsame.trans hlast, hold, .inl hnext⟩
    · rcases Server.heartbeatDue_step hs hy.isFor.daemonId ho hdue with hdue | hbeat
      · exact ⟨u, hu, hsame.trans hlast, hold, .inr hdue⟩
      · exact hnow hbeat

theorem step {e : ClockedEvent} (hy : OnTime r h c id y)
    (hs : Clocked.step r h c id y e = some y') : OnTime r h c id y' := by
  cases e with
  | pass n =>
    unfold Clocked.step at hs
    dsimp only at hs
    split_ifs at hs with hn
    obtain ⟨hbeat, -, hpending⟩ := hn
    obtain rfl := Option.some_inj.1 hs
    refine ⟨hy.linked.step (e := .tick _) rfl, ?_, hy.isFor, hbeat, ?_, fun o ho => ?_⟩
    · show y.server.time + _ = _
      rw [hy.seconds]
      exact Nat.add_sub_cancel' (Nat.div_le_div_right (Nat.le_add_right _ _))
    · exact hy.soon.trans (Nat.add_le_add_right (Nat.le_add_right _ _) _)
    · obtain ⟨u, hu, hlast, -, hnext | hdue⟩ := hy.entry o ho
      · exact ⟨u, hu.trans (Nat.le_add_right _ _), hlast, hbeat.trans hnext, .inl hnext⟩
      · cases hdue.pending.symm.trans hpending
  | beat =>
    unfold Clocked.step at hs
    dsimp only at hs
    split_ifs at hs with hbeat
    obtain ⟨s, hstep, rfl⟩ := Option.map_eq_some_iff.1 hs
    have hy' := hy.server hstep (Server.time_step hstep nofun) nofun
    refine ⟨hy'.linked, hy'.seconds, hy'.isFor, Nat.le_add_right _ _, le_rfl, fun o ho => ?_⟩
    obtain ⟨u, hu, hlast, hold, -⟩ := hy'.entry o ho
    refine ⟨u, hu, hlast, hold, .inr (.inl ?_)⟩
    change (if _ then _ else _) = some s at hstep
    split_ifs at hstep
    obtain rfl := Option.some_inj.1 hstep
    rw [Server.setTask_task, Function.update_self]
    exact List.mem_append_right _ List.mem_cons_self
  | tick =>
    unfold Clocked.step at hs
    dsimp only at hs
    split_ifs at hs
    obtain rfl := Option.some_inj.1 hs
    exact ⟨hy.linked, hy.seconds, hy.isFor, hy.notLate, hy.soon, hy.entry⟩
  | server e =>
    unfold Clocked.step at hs
    dsimp only at hs
    split_ifs at hs with hallow
    obtain ⟨s, hstep, rfl⟩ := Option.map_eq_some_iff.1 hs
    refine hy.server hstep (Server.time_step hstep ?_) ?_
    · rintro secs rfl
      cases hallow
    · rintro id' md rfl
      exact of_decide_eq_true hallow rfl

/-- The heartbeat of the entry is at most one interval old. -/
theorem secondsSinceHeartbeat_le (hr : 0 < r) (hy : OnTime r h c id y) {o : ConnRef}
    (ho : y.server.get id = some o) :
    (y.server.conn o).secondsSinceHeartbeat y.server.time ≤ h := by
  obtain ⟨u, -, hlast, hold, -⟩ := hy.entry o ho
  unfold DaemonConnection.secondsSinceHeartbeat
  rw [hlast, hy.seconds, Nat.sub_le_iff_le_add']
  calc y.clock / r ≤ (u + h * r) / r := Nat.div_le_div_right hold
    _ = u / r + h := Nat.add_mul_div_right _ _ hr

end OnTime

namespace Clocked

/-- A daemon has just registered: its interval fires within `h` seconds, and the monitor ticks
within its period. -/
structure Starts (r h : ℕ) (c : TaskId) (id : String) (y : Clocked) : Prop where
  registers : ∃ s md, Reach Server.step .initial s ∧
    (s.task c).phase = .handling (.register id md) ∧ id ≠ "" ∧
    (∀ id' md', Frame.text (some (.register id' md')) ∈ (s.task c).inbound → id' = id) ∧
    s.step (.handle c) = some y.server
  seconds : y.server.time = y.clock / r
  beat : y.clock ≤ y.nextBeat ∧ y.nextBeat ≤ y.clock + h * r
  tick : y.clock ≤ y.nextTick ∧ y.nextTick ≤ y.clock + monitorPeriod * r

/-- In no run does the reaper remove the entry of the daemon. -/
def NeverReaped (r h : ℕ) : Prop :=
  ∀ c id y y', Starts r h c id y → Reach (step r h c id) y y' →
    y'.step r h c id (.server (.reap id)) = none

theorem Starts.onTime {y : Clocked} (hy : Starts r h c id y) : OnTime r h c id y := by
  obtain ⟨s, md, hr, hp, hne, hin, hs⟩ := hy.registers
  have hs' := Server.handle_eq hp hs
  have htime : s.time = y.clock / r := (Server.time_step hs nofun).symm.trans hy.seconds
  rw [Server.handleDaemonMessage_register hne] at hs'
  refine ⟨(Server.linked_of_reach hr).step hs, hy.seconds, ?_, hy.beat.1, hy.beat.2,
    fun o ho => ⟨y.clock, le_rfl, ?_, Nat.le_add_right _ _, .inl hy.beat.2⟩⟩
  · rw [hs', Server.setTask_task, Function.update_self]
    exact ⟨rfl, hin, nofun⟩
  · have hget : y.server.get id = some s.made := by
      rw [hs']
      exact (Server.register_get (s := s) (c := c) id md id).trans (if_pos rfl)
    obtain rfl := Option.some_inj.1 (ho.symm.trans hget)
    rw [hs', ← htime]
    exact (Server.register_new_rel (s := s)
      DaemonConnection.respected_beaten.toRespectedApart id md).elim (fun h => h) fun h => h

theorem neverReaped_of_le (hr : 0 < r) (hh : h ≤ Server.staleAfter) : NeverReaped r h := by
  intro c id y y' hy hreach
  have htime := hreach.invariant (I := OnTime r h c id) hy.onTime fun _ _ _ hy hs => hy.step hs
  unfold step Server.step Server.cleanupStale
  dsimp only
  split_ifs
  · split
    next o ho =>
      rw [if_neg (not_lt.2 ((htime.secondsSinceHeartbeat_le hr ho).trans hh))]
      rfl
    next => rfl
  · rfl

/-! ### A longer interval -/

theorem step_pass {y : Clocked} {n : ℕ} (hs : y.server.time = y.clock / r)
    (hp : (y.server.task c).heartbeatPending = false) (hb : y.clock + n ≤ y.nextBeat)
    (ht : y.clock + n ≤ y.nextTick) :
    y.step r h c id (.pass n) = some
      { y with
        server := { y.server with time := (y.clock + n) / r }
        clock := y.clock + n } := by
  have htime : y.server.time + ((y.clock + n) / r - y.clock / r) = (y.clock + n) / r := by
    rw [hs]
    exact Nat.add_sub_cancel' (Nat.div_le_div_right (Nat.le_add_right _ _))
  rw [step, if_pos ⟨hb, ht, hp⟩, Server.step, htime]
  rfl

/-- The monitor ticks `k` times, while the daemon waits. -/
theorem reach_ticks {s : Server} {u b : ℕ} (hs : s.time = u / r)
    (hp : (s.task c).heartbeatPending = false) (k : ℕ) (hb : u + k * (monitorPeriod * r) ≤ b) :
    Reach (step r h c id) ⟨s, u, b, u⟩
      ⟨{ s with time := (u + k * (monitorPeriod * r)) / r }, u + k * (monitorPeriod * r), b,
        u + k * (monitorPeriod * r)⟩ := by
  induction k with
  | zero =>
    rw [Nat.zero_mul, Nat.add_zero, ← hs]
    exact .refl _
  | succ k ih =>
    have hk : u + (k + 1) * (monitorPeriod * r) = u + k * (monitorPeriod * r) +
        monitorPeriod * r := by rw [Nat.succ_mul, Nat.add_assoc]
    rw [hk] at hb ⊢
    have hticked := (ih ((Nat.le_add_right _ _).trans hb)).tail (e := .tick)
      (by rw [step, if_pos rfl])
    exact hticked.tail (step_pass rfl hp hb le_rfl)

/-- When it ticks, the monitor removes an entry that is stale. -/
theorem step_reap {y : Clocked} {o : ConnRef} (ht : y.clock = y.nextTick)
    (ho : y.server.get id = some o)
    (hstale : Server.staleAfter < (y.server.conn o).secondsSinceHeartbeat y.server.time) :
    y.step r h c id (.server (.reap id)) ≠ none := by
  have hallow : y.allows c id (.reap id) = true := decide_eq_true ht
  have hreap : y.server.step (.reap id) = some (y.server.remove id) := by
    unfold Server.step Server.cleanupStale
    simp only [ho, if_pos hstale]
  rw [step, if_pos hallow, hreap]
  exact Option.some_ne_none _

/-- While the daemon waits, the monitor removes its entry. -/
theorem reaped_of_waiting {s : Server} {o : ConnRef} (hr : 0 < r) (hh : Server.staleAfter < h)
    (htime : s.time = 0) (hp : (s.task c).heartbeatPending = false) (hget : s.get id = some o)
    (hlast : (s.conn o).lastHeartbeat = 0) :
    ∃ y, Reach (step r h c id) ⟨s, 0, h * r, r⟩ y ∧
      y.step r h c id (.server (.reap id)) ≠ none := by
  have hlong : 31 * r ≤ h * r := Nat.mul_le_mul_right r hh
  have hticks : r + 6 * (monitorPeriod * r) = 31 * r := by
    rw [monitorPeriod]
    omega
  have hfirst : step r h c id ⟨s, 0, h * r, r⟩ (.pass r) =
      some ⟨{ s with time := r / r }, r, h * r, r⟩ := by
    refine (step_pass (htime.trans (Nat.zero_div r).symm) hp ?_ ?_).trans ?_
    · show 0 + r ≤ h * r
      omega
    · exact (Nat.zero_add r).le
    · simp only [Nat.zero_add]
  have hwait : Reach (step r h c id) ⟨{ s with time := r / r }, r, h * r, r⟩ _ :=
    reach_ticks (s := { s with time := r / r }) rfl hp 6 (hticks.trans_le hlong)
  obtain ⟨es, hes⟩ := hwait
  refine ⟨_, ((Reach.refl _).tail hfirst).trans hes, ?_⟩
  refine step_reap rfl hget ?_
  show Server.staleAfter <
    (s.conn o).secondsSinceHeartbeat ((r + 6 * (monitorPeriod * r)) / r)
  rw [hticks, Nat.mul_div_cancel _ hr, DaemonConnection.secondsSinceHeartbeat, hlast]
  decide

/-- Events of the server at one instant. -/
theorem run_server {s s' : Server} {u b t : ℕ} {es : List Event}
    (hes : ∀ e ∈ es, e.actor ≠ none)
    (hs : run Server.step s es = some s') :
    run (step r h c id) ⟨s, u, b, t⟩ (es.map .server) = some ⟨s', u, b, t⟩ := by
  induction es generalizing s with
  | nil =>
    obtain rfl := Option.some_inj.1 hs
    rfl
  | cons e es ih =>
    obtain ⟨s₁, h₁, h₂⟩ := run_cons_eq_some.1 hs
    have hallow : allows c id ⟨s, u, b, t⟩ e = true := by
      have hactor := hes e List.mem_cons_self
      cases e <;> first | rfl | exact absurd rfl hactor
    refine run_cons_eq_some.2 ⟨⟨s₁, u, b, t⟩, ?_,
      ih (fun e' he' => hes e' (List.mem_cons_of_mem _ he')) h₂⟩
    rw [step, if_pos hallow, h₁]
    rfl

/-- A server that has a Register of the daemon "d" in hand. -/
def sampleRegister : List Event :=
  [.accept 0, .arrive 0 (.text (some (.register "d" ⟨"h", "linux", "x86_64", "0.1.0", ∅⟩))),
    .next 0]

/-- It registers the daemon, acknowledges that, and then a heartbeat. -/
def sampleBeat : List Event :=
  [.handle 0, .write 0 true, .arrive 0 (.text (some .heartbeat)), .next 0, .handle 0, .route 0,
    .write 0 true]

/-- The server after the first events of the two. -/
def sampleServer (n : ℕ) : Server :=
  (run Server.step .initial ((sampleRegister ++ sampleBeat).take n)).getD .initial

theorem sampleServer_run (n : ℕ) :
    run Server.step .initial ((sampleRegister ++ sampleBeat).take n) = some (sampleServer n) := by
  have hall : (run Server.step .initial (sampleRegister ++ sampleBeat)).isSome = true := by
    decide +kernel
  obtain ⟨s, hs⟩ := Option.isSome_iff_exists.1 hall
  rw [← List.take_append_drop n (sampleRegister ++ sampleBeat)] at hs
  obtain ⟨s₁, h₁, -⟩ := run_append_eq_some.1 hs
  rw [sampleServer, h₁]
  rfl

theorem sampleServer_between (n m : ℕ) :
    run Server.step (sampleServer n) (((sampleRegister ++ sampleBeat).drop n).take m) =
      some (sampleServer (n + m)) := by
  have hrun := sampleServer_run (n + m)
  rw [List.take_add, run_append, sampleServer_run n] at hrun
  exact hrun

theorem sampleServer_starts (r h : ℕ) : Starts r h 0 "d" ⟨sampleServer 4, 0, 0, r⟩ where
  registers := by
    refine ⟨sampleServer 3, ⟨"h", "linux", "x86_64", "0.1.0", ∅⟩, ⟨_, sampleServer_run 3⟩,
      by decide +kernel, by decide, ?_, run_singleton.symm.trans (sampleServer_between 3 1)⟩
    have hin : ((sampleServer 3).task 0).inbound = [] := by decide +kernel
    intro id' md' hmem
    rw [hin] at hmem
    cases hmem
  seconds := by
    have htime : (sampleServer 4).time = 0 := by decide +kernel
    exact htime.trans (Nat.zero_div r).symm
  beat := ⟨le_rfl, Nat.zero_le _⟩
  tick := ⟨Nat.zero_le _, by rw [Nat.zero_add]; exact Nat.le_mul_of_pos_left r (by decide)⟩

/-- The daemon's first heartbeat is processed; the next one is to be sent in `h` seconds. -/
theorem sampleServer_beaten (r h : ℕ) :
    Reach (step r h 0 "d") ⟨sampleServer 4, 0, 0, r⟩ ⟨sampleServer 10, 0, h * r, r⟩ := by
  have hacked : Reach (step r h 0 "d") ⟨sampleServer 4, 0, 0, r⟩ ⟨sampleServer 5, 0, 0, r⟩ :=
    ⟨_, run_server (by decide) (sampleServer_between 4 1)⟩
  have harrive : (sampleServer 5).step (.arrive 0 (.text (some .heartbeat))) =
      some (sampleServer 6) := run_singleton.symm.trans (sampleServer_between 5 1)
  have hbeat : step r h 0 "d" ⟨sampleServer 5, 0, 0, r⟩ .beat =
      some ⟨sampleServer 6, 0, h * r, r⟩ := by
    rw [step, if_pos rfl, harrive, Nat.zero_add]
    rfl
  exact (hacked.tail hbeat).trans (run_server (by decide) (sampleServer_between 6 4))

theorem not_neverReaped_of_lt (hr : 0 < r) (hh : Server.staleAfter < h) : ¬ NeverReaped r h := by
  intro hnever
  have htime : (sampleServer 10).time = 0 := by decide +kernel
  have hidle : ((sampleServer 10).task 0).heartbeatPending = false := by decide +kernel
  have hget : (sampleServer 10).get "d" = some 0 := by decide +kernel
  have hlast : ((sampleServer 10).conn 0).lastHeartbeat = 0 := by decide +kernel
  obtain ⟨y, ⟨es, hes⟩, hreap⟩ := reaped_of_waiting hr hh htime hidle hget hlast
  exact hreap (hnever 0 "d" _ y (sampleServer_starts r h) ((sampleServer_beaten r h).trans hes))

/-- **The reaper never removes the entry of a daemon whose heartbeats are processed when they are
sent, if and only if the interval is at most the age at which the monitor reaps.** -/
theorem neverReaped_iff (hr : 0 < r) : NeverReaped r h ↔ h ≤ Server.staleAfter :=
  ⟨fun hnever => not_lt.1 fun hh => not_neverReaped_of_lt hr hh hnever, neverReaped_of_le hr⟩

/-- The theorem at the default interval, on a clock of milliseconds. -/
theorem neverReaped_iff_sample : NeverReaped 1000 5 :=
  (neverReaped_iff (by decide)).2 (by decide)

/-- With a minute between its heartbeats, a daemon is removed before the second. -/
theorem reaped_in_time : ¬ NeverReaped 1000 60 :=
  not_neverReaped_of_lt (by decide) (by decide)

end Clocked

end SandD
