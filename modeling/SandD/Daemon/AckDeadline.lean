import SandD.Server.Server

/-!
# The deadline for acknowledgements

The message loop of `serve` with its clock: `last_ack`, the check of the deadline once a second,
frames that arrive at any time, and branches that take any time.

* `ServeLoop.select` is one round of the biased `select!`; the loop sleeps only while it is pending.
* `ServeLoop.step`: one event.
* `ControllerSilent`: what a break for want of an acknowledgement is to say of the controller.
-/

namespace SandD

/-- Why the loop has ended. -/
inductive Break
  | shutdown
  /-- a heartbeat could not be sent -/
  | dead
  /-- no acknowledgement for too long -/
  | silence
  /-- the stream has ended, or the socket has failed -/
  | disconnected
  deriving DecidableEq

/-- Where the loop is. -/
inductive LoopPhase
  /-- in `select!` -/
  | select
  /-- in `handle_message` -/
  | handling
  /-- sending a re-registration -/
  | registering
  | broken (reason : Break)
  deriving DecidableEq

/-- The loop of `serve`. -/
structure ServeLoop where
  clock : ℕ
  lastAck : ℕ
  /-- when `ack_check` ticks next -/
  nextCheck : ℕ
  phase : LoopPhase
  /-- frames that are not read -/
  inbound : List Frame
  /-- whether the stream ends after them -/
  ended : Bool
  /-- whether `shutdown` is resolved -/
  shutdown : Bool
  /-- whether `dead_rx` is resolved -/
  dead : Bool
  deriving DecidableEq

/-- What can happen. -/
inductive LoopEvent
  /-- time passes -/
  | pass (n : ℕ)
  /-- a frame arrives -/
  | arrive (frame : Frame)
  | endStream
  | signal
  /-- a heartbeat cannot be sent -/
  | beatFails
  /-- `select!` is polled -/
  | poll
  /-- `handle_message` returns -/
  | handled
  /-- the re-registration is sent, or not -/
  | registered (ok : Bool)
  deriving DecidableEq

/-- An acknowledgement of a heartbeat. -/
def Frame.isAck : Frame → Bool
  | .text (some (.heartbeatAck ..)) => true
  | _ => false

/-- `ack_timeout`, in seconds. -/
def ackTimeout (heartbeatInterval : ℕ) : ℕ := max (min (heartbeatInterval * 6) (2 ^ 64 - 1)) 30

namespace ServeLoop

variable (r h : ℕ) (y : ServeLoop)

/-- What the loop does with a frame, up to what takes time. -/
def read (frame : Frame) (rest : List Frame) : ServeLoop :=
  match frame with
  | .text (some (.heartbeatAck success _)) =>
    { y with
      inbound := rest
      lastAck := y.clock
      phase := if success then .select else .registering }
  | .text (some _) => { y with inbound := rest, phase := .handling }
  | .text none => { y with inbound := rest }
  | .other => { y with inbound := rest }
  | .close => { y with inbound := rest, phase := .broken .disconnected }
  | .error => { y with inbound := rest, phase := .broken .disconnected }

/-- The body of the check. -/
def check : ServeLoop :=
  if ackTimeout h * r ≤ y.clock - y.lastAck then
    { y with nextCheck := y.nextCheck + r, phase := .broken .silence }
  else { y with nextCheck := y.nextCheck + r }

/-- The biased `select!`, unless all branches are pending. -/
def select : Option ServeLoop :=
  if y.shutdown then some { y with phase := .broken .shutdown }
  else if y.dead then some { y with phase := .broken .dead }
  else if y.nextCheck ≤ y.clock then some (y.check r h)
  else
    match y.inbound with
    | frame :: rest => some (y.read frame rest)
    | [] => if y.ended then some { y with phase := .broken .disconnected } else none

/-- One event, with a heartbeat interval of `h` seconds, on a clock with `r` units a second. -/
def step : LoopEvent → Option ServeLoop
  | .pass n =>
    match y.phase with
    | .select =>
      if y.select r h = none ∧ y.clock + n ≤ y.nextCheck then
        some { y with clock := y.clock + n }
      else none
    | .handling => some { y with clock := y.clock + n }
    | .registering => some { y with clock := y.clock + n }
    | .broken _ => none
  | .arrive frame =>
    if y.ended then none else some { y with inbound := y.inbound ++ [frame] }
  | .endStream => some { y with ended := true }
  | .signal => some { y with shutdown := true }
  | .beatFails => some { y with dead := true }
  | .poll => if y.phase = .select then y.select r h else none
  | .handled =>
    if y.phase = .handling then some { y with lastAck := y.clock, phase := .select } else none
  | .registered ok =>
    if y.phase = .registering then
      some { y with phase := if ok then .select else .broken .disconnected }
    else none

/-- The loop is entered. -/
structure Starts : Prop where
  phase : y.phase = .select
  lastAck : y.lastAck = y.clock
  nextCheck : y.nextCheck = y.clock

/-- Whether the next event is that the loop reads an acknowledgement. -/
def readsAck (e : LoopEvent) : Bool :=
  decide (e = .poll ∧ y.phase = .select) && !y.shutdown && !y.dead &&
    decide (y.clock < y.nextCheck) && y.inbound.head?.any Frame.isAck

/-- The check is due, and the loop is about to find the deadline past. -/
def Overdue : Prop :=
  y.phase = .select ∧ y.shutdown = false ∧ y.dead = false ∧ y.nextCheck ≤ y.clock ∧
    ackTimeout h * r ≤ y.clock - y.lastAck

end ServeLoop

/-- In the time of the last `ack_timeout` of a run the loop was free to read, and no acknowledgement
arrived or was read; and no frame is waiting. -/
structure ControllerSilent (r h : ℕ) (start : ServeLoop) (es : List LoopEvent) (y : ServeLoop) :
    Prop where
  free : ∀ es₁ e es₂ y₁, es = es₁ ++ e :: es₂ → run (ServeLoop.step r h) start es₁ = some y₁ →
    y.clock < y₁.clock + ackTimeout h * r → y₁.phase = .select
  noAck : ∀ es₁ e es₂ y₁, es = es₁ ++ e :: es₂ → run (ServeLoop.step r h) start es₁ = some y₁ →
    y.clock < y₁.clock + ackTimeout h * r →
      y₁.readsAck e = false ∧ ∀ frame, e = .arrive frame → frame.isAck = false
  nothingWaiting : y.inbound = []

namespace ServeLoop

variable {r h : ℕ} {start y y' : ServeLoop} {es : List LoopEvent} {e : LoopEvent}

/-- What an event does to the loop. -/
inductive Step (r h : ℕ) (y : ServeLoop) : LoopEvent → ServeLoop → Prop
  | sleep {n : ℕ} (hp : y.phase = .select) (hnone : y.select r h = none) :
      Step r h y (.pass n) { y with clock := y.clock + n }
  | work {n : ℕ} (hp : y.phase = .handling ∨ y.phase = .registering) :
      Step r h y (.pass n) { y with clock := y.clock + n }
  | arrive {frame : Frame} : Step r h y (.arrive frame) { y with inbound := y.inbound ++ [frame] }
  | endStream : Step r h y .endStream { y with ended := true }
  | signal : Step r h y .signal { y with shutdown := true }
  | beatFails : Step r h y .beatFails { y with dead := true }
  | poll {y' : ServeLoop} (hp : y.phase = .select) (hs : y.select r h = some y') :
      Step r h y .poll y'
  | handled (hp : y.phase = .handling) :
      Step r h y .handled { y with lastAck := y.clock, phase := .select }
  | registered {ok : Bool} (hp : y.phase = .registering) :
      Step r h y (.registered ok)
        { y with phase := if ok then .select else .broken .disconnected }

theorem step_of (hs : y.step r h e = some y') : Step r h y e y' := by
  cases e with
  | pass n =>
    unfold step at hs
    dsimp only at hs
    split at hs
    next hp =>
      split_ifs at hs with hn
      obtain rfl := Option.some_inj.1 hs
      exact .sleep hp hn.1
    next hp =>
      obtain rfl := Option.some_inj.1 hs
      exact .work (.inl hp)
    next hp =>
      obtain rfl := Option.some_inj.1 hs
      exact .work (.inr hp)
    next => cases hs
  | arrive frame =>
    unfold step at hs
    dsimp only at hs
    split_ifs at hs
    obtain rfl := Option.some_inj.1 hs
    exact .arrive
  | endStream =>
    obtain rfl := Option.some_inj.1 hs
    exact .endStream
  | signal =>
    obtain rfl := Option.some_inj.1 hs
    exact .signal
  | beatFails =>
    obtain rfl := Option.some_inj.1 hs
    exact .beatFails
  | poll =>
    unfold step at hs
    dsimp only at hs
    split_ifs at hs with hp
    exact .poll hp hs
  | handled =>
    unfold step at hs
    dsimp only at hs
    split_ifs at hs with hp
    obtain rfl := Option.some_inj.1 hs
    exact .handled hp
  | registered ok =>
    unfold step at hs
    dsimp only at hs
    split at hs
    next hp =>
      obtain rfl := Option.some_inj.1 hs
      exact .registered hp
    next => cases hs

/-- What a round of `select!` that is not pending comes to. -/
inductive Round (r h : ℕ) (y : ServeLoop) : ServeLoop → Prop
  | broken {reason : Break} (hreason : reason ≠ .silence) :
      Round r h y { y with phase := .broken reason }
  | checked (hdue : y.nextCheck ≤ y.clock) (hs : y.shutdown = false) (hd : y.dead = false) :
      Round r h y (y.check r h)
  | read {frame : Frame} {rest : List Frame} (hdue : y.clock < y.nextCheck)
      (hs : y.shutdown = false) (hd : y.dead = false) (hin : y.inbound = frame :: rest) :
      Round r h y (y.read frame rest)

theorem round_of (hs : y.select r h = some y') : Round r h y y' := by
  unfold select at hs
  split at hs
  · obtain rfl := Option.some_inj.1 hs
    exact .broken nofun
  next hshut =>
    split at hs
    · obtain rfl := Option.some_inj.1 hs
      exact .broken nofun
    next hdead =>
      have hs₁ := Bool.eq_false_iff.2 hshut
      have hd₁ := Bool.eq_false_iff.2 hdead
      split at hs
      next hdue =>
        obtain rfl := Option.some_inj.1 hs
        exact .checked hdue hs₁ hd₁
      next hdue =>
        split at hs
        next frame rest hin =>
          obtain rfl := Option.some_inj.1 hs
          exact .read (not_le.1 hdue) hs₁ hd₁ hin
        next =>
          split_ifs at hs
          obtain rfl := Option.some_inj.1 hs
          exact .broken nofun

theorem inbound_of_select (hs : y.select r h = none) : y.inbound = [] := by
  unfold select at hs
  cases hin : y.inbound with
  | nil => rfl
  | cons frame rest =>
    rw [hin] at hs
    split_ifs at hs

theorem ackTimeout_pos (hr : 0 < r) : 0 < ackTimeout h * r :=
  Nat.mul_pos (lt_of_lt_of_le (by decide) (le_max_right _ _)) hr

@[simp] theorem check_clock : (y.check r h).clock = y.clock := by
  unfold check
  split <;> rfl

@[simp] theorem check_lastAck : (y.check r h).lastAck = y.lastAck := by
  unfold check
  split <;> rfl

@[simp] theorem check_inbound : (y.check r h).inbound = y.inbound := by
  unfold check
  split <;> rfl

@[simp] theorem read_clock (frame : Frame) (rest : List Frame) :
    (y.read frame rest).clock = y.clock := by
  unfold read
  split <;> rfl

@[simp] theorem read_nextCheck (frame : Frame) (rest : List Frame) :
    (y.read frame rest).nextCheck = y.nextCheck := by
  unfold read
  split <;> rfl

@[simp] theorem read_inbound (frame : Frame) (rest : List Frame) :
    (y.read frame rest).inbound = rest := by
  unfold read
  split <;> rfl

/-- An acknowledgement is noted, whatever it says; anything else leaves the deadline as it is. -/
theorem read_lastAck (frame : Frame) (rest : List Frame) :
    (y.read frame rest).lastAck = if frame.isAck then y.clock else y.lastAck := by
  cases frame with
  | text message =>
    cases message with
    | none => rfl
    | some m => cases m <;> rfl
  | _ => rfl

theorem read_phase_of_not_isAck {frame : Frame} (hack : frame.isAck = false) (rest : List Frame)
    (hp : y.phase = .select) : (y.read frame rest).phase = .select ∨
      (y.read frame rest).phase = .handling ∨
        (y.read frame rest).phase = .broken .disconnected := by
  unfold read
  split
  · cases hack
  · exact .inr (.inl rfl)
  · exact .inl hp
  · exact .inl hp
  · exact .inr (.inr rfl)
  · exact .inr (.inr rfl)

/-! ### Runs in which a re-registration takes no time -/

/-- A re-registration is sent at once, and no frame arrives just when the loop is about to find the
deadline past. -/
def Prompt (r h : ℕ) (y : ServeLoop) : LoopEvent → Prop
  | .pass n => y.phase = .registering → n = 0
  | .arrive _ => ¬ y.Overdue r h
  | _ => True

/-- What such steps keep. -/
structure Timely (r h : ℕ) (y : ServeLoop) : Prop where
  lastAck : y.lastAck ≤ y.clock
  registering : y.phase = .registering → y.lastAck = y.clock
  overdue : y.Overdue r h → y.inbound = []

theorem Starts.timely (hr : 0 < r) (hy : start.Starts) : start.Timely r h where
  lastAck := hy.lastAck.le
  registering hp := nomatch hp.symm.trans hy.phase
  overdue hlate := by
    have hpast := hlate.2.2.2.2
    rw [hy.lastAck, Nat.sub_self] at hpast
    exact absurd hpast (not_le.2 (ackTimeout_pos hr))

theorem Timely.step (hr : 0 < r) (hy : y.Timely r h) (hprompt : y.Prompt r h e)
    (hs : y.step r h e = some y') : y'.Timely r h := by
  -- where an acknowledgement has just been noted, the deadline is not past
  have hfresh : ∀ z : ServeLoop, z.lastAck = z.clock → ¬ z.Overdue r h := by
    intro z hz hlate
    have hpast := hlate.2.2.2.2
    rw [hz, Nat.sub_self] at hpast
    exact not_le.2 (ackTimeout_pos hr) hpast
  cases step_of hs with
  | @sleep n hp hnone =>
    exact ⟨hy.lastAck.trans (Nat.le_add_right _ _), fun hp' => (nomatch hp.symm.trans hp'),
      fun _ => inbound_of_select (y := y) hnone⟩
  | @work n hp =>
    refine ⟨hy.lastAck.trans (Nat.le_add_right _ _), fun hp' => ?_, fun hlate => ?_⟩
    · have hn : n = 0 := hprompt hp'
      subst hn
      exact hy.registering hp'
    · rcases hp with hp | hp <;> cases hp.symm.trans hlate.1
  | arrive => exact ⟨hy.lastAck, hy.registering, fun hlate => absurd hlate hprompt⟩
  | endStream => exact ⟨hy.lastAck, hy.registering, hy.overdue⟩
  | signal => exact ⟨hy.lastAck, hy.registering, fun hlate => nomatch hlate.2.1⟩
  | beatFails => exact ⟨hy.lastAck, hy.registering, fun hlate => nomatch hlate.2.2.1⟩
  | handled hp => exact ⟨le_rfl, nofun, fun hlate => absurd hlate (hfresh _ rfl)⟩
  | @registered ok hp =>
    have hack := hy.registering hp
    exact ⟨hy.lastAck, fun _ => hack, fun hlate => absurd hlate (hfresh _ hack)⟩
  | poll hp hround =>
    cases round_of hround with
    | broken _ => exact ⟨hy.lastAck, nofun, fun hlate => nomatch hlate.1⟩
    | checked hdue hshut hdead =>
      refine ⟨?_, fun hp' => ?_, fun hlate => ?_⟩
      · rw [check_lastAck, check_clock]
        exact hy.lastAck
      · unfold check at hp'
        split at hp'
        · cases hp'
        · cases hp.symm.trans hp'
      · unfold Overdue check at hlate
        split at hlate
        · cases hlate.1
        next hpast => exact absurd hlate.2.2.2.2 hpast
    | @read frame rest hdue hshut hdead hin =>
      refine ⟨?_, fun hp' => ?_, fun hlate => ?_⟩
      · rw [read_lastAck, read_clock]
        split_ifs
        · exact le_rfl
        · exact hy.lastAck
      · rw [read_lastAck, read_clock]
        split_ifs with hack
        · rfl
        · rcases read_phase_of_not_isAck (Bool.eq_false_iff.2 hack) rest hp with h | h | h <;>
            cases h.symm.trans hp'
      · have hdue' := hlate.2.2.2.1
        rw [read_nextCheck, read_clock] at hdue'
        exact absurd hdue' (not_le.2 hdue)

/-- The clock does not go back, and an acknowledgement that is noted is noted now. -/
theorem clock_step (hs : y.step r h e = some y') :
    y.clock ≤ y'.clock ∧ (y'.lastAck = y.lastAck ∨ y'.lastAck = y'.clock) := by
  cases step_of hs with
  | sleep => exact ⟨Nat.le_add_right _ _, .inl rfl⟩
  | work => exact ⟨Nat.le_add_right _ _, .inl rfl⟩
  | handled => exact ⟨le_rfl, .inr rfl⟩
  | poll hp hround =>
    cases round_of hround with
    | broken => exact ⟨le_rfl, .inl rfl⟩
    | checked => exact ⟨check_clock.ge, .inl check_lastAck⟩
    | read =>
      rw [read_clock, read_lastAck]
      split_ifs
      · exact ⟨le_rfl, .inr rfl⟩
      · exact ⟨le_rfl, .inl rfl⟩
  | _ => exact ⟨le_rfl, .inl rfl⟩

/-- An acknowledgement, or the end of `handle_message`, has been noted at a given time or after it,
or is to be noted before the loop sleeps again. -/
def Noted (t : ℕ) (y : ServeLoop) : Prop :=
  t ≤ y.clock ∧ (t ≤ y.lastAck ∨ y.phase = .handling ∨ (∃ reason, y.phase = .broken reason) ∨
    ∃ frame ∈ y.inbound, frame.isAck = true)

theorem Noted.step {t : ℕ} (hy : y.Noted t) (hs : y.step r h e = some y') : y'.Noted t := by
  obtain ⟨hclock, hlast⟩ := clock_step hs
  have ht := hy.1.trans hclock
  rcases hy.2 with hack | hp | ⟨reason, hp⟩ | ⟨frame, hmem, hframe⟩
  · exact ⟨ht, .inl (hlast.elim (fun hlast => hlast ▸ hack) fun hlast => hlast ▸ ht)⟩
  · cases step_of hs with
    | poll hp' => cases hp.symm.trans hp'
    | registered hp' => cases hp.symm.trans hp'
    | sleep hp' => cases hp.symm.trans hp'
    | handled => exact ⟨ht, .inl ht⟩
    | _ => exact ⟨ht, .inr (.inl hp)⟩
  · cases step_of hs with
    | poll hp' => cases hp.symm.trans hp'
    | registered hp' => cases hp.symm.trans hp'
    | sleep hp' => cases hp.symm.trans hp'
    | handled hp' => cases hp.symm.trans hp'
    | work hp' => rcases hp' with hp' | hp' <;> cases hp.symm.trans hp'
    | _ => exact ⟨ht, .inr (.inr (.inl ⟨reason, hp⟩))⟩
  · cases step_of hs with
    | arrive => exact ⟨ht, .inr (.inr (.inr ⟨frame, List.mem_append_left _ hmem, hframe⟩))⟩
    | poll hp' hround =>
      cases round_of hround with
      | broken => exact ⟨ht, .inr (.inr (.inl ⟨_, rfl⟩))⟩
      | checked => exact ⟨ht, .inr (.inr (.inr ⟨frame, check_inbound.symm ▸ hmem, hframe⟩))⟩
      | @read frame' rest _ _ _ hin =>
        rw [hin] at hmem
        rcases List.mem_cons.1 hmem with rfl | hmem
        · refine ⟨ht, .inl ?_⟩
          rw [read_lastAck, if_pos hframe]
          exact hy.1
        · exact ⟨ht, .inr (.inr (.inr ⟨frame, (read_inbound frame' rest).symm ▸ hmem, hframe⟩))⟩
    | _ => exact ⟨ht, .inr (.inr (.inr ⟨frame, hmem, hframe⟩))⟩

/-- The loop breaks for want of an acknowledgement when the check finds the deadline past. -/
theorem overdue_of_silence (hs : y.step r h .poll = some y')
    (hb : y'.phase = .broken .silence) : y.Overdue r h := by
  cases step_of hs with
  | poll hp hround =>
    cases round_of hround with
    | broken hreason => cases hb; exact absurd rfl hreason
    | checked hdue hshut hdead =>
      refine ⟨hp, hshut, hdead, hdue, by_contra fun hpast => ?_⟩
      rw [check, if_neg hpast] at hb
      cases hp.symm.trans hb
    | @read frame rest =>
      unfold read at hb
      split at hb
      · split_ifs at hb
      · cases hb
      · cases hp.symm.trans hb
      · cases hp.symm.trans hb
      · cases hb
      · cases hb

/-- What has been noted by the time of such a break is as old as the deadline. -/
theorem Noted.old {t : ℕ} (hr : 0 < r) (hy : y.Noted t) (hlate : y.Overdue r h)
    (hin : y.inbound = []) : t + ackTimeout h * r ≤ y.clock := by
  have hpos := ackTimeout_pos (h := h) hr
  have hpast := hlate.2.2.2.2
  rcases hy.2 with hack | hp | ⟨reason, hp⟩ | ⟨frame, hmem, -⟩
  · omega
  · cases hp.symm.trans hlate.1
  · cases hp.symm.trans hlate.1
  · rw [hin] at hmem
    cases hmem

/-- **In a run in which re-registrations take no time, and no frame arrives just when the loop is
about to find the deadline past, the loop breaks for want of an acknowledgement only if the
controller was silent.** -/
theorem controllerSilent_of_prompt (hr : 0 < r) (hstart : start.Starts)
    (hrun : run (step r h) start es = some y) (hprompt : Along (step r h) (Prompt r h) start es)
    (hs : y.step r h .poll = some y') (hb : y'.phase = .broken .silence) :
    ControllerSilent r h start es y := by
  have hlate := overdue_of_silence hs hb
  have htimely := fun {es y} (hrun : run (step r h) start es = some y)
    (hprompt : Along (step r h) (Prompt r h) start es) =>
    run_invariant_along (I := Timely r h) (fun _ _ _ hy hp hs => hy.step hr hp hs) hrun hprompt
      (hstart.timely hr)
  have hin := (htimely hrun hprompt).overdue hlate
  have hold : ∀ {es₂ y₁ t}, run (step r h) y₁ es₂ = some y → y₁.Noted t →
      t + ackTimeout h * r ≤ y.clock := fun hrun hy =>
    (run_invariant (I := Noted _) (fun _ _ _ hy hs => hy.step hs) hrun hy).old hr hlate hin
  refine ⟨?_, ?_, hin⟩
  · rintro es₁ e es₂ y₁ rfl h₁ hwindow
    obtain ⟨y₁', h₁', h₂⟩ := run_append_eq_some.1 hrun
    obtain rfl := Option.some_inj.1 (h₁.symm.trans h₁')
    have hy₁ := htimely h₁ (hprompt.append h₁).1
    refine by_contra fun hp => not_le.2 hwindow (hold h₂ ⟨le_rfl, ?_⟩)
    cases hphase : y₁.phase with
    | select => exact absurd hphase hp
    | handling => exact .inr (.inl rfl)
    | registering => exact .inl (hy₁.registering hphase).ge
    | broken reason => exact .inr (.inr (.inl ⟨reason, rfl⟩))
  · rintro es₁ e es₂ y₁ rfl h₁ hwindow
    obtain ⟨y₁', h₁', h₂⟩ := run_append_eq_some.1 hrun
    obtain rfl := Option.some_inj.1 (h₁.symm.trans h₁')
    constructor
    · refine Bool.eq_false_iff.2 fun hreads => not_le.2 hwindow (hold h₂ ⟨le_rfl, ?_⟩)
      obtain ⟨frame, hhead, hframe⟩ :=
        (Option.any_eq_true _ _).1 (Bool.and_eq_true_iff.1 hreads).2
      exact .inr (.inr (.inr ⟨frame, List.mem_of_head? hhead, hframe⟩))
    · rintro frame rfl
      refine Bool.eq_false_iff.2 fun hframe => ?_
      obtain ⟨y₂, hs₂, h₂⟩ := run_cons_eq_some.1 h₂
      refine not_le.2 hwindow (hold h₂ ⟨(clock_step hs₂).1, .inr (.inr (.inr ⟨frame, ?_, hframe⟩))⟩)
      cases step_of hs₂
      exact List.mem_append_right _ List.mem_cons_self

instance : Decidable (y.Overdue r h) := inferInstanceAs (Decidable (_ ∧ _))

instance : ∀ y e, Decidable (Prompt r h y e)
  | _, .pass _ => inferInstanceAs (Decidable (_ → _))
  | _, .arrive _ => inferInstanceAs (Decidable (¬ _))
  | _, .endStream | _, .signal | _, .beatFails | _, .poll | _, .handled | _, .registered _ =>
    .isTrue trivial

def sampleStart : ServeLoop := ⟨0, 0, 0, .select, [], false, false, false⟩

/-- Half a minute in which nothing arrives. -/
def sampleWait : List LoopEvent := (List.replicate 30 [LoopEvent.poll, .pass 1]).flatten

/-- A heartbeat is rejected, the re-registration is sent for forty seconds, and then the next
acknowledgement is there. -/
def sampleBlocked : List LoopEvent :=
  [.poll, .arrive (.text (some (.heartbeatAck false "daemon is not registered"))), .poll, .pass 40,
    .arrive (.text (some (.heartbeatAck true ""))), .registered true]

/-- The state after some events. -/
def sampleAfter (es : List LoopEvent) : ServeLoop :=
  (run (step 1 5) sampleStart es).getD sampleStart

/-- The theorem at a controller that is silent from the start. -/
theorem controllerSilent_of_prompt_sample :
    ControllerSilent 1 5 sampleStart sampleWait (sampleAfter sampleWait) := by
  have hbreak : (sampleAfter sampleWait).step 1 5 .poll =
      some (sampleAfter (sampleWait ++ [.poll])) := by decide +kernel
  exact controllerSilent_of_prompt (by decide) ⟨rfl, rfl, rfl⟩ (run_eq_getD (by decide +kernel))
    (by decide +kernel) hbreak (by decide +kernel)

/-- The daemon disconnects while an acknowledgement waits to be read. -/
theorem disconnects_after_blocked_registration : ¬ ∀ r h start es y y', 0 < r →
    ServeLoop.Starts start → run (step r h) start es = some y → y.step r h .poll = some y' →
    y'.phase = .broken .silence → ControllerSilent r h start es y := by
  intro hsilent
  have h := hsilent 1 5 sampleStart sampleBlocked (sampleAfter sampleBlocked)
    (sampleAfter (sampleBlocked ++ [.poll])) (by decide) ⟨rfl, rfl, rfl⟩
    (run_eq_getD (by decide +kernel)) (by decide +kernel) (by decide +kernel)
  have hin : (sampleAfter sampleBlocked).inbound ≠ [] := by decide +kernel
  exact hin h.nothingWaiting

end ServeLoop

end SandD
