import SandD.Lib.Transition
import SandD.Server.Registry

/-!
# Commands, one after the other

`exec` of the server, the loop of `serve`, which handles one message after the other, and
`CommandExecutor::execute`, with the two time-outs and the processes, as one timed transition
system.  The clock counts nanoseconds.

* `CommandEvent.exec`, `timeOut`: a call of `exec`, which sends its command and starts its timer;
* `execute`, `output`, `failed`, `expire`: `execute` from the moment the message is read to its
  return, with its own timer;
* `exit`, `close`: what the processes do;
* `lose`, `reconnect`: the connections.

Dropping the future of `wait_with_output` leaves the process alone.  Messages arrive at once, and
timers fire when they are due: time does not pass beyond.

* `oneAtATime_iff`: when one process runs at a time;
* `timedOutRight_iff`: when only commands that have had their time are timed out.
-/

namespace SandD

/-- The nanoseconds of a second. -/
def second : ℕ := 1000000000

/-- A shell that `execute` has spawned. -/
structure Process where
  started : ℕ
  /-- when the shell has ended -/
  exited : Option ℕ
  /-- when its output was closed, by it and whatever it has started -/
  closed : Option ℕ
  deriving DecidableEq

/-- Where a call of `exec` is. -/
inductive ExecPhase
  | idle
  | waiting (since : ℕ)
  /-- with the output, or an error besides those below -/
  | returned
  /-- with `TimeoutError` -/
  | timeoutError (time : ℕ)
  /-- with the error `Command timed out` -/
  | commandTimedOut (time : ℕ)
  deriving DecidableEq

/-- A call of `exec`, with its command. -/
structure ExecCall where
  timeout : ℕ
  phase : ExecPhase
  process : Option Process
  deriving DecidableEq

/-- The calls, the daemon and its processes. -/
structure Commands where
  time : ℕ
  /-- the calls made so far -/
  made : List CallId
  call : CallId → ExecCall
  /-- the commands sent on the connection that the daemon has not read -/
  queue : List CallId
  /-- the command in `execute` -/
  executing : Option CallId
  /-- whether the connection is lost -/
  lost : Bool

/-- What can happen. -/
inductive CommandEvent
  | tick (n : ℕ)
  /-- `exec` is called -/
  | exec (k : CallId) (timeout : ℕ)
  /-- the next command is read, and spawned if that succeeds -/
  | execute (spawned : Bool)
  /-- a shell ends -/
  | exit (k : CallId)
  /-- the output of a command is closed -/
  | close (k : CallId)
  /-- `wait_with_output` is done -/
  | output
  /-- `wait_with_output` fails -/
  | failed
  /-- the time of `execute` is over -/
  | expire
  /-- the time of `exec` is over -/
  | timeOut (k : CallId)
  /-- the connection is lost -/
  | lose
  /-- the daemon connects again -/
  | reconnect
  deriving DecidableEq

/-- Whether `wait_with_output` is done. -/
def Process.finished (p : Process) : Bool := p.exited.isSome && p.closed.isSome

/-- When the time that a call or command has, counted from `start`, is over. -/
def ExecCall.due (call : ExecCall) (start : ℕ) : ℕ := start + call.timeout * second

namespace Commands

/-- Nothing has happened. -/
def initial : Commands := ⟨0, [], fun _ => ⟨0, .idle, none⟩, [], none, false⟩

variable (s : Commands)

def setCall (k : CallId) (call : ExecCall) : Commands :=
  { s with call := Function.update s.call k call }

/-- The response to a command arrives, unless the connection is lost or nobody waits. -/
def respond (k : CallId) (phase : ExecPhase) : Commands :=
  match (s.call k).phase with
  | .waiting _ => if s.lost then s else s.setCall k { s.call k with phase := phase }
  | _ => s

/-- `execute` returns. -/
def returns (k : CallId) (phase : ExecPhase) : Commands :=
  { s.respond k phase with executing := none }

/-- No timer is due before `time`, and what is done is seen at once. -/
def Awaits (time : ℕ) : Prop :=
  (∀ k ∈ s.made, ∀ since, (s.call k).phase = .waiting since → time ≤ (s.call k).due since) ∧
    ∀ k ∈ s.executing, ∀ p ∈ (s.call k).process,
      p.finished = false ∧ time ≤ (s.call k).due p.started

instance (time : ℕ) : Decidable (s.Awaits time) :=
  haveI : ∀ k, Decidable (∀ since, (s.call k).phase = .waiting since →
      time ≤ (s.call k).due since) := fun k =>
    match (s.call k).phase with
    | .waiting since =>
      decidable_of_iff (time ≤ (s.call k).due since)
        ⟨fun ht _ heq => ExecPhase.waiting.inj heq ▸ ht, fun ht => ht since rfl⟩
    | .idle => .isTrue nofun
    | .returned => .isTrue nofun
    | .timeoutError _ => .isTrue nofun
    | .commandTimedOut _ => .isTrue nofun
  inferInstanceAs (Decidable (_ ∧ _))

/-- One event. -/
def step : CommandEvent → Option Commands
  | .tick n => if s.Awaits (s.time + n) then some { s with time := s.time + n } else none
  | .exec k timeout =>
    if (s.call k).phase = .idle then
      some { s.setCall k ⟨timeout, .waiting s.time, none⟩ with
        made := k :: s.made
        queue := if s.lost then s.queue else s.queue ++ [k] }
    else none
  | .execute spawned =>
    match s.executing, s.queue with
    | none, k :: rest =>
      if spawned then
        some { s.setCall k { s.call k with process := some ⟨s.time, none, none⟩ } with
          queue := rest
          executing := some k }
      else some ({ s with queue := rest }.returns k .returned)
    | _, _ => none
  | .exit k =>
    match (s.call k).process with
    | some ⟨started, none, closed⟩ =>
      some (s.setCall k { s.call k with process := some ⟨started, some s.time, closed⟩ })
    | _ => none
  | .close k =>
    match (s.call k).process with
    | some ⟨started, exited, none⟩ =>
      some (s.setCall k { s.call k with process := some ⟨started, exited, some s.time⟩ })
    | _ => none
  | .output =>
    match s.executing with
    | some k =>
      match (s.call k).process with
      | some p => if p.finished then some (s.returns k .returned) else none
      | none => none
    | none => none
  | .failed =>
    match s.executing with
    | some k => some (s.returns k .returned)
    | none => none
  | .expire =>
    match s.executing with
    | some k =>
      match (s.call k).process with
      | some p =>
        if p.finished = false ∧ (s.call k).due p.started ≤ s.time then
          some (s.returns k (.commandTimedOut s.time))
        else none
      | none => none
    | none => none
  | .timeOut k =>
    match (s.call k).phase with
    | .waiting since =>
      if (s.call k).due since ≤ s.time then
        some (s.setCall k { s.call k with phase := .timeoutError s.time })
      else none
    | _ => none
  | .lose => some { s with lost := true }
  | .reconnect =>
    if s.lost = true ∧ s.executing = none then some { s with lost := false, queue := [] } else none

/-- The steps, one by one. -/
inductive Steps (s : Commands) : CommandEvent → Commands → Prop
  | tick {n : ℕ} (h : s.Awaits (s.time + n)) : Steps s (.tick n) { s with time := s.time + n }
  | exec {k : CallId} {timeout : ℕ} (hp : (s.call k).phase = .idle) :
      Steps s (.exec k timeout)
        { s.setCall k ⟨timeout, .waiting s.time, none⟩ with
          made := k :: s.made
          queue := if s.lost then s.queue else s.queue ++ [k] }
  | spawned {k : CallId} {rest : List CallId} (he : s.executing = none)
      (hq : s.queue = k :: rest) :
      Steps s (.execute true)
        { s.setCall k { s.call k with process := some ⟨s.time, none, none⟩ } with
          queue := rest
          executing := some k }
  | unspawned {k : CallId} {rest : List CallId} (he : s.executing = none)
      (hq : s.queue = k :: rest) :
      Steps s (.execute false) ({ s with queue := rest }.returns k .returned)
  | exit {k : CallId} {p : Process} (hp : (s.call k).process = some p) (hx : p.exited = none) :
      Steps s (.exit k)
        (s.setCall k { s.call k with process := some { p with exited := some s.time } })
  | close {k : CallId} {p : Process} (hp : (s.call k).process = some p) (hx : p.closed = none) :
      Steps s (.close k)
        (s.setCall k { s.call k with process := some { p with closed := some s.time } })
  | output {k : CallId} {p : Process} (he : s.executing = some k)
      (hp : (s.call k).process = some p) (hf : p.finished = true) :
      Steps s .output (s.returns k .returned)
  | failed {k : CallId} (he : s.executing = some k) : Steps s .failed (s.returns k .returned)
  | expire {k : CallId} {p : Process} (he : s.executing = some k)
      (hp : (s.call k).process = some p) (hf : p.finished = false)
      (hdue : (s.call k).due p.started ≤ s.time) :
      Steps s .expire (s.returns k (.commandTimedOut s.time))
  | timeOut {k : CallId} {since : ℕ} (hp : (s.call k).phase = .waiting since)
      (hdue : (s.call k).due since ≤ s.time) :
      Steps s (.timeOut k) (s.setCall k { s.call k with phase := .timeoutError s.time })
  | lose : Steps s .lose { s with lost := true }
  | reconnect (hl : s.lost = true) (he : s.executing = none) :
      Steps s .reconnect { s with lost := false, queue := [] }

variable {s} {s' : Commands} {e : CommandEvent} {es : List CommandEvent} {k k' : CallId}

@[simp] theorem setCall_call {call : ExecCall} :
    (s.setCall k call).call = Function.update s.call k call := rfl

@[simp] theorem setCall_time {call : ExecCall} : (s.setCall k call).time = s.time := rfl

@[simp] theorem setCall_made {call : ExecCall} : (s.setCall k call).made = s.made := rfl

@[simp] theorem setCall_queue {call : ExecCall} : (s.setCall k call).queue = s.queue := rfl

@[simp] theorem setCall_executing {call : ExecCall} :
    (s.setCall k call).executing = s.executing := rfl

@[simp] theorem setCall_lost {call : ExecCall} : (s.setCall k call).lost = s.lost := rfl

theorem steps_of_step (h : s.step e = some s') : Steps s e s' := by
  cases e with
  | tick n =>
    unfold Commands.step at h
    dsimp only at h
    split_ifs at h with ha
    exact Option.some_inj.1 h ▸ .tick ha
  | exec k timeout =>
    unfold Commands.step at h
    dsimp only at h
    by_cases hp : (s.call k).phase = .idle
    · rw [if_pos hp] at h
      exact Option.some_inj.1 h ▸ .exec hp
    · rw [if_neg hp] at h
      cases h
  | execute spawned =>
    unfold Commands.step at h
    dsimp only at h
    split at h
    next he hq =>
      cases spawned with
      | true => exact Option.some_inj.1 h ▸ .spawned he hq
      | false => exact Option.some_inj.1 h ▸ .unspawned he hq
    next => cases h
  | exit k =>
    unfold Commands.step at h
    dsimp only at h
    split at h
    next hp => exact Option.some_inj.1 h ▸ .exit hp rfl
    next => cases h
  | close k =>
    unfold Commands.step at h
    dsimp only at h
    split at h
    next hp => exact Option.some_inj.1 h ▸ .close hp rfl
    next => cases h
  | output =>
    unfold Commands.step at h
    dsimp only at h
    split at h
    next he =>
      split at h
      next hp =>
        split_ifs at h with hf
        exact Option.some_inj.1 h ▸ .output he hp hf
      next => cases h
    next => cases h
  | failed =>
    unfold Commands.step at h
    dsimp only at h
    split at h
    next he => exact Option.some_inj.1 h ▸ .failed he
    next => cases h
  | expire =>
    unfold Commands.step at h
    dsimp only at h
    split at h
    next he =>
      split at h
      next hp =>
        split_ifs at h with hf
        exact Option.some_inj.1 h ▸ .expire he hp hf.1 hf.2
      next => cases h
    next => cases h
  | timeOut k =>
    unfold Commands.step at h
    dsimp only at h
    split at h
    next hp =>
      split_ifs at h with hdue
      exact Option.some_inj.1 h ▸ .timeOut hp hdue
    next => cases h
  | lose => exact Option.some_inj.1 h ▸ .lose
  | reconnect =>
    unfold Commands.step at h
    dsimp only at h
    split_ifs at h with hr
    exact Option.some_inj.1 h ▸ .reconnect hr.1 hr.2

/-! ### What a response changes -/

@[simp] theorem respond_process {phase : ExecPhase} :
    ((s.respond k phase).call k').process = (s.call k').process := by
  unfold respond
  split
  · split_ifs
    · rfl
    · rw [setCall_call, Function.update_apply]
      split_ifs with h
      · rw [h]
      · rfl
  · rfl

@[simp] theorem respond_timeout {phase : ExecPhase} :
    ((s.respond k phase).call k').timeout = (s.call k').timeout := by
  unfold respond
  split
  · split_ifs
    · rfl
    · rw [setCall_call, Function.update_apply]
      split_ifs with h
      · rw [h]
      · rfl
  · rfl

theorem respond_phase (s : Commands) (k k' : CallId) (phase : ExecPhase) :
    ((s.respond k phase).call k').phase = (s.call k').phase ∨
      k' = k ∧ ((s.respond k phase).call k').phase = phase := by
  unfold respond
  split
  · split_ifs
    · exact .inl rfl
    · rw [setCall_call, Function.update_apply]
      split_ifs with h
      · exact .inr ⟨h, rfl⟩
      · exact .inl rfl
  · exact .inl rfl

theorem returns_process {phase : ExecPhase} :
    ((s.returns k phase).call k').process = (s.call k').process := respond_process

theorem returns_timeout {phase : ExecPhase} :
    ((s.returns k phase).call k').timeout = (s.call k').timeout := respond_timeout

theorem returns_phase (s : Commands) (k k' : CallId) (phase : ExecPhase) :
    ((s.returns k phase).call k').phase = (s.call k').phase ∨
      k' = k ∧ ((s.returns k phase).call k').phase = phase := respond_phase s k k' phase

/-- A response changes nothing but its call. -/
theorem respond_eq (s : Commands) (k : CallId) (phase : ExecPhase) :
    ∃ call, s.respond k phase = s.setCall k call := by
  have hself : s = s.setCall k (s.call k) := by
    unfold setCall
    rw [Function.update_eq_self]
  unfold respond
  split
  · split_ifs
    · exact ⟨_, hself⟩
    · exact ⟨_, rfl⟩
  · exact ⟨_, hself⟩

@[simp] theorem returns_time {phase : ExecPhase} : (s.returns k phase).time = s.time := by
  obtain ⟨call, h⟩ := respond_eq s k phase
  show (s.respond k phase).time = s.time
  rw [h, setCall_time]

@[simp] theorem returns_made {phase : ExecPhase} : (s.returns k phase).made = s.made := by
  obtain ⟨call, h⟩ := respond_eq s k phase
  show (s.respond k phase).made = s.made
  rw [h, setCall_made]

@[simp] theorem returns_queue {phase : ExecPhase} : (s.returns k phase).queue = s.queue := by
  obtain ⟨call, h⟩ := respond_eq s k phase
  show (s.respond k phase).queue = s.queue
  rw [h, setCall_queue]

@[simp] theorem returns_lost {phase : ExecPhase} : (s.returns k phase).lost = s.lost := by
  obtain ⟨call, h⟩ := respond_eq s k phase
  show (s.respond k phase).lost = s.lost
  rw [h, setCall_lost]

theorem returns_due {phase : ExecPhase} {start : ℕ} :
    ((s.returns k phase).call k').due start = (s.call k').due start := by
  unfold ExecCall.due
  rw [returns_timeout]

/-! ### One process at a time -/

/-- The shell of the call's command runs. -/
def Running (s : Commands) (k : CallId) : Prop := ∃ p, (s.call k).process = some p ∧ p.exited = none

/-- Only the shell that `execute` waits for runs. -/
structure OneAtATime (s : Commands) : Prop where
  one : ∀ k k', s.Running k → s.Running k' → k = k'
  ended : ∀ k, s.Running k → s.executing = some k

/-- `execute` is not about to give a command up whose shell runs. -/
def NotAbandoned (s : Commands) (e : CommandEvent) : Prop :=
  e = .expire ∨ e = .failed → ∀ k, s.executing = some k → ¬ s.Running k

theorem OneAtATime.of_ended (h : ∀ k, s.Running k → s.executing = some k) : s.OneAtATime :=
  ⟨fun k k' hk hk' => Option.some_inj.1 ((h k hk).symm.trans (h k' hk')), h⟩

/-- What runs after an event ran before, or has just been spawned. -/
theorem running_step (h : Steps s e s') (hk : s'.Running k) :
    s.Running k ∨ e = .execute true ∧ s.executing = none ∧ s'.executing = some k := by
  obtain ⟨p, hp, hx⟩ := hk
  cases h with
  | tick | lose | reconnect => exact .inl ⟨p, hp, hx⟩
  | unspawned | output | failed | expire =>
    rw [returns_process] at hp
    exact .inl ⟨p, hp, hx⟩
  | @exec k₁ =>
    by_cases hk : k = k₁
    · subst hk
      simp at hp
    · exact .inl ⟨p, by simpa [hk] using hp, hx⟩
  | @timeOut k₁ =>
    by_cases hk : k = k₁
    · subst hk
      exact .inl ⟨p, by simpa using hp, hx⟩
    · exact .inl ⟨p, by simpa [hk] using hp, hx⟩
  | @spawned k₁ rest he hq =>
    by_cases hk : k = k₁
    · exact .inr ⟨rfl, he, congrArg some hk.symm⟩
    · exact .inl ⟨p, by simpa [hk] using hp, hx⟩
  | @exit k₁ p₁ hp₁ hx₁ =>
    by_cases hk : k = k₁
    · subst hk
      simp at hp
      cases hp ▸ hx
    · exact .inl ⟨p, by simpa [hk] using hp, hx⟩
  | @close k₁ p₁ hp₁ hx₁ =>
    by_cases hk : k = k₁
    · subst hk
      simp at hp
      subst hp
      exact .inl ⟨p₁, hp₁, hx⟩
    · exact .inl ⟨p, by simpa [hk] using hp, hx⟩

theorem ended_step (h : Steps s e s') (hs : ∀ k, s.Running k → s.executing = some k)
    (hq : s.NotAbandoned e) (hk : s'.Running k) : s'.executing = some k := by
  rcases running_step h hk with hrun | ⟨-, -, hexec⟩
  case inr => exact hexec
  have hexec := hs k hrun
  cases h with
  | spawned he _ => cases he.symm.trans hexec
  | unspawned he _ => cases he.symm.trans hexec
  | @output k₁ p he hp hf =>
    obtain rfl := Option.some_inj.1 (he.symm.trans hexec)
    obtain ⟨p', hp', hx⟩ := hrun
    obtain rfl := Option.some_inj.1 (hp.symm.trans hp')
    simp [Process.finished, hx] at hf
  | failed he => exact absurd hrun (hq (.inr rfl) k hexec)
  | expire he _ _ _ => exact absurd hrun (hq (.inl rfl) k hexec)
  | reconnect _ he => cases he.symm.trans hexec
  | _ => exact hexec

/-- What still runs when `execute` has returned is no longer waited for. -/
theorem notAbandoned_of (h : Steps s e s') (hs' : s'.OneAtATime) : s.NotAbandoned e := by
  rintro hor k hexec ⟨p, hp, hx⟩
  have hrun : s'.Running k := by
    cases h with
    | failed | expire => exact ⟨p, respond_process.trans hp, hx⟩
    | _ => rcases hor with hor | hor <;> cases hor
  have hexec' := hs'.ended k hrun
  cases h with
  | failed | expire => cases hexec'
  | _ => rcases hor with hor | hor <;> cases hor

/-- **In every state of a run at most one shell runs, and none but the one that `execute` waits for,
if and only if no command is given up while its shell runs.** -/
theorem oneAtATime_iff (h : run step initial es = some s) :
    Always step OneAtATime initial es ↔ Along step NotAbandoned initial es := by
  constructor
  · intro hall
    exact hall.along (I := fun _ => True) (fun _ _ _ _ _ => trivial)
      (fun _ _ _ _ h hs' => notAbandoned_of (steps_of_step h) hs') h trivial
  · intro hq
    refine hq.always (I := fun s => ∀ k, s.Running k → s.executing = some k) ?_
      (fun _ => .of_ended) ?_
    · exact fun s e s' hs hq h k => ended_step (steps_of_step h) hs hq
    · rintro k ⟨p, hp, -⟩
      cases hp

/-- A command that takes longer than its time, and another one. -/
def sampleOverlap : List CommandEvent :=
  [.exec 0 1, .execute true, .tick second, .expire, .exec 1 1, .execute true]

theorem sampleOverlap_isSome : (run step initial sampleOverlap).isSome = true := by
  decide +kernel

/-- The theorem at a run in which a command is timed out. -/
theorem oneAtATime_iff_sample :
    Always step OneAtATime initial sampleOverlap ↔ Along step NotAbandoned initial sampleOverlap :=
  oneAtATime_iff (run_eq_getD sampleOverlap_isSome)

/-- Two shells run, and `execute` has returned with `Command timed out` for the first. -/
theorem two_at_a_time : ∃ s, Reach step initial s ∧ s.Running 0 ∧ s.Running 1 ∧
    (s.call 0).phase = .commandTimedOut second ∧ ¬ s.OneAtATime := by
  have h₀ : ((run step initial sampleOverlap).getD initial).Running 0 :=
    ⟨⟨0, none, none⟩, by decide +kernel, rfl⟩
  have h₁ : ((run step initial sampleOverlap).getD initial).Running 1 :=
    ⟨⟨second, none, none⟩, by decide +kernel, rfl⟩
  refine ⟨_, .of_isSome sampleOverlap_isSome, h₀, h₁, by decide +kernel, fun h => ?_⟩
  cases h.one 0 1 h₀ h₁

/-! ### Time -/

/-- The command of the call was started, and had its time before `time`: it has not finished
earlier. -/
def HadTime (s : Commands) (k : CallId) (time : ℕ) : Prop :=
  ∃ p, (s.call k).process = some p ∧ (s.call k).due p.started ≤ time ∧
    ∀ t t', p.exited = some t → p.closed = some t' → (s.call k).due p.started ≤ max t t'

/-- Only calls whose commands had their time are timed out. -/
def TimedOutRight (s : Commands) : Prop :=
  ∀ k t, (s.call k).phase = .timeoutError t ∨ (s.call k).phase = .commandTimedOut t →
    s.HadTime k t

/-- A call whose time is over has had its command started at once. -/
def StartedAtOnce (s : Commands) (e : CommandEvent) : Prop :=
  ∀ k, e = .timeOut k →
    ∃ p, (s.call k).process = some p ∧ (s.call k).phase = .waiting p.started

/-- What holds of the times, as long as the connection is not lost. -/
structure Timed (s : Commands) : Prop where
  here : s.lost = false
  past : ∀ k t, (s.call k).phase = .timeoutError t ∨ (s.call k).phase = .commandTimedOut t →
    t ≤ s.time
  ended : ∀ k p, (s.call k).process = some p →
    (∀ t, p.exited = some t → t ≤ s.time) ∧ ∀ t, p.closed = some t → t ≤ s.time
  waiting : ∀ k since, (s.call k).phase = .waiting since →
    k ∈ s.made ∧ since ≤ s.time ∧ s.time ≤ (s.call k).due since
  started : ∀ k p since, (s.call k).process = some p → (s.call k).phase = .waiting since →
    since ≤ p.started ∧ s.executing = some k
  done : ∀ k p t t', s.executing = some k → (s.call k).process = some p →
    p.exited = some t → p.closed = some t' → max t t' = s.time
  queued : ∀ k ∈ s.queue, (s.call k).process = none ∧ (s.call k).phase ≠ .idle
  nodup : s.queue.Nodup
  idle : ∀ k, (s.call k).phase = .idle → (s.call k).process = none

namespace Timed

theorem initial : Timed Commands.initial := by
  constructor <;> simp [Commands.initial]

/-- When a response arrives, the call does not wait any more. -/
theorem respond_waiting (hs : Timed s) {phase : ExecPhase} {since : ℕ}
    (hne : ∀ t, phase ≠ .waiting t)
    (hp : ((s.returns k phase).call k').phase = .waiting since) :
    k' ≠ k ∧ (s.call k').phase = .waiting since := by
  rcases returns_phase s k k' phase with h | ⟨-, h⟩
  · rw [h] at hp
    refine ⟨?_, hp⟩
    rintro rfl
    have hresp : ((s.returns k' phase).call k').phase = phase := by
      show ((s.respond k' phase).call k').phase = phase
      unfold respond
      rw [hp]
      dsimp only
      rw [if_neg (by rw [hs.here]; nofun), setCall_call, Function.update_self]
    exact hne since (hresp.symm.trans (h.trans hp))
  · exact absurd (h.symm.trans hp) (hne since)

/-- `execute` returns, and its call with it. -/
theorem returns (hs : Timed s) (hexec : ∀ k', s.executing = some k' → k' = k) {phase : ExecPhase}
    (hne : ∀ t, phase ≠ .waiting t) (hidle : phase ≠ .idle)
    (hpast : ∀ t, phase = .timeoutError t ∨ phase = .commandTimedOut t → t ≤ s.time) :
    Timed (s.returns k phase) where
  here := returns_lost.trans hs.here
  past k' t ht := by
    rw [returns_time]
    rcases returns_phase s k k' phase with h | ⟨-, h⟩
    · exact hs.past k' t (h ▸ ht)
    · exact hpast t (h ▸ ht)
  ended k' p hp := by
    rw [returns_time]
    exact hs.ended k' p (returns_process.symm.trans hp)
  waiting k' since hp := by
    rw [returns_time, returns_made, returns_due]
    exact hs.waiting k' since (hs.respond_waiting hne hp).2
  started k' p since hp hw := by
    obtain ⟨hk, hw⟩ := hs.respond_waiting hne hw
    exact absurd (hexec k' (hs.started k' p since (returns_process.symm.trans hp) hw).2) hk
  done k' p t t' he := nomatch he
  queued k' hk' := by
    rw [returns_queue] at hk'
    rw [returns_process]
    refine ⟨(hs.queued k' hk').1, fun h' => ?_⟩
    rcases returns_phase s k k' phase with h | ⟨-, h⟩
    · exact (hs.queued k' hk').2 (h.symm.trans h')
    · exact hidle (h.symm.trans h')
  nodup := by
    rw [returns_queue]
    exact hs.nodup
  idle k' hp := by
    rw [returns_process]
    rcases returns_phase s k k' phase with h | ⟨-, h⟩
    · exact hs.idle k' (h.symm.trans hp)
    · exact absurd (h.symm.trans hp) hidle

/-- The queue without its first command. -/
theorem dequeue (hs : Timed s) {rest : List CallId} (hq : s.queue = k :: rest) :
    Timed { s with queue := rest } where
  here := hs.here
  past := hs.past
  ended := hs.ended
  waiting := hs.waiting
  started := hs.started
  done := hs.done
  queued k' hk' := hs.queued k' (hq ▸ List.mem_cons_of_mem k hk')
  nodup := (List.nodup_cons.1 (hq ▸ hs.nodup)).2
  idle := hs.idle

/-- A process takes note of its end, or of the end of its output. -/
theorem note (hs : Timed s) {p p' : Process} (hp : (s.call k).process = some p)
    (hstart : p'.started = p.started)
    (hx : (p'.exited = some s.time ∧ p'.closed = p.closed) ∨
      (p'.exited = p.exited ∧ p'.closed = some s.time)) :
    Timed (s.setCall k { s.call k with process := some p' }) := by
  have hend : (∀ t, p'.exited = some t → t ≤ s.time) ∧ ∀ t, p'.closed = some t → t ≤ s.time := by
    obtain ⟨h₁, h₂⟩ := hs.ended k p hp
    rcases hx with ⟨hx, hc⟩ | ⟨hx, hc⟩ <;> rw [hx, hc]
    · exact ⟨fun t ht => (Option.some_inj.1 ht).ge, h₂⟩
    · exact ⟨h₁, fun t ht => (Option.some_inj.1 ht).ge⟩
  refine ⟨hs.here, ?_, ?_, ?_, ?_, ?_, ?_, hs.nodup, ?_⟩
  · intro k' t ht
    by_cases hk : k' = k
    · subst hk
      exact hs.past k' t (by simpa using ht)
    · exact hs.past k' t (by simpa [hk] using ht)
  · intro k' q hq
    by_cases hk : k' = k
    · subst hk
      simp at hq
      subst hq
      exact hend
    · exact hs.ended k' q (by simpa [hk] using hq)
  · intro k' since hw
    by_cases hk : k' = k
    · subst hk
      simpa [ExecCall.due] using hs.waiting k' since (by simpa using hw)
    · simpa [ExecCall.due, hk] using hs.waiting k' since (by simpa [hk] using hw)
  · intro k' q since hq hw
    by_cases hk : k' = k
    · subst hk
      simp at hq hw
      subst hq
      rw [hstart]
      exact hs.started k' p since hp hw
    · exact hs.started k' q since (by simpa [hk] using hq) (by simpa [hk] using hw)
  · intro k' q t t' he hq ht ht'
    by_cases hk : k' = k
    · subst hk
      simp at hq
      subst hq
      have h₁ := hend.1 t ht
      have h₂ := hend.2 t' ht'
      rcases hx with ⟨hx, -⟩ | ⟨-, hx⟩
      · cases hx.symm.trans ht
        exact max_eq_left h₂
      · cases hx.symm.trans ht'
        exact max_eq_right h₁
    · exact hs.done k' q t t' he (by simpa [hk] using hq) ht ht'
  · intro k' hk'
    have hne : k' ≠ k := by
      rintro rfl
      cases (hs.queued k' hk').1.symm.trans hp
    simpa [hne] using hs.queued k' hk'
  · intro k' hw
    by_cases hk : k' = k
    · subst hk
      cases (hs.idle k' (by simpa using hw)).symm.trans hp
    · simpa [hk] using hs.idle k' (by simpa [hk] using hw)

/-- A call is made. -/
theorem exec (hs : Timed s) {timeout : ℕ} (hp : (s.call k).phase = .idle) :
    Timed { s.setCall k ⟨timeout, .waiting s.time, none⟩ with
      made := k :: s.made
      queue := if s.lost then s.queue else s.queue ++ [k] } := by
  have hnew : k ∉ s.queue := fun hk => (hs.queued k hk).2 hp
  have hqueue : (if s.lost then s.queue else s.queue ++ [k]) = s.queue ++ [k] :=
    if_neg (by rw [hs.here]; nofun)
  refine ⟨hs.here, ?_, ?_, ?_, ?_, ?_, ?_, ?_, ?_⟩
  · intro k' t ht
    by_cases hk : k' = k
    · subst hk
      simp at ht
    · exact hs.past k' t (by simpa [hk] using ht)
  · intro k' q hq
    by_cases hk : k' = k
    · subst hk
      simp at hq
    · exact hs.ended k' q (by simpa [hk] using hq)
  · intro k' since hw
    by_cases hk : k' = k
    · subst hk
      simp at hw
      subst hw
      simp [ExecCall.due]
    · obtain ⟨hm, hle, hdue⟩ := hs.waiting k' since (by simpa [hk] using hw)
      exact ⟨List.mem_cons_of_mem k hm, hle, by simpa [hk] using hdue⟩
  · intro k' q since hq hw
    by_cases hk : k' = k
    · subst hk
      simp at hq
    · exact hs.started k' q since (by simpa [hk] using hq) (by simpa [hk] using hw)
  · intro k' q t t' he hq ht ht'
    by_cases hk : k' = k
    · subst hk
      simp at hq
    · exact hs.done k' q t t' he (by simpa [hk] using hq) ht ht'
  · intro k' hk'
    by_cases hk : k' = k
    · subst hk
      simp
    · rw [hqueue, List.mem_append, List.mem_singleton] at hk'
      simpa [hk] using hs.queued k' (hk'.resolve_right hk)
  · rw [hqueue]
    exact hs.nodup.append (List.nodup_singleton k) (List.disjoint_singleton.2 hnew)
  · intro k' hw
    by_cases hk : k' = k
    · subst hk
      simp at hw
    · simpa [hk] using hs.idle k' (by simpa [hk] using hw)

/-- The first command of the queue is started. -/
theorem spawned (hs : Timed s) {rest : List CallId} (hexec : s.executing = none)
    (hq : s.queue = k :: rest) :
    Timed { s.setCall k { s.call k with process := some ⟨s.time, none, none⟩ } with
      queue := rest
      executing := some k } := by
  obtain ⟨hnot, hnodup⟩ := List.nodup_cons.1 (hq ▸ hs.nodup)
  have hk₀ := hs.queued k (hq ▸ List.mem_cons_self)
  refine ⟨hs.here, ?_, ?_, ?_, ?_, ?_, ?_, hnodup, ?_⟩
  · intro k' t ht
    by_cases hk : k' = k
    · subst hk
      exact hs.past k' t (by simpa using ht)
    · exact hs.past k' t (by simpa [hk] using ht)
  · intro k' q hq'
    by_cases hk : k' = k
    · subst hk
      simp at hq'
      subst hq'
      exact ⟨nofun, nofun⟩
    · exact hs.ended k' q (by simpa [hk] using hq')
  · intro k' since hw
    by_cases hk : k' = k
    · subst hk
      simpa [ExecCall.due] using hs.waiting k' since (by simpa using hw)
    · simpa [ExecCall.due, hk] using hs.waiting k' since (by simpa [hk] using hw)
  · intro k' q since hq' hw
    by_cases hk : k' = k
    · subst hk
      simp at hq' hw
      subst hq'
      exact ⟨(hs.waiting k' since hw).2.1, rfl⟩
    · have := (hs.started k' q since (by simpa [hk] using hq') (by simpa [hk] using hw)).2
      cases hexec.symm.trans this
  · intro k' q t t' he hq' ht _
    obtain rfl : k = k' := Option.some_inj.1 he
    simp at hq'
    subst hq'
    cases ht
  · intro k' hk'
    have hne : k' ≠ k := fun h => hnot (h ▸ hk')
    simpa [hne] using hs.queued k' (hq ▸ List.mem_cons_of_mem k hk')
  · intro k' hw
    by_cases hk : k' = k
    · subst hk
      exact absurd (by simpa using hw) hk₀.2
    · simpa [hk] using hs.idle k' (by simpa [hk] using hw)

/-- The time of a call is over. -/
theorem timeOut (hs : Timed s) {since : ℕ} (hp : (s.call k).phase = .waiting since) :
    Timed (s.setCall k { s.call k with phase := .timeoutError s.time }) := by
  refine ⟨hs.here, ?_, ?_, ?_, ?_, ?_, ?_, hs.nodup, ?_⟩
  · intro k' t ht
    by_cases hk : k' = k
    · subst hk
      simp at ht
      exact ht.ge
    · exact hs.past k' t (by simpa [hk] using ht)
  · intro k' q hq
    by_cases hk : k' = k
    · subst hk
      exact hs.ended k' q (by simpa using hq)
    · exact hs.ended k' q (by simpa [hk] using hq)
  · intro k' since' hw
    by_cases hk : k' = k
    · subst hk
      simp at hw
    · simpa [ExecCall.due, hk] using hs.waiting k' since' (by simpa [hk] using hw)
  · intro k' q since' hq hw
    by_cases hk : k' = k
    · subst hk
      simp at hw
    · exact hs.started k' q since' (by simpa [hk] using hq) (by simpa [hk] using hw)
  · intro k' q t t' he hq ht ht'
    by_cases hk : k' = k
    · subst hk
      exact hs.done k' q t t' he (by simpa using hq) ht ht'
    · exact hs.done k' q t t' he (by simpa [hk] using hq) ht ht'
  · intro k' hk'
    by_cases hk : k' = k
    · subst hk
      simpa using (hs.queued k' hk').1
    · simpa [hk] using hs.queued k' hk'
  · intro k' hw
    by_cases hk : k' = k
    · subst hk
      simp at hw
    · simpa [hk] using hs.idle k' (by simpa [hk] using hw)

/-- Time passes, up to the next timer. -/
theorem tick (hs : Timed s) {n : ℕ} (ha : s.Awaits (s.time + n)) :
    Timed { s with time := s.time + n } where
  here := hs.here
  past k t ht := (hs.past k t ht).trans (Nat.le_add_right _ n)
  ended k p hp :=
    ⟨fun t ht => ((hs.ended k p hp).1 t ht).trans (Nat.le_add_right _ n),
      fun t ht => ((hs.ended k p hp).2 t ht).trans (Nat.le_add_right _ n)⟩
  waiting k since hw := by
    obtain ⟨hm, hle, -⟩ := hs.waiting k since hw
    exact ⟨hm, hle.trans (Nat.le_add_right _ n), ha.1 k hm since hw⟩
  started := hs.started
  done k p t t' he hp ht ht' := by
    have hf := (ha.2 k he p hp).1
    rw [Process.finished, ht, ht'] at hf
    cases hf
  queued := hs.queued
  nodup := hs.nodup
  idle := hs.idle

theorem step (hs : Timed s) (h : Steps s e s') (he : e ≠ .lose) : Timed s' := by
  cases h with
  | tick ha => exact hs.tick ha
  | exec hp => exact hs.exec hp
  | spawned hexec hq => exact hs.spawned hexec hq
  | @unspawned k rest hexec hq =>
    exact (hs.dequeue hq).returns (fun k' hk' => nomatch hexec.symm.trans hk') nofun nofun nofun
  | exit hp hx => exact hs.note hp rfl (.inl ⟨rfl, rfl⟩)
  | close hp hx => exact hs.note hp rfl (.inr ⟨rfl, rfl⟩)
  | output hexec _ _ =>
    exact hs.returns (fun k' hk' => Option.some_inj.1 (hk'.symm.trans hexec)) nofun nofun nofun
  | failed hexec =>
    exact hs.returns (fun k' hk' => Option.some_inj.1 (hk'.symm.trans hexec)) nofun nofun nofun
  | expire hexec _ _ _ =>
    refine hs.returns (fun k' hk' => Option.some_inj.1 (hk'.symm.trans hexec)) nofun nofun ?_
    rintro t (ht | ht) <;> cases ht
    exact le_rfl
  | timeOut hp _ => exact hs.timeOut hp
  | lose => exact absurd rfl he
  | reconnect hl _ => cases hl.symm.trans hs.here

end Timed

/-- A command that has had its time when its call returns has had it for good. -/
theorem HadTime.step (hs : Timed s) (h : Steps s e s') {t : ℕ} (ht : t ≤ s.time)
    (hidle : (s.call k).phase ≠ .idle) (hhad : s.HadTime k t) : s'.HadTime k t := by
  obtain ⟨p, hp, hdue, hdone⟩ := hhad
  cases h with
  | tick | lose | reconnect => exact ⟨p, hp, hdue, hdone⟩
  | unspawned | output | failed | expire =>
    refine ⟨p, returns_process.trans hp, ?_, fun t₁ t₂ h₁ h₂ => ?_⟩
    · rw [returns_due]
      exact hdue
    · rw [returns_due]
      exact hdone t₁ t₂ h₁ h₂
  | @exec k₁ _ hp₁ =>
    have hk : k ≠ k₁ := fun h => hidle (h ▸ hp₁)
    exact ⟨p, by simpa [hk] using hp, by simpa [hk] using hdue, by simpa [hk] using hdone⟩
  | @timeOut k₁ =>
    by_cases hk : k = k₁
    · subst hk
      exact ⟨p, by simpa using hp, by simpa [ExecCall.due] using hdue,
        by simpa [ExecCall.due] using hdone⟩
    · exact ⟨p, by simpa [hk] using hp, by simpa [hk] using hdue, by simpa [hk] using hdone⟩
  | @spawned k₁ rest he hq =>
    have hk : k ≠ k₁ := by
      rintro rfl
      cases (hs.queued k (hq ▸ List.mem_cons_self)).1.symm.trans hp
    exact ⟨p, by simpa [hk] using hp, by simpa [hk] using hdue, by simpa [hk] using hdone⟩
  | @exit k₁ p₁ hp₁ hx₁ =>
    by_cases hk : k = k₁
    · subst hk
      obtain rfl := Option.some_inj.1 (hp.symm.trans hp₁)
      refine ⟨{ p with exited := some s.time }, by simp, by simpa [ExecCall.due] using hdue, ?_⟩
      rintro t₁ t₂ h₁ -
      obtain rfl : s.time = t₁ := Option.some_inj.1 h₁
      have hle : (s.call k).due p.started ≤ s.time := hdue.trans ht
      simpa [ExecCall.due] using Or.inl hle
    · exact ⟨p, by simpa [hk] using hp, by simpa [hk] using hdue, by simpa [hk] using hdone⟩
  | @close k₁ p₁ hp₁ hx₁ =>
    by_cases hk : k = k₁
    · subst hk
      obtain rfl := Option.some_inj.1 (hp.symm.trans hp₁)
      refine ⟨{ p with closed := some s.time }, by simp, by simpa [ExecCall.due] using hdue, ?_⟩
      rintro t₁ t₂ - h₂
      obtain rfl : s.time = t₂ := Option.some_inj.1 h₂
      have hle : (s.call k).due p.started ≤ s.time := hdue.trans ht
      simpa [ExecCall.due] using Or.inr hle
    · exact ⟨p, by simpa [hk] using hp, by simpa [hk] using hdue, by simpa [hk] using hdone⟩

/-- A call that an event has timed out was waiting, or its command in `execute`. -/
theorem timedOut_step (h : Steps s e s') {t : ℕ}
    (ht : (s'.call k).phase = .timeoutError t ∨ (s'.call k).phase = .commandTimedOut t) :
    ((s.call k).phase = .timeoutError t ∨ (s.call k).phase = .commandTimedOut t) ∨
      (e = .timeOut k ∧ t = s.time) ∨ e = .expire ∧ s.executing = some k ∧ t = s.time := by
  cases h with
  | tick | lose | reconnect => exact .inl ht
  | @unspawned k₁ rest =>
    rcases returns_phase { s with queue := rest } k₁ k .returned
      with h | ⟨-, h⟩ <;> rw [h] at ht
    · exact .inl ht
    · rcases ht with ht | ht <;> cases ht
  | @output k₁ | @failed k₁ =>
    rcases returns_phase s k₁ k .returned with h | ⟨-, h⟩ <;>
      rw [h] at ht
    · exact .inl ht
    · rcases ht with ht | ht <;> cases ht
  | @expire k₁ p he =>
    rcases returns_phase s k₁ k (.commandTimedOut s.time)
      with h | ⟨rfl, h⟩ <;> rw [h] at ht
    · exact .inl ht
    · rcases ht with ht | ht <;> cases ht
      exact .inr (.inr ⟨rfl, he, rfl⟩)
  | @exec k₁ =>
    by_cases hk : k = k₁
    · subst hk
      simp at ht
    · exact .inl (by simpa [hk] using ht)
  | @timeOut k₁ =>
    by_cases hk : k = k₁
    · subst hk
      simp at ht
      exact .inr (.inl ⟨rfl, ht.symm⟩)
    · exact .inl (by simpa [hk] using ht)
  | @spawned k₁ | @exit k₁ | @close k₁ =>
    by_cases hk : k = k₁
    · subst hk
      exact .inl (by simpa using ht)
    · exact .inl (by simpa [hk] using ht)

theorem TimedOutRight.step (hs : Timed s) (h : Steps s e s') (hr : s.TimedOutRight)
    (hq : s.StartedAtOnce e) : s'.TimedOutRight := by
  intro k t ht
  rcases timedOut_step h ht with hold | ⟨rfl, rfl⟩ | ⟨rfl, he, rfl⟩
  · refine (hr k t hold).step hs h (hs.past k t hold) fun hidle => ?_
    rcases hold with hold | hold <;> cases hidle.symm.trans hold
  · obtain ⟨p, hp, hw⟩ := hq k rfl
    cases h with
    | @timeOut _ since hw' hdue =>
      obtain rfl : p.started = since := ExecPhase.waiting.inj (hw.symm.trans hw')
      refine ⟨p, by simpa using hp, by simpa [ExecCall.due] using hdue, fun t₁ t₂ h₁ h₂ => ?_⟩
      have hmax := hs.done k p t₁ t₂ (hs.started k p _ hp hw).2 hp h₁ h₂
      rw [hmax]
      simpa [ExecCall.due] using hdue
  · cases h with
    | @expire k₁ p he' hp hf hdue =>
      obtain rfl := Option.some_inj.1 (he.symm.trans he')
      refine ⟨p, returns_process.trans hp, by rwa [returns_due], fun t₁ t₂ h₁ h₂ => ?_⟩
      rw [Process.finished, h₁, h₂] at hf
      cases hf

/-- A command that had its time within that of its call was started when the call was made. -/
theorem startedAtOnce_of (hs : Timed s) (h : Steps s e s') (hr : s'.TimedOutRight) :
    s.StartedAtOnce e := by
  rintro k rfl
  cases h with
  | @timeOut _ since hw hdue =>
    obtain ⟨p, hp, hle, -⟩ := hr k s.time (.inl (by simp))
    have hp : (s.call k).process = some p := by simpa using hp
    have hle : (s.call k).due p.started ≤ s.time := by simpa [ExecCall.due] using hle
    have hfrom : since ≤ p.started := (hs.started k p since hp hw).1
    have hto : p.started ≤ since :=
      Nat.le_of_add_le_add_right (hle.trans (hs.waiting k since hw).2.2)
    exact ⟨p, hp, hw.trans (congrArg ExecPhase.waiting (hfrom.antisymm hto))⟩

/-- **In every state of a run every call that has timed out had its command started and given its
time, if and only if each call whose time is over had its command started when it was made.** -/
theorem timedOutRight_iff (h : run step initial es = some s) (hl : .lose ∉ es) :
    Always step TimedOutRight initial es ↔ Along step StartedAtOnce initial es := by
  have hkeep : Along step (fun _ e => e ≠ .lose) initial es :=
    .of_forall fun e he _ => by
      rintro rfl
      exact hl he
  constructor
  · intro hall
    exact hall.along_of (I := Timed) hkeep (fun _ _ _ hs he h => hs.step (steps_of_step h) he)
      (fun _ _ _ hs h => startedAtOnce_of hs (steps_of_step h)) h .initial
  · intro hq
    refine (hkeep.and hq).always (I := fun s => Timed s ∧ s.TimedOutRight) ?_ (fun _ hs => hs.2)
      ⟨.initial, ?_⟩
    · rintro s e s' ⟨hs, hr⟩ ⟨he, hq⟩ h
      exact ⟨hs.step (steps_of_step h) he, hr.step hs (steps_of_step h) hq⟩
    · rintro k t (ht | ht) <;> cases ht

/-- A command with no output for three seconds, and one that waits behind it. -/
def sampleQueued : List CommandEvent :=
  [.exec 0 10, .execute true, .exec 1 1, .tick second, .timeOut 1, .tick (2 * second), .exit 0,
    .close 0, .output, .execute true]

theorem sampleQueued_isSome : (run step initial sampleQueued).isSome = true := by
  decide +kernel

/-- The theorem at a run in which a call is timed out. -/
theorem timedOutRight_iff_sample :
    Always step TimedOutRight initial sampleQueued ↔
      Along step StartedAtOnce initial sampleQueued :=
  timedOutRight_iff (run_eq_getD sampleQueued_isSome) (by decide +kernel)

/-- The second call raises `TimeoutError` after one second, and its command is started after
three. -/
theorem started_after_timeout : ∃ es s, run step initial es = some s ∧ .lose ∉ es ∧
    (s.call 1).phase = .timeoutError second ∧
    (s.call 1).process = some ⟨3 * second, none, none⟩ ∧ ¬ s.TimedOutRight := by
  have hp : (((run step initial sampleQueued).getD initial).call 1).process =
      some ⟨3 * second, none, none⟩ := by decide +kernel
  have hw : (((run step initial sampleQueued).getD initial).call 1).phase =
      .timeoutError second := by decide +kernel
  refine ⟨_, _, run_eq_getD sampleQueued_isSome, by decide +kernel, hw, hp, fun h => ?_⟩
  obtain ⟨p, hp', hdue, -⟩ := h 1 second (.inl hw)
  obtain rfl := Option.some_inj.1 (hp.symm.trans hp')
  exact absurd ((Nat.le_add_right _ _).trans hdue) (by decide +kernel)

end Commands

end SandD
