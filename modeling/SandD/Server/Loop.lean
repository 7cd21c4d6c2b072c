import SandD.Server.Tasks

/-!
# The loop of `handle_websocket`

How a task goes through its loop, event by event, and when it leaves it.  `select!` disables the
branch of the inbound stream for a round in which the stream yields `None`, and the branch of the
requests never is, since the function owns a sender of its own: `loopEnds_iff` says what keeps the
loop from waiting for a stream that has ended.
-/

namespace SandD

/-- What a step of a task does to it. -/
inductive TaskStep (t : Task) : Event → Task → Prop
  | accept {c : TaskId} (hp : t.phase = .absent) :
      TaskStep t (.accept c) { t with phase := .select true, ownSender := true }
  | message {c : TaskId} {m : Message} {rest : List Frame} (hp : t.phase = .select true)
      (hin : t.inbound = .text (some m) :: rest) :
      TaskStep t (.next c) { t with inbound := rest, phase := .handling m }
  | skip {c : TaskId} {f : Frame} {rest : List Frame} (hp : t.phase = .select true)
      (hin : t.inbound = f :: rest) (hf : f = .text none ∨ f = .other) :
      TaskStep t (.next c) { t with inbound := rest }
  | close {c : TaskId} {f : Frame} {rest : List Frame} {ending : Ending}
      (hp : t.phase = .select true) (hin : t.inbound = f :: rest)
      (hf : f = .close ∧ ending = .close ∨ f = .error ∧ ending = .error) :
      TaskStep t (.next c)
        { t with inbound := rest, sawEnd := some ending, phase := .leaving }
  | none {c : TaskId} (hp : t.phase = .select true) (hin : t.inbound = []) (hend : t.ended = true) :
      TaskStep t (.next c) { t with sawEnd := some .none, phase := .select false }
  | handle {c : TaskId} {m : Message} {phase : Phase} {id : Option String}
      (hp : t.phase = .handling m)
      (hphase : phase = .select true ∨ (∃ o, phase = .routing m o) ∨
        ∃ m', phase = .replying m' ∧ m'.asks = none)
      (hid : id = t.daemonId ∨ ∃ i md, m = .register i md ∧ i ≠ "" ∧ id = some i) :
      TaskStep t (.handle c) { t with phase := phase, daemonId := id }
  | route {c : TaskId} {m : Message} {o : ConnRef} {phase : Phase} (hp : t.phase = .routing m o)
      (hphase : phase = .select true ∨ ∃ m', phase = .replying m' ∧ m'.asks = none) :
      TaskStep t (.route c) { t with phase := phase }
  | recv {c : TaskId} {b : Bool} {m : Message} {rest : List Message} (hp : t.phase = .select b)
      (hreq : t.requests = m :: rest) :
      TaskStep t (.recv c) { t with requests := rest, phase := .sending m }
  | orElse {c : TaskId} (hp : t.phase = .select false) (hreq : t.requests = [])
      (hown : t.ownSender = false) : TaskStep t (.orElse c) { t with phase := .leaving }
  | replied {c : TaskId} {m : Message} {ok : Bool} (hp : t.phase = .replying m) :
      TaskStep t (.write c ok)
        { t with
          outbound := if ok then t.outbound ++ [m] else t.outbound
          phase := .select true }
  | sent {c : TaskId} {m : Message} {ok : Bool} (hp : t.phase = .sending m) :
      TaskStep t (.write c ok)
        { t with
          outbound := if ok then t.outbound ++ [m] else t.outbound
          phase := if ok then .select true else .leaving }
  | cleanUp {c : TaskId} (hp : t.phase = .leaving) :
      TaskStep t (.cleanUp c) { t with phase := .returning }
  | finish {c : TaskId} (hp : t.phase = .returning) :
      TaskStep t (.finish c) { t with phase := .exited, requests := [], ownSender := false }

/-- Out of the loop. -/
def Phase.isOut : Phase → Bool
  | leaving => true
  | returning => true
  | exited => true
  | _ => false

/-- Where a task can be, given how its stream has ended. -/
structure Task.AtEnd (t : Task) : Prop where
  owns : t.phase ≠ .absent → t.phase ≠ .exited → t.ownSender = true
  out : ∀ ending, t.sawEnd = some ending → ending ≠ .none → t.phase.isOut = true
  none : t.sawEnd = some .none → t.inbound = [] ∧ t.ended = true ∧
    ((∃ b, t.phase = .select b) ∨ (∃ m, t.phase = .sending m) ∨ t.phase.isOut = true)

/-- The task does not wait for a stream that has ended while no request is queued. -/
def Task.Awake (t : Task) : Prop :=
  t.sawEnd ≠ none → t.requests = [] → ∀ b, t.phase ≠ .select b

namespace Task.AtEnd

variable {t t' : Task}

theorem over_eq_none (h : t.AtEnd) (hout : t.phase.isOut = false)
    (hselect : ∀ b, t.phase ≠ .select b) (hsending : ∀ m, t.phase ≠ .sending m) :
    t.sawEnd = .none := by
  cases hover : t.sawEnd with
  | none => rfl
  | some ending =>
    exfalso
    cases ending with
    | none =>
      rcases (h.none hover).2.2 with ⟨b, hb⟩ | ⟨m, hm⟩ | ho
      · exact hselect b hb
      · exact hsending m hm
      · cases hout.symm.trans ho
    | close => cases hout.symm.trans (h.out _ hover nofun)
    | error => cases hout.symm.trans (h.out _ hover nofun)

/-- While frames are on their way in, the stream has not ended. -/
theorem over_eq_none_of_inbound (h : t.AtEnd) {b : Bool} (hp : t.phase = .select b)
    (hin : t.inbound ≠ []) : t.sawEnd = .none := by
  cases hover : t.sawEnd with
  | none => rfl
  | some ending =>
    exfalso
    have hout : t.phase.isOut = false := by rw [hp]; rfl
    cases ending with
    | none => exact hin (h.none hover).1
    | close => cases hout.symm.trans (h.out _ hover nofun)
    | error => cases hout.symm.trans (h.out _ hover nofun)

/-- A task in its loop whose stream has not ended. -/
theorem of_none (hover : t.sawEnd = .none) (howns : t.ownSender = true) : t.AtEnd where
  owns _ _ := howns
  out _ h := nomatch hover.symm.trans h
  none h := nomatch hover.symm.trans h

/-- A task out of its loop. -/
theorem of_out (h : t.AtEnd) (hover : t'.sawEnd = t.sawEnd) (hin : t'.inbound = t.inbound)
    (hend : t'.ended = t.ended) (hout : t'.phase.isOut = true)
    (howns : t'.phase ≠ .exited → t'.ownSender = true) : t'.AtEnd where
  owns _ := howns
  out _ _ _ := hout
  none h' := by
    have hn := h.none (hover ▸ h')
    exact ⟨hin.trans hn.1, hend.trans hn.2.1, .inr (.inr hout)⟩

theorem kept (h : t.AtEnd) (hk : t.Kept t') : t'.AtEnd where
  owns := by
    rw [hk.phase, hk.ownSender]
    exact h.owns
  out := by
    rw [hk.phase, hk.sawEnd]
    exact h.out
  none h' := by
    obtain ⟨hin, hend, hp⟩ := h.none (hk.sawEnd ▸ h')
    have hended := hk.ended hend
    exact ⟨hended.2.trans hin, hended.1, by rw [hk.phase]; exact hp⟩

theorem step {e : Event} (h : t.AtEnd) (hs : TaskStep t e t') : t'.AtEnd := by
  cases hs with
  | accept hp =>
    have hover := h.over_eq_none (by rw [hp]; rfl) (by rw [hp]; nofun) (by rw [hp]; nofun)
    exact .of_none hover rfl
  | message hp hin =>
    have hover := h.over_eq_none_of_inbound hp (by rw [hin]; nofun)
    exact .of_none hover (h.owns (by rw [hp]; nofun) (by rw [hp]; nofun))
  | skip hp hin _ =>
    have hover := h.over_eq_none_of_inbound hp (by rw [hin]; nofun)
    exact .of_none hover (h.owns (by rw [hp]; nofun) (by rw [hp]; nofun))
  | close hp hin hf =>
    refine ⟨fun _ _ => h.owns (by rw [hp]; nofun) (by rw [hp]; nofun), fun _ _ _ => rfl, ?_⟩
    rintro h'
    rcases hf with ⟨-, rfl⟩ | ⟨-, rfl⟩ <;> cases h'
  | none hp hin hend =>
    refine ⟨fun _ _ => h.owns (by rw [hp]; nofun) (by rw [hp]; nofun), ?_, ?_⟩
    · rintro ending h' hne
      cases h'
      exact absurd rfl hne
    · exact fun _ => ⟨hin, hend, .inl ⟨false, rfl⟩⟩
  | handle hp _ _ =>
    have hover := h.over_eq_none (by rw [hp]; rfl) (by rw [hp]; nofun) (by rw [hp]; nofun)
    exact .of_none hover (h.owns (by rw [hp]; nofun) (by rw [hp]; nofun))
  | route hp _ =>
    have hover := h.over_eq_none (by rw [hp]; rfl) (by rw [hp]; nofun) (by rw [hp]; nofun)
    exact .of_none hover (h.owns (by rw [hp]; nofun) (by rw [hp]; nofun))
  | recv hp _ =>
    refine ⟨fun _ _ => h.owns (by rw [hp]; nofun) (by rw [hp]; nofun), ?_, ?_⟩
    · intro ending h' hne
      have hout := h.out ending h' hne
      rw [hp] at hout
      cases hout
    · intro h'
      obtain ⟨hin, hend, -⟩ := h.none h'
      exact ⟨hin, hend, .inr (.inl ⟨_, rfl⟩)⟩
  | orElse hp _ hown =>
    cases hown.symm.trans (h.owns (by rw [hp]; nofun) (by rw [hp]; nofun))
  | replied hp =>
    have hover := h.over_eq_none (by rw [hp]; rfl) (by rw [hp]; nofun) (by rw [hp]; nofun)
    exact .of_none hover (h.owns (by rw [hp]; nofun) (by rw [hp]; nofun))
  | @sent _ _ ok hp =>
    refine ⟨fun _ _ => h.owns (by rw [hp]; nofun) (by rw [hp]; nofun), ?_, ?_⟩
    · intro ending h' hne
      have hout := h.out ending h' hne
      rw [hp] at hout
      cases hout
    · intro h'
      obtain ⟨hin, hend, -⟩ := h.none h'
      refine ⟨hin, hend, ?_⟩
      cases ok with
      | true => exact .inl ⟨true, rfl⟩
      | false => exact .inr (.inr rfl)
  | cleanUp hp =>
    exact h.of_out rfl rfl rfl rfl fun _ => h.owns (by rw [hp]; nofun) (by rw [hp]; nofun)
  | finish hp => exact h.of_out rfl rfl rfl rfl fun h => absurd rfl h

end Task.AtEnd

theorem Task.Awake.kept {t t' : Task} (h : t.Awake) (hk : t.Kept t') : t'.Awake := by
  intro hover hreq
  have hreq₀ : t.requests = [] := List.prefix_nil.1 (hreq ▸ hk.requests)
  rw [hk.phase]
  exact h (hk.sawEnd ▸ hover) hreq₀

namespace Server

variable {s s' : Server} {c : TaskId} {e : Event} {es : List Event}

/-- The look-up for a heartbeat. -/
theorem lookUp_heartbeat {id : String} (hid : (s.task c).daemonId = some id) :
    ((s.lookUp c .heartbeat).task c).phase =
      match s.get id with
      | some o => .routing .heartbeat o
      | none => .replying (heartbeatAck false) := by
  unfold Server.lookUp setPhase
  rw [hid]
  dsimp only
  cases s.get id with
  | some o => rw [setTask_task, Function.update_self]
  | none => rw [if_pos rfl, setTask_task, Function.update_self]

theorem handle_task {m : Message} (hp : (s.task c).phase = .handling m) :
    TaskStep (s.task c) (.handle c) ((s.handleDaemonMessage c m).task c) := by
  have hlook : TaskStep (s.task c) (.handle c) ((s.lookUp c m).task c) := by
    unfold Server.lookUp setPhase
    split
    · rw [setTask_task, Function.update_self]
      exact .handle hp (.inl rfl) (.inl rfl)
    · split
      · rw [setTask_task, Function.update_self]
        exact .handle hp (.inr (.inl ⟨_, rfl⟩)) (.inl rfl)
      · split_ifs <;> rw [setTask_task, Function.update_self]
        · exact .handle hp (.inr (.inr ⟨_, rfl, rfl⟩)) (.inl rfl)
        · exact .handle hp (.inl rfl) (.inl rfl)
  unfold Server.handleDaemonMessage setPhase
  split
  next id md =>
    split_ifs with hne <;> rw [setTask_task, Function.update_self]
    · exact .handle hp (.inr (.inr ⟨_, rfl, rfl⟩)) (.inl rfl)
    · exact .handle hp (.inr (.inr ⟨_, rfl, rfl⟩)) (.inr ⟨id, md, rfl, hne, rfl⟩)
  all_goals first
    | exact hlook
    | (rw [setTask_task, Function.update_self]; exact .handle hp (.inl rfl) (.inl rfl))

/-- **What a step of a task does to it.** -/
theorem task_step (h : s.step e = some s') (ha : e.actor = some c) :
    TaskStep (s.task c) e (s'.task c) := by
  cases e <;> cases ha
  case accept =>
    change (if _ then _ else _) = some s' at h
    split_ifs at h with hp
    obtain rfl := Option.some_inj.1 h
    rw [setTask_task, Function.update_self]
    exact .accept hp
  case next =>
    change s.next c = some s' at h
    unfold Server.next at h
    dsimp only at h
    split at h
    next hp =>
      split at h
      case h_6 hin =>
        split_ifs at h with hend
        obtain rfl := Option.some_inj.1 h
        rw [setTask_task, Function.update_self]
        exact .none hp hin hend
      all_goals
        rename_i hin
        obtain rfl := Option.some_inj.1 h
        rw [setTask_task, Function.update_self]
      · exact .message hp hin
      · exact .skip hp hin (.inl rfl)
      · exact .skip hp hin (.inr rfl)
      · exact .close hp hin (.inl ⟨rfl, rfl⟩)
      · exact .close hp hin (.inr ⟨rfl, rfl⟩)
    next => cases h
  case handle =>
    unfold Server.step at h
    dsimp only at h
    split at h
    next m hp =>
      obtain rfl := Option.some_inj.1 h
      exact handle_task hp
    next => cases h
  case route =>
    unfold Server.step at h
    dsimp only at h
    split at h
    next m o hp =>
      obtain rfl := Option.some_inj.1 h
      rw [routed_task, Function.update_self]
      refine .route hp ?_
      split_ifs
      · exact .inr ⟨_, rfl, rfl⟩
      · exact .inl rfl
    next => cases h
  case recv =>
    change s.recv c = some s' at h
    unfold Server.recv at h
    dsimp only at h
    split at h
    next hp hreq =>
      obtain rfl := Option.some_inj.1 h
      rw [setTask_task, Function.update_self]
      exact .recv hp hreq
    next => cases h
  case orElse =>
    change s.orElse c = some s' at h
    unfold Server.orElse at h
    dsimp only at h
    split_ifs at h with hp
    obtain rfl := Option.some_inj.1 h
    rw [setPhase, setTask_task, Function.update_self]
    exact .orElse hp.1 hp.2.1 hp.2.2
  case write ok =>
    change s.write c ok = some s' at h
    unfold Server.write at h
    dsimp only at h
    split at h
    next m hp =>
      obtain rfl := Option.some_inj.1 h
      rw [setTask_task, Function.update_self]
      exact .replied hp
    next m hp =>
      obtain rfl := Option.some_inj.1 h
      rw [setTask_task, Function.update_self]
      exact .sent hp
    next => cases h
  case cleanUp =>
    change (if _ then _ else _) = some s' at h
    split_ifs at h with hp
    obtain rfl := Option.some_inj.1 h
    unfold Server.cleanUp setPhase
    split
    · rw [setTask_task, Function.update_self, remove_task]
      exact .cleanUp hp
    · rw [setTask_task, Function.update_self]
      exact .cleanUp hp
  case finish =>
    change (if _ then _ else _) = some s' at h
    split_ifs at h with hp
    obtain rfl := Option.some_inj.1 h
    rw [finish, setTask_task, Function.update_self]
    exact .finish hp

/-- No connection is registered under the empty id. -/
theorem daemonId_step (h : s.step e = some s') (hid : (s.task c).daemonId ≠ some "") :
    (s'.task c).daemonId ≠ some "" := by
  by_cases ha : e.actor = some c
  case neg => rwa [(task_kept h ha).kept.daemonId]
  have hstep := task_step h ha
  generalize s'.task c = t' at hstep
  cases hstep with
  | handle _ _ hid' =>
    rcases hid' with rfl | ⟨id, md, rfl, hne, rfl⟩
    · exact hid
    · exact fun heq => hne (Option.some_inj.1 heq)
  | _ => exact hid

/-! ### When the stream has ended -/

theorem atEnd_step (h : s.step e = some s') (hs : (s.task c).AtEnd) : (s'.task c).AtEnd := by
  by_cases ha : e.actor = some c
  · exact hs.step (task_step h ha)
  · exact hs.kept (task_kept h ha).kept

end Server

end SandD
