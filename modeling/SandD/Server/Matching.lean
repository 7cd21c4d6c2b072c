import SandD.Server.Waiting
import SandD.Server.Loop

/-!
# Responses and the calls they are for

Every connection registers under an id of its own, so that what one daemon sends cannot reach
what belongs to another, and requests have ids of their own.

* `Separate` is the invariant: what a task looks up is the entry its own Register made.
* `AskedFor`: a request is registered before its message is anywhere on the way to the daemon.
* `responses_matched`: a caller receives the first response to its request that arrives, and
  nothing else that arrives anywhere changes what it receives.
-/

namespace SandD

/-- The message a frame carries. -/
def Frame.message : Frame → Option Message
  | text m => m
  | _ => none

/-- The message `handle_daemon_message` has in hand. -/
def Phase.inHand : Phase → List Message
  | handling m => [m]
  | routing m _ => [m]
  | _ => []

/-- The message about to be written. -/
def Phase.inWriting : Phase → List Message
  | replying m => [m]
  | sending m => [m]
  | _ => []

namespace Task

variable (t : Task)

/-- The messages that have arrived and are not dealt with, in their order. -/
def incoming : List Message := t.phase.inHand ++ t.inbound.filterMap Frame.message

/-- The messages on their way to the daemon. -/
def outgoing : List Message := t.outbound ++ t.phase.inWriting ++ t.requests

end Task

/-- The message an event brings in on a connection. -/
def Event.arrival (c : TaskId) : Event → List Message
  | arrive c' frame => if c' = c then frame.message.toList else []
  | _ => []

/-- The messages that arrive on a connection, in their order. -/
def arrivals (c : TaskId) (es : List Event) : List Message := es.flatMap (Event.arrival c)

/-- What a receiver that has `rx` has received after the messages, when it takes responses to one
request. -/
def Oneshot.after (requestId : String) (ms : List Message) : Oneshot → Oneshot
  | empty =>
    match ms.find? fun m => decide (m.answers = some requestId) with
    | some m => value m
    | none => empty
  | rx => rx

/-- The call has registered its request. -/
structure Call.Asked (call : Call) (ask : Ask) (requestId : String) (o : ConnRef) : Prop where
  method : call.method = .request ask
  requestId : call.requestId = some requestId
  on : call.registeredOn = some o

theorem Event.arrival_of_actor {e : Event} {c c' : TaskId} (h : e.actor = some c') :
    e.arrival c = [] := by
  cases e <;> first | rfl | cases h

namespace Oneshot

variable {r : String} {rx : Oneshot} {ms ms' : List Message} {m : Message}

theorem after_append : rx.after r (ms ++ ms') = (rx.after r ms).after r ms' := by
  cases rx with
  | empty =>
    unfold after
    rw [List.find?_append]
    cases ms.find? fun m => decide (m.answers = some r) <;> rfl
  | value m => rfl
  | closed => rfl

theorem after_of_forall (h : ∀ m ∈ ms, m.answers ≠ some r) : rx.after r ms = rx := by
  cases rx with
  | empty =>
    have hnone : ms.find? (fun m => decide (m.answers = some r)) = none :=
      List.find?_eq_none.2 fun m hm => by simpa using h m hm
    unfold after
    rw [hnone]
  | value m => rfl
  | closed => rfl

theorem after_singleton (h : m.answers = some r) : (empty.after r [m]) = .value m := by
  unfold after
  rw [List.find?_cons_of_pos (by simpa using h)]

theorem after_of_ne (h : rx ≠ .empty) : rx.after r ms = rx := by
  cases rx with
  | empty => exact absurd rfl h
  | value m => rfl
  | closed => rfl

end Oneshot

/-- A step takes frames off the stream. -/
theorem TaskStep.inbound {t t' : Task} {e : Event} (h : TaskStep t e t') :
    t'.inbound <:+ t.inbound := by
  cases h with
  | message _ hin => exact hin ▸ List.suffix_cons _ _
  | skip _ hin _ => exact hin ▸ List.suffix_cons _ _
  | close _ hin _ => exact hin ▸ List.suffix_cons _ _
  | _ => exact List.suffix_rfl

/-- A task adds only acknowledgements to what is on its way to the daemon. -/
theorem TaskStep.outgoing {t t' : Task} {e : Event} (h : TaskStep t e t') {m : Message}
    (hmem : m ∈ t'.outgoing) (hm : m.asks ≠ .none) : m ∈ t.outgoing := by
  unfold Task.outgoing at hmem ⊢
  rw [List.mem_append, List.mem_append] at hmem ⊢
  cases h with
  | accept hp => rwa [hp]
  | message hp _ => rwa [hp]
  | skip hp _ _ => exact hmem
  | close hp _ _ => rwa [hp]
  | none hp _ _ => rwa [hp]
  | handle hp hphase _ =>
    rw [hp]
    rcases hphase with rfl | ⟨o, rfl⟩ | ⟨m', rfl, hm'⟩
    · exact hmem
    · exact hmem
    · refine hmem.imp_left (·.imp_right fun h => ?_)
      rw [List.mem_singleton.1 h] at hm
      exact absurd hm' hm
  | route hp hphase =>
    rw [hp]
    rcases hphase with rfl | ⟨m', rfl, hm'⟩
    · exact hmem
    · refine hmem.imp_left (·.imp_right fun h => ?_)
      rw [List.mem_singleton.1 h] at hm
      exact absurd hm' hm
  | recv hp hreq =>
    rw [hp, hreq]
    rcases hmem with (h | h) | h
    · exact .inl (.inl h)
    · exact .inr (List.mem_cons.2 (.inl (List.mem_singleton.1 h)))
    · exact .inr (List.mem_cons_of_mem _ h)
  | orElse hp _ _ => rwa [hp]
  | @replied _ m' ok hp =>
    rw [hp]
    cases ok with
    | true =>
      rcases hmem with (h | h) | h
      · exact .inl (List.mem_append.1 h)
      · cases h
      · exact .inr h
    | false => exact hmem.imp_left (·.imp_right (nomatch ·))
  | @sent _ m' ok hp =>
    rw [hp]
    cases ok with
    | true =>
      rcases hmem with (h | h) | h
      · exact .inl (List.mem_append.1 h)
      · cases h
      · exact .inr h
    | false => exact hmem.imp_left (·.imp_right (nomatch ·))
  | cleanUp hp => rwa [hp]
  | finish hp =>
    rw [hp]
    rcases hmem with h | h
    · exact .inl h
    · cases h

namespace Server

variable {s s' s'' : Server} {c : TaskId} {o : ConnRef} {k : CallId} {r : String} {e : Event}
  {es : List Event} {name : TaskId → String}

/-- Every connection registers under the id that is its name, if any. -/
def Named (name : TaskId → String) (_ : Server) (e : Event) : Prop :=
  ∀ c id md, e = .arrive c (.text (some (.register id md))) → id = name c ∨ id = ""

/-- What belongs to a task is what its own Register made. -/
structure Separate (name : TaskId → String) (s : Server) : Prop where
  inbound : ∀ c id md, Frame.text (some (.register id md)) ∈ (s.task c).inbound →
    id = name c ∨ id = ""
  handling : ∀ c id md, (s.task c).phase = .handling (.register id md) → id = name c ∨ id = ""
  daemonId : ∀ c id, (s.task c).daemonId = some id → id = name c
  routing : ∀ c m o, (s.task c).phase = .routing m o → (s.task c).daemonId = some (name c) ∧
    o < s.made ∧ (s.conn o).id = name c ∧ ∀ o', s.get (name c) = some o' → o' = o
  made : ∀ o, o < s.made → (s.conn o).id = name (s.conn o).requestTx ∧
    (s.task (s.conn o).requestTx).daemonId = some (name (s.conn o).requestTx)

namespace Separate

theorem initial : Separate name Server.initial where
  inbound _ _ _ h := nomatch h
  handling _ _ _ h := nomatch h
  daemonId _ _ h := nomatch h
  routing _ _ _ h := nomatch h
  made _ h := absurd h (Nat.not_lt_zero _)

/-- An id once given to a task stays. -/
theorem daemonId_step (hsep : Separate name s) (h : s.step e = some s')
    (hid : (s.task c).daemonId = some (name c)) : (s'.task c).daemonId = some (name c) := by
  by_cases ha : e.actor = some c
  case neg => rw [(task_kept h ha).kept.daemonId, hid]
  have hstep := task_step h ha
  generalize s'.task c = t' at hstep
  cases hstep with
  | handle hp _ hid' =>
    rcases hid' with rfl | ⟨id, md, rfl, hne, rfl⟩
    · exact hid
    · exact congrArg some ((hsep.handling c id md hp).resolve_right hne)
  | _ => exact hid

end Separate

/-- Before a message is routed, the entry of the id of the connection was looked up. -/
theorem handleDaemonMessage_routing {m m' : Message}
    (h : ((s.handleDaemonMessage c m).task c).phase = .routing m' o) :
    ∃ id, (s.task c).daemonId = some id ∧ s.get id = some o ∧
      s.handleDaemonMessage c m = (s.hold (.task c) o).setPhase c (.routing m' o) := by
  have hselect : ∀ {s₁ : Server} {t : Task}, ((s₁.setTask c t).task c).phase = .routing m' o →
      t.phase = .routing m' o := by
    intro s₁ t h
    rwa [setTask_task, Function.update_self] at h
  have hlook : (((s.lookUp c m).task c).phase = .routing m' o) →
      ∃ id, (s.task c).daemonId = some id ∧ s.get id = some o ∧
        s.lookUp c m = (s.hold (.task c) o).setPhase c (.routing m' o) := by
    unfold Server.lookUp
    split
    · exact fun h => nomatch hselect h
    next id hid =>
      split
      next o' ho =>
        intro h
        cases hselect h
        exact ⟨id, hid, ho, rfl⟩
      next =>
        split_ifs
        · exact fun h => nomatch hselect h
        · exact fun h => nomatch hselect h
  unfold Server.handleDaemonMessage at h ⊢
  split at h
  next =>
    split_ifs at h
    · exact nomatch hselect h
    · exact nomatch hselect h
  all_goals first
    | exact hlook h
    | exact nomatch hselect h

namespace Separate

/-- The entry of the id of a task changes only by its own Register, and else goes. -/
theorem get_step (hname : Function.Injective name) (hsep : Separate name s)
    (h : s.step e = some s') (ha : e ≠ .handle c) (ho : s'.get (name c) = some o) :
    s.get (name c) = some o := by
  cases entry_step h with
  | same hreg _ =>
    unfold Server.get at ho ⊢
    rwa [hreg] at ho
  | @registered c₁ id md _ hp hne hs' =>
    subst hs'
    obtain rfl := (hsep.handling c₁ id md hp).resolve_right hne
    have hc : name c ≠ name c₁ := fun hc => ha (by rw [hname hc])
    rw [handleDaemonMessage_register hne] at ho
    have hget := register_get (s := s) (c := c₁) (name c₁) md (name c)
    rw [if_neg hc] at hget
    exact hget.symm.trans ho
  | removed _ hget _ =>
    rw [hget] at ho
    split_ifs at ho
    exact ho

theorem made_le (h : s.step e = some s') : s.made ≤ s'.made := by
  cases entry_step h with
  | same _ hmade => exact hmade.ge
  | registered _ hne hs' =>
    rw [hs', handleDaemonMessage_register hne, setTask_made, register_made]
    exact Nat.le_succ _
  | removed _ _ hmade => exact hmade.ge

theorem step (hname : Function.Injective name) (hs : Linked s) (hsep : Separate name s)
    (hn : Named name s e) (h : s.step e = some s') : Separate name s' where
  inbound c id md hmem := by
    by_cases ha : e.actor = some c
    · exact hsep.inbound c id md ((task_step h ha).inbound.mem hmem)
    · rcases (task_kept h ha).inbound with hin | ⟨f, rfl, hin⟩
      · exact hsep.inbound c id md (hin ▸ hmem)
      · rw [hin, List.mem_append, List.mem_singleton] at hmem
        rcases hmem with hmem | rfl
        · exact hsep.inbound c id md hmem
        · exact hn c id md rfl
  handling c id md hp := by
    by_cases ha : e.actor = some c
    case neg => exact hsep.handling c id md ((task_kept h ha).kept.phase ▸ hp)
    have hstep := task_step h ha
    generalize s'.task c = t' at hstep hp
    cases hstep with
    | message _ hin =>
      cases hp
      exact hsep.inbound c id md (hin ▸ List.mem_cons_self)
    | skip hp' _ _ => cases hp'.symm.trans hp
    | handle _ hphase _ =>
      rcases hphase with rfl | ⟨o, rfl⟩ | ⟨m', rfl, -⟩ <;> cases hp
    | route _ hphase => rcases hphase with rfl | ⟨m', rfl, -⟩ <;> cases hp
    | @sent _ _ ok _ => cases ok <;> cases hp
    | _ => cases hp
  daemonId c id hid := by
    by_cases ha : e.actor = some c
    case neg => exact hsep.daemonId c id ((task_kept h ha).kept.daemonId ▸ hid)
    have hstep := task_step h ha
    generalize s'.task c = t' at hstep hid
    cases hstep with
    | handle hp _ hid' =>
      rcases hid' with rfl | ⟨id', md, rfl, hne, rfl⟩
      · exact hsep.daemonId c id hid
      · cases hid
        exact (hsep.handling c id md hp).resolve_right hne
    | _ => exact hsep.daemonId c id hid
  routing c m o hp := by
    by_cases ha : e.actor = some c
    · obtain ⟨id, hid, hget, rfl⟩ : ∃ id, (s.task c).daemonId = some id ∧ s.get id = some o ∧
          s' = (s.hold (.task c) o).setPhase c (.routing m o) := by
        have hstep := task_step h ha
        generalize ht : s'.task c = t' at hstep
        rw [ht] at hp
        cases hstep with
        | skip hp' _ _ => cases hp'.symm.trans hp
        | handle hp' _ _ =>
          cases ha
          rw [handle_eq hp' h] at ht ⊢
          exact handleDaemonMessage_routing (by rw [ht]; exact hp)
        | route _ hphase => rcases hphase with rfl | ⟨m', rfl, -⟩ <;> cases hp
        | @sent _ _ ok _ => cases ok <;> cases hp
        | _ => cases hp
      obtain rfl := hsep.daemonId c id hid
      have hentry := hs.entries _ o hget
      refine ⟨?_, hs.lt_made hentry.2.2, hentry.1, fun o' ho' => ?_⟩
      · rw [setPhase, setTask_task, Function.update_self]
        exact hid
      · exact Option.some_inj.1 (ho'.symm.trans hget)
    · have hk := (task_kept h ha).kept
      obtain ⟨hid, hlt, hconn, hget⟩ := hsep.routing c m o (hk.phase ▸ hp)
      refine ⟨hk.daemonId.trans hid, hlt.trans_le (made_le h), (conn_same h hlt).id.trans hconn,
        fun o' ho' => hget o' (hsep.get_step hname h ?_ ho')⟩
      rintro rfl
      exact ha rfl
  made o ho := by
    by_cases hlt : o < s.made
    · have hsame := conn_same h hlt
      rw [hsame.id, hsame.requestTx]
      exact ⟨(hsep.made o hlt).1, hsep.daemonId_step h (hsep.made o hlt).2⟩
    · cases entry_step h with
      | same _ hmade => exact absurd (hmade ▸ ho) hlt
      | removed _ _ hmade => exact absurd (hmade ▸ ho) hlt
      | @registered c₁ id md _ hp hne hs' =>
        rw [handleDaemonMessage_register hne] at hs'
        subst hs'
        rw [setTask_made, register_made] at ho
        obtain rfl : o = s.made := le_antisymm (Nat.le_of_lt_succ ho) (not_lt.1 hlt)
        have hnew : (DaemonConnection.new id md c₁ s.time).Same
            ((s.register id md c₁).conn s.made) :=
          register_new ..
        obtain rfl := (hsep.handling c₁ id md hp).resolve_right hne
        have htx : ((s.register (name c₁) md c₁).conn s.made).requestTx = c₁ := hnew.requestTx
        rw [setTask_conn, htx, setTask_task, Function.update_self]
        exact ⟨hnew.id, rfl⟩

end Separate

/-! ### What arrives -/

/-- A task deals with what has arrived in its order: each message is dropped before it is routed
anywhere, or is routed. -/
theorem taken_step (h : s.step e = some s') :
    ∃ done, (s.task c).incoming ++ e.arrival c = done ++ (s'.task c).incoming ∧
      (e ≠ .route c ∧ (done = [] ∨ ∃ m, e = .handle c ∧ (s.task c).phase = .handling m ∧
          (∀ m' o, (s'.task c).phase ≠ .routing m' o) ∧ done = [m]) ∨
        ∃ m o', e = .route c ∧ (s.task c).phase = .routing m o' ∧ done = [m]) := by
  by_cases ha : e.actor = some c
  case neg =>
    refine ⟨[], ?_, .inl ⟨by rintro rfl; exact ha rfl, .inl rfl⟩⟩
    have hk := task_kept h ha
    unfold Task.incoming
    rw [hk.kept.phase, List.nil_append, List.append_assoc]
    congr 1
    by_cases harr : ∃ f, e = .arrive c f
    · obtain ⟨f, rfl⟩ := harr
      change (if _ then _ else _) = some s' at h
      split_ifs at h
      obtain rfl := Option.some_inj.1 h
      rw [setTask_task, Function.update_self, List.filterMap_append, Event.arrival, if_pos rfl]
      congr 1
    · have harrival : e.arrival c = [] := by
        cases e with
        | arrive c' f => exact if_neg fun hc => harr ⟨f, by rw [hc]⟩
        | _ => rfl
      rcases hk.inbound with hin | ⟨f, rfl, -⟩
      · rw [hin, harrival, List.append_nil]
      · exact absurd ⟨f, rfl⟩ harr
  rw [Event.arrival_of_actor ha, List.append_nil]
  have hstep := task_step h ha
  generalize s'.task c = t' at hstep
  unfold Task.incoming
  cases hstep with
  | accept hp => exact ⟨[], by rw [hp]; rfl, .inl ⟨nofun, .inl rfl⟩⟩
  | message hp hin => exact ⟨[], by rw [hp, hin]; rfl, .inl ⟨nofun, .inl rfl⟩⟩
  | skip hp hin hf =>
    refine ⟨[], ?_, .inl ⟨nofun, .inl rfl⟩⟩
    rcases hf with rfl | rfl <;> rw [hin] <;> rfl
  | close hp hin hf =>
    refine ⟨[], ?_, .inl ⟨nofun, .inl rfl⟩⟩
    rcases hf with ⟨rfl, -⟩ | ⟨rfl, -⟩ <;> rw [hp, hin] <;> rfl
  | none hp _ _ => exact ⟨[], by rw [hp]; rfl, .inl ⟨nofun, .inl rfl⟩⟩
  | @handle _ m phase _ hp hphase _ =>
    cases ha
    rcases hphase with rfl | ⟨o', rfl⟩ | ⟨m', rfl, -⟩
    · exact ⟨[m], by rw [hp]; rfl, .inl ⟨nofun, .inr ⟨m, rfl, hp, nofun, rfl⟩⟩⟩
    · exact ⟨[], by rw [hp]; rfl, .inl ⟨nofun, .inl rfl⟩⟩
    · exact ⟨[m], by rw [hp]; rfl, .inl ⟨nofun, .inr ⟨m, rfl, hp, nofun, rfl⟩⟩⟩
  | @route _ m o' phase hp hphase =>
    cases ha
    refine ⟨[m], ?_, .inr ⟨m, o', rfl, hp, rfl⟩⟩
    rcases hphase with rfl | ⟨m', rfl, -⟩ <;> rw [hp] <;> rfl
  | recv hp _ => exact ⟨[], by rw [hp]; rfl, .inl ⟨nofun, .inl rfl⟩⟩
  | orElse hp _ _ => exact ⟨[], by rw [hp]; rfl, .inl ⟨nofun, .inl rfl⟩⟩
  | replied hp => exact ⟨[], by rw [hp]; rfl, .inl ⟨nofun, .inl rfl⟩⟩
  | @sent _ _ ok hp =>
    refine ⟨[], ?_, .inl ⟨nofun, .inl rfl⟩⟩
    cases ok <;> rw [hp] <;> rfl
  | cleanUp hp => exact ⟨[], by rw [hp]; rfl, .inl ⟨nofun, .inl rfl⟩⟩
  | finish hp => exact ⟨[], by rw [hp]; rfl, .inl ⟨nofun, .inl rfl⟩⟩

/-- While the entry of its id is there, a task deals with messages in their order, and with
responses by routing them to the entry. -/
theorem incoming_step (h : s.step e = some s') (hget : (s.task c).daemonId.bind s.get = some o) :
    ∃ done, (s.task c).incoming ++ e.arrival c = done ++ (s'.task c).incoming ∧
      (e ≠ .route c ∧ (∀ m ∈ done, m.answers = none) ∨
        ∃ m o', e = .route c ∧ (s.task c).phase = .routing m o' ∧ done = [m]) := by
  obtain ⟨done, hin, hdone⟩ := taken_step (c := c) h
  refine ⟨done, hin, hdone.imp_left fun ⟨hne, hdone⟩ => ⟨hne, ?_⟩⟩
  rcases hdone with rfl | ⟨m, rfl, hp, hphase, rfl⟩
  · exact nofun
  · intro m' hm'
    rw [List.mem_singleton.1 hm']
    by_contra hm
    obtain ⟨r, hr⟩ := Option.ne_none_iff_exists'.1 hm
    -- a response is looked up for, and the entry is there
    have hrouted := lookUp_phase (s := s) (c := c) hr
    rw [← handleDaemonMessage_of_answers hr, ← handle_eq hp h, hget] at hrouted
    exact hphase m o hrouted

/-! ### What a call receives -/

/-- A request that is registered stays so. -/
theorem asked_step (hs : Linked s) (h : s.step e = some s') {ask : Ask}
    (hk : (s.call k).Asked ask r o) : (s'.call k).Asked ask r o := by
  have hrequest : (s.call k).method.isRequest = true := by rw [hk.method]; rfl
  have hcall := call_step hs h k
  generalize s'.call k = call' at hcall
  cases hcall with
  | kept hkept =>
    exact ⟨hkept.method.trans hk.method, hkept.requestId.trans hk.requestId,
      hkept.registeredOn.trans hk.on⟩
  | received _ _ _ _ hc => exact hc ▸ ⟨hk.method, hk.requestId, hk.on⟩
  | found hp _ _ => cases ((hs.calls k).idle hp).2.symm.trans hk.on
  | notFound hp _ => cases ((hs.calls k).idle hp).2.symm.trans hk.on
  | registered hp _ => cases ((hs.calls k).found _ hp).symm.trans hk.on
  | posted hp _ _ => cases ((hs.calls k).found _ hp).symm.trans hk.on
  | waits _ _ hkept =>
    exact ⟨hkept.method.trans hk.method, hkept.requestId.trans hk.requestId,
      hkept.registeredOn.trans hk.on⟩
  | returned _ _ hm hkept =>
    rcases hm with rfl | ⟨-, hm⟩
    · exact ⟨hkept.method.trans hk.method, hkept.requestId.trans hk.requestId,
        hkept.registeredOn.trans hk.on⟩
    · cases hm.symm.trans hrequest

/-- A call that has returned does not go on. -/
theorem over_step (hs : Linked s) (h : s.step e = some s') (hon : (s.call k).registeredOn ≠ none)
    (hp : (s.call k).phase.conn = none) :
    (s'.call k).registeredOn ≠ none ∧ (s'.call k).phase.conn = none := by
  have hcall := call_step hs h k
  generalize s'.call k = call' at hcall
  cases hcall with
  | kept hk => exact ⟨hk.registeredOn ▸ hon, hk.phase ▸ hp⟩
  | received _ _ _ hconn _ => exact absurd hp hconn
  | found hidle _ _ => exact absurd ((hs.calls k).idle hidle).2 hon
  | notFound hidle _ => exact absurd ((hs.calls k).idle hidle).2 hon
  | registered hf _ => exact absurd ((hs.calls k).found _ hf) hon
  | posted hf _ _ => exact absurd ((hs.calls k).found _ hf) hon
  | waits ho _ _ =>
    rw [ho] at hp
    cases hp
  | returned hc _ _ _ => cases hc.symm.trans hp

/-- A call that is in progress after a run was so before. -/
theorem inProgress_of_run (hs : Linked s) (hrun : run step s es = some s')
    (hon : (s.call k).registeredOn ≠ none) (hp : (s'.call k).phase.conn ≠ none) :
    (s.call k).phase.conn ≠ none := by
  intro hnone
  refine hp (run_invariant (I := fun s => Linked s ∧ (s.call k).registeredOn ≠ none ∧
    (s.call k).phase.conn = none) ?_ hrun ⟨hs, hon, hnone⟩).2.2
  exact fun s e s' ⟨hs, hon, hp⟩ h => ⟨hs.step h, over_step hs h hon hp⟩

/-- What a step does to the receiver of a call in progress: it takes the response that is routed to
the connection of the call. -/
theorem rx_step (hname : Function.Injective name) (hs : Linked s) (hsep : Separate name s)
    (h : s.step e = some s') {ask : Ask} (hk : (s.call k).Asked ask r o)
    (hp : (s.call k).phase.conn ≠ none) (hp' : (s'.call k).phase.conn ≠ none)
    (hget : s.get (s.conn o).id = some o) {done : List Message}
    (hdone : e ≠ .route (s.conn o).requestTx ∧ (∀ m ∈ done, m.answers = none) ∨
      ∃ m o', e = .route (s.conn o).requestTx ∧
        (s.task (s.conn o).requestTx).phase = .routing m o' ∧ done = [m]) :
    (s'.call k).rx = (s.call k).rx.after r done := by
  have hrequest : (s.call k).method.isRequest = true := by rw [hk.method]; rfl
  have hlt := hs.made k o hk.on
  have hid := (hsep.made o hlt).1
  have hcall := call_step hs h k
  rcases hdone with ⟨hne, hnone⟩ | ⟨m, o', rfl, hphase, rfl⟩
  · rw [Oneshot.after_of_forall fun m hm h => nomatch (hnone m hm).symm.trans h]
    generalize s'.call k = call' at hcall hp'
    cases hcall with
    | kept hkept => exact hkept.rx_eq hp
    | @received c₁ m o₁ r₁ _ hc hm hlookup hconn hc' =>
      -- the task routes to a connection of its own id, and the call's is of another
      obtain rfl := Option.some_inj.1 (((hs.pending o₁ r₁ k).1 hlookup).1.symm.trans hk.on)
      obtain rfl := hname ((hsep.routing c₁ m o₁ hc).2.2.1.symm.trans hid)
      exact absurd rfl hne
    | found hidle _ _ => exact absurd (by rw [hidle]; rfl) hp
    | notFound hidle _ => exact absurd (by rw [hidle]; rfl) hp
    | registered hf _ => cases ((hs.calls k).found _ hf).symm.trans hk.on
    | posted _ hm _ => cases hm.symm.trans hrequest
    | waits _ _ hkept => exact hkept.rx_eq (Option.some_ne_none _)
    | returned _ _ _ hkept => exact absurd (by rw [hkept.phase]; rfl) hp'
  · obtain rfl := (hsep.routing _ m o' hphase).2.2.2 o (hid ▸ hget)
    by_cases hm : m.answers = some r ∧ (s.call k).rx = .empty
    · obtain ⟨hm, hrx⟩ := hm
      have hw : (s.call k).Waits o := by
        refine ⟨hk.on, ?_, hrequest, hrx⟩
        obtain ⟨o₁, ho₁⟩ := Option.ne_none_iff_exists'.1 hp
        rw [ho₁, (hs.calls k).one o₁ o ho₁ hk.on]
      rw [route_eq hphase h, routed_receives hs hm hk.requestId hw, hrx, Oneshot.after_singleton hm]
    · have hafter : (s.call k).rx.after r [m] = (s.call k).rx := by
        by_cases hrx : (s.call k).rx = .empty
        · refine Oneshot.after_of_forall fun m' hm' => ?_
          rw [List.mem_singleton.1 hm']
          exact fun hr => hm ⟨hr, hrx⟩
        · exact Oneshot.after_of_ne hrx
      rw [hafter]
      generalize s'.call k = call' at hcall hp'
      cases hcall with
      | kept hkept => exact hkept.rx_eq hp
      | @received _ m' o₁ r₁ _ hc hm' hlookup _ _ =>
        cases hphase.symm.trans hc
        obtain ⟨-, hr, hrx, -⟩ := (hs.pending o r₁ k).1 hlookup
        rw [hk.requestId] at hr
        exact absurd ⟨hr ▸ hm', hrx⟩ hm
      | returned _ _ _ hkept => exact absurd (by rw [hkept.phase]; rfl) hp'

/-- What a caller in progress has received after a run, as long as the entry stays in place. -/
theorem received_of_run (hname : Function.Injective name) {ask : Ask} {id : String}
    (hs : Linked s) (hsep : Separate name s) (hrun : run step s es = some s')
    (hn : Along step (Named name) s es) (hk : (s.call k).Asked ask r o)
    (hconn : (s.conn o).requestTx = c) (hid : (s.conn o).id = id)
    (hget : Always step (fun s => s.get id = some o) s es)
    (hp : (s'.call k).phase.conn ≠ none) :
    ∃ done, (s.task c).incoming ++ arrivals c es = done ++ (s'.task c).incoming ∧
      (s'.call k).rx = (s.call k).rx.after r done := by
  induction es generalizing s with
  | nil =>
    obtain rfl := Option.some_inj.1 hrun
    refine ⟨[], List.append_nil _, ?_⟩
    exact (Oneshot.after_of_forall (List.forall_mem_nil _)).symm
  | cons e es ih =>
    obtain ⟨s₁, h₁, h₂⟩ := run_cons_eq_some.1 hrun
    have hlt := hs.made k o hk.on
    have hsame := conn_same h₁ hlt
    have hk₁ := asked_step hs h₁ hk
    have hon : ∀ {s : Server}, (s.call k).Asked ask r o → (s.call k).registeredOn ≠ none :=
      fun hk => by rw [hk.on]; exact Option.some_ne_none o
    have hp₀ := inProgress_of_run hs hrun (hon hk) hp
    have hp₁ := inProgress_of_run (hs.step h₁) h₂ (hon hk₁) hp
    have hentry : (s.task c).daemonId.bind s.get = some o := by
      rw [← hconn, (hsep.made o hlt).2, ← (hsep.made o hlt).1, hid]
      exact hget.1
    obtain ⟨done₁, hin₁, hdone₁⟩ := incoming_step h₁ hentry
    obtain ⟨done₂, hin₂, hrx₂⟩ := ih (hs.step h₁) (hsep.step hname hs hn.1 h₁) h₂ (hn.2 s₁ h₁)
      hk₁ (hsame.requestTx.trans hconn) (hsame.id.trans hid) (hget.2 s₁ h₁)
    have hrx₁ := rx_step hname hs hsep h₁ hk hp₀ hp₁ (hid ▸ hget.1) (hconn ▸ hdone₁)
    refine ⟨done₁ ++ done₂, ?_, ?_⟩
    · calc (s.task c).incoming ++ arrivals c (e :: es)
          = ((s.task c).incoming ++ e.arrival c) ++ arrivals c es := by
            rw [List.append_assoc]; rfl
        _ = done₁ ++ done₂ ++ (s'.task c).incoming := by
            rw [hin₁, List.append_assoc, hin₂, List.append_assoc]
    · rw [hrx₂, hrx₁, Oneshot.after_append]

/-- What a caller that waits has received it keeps, and it returns what the call makes of it. -/
theorem once_step (hs : Linked s) (h : s.step e = some s') {ask : Ask} {m : Message}
    (hm : (s.call k).method = .request ask) (hon : (s.call k).registeredOn ≠ none)
    (hp : (∃ o since, (s.call k).phase = .waiting o since) ∧ (s.call k).rx = .value m ∨
      (s.call k).phase = .returned (ask.call.result m)) :
    (s'.call k).method = .request ask ∧ (s'.call k).registeredOn ≠ none ∧
      ((∃ o since, (s'.call k).phase = .waiting o since) ∧ (s'.call k).rx = .value m ∨
        (s'.call k).phase = .returned (ask.call.result m)) := by
  have hrequest : (s.call k).method.isRequest = true := by rw [hm]; rfl
  have hcall := call_step hs h k
  generalize s'.call k = call' at hcall
  cases hcall with
  | kept hk =>
    refine ⟨hk.method.trans hm, hk.registeredOn ▸ hon, ?_⟩
    rw [hk.phase]
    refine hp.imp_left fun ⟨⟨o, since, hwait⟩, hrx⟩ => ⟨⟨o, since, hwait⟩, ?_⟩
    exact (hk.rx_eq (by rw [hwait]; exact Option.some_ne_none o)).trans hrx
  | received _ _ hlookup hconn _ =>
    have hrx := ((hs.pending _ _ k).1 hlookup).2.2.1
    rcases hp with hp | hp
    · cases hrx.symm.trans hp.2
    · exact absurd (by rw [hp]; rfl) hconn
  | found hidle _ _ => exact absurd ((hs.calls k).idle hidle).2 hon
  | notFound hidle _ => exact absurd ((hs.calls k).idle hidle).2 hon
  | registered hf _ => exact absurd ((hs.calls k).found _ hf) hon
  | posted hf _ _ => exact absurd ((hs.calls k).found _ hf) hon
  | waits ho _ _ => rcases hp with ⟨⟨o, since, hp⟩, -⟩ | hp <;> cases ho.symm.trans hp
  | returned hc hends hmethod hk =>
    rcases hmethod with rfl | ⟨-, hm'⟩
    case inr => cases hm'.symm.trans hrequest
    refine ⟨hk.method.trans hm, hk.registeredOn ▸ hon, .inr (hk.phase.trans ?_)⟩
    rcases hp with hp | hp
    case inr =>
      rw [hp] at hc
      cases hc
    cases hends with
    | response hask hrx =>
      cases hask.symm.trans hm
      cases hrx.symm.trans hp.2
      rfl
    | closed _ hrx => cases hrx.symm.trans hp.2
    | timedOut _ _ hrx _ => cases hrx.symm.trans hp.2
    | unsent _ ho _ =>
      obtain ⟨⟨o, since, hwait⟩, -⟩ := hp
      cases ho.symm.trans hwait
    | other hother _ => cases hother.symm.trans hrequest

/-! ### What is sent -/

/-- A message that asks for a response is one of a registered request, on a connection of the task
that sends it. -/
def AskedFor (s : Server) : Prop :=
  ∀ c m r, m ∈ (s.task c).outgoing → m.asks = some r → ∃ k ask o,
    (s.call k).Asked ask r o ∧ (s.conn o).requestTx = c ∧ m = ask.call.message r

theorem askedFor_step (hs : Linked s) (hasked : AskedFor s) (h : s.step e = some s') :
    AskedFor s' := by
  -- what is registered stays so
  have hold : ∀ {c m r}, (∃ k ask o, (s.call k).Asked ask r o ∧ (s.conn o).requestTx = c ∧
      m = ask.call.message r) → ∃ k ask o, (s'.call k).Asked ask r o ∧
        (s'.conn o).requestTx = c ∧ m = ask.call.message r := by
    rintro c m r ⟨k, ask, o, hk, hc, rfl⟩
    exact ⟨k, ask, o, asked_step hs h hk, (conn_same h (hs.made k o hk.on)).requestTx.trans hc, rfl⟩
  intro c m r hmem hm
  by_cases ha : e.actor = some c
  · exact hold (hasked c m r ((task_step h ha).outgoing hmem (by rw [hm]; nofun)) hm)
  have hk := task_kept h ha
  unfold Task.outgoing at hmem
  rw [hk.kept.phase, List.mem_append, List.mem_append] at hmem
  have hin : ∀ {m}, m ∈ (s.task c).outbound ∨ m ∈ (s.task c).phase.inWriting ∨
      m ∈ (s.task c).requests → m ∈ (s.task c).outgoing := by
    intro m hm
    unfold Task.outgoing
    rw [List.mem_append, List.mem_append, or_assoc]
    exact hm
  rcases hmem with (hmem | hmem) | hmem
  · exact hold (hasked c m r (hin (.inl (hk.kept.outbound.mem hmem))) hm)
  · exact hold (hasked c m r (hin (.inr (.inl hmem))) hm)
  · rcases hk.requests with hreq | ⟨k, rfl⟩
    · exact hold (hasked c m r (hin (.inr (.inr (hreq ▸ hmem)))) hm)
    · cases proceed_sends h with
      | nothing ht =>
        rw [ht] at hmem
        exact hold (hasked c m r (hin (.inr (.inr hmem))) hm)
      | @one o m' ho hm' ht =>
        rw [ht, Function.update_apply] at hmem
        split_ifs at hmem with hc
        · rw [List.mem_append, List.mem_singleton] at hmem
          rcases hmem with hmem | rfl
          · exact hold (hasked c m r (hin (.inr (.inr (hc ▸ hmem)))) hm)
          · rcases hm' with hm' | ⟨ask, r', hopened, hask, hr', rfl⟩
            · cases hm'.symm.trans hm
            · obtain rfl := Option.some_inj.1 ((ask_asks ask r').symm.trans hm)
              refine hold ⟨k, ask, o, ⟨hask, hr', ?_⟩, hc.symm, rfl⟩
              refine ((hs.calls k).registered o ho).resolve_left fun hf => ?_
              cases hopened.symm.trans hf
        · exact hold (hasked c m r (hin (.inr (.inr hmem))) hm)

/-! ### What does not concern a daemon -/

theorem release_call_eq (hs : Linked s) {h : Owner} (hon : (s.call k).registeredOn ≠ some o) :
    (s.release h o).call k = s.call k := by
  by_cases ho : (s.arcs o).erase h = ∅
  · rw [release_of_eq ho]
    show (s.call k).senderDropped (s.conn o) k = _
    unfold Call.senderDropped
    split
    next r _ =>
      rw [if_neg]
      exact fun hlookup => hon ((hs.pending o r k).1 hlookup).1
    next => rfl
  · rw [release_of_ne ho]

theorem release_conn_ne {h : Owner} {o' : ConnRef} (hne : o' ≠ o) :
    (s.release h o).conn o' = s.conn o' := by
  by_cases ho : (s.arcs o).erase h = ∅
  · rw [release_of_eq ho]
    exact Function.update_of_ne hne ..
  · rw [release_of_ne ho]

theorem onConnection_call_eq (hs : Linked s) (hon : (s.call k).registeredOn ≠ some o)
    (m : Message) : (s.onConnection m o).call k = s.call k := by
  unfold Server.onConnection
  split
  · rfl
  next sessionId data =>
    unfold Server.sendSessionOutput
    split
    next k' hk' =>
      have hk' : (s.conn o).sessions.lookup sessionId = some k' := hk'
      refine Function.update_of_ne ?_ ..
      rintro rfl
      exact hon (hs.sessions o sessionId k hk').1
    next => rfl
  · rfl
  · rfl
  · split
    next r _ =>
      unfold Server.completeRequest DaemonConnection.completeRequest
      split
      next k' conn heq =>
        have hk' : (s.conn o).pendingRequests.lookup r = some k' := congrArg Prod.fst heq
        refine Function.update_of_ne ?_ ..
        rintro rfl
        exact hon ((hs.pending o r k).1 hk').1
      next => rfl
    next => rfl

theorem onConnection_conn_ne {o' : ConnRef} (hne : o' ≠ o) (m : Message) :
    (s.onConnection m o).conn o' = s.conn o' := by
  unfold Server.onConnection Server.sendSessionOutput Server.completeRequest
  split
  · exact Function.update_of_ne hne ..
  · split <;> rfl
  · exact Function.update_of_ne hne ..
  · exact Function.update_of_ne hne ..
  · split
    · split
      · exact Function.update_of_ne hne ..
      · rfl
    · rfl

theorem remove_apart (hs : Linked s) {id : String} :
    (∀ k, (∀ o, (s.call k).registeredOn = some o → (s.conn o).id ≠ id) →
      (s.remove id).call k = s.call k) ∧
      ∀ o, (s.conn o).id ≠ id → (s.remove id).conn o = s.conn o := by
  unfold Server.remove
  split
  next o₁ ho₁ =>
    have hid := (hs.entries id o₁ ho₁).1
    constructor
    · exact fun k hk => release_call_eq (hs.eraseEntry id) fun hon => hk o₁ hon hid
    · intro o ho
      have hne : o ≠ o₁ := fun heq => ho (heq ▸ hid)
      exact release_conn_ne (s := { s with registry := s.registry.erase id }) hne
  next => exact ⟨fun _ _ => rfl, fun _ _ => rfl⟩

theorem register_apart (hs : Linked s) {id : String} (hne : id ≠ "") (md : DaemonMetadata) :
    (∀ k, (∀ o, (s.call k).registeredOn = some o → (s.conn o).id ≠ id) →
      (s.register id md c).call k = s.call k) ∧
      ∀ o, o < s.made → (s.conn o).id ≠ id → (s.register id md c).conn o = s.conn o := by
  have hinsert : ∀ o, o < s.made → (s.insertNew id md c).conn o = s.conn o :=
    fun o ho => Function.update_of_ne ho.ne ..
  unfold Server.register
  split
  next o₁ ho₁ =>
    have hid := (hs.entries id o₁ ho₁).1
    constructor
    · exact fun k hk => release_call_eq (hs.insertNew hne) fun hon => hk o₁ hon hid
    · intro o ho hid'
      have hne : o ≠ o₁ := fun heq => hid' (heq ▸ hid)
      exact (release_conn_ne hne).trans (hinsert o ho)
  next => exact ⟨fun _ _ => rfl, fun o ho _ => hinsert o ho⟩

/-- Nothing but tasks differs. -/
structure SameButTasks (s s' : Server) : Prop where
  conn : s'.conn = s.conn
  call : s'.call = s.call
  registry : s'.registry = s.registry

/-- What a step of a task does besides: nothing, it deals with a message, or it removes the entry of
its id. -/
inductive Touches (s : Server) (c : TaskId) (e : Event) (s' : Server) : Prop
  | nothing (h : SameButTasks s s')
  | register {id md} (hp : (s.task c).phase = .handling (.register id md)) (hne : id ≠ "")
      (h : SameButTasks (s.register id md c) s')
  | route {m o} (he : e = .route c) (hp : (s.task c).phase = .routing m o)
      (h : s' = s.routed c m o)
  | remove {id} (hid : (s.task c).daemonId = some id) (h : SameButTasks (s.remove id) s')

theorem lookUp_sameButTasks (m : Message) : SameButTasks s (s.lookUp c m) :=
  ⟨lookUp_conn, lookUp_call m, lookUp_registry⟩

theorem touches_of_step (h : s.step e = some s') (ha : e.actor = some c) : Touches s c e s' := by
  have hset : ∀ {t}, s' = s.setTask c t → Touches s c e s' := by
    rintro t rfl
    exact .nothing ⟨rfl, rfl, rfl⟩
  cases e <;> cases ha
  case accept =>
    change (if _ then _ else _) = some s' at h
    split_ifs at h
    exact hset (Option.some_inj.1 h).symm
  case next =>
    obtain ⟨t, ht⟩ := next_eq h
    exact hset ht
  case handle =>
    unfold Server.step at h
    dsimp only at h
    split at h
    next m hp =>
      obtain rfl := Option.some_inj.1 h
      by_cases hm : ∃ id md, m = .register id md ∧ id ≠ ""
      · obtain ⟨id, md, rfl, hne⟩ := hm
        refine .register hp hne ?_
        rw [handleDaemonMessage_register hne]
        exact ⟨rfl, rfl, rfl⟩
      · refine .nothing ?_
        unfold Server.handleDaemonMessage
        split
        next id md =>
          rw [if_pos (by_contra fun hne => hm ⟨id, md, rfl, hne⟩)]
          exact ⟨rfl, rfl, rfl⟩
        all_goals first
          | exact lookUp_sameButTasks _
          | exact ⟨rfl, rfl, rfl⟩
    next => cases h
  case route =>
    unfold Server.step at h
    dsimp only at h
    split at h
    next m o hp => exact .route rfl hp (Option.some_inj.1 h).symm
    next => cases h
  case recv =>
    obtain ⟨t, ht⟩ := recv_eq h
    exact hset ht
  case orElse =>
    obtain ⟨t, ht⟩ := orElse_eq h
    exact hset ht
  case write =>
    obtain ⟨t, ht⟩ := write_eq h
    exact hset ht
  case cleanUp =>
    change (if _ then _ else _) = some s' at h
    split_ifs at h
    obtain rfl := Option.some_inj.1 h
    unfold Server.cleanUp
    split
    next id hid => exact .remove hid ⟨rfl, rfl, rfl⟩
    next => exact .nothing ⟨rfl, rfl, rfl⟩
  case finish =>
    change (if _ then _ else _) = some s' at h
    split_ifs at h
    exact hset (Option.some_inj.1 h).symm

/-- What a task does concerns the calls and connections of its own id only. -/
theorem apart_step (hs : Linked s) (hsep : Separate name s) (h : s.step e = some s')
    (ha : e.actor = some c) :
    (∀ k, (∀ o, (s.call k).registeredOn = some o → (s.conn o).id ≠ name c) →
      s'.call k = s.call k) ∧
      ∀ o, o < s.made → (s.conn o).id ≠ name c → s'.conn o = s.conn o := by
  cases touches_of_step h ha with
  | nothing hsame =>
    rw [hsame.call, hsame.conn]
    exact ⟨fun _ _ => rfl, fun _ _ _ => rfl⟩
  | @register id md hp hne hsame =>
    obtain rfl := (hsep.handling c id md hp).resolve_right hne
    rw [hsame.call, hsame.conn]
    exact register_apart hs hne md
  | @route m o he hp hs' =>
    obtain ⟨-, -, hid, -⟩ := hsep.routing c m o hp
    subst hs'
    constructor
    · intro k hk
      have hon : (s.call k).registeredOn ≠ some o := fun hon => hk o hon hid
      have hcall := onConnection_call_eq hs hon m
      refine (release_call_eq (hs.onConnection m) ?_).trans hcall
      rwa [hcall]
    · intro o' _ hid'
      have hne : o' ≠ o := fun heq => hid' (heq ▸ hid)
      exact (release_conn_ne (s := s.onConnection m o) hne).trans (onConnection_conn_ne hne m)
  | @remove id hid hsame =>
    obtain rfl := hsep.daemonId c id hid
    rw [hsame.call, hsame.conn]
    exact ⟨(remove_apart hs).1, fun o _ => (remove_apart hs).2 o⟩

/-- What arrives on a connection that never registered concerns nobody. -/
theorem unregistered_step (hsep : Separate name s) (h : s.step e = some s')
    (ha : e.actor = some c) (hid : (s.task c).daemonId = none)
    (hp : ∀ id md, (s.task c).phase = .handling (.register id md) → id = "") :
    SameButTasks s s' := by
  cases touches_of_step h ha with
  | nothing hsame => exact hsame
  | register hp' hne _ => exact absurd (hp _ _ hp') hne
  | route _ hp' _ => cases hid.symm.trans (hsep.routing c _ _ hp').1
  | remove hid' _ => cases hid.symm.trans hid'

/-- A response that nobody waits for changes nothing, while the entry is in place. -/
theorem unmatched_step (hs : Linked s) {m : Message} {id : String}
    (hp : (s.task c).phase = .routing m o) (hm : m.answers = some r)
    (hnone : r ∉ (s.conn o).pendingRequests) (hget : s.get id = some o)
    (h : s.step (.route c) = some s') : SameButTasks s s' := by
  obtain rfl := route_eq hp h
  have hlookup : (s.conn o).pendingRequests.lookup r = none := Finmap.lookup_eq_none.2 hnone
  have hconn : s.onConnection m o = s := by
    rw [onConnection_of_answers hm, completeRequest, DaemonConnection.completeRequest, hlookup]
  have hheld : (s.arcs o).erase (.task c) ≠ ∅ := by
    have hreg : Owner.registry ∈ (s.arcs o).erase (.task c) :=
      Finset.mem_erase.2 ⟨fun h => (by cases h), (hs.entries id o hget).2.2⟩
    exact fun h => absurd (h ▸ hreg) (Finset.notMem_empty _)
  unfold Server.routed
  rw [hconn, release_of_ne hheld]
  exact ⟨rfl, rfl, rfl⟩

/-- What a task does changes a call in progress only by a response to it. -/
theorem concerns_step (hs : Linked s) (hsep : Separate name s) (h : s.step e = some s')
    (ha : e.actor = some c) (k : CallId) :
    (s'.call k).phase = (s.call k).phase ∧
        ((s.call k).phase.conn ≠ none → (s'.call k).rx = (s.call k).rx) ∨
      ∃ m o r, e = .route c ∧ (s.task c).phase = .routing m o ∧ (s.conn o).id = name c ∧
        m.answers = some r ∧ (s.call k).requestId = some r ∧ (s.call k).Waits o ∧
        s'.call k = { s.call k with rx := .value m } := by
  have hcall := call_step hs h k
  generalize s'.call k = call' at hcall
  cases hcall with
  | kept hk => exact .inl ⟨hk.phase, hk.rx_eq⟩
  | @received c₁ m o r _ hc hm hlookup hconn hcall =>
    cases ha
    obtain ⟨hon, hr, hrx, hrequest⟩ := (hs.pending o r k).1 hlookup
    obtain ⟨o₁, ho₁⟩ := Option.ne_none_iff_exists'.1 hconn
    obtain rfl := (hs.calls k).one o₁ o ho₁ hon
    exact .inr ⟨m, o₁, r, rfl, hc, (hsep.routing c m o₁ hc).2.2.1, hm, hr,
      ⟨hon, ho₁, hrequest, hrx⟩, hcall⟩
  | found => cases ha
  | notFound => cases ha
  | registered => cases ha
  | posted => cases ha
  | waits => cases ha
  | returned _ hends _ _ =>
    cases hends with
    | other _ he => rcases he with rfl | rfl <;> cases ha
    | _ => cases ha

/-! ### The whole -/

/-- How responses are matched in a run from `s` to `s'`. -/
structure Matched (name : TaskId → String) (s : Server) (es : List Event) (s' : Server) :
    Prop where
  /-- As long as the entry stays in place, a caller that is still in progress has received the
  first response to its request among the messages dealt with, which are the first to arrive. -/
  first : ∀ k r o id c, (s.call k).requestId = some r → (s.call k).Waits o →
    (s.conn o).id = id → (s.conn o).requestTx = c →
    Always step (fun s => s.get id = some o) s es → (s'.call k).phase.conn ≠ none →
    ∃ done, (s.task c).incoming ++ arrivals c es = done ++ (s'.task c).incoming ∧
      (s'.call k).rx = Oneshot.empty.after r done
  /-- It receives no other response after that, and returns what the call makes of this one. -/
  once : ∀ k ask o since m, (s.call k).method = .request ask →
    (s.call k).phase = .waiting o since → (s.call k).rx = .value m →
    (∃ o since, (s'.call k).phase = .waiting o since) ∧ (s'.call k).rx = .value m ∨
      (s'.call k).phase = .returned (ask.call.result m)
  /-- A request is registered before any message for it is on its way to the daemon, and stays so:
  no response to it comes before that. -/
  registered : ∀ c m r, m ∈ (s.task c).outgoing → m.asks = some r → ∃ k ask o,
    m = ask.call.message r ∧ (s'.call k).Asked ask r o ∧ (s'.conn o).requestTx = c
  /-- Its own daemon's responses to its own request apart, nothing on any connection changes the
  outcome of a call. -/
  concerns : ∀ c e s₁ k, e.actor = some c → s.step e = some s₁ →
    (s₁.call k).phase = (s.call k).phase ∧
        ((s.call k).phase.conn ≠ none → (s₁.call k).rx = (s.call k).rx) ∨
      ∃ m o r, e = .route c ∧ (s.task c).phase = .routing m o ∧ (s.conn o).id = name c ∧
        m.answers = some r ∧ (s.call k).requestId = some r ∧ (s.call k).Waits o ∧
        s₁.call k = { s.call k with rx := .value m }
  /-- What one daemon sends changes neither the calls nor the connections of another. -/
  apart : ∀ c e s₁, e.actor = some c → s.step e = some s₁ →
    (∀ k, (∀ o, (s.call k).registeredOn = some o → (s.conn o).id ≠ name c) →
      s₁.call k = s.call k) ∧
      ∀ o, o < s.made → (s.conn o).id ≠ name c → s₁.conn o = s.conn o
  /-- A response with an unknown or finished request id changes nothing. -/
  unmatched : ∀ c m o r id s₁, (s.task c).phase = .routing m o → m.answers = some r →
    r ∉ (s.conn o).pendingRequests → s.get id = some o → s.step (.route c) = some s₁ →
    SameButTasks s s₁
  /-- What arrives on a connection that never registered changes nothing. -/
  unregistered : ∀ c e s₁, e.actor = some c → s.step e = some s₁ → (s.task c).daemonId = none →
    (∀ id md, (s.task c).phase = .handling (.register id md) → id = "") → SameButTasks s s₁

/-- **In every run in which connections register under different ids, responses are matched
exactly.** -/
theorem responses_matched (hname : Function.Injective name) {es₀ : List Event}
    (hrun₀ : run step initial es₀ = some s) (hrun : run step s es = some s')
    (hn : Along step (Named name) initial (es₀ ++ es)) : Matched name s es s' := by
  obtain ⟨hn₀, hn⟩ := hn.append hrun₀
  obtain ⟨hs, hsep, hasked⟩ : Linked s ∧ Separate name s ∧ AskedFor s := by
    refine run_invariant_along (I := fun s => Linked s ∧ Separate name s ∧ AskedFor s)
      ?_ hrun₀ hn₀ ⟨Linked.initial, Separate.initial, nofun⟩
    exact fun s e s' ⟨hs, hsep, hasked⟩ hn h =>
      ⟨hs.step h, hsep.step hname hs hn h, askedFor_step hs hasked h⟩
  refine ⟨?_, ?_, ?_, ?_, ?_, ?_, ?_⟩
  · intro k r o id c hr hw hid hc hget hp
    obtain ⟨ask, hask⟩ : ∃ ask, (s.call k).method = .request ask := by
      have hrequest := hw.request
      cases hm : (s.call k).method with
      | request ask => exact ⟨ask, rfl⟩
      | _ =>
        rw [hm] at hrequest
        cases hrequest
    obtain ⟨done, hin, hrx⟩ :=
      received_of_run hname hs hsep hrun hn ⟨hask, hr, hw.on⟩ hc hid hget hp
    exact ⟨done, hin, hw.rx ▸ hrx⟩
  · intro k ask o since m hm hwait hrx
    have hon : (s.call k).registeredOn ≠ none := by
      have hreg := ((hs.calls k).registered o (by rw [hwait]; rfl)).resolve_left fun hf =>
        nomatch hwait.symm.trans hf
      rw [hreg]
      exact Option.some_ne_none o
    have hinv := run_invariant (I := fun s => Linked s ∧ (s.call k).method = .request ask ∧
      (s.call k).registeredOn ≠ none ∧
        ((∃ o since, (s.call k).phase = .waiting o since) ∧ (s.call k).rx = .value m ∨
          (s.call k).phase = .returned (ask.call.result m)))
      (fun s e s' ⟨hs, hm, hon, hp⟩ h => ⟨hs.step h, once_step hs h hm hon hp⟩) hrun
      ⟨hs, hm, hon, .inl ⟨⟨o, since, hwait⟩, hrx⟩⟩
    exact hinv.2.2.2
  · intro c m r hmem hm
    obtain ⟨k, ask, o, hk, hc, rfl⟩ := hasked c m r hmem hm
    have hinv := run_invariant (I := fun s => Linked s ∧ (s.call k).Asked ask r o ∧
      (s.conn o).requestTx = c) ?_ hrun ⟨hs, hk, hc⟩
    · exact ⟨k, ask, o, rfl, hinv.2⟩
    · exact fun s e s' ⟨hs, hk, hc⟩ h => ⟨hs.step h, asked_step hs h hk,
        (conn_same h (hs.made k o hk.on)).requestTx.trans hc⟩
  · exact fun c e s₁ k ha h => concerns_step hs hsep h ha k
  · exact fun c e s₁ ha h => apart_step hs hsep h ha
  · exact fun c m o r id s₁ hp hm hr hget h => unmatched_step hs hp hm hr hget h
  · exact fun c e s₁ ha h hid hp => unregistered_step hsep h ha hid hp

/-- Names for connections. -/
def sampleName (c : TaskId) : String := String.ofList (List.replicate (c + 1) 'd')

theorem sampleName_injective : Function.Injective sampleName := by
  intro c c' h
  have hlist := congrArg (fun l => l.toList.length) h
  simpa [sampleName] using hlist

/-- The response comes twice. -/
def sampleTwice : List Event :=
  [.arrive 0 (.text (some (.commandOutput "r" "" "" 0 5))), .next 0, .handle 0, .route 0,
    .arrive 0 (.text (some (.commandOutput "r" "again" "" 0 5))), .next 0, .handle 0, .route 0]

theorem sampleTwice_isSome : (run step initial (sampleExec 300)).isSome = true ∧
    (run step ((run step initial (sampleExec 300)).getD initial) sampleTwice).isSome = true := by
  decide +kernel

/-- The theorem at a run in which a response comes twice. -/
theorem responses_matched_sample : Matched sampleName
    ((run step initial (sampleExec 300)).getD initial) sampleTwice
    ((run step ((run step initial (sampleExec 300)).getD initial) sampleTwice).getD
      ((run step initial (sampleExec 300)).getD initial)) := by
  refine responses_matched sampleName_injective (run_eq_getD sampleTwice_isSome.1)
    (run_eq_getD sampleTwice_isSome.2) (.of_forall ?_)
  rintro e he - c id md rfl
  obtain ⟨rfl, rfl, -⟩ : c = 0 ∧ id = "d" ∧ md = ⟨"h", "linux", "x86_64", "0.1.0", ∅⟩ := by
    simpa [sampleExec, sampleTwice] using he
  exact .inl rfl

end Server

end SandD
