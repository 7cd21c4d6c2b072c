import SandD.Server.Server

/-!
# Senders and receivers

What holds between the calls and the maps of pending requests in every state of the server.

* `Call.Ok` is about one call, `Server.Linked` about all of them: a map of pending requests has a
  sender exactly for the requests that are registered on it and have neither received a response
  nor lost their sender, whether or not the call still waits.
* A call owns the connection it works on until it returns, so that its sender is never dropped
  while it waits.
* `Linked.step` is the step lemma, `linked_of_reach` the run lemma.
-/

namespace SandD

/-! ### Calls by themselves -/

/-- What holds of a call at any time. -/
structure Call.Ok (call : Call) : Prop where
  idle : call.phase = .idle → call.requestId = none ∧ call.registeredOn = none
  found : ∀ o, call.phase = .found o → call.registeredOn = none
  drawn : (call.phase.conn ≠ none ∨ call.registeredOn ≠ none) → call.requestId ≠ none
  unregistered : call.registeredOn = none → call.rx = .empty
  registered : ∀ o, call.phase.conn = some o →
    call.phase = .found o ∨ call.registeredOn = some o
  one : ∀ o o', call.phase.conn = some o → call.registeredOn = some o' → o = o'
  alive : call.phase.conn ≠ none → call.rx ≠ .closed

namespace Call.Ok

variable {call : Call}

/-- A call that returns. -/
theorem returned (h : call.Ok) (outcome : Outcome) :
    { call with phase := .returned outcome }.Ok where
  idle h := nomatch h
  found _ h := nomatch h
  drawn := fun
    | .inl h => absurd rfl h
    | .inr hr => h.drawn (.inr hr)
  unregistered := h.unregistered
  registered _ h := nomatch h
  one _ _ h := nomatch h
  alive h := absurd rfl h

/-- A call that goes on with its connection. -/
theorem goOn (h : call.Ok) {phase : CallPhase} {o : ConnRef} (ho : call.phase = .opened o)
    (hp : phase.conn = some o) (hf : ∀ o', phase ≠ .found o') :
    { call with phase := phase }.Ok where
  idle hi := by
    change phase = .idle at hi
    rw [hi] at hp
    cases hp
  found o' h := absurd h (hf o')
  drawn _ := h.drawn (.inl (by rw [ho]; exact Option.some_ne_none o))
  unregistered := h.unregistered
  registered o' ho' := by
    obtain rfl : o = o' := Option.some_inj.1 (hp.symm.trans ho')
    exact .inr ((h.registered o (by rw [ho]; rfl)).resolve_left (by rw [ho]; exact nofun))
  one o' o'' ho' := by
    obtain rfl : o = o' := Option.some_inj.1 (hp.symm.trans ho')
    exact h.one o o'' (by rw [ho]; rfl)
  alive _ := h.alive (by rw [ho]; exact Option.some_ne_none o)

/-- A call that registers. -/
theorem register (h : call.Ok) {o : ConnRef} (ho : call.phase = .found o) :
    (call.register o).Ok where
  idle h := nomatch h
  found _ h := nomatch h
  drawn _ := h.drawn (.inl (by rw [ho]; exact Option.some_ne_none o))
  unregistered h := nomatch h
  registered _ ho' := .inr ho'
  one _ _ h h' := Option.some_inj.1 (h.symm.trans h')
  alive _ := h.alive (by rw [ho]; exact Option.some_ne_none o)

/-- A call whose session puts something out. -/
theorem output (h : call.Ok) (output : List (List UInt8)) : { call with output := output }.Ok :=
  ⟨h.idle, h.found, h.drawn, h.unregistered, h.registered, h.one, h.alive⟩

/-- A call that has registered a request receives. -/
theorem receive (h : call.Ok) (hr : call.registeredOn ≠ none) (m : Message) :
    (call.receive m).Ok := by
  unfold Call.receive
  split
  next hp =>
    refine ⟨h.idle, h.found, h.drawn, fun hn => absurd hn hr, h.registered, h.one, fun hc => ?_⟩
    simp only [hp, CallPhase.conn, ne_eq, not_true_eq_false] at hc
  next =>
    exact ⟨h.idle, h.found, h.drawn, fun hn => absurd hn hr, h.registered, h.one,
      fun _ hc => nomatch hc⟩

end Call.Ok

namespace Call

variable {call : Call} {m : Message}

@[simp] theorem receive_phase : (call.receive m).phase = call.phase := by
  unfold receive
  split <;> rfl

@[simp] theorem receive_requestId : (call.receive m).requestId = call.requestId := by
  unfold receive
  split <;> rfl

@[simp] theorem receive_registeredOn : (call.receive m).registeredOn = call.registeredOn := by
  unfold receive
  split <;> rfl

@[simp] theorem receive_method : (call.receive m).method = call.method := by
  unfold receive
  split <;> rfl

theorem receive_rx_ne : (call.receive m).rx ≠ .empty := by
  unfold receive
  split <;> exact fun h => nomatch h

theorem receive_of_conn (h : call.phase.conn ≠ none) :
    call.receive m = { call with rx := .value m } := by
  unfold receive
  split
  next hp => simp only [hp, CallPhase.conn, ne_eq, not_true_eq_false] at h
  next => rfl

theorem receive_of_returned (h : call.phase.conn = none) (hi : call.phase ≠ .idle) :
    call.receive m = { call with rx := .closed } := by
  unfold receive
  split
  next => rfl
  next hp =>
    cases hc : call.phase with
    | idle => exact absurd hc hi
    | returned outcome => exact absurd hc (hp outcome)
    | found o => simp only [hc, CallPhase.conn, reduceCtorEq] at h
    | opened o => simp only [hc, CallPhase.conn, reduceCtorEq] at h
    | waiting o t => simp only [hc, CallPhase.conn, reduceCtorEq] at h

variable {conn : DaemonConnection} {k : CallId}

@[simp] theorem senderDropped_phase : (call.senderDropped conn k).phase = call.phase := by
  unfold senderDropped
  split
  · split_ifs <;> rfl
  · rfl

@[simp] theorem senderDropped_requestId :
    (call.senderDropped conn k).requestId = call.requestId := by
  unfold senderDropped
  split
  · split_ifs <;> rfl
  · rfl

@[simp] theorem senderDropped_registeredOn :
    (call.senderDropped conn k).registeredOn = call.registeredOn := by
  unfold senderDropped
  split
  · split_ifs <;> rfl
  · rfl

@[simp] theorem senderDropped_method : (call.senderDropped conn k).method = call.method := by
  unfold senderDropped
  split
  · split_ifs <;> rfl
  · rfl

/-- Dropping the senders of a connection reaches only those that have one in its map. -/
theorem senderDropped_cases (call : Call) (conn : DaemonConnection) (k : CallId) :
    call.senderDropped conn k = call ∨
      (∃ r, call.requestId = some r ∧ conn.pendingRequests.lookup r = some k) ∧
        call.senderDropped conn k = { call with rx := .closed } := by
  unfold senderDropped
  split
  next r hr =>
    split_ifs with h
    · exact .inr ⟨⟨r, hr, h⟩, rfl⟩
    · exact .inl rfl
  next => exact .inl rfl

theorem senderDropped_of_lookup {r : String} (hr : call.requestId = some r)
    (h : conn.pendingRequests.lookup r = some k) :
    call.senderDropped conn k = { call with rx := .closed } := by
  simp only [senderDropped, hr, h, if_true]

end Call

namespace Server

variable {s s' : Server} {c : TaskId} {o o' : ConnRef} {k k' : CallId} {r : String}

/-! ### What the basic operations leave as it was -/

section

variable {t : Task} {phase : Phase} {conn : DaemonConnection} {call : Call} {h : Owner}

@[simp] theorem setTask_registry : (s.setTask c t).registry = s.registry := rfl
@[simp] theorem setTask_conn : (s.setTask c t).conn = s.conn := rfl
@[simp] theorem setTask_arcs : (s.setTask c t).arcs = s.arcs := rfl
@[simp] theorem setTask_made : (s.setTask c t).made = s.made := rfl
@[simp] theorem setTask_call : (s.setTask c t).call = s.call := rfl
@[simp] theorem setTask_drawn : (s.setTask c t).drawn = s.drawn := rfl
@[simp] theorem setTask_time : (s.setTask c t).time = s.time := rfl
@[simp] theorem setTask_task : (s.setTask c t).task = Function.update s.task c t := rfl

@[simp] theorem setConn_registry : (s.setConn o conn).registry = s.registry := rfl
@[simp] theorem setConn_conn : (s.setConn o conn).conn = Function.update s.conn o conn := rfl
@[simp] theorem setConn_arcs : (s.setConn o conn).arcs = s.arcs := rfl
@[simp] theorem setConn_made : (s.setConn o conn).made = s.made := rfl
@[simp] theorem setConn_call : (s.setConn o conn).call = s.call := rfl
@[simp] theorem setConn_drawn : (s.setConn o conn).drawn = s.drawn := rfl
@[simp] theorem setConn_time : (s.setConn o conn).time = s.time := rfl
@[simp] theorem setConn_task : (s.setConn o conn).task = s.task := rfl

@[simp] theorem setCall_registry : (s.setCall k call).registry = s.registry := rfl
@[simp] theorem setCall_conn : (s.setCall k call).conn = s.conn := rfl
@[simp] theorem setCall_arcs : (s.setCall k call).arcs = s.arcs := rfl
@[simp] theorem setCall_made : (s.setCall k call).made = s.made := rfl
@[simp] theorem setCall_call : (s.setCall k call).call = Function.update s.call k call := rfl
@[simp] theorem setCall_drawn : (s.setCall k call).drawn = s.drawn := rfl
@[simp] theorem setCall_time : (s.setCall k call).time = s.time := rfl
@[simp] theorem setCall_task : (s.setCall k call).task = s.task := rfl

@[simp] theorem hold_registry : (s.hold h o).registry = s.registry := rfl
@[simp] theorem hold_conn : (s.hold h o).conn = s.conn := rfl
@[simp] theorem hold_made : (s.hold h o).made = s.made := rfl
@[simp] theorem hold_call : (s.hold h o).call = s.call := rfl
@[simp] theorem hold_drawn : (s.hold h o).drawn = s.drawn := rfl
@[simp] theorem hold_time : (s.hold h o).time = s.time := rfl
@[simp] theorem hold_task : (s.hold h o).task = s.task := rfl
@[simp] theorem hold_arcs :
    (s.hold h o).arcs = Function.update s.arcs o (insert h (s.arcs o)) := rfl

@[simp] theorem release_registry : (s.release h o).registry = s.registry := by
  unfold release
  split_ifs <;> rfl

@[simp] theorem release_made : (s.release h o).made = s.made := by
  unfold release
  split_ifs <;> rfl

@[simp] theorem release_drawn : (s.release h o).drawn = s.drawn := by
  unfold release
  split_ifs <;> rfl

@[simp] theorem release_time : (s.release h o).time = s.time := by
  unfold release
  split_ifs <;> rfl

@[simp] theorem release_task : (s.release h o).task = s.task := by
  unfold release
  split_ifs <;> rfl

@[simp] theorem release_arcs :
    (s.release h o).arcs = Function.update s.arcs o ((s.arcs o).erase h) := by
  unfold release
  split_ifs with ho
  · rw [ho]
  · rfl

theorem release_of_ne (ho : (s.arcs o).erase h ≠ ∅) :
    s.release h o = { s with arcs := Function.update s.arcs o ((s.arcs o).erase h) } :=
  if_neg ho

theorem release_of_eq (ho : (s.arcs o).erase h = ∅) :
    s.release h o =
      { s with
        arcs := Function.update s.arcs o ∅
        conn := Function.update s.conn o (s.conn o).dropped
        call := fun k => (s.call k).senderDropped (s.conn o) k } :=
  if_pos ho

end

/-! ### The invariant -/

/-- What holds between calls, maps and owners in every state. -/
structure Linked (s : Server) : Prop where
  calls : ∀ k, (s.call k).Ok
  pending : ∀ o r k, (s.conn o).pendingRequests.lookup r = some k ↔
    (s.call k).registeredOn = some o ∧ (s.call k).requestId = some r ∧
      (s.call k).rx = .empty ∧ (s.call k).method.isRequest = true
  sessions : ∀ o r k, (s.conn o).sessions.lookup r = some k →
    (s.call k).registeredOn = some o ∧ (s.call k).requestId = some r
  ids : ∀ k k' r, (s.call k).requestId = some r → (s.call k').requestId = some r → k = k'
  drawn : ∀ k r, (s.call k).requestId = some r → r ∈ s.drawn
  holds : ∀ k o, (s.call k).phase.conn = some o → Owner.call k ∈ s.arcs o
  unmade : ∀ o, s.made ≤ o → s.arcs o = ∅
  made : ∀ k o, (s.call k).registeredOn = some o → o < s.made
  entries : ∀ id o, s.get id = some o →
    (s.conn o).id = id ∧ id ≠ "" ∧ Owner.registry ∈ s.arcs o

namespace Linked

theorem initial : Linked Server.initial where
  calls _ :=
    { idle := fun _ => ⟨rfl, rfl⟩
      found := fun _ h => nomatch h
      drawn := fun h => (h.elim (absurd rfl) (absurd rfl) : _)
      unregistered := fun _ => rfl
      registered := fun _ h => nomatch h
      one := fun _ _ h => nomatch h
      alive := fun h => absurd rfl h }
  pending _ r k := ⟨fun h => (Option.some_ne_none k (h.symm.trans (Finmap.lookup_empty r))).elim,
    fun h => nomatch h.1⟩
  sessions _ r k h := (Option.some_ne_none k (h.symm.trans (Finmap.lookup_empty r))).elim
  ids _ _ _ h := nomatch h
  drawn _ _ h := nomatch h
  holds _ _ h := nomatch h
  unmade _ _ := rfl
  made _ _ h := nomatch h
  entries id o h := (Option.some_ne_none o (h.symm.trans (Finmap.lookup_empty id))).elim

/-- An owned connection was made. -/
theorem lt_made (hs : Linked s) {h : Owner} (ho : h ∈ s.arcs o) : o < s.made := by
  by_contra hn
  rw [hs.unmade o (not_lt.1 hn)] at ho
  exact Finset.notMem_empty _ ho

/-- The invariant does not see tasks and time. -/
theorem congr (hs : Linked s) (hcall : s'.call = s.call) (hconn : s'.conn = s.conn)
    (harcs : s'.arcs = s.arcs) (hmade : s'.made = s.made) (hdrawn : s'.drawn = s.drawn)
    (hreg : s'.registry = s.registry) : Linked s' := by
  refine ⟨?_, ?_, ?_, ?_, ?_, ?_, ?_, ?_, ?_⟩ <;>
    simp only [get, hcall, hconn, harcs, hmade, hdrawn, hreg]
  exacts [hs.calls, hs.pending, hs.sessions, hs.ids, hs.drawn, hs.holds, hs.unmade, hs.made,
    hs.entries]

/-- Connections and calls change, and nobody takes or gives up an `Arc`. -/
theorem change (hs : Linked s) (harcs : s'.arcs = s.arcs) (hmade : s'.made = s.made)
    (hdrawn : s'.drawn = s.drawn) (hreg : s'.registry = s.registry)
    (hok : ∀ k, (s'.call k).Ok) (hid : ∀ k, (s'.call k).requestId = (s.call k).requestId)
    (hphase : ∀ k o, (s'.call k).phase.conn = some o → (s.call k).phase.conn = some o)
    (hon : ∀ k o, (s'.call k).registeredOn = some o →
      (s.call k).registeredOn = some o ∨ (s'.call k).phase.conn = some o)
    (hconn : ∀ o, (s'.conn o).id = (s.conn o).id)
    (hpending : ∀ o r k, (s'.conn o).pendingRequests.lookup r = some k ↔
      (s'.call k).registeredOn = some o ∧ (s.call k).requestId = some r ∧
        (s'.call k).rx = .empty ∧ (s'.call k).method.isRequest = true)
    (hsessions : ∀ o r k, (s'.conn o).sessions.lookup r = some k →
      (s'.call k).registeredOn = some o ∧ (s.call k).requestId = some r) : Linked s' where
  calls := hok
  pending o r k := by rw [hid k]; exact hpending o r k
  sessions o r k := by rw [hid k]; exact hsessions o r k
  ids k k' r := by rw [hid k, hid k']; exact hs.ids k k' r
  drawn k r := by rw [hid k, hdrawn]; exact hs.drawn k r
  holds k o h := by rw [harcs]; exact hs.holds k o (hphase k o h)
  unmade o := by rw [harcs, hmade]; exact hs.unmade o
  made k o h := by
    rw [hmade]
    rcases hon k o h with h | h
    · exact hs.made k o h
    · exact hs.lt_made (hs.holds k o (hphase k o h))
  entries id o h := by
    rw [hconn o, harcs]
    unfold Server.get at h
    rw [hreg] at h
    exact hs.entries id o h

theorem setTask (hs : Linked s) (t : Task) : Linked (s.setTask c t) :=
  hs.congr rfl rfl rfl rfl rfl rfl

theorem setPhase (hs : Linked s) (phase : Phase) : Linked (s.setPhase c phase) :=
  hs.setTask _

theorem hold (hs : Linked s) {h : Owner} (ho : o < s.made) : Linked (s.hold h o) where
  calls := hs.calls
  pending := hs.pending
  sessions := hs.sessions
  ids := hs.ids
  drawn := hs.drawn
  holds k o' hk := by
    have := hs.holds k o' hk
    rw [hold_arcs, Function.update_apply]
    split_ifs with h
    · subst h
      exact Finset.mem_insert_of_mem this
    · exact this
  unmade o' ho' := by
    rw [hold_arcs, Function.update_of_ne (by rintro rfl; exact absurd ho (not_lt.2 ho'))]
    exact hs.unmade o' ho'
  made := hs.made
  entries id o' hid := by
    obtain ⟨h₁, h₂, h₃⟩ := hs.entries id o' hid
    refine ⟨h₁, h₂, ?_⟩
    rw [hold_arcs, Function.update_apply]
    split_ifs with h
    · subst h
      exact Finset.mem_insert_of_mem h₃
    · exact h₃

/-- When the last `Arc` of a connection goes, the calls whose senders it has have returned. -/
theorem release_call (hs : Linked s) {h : Owner}
    (hcall : ∀ k, h = .call k → (s.call k).phase.conn ≠ some o) (k : CallId) :
    (s.release h o).call k = s.call k ∨
      (s.call k).phase.conn = none ∧ (s.call k).registeredOn = some o ∧
        (s.release h o).call k = { s.call k with rx := .closed } := by
  by_cases ho : (s.arcs o).erase h = ∅
  · rw [release_of_eq ho]
    rcases (s.call k).senderDropped_cases (s.conn o) k with he | ⟨⟨r, -, hk⟩, he⟩
    · exact .inl he
    · have hon := ((hs.pending o r k).1 hk).1
      refine .inr ⟨?_, hon, he⟩
      rw [Option.eq_none_iff_forall_ne_some]
      intro o' hk'
      obtain rfl := (hs.calls k).one o' o hk' hon
      have : Owner.call k ∈ (s.arcs o').erase h :=
        Finset.mem_erase.2 ⟨fun he => hcall k he.symm hk', hs.holds k o' hk'⟩
      rw [ho] at this
      exact Finset.notMem_empty _ this
  · rw [release_of_ne ho]
    exact .inl rfl

/-- An owner that is done with a connection gives its `Arc` up. -/
theorem release (hs : Linked s) {h : Owner}
    (hcall : ∀ k, h = .call k → (s.call k).phase.conn ≠ some o)
    (hreg : h = .registry → ∀ id, s.get id ≠ some o) : Linked (s.release h o) := by
  have hrel := hs.release_call hcall
  have hconn : ∀ o', (s.release h o).conn o' = s.conn o' ∨
      o' = o ∧ (s.arcs o).erase h = ∅ ∧ (s.release h o).conn o' = (s.conn o).dropped := by
    intro o'
    by_cases ho : (s.arcs o).erase h = ∅
    · rw [release_of_eq ho]
      by_cases heq : o' = o
      · subst heq
        exact .inr ⟨rfl, ho, Function.update_self ..⟩
      · exact .inl (Function.update_of_ne heq ..)
    · rw [release_of_ne ho]
      exact .inl rfl
  have hsame : ∀ k, ((s.release h o).call k).registeredOn = (s.call k).registeredOn ∧
      ((s.release h o).call k).requestId = (s.call k).requestId ∧
      ((s.release h o).call k).phase = (s.call k).phase ∧
      ((s.release h o).call k).method = (s.call k).method := by
    intro k
    rcases hrel k with he | ⟨-, -, he⟩ <;> rw [he] <;> exact ⟨rfl, rfl, rfl, rfl⟩
  refine
    { calls := fun k => ?_
      pending := fun o' r k => ?_
      sessions := fun o' r k hk => ?_
      ids := fun k k' r => ?_
      drawn := fun k r => ?_
      holds := fun k o' hk => ?_
      unmade := fun o' ho' => ?_
      made := fun k o' => ?_
      entries := fun id o' hid => ?_ }
  · have hc := hs.calls k
    rcases hrel k with he | ⟨hn, hon, he⟩
    · rw [he]
      exact hc
    · rw [he]
      exact ⟨hc.idle, hc.found, hc.drawn, fun h => (nomatch hon.symm.trans h), hc.registered,
        hc.one, fun h => absurd hn h⟩
  · rw [(hsame k).1, (hsame k).2.1, (hsame k).2.2.2]
    rcases hconn o' with he | ⟨rfl, ho, he⟩
    · rw [he, hs.pending o' r k]
      refine and_congr_right fun hon => and_congr_right fun hr => and_congr_left fun hm => ?_
      rcases hrel k with hk | ⟨-, hon', hk⟩
      · rw [hk]
      · obtain rfl := Option.some_inj.1 (hon.symm.trans hon')
        rw [hk]
        refine ⟨fun hrx => ?_, (nomatch ·)⟩
        -- its sender is still in the map, so that it was not dropped
        have hk' := (hs.pending o' r k).2 ⟨hon, hr, hrx, hm⟩
        rw [← he] at hk'
        by_cases ho : (s.arcs o').erase h = ∅
        · rw [release_of_eq ho] at hk'
          change (Function.update s.conn o' _ o').pendingRequests.lookup r = some k at hk'
          rw [Function.update_self, DaemonConnection.dropped_pendingRequests,
            Finmap.lookup_empty] at hk'
          cases hk'
        · rw [release_of_ne ho] at hk
          change s.call k = _ at hk
          rw [hk] at hrx
          cases hrx
    · rw [he, DaemonConnection.dropped_pendingRequests, Finmap.lookup_empty]
      refine ⟨(nomatch ·), fun ⟨hon, hr, hrx, hm⟩ => ?_⟩
      rw [release_of_eq ho] at hrx
      change ((s.call k).senderDropped (s.conn o') k).rx = .empty at hrx
      rcases (s.call k).senderDropped_cases (s.conn o') k with he | ⟨-, he⟩
      · rw [he] at hrx
        rw [Call.senderDropped_of_lookup hr ((hs.pending o' r k).2 ⟨hon, hr, hrx, hm⟩)] at he
        rw [← he] at hrx
        cases hrx
      · rw [he] at hrx
        cases hrx
  · rw [(hsame k).1, (hsame k).2.1]
    rcases hconn o' with he | ⟨rfl, -, he⟩
    · rw [he] at hk
      exact hs.sessions o' r k hk
    · rw [he, DaemonConnection.dropped_sessions, Finmap.lookup_empty] at hk
      cases hk
  · rw [(hsame k).2.1, (hsame k').2.1]
    exact hs.ids k k' r
  · rw [(hsame k).2.1, release_drawn]
    exact hs.drawn k r
  · rw [(hsame k).2.2.1] at hk
    have hmem := hs.holds k o' hk
    rw [release_arcs, Function.update_apply]
    split_ifs with heq
    · subst heq
      exact Finset.mem_erase.2 ⟨fun he => hcall k he.symm hk, hmem⟩
    · exact hmem
  · rw [release_made] at ho'
    rw [release_arcs, Function.update_apply]
    split_ifs with heq
    · subst heq
      rw [hs.unmade o' ho']
      rfl
    · exact hs.unmade o' ho'
  · rw [(hsame k).1, release_made]
    exact hs.made k o'
  · unfold Server.get at hid
    rw [release_registry] at hid
    obtain ⟨h₁, h₂, hmem⟩ := hs.entries id o' hid
    refine ⟨?_, h₂, ?_⟩
    · rcases hconn o' with he | ⟨rfl, -, he⟩
      · rw [he]
        exact h₁
      · rw [he]
        exact h₁
    · rw [release_arcs, Function.update_apply]
      split_ifs with heq
      · subst heq
        exact Finset.mem_erase.2 ⟨fun he => hreg he.symm id hid, hmem⟩
      · exact hmem

/-- An operation of a connection that leaves its requests alone, and adds no session. -/
theorem setConn (hs : Linked s) (conn : DaemonConnection) (hid : conn.id = (s.conn o).id)
    (hp : conn.pendingRequests = (s.conn o).pendingRequests)
    (hsess : ∀ r k, conn.sessions.lookup r = some k →
      (s.conn o).sessions.lookup r = some k) : Linked (s.setConn o conn) := by
  refine hs.change rfl rfl rfl rfl hs.calls (fun _ => rfl) (fun _ _ h => h) (fun _ _ h => .inl h)
    (fun o' => ?_) (fun o' r k => ?_) (fun o' r k => ?_) <;>
    rw [setConn_conn, Function.update_apply]
  · split_ifs with h
    · rw [hid, h]
    · rfl
  · split_ifs with h
    · rw [hp, ← h]
      exact hs.pending o' r k
    · exact hs.pending o' r k
  · split_ifs with h
    · intro hk
      rw [h]
      exact hs.sessions o r k (hsess r k hk)
    · exact hs.sessions o' r k

/-- A call that changes in what the others do not see. -/
theorem setCall (hs : Linked s) (call : Call) (hok : call.Ok)
    (hreg : call.registeredOn = (s.call k).registeredOn)
    (hid : call.requestId = (s.call k).requestId) (hrx : call.rx = (s.call k).rx)
    (hm : call.registeredOn ≠ none → call.method.isRequest = (s.call k).method.isRequest)
    (hconn : ∀ o, call.phase.conn = some o → (s.call k).phase.conn = some o) :
    Linked (s.setCall k call) := by
  have hsame : ∀ k', (Function.update s.call k call k').registeredOn = (s.call k').registeredOn ∧
      (Function.update s.call k call k').requestId = (s.call k').requestId ∧
      (Function.update s.call k call k').rx = (s.call k').rx ∧
      ((s.call k').registeredOn ≠ none →
        (Function.update s.call k call k').method.isRequest = (s.call k').method.isRequest) := by
    intro k'
    rw [Function.update_apply]
    split_ifs with h
    · subst h
      exact ⟨hreg, hid, hrx, hreg ▸ hm⟩
    · exact ⟨rfl, rfl, rfl, fun _ => rfl⟩
  refine hs.change rfl rfl rfl rfl (fun k' => ?_) (fun k' => (hsame k').2.1)
    (fun k' o => ?_) (fun k' o h => .inl ((hsame k').1 ▸ h)) (fun _ => rfl) (fun o r k' => ?_)
    (fun o r k' => ?_) <;> rw [setCall_call]
  · rw [Function.update_apply]
    split_ifs
    · exact hok
    · exact hs.calls k'
  · rw [Function.update_apply]
    split_ifs with h
    · subst h
      exact hconn o
    · exact id
  · rw [(hsame k').1, (hsame k').2.2.1, setCall_conn, hs.pending o r k']
    refine and_congr_right fun hon => ?_
    rw [(hsame k').2.2.2 (by rw [hon]; exact Option.some_ne_none o)]
  · rw [(hsame k').1]
    exact hs.sessions o r k'

/-! ### The operations of the registry -/

/-- The entry is inserted; the registry may still be among the owners of an older connection. -/
theorem insertNew (hs : Linked s) {id : String} {md : DaemonMetadata} (hne : id ≠ "") :
    Linked (s.insertNew id md c) := by
  refine
    { calls := hs.calls
      pending := fun o r k => ?_
      sessions := fun o r k => ?_
      ids := hs.ids
      drawn := hs.drawn
      holds := fun k o hk => ?_
      unmade := fun o ho => ?_
      made := fun k o hk => Nat.lt_succ_of_lt (hs.made k o hk)
      entries := fun id' o hid' => ?_ }
  · show (Function.update s.conn s.made _ o).pendingRequests.lookup r = some k ↔ _
    rw [Function.update_apply]
    split_ifs with h
    · subst h
      rw [DaemonConnection.new_pendingRequests, Finmap.lookup_empty]
      exact ⟨(nomatch ·), fun h => absurd (hs.made k _ h.1) (lt_irrefl _)⟩
    · exact hs.pending o r k
  · show (Function.update s.conn s.made _ o).sessions.lookup r = some k → _
    rw [Function.update_apply]
    split_ifs with h
    · rw [DaemonConnection.new_sessions, Finmap.lookup_empty]
      exact (nomatch ·)
    · exact hs.sessions o r k
  · show Owner.call k ∈ Function.update s.arcs s.made _ o
    have hmem := hs.holds k o hk
    rwa [Function.update_of_ne (hs.lt_made hmem).ne]
  · show Function.update s.arcs s.made _ o = ∅
    rw [Function.update_of_ne (Nat.lt_of_succ_le ho).ne']
    exact hs.unmade o (Nat.le_of_succ_le ho)
  · show (Function.update s.conn s.made _ o).id = id' ∧ id' ≠ "" ∧
      Owner.registry ∈ Function.update s.arcs s.made _ o
    change (s.registry.insert id s.made).lookup id' = some o at hid'
    by_cases h : id' = id
    · subst h
      rw [Finmap.lookup_insert, Option.some_inj] at hid'
      subst hid'
      rw [Function.update_self, Function.update_self]
      exact ⟨rfl, hne, Finset.mem_singleton_self _⟩
    · rw [Finmap.lookup_insert_of_ne _ h] at hid'
      have ho := hs.entries id' o hid'
      have hlt := (hs.lt_made ho.2.2).ne
      rw [Function.update_of_ne hlt, Function.update_of_ne hlt]
      exact ho

/-- After the new entry is there, nothing leads to the connection it replaced. -/
theorem insertNew_get_ne (hs : Linked s) {id : String} {md : DaemonMetadata} (hne : id ≠ "")
    {old : ConnRef} (hold : s.get id = some old) (id' : String) :
    (s.insertNew id md c).get id' ≠ some old := by
  intro hid'
  have hne' : old ≠ s.made := by
    rintro rfl
    exact absurd (hs.lt_made (hs.entries id _ hold).2.2) (lt_irrefl _)
  have h₁ := ((hs.insertNew hne : Linked (s.insertNew id md c)).entries id' old hid').1
  change (Function.update s.conn s.made _ old).id = id' at h₁
  rw [Function.update_of_ne hne', (hs.entries id old hold).1] at h₁
  subst h₁
  change (s.registry.insert id s.made).lookup id = some old at hid'
  rw [Finmap.lookup_insert] at hid'
  exact hne' (Option.some_inj.1 hid').symm

theorem register (hs : Linked s) {id : String} {md : DaemonMetadata} (hne : id ≠ "") :
    Linked (s.register id md c) := by
  unfold Server.register
  split
  next old hold =>
    exact (hs.insertNew hne).release (fun _ h => nomatch h) fun _ =>
      hs.insertNew_get_ne hne hold
  next => exact hs.insertNew hne

/-- The entries that are left when one is removed. -/
theorem get_of_erase {id id' : String} (h : (s.registry.erase id).lookup id' = some o) :
    id' ≠ id ∧ s.get id' = some o := by
  rw [StringMap.lookup_erase_eq_ite] at h
  split_ifs at h with hne
  exact ⟨hne, h⟩

theorem eraseEntry (hs : Linked s) (id : String) :
    Linked { s with registry := s.registry.erase id } :=
  ⟨hs.calls, hs.pending, hs.sessions, hs.ids, hs.drawn, hs.holds, hs.unmade, hs.made,
    fun id' o' hid' => hs.entries id' o' (get_of_erase hid').2⟩

theorem remove (hs : Linked s) (id : String) : Linked (s.remove id) := by
  unfold Server.remove
  split
  next o ho =>
    refine (hs.eraseEntry id).release (fun _ h => nomatch h) fun _ id' hid' => ?_
    obtain ⟨hne, hid'⟩ := get_of_erase hid'
    exact hne ((hs.entries id' o hid').1.symm.trans (hs.entries id o ho).1)
  next => exact hs

theorem cleanUp (hs : Linked s) : Linked (s.cleanUp c) := by
  unfold Server.cleanUp
  split
  · exact (hs.remove _).setPhase _
  · exact hs.setPhase _

theorem cleanupStale (hs : Linked s) {n : ℕ} {id : String} (h : s.cleanupStale n id = some s') :
    Linked s' := by
  unfold Server.cleanupStale at h
  split at h
  · split_ifs at h
    obtain rfl := Option.some_inj.1 h
    exact hs.remove id
  · cases h

/-! ### The operations of a connection -/

/-- The sender goes out of the map at the moment the call has its response. -/
theorem completeRequest (hs : Linked s) {m : Message} : Linked (s.completeRequest o r m) := by
  unfold Server.completeRequest DaemonConnection.completeRequest
  split
  next k conn heq =>
    obtain ⟨hk, rfl⟩ := Prod.mk.injEq .. ▸ heq
    obtain ⟨h₁, h₂, -, h₄⟩ := (hs.pending o r k).1 hk
    have hsame : ∀ k', (Function.update s.call k ((s.call k).receive m) k').phase =
          (s.call k').phase ∧
        (Function.update s.call k ((s.call k).receive m) k').registeredOn =
          (s.call k').registeredOn ∧
        (Function.update s.call k ((s.call k).receive m) k').requestId =
          (s.call k').requestId ∧
        (Function.update s.call k ((s.call k).receive m) k').method = (s.call k').method := by
      intro k'
      rw [Function.update_apply]
      split_ifs with h
      · subst h
        exact ⟨Call.receive_phase, Call.receive_registeredOn, Call.receive_requestId,
          Call.receive_method⟩
      · exact ⟨rfl, rfl, rfl, rfl⟩
    refine hs.change rfl rfl rfl rfl (fun k' => ?_) (fun k' => (hsame k').2.2.1)
      (fun k' o' => ?_) (fun k' o' h => .inl ((hsame k').2.1 ▸ h)) (fun o' => ?_)
      (fun o' r' k' => ?_) (fun o' r' k' => ?_)
    · rw [setCall_call, Function.update_apply]
      split_ifs with h
      · exact (hs.calls k).receive (by rw [h₁]; exact Option.some_ne_none o) m
      · exact hs.calls k'
    · rw [setCall_call, setConn_call, (hsame k').1]
      exact id
    · rw [setCall_conn, setConn_conn, Function.update_apply]
      split_ifs with h
      · rw [h]
      · rfl
    · rw [setCall_call, setConn_call, (hsame k').2.1, (hsame k').2.2.2, setCall_conn,
        setConn_conn]
      by_cases hkk : k' = k
      · subst hkk
        rw [Function.update_self]
        refine ⟨fun h => ?_, fun h => absurd h.2.2.1 Call.receive_rx_ne⟩
        exfalso
        by_cases ho : o' = o
        · subst ho
          rw [Function.update_self, StringMap.lookup_erase_eq_ite] at h
          split_ifs at h with hr
          exact hr (Option.some_inj.1 (((hs.pending o' r' k').1 h).2.1.symm.trans h₂))
        · rw [Function.update_of_ne ho] at h
          exact ho (Option.some_inj.1 (((hs.pending o' r' k').1 h).1.symm.trans h₁))
      · rw [Function.update_of_ne hkk, ← hs.pending o' r' k']
        by_cases ho : o' = o
        · subst ho
          rw [Function.update_self, StringMap.lookup_erase_eq_ite]
          split_ifs with hr
          · subst hr
            rw [hk]
            exact ⟨(nomatch ·), fun h => absurd (Option.some_inj.1 h).symm hkk⟩
          · rfl
        · rw [Function.update_of_ne ho]
    · rw [setCall_call, setConn_call, (hsame k').2.1, setCall_conn, setConn_conn,
        Function.update_apply]
      split_ifs with h
      · intro hk'
        rw [h]
        exact hs.sessions o r' k' hk'
      · exact hs.sessions o' r' k'
  next => exact hs

/-- What a call registers goes into one of the maps, under the identifier it drew. -/
theorem register_call (hs : Linked s) (conn : DaemonConnection)
    (hphase : (s.call k).phase = .found o) (hid : (s.call k).requestId = some r)
    (hconn : conn.id = (s.conn o).id)
    (hp : ∀ r' k', conn.pendingRequests.lookup r' = some k' ↔
      (r' = r ∧ k' = k ∧ (s.call k).method.isRequest = true) ∨
        (s.conn o).pendingRequests.lookup r' = some k')
    (hsess : ∀ r' k', conn.sessions.lookup r' = some k' →
      (r' = r ∧ k' = k) ∨ (s.conn o).sessions.lookup r' = some k') :
    Linked ((s.setConn o conn).setCall k ((s.call k).register o)) := by
  have hun := (hs.calls k).found o hphase
  have hrx := (hs.calls k).unregistered hun
  have hne : ∀ k', (s.call k').registeredOn = some o → k' ≠ k := by
    rintro k' h rfl
    cases hun.symm.trans h
  refine hs.change rfl rfl rfl rfl (fun k' => ?_) (fun k' => ?_) (fun k' o' => ?_)
    (fun k' o' => ?_) (fun o' => ?_) (fun o' r' k' => ?_) (fun o' r' k' => ?_)
  · rw [setCall_call, Function.update_apply]
    split_ifs
    · exact (hs.calls k).register hphase
    · exact hs.calls k'
  · rw [setCall_call, Function.update_apply]
    split_ifs with h
    · rw [h]
      rfl
    · rfl
  · rw [setCall_call, Function.update_apply]
    split_ifs with h
    · rw [h, hphase]
      exact id
    · exact id
  · rw [setCall_call, Function.update_apply]
    split_ifs with h
    · exact fun ho' => .inr ho'
    · exact .inl
  · rw [setCall_conn, setConn_conn, Function.update_apply]
    split_ifs with h
    · rw [h, hconn]
    · rfl
  · rw [setCall_call, setConn_call, setCall_conn, setConn_conn]
    by_cases hkk : k' = k
    · subst hkk
      rw [Function.update_self]
      by_cases ho : o' = o
      · subst ho
        rw [Function.update_self, hp r' k']
        constructor
        · rintro (⟨rfl, -, hm⟩ | h)
          · exact ⟨rfl, hid, hrx, hm⟩
          · exact absurd rfl (hne k' ((hs.pending o' r' k').1 h).1)
        · exact fun h => .inl ⟨Option.some_inj.1 (h.2.1.symm.trans hid), rfl, h.2.2.2⟩
      · rw [Function.update_of_ne ho]
        refine ⟨fun h => ?_, fun h => absurd (Option.some_inj.1 h.1).symm ho⟩
        cases hun.symm.trans ((hs.pending o' r' k').1 h).1
    · rw [Function.update_of_ne hkk, ← hs.pending o' r' k']
      by_cases ho : o' = o
      · subst ho
        rw [Function.update_self, hp r' k']
        exact or_iff_right fun h => hkk h.2.1
      · rw [Function.update_of_ne ho]
  · rw [setCall_call, setConn_call, setCall_conn, setConn_conn]
    intro hk'
    by_cases ho : o' = o
    · subst ho
      rw [Function.update_self] at hk'
      rcases hsess r' k' hk' with ⟨rfl, rfl⟩ | h
      · rw [Function.update_self]
        exact ⟨rfl, hid⟩
      · have hon := hs.sessions o' r' k' h
        rw [Function.update_of_ne (hne k' hon.1)]
        exact hon
    · rw [Function.update_of_ne ho] at hk'
      have hon := hs.sessions o' r' k' hk'
      rw [Function.update_apply]
      split_ifs with hkk
      · subst hkk
        cases hun.symm.trans hon.1
      · exact hon

theorem sendSessionOutput (hs : Linked s) {data : List UInt8} :
    Linked (s.sendSessionOutput o r data) := by
  unfold Server.sendSessionOutput
  split
  · exact hs.setCall _ ((hs.calls _).output _) rfl rfl rfl (fun _ => rfl) fun _ h => h
  · exact hs

/-- What a message does to the connection that was looked up for it. -/
theorem onConnection (hs : Linked s) (m : Message) : Linked (s.onConnection m o) := by
  unfold Server.onConnection
  split
  · exact hs.setConn _ rfl rfl fun _ _ h => h
  · exact hs.sendSessionOutput
  · exact hs.setConn _ rfl rfl fun r' k h => DaemonConnection.closeSession_lookup h
  · refine hs.setConn _ DaemonConnection.addFileChunk_id
      DaemonConnection.addFileChunk_pendingRequests fun _ _ h => ?_
    rwa [DaemonConnection.addFileChunk_sessions] at h
  · split
    · exact hs.completeRequest
    · exact hs

/-! ### Tasks -/

theorem lookUp (hs : Linked s) (m : Message) : Linked (s.lookUp c m) := by
  unfold Server.lookUp
  split
  · exact hs.setPhase _
  · split
    next id _ o ho => exact (hs.hold (hs.lt_made (hs.entries _ o ho).2.2)).setPhase _
    next =>
      split_ifs
      · exact hs.setPhase _
      · exact hs.setPhase _

theorem handleDaemonMessage (hs : Linked s) (m : Message) :
    Linked (s.handleDaemonMessage c m) := by
  unfold Server.handleDaemonMessage
  split
  · split_ifs with h
    · exact hs.setPhase _
    · exact (hs.register h).setTask _
  all_goals first
    | exact hs.lookUp _
    | exact hs.setPhase _

theorem routed (hs : Linked s) (m : Message) : Linked (s.routed c m o) :=
  ((hs.onConnection m).release (h := .task c) (fun _ h => nomatch h)
    fun h => nomatch h).setPhase _

/-! ### Calls -/

theorem beginCall (hs : Linked s) {id : String} {method : Method}
    (h : s.beginCall k id method r = some s') : Linked s' := by
  unfold Server.beginCall at h
  split at h
  next hidle =>
    obtain ⟨hnone, hun⟩ := (hs.calls k).idle hidle
    have hrx := (hs.calls k).unregistered hun
    split at h
    next o ho =>
      split_ifs at h with hr
      obtain rfl := Option.some_inj.1 h
      have hlt := hs.lt_made (hs.entries id o ho).2.2
      have hold := hs.hold (h := .call k) hlt
      refine
        { calls := fun k' => ?_
          pending := fun o' r' k' => ?_
          sessions := fun o' r' k' hk' => ?_
          ids := fun k₁ k₂ r' => ?_
          drawn := fun k' r' => ?_
          holds := fun k' o' => ?_
          unmade := hold.unmade
          made := fun k' o' => ?_
          entries := hold.entries }
      · rw [setCall_call, Function.update_apply]
        split_ifs
        · exact
            { idle := fun h => nomatch h
              found := fun _ _ => hun
              drawn := fun _ h => nomatch h
              unregistered := fun _ => hrx
              registered := fun o' ho' => .inl (congrArg _ (Option.some_inj.1 ho'))
              one := fun _ _ _ h => nomatch hun.symm.trans h
              alive := fun _ h => nomatch hrx.symm.trans h }
        · exact hs.calls k'
      · rw [setCall_call, Function.update_apply]
        split_ifs with hk
        · refine ⟨fun h => ?_, fun h => nomatch hun.symm.trans h.1⟩
          have := ((hs.pending o' r' k').1 h).1
          rw [hk, hun] at this
          cases this
        · exact hs.pending o' r' k'
      · have hon := hs.sessions o' r' k' hk'
        rw [setCall_call, Function.update_of_ne]
        · exact hon
        · rintro rfl
          cases hun.symm.trans hon.1
      · rw [setCall_call, Function.update_apply, Function.update_apply]
        split_ifs with h₁ h₂ h₂
        · exact fun _ _ => h₁.trans h₂.symm
        · intro h h'
          rw [← Option.some_inj.1 h] at h'
          exact absurd (hs.drawn k₂ r h') hr
        · intro h h'
          rw [← Option.some_inj.1 h'] at h
          exact absurd (hs.drawn k₁ r h) hr
        · exact hs.ids k₁ k₂ r'
      · rw [setCall_call, Function.update_apply]
        split_ifs
        · intro h
          rw [← Option.some_inj.1 h]
          exact List.mem_cons_self
        · exact fun h => List.mem_cons_of_mem r (hs.drawn k' r' h)
      · rw [setCall_call, Function.update_apply]
        split_ifs with h₁
        · intro h
          obtain rfl := Option.some_inj.1 h
          rw [h₁]
          show Owner.call k ∈ Function.update s.arcs o (insert (.call k) (s.arcs o)) o
          rw [Function.update_self]
          exact Finset.mem_insert_self _ _
        · exact hold.holds k' o'
      · rw [setCall_call, Function.update_apply]
        split_ifs
        · exact fun h => nomatch hun.symm.trans h
        · exact hs.made k' o'
    next =>
      obtain rfl := Option.some_inj.1 h
      have hok : { s.call k with
          method := method, phase := .returned (.error (method.notFound id)) }.Ok :=
        { idle := fun h => nomatch h
          found := fun _ h => nomatch h
          drawn := fun h => h.elim (absurd rfl) (absurd hun)
          unregistered := fun _ => hrx
          registered := fun _ h => nomatch h
          one := fun _ _ h => nomatch h
          alive := fun h => absurd rfl h }
      exact hs.setCall _ hok rfl rfl rfl (absurd hun) fun _ h => nomatch h
  next => cases h

theorem returns (hs : Linked s) (outcome : Outcome) : Linked (s.returns k o outcome) := by
  refine (hs.setCall { s.call k with phase := .returned outcome }
    ((hs.calls k).returned outcome) rfl rfl rfl (fun _ => rfl) fun _ h => nomatch h).release ?_
      fun h => nomatch h
  intro k' hk' h
  cases hk'
  rw [setCall_call, Function.update_self] at h
  cases h

theorem sendMessage (hs : Linked s) {m : Message} (h : s.sendMessage o m = some s') :
    Linked s' ∧ s'.call = s.call := by
  unfold Server.sendMessage at h
  dsimp only at h
  split_ifs at h
  obtain rfl := Option.some_inj.1 h
  exact ⟨hs.setTask _, rfl⟩

theorem callSend (hs : Linked s) {m : Message} {e : PyError} {phase : CallPhase}
    (hok : { s.call k with phase := phase }.Ok)
    (hconn : ∀ o', phase.conn = some o' → (s.call k).phase.conn = some o') :
    Linked (s.callSend k o m e phase) := by
  unfold Server.callSend
  split
  next s' h =>
    obtain ⟨hs', hcall⟩ := hs.sendMessage h
    split
    · exact hs'.returns _
    · refine hs'.setCall _ ?_ rfl rfl rfl (fun _ => rfl) ?_
      · rw [hcall]
        exact hok
      · rw [hcall]
        exact hconn
  next => exact hs.returns _

/-- A call that only sends, before it sends the next message. -/
theorem post (hs : Linked s) (hm : (s.call k).method.isRequest = false) (b : Bool)
    (rest : List Posting) : Linked (s.setCall k { s.call k with method := .post b rest }) := by
  have hok := hs.calls k
  have hok' : { s.call k with method := .post b rest }.Ok :=
    ⟨hok.idle, hok.found, hok.drawn, hok.unregistered, hok.registered, hok.one, hok.alive⟩
  exact hs.setCall _ hok' rfl rfl rfl (fun _ => by rw [hm]; rfl) fun _ h => h

theorem proceed (hs : Linked s) (h : s.proceed k = some s') : Linked s' := by
  have hok := hs.calls k
  unfold Server.proceed at h
  dsimp only at h
  split at h
  next o r ask hp hr hm =>
    obtain rfl := Option.some_inj.1 h
    have hun := hok.found o hp
    refine hs.register_call _ hp hr rfl (fun r' k' => ?_) fun _ _ h => .inr h
    rw [DaemonConnection.registerRequest_lookup, hm]
    split_ifs with hrr
    · subst hrr
      rw [Option.some_inj]
      refine ⟨fun h => .inl ⟨rfl, h.symm, rfl⟩, ?_⟩
      rintro (⟨-, rfl, -⟩ | h)
      · rfl
      · have h' := (hs.pending o r' k').1 h
        exact (hs.ids k k' r' hr h'.2.1)
    · exact (or_iff_right fun h => hrr h.1).symm
  next o r _ _ _ hp hr hm =>
    obtain rfl := Option.some_inj.1 h
    refine hs.register_call _ hp hr rfl (fun r' k' => ?_) fun r' k' h => ?_
    · rw [hm]
      exact (or_iff_right fun h => nomatch h.2.2).symm
    · exact DaemonConnection.registerSession_lookup h
  next o r path hp hr hm =>
    obtain rfl := Option.some_inj.1 h
    refine hs.register_call _ hp hr rfl (fun r' k' => ?_) fun _ _ h => .inr h
    rw [hm]
    exact (or_iff_right fun h => nomatch h.2.2).symm
  next o r b hp hr hm =>
    obtain rfl := Option.some_inj.1 h
    exact hs.returns _
  next o r b posting rest hp hr hm =>
    obtain rfl := Option.some_inj.1 h
    have hs' := hs.post (k := k) (by rw [hm]; rfl) b rest
    have hok' := hs'.calls k
    rw [setCall_call, Function.update_self] at hok'
    refine hs'.callSend ?_ ?_ <;> rw [setCall_call, Function.update_self]
    · exact hp ▸ hok'
    · exact fun _ h => hp ▸ h
  next o r ask hp hr hm =>
    obtain rfl := Option.some_inj.1 h
    refine hs.callSend (hok.goOn hp rfl nofun) fun o' ho' => ?_
    rw [hp]
    exact ho'
  next o r _ _ _ hp hr hm =>
    obtain rfl := Option.some_inj.1 h
    exact hs.callSend (hok.returned _) fun _ h => nomatch h
  next o r path hp hr hm =>
    obtain rfl := Option.some_inj.1 h
    refine hs.callSend (hok.goOn hp rfl nofun) fun o' ho' => ?_
    rw [hp]
    exact ho'
  next => cases h

theorem resume (hs : Linked s) (h : s.resume k = some s') : Linked s' := by
  unfold Server.resume at h
  dsimp only at h
  split at h
  · obtain rfl := Option.some_inj.1 h
    exact hs.returns _
  · obtain rfl := Option.some_inj.1 h
    exact hs.returns _
  · split at h
    · split_ifs at h
      obtain rfl := Option.some_inj.1 h
      exact (hs.setConn ((s.conn _).completeFileTransfer _).2 rfl rfl fun _ _ h => h).returns _
    · cases h
  · cases h

theorem timeOut (hs : Linked s) (h : s.timeOut k = some s') : Linked s' := by
  unfold Server.timeOut at h
  dsimp only at h
  split at h
  · split_ifs at h
    obtain rfl := Option.some_inj.1 h
    exact hs.returns _
  · cases h

end Linked

/-! ### Tasks by themselves -/

/-- The events of a task that reach nothing but its own state. -/
theorem next_eq (h : s.next c = some s') : ∃ t, s' = s.setTask c t := by
  unfold Server.next at h
  dsimp only at h
  split at h
  · split at h
    case h_6 =>
      split_ifs at h
      exact ⟨_, (Option.some_inj.1 h).symm⟩
    all_goals exact ⟨_, (Option.some_inj.1 h).symm⟩
  · cases h

theorem recv_eq (h : s.recv c = some s') : ∃ t, s' = s.setTask c t := by
  unfold Server.recv at h
  dsimp only at h
  split at h
  · exact ⟨_, (Option.some_inj.1 h).symm⟩
  · cases h

theorem orElse_eq (h : s.orElse c = some s') : ∃ t, s' = s.setTask c t := by
  unfold Server.orElse at h
  dsimp only at h
  split_ifs at h
  exact ⟨_, (Option.some_inj.1 h).symm⟩

theorem write_eq {ok : Bool} (h : s.write c ok = some s') : ∃ t, s' = s.setTask c t := by
  unfold Server.write at h
  dsimp only at h
  split at h
  · exact ⟨_, (Option.some_inj.1 h).symm⟩
  · exact ⟨_, (Option.some_inj.1 h).symm⟩
  · cases h

/-- **The invariant is kept by every event.** -/
theorem Linked.step (hs : Linked s) {e : Event} (h : s.step e = some s') : Linked s' := by
  cases e with
  | tick secs => exact Option.some_inj.1 h ▸ hs.congr rfl rfl rfl rfl rfl rfl
  | accept c =>
    change (if _ then _ else _) = some s' at h
    split_ifs at h
    exact Option.some_inj.1 h ▸ hs.setTask _
  | arrive c frame =>
    change (if _ then _ else _) = some s' at h
    split_ifs at h
    exact Option.some_inj.1 h ▸ hs.setTask _
  | endStream c => exact Option.some_inj.1 h ▸ hs.setTask _
  | deliver c =>
    unfold Server.step at h
    dsimp only at h
    split at h
    · exact Option.some_inj.1 h ▸ hs.setTask _
    · cases h
  | next c =>
    obtain ⟨t, rfl⟩ := next_eq h
    exact hs.setTask t
  | handle c =>
    unfold Server.step at h
    dsimp only at h
    split at h
    · exact Option.some_inj.1 h ▸ hs.handleDaemonMessage _
    · cases h
  | route c =>
    unfold Server.step at h
    dsimp only at h
    split at h
    · exact Option.some_inj.1 h ▸ hs.routed _
    · cases h
  | recv c =>
    obtain ⟨t, rfl⟩ := recv_eq h
    exact hs.setTask t
  | orElse c =>
    obtain ⟨t, rfl⟩ := orElse_eq h
    exact hs.setTask t
  | write c ok =>
    obtain ⟨t, rfl⟩ := write_eq h
    exact hs.setTask t
  | cleanUp c =>
    change (if _ then _ else _) = some s' at h
    split_ifs at h
    exact Option.some_inj.1 h ▸ hs.cleanUp
  | finish c =>
    change (if _ then _ else _) = some s' at h
    split_ifs at h
    exact Option.some_inj.1 h ▸ hs.setTask _
  | reap id => exact hs.cleanupStale h
  | begin k daemonId method id => exact hs.beginCall h
  | proceed k => exact hs.proceed h
  | resume k => exact hs.resume h
  | timeOut k => exact hs.timeOut h

/-- It holds in every state. -/
theorem linked_of_reach (h : Reach step initial s) : Linked s :=
  h.invariant Linked.initial fun _ _ _ hs he => hs.step he

end Server

end SandD
