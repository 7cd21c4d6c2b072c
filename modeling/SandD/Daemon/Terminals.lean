import SandD.Daemon.Handshake
import SandD.Server.Sessions

/-!
# Interactive sessions

The daemon starts a shell on a pseudo-terminal for every session, and a task of its own reads from
it and writes what it reads to the connection the session was opened on.  The call that opened the
session reads from the channel in which the server puts it.

* `Terminals.step`: one event of the server, of the daemons' reading tasks, of the shells and of the
  callers that read;
* `Flowing` and `Deaf`: between the shell and the caller nothing is missing, or nothing more comes;
* `read_prefix`: what a caller has read is always the beginning of what its shell has put out.
-/

namespace SandD

/-- The pseudo-terminal of a session, with the task that reads from it. -/
structure Pty where
  /-- the connection of its `ws_tx` -/
  conn : TaskId
  /-- what the shell has put out so far -/
  stream : List UInt8
  /-- what the task has not read of that -/
  unread : List UInt8
  /-- whether the task is in its loop -/
  running : Bool
  deriving DecidableEq

/-- The size of the buffer of the task. -/
def bufferSize : ℕ := 8192

/-- The server, and the sessions at both ends.  Sessions have different ids, so that those of all
daemons and connections can be told apart by them. -/
structure Terminals where
  server : Server
  pty : String → Option Pty
  /-- how much of its channel the caller of a session has taken -/
  taken : CallId → ℕ

/-- What can happen. -/
inductive TerminalEvent
  /-- something on the server, or a message of a daemon that no reading task sends -/
  | server (e : Event)
  /-- a daemon takes the next message of a connection; whether it can start a shell -/
  | take (c : TaskId) (started : Bool)
  /-- the shell puts something out -/
  | put (r : String) (data : List UInt8)
  /-- `reader.read` returns some bytes, and they are sent -/
  | forward (r : String) (n : ℕ) (sent : Bool)
  /-- `reader.read` returns no bytes -/
  | exit (r : String) (sent : Bool)
  /-- `reader.read` fails -/
  | fail (r : String)
  /-- `Session::read` -/
  | read (k : CallId)
  deriving DecidableEq

/-- An event that is no delivery to a daemon, and no arrival of what its reading tasks send. -/
def Event.isApart : Event → Bool
  | .arrive _ (.text (some m)) => m.session.isNone
  | .deliver _ => false
  | _ => true

namespace Terminals

/-- A server that was just started. -/
def initial : Terminals := ⟨.initial, fun _ => none, fun _ => 0⟩

variable (y : Terminals)

/-- A message goes out on a connection; where that has ended it is lost. -/
def send (c : TaskId) (m : Message) : Terminals :=
  { y with server := (y.server.step (.arrive c (.text (some m)))).getD y.server }

def setPty (r : String) (p : Pty) : Terminals :=
  { y with pty := Function.update y.pty r (some p) }

@[simp] theorem setPty_server (r : String) (p : Pty) : (y.setPty r p).server = y.server := rfl

@[simp] theorem setPty_pty (r : String) (p : Pty) :
    (y.setPty r p).pty = Function.update y.pty r (some p) := rfl

/-- `handle_message` of the message a daemon has taken. -/
def handled (c : TaskId) (m : Message) (started : Bool) : Terminals :=
  match m with
  | .newSession r _ _ _ => if started then y.setPty r ⟨c, [], [], true⟩ else y
  | _ => y

/-- One round of the reading task that has read `data`. -/
def forwarded (r : String) (p : Pty) (data : List UInt8) (sent : Bool) : Terminals :=
  if sent then (y.setPty r p).send p.conn (.sessionOutput r data)
  else y.setPty r { p with running := false }

/-- The last round of the reading task. -/
def exited (r : String) (p : Pty) (sent : Bool) : Terminals :=
  let y' := y.setPty r { p with running := false }
  if sent then y'.send p.conn (.sessionExit r 0) else y'

/-- One event. -/
def step : TerminalEvent → Option Terminals
  | .server e =>
    if e.isApart then (y.server.step e).map fun s => { y with server := s } else none
  | .take c started =>
    match (y.server.task c).outbound with
    | m :: _ =>
      (y.server.step (.deliver c)).map fun s => { y with server := s }.handled c m started
    | [] => none
  | .put r data =>
    (y.pty r).map fun p =>
      y.setPty r { p with stream := p.stream ++ data, unread := p.unread ++ data }
  | .forward r n sent =>
    match y.pty r with
    | some p =>
      if p.running ∧ 0 < n ∧ n ≤ bufferSize ∧ n ≤ p.unread.length then
        some (y.forwarded r { p with unread := p.unread.drop n } (p.unread.take n) sent)
      else none
    | none => none
  | .exit r sent =>
    match y.pty r with
    | some p => if p.running ∧ p.unread = [] then some (y.exited r p sent) else none
    | none => none
  | .fail r =>
    match y.pty r with
    | some p => if p.running then some (y.setPty r { p with running := false }) else none
    | none => none
  | .read k =>
    match (y.server.call k).phase with
    | .returned (.ok (.session _)) =>
      some (if y.taken k < (y.server.call k).output.length then
        { y with taken := Function.update y.taken k (y.taken k + 1) } else y)
    | _ => none

/-- The byte strings that the `read`s of a session have returned, one after the other. -/
def readings (k : CallId) : List UInt8 := ((y.server.call k).output.take (y.taken k)).flatten

/-- What the shell of a session has put out. -/
def stream (r : String) : List UInt8 :=
  match y.pty r with
  | some p => p.stream
  | none => []

end Terminals

/-- What the reading task will still send. -/
def Pty.coming (p : Pty) : Option (List UInt8) := if p.running then some p.unread else none

namespace Server

variable {s s' : Server} {c : TaskId} {o : ConnRef} {k : CallId} {r : String} {e : Event}
  {p : Pty}

/-- How the session of a call and its shell are connected. -/
def Piped (s : Server) (k : CallId) (r : String) (o : ConnRef) (p : Pty) : Prop :=
  s.Flowing k r p.conn p.stream p.coming ∨ s.Deaf k r o p.conn p.stream

/-- What is on its way to the daemons opens a session no more often than before, unless the call of
the session has just sent its message. -/
theorem news_step (hs : s.Linked) (h : s.step e = some s') :
    (∀ c r, newsOf r (s'.task c).outgoing ≤ newsOf r (s.task c).outgoing) ∨
      ∃ k, e = .proceed k ∧ News s k s' := by
  by_cases he : ∃ k, e = .proceed k
  · obtain ⟨k, rfl⟩ := he
    exact .inr ⟨k, rfl, proceed_news hs h⟩
  refine .inl fun c r => ?_
  by_cases ha : e.actor = some c
  · refine (task_step h ha).news r fun m hp => ?_
    have hack := replying_isAck h ha hp
    cases m with
    | newSession => cases hack
    | _ => rfl
  · have hk := task_kept h ha
    have hreq := hk.requests.resolve_right he
    rw [Task.outgoing, Task.outgoing, hk.kept.phase, hreq]
    simp only [newsOf_append]
    have hout : newsOf r (s'.task c).outbound ≤ newsOf r (s.task c).outbound :=
      hk.kept.outbound.sublist.countP_le
    omega

/-- Output of the shell that arrives. -/
theorem Flowing.arrive {stream chunk rest : List UInt8}
    (hf : s.Flowing k r c stream (some (chunk ++ rest)))
    (h : s.step (.arrive c (.text (some (.sessionOutput r chunk)))) = some s') :
    s'.Flowing k r c stream (some rest) := by
  change (if _ then _ else _) = some s' at h
  split_ifs at h with hend
  obtain rfl := Option.some_inj.1 h
  have hall := hf.all _ rfl (Bool.eq_false_iff.2 hend)
  have harrived : (s.setTask c { s.task c with inbound := (s.task c).inbound ++
      [.text (some (.sessionOutput r chunk))] }).arrived k r c = s.arrived k r c ++ chunk := by
    simp [arrived, Task.incoming, Frame.message, List.filterMap_append]
  rw [← List.append_assoc] at hall
  refine ⟨?_, fun rest' hrest' _ => ?_⟩
  · rw [harrived, ← hall]
    exact List.prefix_append _ _
  · cases hrest'
    rw [harrived, hall]

/-- On a connection that has ended nothing more arrives. -/
theorem Flowing.lost {stream : List UInt8} {unread unread' : Option (List UInt8)}
    (hf : s.Flowing k r c stream unread) (hend : (s.task c).ended = true) :
    s.Flowing k r c stream unread' := by
  refine ⟨hf.start, fun rest _ hend' => ?_⟩
  rw [hend] at hend'
  cases hend'

/-- The reading task has left its loop. -/
theorem Flowing.stop {stream : List UInt8} {unread : Option (List UInt8)}
    (hf : s.Flowing k r c stream unread) : s.Flowing k r c stream none :=
  ⟨hf.start, fun _ hrest => by cases hrest⟩

end Server

namespace Terminals

variable {y y' : Terminals} {c : TaskId} {k : CallId} {o : ConnRef} {r : String} {p : Pty}
  {e : TerminalEvent}

/-- What holds between the shells, what is on its way, and the channels. -/
structure Wired (y : Terminals) : Prop where
  linked : y.server.Linked
  steady : y.server.Steady
  /-- what is about a session comes from its reading task -/
  coming : ∀ c m r, m ∈ (y.server.task c).incoming → m.session = some r →
    ∃ p, y.pty r = some p ∧ p.conn = c
  /-- a session is opened once -/
  asked : ∀ c r, newsOf r (y.server.task c).outgoing ≠ 0 →
    newsOf r (y.server.task c).outgoing = 1 ∧ y.pty r = none ∧
      ∃ k o, y.server.Opened k r o ∧ (y.server.conn o).requestTx = c
  piped : ∀ r p, y.pty r = some p →
    ∃ k o, y.server.Opened k r o ∧ (y.server.conn o).requestTx = p.conn ∧ y.server.Piped k r o p
  /-- a session without a shell has put nothing out -/
  silent : ∀ k, (y.server.call k).output ≠ [] →
    ∃ r p, (y.server.call k).requestId = some r ∧ y.pty r = some p

namespace Wired

theorem initial : Wired Terminals.initial where
  linked := .initial
  steady c m o o' hp := by cases hp
  coming c m r hm := by cases hm
  asked c r hne := absurd rfl hne
  piped r p hp := by cases hp
  silent k hne := absurd rfl hne

/-- What is about a session comes in on the connection of its reading task. -/
theorem coming_conn (hw : y.Wired) (hp : y.pty r = some p) (c : TaskId) (m : Message)
    (hm : m ∈ (y.server.task c).incoming) (hr : m.session = some r) : c = p.conn := by
  obtain ⟨p', hp', rfl⟩ := hw.coming c m r hm hr
  rw [hp] at hp'
  rw [Option.some_inj.1 hp']

/-- An event of the server, for one session. -/
theorem piped_step (hw : y.Wired) {s' : Server} {e : Event} (h : y.server.step e = some s')
    (hp : y.pty r = some p) (hk : y.server.Opened k r o)
    (htx : (y.server.conn o).requestTx = p.conn) (harr : bytesOf r (e.arrival p.conn) = [])
    (hpiped : y.server.Piped k r o p) : s'.Piped k r o p := by
  rcases hpiped with hf | hd
  · exact hf.step hw.linked hw.steady hk htx (hw.coming_conn hp) harr h
  · exact .inr (hd.step hw.linked hk (hw.coming_conn hp) h)

/-- The call of a session has opened it only once it has sent its message. -/
theorem unopened (hw : y.Wired) (hp : (y.server.call k).phase.conn ≠ none)
    (hr : (y.server.call k).requestId = some r) :
    y.pty r = none ∧ ∀ c, newsOf r (y.server.task c).outgoing = 0 := by
  have hno : ∀ k' o, ¬ y.server.Opened k' r o := fun k' o hk' => by
    obtain rfl := hw.linked.ids k' k r hk'.requestId hr
    exact hp hk'.returned
  constructor
  · by_contra hne
    obtain ⟨p, hpty⟩ := Option.ne_none_iff_exists'.1 hne
    obtain ⟨k', o, hk', -⟩ := hw.piped r p hpty
    exact hno k' o hk'
  · intro c
    by_contra hne
    obtain ⟨-, -, k', o, hk', -⟩ := hw.asked c r hne
    exact hno k' o hk'

/-- An event of the server, and what the daemon does with it at its end of the sessions. -/
theorem next (hw : y.Wired) {s' : Server} {pty' : String → Option Pty} {taken' : CallId → ℕ}
    {e : Event} (h : y.server.step e = some s')
    (hconn : ∀ r, (pty' r).map Pty.conn = (y.pty r).map Pty.conn)
    (harr : ∀ c m r, m ∈ e.arrival c → m.session = some r → ∃ p, y.pty r = some p ∧ p.conn = c)
    (hpiped : ∀ r p p' k o, y.pty r = some p → pty' r = some p' → y.server.Opened k r o →
      (y.server.conn o).requestTx = p.conn → y.server.Piped k r o p → s'.Piped k r o p') :
    Wired ⟨s', pty', taken'⟩ := by
  have hpty : ∀ {r p}, y.pty r = some p → ∃ p', pty' r = some p' ∧ p'.conn = p.conn := by
    intro r p hp
    have := hconn r
    rw [hp] at this
    exact Option.map_eq_some_iff.1 this
  have hpty' : ∀ {r p'}, pty' r = some p' → ∃ p, y.pty r = some p ∧ p'.conn = p.conn := by
    intro r p' hp'
    have := hconn r
    rw [hp'] at this
    obtain ⟨p, hp, heq⟩ := Option.map_eq_some_iff.1 this.symm
    exact ⟨p, hp, heq.symm⟩
  have htx : ∀ {k r o}, y.server.Opened k r o →
      (s'.conn o).requestTx = (y.server.conn o).requestTx :=
    fun hk => (Server.conn_same h (hk.lt_made hw.linked)).requestTx
  refine ⟨hw.linked.step h, hw.steady.step h, fun c m r hm hr => ?_, fun c r hne => ?_,
    fun r p' hp' => ?_, fun k hne => ?_⟩
  · obtain ⟨done, hin, -⟩ := Server.taken_step (c := c) h
    have hm' : m ∈ (y.server.task c).incoming ++ e.arrival c :=
      hin ▸ List.mem_append_right _ hm
    have hold : ∃ p, y.pty r = some p ∧ p.conn = c := by
      rcases List.mem_append.1 hm' with hm' | hm'
      · exact hw.coming c m r hm' hr
      · exact harr c m r hm' hr
    obtain ⟨p, hp, rfl⟩ := hold
    exact hpty hp
  · dsimp only at hne ⊢
    have hold : newsOf r (y.server.task c).outgoing ≠ 0 →
        newsOf r (s'.task c).outgoing ≤ newsOf r (y.server.task c).outgoing →
        newsOf r (s'.task c).outgoing = 1 ∧ pty' r = none ∧
          ∃ k o, s'.Opened k r o ∧ (s'.conn o).requestTx = c := by
      intro hne₀ hle
      obtain ⟨hone, hnone, k, o, hk, hc⟩ := hw.asked c r hne₀
      have hmap := hconn r
      rw [hnone] at hmap
      exact ⟨by omega, Option.map_eq_none_iff.1 hmap, k, o, hk.step hw.linked h,
        (htx hk).trans hc⟩
    rcases Server.news_step hw.linked h with hle | ⟨k, rfl, hnews⟩
    · have := hle c r
      exact hold (by omega) this
    · cases hnews with
      | nothing heq =>
        have := heq c r
        exact hold (by omega) this.le
      | @one o r₁ hp hr hk heq =>
        have heq := heq c r
        split_ifs at heq with hc
        · obtain ⟨rfl, rfl⟩ := hc
          obtain ⟨hnone, hzero⟩ := hw.unopened (by simp [hp, CallPhase.conn]) hr
          have hmap := hconn r
          rw [hnone] at hmap
          have ho : o < y.server.made := hw.linked.lt_made (hw.linked.holds k o (by rw [hp]; rfl))
          have := hzero (y.server.conn o).requestTx
          exact ⟨by omega, Option.map_eq_none_iff.1 hmap, k, o, hk,
            (Server.conn_same h ho).requestTx⟩
        · exact hold (by omega) (by omega)
  · obtain ⟨p, hp, hpc⟩ := hpty' hp'
    obtain ⟨k, o, hk, hc, hpip⟩ := hw.piped r p hp
    exact ⟨k, o, hk.step hw.linked h, (htx hk).trans (hc.trans hpc.symm),
      hpiped r p p' k o hp hp' hk hc hpip⟩
  · have hold : ∀ {k}, (∃ r p, (y.server.call k).requestId = some r ∧ y.pty r = some p) →
        ∃ r p, (s'.call k).requestId = some r ∧ pty' r = some p := by
      rintro k ⟨r, p, hr, hp⟩
      obtain ⟨p', hp', -⟩ := hpty hp
      exact ⟨r, p', Server.requestId_step hw.linked h hr, hp'⟩
    cases Server.session_step h with
    | hushed hh => exact hold (hw.silent k (hh.output k ▸ hne))
    | opened _ _ hout _ => exact hold (hw.silent k (hout k ▸ hne))
    | @put c o r k₁ data _ hp hk₁ hout _ =>
      by_cases hkk : k = k₁
      · subst hkk
        have hin : .sessionOutput r data ∈ (y.server.task c).incoming := by
          simp [Task.incoming, hp, Phase.inHand]
        obtain ⟨p, hpty, -⟩ := hw.coming c _ r hin rfl
        exact hold ⟨r, p, (hw.linked.sessions o r k hk₁).2, hpty⟩
      · have heq := hout k
        rw [if_neg hkk] at heq
        exact hold (hw.silent k (heq ▸ hne))

/-- A daemon starts the shell of a session. -/
theorem start (hw : y.Wired) (hnone : y.pty r = none)
    (hnews : ∀ c, newsOf r (y.server.task c).outgoing = 0) (hk : y.server.Opened k r o)
    (htx : (y.server.conn o).requestTx = c) : (y.setPty r ⟨c, [], [], true⟩).Wired := by
  have hne : ∀ {r' p}, y.pty r' = some p → r' ≠ r := by
    rintro r' p hp rfl
    cases hnone.symm.trans hp
  have hpty : ∀ {r'}, r' ≠ r → (y.setPty r ⟨c, [], [], true⟩).pty r' = y.pty r' :=
    fun hr => Function.update_of_ne hr ..
  refine ⟨hw.linked, hw.steady, fun c' m r' hm hr => ?_, fun c' r' hne' => ?_, fun r' p hp => ?_,
    fun k' hne' => ?_⟩
  · obtain ⟨p, hp, hc⟩ := hw.coming c' m r' hm hr
    exact ⟨p, (hpty (hne hp)).trans hp, hc⟩
  · obtain ⟨hone, hnone', hopened⟩ := hw.asked c' r' hne'
    have hr : r' ≠ r := fun hr => hne' (hr ▸ hnews c')
    exact ⟨hone, (hpty hr).trans hnone', hopened⟩
  · by_cases hr : r' = r
    · subst hr
      obtain rfl : (⟨c, [], [], true⟩ : Pty) = p := by
        rw [setPty_pty, Function.update_self] at hp
        exact Option.some_inj.1 hp
      have hout : (y.server.call k).output = [] := by
        by_contra hne'
        obtain ⟨r₁, p, hr₁, hp₁⟩ := hw.silent k hne'
        rw [hk.requestId] at hr₁
        exact hne hp₁ (Option.some_inj.1 hr₁).symm
      have hbytes : bytesOf r' (y.server.task c).incoming = [] :=
        bytesOf_of_session fun m hm hr => by
          obtain ⟨p, hp, -⟩ := hw.coming c m r' hm hr
          exact hne hp rfl
      have harrived : y.server.arrived k r' c = [] := by
        rw [Server.arrived, hout, hbytes]
        rfl
      refine ⟨k, o, hk, htx, .inl ⟨harrived ▸ List.prefix_rfl, fun rest hrest _ => ?_⟩⟩
      cases hrest
      show y.server.arrived k r' c ++ [] = []
      rw [harrived]
      rfl
    · exact hw.piped r' p ((hpty hr).symm.trans hp)
  · obtain ⟨r', p, hr', hp⟩ := hw.silent k' hne'
    exact ⟨r', p, hr', (hpty (hne hp)).trans hp⟩

/-- A step of the system, with what the daemon does to the shells in one. -/
theorem pty_same (hw : y.Wired) (r : String) {p' : Pty} (hp : y.pty r = some p)
    (hconn : p'.conn = p.conn) (r' : String) :
    (Function.update y.pty r (some p') r').map Pty.conn = (y.pty r').map Pty.conn := by
  rw [Function.update_apply]
  split_ifs with hr
  · rw [hr, hp, Option.map_some, Option.map_some, hconn]
  · rfl

/-- The clock may stand still. -/
theorem step_still (s : Server) : s.step (.tick 0) = some s := rfl

/-- What a shell and its reading task do between them. -/
theorem setPty (hw : y.Wired) (hp : y.pty r = some p) {p' : Pty} (hconn : p'.conn = p.conn)
    (hpiped : ∀ k o, y.server.Piped k r o p → y.server.Piped k r o p') :
    (y.setPty r p').Wired := by
  refine hw.next (step_still _) (hw.pty_same r hp hconn) (fun c m r' hm => ?_) ?_
  · cases hm
  · intro r' p₁ p₂ k o hp₁ hp₂ _ _ hpip
    rw [Function.update_apply] at hp₂
    split_ifs at hp₂ with hr
    · subst hr
      cases hp.symm.trans hp₁
      cases hp₂
      exact hpiped k o hpip
    · cases hp₁.symm.trans hp₂
      exact hpip

/-- A message of a reading task arrives, or is lost. -/
theorem sent (hw : y.Wired) (hp : y.pty r = some p) {p' : Pty} (hconn : p'.conn = p.conn)
    {m : Message} (hm : m.session = some r)
    (harrive : ∀ k o s', y.server.Opened k r o → (y.server.conn o).requestTx = p.conn →
      y.server.step (.arrive p'.conn (.text (some m))) = some s' →
      y.server.Piped k r o p → s'.Piped k r o p')
    (hlost : ∀ k o, (y.server.task p.conn).ended = true → y.server.Piped k r o p →
      y.server.Piped k r o p') : ((y.setPty r p').send p'.conn m).Wired := by
  unfold send
  cases h : (y.setPty r p').server.step (.arrive p'.conn (.text (some m))) with
  | none =>
    have hend : (y.server.task p.conn).ended = true := by
      change (if (y.server.task p'.conn).ended then _ else _) = none at h
      split_ifs at h with hend
      rwa [hconn] at hend
    exact hw.setPty hp hconn fun k o => hlost k o hend
  | some s' =>
    refine hw.next h (hw.pty_same r hp hconn) (fun c m' r' hm' hr' => ?_) ?_
    · change m' ∈ (if p'.conn = c then [m] else []) at hm'
      split_ifs at hm' with hc
      · cases List.mem_singleton.1 hm'
        cases hm.symm.trans hr'
        exact ⟨p, hp, hconn.symm.trans hc⟩
      · cases hm'
    · intro r' p₁ p₂ k o hp₁ hp₂ hk htx hpip
      rw [setPty_pty, Function.update_apply] at hp₂
      split_ifs at hp₂ with hr
      · subst hr
        cases hp.symm.trans hp₁
        cases hp₂
        exact harrive k o s' hk htx h hpip
      · cases hp₁.symm.trans hp₂
        refine hw.piped_step h hp₁ hk htx ?_ hpip
        change bytesOf r' (if p'.conn = p₁.conn then [m] else []) = []
        split_ifs
        · refine bytesOf_of_session fun m' hm' => ?_
          cases List.mem_singleton.1 hm'
          rw [hm]
          exact fun heq => hr (Option.some_inj.1 heq).symm
        · rfl

/-- The message that opens a session has reached its daemon. -/
theorem started (hw : y.Wired) {rows cols : ℕ} {term : String} {rest : List Message} {s' : Server}
    (hout : (y.server.task c).outbound = .newSession r rows cols term :: rest)
    (h : y.server.step (.deliver c) = some s') (hw' : Wired { y with server := s' }) :
    (Terminals.setPty { y with server := s' } r ⟨c, [], [], true⟩).Wired := by
  have hnews : newsOf r (y.server.task c).outgoing =
      1 + newsOf r (rest ++ (y.server.task c).phase.inWriting ++ (y.server.task c).requests) := by
    rw [Task.outgoing, hout, List.cons_append, List.cons_append, newsOf_cons, newsOf_newSession,
      if_pos rfl]
  obtain ⟨hone, hnone, k, o, hk, htx⟩ := hw.asked c r (by omega)
  have ho := hk.lt_made hw.linked
  refine hw'.start hnone (fun c' => ?_) (hk.step hw.linked h)
    ((Server.conn_same h ho).requestTx.trans htx)
  rw [Server.step, hout] at h
  obtain rfl := Option.some_inj.1 h
  dsimp only
  rw [Server.setTask_task, Function.update_apply]
  split_ifs with hc
  · dsimp only [Task.outgoing]
    omega
  · by_contra hne
    obtain ⟨-, -, k', o', hk', htx'⟩ := hw.asked c' r hne
    obtain rfl := hw.linked.ids k' k r hk'.requestId hk.requestId
    obtain rfl := Option.some_inj.1 (hk'.on.symm.trans hk.on)
    exact hc (htx'.symm.trans htx)

/-- **What holds is kept by every event.** -/
theorem step (hw : y.Wired) (h : y.step e = some y') : y'.Wired := by
  cases e with
  | server e =>
    unfold Terminals.step at h
    dsimp only at h
    split_ifs at h with he
    obtain ⟨s', hs', rfl⟩ := Option.map_eq_some_iff.1 h
    have harr : ∀ c, ∀ m ∈ e.arrival c, m.session = none := by
      intro c m hm
      cases e with
      | arrive c' f =>
        change m ∈ (if c' = c then f.message.toList else []) at hm
        split_ifs at hm
        · cases f with
          | text m' =>
            cases Option.mem_toList.1 hm
            exact Option.isNone_iff_eq_none.1 he
          | _ => cases hm
        · cases hm
      | _ => cases hm
    refine hw.next hs' (fun _ => rfl) (fun c m r hm hr => ?_) ?_
    · cases (harr c m hm).symm.trans hr
    · intro r p p' k o hp hp' hk htx hpip
      cases hp.symm.trans hp'
      refine hw.piped_step hs' hp hk htx (bytesOf_of_session fun m hm => ?_) hpip
      rw [harr _ m hm]
      simp
  | take c started =>
    unfold Terminals.step at h
    dsimp only at h
    split at h
    next m rest hout =>
      obtain ⟨s', hs', rfl⟩ := Option.map_eq_some_iff.1 h
      have hw' : Wired { y with server := s' } := by
        refine hw.next hs' (fun _ => rfl) (fun c m r hm => ?_)
          fun r p p' k o hp hp' hk htx hpip => ?_
        · cases hm
        · cases hp.symm.trans hp'
          exact hw.piped_step hs' hp hk htx rfl hpip
      cases m with
      | newSession r rows cols term =>
        cases started with
        | false => exact hw'
        | true => exact hw.started hout hs' hw'
      | _ => exact hw'
    next => cases h
  | put r data =>
    obtain ⟨p, hp, rfl⟩ := Option.map_eq_some_iff.1 h
    refine hw.setPty hp rfl fun k o hpip => hpip.imp (fun hf => ?_) fun hd => ?_
    · refine ⟨hf.start.trans (List.prefix_append _ _), fun rest hrest hend => ?_⟩
      unfold Pty.coming at hrest
      split_ifs at hrest with hrun
      cases hrest
      dsimp only at hrun ⊢
      rw [← List.append_assoc, hf.all p.unread (if_pos hrun) hend]
    · exact ⟨hd.start.trans (List.prefix_append _ _), hd.nothing⟩
  | forward r n sent =>
    unfold Terminals.step at h
    dsimp only at h
    split at h
    next p hp =>
      split_ifs at h with hgo
      obtain rfl := Option.some_inj.1 h
      have hcoming : p.coming = some (p.unread.take n ++ p.unread.drop n) := by
        rw [List.take_append_drop]
        exact if_pos hgo.1
      unfold Terminals.forwarded
      cases sent with
      | true =>
        refine hw.sent hp (by rfl) (by rfl) (fun k o s' hk htx hs' hpip => ?_) fun k o hend hpip =>
          hpip.imp (fun hf => hf.lost hend) fun hd => ⟨hd.start, hd.nothing⟩
        rcases hpip with hf | hd
        · rw [hcoming] at hf
          refine .inl ?_
          rw [Pty.coming, if_pos hgo.1]
          exact hf.arrive hs'
        · have hd' := hd.step hw.linked hk (hw.coming_conn hp) hs'
          exact .inr ⟨hd'.start, hd'.nothing⟩
      | false =>
        exact hw.setPty hp rfl fun k o hpip => hpip.imp (fun hf => hf.stop) fun hd =>
          ⟨hd.start, hd.nothing⟩
    next => cases h
  | exit r sent =>
    unfold Terminals.step at h
    dsimp only at h
    split at h
    next p hp =>
      split_ifs at h
      obtain rfl := Option.some_inj.1 h
      have hstop : ∀ {s : Server} {k o}, s.Piped k r o p →
          s.Piped k r o { p with running := false } := fun hpip =>
        hpip.imp (fun hf => hf.stop) fun hd => ⟨hd.start, hd.nothing⟩
      unfold Terminals.exited
      cases sent with
      | true =>
        refine hw.sent hp (by rfl) (by rfl) (fun k o s' hk htx hs' hpip => ?_) fun k o _ hpip =>
          hstop hpip
        refine hstop (hw.piped_step hs' hp hk htx ?_ hpip)
        change bytesOf r (if p.conn = p.conn then [.sessionExit r 0] else []) = []
        rw [if_pos rfl]
        rfl
      | false => exact hw.setPty hp rfl fun k o hpip => hstop hpip
    next => cases h
  | fail r =>
    unfold Terminals.step at h
    dsimp only at h
    split at h
    next p hp =>
      split_ifs at h
      obtain rfl := Option.some_inj.1 h
      exact hw.setPty hp rfl fun k o hpip => hpip.imp (fun hf => hf.stop) fun hd =>
        ⟨hd.start, hd.nothing⟩
    next => cases h
  | read k =>
    unfold Terminals.step at h
    dsimp only at h
    split at h
    · obtain rfl := Option.some_inj.1 h
      split_ifs
      · exact ⟨hw.linked, hw.steady, hw.coming, hw.asked, hw.piped, hw.silent⟩
      · exact hw
    · cases h

theorem of_reach (hr : Reach Terminals.step .initial y) : y.Wired :=
  hr.invariant initial fun _ _ _ hw h => hw.step h

end Wired

/-- **Whatever happens to the daemon, its connections and its entry in the registry, and however the
output of a shell is cut into pieces, what the caller of a session has read is the beginning of what
the shell of this session has put out.** -/
theorem read_prefix (hr : Reach step initial y) (hk : (y.server.call k).requestId = some r) :
    y.readings k <+: y.stream r := by
  have hw := Wired.of_reach hr
  by_cases hout : (y.server.call k).output = []
  · rw [readings, hout, List.take_nil]
    exact List.nil_prefix
  obtain ⟨r', p, hr', hp⟩ := hw.silent k hout
  obtain rfl := Option.some_inj.1 (hr'.symm.trans hk)
  obtain ⟨k', o, hk', -, hpip⟩ := hw.piped r' p hp
  obtain rfl := hw.linked.ids k' k r' hk'.requestId hk
  have hread : y.readings k' <+: (y.server.call k').output.flatten := by
    rw [← List.take_append_drop (y.taken k') (y.server.call k').output, List.flatten_append]
    exact List.prefix_append _ _
  have hstart : (y.server.call k').output.flatten <+: p.stream := by
    rcases hpip with hf | hd
    · exact (List.prefix_append _ _).trans hf.start
    · exact hd.start
  rw [stream, hp]
  exact hread.trans hstart

/-- **As long as the daemon of a session is found in the registry under the connection the session
was opened on, nothing of its output is missing: what the caller has read, what is in its channel,
what has arrived at the server and what the daemon has not read make up what the shell has put
out.** -/
theorem nothing_missing (hr : Reach step initial y) (hp : y.pty r = some p)
    (hrun : p.running = true) (hend : (y.server.task p.conn).ended = false)
    (hl : y.server.LooksUp p.conn o) (hk : (y.server.conn o).sessions.lookup r = some k) :
    y.readings k ++ ((y.server.call k).output.drop (y.taken k)).flatten ++
      bytesOf r (y.server.task p.conn).incoming ++ p.unread = p.stream := by
  have hw := Wired.of_reach hr
  obtain ⟨k', o', hk', htx, hpip⟩ := hw.piped r p hp
  obtain ⟨rfl, rfl⟩ := hk'.of_lookup hw.linked hk
  rcases hpip with hf | hd
  · have hall := hf.all p.unread (if_pos hrun) hend
    rw [← hall, Server.arrived, readings, ← List.flatten_append, List.take_append_drop]
  · exfalso
    rcases hd.nothing with hnone | ⟨hno, -⟩
    · cases hnone.symm.trans hk
    · exact hno hl

/-- A session is opened, its shell puts three bytes out, two of them are sent, and the caller
reads. -/
def sampleSession : List TerminalEvent :=
  [.server (.accept 0),
    .server (.arrive 0 (.text (some (.register "d" ⟨"h", "linux", "x86_64", "0.1.0", ∅⟩)))),
    .server (.next 0), .server (.handle 0), .server (.write 0 true), .take 0 true,
    .server (.begin 0 "d" (.newSession 24 80 "xterm-256color") "r"), .server (.proceed 0),
    .server (.proceed 0), .server (.recv 0), .server (.write 0 true), .take 0 true,
    .put "r" [1, 2, 3], .forward "r" 2 true, .server (.next 0), .server (.handle 0),
    .server (.route 0), .read 0]

def sampleTerminals : Terminals := (run step initial sampleSession).getD initial

theorem sampleTerminals_reach : Reach step initial sampleTerminals := .of_isSome (by decide +kernel)

/-- The theorem there. -/
theorem read_prefix_sample : sampleTerminals.readings 0 = [1, 2] ∧
    sampleTerminals.readings 0 <+: sampleTerminals.stream "r" :=
  ⟨by decide +kernel, read_prefix sampleTerminals_reach (by decide +kernel)⟩

/-- The third byte is still at the daemon. -/
theorem nothing_missing_sample :
    sampleTerminals.readings 0 ++ ((sampleTerminals.server.call 0).output.drop
      (sampleTerminals.taken 0)).flatten ++ bytesOf "r" (sampleTerminals.server.task 0).incoming ++
        [3] = [1, 2, 3] := by
  have hp : sampleTerminals.pty "r" = some ⟨0, [1, 2, 3], [3], true⟩ := by decide +kernel
  have hl : sampleTerminals.server.LooksUp 0 0 := by
    unfold Server.LooksUp
    decide +kernel
  exact nothing_missing sampleTerminals_reach hp rfl (by decide +kernel) hl (by decide +kernel)

end Terminals

end SandD
