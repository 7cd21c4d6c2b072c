import SandD.Daemon.Handle
import SandD.Server.Matching
import SandD.Lib.Chunks

/-!
# Downloads

A daemon reads a file and sends it in chunks; the server collects them in a buffer, and a call
that downloads takes the buffer after five seconds.

* `Whole`: messages that are the chunks of a file, and `whole_iff`: when a daemon sends such;
* `Served`: what arrives on the connections comes from daemons that answer like that;
* `Filling` is the invariant: what is in a buffer, what has arrived and what still comes are among
  the chunks the daemon sends, in their order;
* `downloads_whole_iff`: when every download gives the content of its file or fails.
-/

namespace SandD

open Posix Fallible

/-! ### What the daemon sends -/

/-- The messages are the data in chunks from `offset` on: the offsets follow each other, no chunk
is longer than `chunkSize`, and the final one and no other is flagged as the last. -/
inductive Whole (r : String) : ℕ → List UInt8 → List Message → Prop
  | last {offset : ℕ} {chunk : List UInt8} (hlen : chunk.length ≤ chunkSize) :
      Whole r offset chunk [.fileDownloadChunk r chunk offset true]
  | more {offset : ℕ} {chunk rest : List UInt8} {ms : List Message}
      (hlen : chunk.length ≤ chunkSize) (h : Whole r (offset + chunk.length) rest ms) :
      Whole r offset (chunk ++ rest) (.fileDownloadChunk r chunk offset false :: ms)

/-- The data of the chunks for a request. -/
def chunksOf (r : String) (ms : List Message) : List (List UInt8) :=
  ms.filterMap fun m =>
    match m with
    | .fileDownloadChunk r' data _ _ => if r' = r then some data else none
    | _ => none

/-- The message that carries the chunk with number `i` of a file of the given length. -/
def chunkMessage (r : String) (length : ℕ) (chunk : List UInt8) (i : ℕ) : Message :=
  .fileDownloadChunk r chunk (i * chunkSize) (decide (length ≤ (i + 1) * chunkSize))

section

variable {σ : Type} {h : Program.Handler DaemonOp DaemonOp.Res σ} {r path : String}
  {data : List UInt8} {s : σ}

theorem whole_ne_nil {offset : ℕ} {ms : List Message} (hw : Whole r offset data ms) : ms ≠ [] := by
  cases hw with
  | last => exact List.cons_ne_nil _ _
  | more => exact List.cons_ne_nil _ _

theorem chunksOf_append (ms ms' : List Message) :
    chunksOf r (ms ++ ms') = chunksOf r ms ++ chunksOf r ms' :=
  List.filterMap_append

theorem chunksOf_singleton {offset : ℕ} {last : Bool} :
    chunksOf r [.fileDownloadChunk r data offset last] = [data] :=
  List.filterMap_cons_some (if_pos rfl)

/-- The chunks of a file in order, each with its number, are whole. -/
theorem whole_of_chunked {rest : List UInt8} {L : List (List UInt8)}
    (hL : Chunked chunkSize rest L) : ∀ i, Whole r (i * chunkSize) rest
      ((L.zipIdx i).map fun x => chunkMessage r (i * chunkSize + rest.length) x.1 x.2) := by
  induction hL with
  | @last chunk hne hlen =>
    intro i
    have hlast : i * chunkSize + chunk.length ≤ (i + 1) * chunkSize := by
      rw [Nat.succ_mul]
      omega
    rw [List.zipIdx_singleton, List.map_singleton, chunkMessage, decide_eq_true hlast]
    exact .last hlen
  | @more chunk rest L hlen hL ih =>
    intro i
    have hpos := List.length_pos_of_ne_nil hL.ne_nil
    have hmore : ¬ i * chunkSize + (chunk ++ rest).length ≤ (i + 1) * chunkSize := by
      rw [List.length_append, Nat.succ_mul]
      omega
    have hnext : i * chunkSize + (chunk ++ rest).length = (i + 1) * chunkSize + rest.length := by
      rw [List.length_append, hlen, Nat.succ_mul]
      omega
    rw [List.zipIdx_cons, List.map_cons, chunkMessage, decide_eq_false hmore, hnext]
    refine .more hlen.le ?_
    have hoffset : i * chunkSize + chunk.length = (i + 1) * chunkSize := by
      rw [hlen, Nat.succ_mul]
    rw [hoffset]
    exact ih (i + 1)

/-- Messages that are sent one after the other. -/
theorem exec_forM_send (hsend : ∀ m s, (h (.send m) s).1 = .ok ()) {α : Type} (f : α → Message)
    (xs : List α) : ∀ (s : σ) (l : List Message),
      (Fallible.exec (logged h) (xs.forM fun x => DaemonM.op (.send (f x))) (s, l)).2.2 =
        l ++ xs.map f := by
  induction xs with
  | nil => exact fun s l => (List.append_nil l).symm
  | cons x xs ih =>
    intro s l
    have hok : Fallible.exec (logged h) (DaemonM.op (.send (f x))) (s, l) =
        (.ok (), (h (.send (f x)) s).2, l ++ [f x]) := by
      rw [exec_logged]
      show (_, _, l ++ DaemonOp.sent (.send (f x)) (h (.send (f x)) s).1) = _
      rw [hsend]
      rfl
    show (Fallible.exec (logged h) (DaemonM.op (.send (f x)) >>= fun _ =>
      xs.forM fun x => DaemonM.op (.send (f x))) (s, l)).2.2 = _
    rw [exec_bind, hok]
    dsimp only
    rw [ih, List.map_cons, List.append_assoc]
    rfl

theorem handleMessage_fileDownloadStart :
    handleMessage (.fileDownloadStart r path) =
      attempt (DaemonM.op (.readFile path)) >>= fun result =>
        match result with
        | .ok data => sendChunks r data
        | .error e => DaemonM.op (.send (.fileDownloadError r e)) := rfl

/-- A daemon sends the chunks of what it has read. -/
theorem sent_of_read (hsend : ∀ m s, (h (.send m) s).1 = .ok ())
    (hread : (h (.readFile path) s).1 = .ok data) :
    sent h (.fileDownloadStart r path) s =
      (data.toChunks chunkSize).zipIdx.map fun x => chunkMessage r data.length x.1 x.2 := by
  rw [sent, handleMessage_fileDownloadStart, exec_bind, exec_attempt, exec_logged, hread]
  exact exec_forM_send hsend (fun x : List UInt8 × ℕ => chunkMessage r data.length x.1 x.2) _ _ _

/-- **The chunks a daemon sends for a file are whole if and only if the file is not empty.** -/
theorem whole_iff (hsend : ∀ m s, (h (.send m) s).1 = .ok ())
    (hread : (h (.readFile path) s).1 = .ok data) :
    Whole r 0 data (sent h (.fileDownloadStart r path) s) ↔ data ≠ [] := by
  rw [sent_of_read hsend hread]
  constructor
  · rintro hw rfl
    exact whole_ne_nil hw rfl
  · intro hne
    have hw := whole_of_chunked (r := r) (chunked_toChunks (n := chunkSize) (by decide) hne) 0
    rwa [Nat.zero_mul, Nat.zero_add] at hw

/-- A daemon that cannot read sends the error. -/
theorem sent_of_unread (hsend : ∀ m s, (h (.send m) s).1 = .ok ()) {e : String}
    (hread : (h (.readFile path) s).1 = .error e) :
    sent h (.fileDownloadStart r path) s = [.fileDownloadError r e] := by
  rw [sent, handleMessage_fileDownloadStart, exec_bind, exec_attempt, exec_logged, hread]
  exact exec_send hsend _

/-- What a daemon that reads sends, as chunks. -/
theorem chunksOf_of_read (hsend : ∀ m s, (h (.send m) s).1 = .ok ())
    (hread : (h (.readFile path) s).1 = .ok data) :
    chunksOf r (sent h (.fileDownloadStart r path) s) = data.toChunks chunkSize := by
  rw [sent_of_read hsend hread, chunksOf, List.filterMap_map]
  have hsome : ((fun m => match m with
      | .fileDownloadChunk r' data _ _ => if r' = r then some data else none
      | _ => none) ∘ fun x : List UInt8 × ℕ => chunkMessage r data.length x.1 x.2) =
        some ∘ Prod.fst := by
    funext x
    exact if_pos rfl
  rw [hsome, List.filterMap_eq_map, List.zipIdx_map_fst]

end

/-! ### What arrives -/

/-- What arrives comes from daemons that answer as `sent` says: the message with the request id `r`
asks for the file `(asked r).1` and finds its daemon in the state `(asked r).2`, and the chunks sent
for it arrive in their order, on the connection `via r`. -/
structure Served {σ : Type} (h : Program.Handler DaemonOp DaemonOp.Res σ)
    (asked : String → String × σ) (via : String → TaskId) (es : List Event) : Prop where
  path : ∀ k id path r, Event.begin k id (.downloadFile path) r ∈ es → (asked r).1 = path
  chunks : ∀ r, chunksOf r (arrivals (via r) es) <+:
    chunksOf r (sent h (.fileDownloadStart r (asked r).1) (asked r).2)
  other : ∀ r c, c ≠ via r → chunksOf r (arrivals c es) = []

/-- The buffers of a connection are buffers it had, or new. -/
def DaemonConnection.BuffersKept (conn conn' : DaemonConnection) : Prop :=
  ∀ r t', conn'.fileTransfers.lookup r = some t' →
    t'.chunks = [] ∨ ∃ t, conn.fileTransfers.lookup r = some t ∧ t'.chunks = t.chunks

namespace DaemonConnection

variable {conn conn' conn'' : DaemonConnection} {time : ℕ} {r : String}

theorem BuffersKept.of_eq (h : conn'.fileTransfers = conn.fileTransfers) :
    conn.BuffersKept conn' :=
  fun _ t' ht' => .inr ⟨t', h ▸ ht', rfl⟩

theorem BuffersKept.trans (h : conn.BuffersKept conn') (h' : conn'.BuffersKept conn'') :
    conn.BuffersKept conn'' := by
  intro r t'' ht''
  rcases h' r t'' ht'' with hnil | ⟨t', ht', hchunks'⟩
  · exact .inl hnil
  · rcases h r t' ht' with hnil | ⟨t, ht, hchunks⟩
    · exact .inl (hchunks'.trans hnil)
    · exact .inr ⟨t, ht, hchunks'.trans hchunks⟩

theorem respectedApart_buffersKept : RespectedApart time BuffersKept where
  refl _ := .of_eq rfl
  trans := .trans
  dropped _ r _ ht' := (Option.some_ne_none _ (ht'.symm.trans (Finmap.lookup_empty r))).elim
  updateHeartbeat _ := .of_eq rfl
  registerRequest _ _ _ := .of_eq rfl
  completeRequest _ _ := .of_eq rfl
  registerSession _ _ _ := .of_eq rfl
  closeSession _ _ := .of_eq rfl
  startFileTransfer conn r path n := by
    intro r' t' ht'
    by_cases hr : r' = r
    · subst hr
      rw [startFileTransfer, Finmap.lookup_insert, Option.some_inj] at ht'
      exact .inl (ht' ▸ rfl)
    · rw [startFileTransfer, Finmap.lookup_insert_of_ne _ hr] at ht'
      exact .inr ⟨t', ht', rfl⟩
  completeFileTransfer conn r := by
    intro r' t' ht'
    rw [completeFileTransfer, StringMap.lookup_erase_eq_ite] at ht'
    split_ifs at ht'
    exact .inr ⟨t', ht', rfl⟩

/-- A chunk goes into the buffer of its request. -/
theorem addFileChunk_lookup {data : List UInt8} {r' : String} {t' : FileTransfer}
    (h : (conn.addFileChunk r data).fileTransfers.lookup r' = some t') :
    ∃ t, conn.fileTransfers.lookup r' = some t ∧
      (t'.chunks = t.chunks ∨ r' = r ∧ t'.chunks = t.chunks ++ [data]) := by
  unfold addFileChunk at h
  split at h
  next t ht =>
    by_cases hr : r' = r
    · subst hr
      rw [Finmap.lookup_insert, Option.some_inj] at h
      exact ⟨t, ht, .inr ⟨rfl, h ▸ rfl⟩⟩
    · rw [Finmap.lookup_insert_of_ne _ hr] at h
      exact ⟨t', h, .inl rfl⟩
  next => exact ⟨t', h, .inl rfl⟩

end DaemonConnection

/-- The call downloads a file, under a request id. -/
structure Call.Downloads (call : Call) (path r : String) : Prop where
  method : call.method = .downloadFile path
  requestId : call.requestId = some r

namespace Server

variable {s s' : Server} {e : Event} {es : List Event} {c : TaskId} {o : ConnRef} {k : CallId}
  {r path : String}

/-- A buffer is new, or was there before and has taken in at most a chunk that a task routes. -/
theorem buffer_step (h : s.step e = some s') {t' : FileTransfer}
    (ht' : (s'.conn o).fileTransfers.lookup r = some t') :
    t'.chunks = [] ∨ ∃ t, (s.conn o).fileTransfers.lookup r = some t ∧
      (t'.chunks = t.chunks ∨ ∃ c data offset last, e = .route c ∧
        (s.task c).phase = .routing (.fileDownloadChunk r data offset last) o ∧
        t'.chunks = t.chunks ++ [data]) := by
  by_cases he : ∃ c, e = .route c
  · obtain ⟨c, rfl⟩ := he
    unfold Server.step at h
    dsimp only at h
    split at h
    next m o' hp =>
      obtain rfl := Option.some_inj.1 h
      have hrel := release_rel (s := s.onConnection m o')
        DaemonConnection.respectedApart_buffersKept (.task c) o' o r t' ht'
      rcases hrel with hnil | ⟨t₁, ht₁, hchunks⟩
      · exact .inl hnil
      rw [hchunks]
      by_cases ho : o = o'
      case neg =>
        rw [onConnection_conn_ne ho] at ht₁
        exact .inr ⟨t₁, ht₁, .inl rfl⟩
      subst ho
      by_cases hm : ∃ r' data offset last, m = .fileDownloadChunk r' data offset last
      · obtain ⟨r', data, offset, last, rfl⟩ := hm
        rw [onConnection, setConn_conn, Function.update_self] at ht₁
        obtain ⟨t, ht, hsame | ⟨rfl, hadd⟩⟩ := DaemonConnection.addFileChunk_lookup ht₁
        · exact .inr ⟨t, ht, .inl hsame⟩
        · exact .inr ⟨t, ht, .inr ⟨c, data, offset, last, rfl, hp, hadd⟩⟩
      · have hkept := onConnection_rel DaemonConnection.respectedApart_buffersKept (s := s) (o := o)
          (fun r' data offset last hm' => absurd ⟨r', data, offset, last, hm'⟩ hm) o
        exact (hkept r t₁ ht₁).imp_right fun ⟨t, ht, hsame⟩ => ⟨t, ht, .inl hsame⟩
    next => cases h
  · rcases conn_step_rel_of_ne DaemonConnection.respectedApart_buffersKept h
      (fun c hc => he ⟨c, hc⟩) o with hkept | ⟨-, c, id, md, -, -, -, hnew⟩
    · exact (hkept r t' ht').imp_right fun ⟨t, ht, hchunks⟩ => ⟨t, ht, .inl hchunks⟩
    · rcases hnew r t' ht' with hnil | ⟨t, ht, -⟩
      · exact .inl hnil
      · cases ht.symm.trans (Finmap.lookup_empty r)

/-! ### Calls that download -/

/-- The step of a download that does not wait. -/
theorem proceed_download (hs : Linked s) (h : s.proceed k = some s')
    (hd : (s'.call k).Downloads path r) : (s.call k).Downloads path r ∧
      ∀ data, (s'.call k).phase ≠ .returned (.ok (.bytes data)) := by
  obtain ⟨hm, hr⟩ := hd
  unfold Server.proceed at h
  dsimp only at h
  split at h
  case h_1 o r' ask _ _ hm' =>
    obtain rfl := Option.some_inj.1 h
    rw [setCall_call, Function.update_self] at hm
    cases hm'.symm.trans hm
  case h_2 o r' rows cols term _ _ hm' =>
    obtain rfl := Option.some_inj.1 h
    rw [setCall_call, Function.update_self] at hm
    cases hm'.symm.trans hm
  case h_3 o r' path' _ _ _ =>
    obtain rfl := Option.some_inj.1 h
    rw [setCall_call, Function.update_self] at hm hr ⊢
    exact ⟨⟨hm, hr⟩, nofun⟩
  case h_4 o r' b _ _ hm' =>
    obtain rfl := Option.some_inj.1 h
    cases hm'.symm.trans ((returns_kept_self hs _).method.symm.trans hm)
  case h_5 o r' b posting rest _ _ hm' =>
    obtain rfl := Option.some_inj.1 h
    have hs' := hs.post (k := k) (by rw [hm']; rfl) b rest
    have hsend := callSend_self hs' o k (posting.message r') (sendError posting.sending) (.found o)
    rw [setCall_call, Function.update_self] at hsend
    rcases hsend with ⟨-, hk⟩ | ⟨-, hk⟩
    · cases hk.method.symm.trans hm
    · cases hk.method.symm.trans hm
  case h_6 o r' ask _ _ hm' =>
    obtain rfl := Option.some_inj.1 h
    rcases callSend_self hs o k (ask.call.message r') (sendError ask.call.sending)
      (.waiting o s.time) with ⟨-, hk⟩ | ⟨-, hk⟩
    · cases hm'.symm.trans (hk.method.symm.trans hm)
    · cases hm'.symm.trans (hk.method.symm.trans hm)
  case h_7 o r' rows cols term _ _ hm' =>
    obtain rfl := Option.some_inj.1 h
    rcases callSend_self hs o k (.newSession r' rows cols term)
      (sendError "Failed to start session") (.returned (.ok (.session r'))) with ⟨-, hk⟩ | ⟨-, hk⟩
    · cases hm'.symm.trans (hk.method.symm.trans hm)
    · cases hm'.symm.trans (hk.method.symm.trans hm)
  case h_8 o r' path' _ _ _ =>
    obtain rfl := Option.some_inj.1 h
    rcases callSend_self hs o k (.fileDownloadStart r' path')
      (sendError "Failed to start download") (.waiting o s.time) with ⟨-, hk⟩ | ⟨-, hk⟩
    · exact ⟨⟨hk.method.symm.trans hm, hk.requestId.symm.trans hr⟩,
        fun data hp => nomatch hk.phase.symm.trans hp⟩
    · exact ⟨⟨hk.method.symm.trans hm, hk.requestId.symm.trans hr⟩,
        fun data hp => nomatch hk.phase.symm.trans hp⟩
  case h_9 => cases h

/-- What goes on has waited, and is the same call. -/
theorem resume_self (hs : Linked s) (h : s.resume k = some s') :
    (∃ o since, (s.call k).phase = .waiting o since) ∧
      (s'.call k).method = (s.call k).method ∧ (s'.call k).requestId = (s.call k).requestId := by
  unfold Server.resume at h
  dsimp only at h
  split at h
  next o since ask m hp _ _ =>
    obtain rfl := Option.some_inj.1 h
    have hk := returns_kept_self (o := o) (k := k) hs (ask.call.result m)
    exact ⟨⟨o, since, hp⟩, hk.method, hk.requestId⟩
  next o since ask hp _ _ =>
    obtain rfl := Option.some_inj.1 h
    have hk := returns_kept_self (o := o) (k := k) hs (.error (.runtimeError ask.call.closed))
    exact ⟨⟨o, since, hp⟩, hk.method, hk.requestId⟩
  next _ o since _ hp _ =>
    split at h
    next r _ =>
      split_ifs at h
      obtain rfl := Option.some_inj.1 h
      have hs' := hs.setConn (o := o) ((s.conn o).completeFileTransfer r).2 rfl rfl fun _ _ h => h
      exact ⟨⟨o, since, hp⟩, (returns_kept_self hs' _).method, (returns_kept_self hs' _).requestId⟩
    next => cases h
  next => cases h

/-- A download that waits takes what its buffer holds. -/
theorem resume_download (hs : Linked s) (h : s.resume k = some s') {since : ℕ}
    (hd : (s.call k).Downloads path r) (hp : (s.call k).phase = .waiting o since) :
    (s'.call k).Downloads path r ∧ (s'.call k).phase = .returned
      (match (s.conn o).fileTransfers.lookup r with
      | some t => .ok (.bytes t.chunks.flatten)
      | none => .error (.runtimeError "File transfer did not complete")) := by
  obtain ⟨hm, hr⟩ := hd
  unfold Server.resume at h
  dsimp only at h
  rw [hp, hm] at h
  dsimp only at h
  rw [hr] at h
  dsimp only at h
  split_ifs at h
  obtain rfl := Option.some_inj.1 h
  have hs' := hs.setConn (o := o) ((s.conn o).completeFileTransfer r).2 rfl rfl fun _ _ h => h
  refine ⟨⟨(returns_kept_self hs' _).method.trans hm, (returns_kept_self hs' _).requestId.trans hr⟩,
    (returns_kept_self hs' _).phase.trans ?_⟩
  rw [DaemonConnection.completeFileTransfer]
  cases (s.conn o).fileTransfers.lookup r <;> rfl

/-- A download is begun, or was one before; it gives bytes only when it has waited for them. -/
theorem download_step (hs : Linked s) (h : s.step e = some s')
    (hd : (s'.call k).Downloads path r) :
    (∃ id, e = .begin k id (.downloadFile path) r ∧ (s'.call k).phase.conn ≠ none) ∨
      (s.call k).Downloads path r ∧
        ((s'.call k).phase = (s.call k).phase ∨
          (∀ data, (s'.call k).phase ≠ .returned (.ok (.bytes data))) ∨
          e = .resume k ∧ ∃ o since, (s.call k).phase = .waiting o since) := by
  by_cases hproceed : e = .proceed k
  · subst hproceed
    obtain ⟨hd', hp⟩ := proceed_download hs h hd
    exact .inr ⟨hd', .inr (.inl hp)⟩
  by_cases hresume : e = .resume k
  · subst hresume
    obtain ⟨hp, hm, hr⟩ := resume_self hs h
    exact .inr ⟨⟨hm.symm.trans hd.method, hr.symm.trans hd.requestId⟩, .inr (.inr ⟨rfl, hp⟩)⟩
  have hcall := call_step hs h k
  obtain ⟨hm, hr⟩ := hd
  generalize s'.call k = call' at hcall hm hr
  cases hcall with
  | kept hk =>
    exact .inr ⟨⟨hk.method.symm.trans hm, hk.requestId.symm.trans hr⟩, .inl hk.phase⟩
  | received _ _ _ _ hc =>
    subst hc
    exact .inr ⟨⟨hm, hr⟩, .inl rfl⟩
  | @found id method r' o' _ _ _ hc =>
    subst hc
    obtain rfl : method = .downloadFile path := hm
    obtain rfl := Option.some_inj.1 hr
    exact .inl ⟨id, rfl, Option.some_ne_none o'⟩
  | notFound hp hc =>
    subst hc
    cases ((hs.calls k).idle hp).1.symm.trans hr
  | registered => exact absurd rfl hproceed
  | posted => exact absurd rfl hproceed
  | waits => exact absurd rfl hproceed
  | returned _ hends hm' hk =>
    obtain ⟨ask, hrequest⟩ : ∃ ask, (s.call k).method = .request ask := by
      cases hends with
      | response hrequest => exact ⟨_, hrequest⟩
      | closed hrequest => exact ⟨_, hrequest⟩
      | timedOut hrequest => exact ⟨_, hrequest⟩
      | unsent hrequest => exact ⟨_, hrequest⟩
      | other _ he => exact (he.elim hproceed hresume).elim
    rcases hm' with rfl | ⟨-, hno⟩
    · cases hrequest.symm.trans (hk.method.symm.trans hm)
    · rw [hrequest] at hno
      cases hno

/-! ### Buffers over a run -/

/-- What is in a buffer, what has arrived and is not dealt with, and what still arrives are among
the chunks that are sent, in their order. -/
structure Filling (sends : String → List (List UInt8)) (via : String → TaskId) (s : Server)
    (es : List Event) : Prop where
  coming : ∀ r, (chunksOf r ((s.task (via r)).incoming ++ arrivals (via r) es)).Sublist (sends r)
  other : ∀ r c, c ≠ via r → chunksOf r ((s.task c).incoming ++ arrivals c es) = []
  buffer : ∀ o r t, (s.conn o).fileTransfers.lookup r = some t →
    (t.chunks ++ chunksOf r ((s.task (via r)).incoming ++ arrivals (via r) es)).Sublist (sends r)

/-- What a task has dealt with is no longer to come. -/
theorem coming_step (h : s.step e = some s') (es : List Event) (c : TaskId) :
    ∃ done, (s.task c).incoming ++ arrivals c (e :: es) =
        done ++ ((s'.task c).incoming ++ arrivals c es) ∧
      ∀ m o, e = .route c → (s.task c).phase = .routing m o → done = [m] := by
  obtain ⟨done, hin, hdone⟩ := taken_step (c := c) h
  refine ⟨done, ?_, fun m o he hp => ?_⟩
  · rw [arrivals, List.flatMap_cons, ← List.append_assoc, hin, List.append_assoc]
    rfl
  · rcases hdone with ⟨hne, -⟩ | ⟨m', o', -, hp', rfl⟩
    · exact absurd he hne
    · cases hp.symm.trans hp'
      rfl

namespace Filling

variable {sends : String → List (List UInt8)} {via : String → TaskId}

theorem coming_of (hf : Filling sends via s (e :: es)) (h : s.step e = some s') (r : String) :
    (chunksOf r ((s'.task (via r)).incoming ++ arrivals (via r) es)).Sublist (sends r) := by
  obtain ⟨done, hin, -⟩ := coming_step h es (via r)
  have hcoming := hf.coming r
  rw [hin, chunksOf_append] at hcoming
  exact (List.sublist_append_right _ _).trans hcoming

/-- A chunk is routed by the task that the chunks of its request come to. -/
theorem routes (hf : Filling sends via s es) {data : List UInt8} {offset : ℕ} {last : Bool}
    (hp : (s.task c).phase = .routing (.fileDownloadChunk r data offset last) o) : c = via r := by
  by_contra hc
  have hother := hf.other r c hc
  unfold Task.incoming at hother
  rw [hp, List.append_assoc, chunksOf_append] at hother
  have hnil : chunksOf r [.fileDownloadChunk r data offset last] = [] :=
    (List.append_eq_nil_iff.1 hother).1
  cases chunksOf_singleton.symm.trans hnil

theorem step (hf : Filling sends via s (e :: es)) (h : s.step e = some s') :
    Filling sends via s' es where
  coming := hf.coming_of h
  other r c hc := by
    obtain ⟨done, hin, -⟩ := coming_step h es c
    have hother := hf.other r c hc
    rw [hin, chunksOf_append] at hother
    exact (List.append_eq_nil_iff.1 hother).2
  buffer o r t' ht' := by
    rcases buffer_step h ht' with hnil | ⟨t, ht, hchunks⟩
    · rw [hnil]
      exact hf.coming_of h r
    obtain ⟨done, hin, hdone⟩ := coming_step h es (via r)
    have hbuffer := hf.buffer o r t ht
    rw [hin, chunksOf_append] at hbuffer
    rcases hchunks with hsame | ⟨c, data, offset, last, rfl, hp, hadd⟩
    · rw [hsame]
      exact ((List.Sublist.refl _).append (List.sublist_append_right _ _)).trans hbuffer
    · obtain rfl := hf.routes hp
      rw [hdone _ _ rfl hp, chunksOf_singleton] at hbuffer
      rwa [hadd, List.append_assoc]

end Filling

/-- The requests of downloads are those that daemons are asked. -/
def AskedRight {σ : Type} (asked : String → String × σ) (s : Server) (es : List Event) : Prop :=
  (∀ k path r, (s.call k).Downloads path r → (asked r).1 = path) ∧
    ∀ k id path r, Event.begin k id (.downloadFile path) r ∈ es → (asked r).1 = path

theorem AskedRight.step {σ : Type} {asked : String → String × σ} (hs : Linked s)
    (ha : AskedRight asked s (e :: es)) (h : s.step e = some s') : AskedRight asked s' es := by
  refine ⟨fun k path r hd => ?_, fun k id path r hmem =>
    ha.2 k id path r (List.mem_cons_of_mem e hmem)⟩
  rcases download_step hs h hd with ⟨id, rfl, -⟩ | ⟨hd', -⟩
  · exact ha.2 k id path r List.mem_cons_self
  · exact ha.1 k path r hd'

/-! ### The whole -/

/-- Every chunk of the file that was read is in the buffer. -/
def AllThere (source : Except String (List UInt8)) (t : FileTransfer) : Prop :=
  match source with
  | .ok data => t.chunks.length = (data.toChunks chunkSize).length
  | .error _ => False

instance (source : Except String (List UInt8)) (t : FileTransfer) :
    Decidable (AllThere source t) := by
  unfold AllThere
  split <;> infer_instance

/-- A call that takes its buffer finds all the chunks there. -/
def TakesAll {σ : Type} (h : Program.Handler DaemonOp DaemonOp.Res σ)
    (asked : String → String × σ) (s : Server) : Event → Prop
  | .resume k =>
    match (s.call k).phase, (s.call k).method, (s.call k).requestId with
    | .waiting o _, .downloadFile path, some r =>
      match (s.conn o).fileTransfers.lookup r with
      | some t => AllThere (h (.readFile path) (asked r).2).1 t
      | none => True
    | _, _, _ => True
  | _ => True

instance {σ : Type} (h : Program.Handler DaemonOp DaemonOp.Res σ) (asked : String → String × σ)
    (s : Server) (e : Event) : Decidable (TakesAll h asked s e) := by
  unfold TakesAll
  split
  · split
    · split <;> infer_instance
    · infer_instance
  · infer_instance

/-- Every download that has returned bytes has returned what its daemon has read. -/
def DownloadsWhole {σ : Type} (h : Program.Handler DaemonOp DaemonOp.Res σ)
    (asked : String → String × σ) (s : Server) : Prop :=
  ∀ k path r data, (s.call k).Downloads path r →
    (s.call k).phase = .returned (.ok (.bytes data)) →
      (h (.readFile path) (asked r).2).1 = .ok data

section

variable {σ : Type} {h : Program.Handler DaemonOp DaemonOp.Res σ} {asked : String → String × σ}
  {via : String → TaskId}

/-- Chunks among those that are sent are all of them if and only if they give the file. -/
theorem allThere_iff (hsend : ∀ m s, (h (.send m) s).1 = .ok ()) {st : σ} {t : FileTransfer}
    (ht : t.chunks.Sublist (chunksOf r (sent h (.fileDownloadStart r path) st))) :
    AllThere (h (.readFile path) st).1 t ↔ (h (.readFile path) st).1 = .ok t.chunks.flatten := by
  have hpos : 0 < chunkSize := by decide
  cases hread : (h (.readFile path) st).1 with
  | error e => exact ⟨False.elim, nofun⟩
  | ok data =>
    rw [chunksOf_of_read hsend hread] at ht
    constructor
    · intro hall
      rw [ht.eq_of_length hall, flatten_toChunks hpos]
    · intro hdata
      cases hdata
      have heq := eq_of_sublist_of_flatten ht (ne_nil_of_mem_toChunks hpos)
        (flatten_toChunks hpos _).symm
      exact congrArg List.length heq

theorem takesAll_iff_forall : TakesAll h asked s e ↔ ∀ k o since path r t, e = .resume k →
    (s.call k).phase = .waiting o since → (s.call k).Downloads path r →
      (s.conn o).fileTransfers.lookup r = some t →
        AllThere (h (.readFile path) (asked r).2).1 t := by
  unfold TakesAll
  constructor
  · rintro hall k o since path r t rfl hp ⟨hm, hr⟩ ht
    dsimp only at hall
    rw [hp, hm, hr] at hall
    dsimp only at hall
    rw [ht] at hall
    exact hall
  · intro hall
    split
    next k =>
      split
      next o since path r hp hm hr =>
        split
        next t ht => exact hall k o since path r t rfl hp ⟨hm, hr⟩ ht
        next => trivial
      next => trivial
    next => trivial

/-- A step stays among the states with whole downloads if and only if no call takes less. -/
theorem downloadsWhole_step (hsend : ∀ m s, (h (.send m) s).1 = .ok ()) (hs : Linked s)
    (hf : Filling (fun r => chunksOf r (sent h (.fileDownloadStart r (asked r).1) (asked r).2)) via
      s es) (ha : AskedRight asked s es) (hw : DownloadsWhole h asked s)
    (hstep : s.step e = some s') : DownloadsWhole h asked s' ↔ TakesAll h asked s e := by
  have hthere : ∀ {k o path r t}, (s.call k).Downloads path r →
      (s.conn o).fileTransfers.lookup r = some t →
      (AllThere (h (.readFile path) (asked r).2).1 t ↔
        (h (.readFile path) (asked r).2).1 = .ok t.chunks.flatten) := by
    intro k o path r t hd ht
    have hsub := (List.sublist_append_left _ _).trans (hf.buffer o r t ht)
    rw [ha.1 k path r hd] at hsub
    exact allThere_iff hsend hsub
  rw [takesAll_iff_forall]
  constructor
  · rintro hw' k o since path r t rfl hp hd ht
    obtain ⟨hd', hp'⟩ := resume_download hs hstep hd hp
    rw [ht] at hp'
    exact (hthere hd ht).2 (hw' k path r _ hd' hp')
  · intro hall k path r data hd' hp'
    rcases download_step hs hstep hd' with ⟨id, rfl, hc⟩ | ⟨hd, hsame | hno | ⟨rfl, o, since, hp⟩⟩
    · rw [hp'] at hc
      exact absurd rfl hc
    · exact hw k path r data hd (hsame.symm.trans hp')
    · exact absurd hp' (hno data)
    · have hphase := hp'.symm.trans (resume_download hs hstep hd hp).2
      cases ht : (s.conn o).fileTransfers.lookup r with
      | none =>
        rw [ht] at hphase
        cases hphase
      | some t =>
        rw [ht] at hphase
        cases hphase
        exact (hthere hd ht).1 (hall k o since path r t rfl hp hd ht)

/-- **A daemon sends a file in whole chunks if and only if the file is not empty, and sends the
error if it cannot be read.  In a run, every download that does not fail gives what its daemon has
read if and only if no call takes its buffer before all the chunks of a readable file are
there.** -/
theorem downloads_whole_iff (hsend : ∀ m s, (h (.send m) s).1 = .ok ())
    (hserved : Served h asked via es) (hrun : run step initial es = some s') :
    (∀ r path st data, (h (.readFile path) st).1 = .ok data →
      (Whole r 0 data (sent h (.fileDownloadStart r path) st) ↔ data ≠ [])) ∧
    (∀ r path st e, (h (.readFile path) st).1 = .error e →
      sent h (.fileDownloadStart r path) st = [.fileDownloadError r e]) ∧
    (Always step (DownloadsWhole h asked) initial es ↔
      Along step (TakesAll h asked) initial es) := by
  refine ⟨fun r path st data => whole_iff hsend, fun r path st e => sent_of_unread hsend, ?_⟩
  refine always_iff_along (I := fun s es => Linked s ∧
    Filling (fun r => chunksOf r (sent h (.fileDownloadStart r (asked r).1) (asked r).2)) via s es ∧
    AskedRight asked s es) ?_ ?_ hrun ⟨Linked.initial, ?_, ?_⟩ ?_
  · exact fun s e es s' ⟨hs, hf, ha⟩ hstep => ⟨hs.step hstep, hf.step hstep, ha.step hs hstep⟩
  · exact fun s e es s' ⟨hs, hf, ha⟩ hw hstep => downloadsWhole_step hsend hs hf ha hw hstep
  · exact
      { coming := fun r => (hserved.chunks r).sublist
        other := hserved.other
        buffer := fun o r t ht =>
          (Option.some_ne_none t (ht.symm.trans (Finmap.lookup_empty r))).elim }
  · exact ⟨fun k path r hd => (nomatch hd.requestId), hserved.path⟩
  · exact fun k path r data hd => nomatch hd.requestId

end

/-! ### Two runs -/

/-- A daemon with two files. -/
def sampleFiles : Program.Handler DaemonOp DaemonOp.Res Unit
  | .send _, s => (.ok (), s)
  | .readFile path, s =>
    (if path = "/f" then .ok [1, 2, 3] else if path = "/empty" then .ok []
      else .error "No such file or directory (os error 2)", s)
  | _, s => (.error "", s)

/-- A daemon registers, a file is asked for, the response arrives and is dealt with, and the caller
looks after five seconds. -/
def sampleDownload (path : String) (response : Message) (routed : Bool) : List Event :=
  [.accept 0, .arrive 0 (.text (some (.register "d" ⟨"h", "linux", "x86_64", "0.1.0", ∅⟩))),
    .next 0, .handle 0, .write 0 true, .begin 0 "d" (.downloadFile path) "r", .proceed 0,
    .proceed 0, .recv 0, .write 0 true, .arrive 0 (.text (some response)), .next 0, .handle 0] ++
    (if routed then [.route 0, .tick 5, .resume 0] else [.tick 5, .resume 0])

/-- The run in which the file is there. -/
def sampleWhole : List Event := sampleDownload "/f" (.fileDownloadChunk "r" [1, 2, 3] 0 true) true

theorem arrivals_sampleDownload (path : String) (response : Message) (routed : Bool) (c : TaskId) :
    arrivals c (sampleDownload path response routed) =
      if c = 0 then [.register "d" ⟨"h", "linux", "x86_64", "0.1.0", ∅⟩, response] else [] := by
  by_cases hc : c = 0
  · subst hc
    cases routed <;> rfl
  · rw [if_neg hc]
    cases routed <;> simp [arrivals, sampleDownload, Event.arrival, Ne.symm hc]

theorem path_of_mem_sampleDownload {path path' r : String} {response : Message} {routed : Bool}
    {k : CallId} {id : String}
    (h : .begin k id (.downloadFile path') r ∈ sampleDownload path response routed) :
    path = path' := by
  cases routed <;>
  · simp only [sampleDownload, List.mem_append, List.mem_cons, List.not_mem_nil, reduceCtorEq,
      Event.begin.injEq, Method.downloadFile.injEq, Bool.false_eq_true, if_true, if_false,
      false_or, or_false] at h
    exact h.2.2.1.symm

theorem sampleWhole_served :
    Served sampleFiles (fun _ => ("/f", ())) (fun _ => 0) sampleWhole where
  path _ _ _ _ hmem := path_of_mem_sampleDownload hmem
  chunks r := by
    have hread : (sampleFiles (.readFile "/f") ()).1 = .ok [1, 2, 3] := rfl
    rw [chunksOf_of_read (fun _ _ => rfl) hread, sampleWhole, arrivals_sampleDownload, if_pos rfl]
    by_cases hr : "r" = r
    · subst hr
      decide +kernel
    · simp [chunksOf, hr]
  other r c hc := by
    rw [sampleWhole, arrivals_sampleDownload, if_neg hc]
    rfl

theorem sampleWhole_isSome : (run step initial sampleWhole).isSome = true := by decide +kernel

theorem sampleWhole_takesAll :
    Along step (TakesAll sampleFiles fun _ => ("/f", ())) initial sampleWhole := by
  decide +kernel

/-- The theorem at the run in which the file is there. -/
theorem downloads_whole_iff_sample :
    Always step (DownloadsWhole sampleFiles fun _ => ("/f", ())) initial sampleWhole :=
  (downloads_whole_iff (fun _ _ => rfl) sampleWhole_served
    (run_eq_getD sampleWhole_isSome)).2.2.2 sampleWhole_takesAll

/-- The run in which the file cannot be read. -/
def sampleUnread : List Event :=
  sampleDownload "/g" (.fileDownloadError "r" "No such file or directory (os error 2)") false

theorem sampleUnread_served :
    Served sampleFiles (fun _ => ("/g", ())) (fun _ => 0) sampleUnread where
  path _ _ _ _ hmem := path_of_mem_sampleDownload hmem
  chunks r := by
    rw [sampleUnread, arrivals_sampleDownload, if_pos rfl]
    exact List.nil_prefix
  other r c hc := by
    rw [sampleUnread, arrivals_sampleDownload, if_neg hc]
    rfl

/-- A file that cannot be read is returned as an empty one; and of a file that is empty nothing is
sent. -/
theorem unread_returned : (∃ s, run step initial sampleUnread = some s ∧
      Served sampleFiles (fun _ => ("/g", ())) (fun _ => 0) sampleUnread ∧
      (s.call 0).Downloads "/g" "r" ∧ (s.call 0).phase = .returned (.ok (.bytes [])) ∧
      (sampleFiles (.readFile "/g") ()).1 = .error "No such file or directory (os error 2)") ∧
    (sampleFiles (.readFile "/empty") ()).1 = .ok [] ∧
    sent sampleFiles (.fileDownloadStart "r" "/empty") () = [] := by
  refine ⟨⟨_, run_eq_getD (by decide +kernel), sampleUnread_served, ⟨?_, ?_⟩, ?_, ?_⟩, ?_, ?_⟩
  · decide +kernel
  · decide +kernel
  · decide +kernel
  · decide +kernel
  · decide +kernel
  · decide +kernel

end Server

end SandD
