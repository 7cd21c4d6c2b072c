import SandD.Server.Python
import SandD.Snapshot.Destination
import Mathlib.Data.List.Defs

/-!
# The messages a daemon handles

`handle_message` of the daemon, as a program over the operations of its parts: the executor, the
sessions, the snapshot manager, the file system and the socket.  An operation is answered by a
value or by the text of its error.

* `handleMessage`, and `sent`: the messages it sends when its operations are answered by a handler;
* `answered_once_iff`: when a request is answered by exactly one message that its call knows;
* `onDisk`: the handler that carries the operations of the snapshot manager out on a disk.

Messages can always be serialised.
-/

namespace SandD

open Posix Fallible

/-- `CommandOutput`. -/
structure CommandOutput where
  stdout : String
  stderr : String
  exitCode : ℤ
  durationMs : ℕ
  deriving DecidableEq

/-- What `handle_message` uses. -/
inductive DaemonOp
  | execute (command : String) (timeoutSecs : ℕ) (env : StringMap String) (cwd : Option String)
  | newSession (sessionId : String) (rows cols : ℕ) (term : String)
  | sendInput (sessionId : String) (data : List UInt8)
  | resize (sessionId : String) (rows cols : ℕ)
  | closeSession (sessionId : String)
  | readFile (path : String)
  | createSnapshot (workspace : String) (message : Option String) (tags : Option (List String))
  | restoreSnapshot (snapshotId destination : String)
  | listSnapshots (tags : Option (List String))
  | findSnapshotByTag (tag : String)
  | getSnapshot (snapshotId : String)
  | deleteSnapshot (snapshotId : String)
  | send (message : Message)

/-- What an operation gives back when it succeeds. -/
abbrev DaemonOp.Ret : DaemonOp → Type
  | .execute .. => CommandOutput
  | .readFile _ => List UInt8
  | .createSnapshot .. => String
  | .listSnapshots _ => List SnapshotInfo
  | .findSnapshotByTag _ => Option SnapshotInfo
  | .getSnapshot _ => SnapshotInfo
  | _ => Unit

/-- The answer to an operation. -/
abbrev DaemonOp.Res (o : DaemonOp) : Type := Except String o.Ret

/-- The programs of the daemon. -/
abbrev DaemonM (α : Type) := Fallible DaemonOp DaemonOp.Res String α

/-- An operation. -/
def DaemonM.op (o : DaemonOp) : DaemonM o.Ret := perform o

open DaemonM (op)

/-- `CHUNK_SIZE`. -/
def chunkSize : ℕ := 64 * 1024

/-- Send the chunks of a file. -/
def sendChunks (requestId : String) (data : List UInt8) : DaemonM PUnit :=
  (data.toChunks chunkSize).zipIdx.forM fun (chunk, i) =>
    op (.send (.fileDownloadChunk requestId chunk (i * chunkSize)
      (decide (data.length ≤ (i + 1) * chunkSize))))

/-- `handle_message`. -/
def handleMessage : Message → DaemonM Unit
  | .executeCommand requestId command timeoutSecs env cwd => do
    let response := match ← attempt (op (.execute command timeoutSecs env cwd)) with
      | .ok output =>
        .commandOutput requestId output.stdout output.stderr output.exitCode output.durationMs
      | .error e => .commandError requestId e
    op (.send response)
  | .newSession sessionId rows cols term => do
    let response := match ← attempt (op (.newSession sessionId rows cols term)) with
      | .ok _ => .sessionStarted sessionId true none
      | .error e => .sessionStarted sessionId false (some e)
    op (.send response)
  | .sessionInput sessionId data => do
    let _ ← attempt (op (.sendInput sessionId data))
  | .sessionResize sessionId rows cols => do
    let _ ← attempt (op (.resize sessionId rows cols))
  | .sessionClose sessionId => do
    let _ ← attempt (op (.closeSession sessionId))
  | .fileDownloadStart requestId path => do
    match ← attempt (op (.readFile path)) with
    | .ok data => sendChunks requestId data
    | .error e => op (.send (.fileDownloadError requestId e))
  | .createSnapshot requestId workspace message tags => do
    let response ← match ← attempt (op (.createSnapshot workspace message tags)) with
      | .ok snapshotId => do
        let snapshot ← op (.getSnapshot snapshotId)
        pure (.snapshotCreated requestId snapshotId snapshot.fileCount snapshot.totalSize)
      | .error e => pure (.snapshotError requestId e)
    op (.send response)
  | .restoreSnapshot requestId snapshotId destination => do
    let response ← match ← attempt (op (.restoreSnapshot snapshotId destination)) with
      | .ok _ => do
        let snapshot ← op (.getSnapshot snapshotId)
        pure (.snapshotRestored requestId snapshot.fileCount)
      | .error e => pure (.snapshotError requestId e)
    op (.send response)
  | .listSnapshots requestId tags => do
    let response := match ← attempt (op (.listSnapshots tags)) with
      | .ok snapshots => .snapshotList requestId snapshots
      | .error e => .snapshotError requestId e
    op (.send response)
  | .findSnapshotByTag requestId tag => do
    let response := match ← attempt (op (.findSnapshotByTag tag)) with
      | .ok snapshot => .snapshotDetails requestId snapshot
      | .error e => .snapshotError requestId e
    op (.send response)
  | .getSnapshot requestId snapshotId => do
    let response := match ← attempt (op (.getSnapshot snapshotId)) with
      | .ok snapshot => .snapshotDetails requestId (some snapshot)
      | .error e => .snapshotError requestId e
    op (.send response)
  | .deleteSnapshot requestId snapshotId => do
    let response := match ← attempt (op (.deleteSnapshot snapshotId)) with
      | .ok _ => .snapshotDeleted requestId
      | .error e => .snapshotError requestId e
    op (.send response)
  -- uploads are only logged
  | _ => pure ()

variable {σ : Type}

/-- The message an operation has sent. -/
def DaemonOp.sent : (o : DaemonOp) → o.Res → List Message
  | .send m, .ok _ => [m]
  | _, _ => []

/-- Answer as `h` does, and keep a list of the messages sent. -/
def logged (h : Program.Handler DaemonOp DaemonOp.Res σ) :
    Program.Handler DaemonOp DaemonOp.Res (σ × List Message) :=
  fun o s => ((h o s.1).1, (h o s.1).2, s.2 ++ o.sent (h o s.1).1)

/-- The messages `handle_message` sends. -/
def sent (h : Program.Handler DaemonOp DaemonOp.Res σ) (m : Message) (s : σ) : List Message :=
  (Fallible.exec (logged h) (handleMessage m) (s, [])).2.2

/-! ### One answer to a request -/

/-- After the snapshot was created or restored, it cannot be looked up. -/
def Unanswered (h : Program.Handler DaemonOp DaemonOp.Res σ) (s : σ) : Ask → Prop
  | .createSnapshot workspace message tags => ∃ id s' e,
    h (.createSnapshot workspace message tags) s = (.ok id, s') ∧
      (h (.getSnapshot id) s').1 = .error e
  | .restoreSnapshot snapshotId destination => ∃ s' e,
    h (.restoreSnapshot snapshotId destination) s = (.ok (), s') ∧
      (h (.getSnapshot snapshotId) s').1 = .error e
  | _ => False

section

variable {h : Program.Handler DaemonOp DaemonOp.Res σ} {s : σ} {l : List Message}

theorem exec_logged (o : DaemonOp) :
    Fallible.exec (logged h) (op o) (s, l) = ((h o s).1, (h o s).2, l ++ o.sent (h o s).1) := rfl

/-- A response that is sent is all that is sent after it. -/
theorem exec_send (hsend : ∀ m s, (h (.send m) s).1 = .ok ()) (m : Message) :
    (Fallible.exec (logged h) (op (.send m)) (s, l)).2.2 = l ++ [m] := by
  rw [exec_logged]
  show l ++ DaemonOp.sent (.send m) (h (.send m) s).1 = _
  rw [hsend]
  rfl

/-- An operation that sends nothing, and a response made of its result. -/
theorem exec_respond (hsend : ∀ m s, (h (.send m) s).1 = .ok ()) (o : DaemonOp)
    (ho : ∀ r : o.Res, o.sent r = []) (f : o.Res → Message) :
    (Fallible.exec (logged h) (attempt (op o) >>= fun r => op (.send (f r))) (s, [])).2.2 =
      [f (h o s).1] := by
  rw [exec_bind, exec_attempt, exec_logged, ho]
  exact exec_send hsend _

/-- An operation, when it has succeeded the look-up of a snapshot, and a response made of both. -/
theorem exec_respond_lookUp (hsend : ∀ m s, (h (.send m) s).1 = .ok ()) (o : DaemonOp)
    (ho : ∀ r : o.Res, o.sent r = []) {p : DaemonM Unit} {k : o.Res → DaemonM Unit}
    (id : o.Ret → String) (f : o.Ret → SnapshotInfo → Message) (g : String → Message)
    (hp : p = attempt (op o) >>= k)
    (hok : ∀ a, k (.ok a) = op (.getSnapshot (id a)) >>= fun snapshot => op (.send (f a snapshot)))
    (herror : ∀ e, k (.error e) = op (.send (g e))) :
    (Fallible.exec (logged h) p (s, [])).2.2 =
      match h o s with
      | (.ok a, s') =>
        match (h (.getSnapshot (id a)) s').1 with
        | .ok snapshot => [f a snapshot]
        | .error _ => []
      | (.error e, _) => [g e] := by
  rw [hp, exec_bind, exec_attempt, exec_logged, ho]
  rcases h o s with ⟨e | a, s'⟩
  · dsimp only
    rw [herror]
    exact exec_send hsend _
  · dsimp only
    rw [hok, exec_bind, exec_logged]
    rcases h (.getSnapshot (id a)) s' with ⟨e | snapshot, s''⟩
    · rfl
    · exact exec_send hsend _

/-- A snapshot that is restored and cannot be looked up then is not answered. -/
theorem sent_restoreSnapshot_none (hsend : ∀ m s, (h (.send m) s).1 = .ok ()) {s' : σ}
    {id dest r : String} (hrun : h (.restoreSnapshot id dest) s = (.ok (), s'))
    (hlost : (h (.getSnapshot id) s').1.isOk = false) :
    sent h ((Ask.restoreSnapshot id dest).call.message r) s = [] := by
  have hsent : sent h ((Ask.restoreSnapshot id dest).call.message r) s = _ :=
    exec_respond_lookUp hsend (.restoreSnapshot id dest) (fun _ => rfl) (fun _ => id)
      (fun _ snapshot => .snapshotRestored r snapshot.fileCount) (fun e => .snapshotError r e) rfl
      (fun _ => rfl) fun _ => rfl
  rw [hsent, hrun]
  dsimp only
  cases hget : (h (.getSnapshot id) s').1 with
  | error e => rfl
  | ok snapshot =>
    rw [hget] at hlost
    cases hlost

end

/-- **A request is answered by exactly one message, with its request id and of a kind its call
knows, if and only if it does not create or restore a snapshot that cannot be looked up then.** -/
theorem answered_once_iff {h : Program.Handler DaemonOp DaemonOp.Res σ}
    (hsend : ∀ m s, (h (.send m) s).1 = .ok ()) (ask : Ask) (r : String) (s : σ) :
    (∃ m, sent h (ask.call.message r) s = [m] ∧ m.answers = some r ∧
      (ask.call.receive m).isSome = true) ↔ ¬ Unanswered h s ask := by
  have hone : ∀ {a : Ask} {m : Message}, sent h (a.call.message r) s = [m] →
      m.answers = some r → (a.call.receive m).isSome = true → ¬ Unanswered h s a →
      ((∃ m, sent h (a.call.message r) s = [m] ∧ m.answers = some r ∧
        (a.call.receive m).isSome = true) ↔ ¬ Unanswered h s a) :=
    fun hm hr hk hn => ⟨fun _ => hn, fun _ => ⟨_, hm, hr, hk⟩⟩
  have hnone : ∀ {a : Ask}, sent h (a.call.message r) s = [] → Unanswered h s a →
      ((∃ m, sent h (a.call.message r) s = [m] ∧ m.answers = some r ∧
        (a.call.receive m).isSome = true) ↔ ¬ Unanswered h s a) := by
    intro a hm hn
    refine ⟨fun ⟨m, hm', _⟩ => ?_, fun h => absurd hn h⟩
    cases hm.symm.trans hm'
  cases ask with
  | exec command timeout env cwd =>
    refine hone (exec_respond hsend (.execute command timeout env cwd) (fun _ => rfl) _) ?_ ?_
      nofun <;>
    cases (h (.execute command timeout env cwd) s).1 <;> rfl
  | createSnapshot workspace message tags =>
    have hsent : sent h ((Ask.createSnapshot workspace message tags).call.message r) s = _ :=
      exec_respond_lookUp hsend (.createSnapshot workspace message tags) (fun _ => rfl)
        (fun id => id)
        (fun id snapshot => .snapshotCreated r id snapshot.fileCount snapshot.totalSize)
        (fun e => .snapshotError r e) rfl (fun _ => rfl) fun _ => rfl
    rcases hc : h (.createSnapshot workspace message tags) s with ⟨e | id, s'⟩
    · rw [hc] at hsent
      dsimp only at hsent
      refine hone hsent rfl rfl ?_
      rintro ⟨id, s₁, e₁, h₁, -⟩
      cases hc.symm.trans h₁
    · rw [hc] at hsent
      dsimp only at hsent
      cases hg : (h (.getSnapshot id) s').1 with
      | error e =>
        rw [hg] at hsent
        dsimp only at hsent
        exact hnone hsent ⟨id, s', e, hc, hg⟩
      | ok snapshot =>
        rw [hg] at hsent
        dsimp only at hsent
        refine hone hsent rfl rfl ?_
        rintro ⟨id₁, s₁, e₁, h₁, h₂⟩
        cases hc.symm.trans h₁
        cases hg.symm.trans h₂
  | restoreSnapshot snapshotId destination =>
    have hsent : sent h ((Ask.restoreSnapshot snapshotId destination).call.message r) s = _ :=
      exec_respond_lookUp hsend (.restoreSnapshot snapshotId destination) (fun _ => rfl)
        (fun _ => snapshotId) (fun _ snapshot => .snapshotRestored r snapshot.fileCount)
        (fun e => .snapshotError r e) rfl (fun _ => rfl) fun _ => rfl
    rcases hc : h (.restoreSnapshot snapshotId destination) s with ⟨e | _, s'⟩
    · rw [hc] at hsent
      dsimp only at hsent
      refine hone hsent rfl rfl ?_
      rintro ⟨s₁, e₁, h₁, -⟩
      cases hc.symm.trans h₁
    · rw [hc] at hsent
      dsimp only at hsent
      cases hg : (h (.getSnapshot snapshotId) s').1 with
      | error e =>
        rw [hg] at hsent
        dsimp only at hsent
        exact hnone hsent ⟨s', e, hc, hg⟩
      | ok snapshot =>
        rw [hg] at hsent
        dsimp only at hsent
        refine hone hsent rfl rfl ?_
        rintro ⟨s₁, e₁, h₁, h₂⟩
        cases hc.symm.trans h₁
        cases hg.symm.trans h₂
  | listSnapshots tags =>
    refine hone (exec_respond hsend (.listSnapshots tags) (fun _ => rfl) _) ?_ ?_ nofun <;>
    cases (h (.listSnapshots tags) s).1 <;> rfl
  | findSnapshotByTag tag =>
    refine hone (exec_respond hsend (.findSnapshotByTag tag) (fun _ => rfl) _) ?_ ?_ nofun <;>
    cases (h (.findSnapshotByTag tag) s).1 <;> rfl
  | getSnapshot snapshotId =>
    refine hone (exec_respond hsend (.getSnapshot snapshotId) (fun _ => rfl) _) ?_ ?_ nofun <;>
    cases (h (.getSnapshot snapshotId) s).1 <;> rfl
  | deleteSnapshot snapshotId =>
    refine hone (exec_respond hsend (.deleteSnapshot snapshotId) (fun _ => rfl) _) ?_ ?_ nofun <;>
    cases (h (.deleteSnapshot snapshotId) s).1 <;> rfl

/-! ### On a disk -/

/-- What the snapshot manager and the disk answer, for a process that starts no commands. -/
def onDisk (K : Kernel) (M : SnapshotManager) (H : Blake3) (J : Serde) (reads : Loc → ℕ → ℕ)
    (fuel : ℕ) (now : ℤ) (uuid : String) (text : Error → String) :
    Program.Handler DaemonOp DaemonOp.Res FS
  | .createSnapshot workspace message tags, fs =>
    let (r, fs') := Fallible.exec K.handle (M.createSnapshot H J reads fuel now uuid
      (components (utf8 workspace)) message tags) fs
    (r.mapError text, fs')
  | .restoreSnapshot snapshotId destination, fs =>
    let (r, fs') := Fallible.exec K.handle (M.restoreSnapshot H J reads fuel snapshotId
      (components (utf8 destination))) fs
    (r.mapError text, fs')
  | .listSnapshots tags, fs =>
    let (r, fs') := Fallible.exec K.handle (M.listSnapshots J tags) fs
    (r.mapError text, fs')
  | .findSnapshotByTag tag, fs =>
    let (r, fs') := Fallible.exec K.handle (M.findSnapshotByTag J tag) fs
    (r.mapError text, fs')
  | .getSnapshot snapshotId, fs =>
    let (r, fs') := Fallible.exec K.handle (M.getSnapshot J snapshotId) fs
    (r.mapError text, fs')
  | .deleteSnapshot snapshotId, fs =>
    let (r, fs') := Fallible.exec K.handle (M.deleteSnapshot J snapshotId) fs
    (r.mapError text, fs')
  | .send _, fs => (.ok (), fs)
  | .execute .., fs => (.error "Failed to spawn command", fs)
  | .newSession .., fs => (.error "Failed to spawn command", fs)
  | .sendInput .., fs => (.error "Session not found", fs)
  | .resize .., fs => (.error "Session not found", fs)
  | .closeSession .., fs => (.ok (), fs)
  | .readFile .., fs => (.error "No such file or directory (os error 2)", fs)

section

variable {K : Kernel} {M : SnapshotManager} {H : Blake3} {J : Serde} {reads : Loc → ℕ → ℕ}
  {fuel : ℕ} {now : ℤ} {uuid : String} {text : Error → String} {fs fs' : FS}

theorem onDisk_restoreSnapshot {id dest : String} {x : Except Error Unit × FS}
    (h : exec K.handle (M.restoreSnapshot H J reads fuel id (components (utf8 dest))) fs = x)
    (hok : x.1 = .ok ()) :
    onDisk K M H J reads fuel now uuid text (.restoreSnapshot id dest) fs = (.ok (), x.2) := by
  obtain ⟨r, fs'⟩ := x
  obtain rfl : r = .ok () := hok
  rw [onDisk, h]
  rfl

theorem onDisk_getSnapshot {id : String} {r : Except Error SnapshotInfo}
    (h : exec K.handle (M.getSnapshot J id) fs = (r, fs')) :
    onDisk K M H J reads fuel now uuid text (.getSnapshot id) fs = (r.mapError text, fs') := by
  rw [onDisk, h]

end

/-- The manager and the disk with one snapshot of a workspace with one file. -/
def sampleDisk : Program.Handler DaemonOp DaemonOp.Res FS :=
  onDisk sampleKernel (managerAt sampleRoot) (Blake3.ofTable sampleHashes)
    (Serde.ofTable sampleJson) (fun _ _ => 1) 3 sampleKernel.now sampleIds.2 fun _ => "error"

/-- The theorem for a look-up. -/
theorem answered_once_iff_sample : ∃ m,
    sent sampleDisk ((Ask.getSnapshot sampleIds.1).call.message "r") sampleTagged = [m] ∧
      m.answers = some "r" ∧ ((Ask.getSnapshot sampleIds.1).call.receive m).isSome = true :=
  (answered_once_iff (h := sampleDisk) (fun _ _ => rfl) (.getSnapshot sampleIds.1) "r"
    sampleTagged).2 nofun

theorem snapshotAt_sampleTagged : snapshotAt (Serde.ofTable sampleJson) sampleRoot sampleTagged
    sampleUuids.1 = some (sampleSnapshot sampleIds.1 "v1.tmp") := by
  have hx := exec_sampleCreate
  rw [sampleCreate] at hx
  obtain ⟨snap, s₁, json, htags, hj, -, hrec⟩ := createSnapshot_ok
    (Blake3.ofTable_lawful sampleHashes) (TagsAgree.empty (J := Serde.ofTable sampleJson)
      emptyStore_sample).toRecords hx
  have hrow : (snap, json) ∈ sampleJson.snapshots := by
    rw [Serde.encodeSnapshot] at hj
    split at hj
    next j hl =>
      cases hj
      exact mem_of_lookup hl
    next => cases hj
  rw [Records.snapshotAt_recorded (Serde.ofTable_lawful sampleJson) hj hrec]
  rcases List.mem_cons.1 hrow with heq | hrow
  · exact congrArg some (congrArg Prod.fst heq)
  · have hsnap : snap = _ := congrArg Prod.fst (List.mem_singleton.1 hrow)
    rw [hsnap] at htags
    exact absurd htags (by decide)

/-- Its file takes the place of the file of the snapshot. -/
theorem restoreTree_sampleTagged : ∃ x : Except Error Unit × FS,
    exec sampleKernel.handle ((managerAt sampleRoot).restoreTree (Blake3.ofTable sampleHashes)
      (Serde.ofTable sampleJson) (fun _ _ => 1) 3 (sampleSnapshot sampleIds.1 "v1.tmp").tree
      (components (utf8 "/s/snapshots"))) sampleTagged = x ∧
    x.1 = .ok () ∧ (x.2.read ((managerAt sampleRoot).snapshotFile sampleIds.1)).isOk = false :=
  ⟨_, rfl, by decide +kernel⟩

theorem sampleDisk_restored : ∃ fs,
    sampleDisk (.restoreSnapshot sampleIds.1 "/s/snapshots") sampleTagged = (.ok (), fs) ∧
      (sampleDisk (.getSnapshot sampleIds.1) fs).1.isOk = false := by
  obtain ⟨⟨r, fs⟩, hrun, hok, hlost⟩ := restoreTree_sampleTagged
  have hget : exec sampleKernel.handle ((managerAt sampleRoot).getSnapshot
      (Serde.ofTable sampleJson) sampleIds.1) fs = _ := exec_getSnapshot sampleIds.1
  refine ⟨fs, onDisk_restoreSnapshot ((exec_restoreSnapshot snapshotAt_sampleTagged _ _).trans hrun)
    hok, ?_⟩
  cases hread : fs.read ((managerAt sampleRoot).snapshotFile sampleIds.1) with
  | error e =>
    rw [hread] at hget
    rw [sampleDisk, onDisk_getSnapshot hget]
    rfl
  | ok b =>
    rw [hread] at hlost
    cases hlost

/-- A snapshot is restored into the directory of the snapshots, where its own file does not belong,
and nothing is answered. -/
theorem restored_unanswered :
    (sampleDisk (.restoreSnapshot sampleIds.1 "/s/snapshots") sampleTagged).1 = .ok () ∧
      sent sampleDisk ((Ask.restoreSnapshot sampleIds.1 "/s/snapshots").call.message "r")
        sampleTagged = [] := by
  obtain ⟨fs, hrun, hlost⟩ := sampleDisk_restored
  refine ⟨?_, sent_restoreSnapshot_none (fun _ _ => rfl) hrun hlost⟩
  rw [hrun]

end SandD
