import SandD.Snapshot.Layout
import SandD.Snapshot.Put

/-!
# Creating snapshots

`createSnapshot` in any world that hosts a snapshot root: apart from putting objects it writes
one snapshot file and one ref for each tag, so that an assertion that stands store steps and
these writes stands the creation of a snapshot.

* `RefStep`: the changes among the snapshot files and the tag refs;
* `Builder`, `Keeper`: worlds with a store and with a snapshot root in them;
* `Builder.buildTree`, `Keeper.createSnapshot`.
-/

namespace SandD

open Posix ObjectStore SnapshotManager
open Fallible (Spec Ends)

/-! ### The parts of `create_snapshot` -/

/-- The tags of a snapshot: sorted, each once. -/
def sortedTags (tags : Option (List String)) : List String :=
  ((tags.getD []).insertionSort StrLE).destutter (· ≠ ·)

namespace SnapshotManager

variable (M : SnapshotManager) (H : Blake3) (J : Serde)

/-- A tag must not be there yet. -/
def requireNew (tag : String) : Action Unit := do
  if ← io (IoM.exists_ (M.tagsDir.join (utf8 tag))) then
    bail s!"Tag '{tag}' already exists"

/-- The record of a snapshot. -/
def newSnapshot (now : ℤ) (uuid : String) (workspace : PathBuf) (message : Option String)
    (tags : Option (List String)) (built : String × ℕ × ℕ) : Snapshot where
  id := uuid
  createdAt := (now / nanos).toNat
  tree := built.1
  message := message.getD s!"Snapshot {uuid}"
  tags := sortedTags tags
  workspace := workspace
  fileCount := built.2.1
  totalSize := built.2.2

/-- The JSON of a snapshot is written. -/
def saveJson (id json : String) : Action Unit := do
  io (IoM.op (.write ((M.snapshotFile id).withExtension (utf8 "tmp")) (utf8 json)))
  io (IoM.op (.rename ((M.snapshotFile id).withExtension (utf8 "tmp")) (M.snapshotFile id)))

theorem saveJson_eq (root : Loc) {id : String} (h : Plain id) (json : String) :
    (managerAt root).saveJson id json = (do
      io (IoM.op (.write (Loc.toPath (snapshotsLoc root ++ [(h.fileName).temp])) (utf8 json)))
      io (IoM.op (.rename (Loc.toPath (snapshotsLoc root ++ [(h.fileName).temp]))
        (Loc.toPath (snapshotsLoc root ++ [h.fileName]))))) := by
  rw [saveJson, snapshotFile_eq root h, snapshotLoc, withExtension_toPath]

theorem addTag_eq (root : Loc) (id : String) (t : Tag) :
    (managerAt root).addTag id t.text = (do
      io (IoM.op (.write (Loc.toPath (tagsLoc root ++ [t.name.temp])) (utf8 id)))
      io (IoM.op (.rename (Loc.toPath (tagsLoc root ++ [t.name.temp]))
        (Loc.toPath (tagsLoc root ++ [t.name]))))) := by
  have h : (managerAt root).addTag id t.text = (do
      io (IoM.op (.write (PathBuf.withExtension
        (PathBuf.join (managerAt root).tagsDir (utf8 t.text)) (utf8 "tmp")) (utf8 id)))
      io (IoM.op (.rename (PathBuf.withExtension
        (PathBuf.join (managerAt root).tagsDir (utf8 t.text)) (utf8 "tmp"))
        (PathBuf.join (managerAt root).tagsDir (utf8 t.text))))) := rfl
  rw [h, t.file_eq, Tag.loc, withExtension_toPath]

theorem createSnapshot_eq (reads : Loc → ℕ → ℕ) (fuel : ℕ) (now : ℤ) (uuid : String)
    (workspace : PathBuf) (message : Option String) (tags : Option (List String)) :
    M.createSnapshot H J reads fuel now uuid workspace message tags = (do
      (sortedTags tags).forM fun tag => Fallible.ofExcept (validateTagName tag)
      if now < 0 then
        bail "System time error: second time provided was later than self"
      else do
        (sortedTags tags).forM M.requireNew
        let built ← M.buildTree H J reads fuel workspace
        let json ← Fallible.ofExcept
          (J.encodeSnapshot (newSnapshot now uuid workspace message tags built))
        M.saveJson uuid json
        (sortedTags tags).forM (M.addTag uuid)
        return uuid) := by
  rw [createSnapshot]
  simp only [saveJson, Fallible.bind_assoc]
  split_ifs <;> rfl

end SnapshotManager

/-! ### Worlds with a snapshot root -/

/-- A file among the snapshot files and tag refs is written, or takes another name. -/
inductive RefStep (root : Loc) (fs fs' : FS) : Prop
  | write (d : Loc) (n : FileName) (data : Bytes) (m : Mode) (mtime : ℤ)
      (hd : d = snapshotsLoc root ∨ d = tagsLoc root)
      (h : fs'.lookup = Function.update fs.lookup (d ++ [n]) (some (.file data m mtime)))
  | rename (d : Loc) (t n : FileName) (data : Bytes) (m : Mode) (mtime : ℤ)
      (hd : d = snapshotsLoc root ∨ d = tagsLoc root) (hne : t ≠ n)
      (hfile : fs.lookup (d ++ [t]) = some (.file data m mtime))
      (h : fs'.lookup = Function.update (Function.update fs.lookup (d ++ [t]) none) (d ++ [n])
        (some (.file data m mtime)))

theorem not_objectsDir_prefix_ref {root d : Loc}
    (hd : d = snapshotsLoc root ∨ d = tagsLoc root) (n : FileName) :
    ¬ objectsDir root <+: d ++ [n] := by
  rcases hd with rfl | rfl
  · exact not_objectsDir_prefix_snapshots root [n]
  · exact not_objectsDir_prefix_tags root [n]

namespace RefStep

variable {root : Loc} {fs fs' : FS}

theorem away (h : RefStep root fs fs') {v : Loc}
    (hv : ∀ d n, d = snapshotsLoc root ∨ d = tagsLoc root → v ≠ d ++ [n]) :
    fs'.lookup v = fs.lookup v := by
  cases h with
  | write d n data m mtime hd h => rw [h, Function.update_of_ne (hv d n hd)]
  | rename d t n data m mtime hd hne hfile h =>
    rw [h, Function.update_of_ne (hv d n hd), Function.update_of_ne (hv d t hd)]

/-- The objects are not touched. -/
theorem frame (h : RefStep root fs fs') {v : Loc} (hv : objectsDir root <+: v) :
    fs'.lookup v = fs.lookup v :=
  h.away fun _ n hd heq => not_objectsDir_prefix_ref hd n (heq ▸ hv)

theorem objectAt (h : RefStep root fs fs') : objectAt root fs' = objectAt root fs := by
  funext k
  rw [SandD.objectAt, h.frame (k.objectsDir_prefix_loc root), SandD.objectAt]

end RefStep

theorem Layout.update {root d : Loc} {fs fs' : FS} {n : FileName} {new : Option Node}
    (h : Layout root fs) (hd : d = snapshotsLoc root ∨ d = tagsLoc root)
    (hnew : new = none ∨ ∃ data m t, new = some (.file data m t))
    (hup : fs'.lookup = Function.update fs.lookup (d ++ [n]) new) : Layout root fs' := by
  have hsame : ∀ v, v ≠ d ++ [n] → fs'.lookup v = fs.lookup v := fun v hne => by
    rw [hup, Function.update_of_ne hne]
  have hlink : ∀ v, fs'.isLink v → fs.isLink v := by
    intro v hl
    by_cases heq : v = d ++ [n]
    · rw [FS.isLink, hup, heq, Function.update_self] at hl
      rcases hnew with rfl | ⟨data, m, t, rfl⟩ <;> simp [Node.isLink] at hl
    · rwa [FS.isLink, hsame v heq] at hl
  have hdir : ∀ v, v <+: d → fs'.lookup v = fs.lookup v := by
    refine fun v hv => hsame v ?_
    rintro rfl
    exact FS.not_prefix_concat d n hv
  have hroot : root <+: d := by
    rcases hd with rfl | rfl <;> exact List.prefix_append _ _
  refine ⟨by rw [FS.isDir, hdir root hroot]; exact h.isDir,
    fun v hv hl => h.objects v hv (hlink v hl), ?_, ?_⟩
  · rcases hd with rfl | rfl
    · exact h.snapshots.update hnew hup
    · refine h.snapshots.congr fun v hv => hsame v ?_
      rintro rfl
      rcases hv with hv | hv
      · have := hv.length_le
        simp [snapshotsLoc, tagsLoc] at this
      · exact not_snapshots_prefix_tags root [n] hv
  · rcases hd with rfl | rfl
    · refine h.tags.congr fun v hv => hsame v ?_
      rintro rfl
      rcases hv with hv | hv
      · rw [snapshotsLoc, tagsLoc, List.append_assoc, List.prefix_append_right_inj] at hv
        simp only [List.cons_append, List.nil_append, List.cons_prefix_cons] at hv
        exact absurd hv.1 (by decide)
      · rw [snapshotsLoc, tagsLoc, List.append_assoc, List.prefix_append_right_inj] at hv
        simp only [List.cons_append, List.nil_append, List.cons_prefix_cons] at hv
        exact absurd hv.1 (by decide)
    · exact h.tags.update hnew hup

theorem StoreStep.layout {H : Blake3} {root : Loc} {k : Key} {fs fs' : FS} {a b : Option Key}
    (h : StoreStep H root k fs fs' a b) (hl : Layout root fs) : Layout root fs' where
  isDir := (h.keeps root).1 hl.isDir
  objects := h.clear hl.objects
  snapshots := hl.snapshots.congr fun v hv => h.frame hl.isDir fun hp => by
    rcases hv with hv | ⟨w, rfl⟩
    · exact not_objectsDir_prefix_snapshots root [] (by simpa using hp.trans hv)
    · exact not_objectsDir_prefix_snapshots root w hp
  tags := hl.tags.congr fun v hv => h.frame hl.isDir fun hp => by
    rcases hv with hv | ⟨w, rfl⟩
    · exact not_objectsDir_prefix_tags root [] (by simpa using hp.trans hv)
    · exact not_objectsDir_prefix_tags root w hp

theorem RefStep.layout {root : Loc} {fs fs' : FS} (h : RefStep root fs fs')
    (hl : Layout root fs) : Layout root fs' := by
  cases h with
  | write d n data m mtime hd h => exact hl.update hd (Or.inr ⟨data, m, mtime, rfl⟩) h
  | rename d t n data m mtime hd hne hfile h =>
    -- between the two updates stands a file system without the temporary file
    have hmid : (fs.remove (d ++ [t])).lookup = Function.update fs.lookup (d ++ [t]) none :=
      (editAt_remove fs (by simp)).update (isDir_of_file hfile)
    exact (hl.update hd (Or.inl rfl) hmid).update hd (Or.inr ⟨data, m, mtime, rfl⟩)
      (by rw [h, hmid])

/-- No temporary file is there but that of the object `a`. -/
def NoTemp (root : Loc) (a : Option Key) (fs : FS) : Prop :=
  ∀ k : Key, some k ≠ a → fs.lookup (k.tempLoc root) = none

theorem StoreStep.noTemp {H : Blake3} {root : Loc} {k : Key} {fs fs' : FS} {a b : Option Key}
    (h : StoreStep H root k fs fs' a b) (hn : NoTemp root a fs) : NoTemp root b fs' := by
  intro k' hk'
  cases h with
  | mkdir u nd hu hnone hnd h =>
    rw [eq_of_lookup h (Key.ne_tempLoc_of_prefix_shardLoc k' root hu).symm]
    exact hn k' hk'
  | fill data mode mtime hold h =>
    have hne : k'.tempLoc root ≠ k.tempLoc root := fun heq => hk' (by rw [Key.tempLoc_inj heq])
    rw [eq_of_lookup h hne]
    exact hn k' (by simp)
  | publish data mode mtime hk htemp hnone h =>
    rw [eq_of_lookup h (k'.tempLoc_ne_loc root k)]
    by_cases heq : k'.tempLoc root = k.tempLoc root
    · rw [heq, Function.update_self]
    · rw [Function.update_of_ne heq]
      exact hn k' fun h' => heq (by cases h'; rfl)

theorem NoTemp.source {root : Loc} {fs : FS} (hn : NoTemp root none fs) {path : PathBuf} {v : Loc}
    {data : Bytes} (h : Source fs path v data) (k : Key) : v ≠ k.tempLoc root := by
  rintro rfl
  obtain ⟨-, m, t, hl⟩ := h
  rw [hn k (by simp)] at hl
  cases hl

/-- A world in which a store is at `root`, and an assertion `P` about file systems that is not
upset by the putting of objects or by others. No temporary file of an object can be taken for a
file to be stored. -/
structure Builder {K : Kernel} {σ : Type} (W : World K σ) (H : Blake3) (root : Loc)
    (P : Option Key → FS → Prop) : Prop extends Hosts W H root (fun _ => True) P where
  source : ∀ s, W.inv s → P none (W.fs s) → ∀ path v data (k : Key),
    Source (W.fs s) path v data → v ≠ k.tempLoc root

/-- The same for a snapshot root: the assertion is not upset by the writing of snapshot files and
tag refs either. -/
structure Keeper {K : Kernel} {σ : Type} (W : World K σ) (H : Blake3) (root : Loc)
    (P : Option Key → FS → Prop) : Prop extends Builder W H root P where
  layout : ∀ s, W.inv s → P none (W.fs s) → Layout root (W.fs s)
  ref : ∀ s s', W.inv s → P none (W.fs s) → RefStep root (W.fs s) (W.fs s') →
    W.inv s' ∧ P none (W.fs s')

/-- Operations that change nothing. -/
def Looks : FsOp → Prop
  | .metadata _ | .symlinkMetadata _ | .readLink _ | .readDir _ | .openFile _ | .readChunk ..
  | .read _ => True
  | _ => False

theorem handle_looks {K : Kernel} {o : FsOp} (h : Looks o) (fs : FS) : (K.handle o fs).2 = fs := by
  cases o <;> first | rfl | exact h.elim

section

variable {K : Kernel} {σ : Type} {W : World K σ} {H : Blake3} {J : Serde} {root : Loc}
  {new : Key → Prop} {P : Option Key → FS → Prop}

namespace Hosts

variable (hP : Hosts W H root new P) {A : FS → Prop}

include hP

/-- Looking at something: what is found is there. -/
theorem spec_look {o : FsOp} (ho : Looks o)
    (hA : ∀ s s', W.inv s → A (W.fs s) → W.rely s s' → A (W.fs s')) :
    Spec W.toSetting (fun s => A (W.fs s)) (IoM.op o)
      (fun r s => A (W.fs s) ∧ (K.handle o (W.fs s)).1 = .ok r)
      (fun e s => A (W.fs s) ∧ (K.handle o (W.fs s)).1 = .error e) := by
  refine spec_op hA (fun s t _ _ h => ?_) fun s hi hs => ?_
  · exact (not_torn (by rintro p b rfl; exact ho) (by rintro p q rfl; exact ho) h).elim
  · have heq : W.fs (W.handle o s).2 = W.fs s := by rw [W.effect, handle_looks ho]
    refine ⟨hP.inv_fs _ _ heq hi, ?_⟩
    rcases h : (K.handle o (W.fs s)).1 with e | r
    · exact ⟨by rw [heq]; exact hs, by rw [heq]; exact h⟩
    · exact ⟨by rw [heq]; exact hs, by rw [heq]; exact h⟩

theorem spec_exists (path : PathBuf) {E : Errno → σ → Prop}
    (hA : ∀ s s', W.inv s → A (W.fs s) → W.rely s s' → A (W.fs s')) :
    Spec W.toSetting (fun s => A (W.fs s)) (IoM.exists_ path)
      (fun b s => A (W.fs s) ∧ (W.fs s).pathExists path = b) E := by
  refine Posix.spec_exists hA fun s hi hs => ?_
  have heq := effect_metadata (W := W) path s
  exact ⟨hP.inv_fs _ _ heq hi, by rw [heq]; exact hs, by rw [heq]⟩

theorem spec_isDir (path : PathBuf) {E : Errno → σ → Prop}
    (hA : ∀ s s', W.inv s → A (W.fs s) → W.rely s s' → A (W.fs s')) :
    Spec W.toSetting (fun s => A (W.fs s)) (IoM.isDir path)
      (fun b s => A (W.fs s) ∧ (W.fs s).pathIsDir path = b) E := by
  refine Posix.spec_isDir hA fun s hi hs => ?_
  have heq := effect_metadata (W := W) path s
  exact ⟨hP.inv_fs _ _ heq hi, by rw [heq]; exact hs, by rw [heq]⟩

theorem spec_targetIsDir (path : PathBuf) (target : Bytes) {E : Error → σ → Prop}
    (hA : ∀ s s', W.inv s → A (W.fs s) → W.rely s s' → A (W.fs s')) :
    Spec W.toSetting (fun s => A (W.fs s)) (targetIsDir path target)
      (fun _ s => A (W.fs s)) E := by
  have key : ∀ p, Spec W.toSetting (fun s => A (W.fs s)) (io (IoM.isDir p))
      (fun _ s => A (W.fs s)) E := fun p =>
    Spec.mapError ((hP.spec_isDir p hA).post fun _ _ _ h => h.1)
  rw [targetIsDir]
  split_ifs
  · exact key _
  · cases path.parent with
    | some p => exact key _
    | none => exact Spec.pure fun s _ hs => hs

end Hosts

/-- What a program keeps whether it succeeds or not. -/
abbrev Keeps (W : World K σ) (P : Option Key → FS → Prop) {α : Type} (p : Action α) : Prop :=
  Spec W.toSetting (fun s => P none (W.fs s)) p (fun _ s => P none (W.fs s))
    (fun _ s => P none (W.fs s))

namespace Builder

variable (hK : Builder W H root P) {reads : Loc → ℕ → ℕ} {fuel : ℕ}

include hK

theorem look {o : FsOp} (ho : Looks o) : Keeps W P (io (IoM.op o)) :=
  Spec.mapError ((hK.spec_look ho fun s s' => hK.rely s s' none).conseq (fun _ hs => hs)
    (fun _ _ _ hs => hs.1) fun _ _ _ hs => hs.1)

theorem putBlob (hH : H.Lawful) (content : Bytes) : Keeps W P ((storeAt root).putBlob H content) :=
  (hK.spec_putBlob hH trivial).conseq (fun _ hs => hs) (fun _ _ _ hs => hs.1)
    fun _ _ _ hs => hs.1

theorem putFile (L : Lease W root) (hH : H.Lawful) (path : PathBuf) :
    Keeps W P ((storeAt root).putFile H reads fuel path) :=
  (hK.spec_putFile hH L (P none) (fun _ => True) False (fun s s' => hK.rely s s' none)
    (fun _ _ hs => hs)
    (fun s hi hs v data hv => ⟨trivial, trivial, hK.source s hi hs path v data _ hv⟩)
    fun hf => hf.elim).conseq (fun _ hs => hs) (fun _ _ _ hs => hs.1) fun _ _ _ hs => hs.1

theorem buildEntry (L : Lease W root) (hH : H.Lawful)
    {buildTree : PathBuf → Action (String × ℕ × ℕ)} (hrec : ∀ path, Keeps W P (buildTree path))
    (dir : PathBuf) (acc : Built) (name : FileName) :
    Keeps W P ((managerAt root).buildEntry H reads fuel buildTree dir acc name) := by
  rw [SnapshotManager.buildEntry]
  refine Spec.bind (hK.look (o := .symlinkMetadata _) trivial) fun metadata => ?_
  simp only []
  cases metadata.fileType with
  | symlink =>
    refine Spec.bind (hK.look (o := .readLink _) trivial) fun target => ?_
    refine Spec.bind (hK.putBlob hH _) fun hash => ?_
    refine Spec.bind (hK.spec_targetIsDir _ _ fun s s' => hK.rely s s' none) fun b => ?_
    exact Spec.pure fun _ _ hs => hs
  | file =>
    refine Spec.bind (hK.putFile L hH _) fun hash => ?_
    exact Spec.pure fun _ _ hs => hs
  | dir =>
    refine Spec.bind (hrec _) fun built => ?_
    exact Spec.pure fun _ _ hs => hs
  | special => exact Spec.pure fun _ _ hs => hs

theorem buildTree (L : Lease W root) (hH : H.Lawful) (path : PathBuf) :
    Keeps W P ((managerAt root).buildTree H J reads fuel path) := by
  induction fuel generalizing path with
  | zero => exact Spec.fail fun _ _ hs => hs
  | succ fuel ih =>
    have hentries : ∀ names acc, Keeps W P ((managerAt root).buildEntries H reads fuel
        ((managerAt root).buildTree H J reads fuel) path names acc) := by
      intro names
      induction names with
      | nil => exact fun acc => Spec.pure fun _ _ hs => hs
      | cons name names ihn =>
        intro acc
        exact Spec.bind (hK.buildEntry L hH ih path acc name) fun acc => ihn acc
    rw [SnapshotManager.buildTree]
    refine Spec.bind (hK.look (o := .readDir _) trivial) fun names => ?_
    refine Spec.bind (hentries names _) fun built => ?_
    refine Spec.bind (Spec.ofExcept (fun _ _ _ _ hs => hs) fun _ _ _ _ hs => hs) fun json => ?_
    exact Spec.bind (hK.putBlob hH json) fun hash => Spec.pure fun _ _ hs => hs

theorem requireNew (tag : String) : Keeps W P ((managerAt root).requireNew tag) := by
  rw [SnapshotManager.requireNew]
  refine Spec.bind (Spec.mapError ((hK.spec_exists _ fun s s' => hK.rely s s' none).post
    fun _ _ _ hs => hs.1)) fun b => ?_
  split_ifs
  · exact Spec.fail fun _ _ hs => hs
  · exact Spec.pure fun _ _ hs => hs

end Builder

namespace Keeper

variable (hK : Keeper W H root P) {reads : Loc → ℕ → ℕ} {fuel : ℕ}

include hK

/-- A file among the snapshot files or tag refs is written by way of a temporary file. -/
theorem replace {d : Loc} (hd : d = snapshotsLoc root ∨ d = tagsLoc root) (t n : FileName)
    (data : Bytes) :
    Keeps W P (do
      io (IoM.op (.write (Loc.toPath (d ++ [t])) data))
      io (IoM.op (.rename (Loc.toPath (d ++ [t])) (Loc.toPath (d ++ [n]))))) := by
  have hdir : ∀ s, W.inv s → P none (W.fs s) → FilesDir (W.fs s) d := by
    intro s hi hs
    rcases hd with rfl | rfl
    · exact (hK.layout s hi hs).snapshots
    · exact (hK.layout s hi hs).tags
  refine (spec_replace (B := fun s => P none (W.fs s) ∧ (W.fs s).lookup (d ++ [t]) ≠ none)
    (Q := fun s => P none (W.fs s)) (fun s s' => hK.rely s s' none) ?_ hdir
    (fun s hi hs => hdir s hi hs.1) ?_ (fun s _ hs => hs.2) ?_).conseq (fun _ hs => hs)
    (fun _ _ _ hs => hs) fun _ _ _ hs => hs.elim
  · intro s s' hi hs hr
    exact ⟨hK.rely s s' none hi hs.1 hr, fun h => hs.2 ((W.rely_fs s s' hr).lookup_none.1 h)⟩
  · intro s s' data' m hi hs hup
    obtain ⟨hi', hs'⟩ := hK.ref s s' hi hs (.write d t data' m K.now hd hup)
    exact ⟨hi', fun _ => ⟨hs', by rw [hup, Function.update_self]; simp⟩⟩
  · intro s s' hi hs heq hne
    by_cases htn : t = n
    · exact ⟨hK.inv_fs _ _ (heq htn) hi, by rw [heq htn]; exact hs.1⟩
    · obtain ⟨b, m, mtime, hl⟩ := ((hdir s hi hs.1).cases t).resolve_left hs.2
      refine hK.ref s s' hi hs.1 (.rename d t n b m mtime hd htn hl ?_)
      rw [hne htn, hl]

theorem addTag (id : String) (t : Tag) : Keeps W P ((managerAt root).addTag id t.text) := by
  rw [addTag_eq]
  exact hK.replace (Or.inr rfl) t.name.temp t.name (utf8 id)

theorem saveJson (uuid : Uuid) (json : String) :
    Keeps W P ((managerAt root).saveJson uuid.text json) := by
  rw [saveJson_eq root uuid.plain]
  exact hK.replace (Or.inl rfl) _ _ (utf8 json)

/-- `createSnapshot` keeps what store steps and the writing of refs keep. -/
theorem createSnapshot (L : Lease W root) (hH : H.Lawful) (now : ℤ) (uuid : Uuid)
    (workspace : PathBuf) (message : Option String) (tags : Option (List String)) :
    Keeps W P ((managerAt root).createSnapshot H J reads fuel now uuid.text workspace message
      tags) := by
  rw [createSnapshot_eq]
  -- after the first loop the tags are known to be valid
  refine Spec.bind (N := fun _ s => P none (W.fs s) ∧
    ∀ t ∈ sortedTags tags, validateTagName t = .ok ()) ?_ fun _ s hi hs => ?_
  · refine (Spec.forM (I := fun done s => P none (W.fs s) ∧
      ∀ t ∈ done, validateTagName t = .ok ()) fun done t rest _ => ?_).pre fun s hs => ⟨hs, ?_⟩
    · refine Spec.ofExcept (fun _ s ht _ hs => ⟨hs.1, fun t' ht' => ?_⟩) fun _ _ _ _ hs => hs.1
      rcases List.mem_append.1 ht' with h | h
      · exact hs.2 t' h
      · rwa [List.mem_singleton.1 h]
    · simp
  · obtain ⟨hs, hvalid⟩ := hs
    revert s
    split_ifs
    · exact Spec.fail fun _ _ hs => hs
    · show Keeps W P _
      refine Spec.bind (Spec.forM (I := fun _ s => P none (W.fs s)) fun _ t _ _ =>
        hK.toBuilder.requireNew t) fun _ => ?_
      refine Spec.bind (hK.toBuilder.buildTree L hH workspace) fun built => ?_
      refine Spec.bind (Spec.ofExcept (fun _ _ _ _ hs => hs) fun _ _ _ _ hs => hs) fun json => ?_
      refine Spec.bind (hK.saveJson uuid json) fun _ => ?_
      refine Spec.bind (Spec.forM (I := fun _ s => P none (W.fs s)) fun done t rest heq => ?_)
        fun _ => Spec.pure fun _ _ hs => hs
      exact hK.addTag uuid.text ⟨t, hvalid t (by rw [heq]; simp)⟩

end Keeper

end

end SandD
