import SandD.Snapshot.Steps
import SandD.Snapshot.Lookup
import SandD.Snapshot.Busy

/-!
# Names that clients supply

Snapshot identifiers and tags become parts of paths.  Tags are validated where a client gives
them; identifiers are not, and neither are the tags that a snapshot file lists.

* `SnapshotManager.Holds`, `SnapshotManager.Inside`: the entries of the two directories, and
  operations on nothing else;
* `StaysIn`: strings that lead to such an entry when they are joined to one of the directories;
* `NameCall`, `NameCall.Performs`: the six calls that take a name, and what they do to metadata;
* `NameCall.Harmless`: no name that a call comes to leaves the directories;
* `inside_iff`: **this is what decides whether a call does**.
-/

namespace Posix

open FS

/-- The paths of an operation. -/
def FsOp.paths : FsOp → List PathBuf
  | .metadata p | .symlinkMetadata p | .readLink p | .readDir p | .openFile p | .read p
  | .createDir p | .write p _ | .removeFile p | .removeDirAll p | .symlink _ p
  | .setPermissions p _ | .setFileMtime p _ => [p]
  | .copy src dst | .rename src dst => [src, dst]
  | .readChunk .. => []

/-! ### Joining -/

/-- What is appended comes to the last piece. -/
theorem splitSlash_append {e : Bytes} (he : slash ∉ e) (b : Bytes) :
    ∃ pieces last, splitSlash b = pieces ++ [last] ∧
      splitSlash (b ++ e) = pieces ++ [last ++ e] := by
  induction b with
  | nil => exact ⟨[], [], rfl, splitSlash_of_notMem he⟩
  | cons a bs ih =>
    obtain ⟨pieces, last, hbs, hbse⟩ := ih
    rw [List.cons_append, splitSlash, splitSlash, hbs, hbse]
    by_cases ha : a = slash
    · exact ⟨[] :: pieces, last, by simp [ha], by simp [ha]⟩
    · cases pieces with
      | nil => exact ⟨[], a :: last, by simp [ha], by simp [ha]⟩
      | cons p ps => exact ⟨(a :: p) :: ps, last, by simp [ha], by simp [ha]⟩

theorem Comp.ofBytes_eq_none {b : Bytes} : Comp.ofBytes b = none ↔ b = [] ∨ b = [dot] := by
  rw [Comp.ofBytes]
  split_ifs with h1 h2 h3 <;> simp [h1]

theorem Comp.ofBytes_of_length {b : Bytes} (h : 2 < b.length) :
    ∃ c, c ≠ Comp.parent ∧ Comp.ofBytes b = some c := by
  have h1 : ¬ (b = [] ∨ b = [dot]) := by rintro (rfl | rfl) <;> simp at h
  have h2 : b ≠ [dot, dot] := by rintro rfl; simp at h
  rw [Comp.ofBytes, if_neg h1, if_neg h2]
  by_cases h3 : ValidName b
  · exact ⟨.name ⟨b, h3⟩, by simp, by simp [h3]⟩
  · exact ⟨.nul b, by simp, by simp [h3]⟩

/-- A path that does not end in `..` is resolved to an entry of the directory before it. -/
theorem walk_concat {fs : FS} {c : Comp} (hc : c ≠ .parent) {n : ℕ} {p : PathBuf} {cur v : Loc}
    (h : fs.walk false n cur (p ++ [c]) = .ok v) :
    ∃ d m, fs.walk true n cur p = .ok d ∧ v = d ++ [m] := by
  induction n using Nat.strong_induction_on generalizing cur p with
  | _ n ihn =>
  induction p generalizing cur with
  | nil =>
    cases c with
    | parent => exact absurd rfl hc
    | nul => cases n <;> cases h
    | name m =>
      refine ⟨cur, m, by cases n <;> rfl, ?_⟩
      rcases walk_name_ok h with ⟨-, h⟩ | ⟨-, h, -⟩ | ⟨_, _, _, -, -, h, -⟩
      · cases n <;> cases h <;> rfl
      · exact h
      · simp at h
  | cons c' rest ih =>
    cases c' with
    | nul => cases n <;> cases h
    | parent =>
      obtain ⟨d, m, hd, hv⟩ := @ih cur.dropLast (by cases n <;> exact h)
      exact ⟨d, m, by cases n <;> exact hd, hv⟩
    | name c' =>
      rcases walk_name_ok h with ⟨hc', h⟩ | ⟨hrest, -⟩ | ⟨n', l, t, rfl, hl, -, h⟩
      · obtain ⟨_, _, _, hl⟩ := isDir_iff.1 hc'
        obtain ⟨d, m, hd, hv⟩ := ih h
        exact ⟨d, m, (walk_name hl).trans hd, hv⟩
      · simp at hrest
      · have h' : fs.walk false n' (l.base cur) (components l.bytes ++ rest ++ [c]) = .ok v := by
          rw [List.append_assoc]
          exact h
        obtain ⟨d, m, hd, hv⟩ := ihn n' (Nat.lt_succ_self _) h'
        exact ⟨d, m, (walk_link hl (Or.inr rfl)).trans hd, hv⟩

end Posix

namespace SandD

open Posix SnapshotManager
open Fallible (exec Performs Issues)

/-! ### The two directories -/

/-- `p` is the path of an entry of `dir`. -/
def EntryOf (dir p : PathBuf) : Prop := ∃ c, c ≠ .parent ∧ p = dir ++ [c]

namespace SnapshotManager

variable (M : SnapshotManager)

/-- `p` is the path of an entry of the snapshot directory or of the tag directory. -/
def Holds (p : PathBuf) : Prop := EntryOf M.snapshotsDir p ∨ EntryOf M.tagsDir p

/-- An operation on such entries alone. -/
def Inside (o : FsOp) : Prop := ∀ p ∈ o.paths, M.Holds p

end SnapshotManager

/-- Where the path of an entry leads, if anywhere, is an entry of one of the directories
themselves. -/
theorem SnapshotManager.Holds.resolve {M : SnapshotManager} {fs : FS} {p : PathBuf} {v : Loc}
    (h : M.Holds p) (hv : fs.resolve false p = .ok v) : ∃ d n, v = d ++ [n] ∧
      (fs.resolve true M.snapshotsDir = .ok d ∨ fs.resolve true M.tagsDir = .ok d) := by
  rcases h with ⟨c, hc, rfl⟩ | ⟨c, hc, rfl⟩
  · obtain ⟨d, n, hd, rfl⟩ := walk_concat hc hv
    exact ⟨d, n, rfl, Or.inl hd⟩
  · obtain ⟨d, n, hd, rfl⟩ := walk_concat hc hv
    exact ⟨d, n, rfl, Or.inr hd⟩

section Root

variable {root : PathBuf}

theorem ofRoot_snapshotsDir (root : PathBuf) : (ofRoot root).snapshotsDir =
    root ++ [.name ⟨utf8 "snapshots", by decide⟩] :=
  PathBuf.join_of_valid root (by decide : ValidName (utf8 "snapshots"))

theorem ofRoot_tagsDir (root : PathBuf) : (ofRoot root).tagsDir =
    root ++ [.name ⟨utf8 "refs", by decide⟩, .name ⟨utf8 "tags", by decide⟩] := by
  show PathBuf.join (PathBuf.join root (utf8 "refs")) (utf8 "tags") = _
  rw [PathBuf.join_of_valid root (by decide : ValidName (utf8 "refs")),
    PathBuf.join_of_valid _ (by decide : ValidName (utf8 "tags")), List.append_assoc]
  rfl

/-- Behind the one directory or the other, an entry is a single component. -/
theorem holds_append {dir : PathBuf}
    (hdir : dir = (ofRoot root).snapshotsDir ∨ dir = (ofRoot root).tagsDir) (cs : PathBuf) :
    (ofRoot root).Holds (dir ++ cs) ↔ ∃ c, c ≠ .parent ∧ cs = [c] := by
  constructor
  · have hne : (⟨utf8 "snapshots", by decide⟩ : FileName) ≠ ⟨utf8 "refs", by decide⟩ := by decide
    rintro (⟨c, hc, h⟩ | ⟨c, hc, h⟩) <;> refine ⟨c, hc, ?_⟩ <;> rcases hdir with rfl | rfl <;>
      simp only [ofRoot_snapshotsDir, ofRoot_tagsDir, List.append_assoc,
        List.append_cancel_left_eq] at h
    · simpa using h
    · simp [hne.symm] at h
    · simp [hne] at h
    · simpa using h
  · rintro ⟨c, hc, rfl⟩
    exact hdir.imp (fun h => ⟨c, hc, by rw [h]⟩) fun h => ⟨c, hc, by rw [h]⟩

/-- A string that leads to an entry when it is joined to one of the directories: it has a single
component, or it is the absolute path of an entry. -/
def StaysIn (root : PathBuf) (b : Bytes) : Prop :=
  if isAbsolute b then (ofRoot root).Holds (components b)
  else ∃ c, c ≠ .parent ∧ components b = [c]

theorem holds_join {dir : PathBuf}
    (hdir : dir = (ofRoot root).snapshotsDir ∨ dir = (ofRoot root).tagsDir) (b : Bytes) :
    (ofRoot root).Holds (dir.join b) ↔ StaysIn root b := by
  rw [PathBuf.join, StaysIn]
  split_ifs
  · rfl
  · exact holds_append hdir _

/-- A relative identifier stays if and only if nothing is before its last slash but `.` and
further slashes. -/
theorem staysIn_id {id : String} (hid : isAbsolute (utf8 id) = false) :
    StaysIn root (utf8 s!"{id}.json") ↔
      ∀ b ∈ (splitSlash (utf8 id)).dropLast, b = [] ∨ b = [dot] := by
  obtain ⟨pieces, last, hid', hsplit⟩ := splitSlash_append (by decide : slash ∉ utf8 ".json")
    (utf8 id)
  have habs : isAbsolute (utf8 id ++ utf8 ".json") = false := by
    cases hb : utf8 id with
    | nil => decide
    | cons a bs =>
      rw [hb] at hid
      exact hid
  obtain ⟨c, hc, hlast⟩ := Comp.ofBytes_of_length (b := last ++ utf8 ".json") (by
    rw [List.length_append]
    exact Nat.lt_of_lt_of_le (by decide) (Nat.le_add_left _ _))
  have hcomp : components (utf8 id ++ utf8 ".json") = pieces.filterMap Comp.ofBytes ++ [c] := by
    simp [components, hsplit, hlast]
  rw [utf8_snapshotFile, StaysIn, habs, if_neg (by decide), hcomp, hid', List.dropLast_concat]
  constructor
  · rintro ⟨c', -, h⟩ b hb
    have hnil : pieces.filterMap Comp.ofBytes = [] :=
      (List.append_eq_singleton_iff.1 h).elim And.left fun h => by simp at h
    exact Comp.ofBytes_eq_none.1 (List.filterMap_eq_nil_iff.1 hnil b hb)
  · refine fun h => ⟨c, hc, ?_⟩
    rw [List.filterMap_eq_nil_iff.2 fun b hb => Comp.ofBytes_eq_none.2 (h b hb), List.nil_append]

/-- A file name stays. -/
theorem staysIn_of_valid {b : Bytes} (h : ValidName b) : StaysIn root b := by
  rw [StaysIn, if_neg (by simp [isAbsolute_of_valid h])]
  exact ⟨_, by simp, components_of_valid h⟩

end Root

/-! ### What the parts of the calls perform -/

variable {K : Kernel} {H : Blake3} {J : Serde} {A : FsOp → Prop} {fs : FS} {M : SnapshotManager}

theorem performs_op (o : FsOp) : Performs K.handle A (io (IoM.op o)) fs ↔ A o :=
  Fallible.performs_mapError.trans Fallible.performs_perform

theorem performs_exists (p : PathBuf) :
    Performs K.handle A (io (IoM.exists_ p)) fs ↔ A (.metadata p) := by
  refine Fallible.performs_mapError.trans (Fallible.performs_bind.trans ?_)
  rw [Fallible.performs_attempt]
  exact (and_iff_left fun r _ _ => by cases r <;> trivial).trans Fallible.performs_perform

theorem performs_readToString (p : PathBuf) :
    Performs K.handle A (readToString p) fs ↔ A (.read p) := by
  refine Fallible.performs_bind.trans ((and_iff_left fun b _ _ => ?_).trans (performs_op _))
  cases fromUtf8 b <;> trivial

theorem performs_loadSnapshot (id : String) :
    Performs K.handle A (M.loadSnapshot J id) fs ↔ A (.read (M.snapshotFile id)) :=
  Fallible.performs_bind.trans ((and_iff_left fun _ _ _ => trivial).trans
    (Fallible.performs_mapError.trans (performs_readToString _)))

theorem performs_getSnapshot (id : String) :
    Performs K.handle A (M.getSnapshot J id) fs ↔ A (.read (M.snapshotFile id)) :=
  Fallible.performs_bind.trans
    ((and_iff_left fun _ _ _ => trivial).trans (performs_loadSnapshot id))

theorem inside_metadata {p : PathBuf} : M.Inside (.metadata p) ↔ M.Holds p := by
  simp [Inside, FsOp.paths]

theorem inside_read {p : PathBuf} : M.Inside (.read p) ↔ M.Holds p := by
  simp [Inside, FsOp.paths]

theorem inside_removeFile {p : PathBuf} : M.Inside (.removeFile p) ↔ M.Holds p := by
  simp [Inside, FsOp.paths]

/-- A ref is looked for and then, if it is there, removed. -/
theorem performs_removeTag (tag : String) :
    Performs K.handle M.Inside (M.removeTag tag) fs ↔ M.Holds (M.tagsDir.join (utf8 tag)) := by
  refine Fallible.performs_bind.trans ?_
  rw [performs_exists, inside_metadata]
  refine and_iff_left_of_imp fun h b s _ => ?_
  cases b with
  | false => trivial
  | true => exact (performs_op _).2 (inside_removeFile.2 h)

/-- A ref is looked for and then, if it is there, read. -/
theorem performs_getSnapshotByTag (tag : String) :
    Performs K.handle M.Inside (M.getSnapshotByTag tag) fs ↔
      M.Holds (M.tagsDir.join (utf8 tag)) := by
  refine Fallible.performs_bind.trans ?_
  rw [performs_exists, inside_metadata]
  refine and_iff_left_of_imp fun h b s _ => ?_
  cases b with
  | false => trivial
  | true =>
    exact Fallible.performs_bind.2 ⟨(performs_readToString _).2 (inside_read.2 h),
      fun _ _ _ => trivial⟩

/-- A file that is written by way of a temporary one is in its directory. -/
theorem inside_replace {dir : PathBuf} (hdir : dir = M.snapshotsDir ∨ dir = M.tagsDir)
    (n : FileName) (data : Bytes) :
    Issues M.Inside (do
      io (IoM.op (.write (PathBuf.withExtension (dir ++ [.name n]) (utf8 "tmp")) data))
      io (IoM.op (.rename (PathBuf.withExtension (dir ++ [.name n]) (utf8 "tmp"))
        (dir ++ [.name n])))) := by
  have hholds : ∀ m : FileName, M.Holds (dir ++ [.name m]) := fun m =>
    hdir.imp (fun h => ⟨.name m, by simp, by rw [h]⟩) fun h => ⟨.name m, by simp, by rw [h]⟩
  rw [PathBuf.withExtension_concat, FileName.withExtension_tmp]
  refine Fallible.issues_bind (Fallible.issues_mapError (issues_op ?_)) fun _ =>
    Fallible.issues_mapError (issues_op ?_)
  · simpa [Inside, FsOp.paths] using hholds n.temp
  · simpa [Inside, FsOp.paths] using ⟨hholds n.temp, hholds n⟩

theorem inside_saveJson (u : Uuid) (json : String) :
    Issues M.Inside (M.saveJson u.text json) := by
  rw [saveJson, snapshotFile, PathBuf.join_of_valid _ u.plain.validName]
  exact inside_replace (Or.inl rfl) _ _

theorem inside_addTag (id : String) (t : Tag) : Issues M.Inside (M.addTag id t.text) := by
  unfold addTag
  rw [PathBuf.join_of_valid _ (validName_of_validateTagName t.valid)]
  exact inside_replace (Or.inr rfl) _ _

theorem inside_requireNew (t : Tag) : Issues M.Inside (M.requireNew t.text) := by
  unfold requireNew
  rw [PathBuf.join_of_valid _ (validName_of_validateTagName t.valid)]
  refine Fallible.issues_bind (Fallible.issues_mapError (issues_exists ?_)) fun b => ?_
  · exact inside_metadata.2 (Or.inr ⟨_, by simp, rfl⟩)
  · cases b <;> trivial

/-! ### The calls -/

namespace SnapshotManager

variable (M : SnapshotManager)

/-- The first part of `create_snapshot`, before the workspace is walked. -/
def checkNew (now : ℤ) (tags : Option (List String)) : Action Unit := do
  (sortedTags tags).forM fun tag => Fallible.ofExcept (validateTagName tag)
  if now < 0 then
    bail "System time error: second time provided was later than self"
  (sortedTags tags).forM M.requireNew

/-- The last part of `create_snapshot`, with what the walk has given. -/
def record (J : Serde) (now : ℤ) (uuid : String) (workspace : PathBuf) (message : Option String)
    (tags : Option (List String)) (built : String × ℕ × ℕ) : Action String := do
  let json ← Fallible.ofExcept
    (J.encodeSnapshot (newSnapshot now uuid workspace message tags built))
  M.saveJson uuid json
  (sortedTags tags).forM (M.addTag uuid)
  return uuid

theorem createSnapshot_parts (H : Blake3) (J : Serde) (reads : Loc → ℕ → ℕ) (fuel : ℕ) (now : ℤ)
    (uuid : String) (workspace : PathBuf) (message : Option String)
    (tags : Option (List String)) :
    M.createSnapshot H J reads fuel now uuid workspace message tags = (do
      M.checkNew now tags
      let built ← M.buildTree H J reads fuel workspace
      M.record J now uuid workspace message tags built) := by
  rw [createSnapshot_eq, checkNew, Fallible.bind_assoc]
  congr 1
  funext _
  split_ifs <;> rfl

/-- The loop of `delete_snapshot`. -/
def removeTags (tags : List String) : Action Unit :=
  tags.forM fun tag => withContext s!"Failed to remove tag ref '{tag}'" (M.removeTag tag)

/-- The first part of `list_snapshots`, with tags. -/
def idsUnder (tags : List String) : Action (List String) := do
  tags.forM fun tag => Fallible.ofExcept (validateTagName tag)
  tags.mapM fun tag => do
    match ← M.getSnapshotByTag tag with
    | some id => pure id
    | none => bail s!"Tag '{tag}' does not exist"

theorem listSnapshots_parts (J : Serde) (tags : List String) :
    M.listSnapshots J (some tags) = (do
      let ids ← M.idsUnder tags
      let snapshots ← ids.mapM (M.getSnapshot J)
      return (snapshots.insertionSort NewestFirst).destutter (·.id ≠ ·.id)) := by
  rw [idsUnder, Fallible.bind_assoc]
  rfl

/-- The information that is stored under an identifier. -/
def infoAt (J : Serde) (fs : FS) (id : String) : Except Error SnapshotInfo :=
  infoFrom J id (fs.read (M.snapshotFile id))

/-- The identifier in the ref of a tag. -/
def idUnder (fs : FS) (tag : String) : Except Error (Option String) :=
  if fs.pathExists (M.tagsDir.join (utf8 tag)) then
    match fs.read (M.tagsDir.join (utf8 tag)) with
    | .error e => .error (.io e)
    | .ok b =>
      match fromUtf8 b with
      | some s => .ok (some (trim s))
      | none => .error .utf8
  else .ok none

/-- The identifier in the ref of a tag that must be there. -/
def requireId (fs : FS) (tag : String) : Except Error String :=
  match M.idUnder fs tag with
  | .ok (some id) => .ok id
  | .ok none => .error (.bail s!"Tag '{tag}' does not exist")
  | .error e => .error e

end SnapshotManager

/-- A call that takes a name. -/
inductive NameCall
  | create (reads : Loc → ℕ → ℕ) (fuel : ℕ) (now : ℤ) (u : Uuid) (workspace : PathBuf)
      (message : Option String) (tags : Option (List String))
  | restore (id : String)
  | get (id : String)
  | delete (id : String)
  | list (tags : List String)
  | find (tag : String)

/-- Every operation of a call is one of `A`, those on trees and objects apart: the walk of the
workspace is between two parts of `create_snapshot`, and restoring the tree comes after the
snapshot has been loaded. -/
def NameCall.Performs (K : Kernel) (H : Blake3) (J : Serde) (M : SnapshotManager)
    (A : FsOp → Prop) (fs : FS) : NameCall → Prop
  | .create reads fuel now u workspace message tags =>
    Fallible.Performs K.handle A (M.checkNew now tags) fs ∧
      ∀ fs₁ built fs₂, exec K.handle (M.checkNew now tags) fs = (.ok (), fs₁) →
        exec K.handle (M.buildTree H J reads fuel workspace) fs₁ = (.ok built, fs₂) →
        Fallible.Performs K.handle A (M.record J now u.text workspace message tags built) fs₂
  | .restore id => Fallible.Performs K.handle A (M.loadSnapshot J id) fs
  | .get id => Fallible.Performs K.handle A (M.getSnapshot J id) fs
  | .delete id => Fallible.Performs K.handle A (M.deleteSnapshot J id) fs
  | .list tags => Fallible.Performs K.handle A (M.listSnapshots J (some tags)) fs
  | .find tag => Fallible.Performs K.handle A (M.findSnapshotByTag J tag) fs

/-- No name that a call comes to leaves the two directories. -/
def NameCall.Harmless (K : Kernel) (J : Serde) (root : PathBuf) (fs : FS) : NameCall → Prop
  | .create .. => True
  | .restore id | .get id => StaysIn root (utf8 s!"{id}.json")
  -- the tags of the snapshot, as far as the loop gets
  | .delete id => StaysIn root (utf8 s!"{id}.json") ∧
      ∀ info, (ofRoot root).infoAt J fs id = .ok info →
        ∀ before tag after, info.tags = before ++ tag :: after →
          ∀ fs', exec K.handle ((ofRoot root).removeTags before) fs = (.ok (), fs') →
            StaysIn root (utf8 tag)
  -- the identifiers in the refs, as far as the loop gets
  | .list tags => (∀ tag ∈ tags, validateTagName tag = .ok ()) →
      ∀ ids, tags.mapM ((ofRoot root).requireId fs) = .ok ids →
        ∀ before id after, ids = before ++ id :: after →
          (∀ i ∈ before, ((ofRoot root).infoAt J fs i).isOk) →
            StaysIn root (utf8 s!"{id}.json")
  | .find tag => validateTagName tag = .ok () →
      ∀ id, (ofRoot root).idUnder fs tag = .ok (some id) → StaysIn root (utf8 s!"{id}.json")

section Calls

variable {root : PathBuf}

theorem exec_getSnapshotByTag_idUnder (tag : String) :
    exec K.handle (M.getSnapshotByTag tag) fs = (M.idUnder fs tag, fs) := by
  have hexists : exec K.handle (IoM.exists_ (M.tagsDir.join (utf8 tag))) fs =
      (.ok (fs.pathExists (M.tagsDir.join (utf8 tag))), fs) := run_exists _
  rw [getSnapshotByTag, Fallible.exec_bind, io, Fallible.exec_mapError, hexists, idUnder]
  cases fs.pathExists (M.tagsDir.join (utf8 tag)) with
  | false => rfl
  | true =>
    show exec K.handle (do
      let content ← readToString (M.tagsDir.join (utf8 tag))
      return some (trim content)) fs = _
    rw [Fallible.exec_bind, exec_readToString, if_pos rfl]
    cases fs.read (M.tagsDir.join (utf8 tag)) with
    | error e => rfl
    | ok b =>
      dsimp only
      cases fromUtf8 b <;> rfl

/-- The identifier of a tag, for the list. -/
theorem exec_requireId (tag : String) :
    exec K.handle (do
      match ← M.getSnapshotByTag tag with
      | some id => pure id
      | none => bail s!"Tag '{tag}' does not exist" : Action String) fs =
      (M.requireId fs tag, fs) := by
  rw [Fallible.exec_bind, exec_getSnapshotByTag_idUnder, requireId]
  rcases M.idUnder fs tag with e | _ | id <;> rfl

theorem valid_of_exec {tags : List String} {fs' : FS} {u : Unit}
    (h : exec K.handle (tags.forM fun tag => Fallible.ofExcept (validateTagName tag) : Action Unit)
      fs = (.ok u, fs')) : ∀ tag ∈ tags, validateTagName tag = .ok () := fun tag htag => by
  obtain ⟨s₁, s₂, hs⟩ := Fallible.exec_forM_ok _ h htag
  exact congrArg Prod.fst hs

theorem exec_validate {tags : List String} (h : ∀ tag ∈ tags, validateTagName tag = .ok ()) :
    exec K.handle (tags.forM fun tag => Fallible.ofExcept (validateTagName tag) : Action Unit) fs =
      (.ok (), fs) := by
  induction tags with
  | nil => rfl
  | cons tag tags ih =>
    have htag : exec K.handle (Fallible.ofExcept (validateTagName tag) : Action Unit) fs =
        (.ok (), fs) := by rw [Fallible.exec_ofExcept, h tag List.mem_cons_self]
    exact (Fallible.exec_bind_ok _ htag).trans (ih fun t ht => h t (List.mem_cons_of_mem tag ht))

theorem performs_checkNew (now : ℤ) (tags : Option (List String)) :
    Performs K.handle M.Inside (M.checkNew now tags) fs := by
  refine Fallible.performs_bind.2 ⟨Fallible.performs_forM.2 fun _ _ _ _ _ _ => trivial, ?_⟩
  intro _ s hs
  have hvalid := valid_of_exec hs
  show Performs K.handle M.Inside (if now < 0 then _ else _) s
  split_ifs
  · trivial
  · exact (Fallible.issues_forM fun tag htag => inside_requireNew ⟨tag, hvalid tag htag⟩).performs s

theorem performs_record {now : ℤ} {u : Uuid} {workspace : PathBuf} {message : Option String}
    {tags : Option (List String)} {built : String × ℕ × ℕ}
    (hvalid : ∀ tag ∈ sortedTags tags, validateTagName tag = .ok ()) :
    Performs K.handle M.Inside (M.record J now u.text workspace message tags built) fs := by
  refine Issues.performs (Fallible.issues_bind (Fallible.issues_ofExcept _) fun json =>
    Fallible.issues_bind (inside_saveJson u json) fun _ => Fallible.issues_bind
      (Fallible.issues_forM fun tag htag => ?_) fun _ => Fallible.issues_pure _) fs
  exact inside_addTag u.text ⟨tag, hvalid tag htag⟩

theorem exec_checkNew_valid {now : ℤ} {tags : Option (List String)} {fs' : FS} {u : Unit}
    (h : exec K.handle (M.checkNew now tags) fs = (.ok u, fs')) :
    ∀ tag ∈ sortedTags tags, validateTagName tag = .ok () := by
  obtain ⟨_, s, hs, -⟩ := Fallible.exec_bind_eq_ok _ h
  exact valid_of_exec hs

theorem holds_snapshotFile (id : String) :
    (ofRoot root).Holds ((ofRoot root).snapshotFile id) ↔ StaysIn root (utf8 s!"{id}.json") :=
  holds_join (Or.inl rfl) _

theorem performs_get_iff (id : String) :
    Performs K.handle (ofRoot root).Inside ((ofRoot root).getSnapshot J id) fs ↔
      StaysIn root (utf8 s!"{id}.json") :=
  (performs_getSnapshot id).trans (inside_read.trans (holds_snapshotFile id))

theorem performs_delete_iff (id : String) :
    Performs K.handle (ofRoot root).Inside ((ofRoot root).deleteSnapshot J id) fs ↔
      (NameCall.delete id).Harmless K J root fs := by
  refine Fallible.performs_bind.trans ?_
  rw [performs_get_iff, exec_getSnapshot]
  refine and_congr_right fun hid => ⟨fun h info hinfo before tag after heq fs' hfs' => ?_, ?_⟩
  · have htags := (Fallible.performs_bind.1 (h info fs (by rw [← hinfo]; rfl))).1
    have htag := Fallible.performs_forM.1 htags before tag after heq fs' hfs'
    exact (holds_join (Or.inr rfl) _).1
      ((performs_removeTag tag).1 (Fallible.performs_mapError.1 htag))
  · rintro h info s hs
    obtain ⟨hinfo, rfl⟩ := Prod.mk.inj hs
    refine Fallible.performs_bind.2 ⟨Fallible.performs_forM.2 fun before tag after heq fs' hfs' =>
      Fallible.performs_mapError.2 ((performs_removeTag tag).2 ?_), fun _ s' _ => ?_⟩
    · exact (holds_join (Or.inr rfl) _).2 (h info hinfo before tag after heq fs' hfs')
    · exact Fallible.performs_mapError.2 ((performs_op _).2
        (inside_removeFile.2 ((holds_snapshotFile id).2 hid)))

theorem holds_tag {tag : String} (h : validateTagName tag = .ok ()) :
    M.Holds (M.tagsDir.join (utf8 tag)) := by
  rw [PathBuf.join_of_valid _ (validName_of_validateTagName h)]
  exact Or.inr ⟨_, by simp, rfl⟩

theorem performs_find_iff (tag : String) :
    Performs K.handle (ofRoot root).Inside ((ofRoot root).findSnapshotByTag J tag) fs ↔
      (NameCall.find tag).Harmless K J root fs := by
  refine Fallible.performs_bind.trans ((and_iff_right trivial).trans ?_)
  rw [Fallible.exec_ofExcept]
  constructor
  · intro h hvalid id hid
    have hfound := (Fallible.performs_bind.1 (h () fs (by rw [hvalid]))).2 (some id) fs
      (by rw [exec_getSnapshotByTag_idUnder, hid])
    exact (performs_get_iff id).1 (Fallible.performs_bind.1 hfound).1
  · rintro h u s hs
    obtain ⟨hvalid, rfl⟩ := Prod.mk.inj hs
    refine Fallible.performs_bind.2 ⟨(performs_getSnapshotByTag tag).2 (holds_tag hvalid), ?_⟩
    rintro (_ | id) s' hs'
    · trivial
    · rw [exec_getSnapshotByTag_idUnder] at hs'
      obtain ⟨hid, rfl⟩ := Prod.mk.inj hs'
      exact Fallible.performs_bind.2
        ⟨(performs_get_iff id).2 (h hvalid id hid), fun _ _ _ => trivial⟩

theorem exec_idsUnder_ok {tags ids : List String} {fs' : FS} :
    exec K.handle (M.idsUnder tags) fs = (.ok ids, fs') ↔
      fs' = fs ∧ (∀ tag ∈ tags, validateTagName tag = .ok ()) ∧
        tags.mapM (M.requireId fs) = .ok ids := by
  have hids : exec K.handle (tags.mapM fun tag => do
      match ← M.getSnapshotByTag tag with
      | some id => pure id
      | none => bail s!"Tag '{tag}' does not exist" : Action (List String)) fs =
        (tags.mapM (M.requireId fs), fs) := Fallible.exec_mapM fun tag _ => exec_requireId tag
  constructor
  · intro h
    obtain ⟨u, s, hs, hmap⟩ := Fallible.exec_bind_eq_ok _ h
    have hvalid := valid_of_exec hs
    rw [exec_validate hvalid] at hs
    obtain ⟨-, rfl⟩ := Prod.mk.inj hs
    obtain ⟨hok, rfl⟩ := Prod.mk.inj (hids.symm.trans hmap)
    exact ⟨rfl, hvalid, hok⟩
  · rintro ⟨rfl, hvalid, hok⟩
    exact (Fallible.exec_bind_ok _ (exec_validate hvalid)).trans (hids.trans (by rw [hok]))

theorem performs_idsUnder (tags : List String) :
    Performs K.handle M.Inside (M.idsUnder tags) fs := by
  refine Fallible.performs_bind.2 ⟨Fallible.performs_forM.2 fun _ _ _ _ _ _ => trivial, ?_⟩
  intro u s hs
  have hvalid := valid_of_exec hs
  refine (Fallible.performs_mapM fun tag _ => exec_requireId tag).2 fun before tag _ heq _ =>
    Fallible.performs_bind.2 ⟨(performs_getSnapshotByTag tag).2 (holds_tag (hvalid tag ?_)), ?_⟩
  · rw [heq]
    exact List.mem_append_right before List.mem_cons_self
  · intro r _ _
    cases r <;> trivial

theorem performs_list_iff (tags : List String) :
    Performs K.handle (ofRoot root).Inside ((ofRoot root).listSnapshots J (some tags)) fs ↔
      (NameCall.list tags).Harmless K J root fs := by
  have hget : ∀ ids : List String,
      Performs K.handle (ofRoot root).Inside (ids.mapM ((ofRoot root).getSnapshot J)) fs ↔
        ∀ before id after, ids = before ++ id :: after →
          (∀ i ∈ before, ((ofRoot root).infoAt J fs i).isOk) →
            StaysIn root (utf8 s!"{id}.json") := fun ids => by
    rw [Fallible.performs_mapM fun id _ => exec_getSnapshot id]
    simp only [performs_get_iff]
    rfl
  rw [listSnapshots_parts]
  refine Fallible.performs_bind.trans ((and_iff_right (performs_idsUnder tags)).trans ?_)
  constructor
  · intro h hvalid ids hok
    have hrest := h ids fs (exec_idsUnder_ok.2 ⟨rfl, hvalid, hok⟩)
    exact (hget ids).1 (Fallible.performs_bind.1 hrest).1
  · intro h ids s hs
    obtain ⟨rfl, hvalid, hok⟩ := exec_idsUnder_ok.1 hs
    exact Fallible.performs_bind.2 ⟨(hget ids).2 (h hvalid ids hok), fun _ _ _ => trivial⟩

/-- **A call stays inside its two directories if and only if no name that it comes to leaves
them.** Tags from clients are validated, so that creating a snapshot always does. -/
theorem inside_iff (call : NameCall) :
    call.Performs K H J (ofRoot root) (ofRoot root).Inside fs ↔ call.Harmless K J root fs := by
  cases call with
  | create reads fuel now u workspace message tags =>
    refine iff_of_true ⟨performs_checkNew now tags, fun fs₁ built fs₂ h _ => ?_⟩ trivial
    exact performs_record (exec_checkNew_valid h)
  | restore id =>
    exact (performs_loadSnapshot id).trans (inside_read.trans (holds_snapshotFile id))
  | get id => exact performs_get_iff id
  | delete id => exact performs_delete_iff id
  | list tags => exact performs_list_iff tags
  | find tag => exact performs_find_iff tag

/-- The file `/w/x.json`, outside of the store root `/s`. -/
def sampleOutside : Loc := [⟨utf8 "w", validName_w⟩, ⟨utf8 "x.json", by decide⟩]

/-- The JSON of a snapshot: `{"id":"x","created_at":0,"tree":"","message":"","tags":["a"],
"workspace":"/","file_count":0,"total_size":0}`. -/
def strayJson : JsonTable where
  trees := []
  snapshots := [(⟨"x", 0, "", "", ["a"], [], 0, 0⟩,
    "\x7b\"id\":\"x\",\"created_at\":0,\"tree\":\"\",\"message\":\"\",\"tags\":[\"a\"]," ++
    "\"workspace\":\"/\",\"file_count\":0,\"total_size\":0\x7d")]
  distinctTrees := by decide
  distinctSnapshots := by decide
  start := by decide

/-- An empty store, and such JSON in that file. -/
def sampleStray : FS :=
  sampleStore.insert sampleOutside
    (.file (strayJson.snapshots.flatMap fun s => utf8 s.2) 0o644 0)

/-- `delete_snapshot` with an identifier that leads to that file. -/
def sampleEscape : Except Error Unit × FS :=
  exec sampleKernel.handle ((managerAt sampleRoot).deleteSnapshot (Serde.ofTable strayJson)
    "../../w/x") sampleStray

theorem sampleEscape_done : sampleEscape.1.isOk = true ∧
    (sampleStray.lookup sampleOutside).isSome = true ∧
    sampleEscape.2.lookup sampleOutside = none := by decide +kernel

/-- A file outside of the store root is taken for a snapshot and deleted. -/
theorem delete_leaves_store :
    (sampleStray.lookup sampleOutside).isSome = true ∧ sampleEscape.1.isOk = true ∧
      sampleEscape.2.lookup sampleOutside = none ∧
      ¬ (NameCall.delete "../../w/x").Performs sampleKernel (Blake3.ofTable sampleHashes)
        (Serde.ofTable strayJson) (managerAt sampleRoot) (managerAt sampleRoot).Inside
        sampleStray := by
  refine ⟨sampleEscape_done.2.1, sampleEscape_done.1, sampleEscape_done.2.2, fun h => ?_⟩
  have hid := ((performs_delete_iff "../../w/x").1 h).1
  have hparts := (staysIn_id (by decide)).1 hid
  exact absurd (hparts (utf8 "..") (by decide)) (by decide)

end Calls

end SandD
