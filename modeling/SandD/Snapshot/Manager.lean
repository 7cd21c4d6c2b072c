import SandD.Snapshot.Tree
import Mathlib.Data.List.Sort
import Mathlib.Data.List.Destutter

/-!
# The snapshot manager

`SnapshotManager` with its operations: `createSnapshot` walks a workspace and stores its files
and directories as blobs, `restoreSnapshot` writes them out again and clears away what does not
belong, and snapshots are listed, looked up by tag and deleted.

The recursion into directories is given a bound on its depth, `fuel`; the names of a directory
are those that were listed when it was opened.  The identifier drawn from `Uuid::new_v4` and the
clock are arguments, and warnings are left out.
-/

namespace SandD

open Posix

/-- `SnapshotManager`. -/
structure SnapshotManager where
  store : ObjectStore
  snapshotsDir : PathBuf
  tagsDir : PathBuf

/-- `read_to_string`. -/
def readToString (path : PathBuf) : Action String := do
  let b ← io (IoM.op (.read path))
  match fromUtf8 b with
  | some s => pure s
  | none => Fallible.fail .utf8

/-- `char::is_control`. -/
def isControl (c : Char) : Bool := c.toNat < 0x20 || (0x7f ≤ c.toNat && c.toNat < 0xa0)

/-- `char::is_whitespace`. -/
def isWhitespace (c : Char) : Bool :=
  let n := c.toNat
  (0x09 ≤ n && n ≤ 0x0d) || n == 0x20 || n == 0x85 || n == 0xa0 || n == 0x1680 ||
    (0x2000 ≤ n && n ≤ 0x200a) || n == 0x2028 || n == 0x2029 || n == 0x202f || n == 0x205f ||
    n == 0x3000

/-- `str::trim`. -/
def trim (s : String) : String :=
  String.ofList ((s.toList.dropWhile isWhitespace).reverse.dropWhile isWhitespace).reverse

/-- The order of strings: by their bytes. -/
def StrLE (a b : String) : Prop := utf8 a ≤ utf8 b

instance : DecidableRel StrLE := fun a b => inferInstanceAs (Decidable (utf8 a ≤ utf8 b))

/-- Addition of `u64` and `usize`. -/
def wrappingAdd (a b : ℕ) : ℕ := (a + b) % 2 ^ 64

/-- The variables of the loop of `build_tree`. -/
structure Built where
  entries : List TreeEntry
  fileCount : ℕ
  totalSize : ℕ

namespace SnapshotManager

/-- The store and its directories below a root. -/
def ofRoot (root : PathBuf) : SnapshotManager :=
  ⟨⟨root⟩, root.join (utf8 "snapshots"), (root.join (utf8 "refs")).join (utf8 "tags")⟩

/-- `new`. -/
def new (root : PathBuf) : Action SnapshotManager := do
  let M := ofRoot root
  withContext s!"Failed to create snapshots directory: {M.snapshotsDir.display}"
    (io (IoM.createDirAll M.snapshotsDir))
  withContext s!"Failed to create tags directory: {M.tagsDir.display}"
    (io (IoM.createDirAll M.tagsDir))
  return M

variable (M : SnapshotManager) (H : Blake3) (J : Serde)

/-! ### Tags -/

/-- `validate_tag_name`. -/
def validateTagName (tag : String) : Except Error Unit :=
  if tag = "" then .error (.bail "Tag name cannot be empty")
  else if isAbsolute (utf8 tag) then .error (.bail s!"Tag '{tag}' is an absolute path")
  else if ['.', '.'] <:+: tag.toList then
    .error (.bail s!"Tag '{tag}' contains path traversal sequence")
  else if '/' ∈ tag.toList ∨ '\\' ∈ tag.toList then
    .error (.bail s!"Tag '{tag}' contains path separators")
  else if tag = "." ∨ tag = ".." then .error (.bail s!"Tag '{tag}' is a reserved name")
  else if tag.toList.any fun c => isControl c || c == Char.ofNat 0 then
    .error (.bail s!"Tag '{tag}' contains invalid characters")
  else .ok ()

/-- `add_tag`. -/
def addTag (snapshotId tag : String) : Action Unit := do
  let tagFile := M.tagsDir.join (utf8 tag)
  let tempFile := tagFile.withExtension (utf8 "tmp")
  io (IoM.op (.write tempFile (utf8 snapshotId)))
  io (IoM.op (.rename tempFile tagFile))

/-- `remove_tag`. -/
def removeTag (tag : String) : Action Unit := do
  let tagFile := M.tagsDir.join (utf8 tag)
  if ← io (IoM.exists_ tagFile) then
    io (IoM.op (.removeFile tagFile))

/-- `get_snapshot_by_tag`. -/
def getSnapshotByTag (tag : String) : Action (Option String) := do
  let tagFile := M.tagsDir.join (utf8 tag)
  if !(← io (IoM.exists_ tagFile)) then
    return none
  let content ← readToString tagFile
  return some (trim content)

/-! ### Capturing a workspace -/

/-- Whether the target of the link `path` is a directory. -/
def targetIsDir (path : PathBuf) (target : Bytes) : Action Bool :=
  if isAbsolute target then io (IoM.isDir (components target))
  else
    match path.parent with
    | some p => io (IoM.isDir (p.join target))
    | none => pure false

/-- One round of the loop of `build_tree`, for the entry `name` of `dir`. -/
def buildEntry (reads : Loc → ℕ → ℕ) (fuel : ℕ) (buildTree : PathBuf → Action (String × ℕ × ℕ))
    (dir : PathBuf) (acc : Built) (name : FileName) : Action Built := do
  let path := dir.join name.bytes
  let metadata ← io (IoM.op (.symlinkMetadata path))
  let push (entryType : EntryType) (hash : String) (size : ℕ) : List TreeEntry :=
    acc.entries ++
      [⟨toStringLossy name.bytes, getMode metadata, entryType, hash, size, metadata.modified⟩]
  match metadata.fileType with
  | .symlink => do
    let target ← io (IoM.op (.readLink path))
    let hash ← M.store.putBlob H (utf8 (toStringLossy target))
    let isDir ← targetIsDir path target
    return ⟨push (if isDir then .symlinkDir else .symlink) hash 0,
      wrappingAdd acc.fileCount 1, acc.totalSize⟩
  | .file => do
    let hash ← M.store.putFile H reads fuel path
    return ⟨push .blob hash metadata.len, wrappingAdd acc.fileCount 1,
      wrappingAdd acc.totalSize metadata.len⟩
  | .dir => do
    let (hash, subCount, subSize) ← buildTree path
    return ⟨push .tree hash 0, wrappingAdd acc.fileCount subCount,
      wrappingAdd acc.totalSize subSize⟩
  -- pipes, sockets and devices are left out
  | .special => return acc

/-- The loop of `build_tree`. -/
def buildEntries (reads : Loc → ℕ → ℕ) (fuel : ℕ) (buildTree : PathBuf → Action (String × ℕ × ℕ))
    (dir : PathBuf) : List FileName → Built → Action Built
  | [], acc => return acc
  | name :: names, acc => do
    let acc ← M.buildEntry H reads fuel buildTree dir acc name
    buildEntries reads fuel buildTree dir names acc

/-- `build_tree`: the hash of the tree, the number of files and their size. -/
def buildTree (reads : Loc → ℕ → ℕ) : ℕ → PathBuf → Action (String × ℕ × ℕ)
  | 0, _ => Fallible.fail .outOfFuel
  | fuel + 1, dir => do
    let names ← io (IoM.op (.readDir dir))
    let built ← M.buildEntries H reads fuel (buildTree reads fuel) dir names ⟨[], 0, 0⟩
    let treeJson ← Fallible.ofExcept (J.encodeTree built.entries)
    let treeHash ← M.store.putBlob H treeJson
    return (treeHash, built.fileCount, built.totalSize)

/-- The path of the snapshot file. -/
def snapshotFile (id : String) : PathBuf := M.snapshotsDir.join (utf8 s!"{id}.json")

/-- `create_snapshot`. -/
def createSnapshot (reads : Loc → ℕ → ℕ) (fuel : ℕ) (now : ℤ) (uuid : String)
    (workspace : PathBuf) (message : Option String) (tags : Option (List String)) :
    Action String := do
  let tags := ((tags.getD []).insertionSort StrLE).destutter (· ≠ ·)
  tags.forM fun tag => Fallible.ofExcept (validateTagName tag)
  if now < 0 then
    bail "System time error: second time provided was later than self"
  let createdAt := (now / nanos).toNat
  tags.forM fun tag => do
    if ← io (IoM.exists_ (M.tagsDir.join (utf8 tag))) then
      bail s!"Tag '{tag}' already exists"
  let (treeHash, fileCount, totalSize) ← M.buildTree H J reads fuel workspace
  let snapshot : Snapshot := {
    id := uuid
    createdAt := createdAt
    tree := treeHash
    message := message.getD s!"Snapshot {uuid}"
    tags := tags
    workspace := workspace
    fileCount := fileCount
    totalSize := totalSize }
  let snapshotFile := M.snapshotFile uuid
  let json ← Fallible.ofExcept (J.encodeSnapshot snapshot)
  let tempFile := snapshotFile.withExtension (utf8 "tmp")
  io (IoM.op (.write tempFile (utf8 json)))
  io (IoM.op (.rename tempFile snapshotFile))
  tags.forM fun tag => M.addTag uuid tag
  return uuid

/-! ### Restoring -/

/-- Whether a file has to be copied: not when its size and time are those recorded, and
otherwise when its hash, which storing it gives, is another one. -/
def shouldCopy (reads : Loc → ℕ → ℕ) (fuel : ℕ) (entryPath : PathBuf) (entry : TreeEntry) :
    Action Bool := do
  if ← io (IoM.exists_ entryPath) then
    match ← Fallible.attempt (io (IoM.op (.metadata entryPath))) with
    | .ok metadata =>
      if metadata.len = entry.size ∧ metadata.modified = entry.modified then
        return false
      else
        let fileHash ← M.store.putFile H reads fuel entryPath
        return fileHash ≠ entry.hash
    | .error _ => return true
  else
    return true

/-- Restore a regular file. -/
def restoreBlob (reads : Loc → ℕ → ℕ) (fuel : ℕ) (entryPath : PathBuf) (entry : TreeEntry) :
    Action Unit := do
  if ← M.shouldCopy H reads fuel entryPath entry then
    M.store.copyFile entry.hash entryPath
  setMode entryPath entry.mode
  setMtime entryPath entry.modified

/-- Restore a symbolic link. -/
def restoreSymlink (entryPath : PathBuf) (entry : TreeEntry) : Action Unit := do
  let targetBytes ← M.store.getBlob entry.hash
  match fromUtf8 targetBytes with
  | none => Fallible.fail .utf8
  | some target =>
    let present ← do
      if ← io (IoM.exists_ entryPath) then pure true else io (IoM.isSymlink entryPath)
    if present then
      let _ ← Fallible.attempt (io (IoM.op (.removeFile entryPath)))
    io (IoM.op (.symlink (utf8 target) entryPath))

/-- Restore one entry of a tree. -/
def restoreEntry (reads : Loc → ℕ → ℕ) (fuel : ℕ) (restoreTree : String → PathBuf → Action Unit)
    (dest : PathBuf) (entry : TreeEntry) : Action Unit :=
  let entryPath := dest.join (utf8 entry.name)
  match entry.entryType with
  | .blob => M.restoreBlob H reads fuel entryPath entry
  | .tree => restoreTree entry.hash entryPath
  | .symlink | .symlinkDir => M.restoreSymlink entryPath entry

/-- Delete what is not expected in the directory `dest`; a failure is only warned of. -/
def cleanEntry (dest : PathBuf) (expected : List String) (name : FileName) : Action Unit := do
  if toStringLossy name.bytes ∈ expected then
    return
  let path := dest.join name.bytes
  match ← Fallible.attempt (io (IoM.op (.symlinkMetadata path))) with
  | .ok metadata =>
    if metadata.fileType = .dir then
      let _ ← Fallible.attempt (io (IoM.op (.removeDirAll path)))
    else
      let _ ← Fallible.attempt (io (IoM.op (.removeFile path)))
  | .error _ => return

/-- `restore_tree`. -/
def restoreTree (reads : Loc → ℕ → ℕ) : ℕ → String → PathBuf → Action Unit
  | 0, _, _ => Fallible.fail .outOfFuel
  | fuel + 1, treeHash, dest => do
    io (IoM.createDirAll dest)
    let treeJson ← M.store.getBlob treeHash
    let entries ← Fallible.ofExcept (J.decodeTree treeJson)
    let expected := entries.map (·.name)
    entries.forM (M.restoreEntry H reads fuel (restoreTree reads fuel) dest)
    let names ← io (IoM.op (.readDir dest))
    names.forM (cleanEntry dest expected)

/-- Read a snapshot. -/
def loadSnapshot (id : String) : Action Snapshot := do
  let json ← withContext s!"Snapshot {id} not found" (readToString (M.snapshotFile id))
  Fallible.ofExcept (J.decodeSnapshot json)

/-- `restore_snapshot`. -/
def restoreSnapshot (reads : Loc → ℕ → ℕ) (fuel : ℕ) (id : String) (dest : PathBuf) :
    Action Unit := do
  let snapshot ← M.loadSnapshot J id
  M.restoreTree H J reads fuel snapshot.tree dest

/-! ### Looking up and deleting -/

/-- `get_snapshot`. -/
def getSnapshot (id : String) : Action SnapshotInfo := do
  let snapshot ← M.loadSnapshot J id
  return snapshot.toInfo

/-- The identifier a file in the snapshot directory stands for. -/
def idOfFile (name : FileName) : Option String :=
  if extension name.bytes = some (utf8 "json") then some (toStringLossy (fileStem name.bytes))
  else none

/-- Newest first, and by identifier among those of one time. -/
def NewestFirst (a b : SnapshotInfo) : Prop :=
  b.createdAt < a.createdAt ∨ (a.createdAt = b.createdAt ∧ StrLE a.id b.id)

instance : DecidableRel NewestFirst := fun a b =>
  inferInstanceAs (Decidable (b.createdAt < a.createdAt ∨ (_ ∧ StrLE a.id b.id)))

/-- `list_snapshots`. -/
def listSnapshots (tags : Option (List String)) : Action (List SnapshotInfo) := do
  let ids ← match tags with
    | some tags => do
      tags.forM fun tag => Fallible.ofExcept (validateTagName tag)
      tags.mapM fun tag => do
        match ← M.getSnapshotByTag tag with
        | some id => pure id
        | none => bail s!"Tag '{tag}' does not exist"
    | none => do
      let names ← io (IoM.op (.readDir M.snapshotsDir))
      pure (names.filterMap idOfFile)
  let snapshots ← ids.mapM (M.getSnapshot J)
  return (snapshots.insertionSort NewestFirst).destutter (·.id ≠ ·.id)

/-- `find_snapshot_by_tag`. -/
def findSnapshotByTag (tag : String) : Action (Option SnapshotInfo) := do
  Fallible.ofExcept (validateTagName tag)
  match ← M.getSnapshotByTag tag with
  | some id => do
    let info ← M.getSnapshot J id
    return some info
  | none => return none

/-- `delete_snapshot`. -/
def deleteSnapshot (id : String) : Action Unit := do
  let snapshot ← M.getSnapshot J id
  snapshot.tags.forM fun tag =>
    withContext s!"Failed to remove tag ref '{tag}'" (M.removeTag tag)
  withContext s!"Failed to delete snapshot {id}"
    (io (IoM.op (.removeFile (M.snapshotFile id))))

end SnapshotManager

end SandD
