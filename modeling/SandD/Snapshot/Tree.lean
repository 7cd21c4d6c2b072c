import SandD.Protocol.Message
import SandD.Snapshot.ObjectStore

/-!
# Trees and snapshots

The records of a snapshot and their JSON.  `serde_json` itself is a parameter: `Serde` has the
functions the code calls, and `Serde.Lawful` says that what was written is read back.  The
conversion of times, which the code has of its own, is in `TreeEntry.toWire` and
`WireEntry.toEntry`: JSON holds whole seconds since 1970.
-/

namespace SandD

open Posix

/-- `EntryType`. -/
inductive EntryType
  | blob | tree | symlink | symlinkDir
  deriving DecidableEq

/-- `TreeEntry`; times are nanoseconds since 1970. -/
structure TreeEntry where
  name : String
  mode : ℕ
  entryType : EntryType
  hash : String
  size : ℕ
  modified : ℤ
  deriving DecidableEq

/-- A tree entry as it stands in JSON; times are seconds since 1970. -/
structure WireEntry where
  name : String
  mode : ℕ
  entryType : EntryType
  hash : String
  size : ℕ
  modified : ℕ
  deriving DecidableEq

/-- Nanoseconds in a second. -/
def nanos : ℤ := 1000000000

/-- `system_time_format::serialize`: a time before 1970 is an error. -/
def TreeEntry.toWire (e : TreeEntry) : Option WireEntry :=
  if e.modified < 0 then none
  else some ⟨e.name, e.mode, e.entryType, e.hash, e.size, (e.modified / nanos).toNat⟩

/-- `system_time_format::deserialize`. -/
def WireEntry.toEntry (e : WireEntry) : TreeEntry :=
  ⟨e.name, e.mode, e.entryType, e.hash, e.size, e.modified * nanos⟩

/-- `Snapshot`. -/
structure Snapshot where
  id : String
  createdAt : ℕ
  tree : String
  message : String
  tags : List String
  workspace : PathBuf
  fileCount : ℕ
  totalSize : ℕ
  deriving DecidableEq

/-- `From<Snapshot> for SnapshotInfo`. -/
def Snapshot.toInfo (s : Snapshot) : SnapshotInfo :=
  ⟨s.id, s.createdAt, s.message, s.tags, s.fileCount, s.totalSize⟩

/-- The functions of `serde_json`. Writing a snapshot fails when its workspace is not UTF-8. -/
structure Serde where
  treeToVec : List WireEntry → Bytes
  treeFromSlice : Bytes → Option (List WireEntry)
  snapshotToString : Snapshot → Option String
  snapshotFromStr : String → Option Snapshot

/-- What was written is read back. -/
structure Serde.Lawful (J : Serde) : Prop where
  tree : ∀ t, J.treeFromSlice (J.treeToVec t) = some t
  snapshot : ∀ s j, J.snapshotToString s = some j → J.snapshotFromStr j = some s

namespace Serde

variable (J : Serde)

/-- `serde_json::to_vec` of a tree. -/
def encodeTree (entries : List TreeEntry) : Except Error Bytes :=
  match entries.mapM TreeEntry.toWire with
  | some wire => .ok (J.treeToVec wire)
  | none => .error .json

/-- `serde_json::from_slice` of a tree. -/
def decodeTree (b : Bytes) : Except Error (List TreeEntry) :=
  match J.treeFromSlice b with
  | some wire => .ok (wire.map WireEntry.toEntry)
  | none => .error .json

/-- `serde_json::to_string_pretty` of a snapshot. -/
def encodeSnapshot (s : Snapshot) : Except Error String :=
  match J.snapshotToString s with
  | some j => .ok j
  | none => .error .json

/-- `serde_json::from_str` of a snapshot. -/
def decodeSnapshot (j : String) : Except Error Snapshot :=
  match J.snapshotFromStr j with
  | some s => .ok s
  | none => .error .json

end Serde

/-- `get_mode`: `st_mode`, the file type and the permission bits. -/
def getMode (m : Metadata) : ℕ := m.mode

/-- `set_mode`. -/
def setMode (path : PathBuf) (mode : ℕ) : Action Unit := io (IoM.op (.setPermissions path mode))

/-- `set_mtime`. -/
def setMtime (path : PathBuf) (mtime : ℤ) : Action Unit := io (IoM.op (.setFileMtime path mtime))

end SandD
