import SandD.Posix.StdFs

/-!
# The object store

The content-addressed store of a snapshot root: a blob is the file
`objects/ab/cdef…` for the BLAKE3 hash `abcdef…` of its contents.

* `Blake3`: the hash function, as the store uses it, and `Blake3.Lawful`, what the store relies
  on;
* `Error`, `Action`: the errors of the snapshot code, and its programs;
* `ObjectStore.putBlob`, `putFile`, `getBlob`, `copyFile`, `contains`, `hashToPath`.

`putFile` reads a file piece by piece.  How many bytes a read returns is up to the system, which
`reads` stands for, and the loop is given a bound on its rounds.
-/

namespace SandD

open Posix

/-! ### Hashing -/

/-- BLAKE3, with hashes in hexadecimal. -/
structure Blake3 where
  Hasher : Type
  new : Hasher
  update : Hasher → Bytes → Hasher
  finalize : Hasher → String
  hash : Bytes → String

/-- What may stand in a hash: `char::is_ascii_hexdigit`. -/
def isHexDigit (c : Char) : Bool :=
  ('0' ≤ c && c ≤ '9') || ('a' ≤ c && c ≤ 'f') || ('A' ≤ c && c ≤ 'F')

/-- What is relied on: hashing piece by piece is hashing the whole, there are no collisions, and
a hash is a string of at least three lower-case hexadecimal digits. -/
structure Blake3.Lawful (H : Blake3) : Prop where
  incremental : ∀ chunks : List Bytes,
    H.finalize (chunks.foldl H.update H.new) = H.hash chunks.flatten
  injective : Function.Injective H.hash
  long : ∀ b, 3 ≤ (H.hash b).toList.length
  hex : ∀ b, ∀ c ∈ (H.hash b).toList, isHexDigit c ∧ ¬ c.isUpper

/-! ### Errors -/

/-- The errors of the snapshot code. -/
inductive Error
  | io (e : Errno)
  | context (msg : String) (source : Error)
  | bail (msg : String)
  /-- from `serde_json` -/
  | json
  /-- from `String::from_utf8` and `read_to_string` -/
  | utf8
  /-- a panic -/
  | panic
  /-- a loop of the model ran into its bound -/
  | outOfFuel
  deriving DecidableEq

/-- The programs of the snapshot code. -/
abbrev Action (α : Type) := Fallible FsOp FsOp.Res Error α

/-- `?` on a result of the system. -/
def io {α : Type} (p : IoM α) : Action α := Fallible.mapError Error.io p

/-- `with_context`. -/
def withContext {α : Type} (msg : String) (p : Action α) : Action α :=
  Fallible.mapError (Error.context msg) p

/-- `bail!`. -/
def bail {α : Type} (msg : String) : Action α := Fallible.fail (.bail msg)

/-! ### Paths of objects -/

/-- Cut characters after `n` bytes; `none` when that is not between two characters. -/
def splitAtByte : ℕ → List Char → Option (List Char × List Char)
  | 0, cs => some ([], cs)
  | _ + 1, [] => none
  | n + 1, c :: cs =>
    if c.utf8Size ≤ n + 1 then
      (splitAtByte (n + 1 - c.utf8Size) cs).map fun (a, b) => (c :: a, b)
    else none

/-- The store. -/
structure ObjectStore where
  root : PathBuf

namespace ObjectStore

variable (S : ObjectStore)

/-- From a hash to the path of the object. -/
def hashToPath (hash : String) : Except Error PathBuf :=
  if (utf8 hash).length < 3 then
    .error (.bail "Invalid hash: too short (need at least 3 chars)")
  else if !hash.toList.all isHexDigit then
    .error (.bail "Invalid hash: must contain only hex characters (0-9, a-f)")
  else
    -- `&hash[..2]` and `&hash[2..]` panic inside a character
    match splitAtByte 2 hash.toList with
    | none => .error .panic
    | some (front, back) =>
      .ok (((S.root.join (utf8 "objects")).join (utf8 (String.ofList front))).join
        (utf8 (String.ofList back)))

variable (H : Blake3)

/-- `object_path.parent().unwrap()`. -/
def parentOf (p : PathBuf) : Action PathBuf :=
  match p.parent with
  | some q => pure q
  | none => Fallible.fail .panic

/-- Store a blob. -/
def putBlob (content : Bytes) : Action String := do
  let hashHex := H.hash content
  let objectPath ← Fallible.ofExcept (S.hashToPath hashHex)
  if ← io (IoM.exists_ objectPath) then
    return hashHex
  io (IoM.createDirAll (← parentOf objectPath))
  let tempPath := objectPath.withExtension (utf8 "tmp")
  io (IoM.op (.write tempPath content))
  io (IoM.op (.rename tempPath objectPath))
  return hashHex

/-- The size of the read buffer. -/
def bufferSize : ℕ := 4 * 1024 * 1024

/-- How many bytes a read is given, at least one and at most a buffer. -/
def readSize (reads : Loc → ℕ → ℕ) (file : Loc) (offset : ℕ) : ℕ :=
  max 1 (min bufferSize (reads file offset))

/-- The loop of `put_file`. -/
def hashLoop (reads : Loc → ℕ → ℕ) (file : Loc) : ℕ → ℕ → H.Hasher → Action H.Hasher
  | 0, _, _ => Fallible.fail .outOfFuel
  | fuel + 1, offset, hasher => do
    let buffer ← io (IoM.op (.readChunk file offset (readSize reads file offset)))
    if buffer.length = 0 then
      return hasher
    hashLoop reads file fuel (offset + buffer.length) (H.update hasher buffer)

/-- Store a file. -/
def putFile (reads : Loc → ℕ → ℕ) (fuel : ℕ) (path : PathBuf) : Action String := do
  let file ← withContext s!"Failed to open file: {path.display}" (io (IoM.op (.openFile path)))
  let hasher ← hashLoop H reads file fuel 0 H.new
  let hashHex := H.finalize hasher
  let objectPath ← Fallible.ofExcept (S.hashToPath hashHex)
  if ← io (IoM.exists_ objectPath) then
    return hashHex
  io (IoM.createDirAll (← parentOf objectPath))
  let tempPath := objectPath.withExtension (utf8 "tmp")
  withContext "Failed to copy file to object store" (io (IoM.op (.copy path tempPath)))
  io (IoM.op (.rename tempPath objectPath))
  return hashHex

/-- The contents of an object. -/
def getBlob (hash : String) : Action Bytes := do
  let objectPath ← Fallible.ofExcept (S.hashToPath hash)
  withContext s!"Object {hash} not found" (io (IoM.op (.read objectPath)))

/-- Copy an object to a file. -/
def copyFile (hash : String) (dest : PathBuf) : Action Unit := do
  let objectPath ← Fallible.ofExcept (S.hashToPath hash)
  match dest.parent with
  | some parent => io (IoM.createDirAll parent)
  | none => pure ()
  withContext s!"Failed to copy object {hash} to {dest.display}"
    (io (IoM.op (.copy objectPath dest)))

/-- Whether there is an object: `ObjectStore::exists`. -/
def contains (hash : String) : Action Bool :=
  match S.hashToPath hash with
  | .ok p => io (IoM.exists_ p)
  | .error _ => pure false

end ObjectStore

end SandD
