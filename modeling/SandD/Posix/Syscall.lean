import SandD.Lib.Program
import SandD.Posix.FileSystem

/-!
# Path resolution and file-system operations

`FS.resolve` takes a path to a place the way the kernel does: it goes down through directories,
takes `..` to the place above, and follows symbolic links, at most forty of them; the last
component is followed only on request, and it need not exist.

`FsOp` lists the operations of `std::fs`, `tokio::fs` and `filetime` that programs issue, and
`Kernel.handle` says what each of them does.  Opening a special file fails, since it would block
or has no contents to speak of.
-/

namespace Posix

/-- Errors of the operations. -/
inductive Errno
  | enoent | eexist | enotdir | eisdir | eloop | einval | enxio | ebusy | enametoolong | enospc
  | eio
  deriving DecidableEq

/-! ### Resolution -/

/-- The path of a place. -/
def Loc.toPath (v : Loc) : PathBuf := v.map .name

/-- Where the target of a link that stands in `cur` starts from. -/
def Target.base (t : Target) (cur : Loc) : Loc := if isAbsolute t.bytes then [] else cur

namespace FS

/-- Resolve a path from the directory `cur`; `expand` goes on behind a link. -/
def walkWith (fs : FS) (follow : Bool) (expand : Loc → PathBuf → Except Errno Loc) :
    Loc → PathBuf → Except Errno Loc
  | cur, [] => .ok cur
  | cur, .parent :: rest => walkWith fs follow expand cur.dropLast rest
  | _, .nul _ :: _ => .error .einval
  | cur, .name n :: rest =>
    match fs.lookup (cur ++ [n]) with
    | some (.symlink t _) =>
      if rest = [] ∧ follow = false then .ok (cur ++ [n])
      else expand (t.base cur) (components t.bytes ++ rest)
    | some (.dir ..) => walkWith fs follow expand (cur ++ [n]) rest
    | some _ => if rest = [] then .ok (cur ++ [n]) else .error .enotdir
    | none => if rest = [] then .ok (cur ++ [n]) else .error .enoent

/-- Resolve a path with a budget of links. -/
def walk (fs : FS) (follow : Bool) : ℕ → Loc → PathBuf → Except Errno Loc
  | 0 => fs.walkWith follow fun _ _ => .error .eloop
  | n + 1 => fs.walkWith follow (walk fs follow n)

/-- The number of links the kernel follows. -/
def maxLinks : ℕ := 40

/-- From a path to a place. -/
def resolve (fs : FS) (follow : Bool) (p : PathBuf) : Except Errno Loc :=
  fs.walk follow maxLinks [] p

end FS

/-! ### The operations -/

/-- What kind of node a place holds, to `stat`. -/
inductive FileType
  | file | dir | symlink | special
  deriving DecidableEq

/-- `std::fs::Metadata`. -/
structure Metadata where
  fileType : FileType
  len : ℕ
  /-- `st_mode`: the file type and the permission bits. -/
  mode : ℕ
  modified : ℤ
  deriving DecidableEq

/-- What `stat` says about a node. -/
def Node.metadata : Node → Metadata
  | .file data mode mtime => ⟨.file, data.length, 0o100000 + mode.toNat, mtime⟩
  | .dir mode mtime size => ⟨.dir, size, 0o040000 + mode.toNat, mtime⟩
  | .symlink target mtime => ⟨.symlink, target.bytes.length, 0o120777, mtime⟩
  | .special mode mtime => ⟨.special, 0, 0o010000 + mode.toNat, mtime⟩

/-- New contents for a regular file. -/
def Node.overwrite (data : Bytes) (now : ℤ) : Node → Node
  | .file _ mode _ => .file data mode now
  | nd => nd

/-- New permission bits; those of a link cannot be changed. -/
def Node.setMode (mode : Mode) : Node → Node
  | .file data _ mtime => .file data mode mtime
  | .dir _ mtime size => .dir mode mtime size
  | .special _ mtime => .special mode mtime
  | nd => nd

/-- A new modification time. -/
def Node.setMtime (mtime : ℤ) : Node → Node
  | .file data mode _ => .file data mode mtime
  | .dir mode _ size => .dir mode mtime size
  | .symlink target _ => .symlink target mtime
  | .special mode _ => .special mode mtime

/-- The operations. -/
inductive FsOp
  | metadata (p : PathBuf)
  | symlinkMetadata (p : PathBuf)
  | readLink (p : PathBuf)
  | readDir (p : PathBuf)
  | openFile (p : PathBuf)
  | readChunk (f : Loc) (offset size : ℕ)
  | read (p : PathBuf)
  | createDir (p : PathBuf)
  | write (p : PathBuf) (data : Bytes)
  | copy (src dst : PathBuf)
  | rename (src dst : PathBuf)
  | removeFile (p : PathBuf)
  | removeDirAll (p : PathBuf)
  | symlink (target : Bytes) (p : PathBuf)
  | setPermissions (p : PathBuf) (mode : ℕ)
  | setFileMtime (p : PathBuf) (mtime : ℤ)

/-- What an operation gives back when it succeeds. -/
abbrev FsOp.Ret : FsOp → Type
  | .metadata _ => Metadata
  | .symlinkMetadata _ => Metadata
  | .readLink _ => Bytes
  | .readDir _ => List FileName
  | .openFile _ => Loc
  | .readChunk .. => Bytes
  | .read _ => Bytes
  | _ => Unit

/-- The answer to an operation. -/
abbrev FsOp.Res (o : FsOp) : Type := Except Errno o.Ret

/-- The surroundings of a run: the clock, the file mode mask and the size of a new directory. -/
structure Kernel where
  now : ℤ
  umask : Mode
  dirSize : ℕ

/-- A new directory. -/
def Kernel.newDir (K : Kernel) : Node := .dir (0o777 &&& ~~~K.umask) K.now K.dirSize

namespace FS

/-- The node a path leads to. -/
def stat (fs : FS) (follow : Bool) (p : PathBuf) : Except Errno Node :=
  match fs.resolve follow p with
  | .ok v =>
    match fs.lookup v with
    | some nd => .ok nd
    | none => .error .enoent
  | .error e => .error e

/-- `read_link`. -/
def readLink (fs : FS) (p : PathBuf) : Except Errno Bytes :=
  match fs.stat false p with
  | .ok (.symlink t _) => .ok t.bytes
  | .ok _ => .error .einval
  | .error e => .error e

/-- `read_dir`: the names, as they are listed when the directory is opened. -/
def readDir (fs : FS) (p : PathBuf) : Except Errno (List FileName) :=
  match fs.resolve true p with
  | .ok v =>
    match fs.lookup v with
    | some (.dir ..) => .ok (fs.names v)
    | some _ => .error .enotdir
    | none => .error .enoent
  | .error e => .error e

/-- `File::open`: directories can be opened for reading as well. -/
def openFile (fs : FS) (p : PathBuf) : Except Errno Loc :=
  match fs.resolve true p with
  | .ok v =>
    match fs.lookup v with
    | some (.special ..) => .error .enxio
    | some _ => .ok v
    | none => .error .enoent
  | .error e => .error e

/-- One `read` of an open file. -/
def readChunk (fs : FS) (f : Loc) (offset size : ℕ) : Except Errno Bytes :=
  match fs.lookup f with
  | some (.file data _ _) => .ok ((data.drop offset).take size)
  | some (.dir ..) => .error .eisdir
  | _ => .ok []

/-- `std::fs::read`. -/
def read (fs : FS) (p : PathBuf) : Except Errno Bytes :=
  match fs.stat true p with
  | .ok (.file data _ _) => .ok data
  | .ok (.dir ..) => .error .eisdir
  | .ok _ => .error .enxio
  | .error e => .error e

variable (K : Kernel)

/-- `create_dir`. -/
def createDir (fs : FS) (p : PathBuf) : Except Errno FS :=
  match fs.resolve false p with
  | .ok v =>
    match fs.lookup v with
    | some _ => .error .eexist
    | none => .ok (fs.insert v K.newDir)
  | .error e => .error e

/-- Open the file a path leads to for writing, and give it contents and, when it is new, a
mode. -/
def put (fs : FS) (v : Loc) (mode : Mode) (data : Bytes) : Except Errno FS :=
  match fs.lookup v with
  | none => .ok (fs.insert v (.file data mode K.now))
  | some (.file ..) => .ok (fs.modify v (Node.overwrite data K.now))
  | some (.dir ..) => .error .eisdir
  | some (.symlink ..) => .error .eloop
  | some (.special ..) => .error .enxio

/-- `std::fs::write`. -/
def write (fs : FS) (p : PathBuf) (data : Bytes) : Except Errno FS :=
  match fs.resolve true p with
  | .ok v => fs.put K v (0o666 &&& ~~~K.umask) data
  | .error e => .error e

/-- `std::fs::copy`, of as much of the contents as `part` keeps: the destination is truncated
before the source is read, and takes the permission bits of the source. -/
def copyPart (part : Bytes → Bytes) (fs : FS) (src dst : PathBuf) : Except Errno FS :=
  match fs.resolve true src with
  | .ok v =>
    match fs.lookup v with
    | some (.file data mode _) =>
      match fs.resolve true dst with
      | .ok w =>
        match fs.put K w mode (if v = w then [] else part data) with
        | .ok fs' => .ok (fs'.modify w (Node.setMode mode))
        | .error e => .error e
      | .error e => .error e
    | some (.special ..) => .error .enxio
    | some _ => .error .einval
    | none => .error .enoent
  | .error e => .error e

/-- `std::fs::copy`. -/
def copy (fs : FS) (src dst : PathBuf) : Except Errno FS := fs.copyPart K id src dst

/-- `rename`, of anything but a directory. -/
def rename (fs : FS) (src dst : PathBuf) : Except Errno FS :=
  match fs.resolve false src, fs.resolve false dst with
  | .ok v, .ok w =>
    match fs.lookup v with
    | none => .error .enoent
    | some nd =>
      if nd.isDir then .error .einval
      else if fs.isDir w then .error .eisdir
      else if v = w then .ok fs
      else .ok ((fs.remove v).insert w nd)
  | .error e, _ => .error e
  | _, .error e => .error e

/-- `remove_file`. -/
def removeFile (fs : FS) (p : PathBuf) : Except Errno FS :=
  match fs.resolve false p with
  | .ok v =>
    match fs.lookup v with
    | none => .error .enoent
    | some nd => if nd.isDir then .error .eisdir else .ok (fs.remove v)
  | .error e => .error e

/-- `remove_dir_all`; a link to a directory is removed itself. -/
def removeDirAll (fs : FS) (p : PathBuf) : Except Errno FS :=
  match fs.resolve false p with
  | .ok v =>
    if v = [] then .error .ebusy
    else
      match fs.lookup v with
      | none => .error .enoent
      | some nd => if nd.isDir || nd.isLink then .ok (fs.remove v) else .error .enotdir
  | .error e => .error e

/-- `symlink`. -/
def symlink (fs : FS) (target : Bytes) (p : PathBuf) : Except Errno FS :=
  if h0 : target = [] then .error .enoent
  else if hn : 0 ∈ target then .error .einval
  else
    match fs.resolve false p with
    | .ok v =>
      match fs.lookup v with
      | some _ => .error .eexist
      | none => .ok (fs.insert v (.symlink ⟨target, h0, hn⟩ K.now))
    | .error e => .error e

/-- Change the node a path leads to; the root stays as it is. -/
def change (fs : FS) (p : PathBuf) (f : Node → Node) : Except Errno FS :=
  match fs.resolve true p with
  | .ok v =>
    if v = [] then .error .ebusy
    else
      match fs.lookup v with
      | some _ => .ok (fs.modify v f)
      | none => .error .enoent
  | .error e => .error e

end FS

/-- The answer to an operation that changes the file system or fails. -/
def Kernel.commit (fs : FS) : Except Errno FS → Except Errno Unit × FS
  | .ok fs' => (.ok (), fs')
  | .error e => (.error e, fs)

/-- What the operations do. -/
def Kernel.handle (K : Kernel) : Program.Handler FsOp FsOp.Res FS
  | .metadata p, fs => ((fs.stat true p).map Node.metadata, fs)
  | .symlinkMetadata p, fs => ((fs.stat false p).map Node.metadata, fs)
  | .readLink p, fs => (fs.readLink p, fs)
  | .readDir p, fs => (fs.readDir p, fs)
  | .openFile p, fs => (fs.openFile p, fs)
  | .readChunk f offset size, fs => (fs.readChunk f offset size, fs)
  | .read p, fs => (fs.read p, fs)
  | .createDir p, fs => Kernel.commit fs (fs.createDir K p)
  | .write p data, fs => Kernel.commit fs (fs.write K p data)
  | .copy src dst, fs => Kernel.commit fs (fs.copy K src dst)
  | .rename src dst, fs => Kernel.commit fs (fs.rename src dst)
  | .removeFile p, fs => Kernel.commit fs (fs.removeFile p)
  | .removeDirAll p, fs => Kernel.commit fs (fs.removeDirAll p)
  | .symlink target p, fs => Kernel.commit fs (fs.symlink K target p)
  | .setPermissions p mode, fs =>
    Kernel.commit fs (fs.change p (Node.setMode (BitVec.ofNat 12 mode)))
  | .setFileMtime p mtime, fs => Kernel.commit fs (fs.change p (Node.setMtime mtime))

/-- What a torn operation may leave: of a write or a copy, a part of the contents. -/
inductive Kernel.Torn (K : Kernel) : FsOp → FS → FS → Prop
  | write {p : PathBuf} {data : Bytes} {fs fs' : FS} (n : ℕ)
      (h : fs.write K p (data.take n) = .ok fs') : Torn K (.write p data) fs fs'
  | copy {src dst : PathBuf} {fs fs' : FS} (n : ℕ)
      (h : fs.copyPart K (List.take n) src dst = .ok fs') : Torn K (.copy src dst) fs fs'

/-! ### Where paths lead -/

namespace FS

variable {fs : FS}

/-- A path that was resolved has a directory above its end. -/
theorem walkWith_parent {follow : Bool} {expand : Loc → PathBuf → Except Errno Loc}
    (he : ∀ cur p v, fs.isDir cur → expand cur p = .ok v →
      v = [] ∨ ∃ d n, v = d ++ [n] ∧ fs.isDir d)
    {p : PathBuf} : ∀ {cur v : Loc}, fs.isDir cur → fs.walkWith follow expand cur p = .ok v →
      v = [] ∨ ∃ d n, v = d ++ [n] ∧ fs.isDir d := by
  have self : ∀ cur : Loc, fs.isDir cur → cur = [] ∨ ∃ d n, cur = d ++ [n] ∧ fs.isDir d := by
    intro cur hcur
    by_cases hnil : cur = []
    · exact Or.inl hnil
    · exact Or.inr ⟨cur.dropLast, cur.getLast hnil, (List.dropLast_append_getLast hnil).symm,
        isDir_dropLast hcur⟩
  induction p with
  | nil =>
    intro cur v hcur h
    cases h
    exact self cur hcur
  | cons c rest ih =>
    intro cur v hcur h
    cases c with
    | nul => cases h
    | parent => exact ih (isDir_dropLast hcur) h
    | name n =>
      have here : v = cur ++ [n] → v = [] ∨ ∃ d n, v = d ++ [n] ∧ fs.isDir d := fun h =>
        Or.inr ⟨cur, n, h, hcur⟩
      simp only [walkWith] at h
      split at h
      · split_ifs at h with hf
        · cases h
          exact here rfl
        · refine he _ _ _ ?_ h
          unfold Target.base
          split_ifs
          · rfl
          · exact hcur
      · rename_i hl
        exact ih (isDir_of_lookup hl) h
      · split_ifs at h
        cases h
        exact here rfl
      · split_ifs at h
        cases h
        exact here rfl

theorem walk_parent {follow : Bool} {n : ℕ} {p : PathBuf} {cur v : Loc} (hcur : fs.isDir cur)
    (h : fs.walk follow n cur p = .ok v) : v = [] ∨ ∃ d n, v = d ++ [n] ∧ fs.isDir d := by
  induction n generalizing cur p v with
  | zero => exact walkWith_parent (fun _ _ _ _ h => by cases h) hcur h
  | succ n ih => exact walkWith_parent (fun _ _ _ hc h => ih hc h) hcur h

theorem resolve_parent {follow : Bool} {p : PathBuf} {v : Loc}
    (h : fs.resolve follow p = .ok v) : v = [] ∨ ∃ d n, v = d ++ [n] ∧ fs.isDir d :=
  walk_parent rfl h

/-- Resolution depends on what is found alone. -/
theorem resolve_congr {fs' : FS} (h : fs'.lookup = fs.lookup) (follow : Bool) (p : PathBuf) :
    fs'.resolve follow p = fs.resolve follow p := by
  have walkWith_congr : ∀ {expand expand' : Loc → PathBuf → Except Errno Loc},
      (∀ cur p, expand' cur p = expand cur p) → ∀ (p : PathBuf) (cur : Loc),
        fs'.walkWith follow expand' cur p = fs.walkWith follow expand cur p := by
    intro expand expand' he p
    induction p with
    | nil => exact fun _ => rfl
    | cons c rest ih =>
      intro cur
      cases c with
      | nul => rfl
      | parent => exact ih _
      | name n => simp only [walkWith, h, he, ih]
  have walk_congr : ∀ (n : ℕ) (cur : Loc) (p : PathBuf),
      fs'.walk follow n cur p = fs.walk follow n cur p := by
    intro n
    induction n with
    | zero => exact fun cur p => walkWith_congr (fun _ _ => rfl) p cur
    | succ n ih => exact fun cur p => walkWith_congr ih p cur
  exact walk_congr _ _ _

/-- `p` leads to the directory `r`, and what comes after `p` is resolved from `r`. -/
structure Leads (fs : FS) (p : PathBuf) (r : Loc) : Prop where
  isDir : fs.isDir r
  self : fs.resolve true p = .ok r
  rest : ∃ n, ∀ follow q, q ≠ [] → fs.resolve follow (p ++ q) = fs.walk follow n r q

theorem walk_name {follow : Bool} {n : ℕ} {cur : Loc} {c : FileName} {rest : PathBuf}
    {m : Mode} {t : ℤ} {s : ℕ} (h : fs.lookup (cur ++ [c]) = some (.dir m t s)) :
    fs.walk follow n cur (.name c :: rest) = fs.walk follow n (cur ++ [c]) rest := by
  cases n <;> simp only [walk, walkWith, h]

theorem walk_link {follow : Bool} {n : ℕ} {cur : Loc} {c : FileName} {rest : PathBuf}
    {l : Target} {t : ℤ} (h : fs.lookup (cur ++ [c]) = some (.symlink l t))
    (hr : rest ≠ [] ∨ follow = true) :
    fs.walk follow (n + 1) cur (.name c :: rest) =
      fs.walk follow n (l.base cur) (components l.bytes ++ rest) := by
  have : ¬ (rest = [] ∧ follow = false) := by
    rintro ⟨h1, h2⟩
    rcases hr with h3 | h3
    · exact h3 h1
    · rw [h2] at h3
      cases h3
  simp only [walk, walkWith, h, if_neg this]

/-- How a walk goes on at a name. -/
theorem walk_name_ok {follow : Bool} {n : ℕ} {cur v : Loc} {c : FileName} {rest : PathBuf}
    (h : fs.walk follow n cur (.name c :: rest) = .ok v) :
    (fs.isDir (cur ++ [c]) ∧ fs.walk follow n (cur ++ [c]) rest = .ok v) ∨
    (rest = [] ∧ v = cur ++ [c] ∧ ¬ fs.isDir v ∧ (follow = true → ¬ fs.isLink v)) ∨
    ∃ n' l t, n = n' + 1 ∧ fs.lookup (cur ++ [c]) = some (.symlink l t) ∧
      (rest ≠ [] ∨ follow = true) ∧
      fs.walk follow n' (l.base cur) (components l.bytes ++ rest) = .ok v := by
  rcases hl : fs.lookup (cur ++ [c]) with _ | (_ | _ | ⟨l, t⟩ | _)
  case some.dir => exact Or.inl ⟨isDir_of_lookup hl, by rwa [walk_name hl] at h⟩
  case some.symlink =>
    by_cases hf : rest = [] ∧ follow = false
    · have hv : v = cur ++ [c] := by
        cases n <;> simp only [walk, walkWith, hl, if_pos hf] at h <;> cases h <;> rfl
      refine Or.inr (Or.inl ⟨hf.1, hv, ?_, fun h => ?_⟩)
      · simp [isDir, hv, hl, Node.isDir]
      · rw [hf.2] at h
        cases h
    · have hr : rest ≠ [] ∨ follow = true := by
        by_contra hn
        simp only [not_or, ne_eq, not_not, Bool.not_eq_true] at hn
        exact hf hn
      cases n with
      | zero => simp only [walk, walkWith, hl, if_neg hf] at h; cases h
      | succ n => exact Or.inr (Or.inr ⟨n, l, t, rfl, rfl, hr, by rwa [walk_link hl hr] at h⟩)
  all_goals
    have hr : rest = [] ∧ v = cur ++ [c] := by
      cases n <;> simp only [walk, walkWith, hl] at h <;> split_ifs at h with hr <;> cases h <;>
        exact ⟨hr, rfl⟩
    refine Or.inr (Or.inl ⟨hr.1, hr.2, ?_, fun _ => ?_⟩)
    · simp [isDir, hr.2, hl, Node.isDir]
    · simp [isLink, hr.2, hl, Node.isLink]

theorem walk_append {n : ℕ} {p : PathBuf} {cur r : Loc} (h : fs.walk true n cur p = .ok r)
    (hr : fs.isDir r) :
    ∃ n', ∀ follow q, q ≠ [] → fs.walk follow n cur (p ++ q) = fs.walk follow n' r q := by
  induction n using Nat.strong_induction_on generalizing cur p with
  | _ n ihn =>
  induction p generalizing cur with
  | nil =>
    have : cur = r := by cases n <;> cases h <;> rfl
    exact ⟨n, fun _ _ _ => by rw [this, List.nil_append]⟩
  | cons c rest ih =>
    cases c with
    | nul => cases n <;> cases h
    | parent =>
      obtain ⟨n', hn'⟩ := @ih cur.dropLast (by cases n <;> exact h)
      exact ⟨n', fun follow q hq => by rw [← hn' follow q hq]; cases n <;> rfl⟩
    | name c =>
      rcases walk_name_ok h with ⟨hd, h⟩ | ⟨-, -, hd, -⟩ | ⟨n', l, t, rfl, hl, -, h⟩
      · obtain ⟨m, t, s, hl⟩ := isDir_iff.1 hd
        obtain ⟨n', hn'⟩ := ih h
        exact ⟨n', fun follow q hq => by
          rw [List.cons_append, walk_name hl]
          exact hn' follow q hq⟩
      · exact absurd hr hd
      · obtain ⟨n'', hn''⟩ := ihn n' (Nat.lt_succ_self _) h
        exact ⟨n'', fun follow q hq => by
          rw [List.cons_append, walk_link hl (Or.inl (by simp [hq])), ← List.append_assoc]
          exact hn'' follow q hq⟩

/-- A path that is resolved to a directory leads there. -/
theorem leads_of_resolve {p : PathBuf} {r : Loc} (h : fs.resolve true p = .ok r)
    (hr : fs.isDir r) : fs.Leads p r :=
  ⟨hr, h, walk_append h hr⟩

/-- Directories are walked through. -/
theorem walk_dirs (follow : Bool) (n : ℕ) {q cur : Loc} (rest : PathBuf)
    (hq : fs.isDir (cur ++ q)) :
    fs.walk follow n cur (Loc.toPath q ++ rest) = fs.walk follow n (cur ++ q) rest := by
  induction q generalizing cur with
  | nil => simp [Loc.toPath]
  | cons c q ih =>
    have hq' : fs.isDir ((cur ++ [c]) ++ q) := by simpa using hq
    have hc : fs.isDir (cur ++ [c]) := by
      by_contra hc
      by_cases h : q = []
      · exact hc (by simpa [h] using hq')
      · rw [isDir, lookup_append_of_not_isDir hc h] at hq'
        cases hq'
    obtain ⟨m, t, s, hl⟩ := isDir_iff.1 hc
    calc fs.walk follow n cur (Loc.toPath (c :: q) ++ rest)
        = fs.walk follow n (cur ++ [c]) (Loc.toPath q ++ rest) := walk_name hl
      _ = fs.walk follow n (cur ++ c :: q) rest := by rw [ih hq']; simp

@[simp] theorem walk_nil (follow : Bool) (n : ℕ) (cur : Loc) :
    fs.walk follow n cur [] = .ok cur := by
  cases n <;> rfl

/-- A place that is no link, or that is not followed, is where its path leads. -/
theorem walk_last {follow : Bool} {n : ℕ} {cur : Loc} {c : FileName}
    (h : follow = false ∨ ¬ fs.isLink (cur ++ [c])) :
    fs.walk follow n cur [.name c] = .ok (cur ++ [c]) := by
  rcases hl : fs.lookup (cur ++ [c]) with _ | (_ | _ | ⟨l, t⟩ | _)
  case some.dir => rw [walk_name hl, walk_nil]
  case some.symlink =>
    rcases h with rfl | h
    · cases n <;> simp [walk, walkWith, hl]
    · simp [isLink, hl, Node.isLink] at h
  all_goals cases n <;> simp [walk, walkWith, hl]

theorem leads_nil (fs : FS) : fs.Leads [] [] := leads_of_resolve rfl rfl

theorem Leads.below {p : PathBuf} {r q : Loc} (h : fs.Leads p r) (hq : fs.isDir (r ++ q)) :
    fs.Leads (p ++ Loc.toPath q) (r ++ q) := by
  by_cases hnil : q = []
  · subst hnil
    simpa [Loc.toPath] using h
  · obtain ⟨n, hn⟩ := h.rest
    refine leads_of_resolve ?_ hq
    rw [hn true _ (by simpa [Loc.toPath] using hnil)]
    have := walk_dirs true n [] hq
    rwa [List.append_nil, walk_nil] at this

/-- The path of a directory leads to it. -/
theorem leads_toPath {r : Loc} (hr : fs.isDir r) : fs.Leads (Loc.toPath r) r := by
  simpa using (leads_nil fs).below (q := r) (by simpa using hr)

theorem Leads.resolve_child {follow : Bool} {p : PathBuf} {r : Loc} (h : fs.Leads p r)
    (n : FileName) (hn : follow = false ∨ ¬ fs.isLink (r ++ [n])) :
    fs.resolve follow (p ++ [.name n]) = .ok (r ++ [n]) := by
  obtain ⟨k, hk⟩ := h.rest
  rw [hk follow _ (by simp), walk_last hn]

/-- No place on the way down `q` from `r` is a link, but for the last one when it is not
followed. -/
def LinkFree (fs : FS) (follow : Bool) (r q : Loc) : Prop :=
  ∀ u, u <+: q → u ≠ [] → (u ≠ q ∨ follow = true) → ¬ fs.isLink (r ++ u)

theorem walk_only {follow : Bool} {n : ℕ} {cur q v : Loc} (hq : fs.LinkFree follow cur q)
    (h : fs.walk follow n cur (Loc.toPath q) = .ok v) : v = cur ++ q := by
  induction q generalizing cur with
  | nil =>
    rw [show Loc.toPath [] = [] from rfl, walk_nil] at h
    cases h
    simp
  | cons c q ih =>
    have hlf : fs.LinkFree follow (cur ++ [c]) q := by
      intro u hu hne hor
      have := hq (c :: u) (List.prefix_cons_inj c |>.2 hu) (by simp)
        (hor.imp_left fun h heq => h (List.cons_injective heq))
      simpa using this
    rcases walk_name_ok h with ⟨-, h⟩ | ⟨hr, rfl, -⟩ | ⟨n', l, t, -, hl, hr, -⟩
    · simpa using ih hlf h
    · have : q = [] := by simpa [Loc.toPath] using hr
      rw [this]
    · refine absurd (isLink_iff.2 ⟨l, t, hl⟩) (hq [c] ?_ (by simp) ?_)
      · simp [List.prefix_cons_iff]
      · refine hr.imp_left fun h heq => h ?_
        have : q = [] := (List.cons_injective heq).symm
        rw [this]
        rfl

/-- Without links on the way, a path can only lead to the place it spells. -/
theorem Leads.resolve_only {follow : Bool} {p : PathBuf} {r q v : Loc} (h : fs.Leads p r)
    (hne : q ≠ []) (hq : fs.LinkFree follow r q)
    (hv : fs.resolve follow (p ++ Loc.toPath q) = .ok v) : v = r ++ q := by
  obtain ⟨n, hn⟩ := h.rest
  rw [hn follow _ (by simpa [Loc.toPath] using hne)] at hv
  exact walk_only hq hv

/-- A directory that is found by following links is found, or a link to it, without. -/
theorem walk_nofollow {n : ℕ} {p : PathBuf} {cur r : Loc} (hcur : fs.isDir cur)
    (h : fs.walk true n cur p = .ok r) (hr : (fs.lookup r).isSome) :
    ∃ v, fs.walk false n cur p = .ok v ∧ (fs.lookup v).isSome := by
  induction n using Nat.strong_induction_on generalizing cur p with
  | _ n ihn =>
  induction p generalizing cur with
  | nil =>
    rw [walk_nil] at h
    cases h
    exact ⟨_, walk_nil .., hr⟩
  | cons c rest ih =>
    cases c with
    | nul => cases n <;> cases h
    | parent =>
      obtain ⟨v, hv⟩ := ih (isDir_dropLast hcur) (by cases n <;> exact h)
      exact ⟨v, by cases n <;> exact hv⟩
    | name c =>
      rcases walk_name_ok h with ⟨hd, h⟩ | ⟨rfl, rfl, -⟩ | ⟨n', l, t, rfl, hl, -, h⟩
      · obtain ⟨m, t, s, hl⟩ := isDir_iff.1 hd
        obtain ⟨v, hv⟩ := ih hd h
        exact ⟨v, by rwa [walk_name hl]⟩
      · exact ⟨_, walk_last (Or.inl rfl), hr⟩
      · by_cases hrest : rest = []
        · subst hrest
          exact ⟨cur ++ [c], walk_last (Or.inl rfl), by simp [hl]⟩
        · have hb : fs.isDir (l.base cur) := by
            unfold Target.base
            split_ifs
            · rfl
            · exact hcur
          obtain ⟨v, hv⟩ := ihn n' (Nat.lt_succ_self _) hb h
          exact ⟨v, by rwa [walk_link hl (Or.inl hrest)]⟩

/-! ### Paths in a changing file system -/

/-- What resolution depends on at a place is kept: a directory stays one, a link keeps its
target. -/
def Keeps (fs fs' : FS) (v : Loc) : Prop :=
  (fs.isDir v → fs'.isDir v) ∧
    ∀ l t, fs.lookup v = some (.symlink l t) → ∃ t', fs'.lookup v = some (.symlink l t')

theorem Keeps.of_eq {fs fs' : FS} {v : Loc} (h : fs'.lookup v = fs.lookup v) :
    Keeps fs fs' v :=
  ⟨fun hd => by rwa [isDir, h], fun l t hl => ⟨t, h.trans hl⟩⟩

theorem walk_keeps {fs' : FS} {n : ℕ} {p : PathBuf} {cur r : Loc} (hk : ∀ v, Keeps fs fs' v)
    (h : fs.walk true n cur p = .ok r) (hr : ¬ fs'.isLink r) : fs'.walk true n cur p = .ok r := by
  induction n using Nat.strong_induction_on generalizing cur p with
  | _ n ihn =>
  induction p generalizing cur with
  | nil => rwa [walk_nil] at h ⊢
  | cons c rest ih =>
    cases c with
    | nul => cases n <;> cases h
    | parent =>
      have := @ih cur.dropLast (by cases n <;> exact h)
      cases n <;> exact this
    | name c =>
      rcases walk_name_ok h with ⟨hd, h⟩ | ⟨rfl, rfl, -, -⟩ | ⟨n', l, t, rfl, hl, -, h⟩
      · obtain ⟨m, t, s, hl⟩ := isDir_iff.1 ((hk _).1 hd)
        rw [walk_name hl]
        exact ih h
      · exact walk_last (Or.inr hr)
      · obtain ⟨t', hl'⟩ := (hk _).2 l t hl
        rw [walk_link hl' (Or.inr rfl)]
        exact ihn n' (Nat.lt_succ_self _) h

theorem not_isLink_of_isDir {v : Loc} (h : fs.isDir v) : ¬ fs.isLink v := by
  obtain ⟨m, t, s, hl⟩ := isDir_iff.1 h
  simp [isLink, hl, Node.isLink]

theorem walk_not_isLink {n : ℕ} {p : PathBuf} {cur v : Loc} (hcur : fs.isDir cur)
    (h : fs.walk true n cur p = .ok v) : ¬ fs.isLink v := by
  induction n using Nat.strong_induction_on generalizing cur p with
  | _ n ihn =>
  induction p generalizing cur with
  | nil =>
    rw [walk_nil] at h
    cases h
    exact not_isLink_of_isDir hcur
  | cons c rest ih =>
    cases c with
    | nul => cases n <;> cases h
    | parent => exact ih (isDir_dropLast hcur) (by cases n <;> exact h)
    | name c =>
      rcases walk_name_ok h with ⟨hd, h⟩ | ⟨-, -, -, hl⟩ | ⟨n', l, t, rfl, -, -, h⟩
      · exact ih hd h
      · exact hl rfl
      · refine ihn n' (Nat.lt_succ_self _) ?_ h
        unfold Target.base
        split_ifs
        · rfl
        · exact hcur

/-- A path that is followed to its end does not end at a link. -/
theorem resolve_not_isLink {p : PathBuf} {v : Loc} (h : fs.resolve true p = .ok v) :
    ¬ fs.isLink v :=
  walk_not_isLink (isDir_nil fs) h

theorem Leads.keeps {fs' : FS} {p : PathBuf} {r : Loc} (h : fs.Leads p r)
    (hk : ∀ v, Keeps fs fs' v) : fs'.Leads p r :=
  have hr := (hk r).1 h.isDir
  leads_of_resolve (walk_keeps hk h.self (not_isLink_of_isDir hr)) hr

/-- `p` leads to `r`, whatever becomes of what is below `r`. -/
def Pinned (fs : FS) (p : PathBuf) (r : Loc) : Prop :=
  ∀ fs' : FS, (∀ v, ¬ (r <+: v ∧ v ≠ r) → Keeps fs fs' v) → fs'.Leads p r

theorem Pinned.leads {p : PathBuf} {r : Loc} (h : fs.Pinned p r) : fs.Leads p r :=
  h fs fun _ _ => Keeps.of_eq rfl

theorem Pinned.child {p : PathBuf} {r : Loc} {n : FileName} (h : fs.Pinned p r)
    (hn : fs.isDir (r ++ [n])) : fs.Pinned (p ++ [.name n]) (r ++ [n]) := by
  intro fs' hk
  have hr : fs'.Leads p r := h fs' fun v hv => hk v fun hv' =>
    hv ⟨(List.prefix_append _ _).trans hv'.1, fun heq => not_prefix_concat r n (heq ▸ hv'.1)⟩
  exact hr.below (q := [n]) ((hk _ fun h => h.2 rfl).1 hn)

end FS

end Posix
