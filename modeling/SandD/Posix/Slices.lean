import SandD.Lib.Parallel
import SandD.Posix.World

/-!
# System calls

`std::fs::write` and `std::fs::copy` are several system calls: the file is opened and truncated,
and then filled piece by piece.  Here they are cut up for two processes that share a file system.

* `SysCall`, `Shared` and `Kernel.sys`: the calls and what they do.  A process has a handle of the
  file it has opened last for writing, which follows the file when it is renamed;
* `FsOp.slices`: the calls an operation makes; in what pieces a file is filled is up to the system,
  which `sizes` stands for;
* `exec_slice`: alone, a program whose operations are cut up does what it does.

Closing a file changes nothing, and is left out.
-/

namespace Posix

open SandD (Side)

/-- A file that is open for writing: where it is, if it has a name, and how far it is written. -/
structure Handle where
  place : Option Loc
  offset : ℕ
  deriving DecidableEq

/-- The file system that two processes share, with the files they have opened last for writing. -/
structure Shared where
  fs : FS
  opened : Side → Option Handle

/-- The calls of a process. -/
inductive SysCall
  /-- an operation that is one call -/
  | whole (o : FsOp)
  | fstat (f : Loc)
  /-- `open`, with `O_WRONLY`, `O_CREAT` and `O_TRUNC` -/
  | openWrite (p : PathBuf) (mode : Mode)
  | fchmod (mode : Mode)
  | writePiece (data : Bytes)
  | copyRange (f : Loc) (offset size : ℕ)

/-- What a call gives back when it succeeds. -/
abbrev SysCall.Ret : SysCall → Type
  | .whole o => o.Ret
  | .fstat _ => Metadata
  | _ => Unit

/-- The answer to a call. -/
abbrev SysCall.Res (c : SysCall) : Type := Except Errno c.Ret

/-! ### Handles -/

namespace Handle

/-- The file at `v` was renamed to `w`, where another may have been. -/
def renamed (v w : Loc) (h : Handle) : Handle :=
  if h.place = some v then { h with place := some w }
  else if h.place = some w then { h with place := none }
  else h

/-- What was at `v` and below was removed. -/
def removed (v : Loc) (h : Handle) : Handle :=
  if h.place.any (v <+: ·) then { h with place := none } else h

end Handle

/-- What an operation does to the name of an open file. -/
def FS.follow (fs : FS) (h : Handle) : FsOp → Handle
  | .rename src dst =>
    match fs.resolve false src, fs.resolve false dst with
    | .ok v, .ok w => if (fs.rename src dst).isOk ∧ v ≠ w then h.renamed v w else h
    | _, _ => h
  | .removeFile p =>
    match fs.resolve false p with
    | .ok v => if (fs.removeFile p).isOk then h.removed v else h
    | .error _ => h
  | .removeDirAll p =>
    match fs.resolve false p with
    | .ok v => if (fs.removeDirAll p).isOk then h.removed v else h
    | .error _ => h
  | _ => h

/-! ### The calls -/

/-- Contents with new ones from an offset on; a gap is filled with zeros. -/
def splice (offset : ℕ) (new old : Bytes) : Bytes :=
  old.take offset ++ List.replicate (offset - old.length) 0 ++ new ++
    old.drop (offset + new.length)

/-- New contents for a regular file from an offset on. -/
def Node.splice (offset : ℕ) (new : Bytes) (now : ℤ) : Node → Node
  | .file data mode _ => .file (Posix.splice offset new data) mode now
  | nd => nd

namespace Shared

variable (s : Shared) (i : Side)

/-- Write to the file that is open. -/
def write (now : ℤ) (data : Bytes) : Except Errno Unit × Shared :=
  match s.opened i with
  | some ⟨some v, offset⟩ =>
    (.ok (), ⟨s.fs.modify v (Node.splice offset data now),
      Function.update s.opened i (some ⟨some v, offset + data.length⟩)⟩)
  | some ⟨none, offset⟩ =>
    (.ok (), { s with opened := Function.update s.opened i (some ⟨none, offset + data.length⟩) })
  | none => (.error .eio, s)

end Shared

/-- What the calls of a process do. -/
def Kernel.sys (K : Kernel) (i : Side) : Program.Handler SysCall SysCall.Res Shared
  | .whole o, s =>
    ((K.handle o s.fs).1, ⟨(K.handle o s.fs).2, fun j => (s.opened j).map (s.fs.follow · o)⟩)
  | .fstat f, s =>
    (match s.fs.lookup f with
      | some nd => .ok nd.metadata
      | none => .error .enoent, s)
  | .openWrite p mode, s =>
    match s.fs.resolve true p with
    | .ok v =>
      match s.fs.put K v (mode &&& ~~~K.umask) [] with
      | .ok fs' => (.ok (), ⟨fs', Function.update s.opened i (some ⟨some v, 0⟩)⟩)
      | .error e => (.error e, s)
    | .error e => (.error e, s)
  | .fchmod mode, s =>
    match s.opened i with
    | some ⟨some v, _⟩ => (.ok (), { s with fs := s.fs.modify v (Node.setMode mode) })
    | some ⟨none, _⟩ => (.ok (), s)
    | none => (.error .eio, s)
  | .writePiece data, s => s.write i K.now data
  | .copyRange f offset size, s =>
    match s.fs.readChunk f offset size with
    | .ok data => s.write i K.now data
    | .error e => (.error e, s)

/-! ### Operations cut into calls -/

/-- Programs over the calls. -/
abbrev CallM (α : Type) := Fallible SysCall SysCall.Res Errno α

/-- One call. -/
def CallM.call (c : SysCall) : CallM c.Ret := Fallible.perform (R := SysCall.Ret) c

open CallM (call)

/-- Go through pieces of the given sizes, from an offset on. -/
def inPieces (f : ℕ → ℕ → CallM Unit) : ℕ → List ℕ → CallM Unit
  | _, [] => pure ()
  | offset, n :: ns => do
    f offset n
    inPieces f (offset + n) ns

/-- `std::fs::write`. -/
def writeCalls (sizes : ℕ → List ℕ) (p : PathBuf) (data : Bytes) : CallM Unit := do
  call (.openWrite p 0o666)
  inPieces (fun offset n => call (.writePiece ((data.drop offset).take n))) 0 (sizes data.length)

/-- What `std::fs::copy` does when the source is open. -/
def fillFrom (sizes : ℕ → List ℕ) (f : Loc) (mode : Mode) (len : ℕ) (dst : PathBuf) :
    CallM Unit := do
  call (.openWrite dst mode)
  call (.fchmod mode)
  inPieces (fun offset n => call (.copyRange f offset n)) 0 (sizes len)

/-- `std::fs::copy`. -/
def copyCalls (sizes : ℕ → List ℕ) (src dst : PathBuf) : CallM Unit := do
  let f ← call (.whole (.openFile src))
  let metadata ← call (.fstat f)
  if metadata.fileType = .file then
    fillFrom sizes f (BitVec.ofNat 12 metadata.mode) metadata.len dst
  else Fallible.fail .einval

/-- The calls of an operation. -/
def FsOp.slices (sizes : ℕ → List ℕ) : (o : FsOp) → Program SysCall SysCall.Res o.Res
  | .write p data => writeCalls sizes p data
  | .copy src dst => copyCalls sizes src dst
  | o => .step (.whole o) .done

/-! ### Alone -/

namespace FS

variable {fs fs' : FS} {v : Loc} {mode mode' : Mode} {a b : Bytes}

theorem modify_insert (fs : FS) (v : Loc) (nd : Node) (f : Node → Node) :
    (fs.insert v nd).modify v f = fs.insert v (f nd) := by
  unfold insert modify
  rw [List.map_cons, if_pos rfl]
  congr 2
  refine (List.map_congr_left fun e he => ?_).trans (List.map_id _)
  have hne : ¬ v <+: e.1 := by simpa using (List.mem_filter.1 he).2
  exact if_neg fun heq : e.1 = v => hne (heq ▸ List.prefix_rfl)

theorem modify_modify (fs : FS) (v : Loc) (f g : Node → Node) :
    (fs.modify v f).modify v g = fs.modify v (g ∘ f) := by
  unfold modify
  rw [List.map_map]
  congr 1
  refine List.map_congr_left fun e _ => ?_
  by_cases he : e.1 = v
  · simp [he]
  · simp [he]

end FS

theorem Node.isDir_splice (offset : ℕ) (new : Bytes) (now : ℤ) (nd : Node) :
    (nd.splice offset new now).isDir = nd.isDir := by
  cases nd <;> rfl

theorem splice_length (a b : Bytes) : splice a.length b a = a ++ b := by
  simp [splice]

section

variable {K : Kernel} {fs fs' : FS} {v : Loc} {mode mode' : Mode} {a b : Bytes}

/-- A file that is filled further. -/
theorem put_append (h : fs.put K v mode a = .ok fs') :
    fs.put K v mode (a ++ b) = .ok (fs'.modify v (Node.splice a.length b K.now)) := by
  unfold FS.put at h ⊢
  rcases hl : fs.lookup v with _ | (_ | _ | _ | _) <;> rw [hl] at h <;> cases h
  · rw [FS.modify_insert, Node.splice, splice_length]
  · rw [FS.modify_modify]
    refine congrArg (fun f => Except.ok (fs.modify v f)) (funext fun nd => ?_)
    cases nd with
    | file data m t => simp [Node.overwrite, Node.splice, splice_length]
    | _ => rfl

/-- The permission bits that are set do not depend on those before. -/
theorem put_setMode (h : fs.put K v mode a = .ok fs') (mode' new : Mode) :
    ∃ fs'', fs.put K v mode' a = .ok fs'' ∧
      fs''.modify v (Node.setMode new) = fs'.modify v (Node.setMode new) := by
  unfold FS.put at h ⊢
  rcases hl : fs.lookup v with _ | (_ | _ | _ | _) <;> rw [hl] at h <;> cases h
  · refine ⟨_, rfl, ?_⟩
    rw [FS.modify_insert, FS.modify_insert]
    rfl
  · exact ⟨_, rfl, rfl⟩

theorem modify_setMode_splice (fs : FS) (v : Loc) (mode : Mode) (offset : ℕ) (b : Bytes) (now : ℤ) :
    (fs.modify v (Node.setMode mode)).modify v (Node.splice offset b now) =
      (fs.modify v (Node.splice offset b now)).modify v (Node.setMode mode) := by
  rw [FS.modify_modify, FS.modify_modify]
  congr 1
  funext nd
  cases nd <;> rfl

end

section

variable {K : Kernel} {i : Side} {s : Shared}

theorem exec_call (c : SysCall) : Fallible.exec (K.sys i) (call c) s = K.sys i c s := rfl

theorem exec_fchmod {v : Loc} {offset : ℕ} (hopen : s.opened i = some ⟨some v, offset⟩)
    (mode : Mode) : Fallible.exec (K.sys i) (call (.fchmod mode)) s =
      (.ok (), { s with fs := s.fs.modify v (Node.setMode mode) }) := by
  rw [exec_call, Kernel.sys, hopen]

section

variable {p : PathBuf} {mode : Mode} {v : Loc} {e : Errno}

theorem exec_openWrite {fs' : FS} (hr : s.fs.resolve true p = .ok v)
    (hput : s.fs.put K v (mode &&& ~~~K.umask) [] = .ok fs') :
    Fallible.exec (K.sys i) (call (.openWrite p mode)) s =
      (.ok (), ⟨fs', Function.update s.opened i (some ⟨some v, 0⟩)⟩) := by
  rw [exec_call]
  simp only [Kernel.sys, hr, hput]

theorem exec_openWrite_error (hr : s.fs.resolve true p = .ok v)
    (hput : s.fs.put K v (mode &&& ~~~K.umask) [] = .error e) :
    Fallible.exec (K.sys i) (call (.openWrite p mode)) s = (.error e, s) := by
  rw [exec_call]
  simp only [Kernel.sys, hr, hput]

theorem exec_openWrite_unresolved (hr : s.fs.resolve true p = .error e) :
    Fallible.exec (K.sys i) (call (.openWrite p mode)) s = (.error e, s) := by
  rw [exec_call]
  simp only [Kernel.sys, hr]

end

/-- Pieces one after the other. -/
theorem exec_inPieces {f : ℕ → ℕ → CallM Unit} {I : ℕ → Shared → Prop} {len : ℕ}
    (hf : ∀ offset n s, offset + n ≤ len → I offset s →
      ∃ s', Fallible.exec (K.sys i) (f offset n) s = (.ok (), s') ∧ I (offset + n) s') :
    ∀ ns offset s, offset + ns.sum = len → I offset s →
      ∃ s', Fallible.exec (K.sys i) (inPieces f offset ns) s = (.ok (), s') ∧ I len s' := by
  intro ns
  induction ns with
  | nil =>
    intro offset s hlen hs
    obtain rfl : offset = len := hlen
    exact ⟨s, rfl, hs⟩
  | cons n ns ih =>
    intro offset s hlen hs
    rw [List.sum_cons] at hlen
    obtain ⟨s₁, h₁, hs₁⟩ := hf offset n s (by omega) hs
    obtain ⟨s₂, h₂, hs₂⟩ := ih (offset + n) s₁ (by omega) hs₁
    exact ⟨s₂, (Fallible.exec_bind_ok _ h₁).trans h₂, hs₂⟩

/-- The open file takes in a piece. -/
theorem write_filled {fs fs' : FS} {v : Loc} {mode : Mode} {x : Bytes} {offset n : ℕ}
    (hput : fs.put K v mode (x.take offset) = .ok fs')
    (hopen : s.opened i = some ⟨some v, (x.take offset).length⟩) :
    s.write i K.now ((x.drop offset).take n) =
        (.ok (), ⟨s.fs.modify v (Node.splice (x.take offset).length ((x.drop offset).take n) K.now),
          Function.update s.opened i (some ⟨some v, (x.take (offset + n)).length⟩)⟩) ∧
      fs.put K v mode (x.take (offset + n)) =
        .ok (fs'.modify v
          (Node.splice (x.take offset).length ((x.drop offset).take n) K.now)) := by
  have htake : x.take (offset + n) = x.take offset ++ (x.drop offset).take n := List.take_add
  constructor
  · unfold Shared.write
    rw [hopen, htake, List.length_append]
  · rw [htake]
    exact put_append hput

theorem put_error {fs : FS} {v : Loc} {mode mode' : Mode} {a b : Bytes} {e : Errno}
    (h : fs.put K v mode a = .error e) : fs.put K v mode' b = .error e := by
  unfold FS.put at h ⊢
  rcases hl : fs.lookup v with _ | (_ | _ | _ | _) <;> rw [hl] at h <;> cases h <;> rfl

/-- Alone, the calls do to the file system what an operation does, with its answer. -/
structure Does {α : Type} (K : Kernel) (i : Side) (p : CallM α) (s : Shared)
    (r : Except Errno α × FS) : Prop where
  answer : (Fallible.exec (K.sys i) p s).1 = r.1
  effect : r.2 = (Fallible.exec (K.sys i) p s).2.fs

theorem Does.of_exec {α : Type} {p : CallM α} {r : Except Errno α × FS} {s' : Shared}
    {x : Except Errno α} (h : Fallible.exec (K.sys i) p s = (x, s')) (hr : r = (x, s'.fs)) :
    Does K i p s r :=
  ⟨by rw [h, hr], by rw [h, hr]⟩

variable {sizes : ℕ → List ℕ} (hsizes : ∀ n, (sizes n).sum = n)

include hsizes

theorem does_write (p : PathBuf) (data : Bytes) (s : Shared) :
    Does K i (writeCalls sizes p data) s (K.handle (.write p data) s.fs) := by
  have hhandle : K.handle (.write p data) s.fs = Kernel.commit s.fs (s.fs.write K p data) := rfl
  cases hr : s.fs.resolve true p with
  | error e =>
    refine .of_exec (Fallible.exec_bind_error _ (exec_openWrite_unresolved hr)) ?_
    rw [hhandle, FS.write, hr]
    rfl
  | ok v =>
    cases hput : s.fs.put K v (0o666 &&& ~~~K.umask) [] with
    | error e =>
      refine .of_exec (Fallible.exec_bind_error _ (exec_openWrite_error hr hput)) ?_
      simp only [hhandle, FS.write, hr, put_error (b := data) hput]
      rfl
    | ok fs' =>
      have hstep : ∀ offset n t, offset + n ≤ data.length →
          (s.fs.put K v (0o666 &&& ~~~K.umask) (data.take offset) = .ok t.fs ∧
            t.opened i = some ⟨some v, (data.take offset).length⟩) →
          ∃ t', Fallible.exec (K.sys i) (call (.writePiece ((data.drop offset).take n))) t =
              (.ok (), t') ∧
            s.fs.put K v (0o666 &&& ~~~K.umask) (data.take (offset + n)) = .ok t'.fs ∧
              t'.opened i = some ⟨some v, (data.take (offset + n)).length⟩ := by
        rintro offset n t - ⟨hfs, hopen⟩
        obtain ⟨hwrite, hfill⟩ := write_filled (n := n) hfs hopen
        exact ⟨_, hwrite, hfill, Function.update_self ..⟩
      obtain ⟨s', hexec, hs', -⟩ := exec_inPieces hstep (sizes data.length) 0
        ⟨fs', Function.update s.opened i (some ⟨some v, 0⟩)⟩ ((Nat.zero_add _).trans (hsizes _))
        ⟨hput, Function.update_self ..⟩
      rw [List.take_length] at hs'
      refine .of_exec ((Fallible.exec_bind_ok _ (exec_openWrite hr hput)).trans hexec) ?_
      simp only [hhandle, FS.write, hr, hs']
      rfl

omit hsizes in
/-- What a copy reads from a file that stays, while the other is filled. -/
theorem readChunk_filled {fs fs' : FS} {v w : Loc} {data : Bytes} {mode mode' m : Mode} {t : ℤ}
    {dst : PathBuf} {offset n : ℕ} (hv : fs.lookup v = some (.file data m t))
    (hw : fs.resolve true dst = .ok w)
    (hput : fs.put K w mode' ((if v = w then [] else data).take offset) = .ok fs') :
    (fs'.modify w (Node.setMode mode)).readChunk v offset n =
      .ok (((if v = w then [] else data).drop offset).take n) := by
  have hold : fs.lookup w = none ∨ ∃ old m t, fs.lookup w = some (.file old m t) := by
    rcases put_ok hw hput with ⟨h, -⟩ | ⟨old, m, t, h, -⟩
    · exact .inl h
    · exact .inr ⟨old, m, t, h⟩
  have hne : w ≠ [] := by
    rintro rfl
    rcases hold with h | ⟨old, m, t, h⟩ <;> cases (FS.lookup_nil fs).symm.trans h
  obtain ⟨new, m', t', hedit, hnew⟩ : ∃ new m' t', EditAt fs fs' w (some (.file new m' t')) ∧
      new = (if v = w then [] else data).take offset := by
    rcases put_ok hw hput with ⟨-, h⟩ | ⟨_, _, _, -, h⟩
    · exact ⟨_, _, _, h, rfl⟩
    · exact ⟨_, _, _, h, rfl⟩
  have hmode := editAt_modify fs' hne (Node.isDir_setMode mode)
  by_cases heq : v = w
  · subst heq
    rw [if_pos rfl, List.take_nil] at hnew
    rw [if_pos rfl, FS.readChunk, hmode.here, hedit.here, hnew]
    simp [Node.setMode]
  · have haway : ¬ w <+: v := by
      intro hpre
      have hdir := FS.isDir_of_prefix (by rw [hv]; rfl) hpre fun h => heq h.symm
      have hno : fs.isDir w = false := by
        rcases hold with h | ⟨old, m, t, h⟩
        · exact isDir_of_none h
        · exact isDir_of_file h
      cases hno.symm.trans hdir
    rw [if_neg heq, FS.readChunk, hmode.away v haway, hedit.away v haway, hv]

/-- What is left of a copy when its source is a file. -/
theorem does_fill {v : Loc} {data : Bytes} {mode : Mode} {t : ℤ} {s : Shared} {src dst : PathBuf}
    (hsrc : s.fs.resolve true src = .ok v) (hv : s.fs.lookup v = some (.file data mode t)) :
    Does K i (fillFrom sizes v mode data.length dst) s (K.handle (.copy src dst) s.fs) := by
  have hhandle : K.handle (.copy src dst) s.fs =
      Kernel.commit s.fs (s.fs.copyPart K id src dst) := rfl
  cases hr : s.fs.resolve true dst with
  | error e =>
    refine .of_exec (Fallible.exec_bind_error _ (exec_openWrite_unresolved hr)) ?_
    simp only [hhandle, FS.copyPart, hsrc, hv, hr]
    rfl
  | ok w =>
    cases hput : s.fs.put K w (mode &&& ~~~K.umask) [] with
    | error e =>
      refine .of_exec (Fallible.exec_bind_error _ (exec_openWrite_error hr hput)) ?_
      simp only [hhandle, FS.copyPart, hsrc, hv, hr, put_error hput]
      rfl
    | ok fs' =>
      generalize hx : (if v = w then [] else data) = x
      -- the file after the mode was set and a part of the contents copied
      have hstep : ∀ offset n u, offset + n ≤ data.length →
          ((∃ fs₁, s.fs.put K w (mode &&& ~~~K.umask) (x.take offset) = .ok fs₁ ∧
              u.fs = fs₁.modify w (Node.setMode mode)) ∧
            u.opened i = some ⟨some w, (x.take offset).length⟩) →
          ∃ u', Fallible.exec (K.sys i) (call (.copyRange v offset n)) u = (.ok (), u') ∧
            (∃ fs₁, s.fs.put K w (mode &&& ~~~K.umask) (x.take (offset + n)) = .ok fs₁ ∧
              u'.fs = fs₁.modify w (Node.setMode mode)) ∧
            u'.opened i = some ⟨some w, (x.take (offset + n)).length⟩ := by
        rintro offset n u - ⟨⟨fs₁, hfs, hu⟩, hopen⟩
        obtain ⟨hwrite, hfill⟩ := write_filled (n := n) hfs hopen
        have hread : u.fs.readChunk v offset n = .ok ((x.drop offset).take n) := by
          rw [← hx] at hfs ⊢
          rw [hu]
          exact readChunk_filled hv hr hfs
        have hcopy : Fallible.exec (K.sys i) (call (.copyRange v offset n)) u =
            u.write i K.now ((x.drop offset).take n) := by
          rw [exec_call, Kernel.sys, hread]
        refine ⟨_, hcopy.trans hwrite, ⟨_, hfill, ?_⟩, Function.update_self ..⟩
        rw [hu]
        exact modify_setMode_splice ..
      obtain ⟨u, hexec, ⟨fs₁, hfs, hu⟩, -⟩ := exec_inPieces hstep (sizes data.length) 0
        ⟨fs'.modify w (Node.setMode mode), Function.update s.opened i (some ⟨some w, 0⟩)⟩
        ((Nat.zero_add _).trans (hsizes _)) ⟨⟨fs', hput, rfl⟩, Function.update_self ..⟩
      have hlen : x.length ≤ data.length := by
        rw [← hx]
        split_ifs
        · exact Nat.zero_le _
        · exact le_rfl
      rw [List.take_of_length_le hlen] at hfs
      obtain ⟨fs₂, hfs₂, heq⟩ := put_setMode hfs mode mode
      refine .of_exec ((Fallible.exec_bind_ok _ (exec_openWrite hr hput)).trans
        ((Fallible.exec_bind_ok _ (exec_fchmod (Function.update_self ..) mode)).trans hexec)) ?_
      simp only [hhandle, FS.copyPart, hsrc, hv, hr, id, hx, hfs₂, heq, hu]
      rfl

theorem does_copy (src dst : PathBuf) (s : Shared) :
    Does K i (copyCalls sizes src dst) s (K.handle (.copy src dst) s.fs) := by
  have hhandle : K.handle (.copy src dst) s.fs =
      Kernel.commit s.fs (s.fs.copyPart K id src dst) := rfl
  have hopen : Fallible.exec (K.sys i) (call (.whole (.openFile src))) s =
      (s.fs.openFile src, s) := by
    rw [exec_call, Kernel.sys]
    simp [Kernel.handle, FS.follow]
  have hunopened : ∀ {e}, s.fs.openFile src = .error e →
      K.handle (.copy src dst) s.fs = (.error e, s.fs) →
      Does K i (copyCalls sizes src dst) s (K.handle (.copy src dst) s.fs) := fun he hcopy =>
    .of_exec (Fallible.exec_bind_error _ (hopen.trans (by rw [he]))) hcopy
  cases hr : s.fs.resolve true src with
  | error e =>
    refine hunopened (e := e) (by simp only [FS.openFile, hr]) ?_
    simp only [hhandle, FS.copyPart, hr]
    rfl
  | ok v =>
    rcases hl : s.fs.lookup v with _ | nd
    · refine hunopened (e := .enoent) (by simp only [FS.openFile, hr, hl]) ?_
      simp only [hhandle, FS.copyPart, hr, hl]
      rfl
    have hstat : Fallible.exec (K.sys i) (call (.fstat v)) s = (.ok nd.metadata, s) := by
      rw [exec_call, Kernel.sys, hl]
    have hopened : s.fs.openFile src = .ok v → Fallible.exec (K.sys i) (copyCalls sizes src dst) s =
        Fallible.exec (K.sys i) (if nd.metadata.fileType = .file then
          fillFrom sizes v (BitVec.ofNat 12 nd.metadata.mode) nd.metadata.len dst
          else Fallible.fail .einval) s := fun hok => by
      rw [copyCalls, Fallible.exec_bind_ok _ (hopen.trans (by rw [hok])),
        Fallible.exec_bind_ok _ hstat]
    cases nd with
    | special m t =>
      refine hunopened (e := .enxio) (by simp only [FS.openFile, hr, hl]) ?_
      simp only [hhandle, FS.copyPart, hr, hl]
      rfl
    | dir m t n =>
      refine .of_exec (hopened (by simp only [FS.openFile, hr, hl])) ?_
      simp only [hhandle, FS.copyPart, hr, hl]
      rfl
    | symlink l t =>
      refine .of_exec (hopened (by simp only [FS.openFile, hr, hl])) ?_
      simp only [hhandle, FS.copyPart, hr, hl]
      rfl
    | file data mode t =>
      have hmode : BitVec.ofNat 12 (Node.file data mode t).metadata.mode = mode :=
        bits_of_mode rfl mode
      have hcalls := hopened (by simp only [FS.openFile, hr, hl])
      have hfile : (Node.file data mode t).metadata.fileType = .file := rfl
      rw [if_pos hfile, hmode] at hcalls
      have hfill : Does K i (fillFrom sizes v mode data.length dst) s
          (K.handle (.copy src dst) s.fs) := does_fill hsizes hr hl
      exact ⟨(congrArg Prod.fst hcalls).trans hfill.answer,
        hfill.effect.trans (congrArg (fun x => x.2.fs) hcalls).symm⟩

/-- **Alone, a program whose operations are cut into calls does what it does.** -/
theorem exec_slice {ε α : Type} (p : Fallible FsOp FsOp.Res ε α) (s : Shared) :
    (Fallible.exec (K.sys i) (p.slice (FsOp.slices sizes)) s).1 =
        (Fallible.exec K.handle p s.fs).1 ∧
      (Fallible.exec K.handle p s.fs).2 =
        (Fallible.exec (K.sys i) (p.slice (FsOp.slices sizes)) s).2.fs := by
  refine Program.run_slice (R := fun (fs : FS) (s : Shared) => fs = s.fs) ?_ p rfl
  rintro o _ s rfl
  cases o with
  | write path data =>
    have hdoes := does_write (K := K) (i := i) hsizes path data s
    exact ⟨hdoes.answer, hdoes.effect⟩
  | copy src dst =>
    have hdoes := does_copy (K := K) (i := i) hsizes src dst s
    exact ⟨hdoes.answer, hdoes.effect⟩
  | _ => exact ⟨rfl, rfl⟩

end

end Posix
