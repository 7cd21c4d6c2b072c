import SandD.Posix.StdFs

/-!
# The order of a directory

`read_dir` lists a directory in an order of its own.  Two file systems with the same nodes at the
same places may differ in that order and in nothing else that an operation reads.

* `SameTree`: the same nodes at the same places, and so the same answers but for the order of
  names;
* `Kernel.listing`: the system when it lists directories in orders that are given;
* `Unlisted`, `exec_listing`: what does not list a directory runs as before.
-/

namespace Posix

/-- The same nodes at the same places. -/
def SameTree (fs fs' : FS) : Prop := fs'.lookup = fs.lookup

namespace SameTree

variable {fs fs' : FS}

theorem symm (h : SameTree fs fs') : SameTree fs' fs := Eq.symm h

theorem walkWith (h : SameTree fs fs') (follow : Bool)
    (expand : Loc → PathBuf → Except Errno Loc) :
    fs'.walkWith follow expand = fs.walkWith follow expand := by
  funext cur p
  induction p generalizing cur with
  | nil => rfl
  | cons c p ih =>
    cases c with
    | parent => exact ih cur.dropLast
    | nul b => rfl
    | name n =>
      rw [FS.walkWith, FS.walkWith, congrFun h]
      split
      · rfl
      · exact ih (cur ++ [n])
      · rfl
      · rfl

theorem walk (h : SameTree fs fs') (follow : Bool) (n : ℕ) :
    fs'.walk follow n = fs.walk follow n := by
  induction n with
  | zero => exact h.walkWith follow _
  | succ n ih => rw [FS.walk, FS.walk, ih, h.walkWith]

theorem resolve (h : SameTree fs fs') (follow : Bool) (p : PathBuf) :
    fs'.resolve follow p = fs.resolve follow p := by
  rw [FS.resolve, FS.resolve, h.walk]

theorem stat (h : SameTree fs fs') (follow : Bool) (p : PathBuf) :
    fs'.stat follow p = fs.stat follow p := by
  simp only [FS.stat, h.resolve, congrFun h]

theorem read (h : SameTree fs fs') (p : PathBuf) : fs'.read p = fs.read p := by
  rw [FS.read, FS.read, h.stat]

theorem pathExists (h : SameTree fs fs') (p : PathBuf) : fs'.pathExists p = fs.pathExists p := by
  rw [FS.pathExists, FS.pathExists, h.stat]

theorem isDir (h : SameTree fs fs') (v : Loc) : fs'.isDir v = fs.isDir v := by
  rw [FS.isDir, FS.isDir, congrFun h]

/-- The names of a directory come in some order. -/
theorem names (h : SameTree fs fs') {d : Loc} (hd : fs.isDir d) :
    (fs'.names d).Perm (fs.names d) := by
  refine (List.perm_ext_iff_of_nodup (fs'.nodup_names d) (fs.nodup_names d)).2 fun n => ?_
  rw [FS.mem_names ((h.isDir d).trans hd), FS.mem_names hd, congrFun h]

theorem readDir (h : SameTree fs fs') {p : PathBuf} {names : List FileName}
    (hn : fs.readDir p = .ok names) : ∃ names', fs'.readDir p = .ok names' ∧ names'.Perm names := by
  unfold FS.readDir at hn ⊢
  rw [h.resolve]
  cases hv : fs.resolve true p with
  | error e =>
    rw [hv] at hn
    cases hn
  | ok v =>
    rw [hv] at hn
    dsimp only at hn ⊢
    rw [congrFun h]
    split at hn
    · rename_i hl
      cases hn
      exact ⟨_, rfl, h.names (FS.isDir_of_lookup hl)⟩
    · cases hn
    · cases hn

end SameTree

/-! ### Orders that are given -/

/-- Some names in an order that is given, where that is an order of them. -/
def arranged (order names : List FileName) : List FileName :=
  if order.Perm names then order else names

theorem arranged_perm (order names : List FileName) : (arranged order names).Perm names := by
  rw [arranged]
  split_ifs with h
  · exact h
  · exact List.Perm.refl names

theorem arranged_eq {order names : List FileName} (h : order.Perm names) :
    arranged order names = order := if_pos h

theorem arranged_nil (names : List FileName) : arranged [] names = names := by
  rw [arranged]
  split_ifs with h
  · exact h.nil_eq
  · rfl

/-- The system when it lists the directory at a place in the order that is given for it. -/
def Kernel.listing (K : Kernel) (order : Loc → List FileName) : Program.Handler FsOp FsOp.Res FS
  | .readDir p, fs =>
    (match fs.resolve true p with
      | .ok v => (fs.readDir p).map (arranged (order v))
      | .error e => .error e, fs)
  | o, fs => K.handle o fs

/-- A directory is listed in the order that is given. -/
theorem Kernel.listing_readDir {K : Kernel} {order : Loc → List FileName} {fs : FS} {p : PathBuf}
    {v : Loc} (h : fs.resolve true p = .ok v) :
    K.listing order (.readDir p) fs = ((fs.readDir p).map (arranged (order v)), fs) := by
  rw [Kernel.listing, h]

/-- The operations but `read_dir`. -/
def Unlisted (o : FsOp) : Prop := ∀ p, o ≠ .readDir p

/-- Whether the operation is `read_dir`. -/
def FsOp.isReadDir : FsOp → Bool
  | readDir _ => true
  | _ => false

theorem unlisted_of_ne {o : FsOp} (h : o.isReadDir = false) : Unlisted o := by
  rintro p rfl
  cases h

theorem Kernel.listing_of_unlisted (K : Kernel) (order : Loc → List FileName) {o : FsOp} (fs : FS)
    (h : Unlisted o) : K.listing order o fs = K.handle o fs := by
  cases o with
  | readDir p => exact absurd rfl (h p)
  | _ => rfl

/-- Without orders that are given it is the system itself. -/
theorem Kernel.listing_nil (K : Kernel) : K.listing (fun _ => []) = K.handle := by
  funext o fs
  cases o with
  | readDir p =>
    rw [Kernel.listing, Kernel.handle, FS.readDir]
    cases fs.resolve true p with
    | error e => rfl
    | ok v =>
      dsimp only
      rcases fs.lookup v with _ | nd
      · rfl
      · cases nd with
        | dir => rw [Except.map, arranged_nil]
        | _ => rfl
  | _ => rfl

/-- What does not list a directory runs as before. -/
theorem exec_listing {ε α : Type} {K : Kernel} {order : Loc → List FileName}
    {p : Fallible FsOp FsOp.Res ε α} (hp : Fallible.Issues Unlisted p) (fs : FS) :
    Fallible.exec (K.listing order) p fs = Fallible.exec K.handle p fs :=
  Program.run_congr hp (fun _ s ho => K.listing_of_unlisted order s ho) fs

end Posix
