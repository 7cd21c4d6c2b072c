import SandD.Posix.Syscall
import Mathlib.Algebra.Ring.Nat

/-!
# The functions of `std::fs`

Programs for the library functions that are more than one operation: `Path::exists`,
`Path::is_dir`, `Path::is_symlink` and `create_dir_all`, and what the operations come to on the
paths of places.

The second half says what a successful operation has done, in terms of `FS.insert`, `FS.remove`
and `FS.modify` at one place, and when an operation succeeds.
-/

namespace Posix

/-- Programs over the file-system operations, with their errors. -/
abbrev IoM (α : Type) := Fallible FsOp FsOp.Res Errno α

namespace IoM

/-- One operation. -/
def op (o : FsOp) : IoM o.Ret := Fallible.perform (R := FsOp.Ret) o

/-- `Path::exists`: an error counts as absence. -/
def exists_ (p : PathBuf) : IoM Bool := do
  match ← Fallible.attempt (op (.metadata p)) with
  | .ok _ => pure true
  | .error _ => pure false

/-- `Path::is_dir`. -/
def isDir (p : PathBuf) : IoM Bool := do
  match ← Fallible.attempt (op (.metadata p)) with
  | .ok m => pure (m.fileType == .dir)
  | .error _ => pure false

/-- `Path::is_symlink`. -/
def isSymlink (p : PathBuf) : IoM Bool := do
  match ← Fallible.attempt (op (.symlinkMetadata p)) with
  | .ok m => pure (m.fileType == .symlink)
  | .error _ => pure false

/-- A directory that is there already is no error. -/
def unlessDir (p : PathBuf) (e : Errno) : IoM Unit := do
  if ← isDir p then pure () else Fallible.fail e

/-- `create_dir_all`, on the components of the path, last one first: where the parent is
missing it is created before the directory is tried again. -/
def createDirAllRev : List Comp → IoM Unit
  | [] => pure ()
  | c :: cs => do
    let path := (c :: cs).reverse
    match ← Fallible.attempt (op (.createDir path)) with
    | .ok () => pure ()
    | .error .enoent => do
      createDirAllRev cs
      match ← Fallible.attempt (op (.createDir path)) with
      | .ok () => pure ()
      | .error e => unlessDir path e
    | .error e => unlessDir path e

/-- `create_dir_all`. -/
def createDirAll (p : PathBuf) : IoM Unit := createDirAllRev p.reverse

end IoM

open IoM

variable {K : Kernel} {fs fs' : FS}

/-- Run a program against the kernel. -/
abbrev IoM.run {α : Type} (K : Kernel) (p : IoM α) (fs : FS) : Except Errno α × FS :=
  Fallible.exec K.handle p fs

/-- Whether a path leads to anything. -/
def FS.pathExists (fs : FS) (p : PathBuf) : Bool := (fs.stat true p).isOk

/-- Whether a path leads to a directory. -/
def FS.pathIsDir (fs : FS) (p : PathBuf) : Bool := (fs.stat true p).toOption.any Node.isDir

/-- Whether a path is that of a symbolic link. -/
def FS.pathIsLink (fs : FS) (p : PathBuf) : Bool := (fs.stat false p).toOption.any Node.isLink

@[simp] theorem run_op (o : FsOp) : (op o).run K fs = K.handle o fs := rfl

theorem Node.fileType_dir (nd : Node) : (nd.metadata.fileType == .dir) = nd.isDir := by
  cases nd <;> rfl

theorem Node.fileType_symlink (nd : Node) : (nd.metadata.fileType == .symlink) = nd.isLink := by
  cases nd <;> rfl

@[simp] theorem run_exists (p : PathBuf) : (exists_ p).run K fs = (.ok (fs.pathExists p), fs) := by
  rw [IoM.run, exists_, Fallible.exec_bind, Fallible.exec_attempt, FS.pathExists]
  simp only [Fallible.exec_perform, op, Kernel.handle]
  cases fs.stat true p <;> rfl

@[simp] theorem run_isDir (p : PathBuf) : (isDir p).run K fs = (.ok (fs.pathIsDir p), fs) := by
  rw [IoM.run, isDir, Fallible.exec_bind, Fallible.exec_attempt, FS.pathIsDir]
  simp only [Fallible.exec_perform, op, Kernel.handle]
  cases fs.stat true p with
  | ok nd => exact congrArg (fun b => (Except.ok b, fs)) nd.fileType_dir
  | error e => rfl

@[simp] theorem run_isSymlink (p : PathBuf) :
    (isSymlink p).run K fs = (.ok (fs.pathIsLink p), fs) := by
  rw [IoM.run, isSymlink, Fallible.exec_bind, Fallible.exec_attempt, FS.pathIsLink]
  simp only [Fallible.exec_perform, op, Kernel.handle]
  cases fs.stat false p with
  | ok nd => exact congrArg (fun b => (Except.ok b, fs)) nd.fileType_symlink
  | error e => rfl

theorem pathIsDir_iff {p : PathBuf} : fs.pathIsDir p ↔ ∃ r, fs.Leads p r := by
  rw [FS.pathIsDir, FS.stat]
  constructor
  · intro h
    rcases hv : fs.resolve true p with e | v <;> rw [hv] at h
    · cases h
    · refine ⟨v, FS.leads_of_resolve hv ?_⟩
      rcases hl : fs.lookup v with _ | nd <;> simp only [hl] at h
      · cases h
      · rw [FS.isDir, hl]
        exact h
  · rintro ⟨r, h⟩
    obtain ⟨m, t, s, hl⟩ := FS.isDir_iff.1 h.isDir
    rw [h.self]
    simp only [hl]
    rfl

/-! ### What an operation has done -/

/-- `fs'` differs from `fs` at the place `v` alone, where it has `new`; what was below `v` is
gone unless `v` was a directory. -/
structure EditAt (fs fs' : FS) (v : Loc) (new : Option Node) : Prop where
  away : ∀ u, ¬ v <+: u → fs'.lookup u = fs.lookup u
  here : fs'.lookup v = new
  below : ∀ u, v <+: u → u ≠ v →
    fs'.lookup u = none ∨ fs.isDir v ∧ fs'.lookup u = fs.lookup u

theorem editAt_insert (fs : FS) {d : Loc} {n : FileName} (hd : fs.isDir d) (nd : Node) :
    EditAt fs (fs.insert (d ++ [n]) nd) (d ++ [n]) (some nd) where
  away u hu := by
    have hne : u ≠ d ++ [n] := by
      rintro rfl
      exact hu List.prefix_rfl
    rw [FS.lookup_insert hd, if_neg hne, if_neg hu]
  here := by rw [FS.lookup_insert hd, if_pos rfl]
  below u hu hne := Or.inl (by rw [FS.lookup_insert hd, if_neg hne, if_pos hu])

theorem editAt_remove (fs : FS) {v : Loc} (hv : v ≠ []) : EditAt fs (fs.remove v) v none where
  away u hu := by rw [FS.lookup_remove fs hv, if_neg hu]
  here := by rw [FS.lookup_remove fs hv, if_pos List.prefix_rfl]
  below u hu _ := Or.inl (by rw [FS.lookup_remove fs hv, if_pos hu])

theorem editAt_modify (fs : FS) {v : Loc} (hv : v ≠ []) {f : Node → Node}
    (hf : ∀ nd, (f nd).isDir = nd.isDir) :
    EditAt fs (fs.modify v f) v ((fs.lookup v).map f) where
  away u hu := by
    have hne : u ≠ v := by
      rintro rfl
      exact hu List.prefix_rfl
    rw [FS.lookup_modify fs hv hf, if_neg hne]
  here := by rw [FS.lookup_modify fs hv hf, if_pos rfl]
  below u hu hne := by
    by_cases hd : fs.isDir v
    · exact Or.inr ⟨hd, by rw [FS.lookup_modify fs hv hf, if_neg hne]⟩
    · obtain ⟨w, rfl⟩ := hu
      refine Or.inl ?_
      rw [FS.lookup_modify fs hv hf, if_neg hne]
      exact FS.lookup_append_of_not_isDir hd (by rintro rfl; simp at hne)

theorem EditAt.trans {fs'' : FS} {v : Loc} {o o' : Option Node} (h : EditAt fs fs' v o)
    (h' : EditAt fs' fs'' v o') : EditAt fs fs'' v o' where
  away u hu := (h'.away u hu).trans (h.away u hu)
  here := h'.here
  below u hu hne := by
    rcases h'.below u hu hne with h1 | ⟨hd', h1⟩
    · exact Or.inl h1
    · rcases h.below u hu hne with h2 | ⟨hd'', h2⟩
      · exact Or.inl (h1.trans h2)
      · exact Or.inr ⟨hd'', h1.trans h2⟩

/-- The permission bits of `st_mode`, next to the type of the file. -/
theorem bits_of_mode {type : ℕ} (htype : type % 2 ^ 12 = 0) (mode : Mode) :
    BitVec.ofNat 12 (type + mode.toNat) = mode := by
  apply BitVec.eq_of_toNat_eq
  have := mode.isLt
  rw [BitVec.toNat_ofNat]
  omega

theorem Node.isDir_overwrite (data : Bytes) (now : ℤ) (nd : Node) :
    (nd.overwrite data now).isDir = nd.isDir := by
  cases nd <;> rfl

theorem Node.isDir_setMode (mode : Mode) (nd : Node) : (nd.setMode mode).isDir = nd.isDir := by
  cases nd <;> rfl

theorem Node.isDir_setMtime (t : ℤ) (nd : Node) : (nd.setMtime t).isDir = nd.isDir := by
  cases nd <;> rfl

theorem ne_nil_of_lookup_none {v : Loc} (h : fs.lookup v = none) : v ≠ [] := by
  rintro rfl
  cases h

theorem createDir_ok {p : PathBuf} (h : fs.createDir K p = .ok fs') :
    ∃ v, fs.resolve false p = .ok v ∧ fs.lookup v = none ∧ EditAt fs fs' v (some K.newDir) := by
  unfold FS.createDir at h
  split at h
  · rename_i v hv
    split at h
    · cases h
    · rename_i hl
      cases h
      rcases FS.resolve_parent hv with rfl | ⟨d, n, rfl, hd⟩
      · cases hl
      · exact ⟨_, hv, hl, editAt_insert fs hd _⟩
  · cases h

theorem put_ok {v : Loc} {mode : Mode} {data : Bytes} {p : PathBuf} {follow : Bool}
    (hv : fs.resolve follow p = .ok v) (h : fs.put K v mode data = .ok fs') :
    (fs.lookup v = none ∧ EditAt fs fs' v (some (.file data mode K.now))) ∨
    ∃ old m t, fs.lookup v = some (.file old m t) ∧
      EditAt fs fs' v (some (.file data m K.now)) := by
  unfold FS.put at h
  rcases hl : fs.lookup v with _ | (⟨old, m, t⟩ | _ | _ | _) <;> rw [hl] at h <;> cases h
  · rcases FS.resolve_parent hv with rfl | ⟨d, n, rfl, hd⟩
    · cases hl
    · exact Or.inl ⟨rfl, editAt_insert fs hd _⟩
  · have hne : v ≠ [] := by
      rintro rfl
      cases hl
    have hm := editAt_modify fs hne (Node.isDir_overwrite data K.now)
    rw [hl] at hm
    exact Or.inr ⟨old, m, t, rfl, hm⟩

theorem write_ok {p : PathBuf} {data : Bytes} (h : fs.write K p data = .ok fs') :
    ∃ v m, fs.resolve true p = .ok v ∧
      (fs.lookup v = none ∨ ∃ old t, fs.lookup v = some (.file old m t)) ∧
      EditAt fs fs' v (some (.file data m K.now)) := by
  unfold FS.write at h
  split at h
  · rename_i v hv
    rcases put_ok hv h with ⟨hl, he⟩ | ⟨old, m, t, hl, he⟩
    · exact ⟨v, _, hv, Or.inl hl, he⟩
    · exact ⟨v, m, hv, Or.inr ⟨old, t, hl⟩, he⟩
  · cases h

theorem copyPart_ok {part : Bytes → Bytes} {src dst : PathBuf}
    (h : fs.copyPart K part src dst = .ok fs') :
    ∃ u data m t v, fs.resolve true src = .ok u ∧ fs.lookup u = some (.file data m t) ∧
      fs.resolve true dst = .ok v ∧
      (fs.lookup v = none ∨ ∃ old m' t', fs.lookup v = some (.file old m' t')) ∧
      EditAt fs fs' v (some (.file (if u = v then [] else part data) m K.now)) := by
  unfold FS.copyPart at h
  split at h
  · rename_i u hu
    split at h
    · rename_i data m t hl
      split at h
      · rename_i v hv
        split at h
        · rename_i fs₁ hput
          cases h
          have hne : v ≠ [] := by
            rintro rfl
            unfold FS.put at hput
            cases hput
          have key : ∀ m', EditAt fs fs₁ v
              (some (.file (if u = v then [] else part data) m' K.now)) →
              EditAt fs (fs₁.modify v (Node.setMode m)) v
                (some (.file (if u = v then [] else part data) m K.now)) := by
            intro m' he
            have hm := editAt_modify fs₁ hne (Node.isDir_setMode m)
            rw [he.here] at hm
            exact he.trans hm
          rcases put_ok hv hput with ⟨hl', he⟩ | ⟨old, m', t', hl', he⟩
          · exact ⟨u, data, m, t, v, hu, hl, hv, Or.inl hl', key _ he⟩
          · exact ⟨u, data, m, t, v, hu, hl, hv, Or.inr ⟨old, m', t', hl'⟩, key _ he⟩
        · cases h
      · cases h
    all_goals cases h
  · cases h

theorem rename_ok {src dst : PathBuf} (h : fs.rename src dst = .ok fs') :
    ∃ u v nd, fs.resolve false src = .ok u ∧ fs.resolve false dst = .ok v ∧
      fs.lookup u = some nd ∧ nd.isDir = false ∧ fs.isDir v = false ∧
      (u = v ∧ fs' = fs ∨
        u ≠ v ∧ EditAt fs (fs.remove u) u none ∧ EditAt (fs.remove u) fs' v (some nd)) := by
  unfold FS.rename at h
  split at h
  · rename_i u v hu hv
    split at h
    · cases h
    · rename_i nd hl
      split_ifs at h with h1 h2 h3
      · cases h
        exact ⟨u, v, nd, hu, hv, hl, by simpa using h1, by simpa using h2, Or.inl ⟨h3, rfl⟩⟩
      · cases h
        have hune : u ≠ [] := by
          rintro rfl
          cases hl
          exact h1 rfl
        have hu' := editAt_remove fs hune
        have hnd : nd.isDir = false := by simpa using h1
        refine ⟨u, v, nd, hu, hv, hl, hnd, by simpa using h2, Or.inr ⟨h3, hu', ?_⟩⟩
        rcases FS.resolve_parent hv with rfl | ⟨d, n, rfl, hd⟩
        · exact absurd rfl h2
        · -- the directory above the destination is not the file that is moved
          have hud : ¬ u <+: d := by
            intro hp
            by_cases heq : u = d
            · subst heq
              simp [FS.isDir, hl, hnd] at hd
            · have hsome : (fs.lookup d).isSome := by
                obtain ⟨m, t, s, hl'⟩ := FS.isDir_iff.1 hd
                simp [hl']
              have := FS.isDir_of_prefix hsome hp heq
              simp [FS.isDir, hl, hnd] at this
          have hd' : (fs.remove u).isDir d := by
            rw [FS.isDir, hu'.away d hud]
            exact hd
          exact editAt_insert (fs.remove u) hd' nd
  · cases h
  · cases h

theorem removeFile_ok {p : PathBuf} (h : fs.removeFile p = .ok fs') :
    ∃ v nd, fs.resolve false p = .ok v ∧ fs.lookup v = some nd ∧ nd.isDir = false ∧
      EditAt fs fs' v none := by
  unfold FS.removeFile at h
  split at h
  · rename_i v hv
    split at h
    · cases h
    · rename_i nd hl
      split_ifs at h with hd
      cases h
      refine ⟨v, nd, hv, hl, by simpa using hd, editAt_remove fs ?_⟩
      rintro rfl
      cases hl
      exact hd rfl
  · cases h

theorem removeDirAll_ok {p : PathBuf} (h : fs.removeDirAll p = .ok fs') :
    ∃ v, fs.resolve false p = .ok v ∧ v ≠ [] ∧ EditAt fs fs' v none := by
  unfold FS.removeDirAll at h
  split at h
  · rename_i v hv
    split_ifs at h with hne
    split at h
    · cases h
    · split_ifs at h
      cases h
      exact ⟨v, hv, hne, editAt_remove fs hne⟩
  · cases h

theorem symlink_ok {target : Bytes} {p : PathBuf} (h : fs.symlink K target p = .ok fs') :
    ∃ v l, fs.resolve false p = .ok v ∧ fs.lookup v = none ∧ l.bytes = target ∧
      EditAt fs fs' v (some (.symlink l K.now)) := by
  unfold FS.symlink at h
  split_ifs at h with h0 hn
  split at h
  · rename_i v hv
    split at h
    · cases h
    · rename_i hl
      cases h
      rcases FS.resolve_parent hv with rfl | ⟨d, n, rfl, hd⟩
      · cases hl
      · exact ⟨_, ⟨target, h0, hn⟩, hv, hl, rfl, editAt_insert fs hd _⟩
  · cases h

theorem change_ok {p : PathBuf} {f : Node → Node} (hf : ∀ nd, (f nd).isDir = nd.isDir)
    (h : fs.change p f = .ok fs') :
    ∃ v nd, fs.resolve true p = .ok v ∧ fs.lookup v = some nd ∧ EditAt fs fs' v (some (f nd)) := by
  unfold FS.change at h
  split at h
  · rename_i v hv
    split_ifs at h with hne
    split at h
    · rename_i nd hl
      cases h
      have hm := editAt_modify fs hne hf
      rw [hl] at hm
      exact ⟨v, nd, hv, hl, hm⟩
    · cases h
  · cases h

/-! ### What is in the way of a new directory -/

theorem linkFree_nofollow {r q : Loc} (h : fs.LinkFree true r q) : fs.LinkFree false r q :=
  fun u hu hne _ => h u hu hne (Or.inr rfl)

/-- Nothing but directories is on the way down `q` from `r`. -/
def Vacant (fs : FS) (r q : Loc) : Prop :=
  ∀ w, w <+: q → w ≠ [] → fs.lookup (r ++ w) = none ∨ fs.isDir (r ++ w)

theorem Vacant.linkFree {follow : Bool} {r q : Loc} (h : Vacant fs r q) :
    fs.LinkFree follow r q := by
  intro u hu hne _ hlink
  obtain ⟨l, t, hl⟩ := FS.isLink_iff.1 hlink
  rcases h u hu hne with hn | hd
  · rw [hn] at hl
    cases hl
  · rw [FS.isDir, hl] at hd
    cases hd

theorem Vacant.walk {r q : Loc} (h : Vacant fs r q) (n : ℕ) (follow : Bool) :
    fs.walk follow n r (Loc.toPath q) = .ok (r ++ q) ∨
      fs.walk follow n r (Loc.toPath q) = .error .enoent := by
  induction q generalizing r with
  | nil => exact Or.inl (by simp [Loc.toPath])
  | cons c q ih =>
    rcases h [c] (by simp [List.prefix_cons_iff]) (by simp) with hn | hd
    · by_cases hq : q = []
      · exact Or.inl (by cases n <;> simp [FS.walk, FS.walkWith, Loc.toPath, hn, hq])
      · exact Or.inr (by cases n <;> simp [FS.walk, FS.walkWith, Loc.toPath, hn, hq])
    · have hc : Vacant fs (r ++ [c]) q := by
        intro w hw hne
        have := h (c :: w) (List.prefix_cons_inj c |>.2 hw) (by simp)
        simpa using this
      obtain ⟨m, t, s, hl⟩ := FS.isDir_iff.1 hd
      have hstep : fs.walk follow n r (Loc.toPath (c :: q)) =
          fs.walk follow n (r ++ [c]) (Loc.toPath q) := FS.walk_name hl
      rw [hstep]
      simpa using ih hc

section Below

variable {p : PathBuf} {r q : Loc}

theorem pathIsDir_below (h : fs.Leads p r) (hlf : fs.LinkFree true r q) :
    fs.pathIsDir (p ++ Loc.toPath q) ↔ fs.isDir (r ++ q) := by
  rw [pathIsDir_iff]
  constructor
  · rintro ⟨v, hv⟩
    by_cases hq : q = []
    · simpa [hq] using h.isDir
    · obtain rfl := h.resolve_only hq hlf hv.self
      exact hv.isDir
  · intro hd
    exact ⟨_, h.below hd⟩

theorem createDir_below_error {e : Errno} (h : fs.Leads p r) (hv : Vacant fs r q) (hq : q ≠ [])
    (hc : fs.createDir K (p ++ Loc.toPath q) = .error e) : e = .enoent ∨ fs.isDir (r ++ q) := by
  obtain ⟨n, hn⟩ := h.rest
  have hres := hn false (Loc.toPath q) (by simpa [Loc.toPath] using hq)
  rcases hv.walk n false with hw | hw <;> rw [hw] at hres
  · rcases hv q List.prefix_rfl hq with hnone | hd
    · simp [FS.createDir, hres, hnone] at hc
    · exact Or.inr hd
  · simp only [FS.createDir, hres] at hc
    cases hc
    exact Or.inl rfl

theorem createDir_below_dir {c : FileName} (h : fs.Leads p r) (hd : fs.isDir (r ++ q))
    (hnone : fs.lookup (r ++ (q ++ [c])) = none) :
    ∃ fs', fs.createDir K (p ++ Loc.toPath (q ++ [c])) = .ok fs' := by
  have hp : p ++ Loc.toPath (q ++ [c]) = (p ++ Loc.toPath q) ++ [.name c] := by
    simp [Loc.toPath]
  have hres := (h.below hd).resolve_child c (Or.inl (Eq.refl false))
  rw [← List.append_assoc] at hnone
  exact ⟨_, by rw [hp, FS.createDir, hres]; simp only [hnone]; rfl⟩

end Below

/-! ### Places without links -/

/-- No place above or below `d` is a link. -/
def Clear (fs : FS) (d : Loc) : Prop := ∀ v, v <+: d ∨ d <+: v → ¬ fs.isLink v

theorem Loc.toPath_concat (u : Loc) (n : FileName) :
    Loc.toPath (u ++ [n]) = Loc.toPath u ++ [.name n] := by
  simp [Loc.toPath]

namespace Clear

variable {d q : Loc} {follow : Bool}

theorem linkFree (h : Clear fs d) (hq : q <+: d ∨ d <+: q) : fs.LinkFree follow [] q := by
  intro u hu _ _
  rw [List.nil_append]
  apply h
  rcases hq with hq | hq
  · exact Or.inl (hu.trans hq)
  · exact List.prefix_or_prefix_of_prefix hu hq

/-- A path above or below `d` leads where it says. -/
theorem resolve {v : Loc} (h : Clear fs d) (hq : q <+: d ∨ d <+: q) (hne : q ≠ [])
    (hv : fs.resolve follow (Loc.toPath q) = .ok v) : v = q := by
  have := (FS.leads_nil fs).resolve_only hne (h.linkFree hq) (by simpa using hv)
  simpa using this

theorem resolve_child {u : Loc} {n : FileName} (h : Clear fs d)
    (hq : u ++ [n] <+: d ∨ d <+: u ++ [n]) (hu : fs.isDir u) :
    fs.resolve follow (Loc.toPath (u ++ [n])) = .ok (u ++ [n]) := by
  rw [Loc.toPath_concat]
  exact (FS.leads_toPath hu).resolve_child n (Or.inr (h _ hq))

theorem stat_of_lookup {nd : Node} (h : Clear fs d) (hq : q <+: d ∨ d <+: q) (hne : q ≠ [])
    (hl : fs.lookup q = some nd) : fs.stat follow (Loc.toPath q) = .ok nd := by
  obtain ⟨u, n, rfl⟩ : ∃ u n, q = u ++ [n] :=
    ⟨q.dropLast, q.getLast hne, (List.dropLast_append_getLast hne).symm⟩
  simp only [FS.stat, h.resolve_child hq (FS.isDir_of_lookup_concat hl), hl]

theorem lookup_of_stat {nd : Node} (h : Clear fs d) (hq : q <+: d ∨ d <+: q) (hne : q ≠ [])
    (hs : fs.stat follow (Loc.toPath q) = .ok nd) : fs.lookup q = some nd := by
  rw [FS.stat] at hs
  rcases hv : fs.resolve follow (Loc.toPath q) with e | v
  · simp [hv] at hs
  · obtain rfl := h.resolve hq hne hv
    rw [hv] at hs
    rcases hl : fs.lookup v with _ | nd' <;> simp [hl] at hs
    rw [hs]

/-- What exists is what is found. -/
theorem pathExists (h : Clear fs d) (hq : q <+: d ∨ d <+: q) (hne : q ≠ []) :
    fs.pathExists (Loc.toPath q) = (fs.lookup q).isSome := by
  rw [FS.pathExists]
  rcases hl : fs.lookup q with _ | nd
  · rcases hs : fs.stat true (Loc.toPath q) with e | nd
    · rfl
    · rw [h.lookup_of_stat hq hne hs] at hl
      cases hl
  · rw [h.stat_of_lookup hq hne hl]
    rfl

end Clear

end Posix
