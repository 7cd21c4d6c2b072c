import SandD.Posix.StdFs
import Mathlib.Logic.Function.Basic

/-!
# Programs in company

A `World` is a setting for programs over the file-system operations: its states have a file
system, which the operations act on as the kernel has it, and between two operations others may
give regular files new contents.  What is proved in a world holds of programs that are cut short
and of programs that run next to a writer.

* `World.alone`: the kernel by itself;
* `spec_op`: one operation; `spec_writeAt`, `spec_renameAt`: operations on known places;
* `spec_createDirAll`: an assertion that stands the creation of directories stands
  `create_dir_all`.
-/

namespace Posix

/-- `fs'` has other contents in some regular files. -/
def Rewrites (fs fs' : FS) : Prop :=
  ∀ v, fs'.lookup v = fs.lookup v ∨
    ∃ d m t d' m' t', fs.lookup v = some (.file d m t) ∧ fs'.lookup v = some (.file d' m' t')

/-- A setting with a file system. -/
structure World (K : Kernel) (σ : Type) extends Setting FsOp FsOp.Res σ where
  fs : σ → FS
  answer : ∀ o s, (handle o s).1 = (K.handle o (fs s)).1
  effect : ∀ o s, fs (handle o s).2 = (K.handle o (fs s)).2
  torn_fs : ∀ o s t, torn o s t → K.Torn o (fs s) (fs t)
  rely_fs : ∀ s s', rely s s' → Rewrites (fs s) (fs s')

/-- The kernel by itself. -/
def World.alone (K : Kernel) : World K FS where
  toSetting := Setting.alone K.handle
  fs s := s
  answer _ _ := rfl
  effect _ _ := rfl
  torn_fs _ _ _ h := h.elim
  rely_fs _ _ h := h.elim

/-- The kernel by itself, when a program may be cut short; `J` has to hold all the time. -/
def World.crashing (K : Kernel) (J : FS → Prop) : World K FS where
  handle := K.handle
  torn := K.Torn
  rely _ _ := False
  inv := J
  inv_rely _ _ _ h := h.elim
  fs s := s
  answer _ _ := rfl
  effect _ _ := rfl
  torn_fs _ _ _ h := h
  rely_fs _ _ h := h.elim

namespace Rewrites

variable {fs fs' : FS} {v : Loc}

theorem isDir (h : Rewrites fs fs') : fs'.isDir v = fs.isDir v := by
  rcases h v with h | ⟨d, m, t, d', m', t', h, h'⟩
  · rw [FS.isDir, h, FS.isDir]
  · simp [FS.isDir, h, h', Node.isDir]

theorem isLink (h : Rewrites fs fs') : fs'.isLink v = fs.isLink v := by
  rcases h v with h | ⟨d, m, t, d', m', t', h, h'⟩
  · rw [FS.isLink, h, FS.isLink]
  · simp [FS.isLink, h, h', Node.isLink]

theorem lookup_none (h : Rewrites fs fs') : fs'.lookup v = none ↔ fs.lookup v = none := by
  rcases h v with h | ⟨d, m, t, d', m', t', h, h'⟩
  · rw [h]
  · simp [h, h']

theorem keeps (h : Rewrites fs fs') (v : Loc) : FS.Keeps fs fs' v := by
  rcases h v with h | ⟨d, m, t, d', m', t', h, -⟩
  · exact FS.Keeps.of_eq h
  · exact ⟨fun hd => by simp [FS.isDir, h, Node.isDir] at hd, fun l t hl => by simp [h] at hl⟩

theorem leads {p : PathBuf} {r : Loc} (h : Rewrites fs fs') (hl : fs.Leads p r) :
    fs'.Leads p r :=
  hl.keeps h.keeps

theorem vacant {r q : Loc} (h : Rewrites fs fs') (hv : Vacant fs r q) : Vacant fs' r q := by
  intro w hw hne
  rw [h.lookup_none, h.isDir]
  exact hv w hw hne

theorem linkFree {follow : Bool} {r q : Loc} (h : Rewrites fs fs')
    (hf : fs.LinkFree follow r q) : fs'.LinkFree follow r q := by
  intro u hu hne hor
  rw [h.isLink]
  exact hf u hu hne hor

theorem symm (h : Rewrites fs fs') : Rewrites fs' fs := fun v =>
  (h v).imp Eq.symm fun ⟨d, m, t, d', m', t', h, h'⟩ => ⟨d', m', t', d, m, t, h', h⟩

end Rewrites

/-! ### What an operation on a place that is no directory has done -/

theorem EditAt.update {fs fs' : FS} {v : Loc} {new : Option Node} (h : EditAt fs fs' v new)
    (hv : fs.isDir v = false) : fs'.lookup = Function.update fs.lookup v new := by
  funext u
  by_cases heq : u = v
  · rw [heq, Function.update_self]
    exact h.here
  · rw [Function.update_of_ne heq]
    by_cases hu : v <+: u
    · obtain ⟨w, rfl⟩ := hu
      have hnone : fs.lookup (v ++ w) = none :=
        FS.lookup_append_of_not_isDir (by simp [hv]) (by rintro rfl; simp at heq)
      rcases h.below _ (List.prefix_append _ _) heq with h' | ⟨hd, -⟩
      · rw [h', hnone]
      · rw [hd] at hv
        cases hv
    · exact h.away u hu

theorem isDir_of_none {fs : FS} {v : Loc} (h : fs.lookup v = none) : fs.isDir v = false := by
  simp [FS.isDir, h]

theorem isDir_of_file {fs : FS} {v : Loc} {d : Bytes} {m : Mode} {t : ℤ}
    (h : fs.lookup v = some (.file d m t)) : fs.isDir v = false := by
  simp [FS.isDir, h, Node.isDir]

section

variable {K : Kernel} {σ : Type} {W : World K σ} {P : σ → Prop}

open Fallible (Spec Ends)

/-! ### Specifications of operations -/

/-- One operation, by what the kernel does. -/
theorem spec_op {o : FsOp} {Q : o.Ret → σ → Prop} {E : Errno → σ → Prop}
    (hP : W.Stable P)
    (ht : ∀ s t, W.inv s → P s → W.torn o s t → W.inv t)
    (ho : ∀ s, W.inv s → P s → W.inv (W.handle o s).2 ∧
      Ends Q E (K.handle o (W.fs s)).1 (W.handle o s).2) :
    Spec W.toSetting P (IoM.op o) Q E := by
  refine Spec.perform hP ht fun s hi hs => ?_
  rw [W.answer]
  exact ho s hi hs

/-- Operations that leave no torn state. -/
theorem not_torn {o : FsOp} (hw : ∀ p b, o ≠ .write p b) (hc : ∀ p q, o ≠ .copy p q) {s t : σ}
    (h : W.torn o s t) : False := by
  cases W.torn_fs o s t h with
  | write => exact hw _ _ rfl
  | copy => exact hc _ _ rfl

/-- An operation that only looks: the file system is what it was. -/
theorem effect_metadata (p : PathBuf) (s : σ) :
    W.fs (W.handle (.metadata p) s).2 = W.fs s := W.effect _ s

theorem stable_isDir (hP : W.Stable P) (v : Loc) :
    W.Stable fun s => P s ∧ (W.fs s).isDir v := by
  rintro s s' hi ⟨hs, hd⟩ hr
  exact ⟨hP s s' hi hs hr, by rwa [(W.rely_fs s s' hr).isDir]⟩

/-- `Path::is_dir`. -/
theorem spec_isDir {p : PathBuf} {Q : Bool → σ → Prop} {E : Errno → σ → Prop} (hP : W.Stable P)
    (ho : ∀ s, W.inv s → P s → W.inv (W.handle (.metadata p) s).2 ∧
      Q ((W.fs s).pathIsDir p) (W.handle (.metadata p) s).2) :
    Spec W.toSetting P (IoM.isDir p) Q E := by
  unfold IoM.isDir
  refine Spec.bind (N := Ends (fun m s => Q (m.fileType == .dir) s) fun _ s => Q false s)
    ?_ fun r => ?_
  · refine Spec.attempt (spec_op hP (fun s t _ _ h => ?_) fun s hi hs => ⟨(ho s hi hs).1, ?_⟩)
    · exact (not_torn (by simp) (by simp) h).elim
    · have h := (ho s hi hs).2
      rw [FS.pathIsDir] at h
      simp only [Kernel.handle]
      cases hst : (W.fs s).stat true p with
      | error e =>
        rw [hst] at h
        exact h
      | ok nd =>
        rw [hst] at h
        show Q (nd.metadata.fileType == .dir) _
        rw [nd.fileType_dir]
        exact h
  · cases r with
    | ok m => exact Spec.pure fun s _ h => h
    | error e => exact Spec.pure fun s _ h => h

/-- `Path::exists`. -/
theorem spec_exists {p : PathBuf} {Q : Bool → σ → Prop} {E : Errno → σ → Prop} (hP : W.Stable P)
    (ho : ∀ s, W.inv s → P s → W.inv (W.handle (.metadata p) s).2 ∧
      Q ((W.fs s).pathExists p) (W.handle (.metadata p) s).2) :
    Spec W.toSetting P (IoM.exists_ p) Q E := by
  unfold IoM.exists_
  refine Spec.bind (N := Ends (fun _ s => Q true s) fun _ s => Q false s) ?_ fun r => ?_
  · refine Spec.attempt (spec_op hP (fun s t _ _ h => ?_) fun s hi hs => ⟨(ho s hi hs).1, ?_⟩)
    · exact (not_torn (by simp) (by simp) h).elim
    · have h := (ho s hi hs).2
      rw [FS.pathExists] at h
      simp only [Kernel.handle]
      cases hst : (W.fs s).stat true p <;> rw [hst] at h <;> exact h
  · cases r with
    | ok m => exact Spec.pure fun s _ h => h
    | error e => exact Spec.pure fun s _ h => h

/-! ### Operations on places that are known -/

section Places

variable {Q E : σ → Prop} {path dst : PathBuf} {u v : Loc}

/-- Writing to a place where there is nothing or a regular file. -/
theorem spec_writeAt {data : Bytes} (hP : W.Stable P)
    (hv : ∀ s, W.inv s → P s → (W.fs s).resolve true path = .ok v)
    (hQ : ∀ s s' d m, W.inv s → P s →
      ((W.fs s).lookup v = none ∨ ∃ old t, (W.fs s).lookup v = some (.file old m t)) →
      (W.fs s').lookup = Function.update (W.fs s).lookup v (some (.file d m K.now)) →
      W.inv s' ∧ (d = data → Q s'))
    (hE : ∀ s s', W.inv s → P s → (W.fs s).lookup v ≠ none →
      (∀ d m t, (W.fs s).lookup v ≠ some (.file d m t)) → W.fs s' = W.fs s → W.inv s' ∧ E s') :
    Spec W.toSetting P (IoM.op (.write path data)) (fun _ => Q) (fun _ => E) := by
  have done : ∀ {s s' : σ} {d : Bytes}, W.inv s → P s →
      (W.fs s).write K path d = .ok (W.fs s') → W.inv s' ∧ (d = data → Q s') := by
    intro s s' d hi hs hw
    obtain ⟨v', m, hv', hold, he⟩ := write_ok hw
    rw [hv s hi hs] at hv'
    cases hv'
    refine hQ s s' d m hi hs hold (he.update ?_)
    rcases hold with h | ⟨old, t, h⟩
    · exact isDir_of_none h
    · exact isDir_of_file h
  refine spec_op hP ?_ fun s hi hs => ?_
  · intro s t hi hs ht
    cases W.torn_fs _ s t ht with
    | write n hw => exact (done hi hs hw).1
  · have heff := W.effect (.write path data) s
    simp only [Kernel.handle] at heff ⊢
    cases hw : (W.fs s).write K path data with
    | ok fs' =>
      rw [hw] at heff
      have heff' : W.fs (W.handle (.write path data) s).2 = fs' := heff
      obtain ⟨hi', hq⟩ := done hi hs (by rw [heff', hw])
      exact ⟨hi', hq rfl⟩
    | error e =>
      rw [hw] at heff
      refine hE s _ hi hs (fun hn => ?_) (fun d m t hf => ?_) heff
      · simp [FS.write, hv s hi hs, FS.put, hn] at hw
      · simp [FS.write, hv s hi hs, FS.put, hf] at hw

/-- Renaming a regular file to a place where there is no directory. -/
theorem spec_renameAt (hP : W.Stable P)
    (hu : ∀ s, W.inv s → P s → (W.fs s).resolve false path = .ok u)
    (hv : ∀ s, W.inv s → P s → (W.fs s).resolve false dst = .ok v)
    (hfile : ∀ s, W.inv s → P s → ∃ d m t, (W.fs s).lookup u = some (.file d m t))
    (hfree : ∀ s, W.inv s → P s → (W.fs s).isDir v = false)
    (hQ : ∀ s s', W.inv s → P s → (u = v → W.fs s' = W.fs s) →
      (u ≠ v → (W.fs s').lookup =
        Function.update (Function.update (W.fs s).lookup u none) v ((W.fs s).lookup u)) →
      W.inv s' ∧ Q s') :
    Spec W.toSetting P (IoM.op (.rename path dst)) (fun _ => Q) (fun _ _ => False) := by
  refine spec_op hP (fun s t _ _ h => (not_torn (by simp) (by simp) h).elim) fun s hi hs => ?_
  obtain ⟨d, m, t, hl⟩ := hfile s hi hs
  have hu := hu s hi hs
  have hv := hv s hi hs
  have hfree := hfree s hi hs
  have heff := W.effect (.rename path dst) s
  have hren : ∃ fs', (W.fs s).rename path dst = .ok fs' := by
    simp only [FS.rename, hu, hv, hl, Node.isDir, hfree, Bool.false_eq_true, if_false]
    split_ifs
    · exact ⟨_, rfl⟩
    · exact ⟨_, rfl⟩
  obtain ⟨fs', hren⟩ := hren
  simp only [Kernel.handle, hren, Kernel.commit] at heff ⊢
  obtain ⟨u', v', nd, hu', hv', hnd, -, -, hcase⟩ := rename_ok hren
  rw [hu] at hu'
  rw [hv] at hv'
  cases hu'
  cases hv'
  rw [hl] at hnd
  cases hnd
  refine hQ s _ hi hs (fun heq => ?_) fun hne => ?_
  · rcases hcase with ⟨-, rfl⟩ | ⟨hne, -⟩
    · exact heff
    · exact absurd heq hne
  · obtain ⟨-, e1, e2⟩ := hcase.resolve_left fun h => hne h.1
    have u1 := e1.update (isDir_of_file hl)
    have hfree' : ((W.fs s).remove u).isDir v = false := by
      rw [FS.isDir, u1, Function.update_of_ne (Ne.symm hne)]
      exact hfree
    rw [heff, e2.update hfree', u1, hl]

/-- Removing a regular file. -/
theorem spec_removeAt (hP : W.Stable P)
    (hv : ∀ s, W.inv s → P s → (W.fs s).resolve false path = .ok v)
    (hfile : ∀ s, W.inv s → P s → ∃ d m t, (W.fs s).lookup v = some (.file d m t))
    (hQ : ∀ s s', W.inv s → P s → (W.fs s').lookup = Function.update (W.fs s).lookup v none →
      W.inv s' ∧ Q s') :
    Spec W.toSetting P (IoM.op (.removeFile path)) (fun _ => Q) (fun _ _ => False) := by
  refine spec_op hP (fun s t _ _ h => (not_torn (by simp) (by simp) h).elim) fun s hi hs => ?_
  obtain ⟨d, m, t, hl⟩ := hfile s hi hs
  have heff := W.effect (.removeFile path) s
  have hrem : (W.fs s).removeFile path = .ok ((W.fs s).remove v) := by
    simp [FS.removeFile, hv s hi hs, hl, Node.isDir]
  simp only [Kernel.handle, hrem, Kernel.commit] at heff ⊢
  refine hQ s _ hi hs ?_
  rw [heff]
  refine (editAt_remove _ ?_).update (isDir_of_file hl)
  rintro rfl
  cases hl

end Places

/-! ### `create_dir_all` -/

section Mkdir

variable {p : PathBuf} {r q : Loc}

/-- What `create_dir_all` may do to the state on the way down `q` from `r`. -/
structure Mkdirable (W : World K σ) (P : σ → Prop) (p : PathBuf) (r q : Loc) : Prop where
  stable : W.Stable P
  leads : ∀ s, W.inv s → P s → (W.fs s).Leads p r
  linkFree : ∀ s, W.inv s → P s → (W.fs s).LinkFree true r q
  stat : ∀ s w, W.inv s → P s → w <+: q →
    W.inv (W.handle (.metadata (p ++ Loc.toPath w)) s).2 ∧
      P (W.handle (.metadata (p ++ Loc.toPath w)) s).2
  mkdir : ∀ s w, W.inv s → P s → w <+: q →
    (W.fs (W.handle (.createDir (p ++ Loc.toPath w)) s).2 = W.fs s ∨
      w ≠ [] ∧ (W.fs s).lookup (r ++ w) = none ∧
        (W.fs (W.handle (.createDir (p ++ Loc.toPath w)) s).2).lookup =
          Function.update (W.fs s).lookup (r ++ w) (some K.newDir)) →
    W.inv (W.handle (.createDir (p ++ Loc.toPath w)) s).2 ∧
      P (W.handle (.createDir (p ++ Loc.toPath w)) s).2

theorem Mkdirable.shorter {w : Loc} (h : Mkdirable W P p r q) (hw : w <+: q) :
    Mkdirable W P p r w where
  stable := h.stable
  leads := h.leads
  linkFree s hi hs u hu hne _ := h.linkFree s hi hs u (hu.trans hw) hne (Or.inr rfl)
  stat s u hi hs hu := h.stat s u hi hs (hu.trans hw)
  mkdir s u hi hs hu := h.mkdir s u hi hs (hu.trans hw)

theorem Mkdirable.withDir {v : Loc} (h : Mkdirable W P p r q) :
    Mkdirable W (fun s => P s ∧ (W.fs s).isDir v) p r q where
  stable := stable_isDir h.stable v
  leads s hi hs := h.leads s hi hs.1
  linkFree s hi hs := h.linkFree s hi hs.1
  stat s w hi hs hw := by
    obtain ⟨hi', hs'⟩ := h.stat s w hi hs.1 hw
    exact ⟨hi', hs', by rw [effect_metadata]; exact hs.2⟩
  mkdir s w hi hs hw hmk := by
    obtain ⟨hi', hs'⟩ := h.mkdir s w hi hs.1 hw hmk
    refine ⟨hi', hs', ?_⟩
    rcases hmk with heq | ⟨-, hnone, hup⟩
    · rw [heq]
      exact hs.2
    · have hne : v ≠ r ++ w := by
        rintro rfl
        rw [isDir_of_none hnone] at hs
        cases hs.2
      rw [FS.isDir, hup, Function.update_of_ne hne]
      exact hs.2

/-- One `create_dir` on the way. -/
theorem spec_createDir (h : Mkdirable W P p r q) :
    Spec W.toSetting P (IoM.op (.createDir (p ++ Loc.toPath q)))
      (fun _ s => P s ∧ (W.fs s).isDir (r ++ q))
      (fun e s => P s ∧ (q = [] → e ≠ .enoent) ∧ (Vacant (W.fs s) r q →
        (W.fs s).isDir (r ++ q) ∨ e = .enoent ∧ ¬ (W.fs s).isDir (r ++ q.dropLast))) := by
  refine spec_op h.stable (fun s t _ _ ht => (not_torn (by simp) (by simp) ht).elim) ?_
  intro s hi hs
  have hmk := h.mkdir s q hi hs List.prefix_rfl
  have hl := h.leads s hi hs
  have heff := W.effect (.createDir (p ++ Loc.toPath q)) s
  have hnil : q = [] → (W.fs s).createDir K (p ++ Loc.toPath q) = .error .eexist := by
    rintro rfl
    obtain ⟨m, t, sz, hl'⟩ := FS.isDir_iff.1 hl.isDir
    obtain ⟨v, hv, hsome⟩ := FS.walk_nofollow (FS.isDir_nil _) hl.self (by simp [hl'])
    obtain ⟨nd, hnd⟩ := Option.isSome_iff_exists.1 hsome
    have hv' : (W.fs s).resolve false p = .ok v := hv
    simp [Loc.toPath, FS.createDir, hv', hnd]
  simp only [Kernel.handle] at heff ⊢
  cases hc : (W.fs s).createDir K (p ++ Loc.toPath q) with
  | ok fs' =>
    rw [hc] at heff hnil
    have hq : q ≠ [] := fun hq => by cases hnil hq
    obtain ⟨v, hv, hnone, he⟩ := createDir_ok hc
    obtain rfl := hl.resolve_only hq (linkFree_nofollow (h.linkFree s hi hs)) hv
    have heff' : W.fs (W.handle (.createDir (p ++ Loc.toPath q)) s).2 = fs' := heff
    obtain ⟨hi', hs'⟩ := hmk
      (Or.inr ⟨hq, hnone, by rw [heff', he.update (isDir_of_none hnone)]⟩)
    refine ⟨hi', hs', ?_⟩
    rw [heff', FS.isDir, he.here]
    rfl
  | error e =>
    rw [hc] at heff hnil
    have heff' : W.fs (W.handle (.createDir (p ++ Loc.toPath q)) s).2 = W.fs s := heff
    obtain ⟨hi', hs'⟩ := hmk (Or.inl heff')
    refine ⟨hi', hs', fun hq => ?_, fun hv => ?_⟩
    · cases hnil hq
      simp
    · rw [heff'] at hv ⊢
      by_cases hq : q = []
      · left
        simpa [hq] using hl.isDir
      by_cases hd : (W.fs s).isDir (r ++ q)
      · exact Or.inl hd
      refine Or.inr ⟨(createDir_below_error hl hv hq hc).resolve_right hd, fun hup => ?_⟩
      -- with the directory above in place nothing could have failed
      obtain ⟨u, n, rfl⟩ : ∃ u n, q = u ++ [n] :=
        ⟨q.dropLast, q.getLast hq, (List.dropLast_append_getLast hq).symm⟩
      rw [List.dropLast_concat] at hup
      obtain ⟨fs', hc'⟩ := createDir_below_dir (K := K) hl hup
        ((hv _ List.prefix_rfl hq).resolve_right hd)
      rw [hc] at hc'
      cases hc'

theorem stable_vacant (hP : W.Stable P) : W.Stable fun s =>
    P s ∧ (Vacant (W.fs s) r q → (W.fs s).isDir (r ++ q)) := by
  rintro s s' hi ⟨hs, hv⟩ hr
  refine ⟨hP s s' hi hs hr, fun hv' => ?_⟩
  rw [(W.rely_fs s s' hr).isDir]
  exact hv ((W.rely_fs s s' hr).symm.vacant hv')

theorem spec_unlessDir {e : Errno} (h : Mkdirable W P p r q) :
    Spec W.toSetting (fun s => P s ∧ (Vacant (W.fs s) r q → (W.fs s).isDir (r ++ q)))
      (IoM.unlessDir (p ++ Loc.toPath q) e)
      (fun _ s => P s ∧ (W.fs s).isDir (r ++ q)) (fun _ s => P s ∧ ¬ Vacant (W.fs s) r q) := by
  unfold IoM.unlessDir
  refine Spec.bind (spec_isDir (stable_vacant h.stable) (Q := fun b s => P s ∧
    (Vacant (W.fs s) r q → (W.fs s).isDir (r ++ q)) ∧ (b ↔ (W.fs s).isDir (r ++ q)))
    fun s hi hs => ?_) fun b => ?_
  · obtain ⟨hi', hs'⟩ := h.stat s q hi hs.1 List.prefix_rfl
    refine ⟨hi', hs', ?_⟩
    rw [effect_metadata]
    exact ⟨hs.2, pathIsDir_below (h.leads s hi hs.1) (h.linkFree s hi hs.1)⟩
  · cases b with
    | true => exact Spec.pure fun s _ hs => ⟨hs.1, hs.2.2.1 rfl⟩
    | false =>
      exact Spec.fail fun s _ hs => ⟨hs.1, fun hv => by simpa using hs.2.2.2 (hs.2.1 hv)⟩

/-- An assertion that stands the creation of directories stands `create_dir_all`, which fails
only when something else is in the way. -/
theorem spec_createDirAll (h : Mkdirable W P p r q) :
    Spec W.toSetting P (IoM.createDirAll (p ++ Loc.toPath q))
      (fun _ s => P s ∧ (W.fs s).isDir (r ++ q))
      (fun _ s => P s ∧ ¬ Vacant (W.fs s) r q) := by
  induction q using List.reverseRecOn with
  | nil =>
    rw [IoM.createDirAll]
    rcases hp : (p ++ Loc.toPath []).reverse with _ | ⟨c, cs⟩
    · exact Spec.pure fun s hi hs => ⟨hs, by simpa using (h.leads s hi hs).isDir⟩
    · have hp' : (c :: cs).reverse = p ++ Loc.toPath [] := by
        rw [← hp, List.reverse_reverse]
      rw [IoM.createDirAllRev, hp']
      refine Spec.bind (Spec.attempt (spec_createDir h)) fun res => ?_
      rcases res with e | _
      · cases e
        case enoent => exact fun s _ hs => absurd rfl (hs.2.1 rfl)
        all_goals exact (spec_unlessDir h).pre fun s hs =>
          ⟨hs.1, fun hv => (hs.2.2 hv).resolve_right (by simp)⟩
      · exact Spec.pure fun s _ hs => hs
  | append_singleton q c ih =>
    have hpre : q <+: q ++ [c] := List.prefix_append _ _
    have hpath : (p ++ Loc.toPath (q ++ [c])).reverse =
        .name c :: (p ++ Loc.toPath q).reverse := by simp [Loc.toPath]
    have hback : (Comp.name c :: (p ++ Loc.toPath q).reverse).reverse =
        p ++ Loc.toPath (q ++ [c]) := by rw [← hpath, List.reverse_reverse]
    rw [IoM.createDirAll, hpath, IoM.createDirAllRev, hback]
    refine Spec.bind (Spec.attempt (spec_createDir h)) fun res => ?_
    rcases res with e | _
    · cases e
      case enoent =>
        have hrec : Spec W.toSetting P (IoM.createDirAll (p ++ Loc.toPath q))
            (fun _ s => P s ∧ (W.fs s).isDir (r ++ q))
            (fun _ s => P s ∧ ¬ Vacant (W.fs s) r (q ++ [c])) :=
          (ih (h.shorter hpre)).conseq (fun _ hs => hs) (fun _ _ _ hs => hs)
            fun _ s _ hs => ⟨hs.1, fun hv => hs.2 fun w hw => hv w (hw.trans hpre)⟩
        refine Spec.bind (hrec.pre fun s hs => hs.1) fun _ => ?_
        refine Spec.bind (Spec.attempt (spec_createDir h.withDir)) fun res => ?_
        rcases res with e | _
        · refine (spec_unlessDir h).pre fun s hs => ⟨hs.1.1, fun hv => ?_⟩
          -- the directory above is there now, so only a directory can be in the way
          refine (hs.2.2 hv).resolve_right fun hn => hn.2 ?_
          rw [List.dropLast_concat]
          exact hs.1.2
        · exact Spec.pure fun s _ hs => ⟨hs.1.1, hs.2⟩
      all_goals exact (spec_unlessDir h).pre fun s hs =>
        ⟨hs.1, fun hv => (hs.2.2 hv).resolve_right (by simp)⟩
    · exact Spec.pure fun s _ hs => hs

end Mkdir

end

/-! ### `create_dir_all` alone -/

section

variable {K : Kernel} {fs fs' fs'' : FS} {p : PathBuf} {r q : Loc}

/-- `fs'` has what `fs` has, and new directories on the way down `q` from `r`. -/
def Mkdirs (K : Kernel) (fs : FS) (r q : Loc) (fs' : FS) : Prop :=
  ∀ u, fs'.lookup u = fs.lookup u ∨
    ∃ w, w <+: q ∧ w ≠ [] ∧ u = r ++ w ∧ fs.lookup u = none ∧ fs'.lookup u = some K.newDir

theorem Mkdirs.refl (K : Kernel) (fs : FS) (r q : Loc) : Mkdirs K fs r q fs :=
  fun _ => Or.inl rfl

theorem Mkdirs.keeps (h : Mkdirs K fs r q fs') (v : Loc) : FS.Keeps fs fs' v := by
  rcases h v with h | ⟨w, -, -, -, h, -⟩
  · exact FS.Keeps.of_eq h
  · exact ⟨fun hd => by simp [FS.isDir, h] at hd, fun l t hl => by rw [h] at hl; cases hl⟩

theorem Mkdirs.isLink {v : Loc} (h : Mkdirs K fs r q fs') (hl : fs'.isLink v) : fs.isLink v := by
  rcases h v with h | ⟨w, -, -, -, -, h⟩
  · rwa [FS.isLink, h] at hl
  · simp [FS.isLink, h, Kernel.newDir, Node.isLink] at hl

theorem Mkdirs.vacant {q' : Loc} (h : Mkdirs K fs r q fs') (hv : Vacant fs r q') :
    Vacant fs' r q' := by
  intro w hw hne
  rcases h (r ++ w) with heq | ⟨-, -, -, -, -, hnew⟩
  · rw [FS.isDir, heq]
    exact hv w hw hne
  · exact Or.inr (by simp [FS.isDir, hnew, Kernel.newDir, Node.isDir])

theorem Mkdirs.step {w : Loc} (h : Mkdirs K fs r q fs') (hw : w <+: q) (hne : w ≠ [])
    (hnone : fs'.lookup (r ++ w) = none)
    (hup : fs''.lookup = Function.update fs'.lookup (r ++ w) (some K.newDir)) :
    Mkdirs K fs r q fs'' := by
  intro u
  by_cases hu : u = r ++ w
  · subst hu
    rcases h (r ++ w) with heq | ⟨-, -, -, -, -, hnew⟩
    · exact Or.inr ⟨w, hw, hne, rfl, heq.symm.trans hnone, by rw [hup, Function.update_self]⟩
    · rw [hnone] at hnew
      cases hnew
  · rw [hup, Function.update_of_ne hu]
    exact h u

theorem mkdirable_mkdirs (h : fs.Leads p r) (hq : fs.LinkFree true r q) :
    Mkdirable (World.alone K) (Mkdirs K fs r q) p r q where
  stable _ _ _ _ hr := hr.elim
  leads _ _ hs := h.keeps hs.keeps
  linkFree _ _ hs u hu hne hor hl := hq u hu hne hor (hs.isLink hl)
  stat _ _ _ hs _ := ⟨trivial, hs⟩
  mkdir s w _ hs hw hmk := by
    refine ⟨trivial, ?_⟩
    rcases hmk with heq | ⟨hne, hnone, hup⟩
    · have heq' : ((World.alone K).handle (.createDir (p ++ Loc.toPath w)) s).2 = s := heq
      rwa [heq']
    · exact hs.step hw hne hnone hup

/-- What `create_dir_all` does below a directory when there is no link on the way. -/
theorem exec_createDirAll (h : fs.Leads p r) (hq : fs.LinkFree true r q) :
    Fallible.Ends (fun _ s => Mkdirs K fs r q s ∧ s.isDir (r ++ q))
      (fun _ s => Mkdirs K fs r q s ∧ ¬ Vacant s r q)
      ((IoM.createDirAll (p ++ Loc.toPath q)).run K fs).1
      ((IoM.createDirAll (p ++ Loc.toPath q)).run K fs).2 :=
  Fallible.spec_alone.1 (spec_createDirAll (mkdirable_mkdirs h hq)) fs (Mkdirs.refl K fs r q)

end

end Posix
