import SandD.Snapshot.Leaf
import SandD.Snapshot.Steps

/-!
# Restoring files and links on a disk that fails

The programs that a restore is made of, when any of their operations may fail.  What is put into
the store on the way leaves the objects as they are, even when `exists` has failed and an object is
put once more.

* `Withstands`: how a program ends on such a disk, with its rules;
* `withstands_putFile`, `withstands_getBlob`: the store;
* `withstands_makeEntry`: `create_dir_all` on an entry of a directory;
* `EntryOp`: operations on an entry, which change it and nothing else;
* `withstands_restoreBlob`, `withstands_restoreSymlink`: **nothing but the entry is changed**.
-/

namespace SandD

open Posix ObjectStore SnapshotManager
open Fallible

variable {K : Kernel} {H : Blake3} {root : Loc} {fs fs' : FS}

/-! ### Whatever fails -/

/-- A disk on which any operation may fail. -/
abbrev failing (K : Kernel) : Setting FsOp FsOp.Res Faulty :=
  (Disk.faulty K fun _ => True).toSetting

/-- From a file system in `P` the program ends in `Q` when it succeeds and in `E` when it fails,
whatever faults befall it. -/
def Withstands {ε α : Type} (K : Kernel) (P : FS → Prop) (p : Fallible FsOp FsOp.Res ε α)
    (Q : α → FS → Prop) (E : FS → Prop) : Prop :=
  Spec (failing K) (fun s => P s.fs) p (fun a s => Q a s.fs) fun _ s => E s.fs

namespace Withstands

variable {ε α β : Type} {P P' E E' : FS → Prop} {Q Q' : α → FS → Prop}
  {p : Fallible FsOp FsOp.Res ε α}

theorem conseq (hp : Withstands K P p Q E) (hP : ∀ s, P' s → P s) (hQ : ∀ a s, Q a s → Q' a s)
    (hE : ∀ s, E s → E' s) : Withstands K P' p Q' E' :=
  Spec.conseq hp (fun s => hP s.fs) (fun a s _ => hQ a s.fs) fun _ s _ => hE s.fs

theorem bind {R : β → FS → Prop} {f : α → Fallible FsOp FsOp.Res ε β}
    (hp : Withstands K P p Q E) (hf : ∀ a, Withstands K (Q a) (f a) R E) :
    Withstands K P (p >>= f) R E := Spec.bind hp hf

theorem pure {a : α} (hQ : ∀ s, P s → Q a s) :
    Withstands K P (Pure.pure a : Fallible FsOp FsOp.Res ε α) Q E :=
  Spec.pure fun s _ => hQ s.fs

theorem fail {e : ε} (hE : ∀ s, P s → E s) :
    Withstands K P (Fallible.fail e : Fallible FsOp FsOp.Res ε α) Q E :=
  Spec.fail fun s _ => hE s.fs

theorem mapError {ε' : Type} {f : ε → ε'} (hp : Withstands K P p Q E) :
    Withstands K P (Fallible.mapError f p) Q E := Spec.mapError hp

/-- What is known of the start may depend on it. -/
theorem start (h : ∀ s, P s → Withstands K (· = s) p Q E) : Withstands K P p Q E :=
  fun s hi hs => h s.fs hs s hi rfl

/-- One operation. -/
theorem op {o : FsOp} {Q : o.Ret → FS → Prop}
    (h : ∀ s r s', P s → Posix.Outcome K o s r s' → (∀ a, r = .ok a → Q a s') ∧
      (∀ e, r = .error e → E s')) : Withstands K P (IoM.op o) Q E := by
  refine Spec.perform (fun _ _ _ _ hr => hr.elim) (fun _ _ _ _ ht => ht.elim) fun s hi hs => ?_
  refine ⟨trivial, ?_⟩
  obtain ⟨hok, herr⟩ := h s.fs _ _ hs (Faulty.outcome o s)
  cases hr : (Faulty.handle K o s).1 with
  | ok a =>
    show Ends _ _ (Faulty.handle K o s).1 _
    rw [hr]
    exact hok a hr
  | error e =>
    show Ends _ _ (Faulty.handle K o s).1 _
    rw [hr]
    exact herr e hr

/-- One operation whose error is caught. -/
theorem tried {o : FsOp} {Q : o.Res → FS → Prop}
    (h : ∀ s r s', P s → Posix.Outcome K o s r s' → Q r s') :
    Withstands K P (Fallible.attempt (IoM.op o)) Q E := by
  have hop : Spec (failing K) (fun s => P s.fs) (IoM.op o) (fun a s => Q (.ok a) s.fs)
      (fun e s => Q (.error e) s.fs) := by
    refine Spec.perform (fun _ _ _ _ hr => hr.elim) (fun _ _ _ _ ht => ht.elim) fun s _ hs => ?_
    refine ⟨trivial, ?_⟩
    have hq := h s.fs _ _ hs (Faulty.outcome o s)
    show Ends _ _ (Faulty.handle K o s).1 (Faulty.handle K o s).2
    cases hr : (Faulty.handle K o s).1 <;> rw [hr] at hq <;> exact hq
  refine (Spec.attempt hop).post ?_
  rintro (e | a) s - hs <;> exact hs

/-- What the operations that a program may issue keep, the program keeps. -/
theorem issues {A : FsOp → Prop} (hp : Issues A p)
    (h : ∀ o s r s', A o → P s → Posix.Outcome K o s r s' → P s') :
    Withstands K P p (fun _ => P) P := by
  refine Spec.issues hp (fun _ _ _ _ hr => hr.elim) fun o s ho _ hs => ?_
  exact ⟨fun _ ht => ht.elim, trivial, h o s.fs _ _ ho hs (Faulty.outcome o s)⟩

/-- A program whose error is caught. -/
theorem caught {A : FsOp → Prop} (hp : Issues A p)
    (h : ∀ o s r s', A o → P s → Posix.Outcome K o s r s' → P s') :
    Withstands K P (Fallible.attempt p) (fun _ => P) E := by
  refine (Spec.attempt (issues hp h)).post ?_
  rintro (e | a) s - hs <;> exact hs

/-- A program that only looks. -/
theorem looks (hp : Issues Looks p) : Withstands K P p (fun _ => P) P :=
  issues hp fun _ _ _ _ ho hs h => (outcome_look ho h) ▸ hs

/-- What a program comes to when it is run. -/
theorem run (hp : Withstands K P p Q E) {s : Faulty} (hs : P s.fs) :
    Ends Q (fun _ => E) (exec (Faulty.handle K) p s).1 (exec (Faulty.handle K) p s).2.fs := by
  have h := (Setting.wp_run (hp s trivial hs)).2
  rcases hrun : exec (Faulty.handle K) p s with ⟨e | a, s'⟩
  · have hrun' : p.run (failing K).handle s = (.error e, s') := hrun
    rw [hrun'] at h
    exact h
  · have hrun' : p.run (failing K).handle s = (.ok a, s') := hrun
    rw [hrun'] at h
    exact h

end Withstands

/-- What an operation that changes the file system, or fails, may come to. -/
theorem outcome_changes {o : FsOp} {r : o.Res} {x : Except Errno FS}
    (hx : (K.handle o fs).2 = (Kernel.commit fs x).2) (ht : ∀ s, ¬ K.Torn o fs s)
    (h : Posix.Outcome K o fs r fs') : fs' = fs ∨ x = .ok fs' := by
  cases h with
  | done =>
    rw [hx]
    rcases commit_cases fs x with ⟨e, -, heq⟩ | ⟨s, hs, heq⟩ <;> rw [heq]
    · exact .inl rfl
    · exact .inr hs
  | failed => exact .inl rfl
  | torn e h => exact absurd h (ht _)

theorem commit_ok {x : Except Errno FS} {u : Unit} (h : (Kernel.commit fs x).1 = .ok u) :
    x = .ok (Kernel.commit fs x).2 := by
  rcases commit_cases fs x with ⟨e, -, heq⟩ | ⟨s, hs, heq⟩ <;> rw [heq] at h ⊢
  · cases h
  · exact hs

/-- What a copy may come to: it has been done, or a part of it. -/
theorem outcome_copy {src dst : PathBuf} {r : (FsOp.copy src dst).Res}
    (h : Posix.Outcome K (.copy src dst) fs r fs') :
    fs' = fs ∧ (∀ u, r ≠ .ok u) ∨
      ∃ part, fs.copyPart K part src dst = .ok fs' ∧ (∀ u, r = .ok u → part = id) := by
  cases h with
  | done =>
    show (Kernel.commit fs (fs.copy K src dst)).2 = fs ∧ (∀ u,
      (Kernel.commit fs (fs.copy K src dst)).1 ≠ .ok u) ∨ _
    rcases commit_cases fs (fs.copy K src dst) with ⟨e, -, heq⟩ | ⟨s, hs, heq⟩
    · rw [heq]
      exact .inl ⟨rfl, fun _ h => by cases h⟩
    · refine .inr ⟨id, ?_, fun _ _ => rfl⟩
      show _ = Except.ok (Kernel.commit fs (fs.copy K src dst)).2
      rw [heq]
      exact hs
  | failed e => exact .inl ⟨rfl, fun _ h => by cases h⟩
  | torn e h =>
    cases h with
    | copy n h => exact .inr ⟨List.take n, h, fun _ h => by cases h⟩

/-! ### The store -/

/-- Nothing has changed but what is below the objects directory. -/
abbrev Added (H : Blake3) (root : Loc) (fs fs' : FS) : Prop := Within H root (fun _ => False) fs fs'

theorem Within.keeps {inside : Loc → Prop} (h : Within H root inside fs fs') {v : Loc}
    (hv : ¬ inside v) : FS.Keeps fs fs' v := by
  by_cases ho : objectsDir root <+: v
  · exact h.store v ho
  · exact FS.Keeps.of_eq (h.away v hv ho)

/-- A store stays in order without one of its objects. -/
theorem Sound.without {k : Key} (hs : Sound H root fs)
    (hup : fs'.lookup = Function.update fs.lookup (k.loc root) none) : Sound H root fs' where
  isDir := by
    rw [FS.isDir, hup, Function.update_of_ne]
    · exact hs.isDir
    · intro h
      have := congrArg List.length h
      simp [Key.loc, objectsDir] at this
  clear v hv hlink := by
    rw [FS.isLink, hup, Function.update_apply] at hlink
    split_ifs at hlink
    · cases hlink
    · exact hs.clear v hv hlink
  room k' := by
    refine ⟨fun w hw hne => ?_, ?_⟩
    · rw [FS.isDir, List.nil_append, hup,
        Function.update_of_ne (Key.ne_loc_of_prefix_shardLoc k root hw)]
      exact (hs.room k').1 w hw hne
    · rw [hup, Function.update_of_ne (k'.tempLoc_ne_loc root k)]
      exact (hs.room k').2
  file k' nd hnd := by
    rw [hup, Function.update_apply] at hnd
    split_ifs at hnd
    exact hs.file k' nd hnd
  content k' data hk := by
    obtain ⟨m, t, hl⟩ := objectAt_eq_some.1 hk
    rw [hup, Function.update_apply] at hl
    split_ifs at hl
    exact hs.content k' data (objectAt_eq_some.2 ⟨m, t, hl⟩)

/-- An object takes its place, even when it has been there before. -/
theorem added_publish {k : Key} {data : Bytes} {m : Mode} {t : ℤ} (hs : Sound H root fs)
    (hk : H.hash data = k.text) (hH : H.Lawful)
    (htemp : fs.lookup (k.tempLoc root) = some (.file data m t))
    (hup : fs'.lookup = Function.update (Function.update fs.lookup (k.tempLoc root) none)
      (k.loc root) (some (.file data m t))) : Added H root fs fs' := by
  have hne := k.tempLoc_ne_loc root k
  rcases hl : fs.lookup (k.loc root) with _ | nd
  · exact (StoreStep.publish data m t hk htemp hl hup).within hs
  · -- what has been there has the same contents
    obtain ⟨d', m', t', rfl⟩ := hs.file k nd hl
    obtain rfl : d' = data :=
      hH.injective ((hs.content k d' (objectAt_eq_some.2 ⟨m', t', hl⟩)).trans hk.symm)
    have hdir : fs.isDir (k.loc root) = false := isDir_of_file hl
    have hgone := FS.lookup_remove_leaf (k.loc_ne_nil root) hdir
    have hstep : StoreStep H root k (fs.remove (k.loc root)) fs' (some k) none := by
      refine .publish d' m t hk ?_ ?_ ?_
      · rw [hgone, Function.update_of_ne hne, htemp]
      · rw [hgone, Function.update_self]
      · rw [hup, hgone]
        funext v
        simp only [Function.update_apply]
        split_ifs <;> rfl
    have hw := hstep.within (hs.without hgone)
    refine ⟨hw.sound, fun k' c hc => ?_, fun v _ => ?_, fun v _ hv => ?_⟩
    · obtain ⟨m₁, t₁, hc⟩ := objectAt_eq_some.1 hc
      by_cases heq : k' = k
      · subst heq
        cases hl.symm.trans hc
        exact objectAt_eq_some.2 ⟨m, t, by rw [hup, Function.update_self]⟩
      · refine objectAt_eq_some.2 ⟨m₁, t₁, ?_⟩
        rw [hup, Function.update_of_ne fun h => heq (Key.loc_injective h),
          Function.update_of_ne (k.tempLoc_ne_loc root k').symm, hc]
    · refine ⟨fun hd => ?_, fun l t₁ hlink => ?_⟩
      · rw [FS.isDir, hup, Function.update_apply, Function.update_apply]
        split_ifs with h₁ h₂
        · simp [FS.isDir, h₁, hl, Node.isDir] at hd
        · simp [FS.isDir, h₂, htemp, Node.isDir] at hd
        · exact hd
      · refine ⟨t₁, ?_⟩
        rw [hup, Function.update_apply, Function.update_apply]
        split_ifs with h₁ h₂
        · rw [h₁, hl] at hlink
          cases hlink
        · rw [h₂, htemp] at hlink
          cases hlink
        · exact hlink
    · rw [hup, Function.update_of_ne, Function.update_of_ne]
      · rintro rfl
        exact hv (k.objectsDir_prefix_tempLoc root)
      · rintro rfl
        exact hv (k.objectsDir_prefix_loc root)

/-- A directory on the way to an object. -/
theorem added_createDir {k : Key} {u : Loc} (hs : Sound H root fs) (hu : u <+: k.shardLoc root)
    {r : (FsOp.createDir (Loc.toPath u)).Res}
    (h : Posix.Outcome K (.createDir (Loc.toPath u)) fs r fs') : Added H root fs fs' := by
  rcases outcome_changes (x := fs.createDir K (Loc.toPath u)) rfl (fun _ h => by cases h) h with
    rfl | h
  · exact .refl hs
  · obtain ⟨v, hv, hnone, hedit⟩ := createDir_ok h
    have hne : u ≠ [] := by
      rintro rfl
      cases hv
      cases hnone
    obtain rfl := hs.clear.resolve (k.shardLoc_comparable hu) hne hv
    exact (StoreStep.mkdir v K.newDir hu hnone rfl
      (hedit.update (isDir_of_none hnone))).within (k := k) hs

theorem withstands_makeShard (k : Key) :
    Withstands K (Added H root fs) (io (IoM.createDirAll (Loc.toPath (k.shardLoc root))))
      (fun _ => Added H root fs) (Added H root fs) := by
  refine .issues (A := fun o => Looks o ∨ ∃ u, u <+: k.shardLoc root ∧
    o = .createDir (Loc.toPath u)) (issues_mapError (issues_createDirAll fun w hw =>
      ⟨.inr ⟨w, hw, rfl⟩, .inl trivial⟩)) ?_
  rintro o s r s' (ho | ⟨u, hu, rfl⟩) hw h
  · exact outcome_look ho h ▸ hw
  · exact hw.trans (added_createDir hw.sound hu h)

/-- The temporary file is filled with a copy, or with a part of it. -/
theorem added_copy {k : Key} {path : PathBuf} {v : Loc} {data : Bytes} (hs : Sound H root fs)
    (hsrc : Source fs path v data) (hv : v ≠ k.tempLoc root)
    {r : (FsOp.copy path (Loc.toPath (k.tempLoc root))).Res}
    (h : Posix.Outcome K (.copy path (Loc.toPath (k.tempLoc root))) fs r fs') :
    Added H root fs fs' ∧
      (∀ u, r = .ok u → ∃ m t, fs'.lookup (k.tempLoc root) = some (.file data m t)) := by
  rcases outcome_copy h with ⟨rfl, hr⟩ | ⟨part, hc, hpart⟩
  · exact ⟨.refl hs, fun u hu => absurd hu (hr u)⟩
  · obtain ⟨u, data', m, t, w, hu, hl, hw, hold, he⟩ := copyPart_ok hc
    obtain ⟨hv', m', t', hl'⟩ := hsrc
    cases hv'.symm.trans hu
    cases hl'.symm.trans hl
    obtain rfl := hs.clear.resolve (Or.inr (k.objectsDir_prefix_tempLoc root))
      (k.tempLoc_ne_nil root) hw
    rw [if_neg hv] at he
    have hdir : fs.isDir (k.tempLoc root) = false := by
      rcases hold with h | ⟨old, m', t', h⟩
      · exact isDir_of_none h
      · exact isDir_of_file h
    refine ⟨(StoreStep.fill _ _ _ hold (he.update hdir)).within hs, fun u hu => ?_⟩
    obtain rfl := hpart u hu
    exact ⟨_, _, he.here⟩

/-- The object takes its place. -/
theorem added_rename {k : Key} {data : Bytes} (hs : Sound H root fs) (hH : H.Lawful)
    (hk : H.hash data = k.text)
    (htemp : ∃ m t, fs.lookup (k.tempLoc root) = some (.file data m t))
    {r : (FsOp.rename (Loc.toPath (k.tempLoc root)) (Loc.toPath (k.loc root))).Res}
    (h : Posix.Outcome K (.rename (Loc.toPath (k.tempLoc root)) (Loc.toPath (k.loc root))) fs r
      fs') : Added H root fs fs' := by
  rcases outcome_changes (x := fs.rename (Loc.toPath (k.tempLoc root)) (Loc.toPath (k.loc root)))
    rfl (fun _ h => by cases h) h with rfl | h
  · exact .refl hs
  · obtain ⟨m, t, htemp⟩ := htemp
    obtain ⟨u, v, nd, hu, hv, hl, -, hdir, hcase⟩ := rename_ok h
    obtain rfl := hs.clear.resolve (Or.inr (k.objectsDir_prefix_tempLoc root))
      (k.tempLoc_ne_nil root) hu
    obtain rfl := hs.clear.resolve (Or.inr (k.objectsDir_prefix_loc root)) (k.loc_ne_nil root) hv
    rcases hcase with ⟨heq, -⟩ | ⟨hne, hout, hin⟩
    · exact absurd heq (k.tempLoc_ne_loc root k)
    · cases htemp.symm.trans hl
      have hout' := hout.update (isDir_of_file htemp)
      have hin' := hin.update (by
        rw [FS.isDir, hout', Function.update_of_ne hne.symm]
        exact hdir)
      exact added_publish hs hk hH htemp (by rw [hin', hout'])
/-- The loop of `putFile` comes to the hash of the file; a directory cannot be read. -/
theorem withstands_hashLoop (hH : H.Lawful) (reads : Loc → ℕ → ℕ) {v : Loc}
    (hv : (∃ data m t, fs.lookup v = some (.file data m t)) ∨ fs.isDir v) (fuel offset : ℕ)
    (hasher : H.Hasher) (hinv : ∀ data m t, fs.lookup v = some (.file data m t) →
      offset ≤ data.length ∧ ∃ chunks : List Bytes, hasher = chunks.foldl H.update H.new ∧
        chunks.flatten = data.take offset) :
    Withstands K (· = fs) (hashLoop H reads v fuel offset hasher)
      (fun hasher s => s = fs ∧ ∃ data m t, fs.lookup v = some (.file data m t) ∧
        H.finalize hasher = H.hash data) (· = fs) := by
  induction fuel generalizing offset hasher with
  | zero => exact .fail fun _ hs => hs
  | succ fuel ih =>
    have hsize : 1 ≤ readSize reads v offset := le_max_left _ _
    generalize hn : readSize reads v offset = n at hsize
    rw [hashLoop, hn]
    refine .bind (Q := fun b s => s = fs ∧ ∃ data m t, fs.lookup v = some (.file data m t) ∧
      b = (data.drop offset).take n) (.mapError (.op fun s r s' hs h => ?_)) fun b => ?_
    · obtain rfl := hs
      obtain rfl := outcome_look (o := .readChunk v offset n) trivial h
      refine ⟨fun b hb => ⟨rfl, ?_⟩, fun _ _ => rfl⟩
      have hread : s'.readChunk v offset n = .ok b := (h.of_ok hb).1
      rcases hv with ⟨data, m, t, hl⟩ | hdir
      · simp only [FS.readChunk, hl] at hread
        exact ⟨data, m, t, hl, (Except.ok.inj hread).symm⟩
      · obtain ⟨m, t, sz, hl⟩ := FS.isDir_iff.1 hdir
        simp only [FS.readChunk, hl] at hread
        cases hread
    · refine .start fun s hs => ?_
      obtain ⟨rfl, data, m, t, hl, hb⟩ := hs
      obtain ⟨hoff, chunks, hhasher, hflat⟩ := hinv data m t hl
      by_cases hnil : b.length = 0
      · -- nothing is left to read, so everything has been hashed
        have hend : data.length ≤ offset := by
          rw [hb, List.length_take, List.length_drop] at hnil
          omega
        rw [if_pos hnil]
        refine .pure fun _ hs => ⟨hs, data, m, t, hl, ?_⟩
        rw [hhasher, hH.incremental, hflat, List.take_of_length_le hend]
      · rw [if_neg hnil]
        refine ih _ _ fun data' m' t' hl' => ?_
        cases hl.symm.trans hl'
        refine ⟨?_, chunks ++ [b], ?_, ?_⟩
        · rw [hb, List.length_take, List.length_drop]
          omega
        · rw [List.foldl_append, ← hhasher]
          rfl
        · rw [List.flatten_append, hflat, List.flatten_singleton, hb, List.take_add,
            ← List.prefix_iff_eq_take.1 (List.take_prefix n (data.drop offset))]

theorem withstands_storeHashed (hH : H.Lawful) {path : PathBuf} {v : Loc} {data : Bytes}
    (hs : Sound H root fs) (hsrc : Source fs path v data) (hv : ¬ objectsDir root <+: v) :
    Withstands K (· = fs) (Hosts.storeHashed (storeAt root) path (H.hash data))
      (fun _ => Added H root fs) (Added H root fs) := by
  have hne : v ≠ (hH.key data).tempLoc root := by
    rintro rfl
    exact hv ((hH.key data).objectsDir_prefix_tempLoc root)
  have hrefl : ∀ s, s = fs → Added H root fs s := by
    rintro s rfl
    exact .refl hs
  rw [← hH.key_text data, Hosts.storeHashed_eq]
  refine .bind (Q := fun _ => Added H root fs)
    ((Withstands.looks (issues_mapError (issues_exists trivial))).conseq (fun _ h => h)
      (fun _ => hrefl) hrefl) fun b => ?_
  cases b with
  | true => exact .pure fun _ h => h
  | false =>
    refine .bind (withstands_makeShard _) fun _ => ?_
    refine .bind (Q := fun _ s => Added H root fs s ∧
      ∃ m t, s.lookup ((hH.key data).tempLoc root) = some (.file data m t))
      (.mapError (.mapError (.op fun s r s' hw h => ?_))) fun _ => ?_
    · have hl : ∃ m t, s.lookup v = some (.file data m t) := by
        rw [hw.away v id hv]
        exact hsrc.2
      obtain ⟨hw', hok⟩ := added_copy hw.sound (hsrc.keeps (fun u => hw.keeps id) hl) hne h
      exact ⟨fun u hu => ⟨hw.trans hw', hok u hu⟩, fun _ _ => hw.trans hw'⟩
    · refine .bind (Q := fun _ => Added H root fs) (.mapError (.op fun s r s' hs h => ?_))
        fun _ => .pure fun _ h => h
      obtain ⟨hw, htemp⟩ := hs
      have hw' := hw.trans (added_rename hw.sound hH (hH.key_text data).symm htemp h)
      exact ⟨fun _ _ => hw', fun _ _ => hw'⟩

/-- Storing a file that is not below the objects directory. -/
theorem withstands_putFile (hH : H.Lawful) {path : PathBuf} (hs : Sound H root fs)
    (hpath : ∀ v, fs.resolve true path = .ok v → ¬ objectsDir root <+: v)
    (reads : Loc → ℕ → ℕ) (fuel : ℕ) :
    Withstands K (· = fs) ((storeAt root).putFile H reads fuel path) (fun _ => Added H root fs)
      (Added H root fs) := by
  have hrefl : ∀ s, s = fs → Added H root fs s := by
    rintro s rfl
    exact .refl hs
  rw [Hosts.putFile_eq]
  refine .bind (Q := fun v s => s = fs ∧ fs.openFile path = .ok v)
    (.mapError (.mapError (.op fun s r s' hs' h => ?_))) fun v => ?_
  · obtain rfl := hs'
    obtain rfl := outcome_look (o := .openFile path) trivial h
    exact ⟨fun v hv => ⟨rfl, (h.of_ok hv).1⟩, fun _ _ => .refl hs⟩
  · refine .start fun s hs' => ?_
    obtain ⟨rfl, hopen⟩ := hs'
    have hv : (∃ data m t, s.lookup v = some (.file data m t)) ∨ s.isDir v :=
      (openFile_ok hopen).imp_left fun h => h.imp fun _ hsrc => hsrc.2
    refine .bind ((withstands_hashLoop hH reads hv fuel 0 H.new fun data m t _ =>
      ⟨Nat.zero_le _, [], rfl, rfl⟩).conseq (fun _ h => h) (fun _ _ h => h) hrefl) fun hasher => ?_
    refine .start fun s' hs' => ?_
    obtain ⟨rfl, data, m, t, hl, hhash⟩ := hs'
    rcases openFile_ok hopen with ⟨data', hsrc⟩ | hdir
    · obtain ⟨hr, m', t', hl'⟩ := hsrc
      cases hl.symm.trans hl'
      rw [hhash]
      exact withstands_storeHashed hH hs ⟨hr, m, t, hl⟩ (hpath v hr)
    · simp [FS.isDir, hl, Node.isDir] at hdir

/-- What is read of an object is what is stored. -/
theorem withstands_getBlob (hs : Sound H root fs) {hash : String} {b : Bytes}
    (hb : stored root fs hash = some b) :
    Withstands K (· = fs) ((managerAt root).store.getBlob hash) (fun c s => s = fs ∧ c = b)
      (· = fs) := by
  obtain ⟨k, rfl, hk⟩ := stored_eq_some.1 hb
  obtain ⟨m, t, hl, hr⟩ := resolve_loc hs true hk
  have hread : fs.read (Loc.toPath (k.loc root)) = .ok b := by
    simp [FS.read, FS.stat, hr, hl]
  have hpath : (managerAt root).store.hashToPath k.text = .ok (Loc.toPath (k.loc root)) :=
    hashToPath_key root k
  rw [getBlob, hpath, Fallible.ofExcept_ok_bind]
  refine .mapError (.mapError (.op fun s r s' hs' h => ?_))
  obtain rfl := hs'
  obtain rfl := outcome_look (o := .read _) trivial h
  refine ⟨fun c hc => ⟨rfl, ?_⟩, fun _ _ => rfl⟩
  have hread' : s'.read (Loc.toPath (k.loc root)) = .ok c := (h.of_ok hc).1
  exact Except.ok.inj (hread'.symm.trans hread)

/-! ### Directories -/

/-- What is above a place that a path leads to is there. -/
theorem walk_prefix {n : ℕ} {p q : PathBuf} {cur r : Loc} (hcur : fs.isDir cur)
    (h : fs.walk true n cur (p ++ q) = .ok r) (hr : (fs.lookup r).isSome) :
    ∃ v, fs.walk true n cur p = .ok v ∧ (fs.lookup v).isSome := by
  induction n using Nat.strong_induction_on generalizing cur p with
  | _ n ihn =>
  induction p generalizing cur with
  | nil =>
    obtain ⟨m, t, s, hl⟩ := FS.isDir_iff.1 hcur
    exact ⟨cur, FS.walk_nil .., by rw [hl]; rfl⟩
  | cons c rest ih =>
    cases c with
    | nul => cases n <;> cases h
    | parent =>
      obtain ⟨v, hv⟩ := ih (FS.isDir_dropLast hcur) (by cases n <;> exact h)
      exact ⟨v, by cases n <;> exact hv⟩
    | name c =>
      rcases FS.walk_name_ok h with ⟨hd, h⟩ | ⟨hrest, rfl, -, hlink⟩ | ⟨n', l, t, rfl, hl, -, h⟩
      · obtain ⟨m, t, s, hl⟩ := FS.isDir_iff.1 hd
        obtain ⟨v, hv⟩ := ih hd h
        exact ⟨v, by rwa [FS.walk_name hl]⟩
      · obtain rfl := (List.append_eq_nil_iff.1 hrest).1
        exact ⟨_, FS.walk_last (Or.inr (hlink rfl)), hr⟩
      · have hb : fs.isDir (l.base cur) := by
          unfold Target.base
          split_ifs
          · rfl
          · exact hcur
        have h' : fs.walk true n' (l.base cur) ((components l.bytes ++ rest) ++ q) = .ok r := by
          rw [List.append_assoc]
          exact h
        obtain ⟨v, hv⟩ := ihn n' (Nat.lt_succ_self _) hb h'
        exact ⟨v, by rwa [FS.walk_link hl (Or.inr rfl)]⟩

/-- A directory that is there cannot be made once more, and neither can one above it. -/
theorem createDir_above {p q : PathBuf} {d : Loc} (h : fs.Leads (p ++ q) d)
    {r : (FsOp.createDir p).Res} (ho : Posix.Outcome K (.createDir p) fs r fs') : fs' = fs := by
  rcases outcome_changes (x := fs.createDir K p) rfl (fun _ h => by cases h) ho with rfl | hc
  · rfl
  · obtain ⟨v, hv, hnone, -⟩ := createDir_ok hc
    obtain ⟨m, t, s, hl⟩ := FS.isDir_iff.1 h.isDir
    obtain ⟨u, hu, hsome⟩ := walk_prefix (FS.isDir_nil fs) h.self (by rw [hl]; rfl)
    obtain ⟨w, hw, hsome⟩ := FS.walk_nofollow (FS.isDir_nil fs) hu hsome
    cases hv.symm.trans hw
    rw [hnone] at hsome
    cases hsome

/-- `create_dir_all` makes directories on its path. -/
theorem issues_createDirAll_above {A : FsOp → Prop} {p : PathBuf}
    (h : ∀ q, q <+: p → A (.createDir q) ∧ A (.metadata q)) : Issues A (IoM.createDirAll p) := by
  have hrev : ∀ cs : PathBuf, cs.reverse <+: p → Issues A (IoM.createDirAllRev cs) := by
    intro cs
    induction cs with
    | nil => exact fun _ => issues_pure _
    | cons c cs ih =>
      intro hcs
      obtain ⟨hmk, hlook⟩ := h _ hcs
      rw [List.reverse_cons] at hcs
      refine issues_bind (issues_attempt (issues_op hmk)) fun r => ?_
      split
      · exact issues_pure _
      · refine issues_bind (ih ((List.prefix_append _ _).trans hcs)) fun _ =>
          issues_bind (issues_attempt (issues_op hmk)) fun r => ?_
        split
        · exact issues_pure _
        · exact issues_unlessDir hlook
      · exact issues_unlessDir hlook
  exact hrev _ (by rw [List.reverse_reverse])

/-- `create_dir_all` on a directory that is there. -/
theorem withstands_createDirAll {p : PathBuf} {d : Loc} (h : fs.Leads p d) :
    Withstands K (· = fs) (IoM.createDirAll p) (fun _ => (· = fs)) (· = fs) := by
  refine .issues (A := fun o => Looks o ∨ ∃ q, q <+: p ∧ o = .createDir q)
    (issues_createDirAll_above fun q hq => ⟨.inr ⟨q, hq, rfl⟩, .inl trivial⟩) ?_
  rintro o s r s' (ho | ⟨q, ⟨w, rfl⟩, rfl⟩) rfl hout
  · exact outcome_look ho hout
  · exact createDir_above h hout

section Entry

variable {p : PathBuf} {d : Loc} {n : FileName}

/-- The directory has been made, or nothing has changed. -/
def MadeAt (K : Kernel) (v : Loc) (fs fs' : FS) : Prop :=
  fs' = fs ∨ fs.lookup v = none ∧ fs'.lookup = Function.update fs.lookup v (some K.newDir)

theorem MadeAt.isDir {v : Loc} (h : MadeAt K v fs fs') (hd : fs.isDir v) : fs' = fs := by
  rcases h with rfl | ⟨hnone, -⟩
  · rfl
  · simp [FS.isDir, hnone] at hd

theorem MadeAt.leads {v : Loc} (h : MadeAt K v fs fs') (hp : fs.Leads p d) : fs'.Leads p d := by
  refine hp.keeps fun u => ?_
  rcases h with rfl | ⟨hnone, hup⟩
  · exact FS.Keeps.of_eq rfl
  · by_cases heq : u = v
    · subst heq
      exact ⟨fun hd => by simp [FS.isDir, hnone] at hd, fun l t hl => by simp [hnone] at hl⟩
    · exact FS.Keeps.of_eq (by rw [hup, Function.update_of_ne heq])

theorem MadeAt.not_isLink {v : Loc} (h : MadeAt K v fs fs') (hn : ¬ fs.isLink v) :
    ¬ fs'.isLink v := by
  rcases h with rfl | ⟨-, hup⟩
  · exact hn
  · rw [FS.isLink, hup, Function.update_self]
    exact fun h => by cases h

/-- An attempt to make the directory. -/
theorem MadeAt.createDir {s s' : FS} (hs : MadeAt K (d ++ [n]) fs s) (h : fs.Leads p d)
    {r : (FsOp.createDir (p ++ [.name n])).Res}
    (ho : Posix.Outcome K (.createDir (p ++ [.name n])) s r s') :
    MadeAt K (d ++ [n]) fs s' ∧ (∀ u, r = .ok u → s'.isDir (d ++ [n])) := by
  have hdone : ∀ {s₁}, s.createDir K (p ++ [.name n]) = .ok s₁ → s.lookup (d ++ [n]) = none ∧
      s₁.lookup = Function.update s.lookup (d ++ [n]) (some K.newDir) := by
    intro s₁ hc
    obtain ⟨v, hv, hnone, hedit⟩ := createDir_ok hc
    cases ((hs.leads h).resolve_entry (n := n) (Or.inl rfl)).symm.trans hv
    exact ⟨hnone, hedit.update (isDir_of_none hnone)⟩
  refine ⟨?_, fun u hu => ?_⟩
  · rcases outcome_changes (x := s.createDir K (p ++ [.name n])) rfl (fun _ h => by cases h) ho
      with rfl | hc
    · exact hs
    · obtain ⟨hnone, hup⟩ := hdone hc
      rcases hs with rfl | ⟨-, hup'⟩
      · exact .inr ⟨hnone, hup⟩
      · rw [hup', Function.update_self] at hnone
        cases hnone
  · obtain ⟨hok, heq⟩ := ho.of_ok hu
    have hok' : (Kernel.commit s (s.createDir K (p ++ [.name n]))).1 = .ok u := hok
    obtain ⟨-, hup⟩ := hdone (commit_ok hok')
    rw [heq, FS.isDir]
    show ((Kernel.commit s (s.createDir K (p ++ [.name n]))).2.lookup _).any _ = true
    rw [hup, Function.update_self]
    rfl

/-- A directory that is found is there. -/
theorem withstands_unlessDir (h : fs.Leads p d) (hn : ¬ fs.isLink (d ++ [n])) (e : Errno) :
    Withstands K (MadeAt K (d ++ [n]) fs) (IoM.unlessDir (p ++ [.name n]) e)
      (fun _ s => MadeAt K (d ++ [n]) fs s ∧ s.isDir (d ++ [n])) (MadeAt K (d ++ [n]) fs) := by
  refine .bind (Q := fun b s => MadeAt K (d ++ [n]) fs s ∧ (b = true → s.isDir (d ++ [n])))
    (.bind (Q := fun r s => MadeAt K (d ++ [n]) fs s ∧
      ∀ m, r = .ok m → (s.stat true (p ++ [.name n])).map Node.metadata = .ok m)
      (.tried fun s r s' hs hout => ?_) fun r => ?_) fun b => ?_
  · obtain rfl := outcome_look (o := .metadata (p ++ [.name n])) trivial hout
    exact ⟨hs, fun m hm => (hout.of_ok hm).1⟩
  · cases r with
    | error e => exact .pure fun _ hs => ⟨hs.1, fun h => by cases h⟩
    | ok m =>
      refine .pure fun s hs => ⟨hs.1, fun hty => ?_⟩
      have hstat := hs.2 m rfl
      rw [(hs.1.leads h).stat_entry (Or.inr (hs.1.not_isLink hn))] at hstat
      rcases hl : s.lookup (d ++ [n]) with _ | nd
      · rw [hl] at hstat
        cases hstat
      · rw [hl] at hstat
        obtain rfl := Except.ok.inj hstat
        rw [FS.isDir, hl]
        cases nd <;> first | rfl | cases hty
  · cases b with
    | true => exact .pure fun _ hs => ⟨hs.1, hs.2 rfl⟩
    | false => exact .fail fun _ hs => hs.1

/-- `create_dir_all` on an entry of a directory. -/
theorem withstands_makeEntry (h : fs.Leads p d) (hn : ¬ fs.isLink (d ++ [n])) :
    Withstands K (· = fs) (IoM.createDirAll (p ++ [.name n]))
      (fun _ s => MadeAt K (d ++ [n]) fs s ∧ s.isDir (d ++ [n])) (MadeAt K (d ++ [n]) fs) := by
  have hrev : IoM.createDirAll (p ++ [.name n]) = IoM.createDirAllRev (.name n :: p.reverse) := by
    rw [IoM.createDirAll, List.reverse_append]
    rfl
  have hpath : (Comp.name n :: p.reverse).reverse = p ++ [.name n] := by simp
  have htry : Withstands K (MadeAt K (d ++ [n]) fs)
      (Fallible.attempt (IoM.op (.createDir (p ++ [.name n])))) (fun r s =>
        MadeAt K (d ++ [n]) fs s ∧ (∀ u, r = .ok u → s.isDir (d ++ [n])))
      (MadeAt K (d ++ [n]) fs) := .tried fun s r s' hs hout => hs.createDir h hout
  have hunless : ∀ e, Withstands K (fun s => MadeAt K (d ++ [n]) fs s ∧
      (∀ u, (Except.error e : Except Errno Unit) = .ok u → s.isDir (d ++ [n])))
        (IoM.unlessDir (p ++ [.name n]) e)
        (fun _ s => MadeAt K (d ++ [n]) fs s ∧ s.isDir (d ++ [n]))
        (MadeAt K (d ++ [n]) fs) := fun e =>
    (withstands_unlessDir h hn e).conseq (fun _ hs => hs.1) (fun _ _ h => h) fun _ h => h
  rw [hrev, IoM.createDirAllRev, hpath]
  refine .bind (htry.conseq (fun _ hs => .inl hs) (fun _ _ h => h) fun _ h => h) fun r => ?_
  split
  next => exact .pure fun _ hs => ⟨hs.1, hs.2 () rfl⟩
  next =>
    refine .bind (Q := fun _ => MadeAt K (d ++ [n]) fs) (.start fun s hs => ?_) fun _ =>
      .bind htry fun r => ?_
    · refine (withstands_createDirAll (hs.1.leads h)).conseq (fun _ h => h) ?_ ?_
      · rintro _ s' rfl
        exact hs.1
      · rintro s' rfl
        exact hs.1
    · split
      next => exact .pure fun _ hs => ⟨hs.1, hs.2 () rfl⟩
      next => exact hunless _
  next => exact hunless _

/-! ### Entries -/

/-- The operations that restore a regular file. -/
inductive FileOp (p : PathBuf) (n : FileName) : FsOp → Prop
  | look {o : FsOp} (h : Looks o) : FileOp p n o
  | mkdir {q : PathBuf} (h : q <+: p) : FileOp p n (.createDir q)
  | copy (src : PathBuf) : FileOp p n (.copy src (p ++ [.name n]))
  | setMode (mode : ℕ) : FileOp p n (.setPermissions (p ++ [.name n]) mode)
  | setMtime (mtime : ℤ) : FileOp p n (.setFileMtime (p ++ [.name n]) mtime)

/-- The operations that restore a link. -/
inductive LinkOp (p : PathBuf) (n : FileName) : FsOp → Prop
  | look {o : FsOp} (h : Looks o) : LinkOp p n o
  | remove : LinkOp p n (.removeFile (p ++ [.name n]))
  | symlink (target : Bytes) : LinkOp p n (.symlink target (p ++ [.name n]))

/-- The operations that clear a name away. -/
inductive ClearOp (p : PathBuf) (n : FileName) : FsOp → Prop
  | look {o : FsOp} (h : Looks o) : ClearOp p n o
  | remove : ClearOp p n (.removeFile (p ++ [.name n]))
  | removeAll : ClearOp p n (.removeDirAll (p ++ [.name n]))

/-- A node is changed, and not made a link. -/
theorem change_entry_ok (h : fs.Leads p d) (hn : ¬ fs.isLink (d ++ [n])) {f : Node → Node}
    (hf : ∀ nd, (f nd).isDir = nd.isDir) (hlink : ∀ nd, (f nd).isLink = nd.isLink)
    (hc : fs.change (p ++ [.name n]) f = .ok fs') : ∃ nd, nd.isLink = false ∧
      fs'.lookup = Function.update fs.lookup (d ++ [n]) (some nd) := by
  obtain ⟨v, nd, hv, hl, -⟩ := change_ok hf hc
  cases (h.resolve_entry (n := n) (Or.inr hn)).symm.trans hv
  have hnd : nd.isLink = false := by simpa [FS.isLink, hl] using hn
  rw [h.change_entry f hl hnd] at hc
  cases hc
  exact ⟨f nd, (hlink nd).trans hnd, FS.lookup_modify_some (by simp) hf hl⟩

/-- Nothing has changed, or the entry has become something that is no link. -/
theorem FileOp.outcome {o : FsOp} {r : o.Res} (ho : FileOp p n o) (h : fs.Leads p d)
    (hn : ¬ fs.isLink (d ++ [n])) (hout : Posix.Outcome K o fs r fs') :
    fs' = fs ∨ ∃ nd, nd.isLink = false ∧
      fs'.lookup = Function.update fs.lookup (d ++ [n]) (some nd) := by
  cases ho with
  | look ho => exact .inl (outcome_look ho hout)
  | mkdir hq =>
    obtain ⟨w, rfl⟩ := hq
    exact .inl (createDir_above h hout)
  | copy src =>
    rcases outcome_copy hout with ⟨heq, -⟩ | ⟨part, hc, -⟩
    · exact .inl heq
    · obtain ⟨u, data, m, t, v, -, -, hv, hold, hedit⟩ := copyPart_ok hc
      cases (h.resolve_entry (n := n) (Or.inr hn)).symm.trans hv
      refine .inr ⟨_, rfl, hedit.update ?_⟩
      rcases hold with hnone | ⟨old, m', t', hl⟩
      · exact isDir_of_none hnone
      · exact isDir_of_file hl
  | setMode mode =>
    rcases outcome_changes (x := fs.change _ (Node.setMode (BitVec.ofNat 12 mode))) rfl
      (fun _ h => by cases h) hout with heq | hc
    · exact .inl heq
    · exact .inr (change_entry_ok h hn (Node.isDir_setMode _) (fun nd => by cases nd <;> rfl) hc)
  | setMtime mtime =>
    rcases outcome_changes (x := fs.change _ (Node.setMtime mtime)) rfl
      (fun _ h => by cases h) hout with heq | hc
    · exact .inl heq
    · exact .inr (change_entry_ok h hn (Node.isDir_setMtime _) (fun nd => by cases nd <;> rfl) hc)

/-- Nothing has changed but the entry. -/
theorem LinkOp.outcome {o : FsOp} {r : o.Res} (ho : LinkOp p n o) (h : fs.Leads p d)
    (hout : Posix.Outcome K o fs r fs') :
    fs' = fs ∨ ∃ new, fs'.lookup = Function.update fs.lookup (d ++ [n]) new := by
  cases ho with
  | look ho => exact .inl (outcome_look ho hout)
  | remove =>
    rcases outcome_changes (x := fs.removeFile (p ++ [.name n])) rfl
      (fun _ h => by cases h) hout with heq | hc
    · exact .inl heq
    · obtain ⟨v, nd, hv, hl, hnd, hedit⟩ := removeFile_ok hc
      cases (h.resolve_entry (n := n) (Or.inl rfl)).symm.trans hv
      exact .inr ⟨none, hedit.update (by rw [FS.isDir, hl]; exact hnd)⟩
  | symlink target =>
    rcases outcome_changes (x := fs.symlink K target (p ++ [.name n])) rfl
      (fun _ h => by cases h) hout with heq | hc
    · exact .inl heq
    · obtain ⟨v, l, hv, hnone, -, hedit⟩ := symlink_ok hc
      cases (h.resolve_entry (n := n) (Or.inl rfl)).symm.trans hv
      exact .inr ⟨_, hedit.update (isDir_of_none hnone)⟩

/-- Nothing has changed but the entry and what is below. -/
theorem ClearOp.outcome {o : FsOp} {r : o.Res} (ho : ClearOp p n o) (h : fs.Leads p d)
    (hout : Posix.Outcome K o fs r fs') :
    ∀ v, ¬ d ++ [n] <+: v → fs'.lookup v = fs.lookup v := by
  intro v hv
  cases ho with
  | look ho => rw [outcome_look ho hout]
  | remove =>
    rcases outcome_changes (x := fs.removeFile (p ++ [.name n])) rfl
      (fun _ h => by cases h) hout with rfl | hc
    · rfl
    · obtain ⟨u, -, hu, -, -, hedit⟩ := removeFile_ok hc
      cases (h.resolve_entry (n := n) (Or.inl rfl)).symm.trans hu
      exact hedit.away v hv
  | removeAll =>
    rcases outcome_changes (x := fs.removeDirAll (p ++ [.name n])) rfl
      (fun _ h => by cases h) hout with rfl | hc
    · rfl
    · obtain ⟨u, hu, -, hedit⟩ := removeDirAll_ok hc
      cases (h.resolve_entry (n := n) (Or.inl rfl)).symm.trans hu
      exact hedit.away v hv

/-- One place has changed. -/
theorem Within.of_update {new : Option Node} (hs : Sound H root fs) (hd : Apart root d)
    (hup : fs'.lookup = Function.update fs.lookup (d ++ [n]) new) :
    Within H root (· = d ++ [n]) fs fs' := by
  refine .of_away hs (hd.deeper (List.prefix_append d [n])) ?_ fun v hv => ?_
  · rintro v rfl
    exact List.prefix_rfl
  · rw [hup, Function.update_of_ne hv]

theorem Within.pinned_entry {s : FS} (hw : Within H root (· = d ++ [n]) fs s)
    (hp : fs.Pinned p d) : s.Pinned p d := by
  refine hw.pinned ?_ hp
  rintro v rfl
  exact under_concat d n

theorem withstands_shouldCopy (hH : H.Lawful) (hs : Sound H root fs) (h : fs.Leads p d)
    (hd : Apart root d) (hn : ¬ fs.isLink (d ++ [n])) (e : TreeEntry) (reads : Loc → ℕ → ℕ)
    (fuel : ℕ) :
    Withstands K (· = fs) ((managerAt root).shouldCopy H reads fuel (p ++ [.name n]) e)
      (fun _ => Added H root fs) (Added H root fs) := by
  have hrefl : ∀ s, s = fs → Added H root fs s := by
    rintro s rfl
    exact .refl hs
  refine .bind ((Withstands.looks (issues_mapError (issues_exists trivial))).conseq (fun _ h => h)
    (fun _ _ h => h) hrefl) fun b => ?_
  cases b with
  | false => exact .pure hrefl
  | true =>
    refine .bind ((Withstands.looks (issues_attempt (issues_mapError
      (issues_op (o := .metadata (p ++ [.name n])) trivial)))).conseq
        (fun _ h => h) (fun _ _ h => h) hrefl) fun r => ?_
    cases r with
    | error e => exact .pure hrefl
    | ok m =>
      show Withstands K _ (if m.len = e.size ∧ m.modified = e.modified then _ else _) _ _
      split_ifs
      · exact .pure hrefl
      · refine .bind (withstands_putFile hH hs (fun v hv => ?_) reads fuel) fun _ =>
          .pure fun _ h => h
        cases (h.resolve_entry (n := n) (Or.inr hn)).symm.trans hv
        exact hd.not_objects (List.prefix_append d [n])

theorem issues_copyFile (hash : String) :
    Issues (FileOp p n) ((managerAt root).store.copyFile hash (p ++ [.name n])) := by
  have hparent : PathBuf.parent (p ++ [.name n]) = some p := by simp [PathBuf.parent]
  unfold ObjectStore.copyFile
  rw [hparent]
  exact issues_bind (issues_ofExcept _) fun _ =>
    issues_bind (issues_mapError (issues_createDirAll_above fun q hq =>
      ⟨.mkdir hq, .look trivial⟩)) fun _ => issues_mapError (issues_mapError (issues_op (.copy _)))

/-- Restoring a regular file, whatever fails, changes nothing but the file. -/
theorem withstands_restoreBlob (hH : H.Lawful) (hs : Sound H root fs) (hp : fs.Pinned p d)
    (hd : Apart root d) (hn : ¬ fs.isLink (d ++ [n])) (e : TreeEntry) (reads : Loc → ℕ → ℕ)
    (fuel : ℕ) :
    Withstands K (· = fs) ((managerAt root).restoreBlob H reads fuel (p ++ [.name n]) e)
      (fun _ => Within H root (· = d ++ [n]) fs) (Within H root (· = d ++ [n]) fs) := by
  have hmono : ∀ s, Added H root fs s → Within H root (· = d ++ [n]) fs s := fun s h =>
    h.mono fun _ => False.elim
  refine .bind ((withstands_shouldCopy hH hs hp.leads hd hn e reads fuel).conseq (fun _ h => h)
    (fun _ _ h => h) hmono) fun b => ?_
  have hstamp : Issues (FileOp p n) (do
      setMode (p ++ [.name n]) e.mode
      setMtime (p ++ [.name n]) e.modified) :=
    issues_bind (issues_mapError (issues_op (.setMode _))) fun _ =>
      issues_mapError (issues_op (.setMtime _))
  have hrest : Issues (FileOp p n) (do
      if b then
        (managerAt root).store.copyFile e.hash (p ++ [.name n])
      setMode (p ++ [.name n]) e.mode
      setMtime (p ++ [.name n]) e.modified) := by
    cases b with
    | true => exact issues_bind (issues_copyFile _) fun _ => hstamp
    | false => exact hstamp
  refine (Withstands.issues (P := fun s => Within H root (· = d ++ [n]) fs s ∧
    ¬ s.isLink (d ++ [n])) hrest fun o s r s' ho hs hout => ?_).conseq (fun s h => ⟨hmono s h, ?_⟩)
      (fun _ _ h => h.1) fun _ h => h.1
  · obtain ⟨hw, hlink⟩ := hs
    rcases ho.outcome (hw.pinned_entry hp).leads hlink hout with rfl | ⟨nd, hnd, hup⟩
    · exact ⟨hw, hlink⟩
    · refine ⟨hw.trans (.of_update hw.sound hd hup), ?_⟩
      rw [FS.isLink, hup, Function.update_self]
      simp [hnd]
  · rw [FS.isLink, h.away _ id (hd.not_objects (List.prefix_append d [n]))]
    exact hn

theorem issues_restoreLink (e : TreeEntry) :
    Issues (LinkOp p n) ((managerAt root).restoreSymlink (p ++ [.name n]) e) := by
  have hmake : ∀ (target : String) (b : Bool), Issues (LinkOp p n) (do
      if b then
        let _ ← Fallible.attempt (io (IoM.op (.removeFile (p ++ [.name n]))))
      io (IoM.op (.symlink (utf8 target) (p ++ [.name n]))) : Action Unit) := by
    intro target b
    cases b
    · exact issues_mapError (issues_op (.symlink _))
    · exact issues_bind (issues_attempt (issues_mapError (issues_op .remove))) fun _ =>
        issues_mapError (issues_op (.symlink _))
  refine issues_bind (issues_bind (issues_ofExcept _) fun _ =>
    issues_mapError (issues_mapError (issues_op (.look trivial)))) fun b => ?_
  cases fromUtf8 b with
  | none => exact issues_fail _
  | some target =>
    refine issues_bind (issues_mapError (issues_exists (.look trivial))) fun b => ?_
    cases b
    · refine issues_bind (issues_mapError ?_) fun b => hmake target b
      refine issues_bind (issues_attempt (issues_op (.look trivial))) fun r => ?_
      cases r <;> exact issues_pure _
    · exact hmake target true

/-- Restoring a link, whatever fails, changes nothing but the link. -/
theorem withstands_restoreSymlink (hs : Sound H root fs) (hp : fs.Pinned p d) (hd : Apart root d)
    (e : TreeEntry) :
    Withstands K (· = fs) ((managerAt root).restoreSymlink (p ++ [.name n]) e)
      (fun _ => Within H root (· = d ++ [n]) fs) (Within H root (· = d ++ [n]) fs) := by
  refine (Withstands.issues (P := Within H root (· = d ++ [n]) fs) (issues_restoreLink e)
    fun o s r s' ho hw hout => ?_).conseq ?_ (fun _ _ h => h) fun _ h => h
  · rcases ho.outcome (hw.pinned_entry hp).leads hout with rfl | ⟨new, hup⟩
    · exact hw
    · exact hw.trans (.of_update hw.sound hd hup)
  · rintro s rfl
    exact .refl hs

/-- Clearing a name away never fails, and changes nothing but what is at the name and below. -/
theorem withstands_cleanEntry (hs : Sound H root fs) (hp : fs.Pinned p d) (hd : Apart root d)
    (expected : List String) :
    Withstands K (· = fs) (cleanEntry p expected n)
      (fun _ => Within H root (fun v => toStringLossy n.bytes ∉ expected ∧ d ++ [n] <+: v) fs)
      (fun _ => False) := by
  have hrefl : ∀ s, s = fs →
      Within H root (fun v => toStringLossy n.bytes ∉ expected ∧ d ++ [n] <+: v) fs s := by
    rintro s rfl
    exact .refl hs
  rw [cleanEntry, p.join_of_valid n.valid]
  split_ifs with hmem
  · exact .pure hrefl
  · have hstep : ∀ o s r s', ClearOp p n o →
        Within H root (fun v => toStringLossy n.bytes ∉ expected ∧ d ++ [n] <+: v) fs s →
          Posix.Outcome K o s r s' →
            Within H root (fun v => toStringLossy n.bytes ∉ expected ∧ d ++ [n] <+: v) fs s' := by
      intro o s r s' ho hw hout
      have hleads := (hw.pinned (fun v hv => (under_concat d n).deeper hv.2) hp).leads
      refine hw.trans (.of_away hw.sound (hd.deeper (List.prefix_append d [n])) (fun v hv => hv.2)
        fun v hv => ho.outcome hleads hout v fun hpre => hv ⟨hmem, hpre⟩)
    refine .bind ((Withstands.caught (issues_mapError (issues_op (.look trivial))) hstep).conseq
      hrefl (fun _ _ h => h) fun _ h => h) fun r => ?_
    cases r with
    | error e => exact .pure fun _ h => h
    | ok m =>
      show Withstands K _ (if m.fileType = .dir then _ else _) _ _
      split_ifs
      · exact .bind (Withstands.caught (issues_mapError (issues_op .removeAll)) hstep) fun _ =>
          .pure fun _ h => h
      · exact .bind (Withstands.caught (issues_mapError (issues_op .remove)) hstep) fun _ =>
          .pure fun _ h => h

end Entry

end SandD
