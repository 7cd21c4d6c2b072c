import SandD.Snapshot.Put
import SandD.Snapshot.Tables

/-!
# The object store as a finite map

Runs of `putBlob`, `putFile`, `getBlob` and `copyFile` on one store, in which a put may be cut
short after any of its operations or in the middle of one.

* `Sound`: the invariant of such runs;
* `StoreCall`: one call, completed or cut short;
* `exec_putBlob`, `exec_putFile`: a completed put is the insertion of its contents;
* `objectStore_isMap`: **the store is a crash-safe map from hashes to bytes**.
-/

namespace SandD

open Posix ObjectStore
open Fallible (Spec Ends exec)

variable {K : Kernel} {H : Blake3} {root : Loc} {fs fs' : FS} {a b : Option Key}

/-! ### The invariant -/

/-- A store in order. -/
structure Sound (H : Blake3) (root : Loc) (fs : FS) : Prop where
  isDir : fs.isDir root
  clear : Clear fs (objectsDir root)
  room : ∀ k, Room fs root k
  file : ∀ k : Key, ∀ nd, fs.lookup (k.loc root) = some nd → ∃ d m t, nd = .file d m t
  content : Content H root fs

theorem StoreStep.vacant {k : Key} (h : StoreStep H root k fs fs' a b) {k' : Key}
    (hv : Vacant fs [] (k'.shardLoc root)) : Vacant fs' [] (k'.shardLoc root) := by
  intro w hw hne
  rcases hv w hw hne with hnone | hd
  · rw [List.nil_append] at hnone ⊢
    cases h with
    | mkdir u nd hu _ hnd h =>
      by_cases heq : w = u
      · exact Or.inr (by rw [FS.isDir, h, heq, Function.update_self]; exact hnd)
      · exact Or.inl (by rw [eq_of_lookup h heq, hnone])
    | fill data mode mtime hold h =>
      refine Or.inl ?_
      rw [eq_of_lookup h (Key.ne_tempLoc_of_prefix_shardLoc k root hw), hnone]
    | publish data mode mtime hk htemp _ h =>
      refine Or.inl ?_
      rw [eq_of_lookup h (Key.ne_loc_of_prefix_shardLoc k root hw),
        Function.update_of_ne (Key.ne_tempLoc_of_prefix_shardLoc k root hw), hnone]
  · exact Or.inr ((h.keeps _).1 hd)

theorem StoreStep.room {k : Key} (h : StoreStep H root k fs fs' a b) {k' : Key}
    (hr : Room fs root k') : Room fs' root k' := by
  refine ⟨h.vacant hr.1, ?_⟩
  cases h with
  | mkdir u nd hu _ _ h =>
    rw [eq_of_lookup h (Key.ne_tempLoc_of_prefix_shardLoc k' root hu).symm]
    exact hr.2
  | fill data mode mtime hold h =>
    by_cases heq : k'.tempLoc root = k.tempLoc root
    · exact Or.inr ⟨data, mode, mtime, by rw [h, heq, Function.update_self]⟩
    · rw [eq_of_lookup h heq]
      exact hr.2
  | publish data mode mtime hk htemp _ h =>
    rw [eq_of_lookup h (k'.tempLoc_ne_loc root k)]
    by_cases heq : k'.tempLoc root = k.tempLoc root
    · exact Or.inl (by rw [heq, Function.update_self])
    · rw [Function.update_of_ne heq]
      exact hr.2

theorem Sound.step {k : Key} (hs : Sound H root fs) (h : StoreStep H root k fs fs' a b) :
    Sound H root fs' where
  isDir := (h.keeps root).1 hs.isDir
  clear := h.clear hs.clear
  room k' := h.room (hs.room k')
  file k' nd hl := by
    rcases h.lookup_loc k' with heq | ⟨data, m, t, -, hl'⟩
    · exact hs.file k' nd (heq ▸ hl)
    · rw [hl'] at hl
      cases hl
      exact ⟨data, m, t, rfl⟩
  content := h.content hs.content

/-- What is at a place above or below the objects is all that counts. -/
theorem Sound.congr (hs : Sound H root fs)
    (h : ∀ v, v <+: objectsDir root ∨ objectsDir root <+: v → fs'.lookup v = fs.lookup v) :
    Sound H root fs' := by
  have hloc : ∀ k : Key, fs'.lookup (k.loc root) = fs.lookup (k.loc root) := fun k =>
    h _ (Or.inr (k.objectsDir_prefix_loc root))
  refine ⟨?_, fun v hv => ?_, fun k => ⟨fun w hw hne => ?_, ?_⟩, fun k nd hl => ?_,
    fun k data hk => ?_⟩
  · rw [FS.isDir, h _ (Or.inl (List.prefix_append _ _))]
    exact hs.isDir
  · rw [FS.isLink, h v hv]
    exact hs.clear v hv
  · rw [List.nil_append, FS.isDir, h w (k.shardLoc_comparable hw)]
    exact (hs.room k).1 w hw hne
  · rw [h _ (Or.inr (k.objectsDir_prefix_tempLoc root))]
    exact (hs.room k).2
  · exact hs.file k nd (by rw [← hloc k]; exact hl)
  · exact hs.content k data (by rw [objectAt, ← hloc k]; exact hk)

/-- A store without objects. -/
structure Fresh (root : Loc) (fs : FS) : Prop where
  isDir : fs.isDir root
  objects : fs.lookup (objectsDir root) = none

theorem Fresh.sound (h : Fresh root fs) : Sound H root fs := by
  have below : ∀ v, objectsDir root <+: v → fs.lookup v = none := by
    rintro v ⟨w, rfl⟩
    exact FS.lookup_append_of_none h.objects w
  have above : ∀ v, v <+: root → fs.isDir v := by
    intro v hv
    by_cases heq : v = root
    · exact heq ▸ h.isDir
    · obtain ⟨m, t, s, hl⟩ := FS.isDir_iff.1 h.isDir
      exact FS.isDir_of_prefix (by rw [hl]; rfl) hv heq
  have noFile : ∀ k : Key, fs.lookup (k.loc root) = none := fun k =>
    below _ (k.objectsDir_prefix_loc root)
  refine ⟨h.isDir, fun v hv => ?_, fun k => ⟨fun w hw hne => ?_, Or.inl ?_⟩, fun k nd hl => ?_,
    fun k data hk => ?_⟩
  · rcases hv with hv | hv
    · rcases List.prefix_concat_iff.1 hv with rfl | hv
      · have hnone : fs.lookup (root ++ [_]) = none := h.objects
        simp [FS.isLink, hnone]
      · exact FS.not_isLink_of_isDir (above v hv)
    · simp [FS.isLink, below v hv]
  · rw [List.nil_append]
    rcases k.shardLoc_comparable hw with hw | hw
    · rcases List.prefix_concat_iff.1 hw with rfl | hw
      · exact Or.inl (below _ (List.prefix_refl _))
      · exact Or.inr (above w hw)
    · exact Or.inl (below w hw)
  · exact below _ (k.objectsDir_prefix_tempLoc root)
  · rw [noFile k] at hl
    cases hl
  · rw [objectAt, noFile k] at hk
    cases hk

theorem objectAt_eq_some {k : Key} {data : Bytes} :
    objectAt root fs k = some data ↔ ∃ m t, fs.lookup (k.loc root) = some (.file data m t) := by
  unfold objectAt
  rcases fs.lookup (k.loc root) with _ | (_ | _ | _ | _) <;> simp

/-! ### Puts -/

/-- The objects of `fs` are still there in `fs'`. -/
def Keeping (root : Loc) (fs fs' : FS) : Prop :=
  ∀ k data, objectAt root fs k = some data → objectAt root fs' k = some data

/-- In a store in order nothing but the objects `new` comes up, whether a put is cut short or
not. -/
theorem hosts_crashing (K : Kernel) (H : Blake3) (root : Loc) (new : Key → Prop) (fs : FS) :
    Hosts (World.crashing K fun s => Sound H root s ∧ Keeping root fs s) H root new
      fun _ s => ∀ k, ¬ new k → s.lookup (k.loc root) = fs.lookup (k.loc root) where
  inv_fs s s' heq hi := by
    have heq' : s' = s := heq
    rwa [heq']
  clear s hi := hi.1.clear
  inv_step k s s' _ _ _ hi _ h := ⟨hi.1.step h, fun k' data hk => h.objectAt_kept (hi.2 k' data hk)⟩
  rely_objects _ _ _ hr := hr.elim
  step k s s' _ _ hn _ hs h k' hk' := by
    rw [← hs k' hk']
    refine h.lookup_other ?_
    rintro rfl
    exact hk' hn
  rely _ _ _ _ _ hr := hr.elim

/-- Nobody else is there to write to a file. -/
def leaseCrashing (J : FS → Prop) : Lease (World.crashing K J) root where
  held _ _ := True
  granted _ _ _ _ _ := trivial
  kept _ _ _ _ _ _ := trivial
  safe _ _ _ _ _ hr := hr.elim

theorem exec_of_spec {α : Type} {J : FS → Prop} {p : Action α} {P : FS → Prop}
    {Q : α → FS → Prop} {E : Error → FS → Prop}
    (h : Spec (World.crashing K J).toSetting P p Q E) (hJ : J fs) (hP : P fs) :
    J (exec K.handle p fs).2 ∧ Ends Q E (exec K.handle p fs).1 (exec K.handle p fs).2 :=
  Setting.wp_run (h fs hJ hP)

/-- The insertion of some contents. -/
theorem objectAt_inserted (hH : H.Lawful) {c : Bytes} (hs : Sound H root fs')
    (hother : ∀ k, ¬ k = hH.key c → fs'.lookup (k.loc root) = fs.lookup (k.loc root))
    (hsome : (fs'.lookup ((hH.key c).loc root)).isSome) :
    objectAt root fs' = Function.update (objectAt root fs) (hH.key c) (some c) := by
  funext k
  by_cases hk : k = hH.key c
  · subst hk
    rw [Function.update_self]
    obtain ⟨nd, hnd⟩ := Option.isSome_iff_exists.1 hsome
    obtain ⟨d, m, t, rfl⟩ := hs.file _ nd hnd
    have hd := hs.content (hH.key c) d (objectAt_eq_some.2 ⟨m, t, hnd⟩)
    rw [objectAt_eq_some.2 ⟨m, t, hnd⟩, hH.injective hd]
  · rw [Function.update_of_ne hk, objectAt, hother k hk, objectAt]

/-- `putBlob` inserts its contents. -/
theorem exec_putBlob (hH : H.Lawful) (hs : Sound H root fs) (c : Bytes) :
    ∃ fs', exec K.handle ((storeAt root).putBlob H c) fs = (.ok (H.hash c), fs') ∧
      Sound H root fs' ∧ Keeping root fs fs' ∧
      objectAt root fs' = Function.update (objectAt root fs) (hH.key c) (some c) := by
  have h := exec_of_spec ((hosts_crashing K H root (· = hH.key c) fs).spec_putBlob hH rfl)
    ⟨hs, fun _ _ h => h⟩ fun _ _ => rfl
  rcases hrun : exec K.handle ((storeAt root).putBlob H c) fs with ⟨e | hash, fs'⟩
  · rw [hrun] at h
    exact absurd (h.1.1.room _) h.2.2
  · rw [hrun] at h
    obtain ⟨⟨hs', hkeep⟩, hother, rfl, hsome⟩ := h
    exact ⟨fs', rfl, hs', hkeep, objectAt_inserted hH hs' hother hsome⟩

/-- `putFile` inserts the contents of the file, however it is read; it can only fail when its
loop is given too few rounds. -/
theorem exec_putFile (hH : H.Lawful) (hs : Sound H root fs) {path : PathBuf} {v : Loc}
    {c : Bytes} (hsrc : Source fs path v c) (hv : v ≠ (hH.key c).tempLoc root)
    (reads : Loc → ℕ → ℕ) (fuel : ℕ) :
    ∃ res fs', exec K.handle ((storeAt root).putFile H reads fuel path) fs = (res, fs') ∧
      Sound H root fs' ∧ Keeping root fs fs' ∧ (c.length < fuel → res = .ok (H.hash c)) ∧
      ∀ hash, res = .ok hash → hash = H.hash c ∧
        objectAt root fs' = Function.update (objectAt root fs) (hH.key c) (some c) := by
  have hP := hosts_crashing K H root (· = hH.key c) fs
  have hspec : Spec (World.crashing K fun s => Sound H root s ∧ Keeping root fs s).toSetting
      (· = fs) ((storeAt root).putFile H reads fuel path) _ _ :=
    hP.spec_putFile hH (leaseCrashing _) (· = fs) (· = c) (c.length < fuel)
      (fun _ _ _ _ hr => hr.elim) (fun s _ heq k _ => by rw [heq])
      (fun s _ heq v' c' hsrc' => by
        obtain ⟨rfl, rfl⟩ := hsrc.unique (show Source fs path v' c' from heq ▸ hsrc')
        exact ⟨rfl, rfl, hv⟩)
      fun hfuel s _ heq => ⟨v, c, heq ▸ hsrc, hfuel⟩
  have h := exec_of_spec hspec ⟨hs, fun _ _ h => h⟩ rfl
  rcases hrun : exec K.handle ((storeAt root).putFile H reads fuel path) fs with ⟨e | hash, fs'⟩
  · rw [hrun] at h
    refine ⟨_, fs', rfl, h.1.1, h.1.2, fun hfuel => ?_, fun hash h => by cases h⟩
    obtain ⟨data, -, hroom⟩ := h.2.2 hfuel
    exact absurd (h.1.1.room _) hroom
  · rw [hrun] at h
    obtain ⟨⟨hs', hkeep⟩, hother, data, rfl, rfl, hsome⟩ := h
    refine ⟨_, fs', rfl, hs', hkeep, fun _ => rfl, fun hash h => ?_⟩
    cases h
    exact ⟨rfl, objectAt_inserted hH hs' hother hsome⟩

/-! ### Reading an object -/

theorem resolve_loc (hs : Sound H root fs) {k : Key} {c : Bytes} (follow : Bool)
    (hk : objectAt root fs k = some c) :
    ∃ m t, fs.lookup (k.loc root) = some (.file c m t) ∧
      fs.resolve follow (Loc.toPath (k.loc root)) = .ok (k.loc root) := by
  obtain ⟨m, t, hl⟩ := objectAt_eq_some.1 hk
  refine ⟨m, t, hl, ?_⟩
  rw [Key.loc_eq] at hl ⊢
  refine hs.clear.resolve_child (Or.inr ?_) (FS.isDir_of_lookup_concat hl)
  rw [← Key.loc_eq]
  exact k.objectsDir_prefix_loc root

/-- `getBlob` gives what the store holds. -/
theorem exec_getBlob (hs : Sound H root fs) {k : Key} {c : Bytes}
    (hk : objectAt root fs k = some c) :
    exec K.handle ((storeAt root).getBlob k.text) fs = (.ok c, fs) := by
  obtain ⟨m, t, hl, hr⟩ := resolve_loc hs true hk
  have hread : fs.read (Loc.toPath (k.loc root)) = .ok c := by
    simp [FS.read, FS.stat, hr, hl]
  rw [getBlob, hashToPath_key, Fallible.ofExcept_ok_bind, withContext, Fallible.exec_mapError,
    io, Fallible.exec_mapError, IoM.op, Fallible.exec_perform]
  simp [Kernel.handle, hread, Except.mapError]

/-- A destination that is not among the objects: below a directory, with no link on the way to
the last name; that one may be a link to a place elsewhere. -/
structure Outside (root : Loc) (fs : FS) (dest p : PathBuf) (d u : Loc) (n : FileName) :
    Prop where
  eq : dest = p ++ Loc.toPath (u ++ [n])
  leads : fs.Leads p d
  linkFree : fs.LinkFree true d u
  place : ¬ objectsDir root <+: d ++ (u ++ [n])
  target : ∀ v, fs.resolve true dest = .ok v → ¬ objectsDir root <+: v

theorem exec_copyFile_eq {k : Key} {dest q : PathBuf} (hq : dest.parent = some q) :
    exec K.handle ((storeAt root).copyFile k.text dest) fs =
      match (IoM.createDirAll q).run K fs with
      | (.error e, fs₁) => (.error (.io e), fs₁)
      | (.ok (), fs₁) =>
        match fs₁.copy K (Loc.toPath (k.loc root)) dest with
        | .ok fs₂ => (.ok (), fs₂)
        | .error e => (.error (.context
            s!"Failed to copy object {k.text} to {dest.display}" (.io e)), fs₁) := by
  rw [copyFile, hashToPath_key, Fallible.ofExcept_ok_bind]
  simp only [hq, Fallible.exec_bind, io, withContext, Fallible.exec_mapError, IoM.op, IoM.run,
    Fallible.exec_perform, Kernel.handle]
  rcases exec K.handle (IoM.createDirAll q) fs with ⟨e | _, fs₁⟩
  · rfl
  · simp only [Except.mapError]
    rcases fs₁.copy K (Loc.toPath (k.loc root)) dest with e | fs₂ <;> rfl

section Copy

variable {dest p : PathBuf} {d u : Loc} {n : FileName}

theorem Outside.parent (ho : Outside root fs dest p d u n) :
    dest.parent = some (p ++ Loc.toPath u) := by
  rw [ho.eq, Loc.toPath_concat, ← List.append_assoc]
  simp [PathBuf.parent]

/-- A place above or below the objects that is not theirs is occupied by a directory. -/
theorem Sound.isDir_above (hs : Sound H root fs) {v : Loc} (hv : v <+: objectsDir root)
    (hne : ¬ objectsDir root <+: v) : fs.isDir v := by
  rcases List.prefix_concat_iff.1 hv with rfl | hv
  · exact absurd (List.prefix_refl _) hne
  · by_cases heq : v = root
    · exact heq ▸ hs.isDir
    · obtain ⟨m, t, s, hl⟩ := FS.isDir_iff.1 hs.isDir
      exact FS.isDir_of_prefix (by rw [hl]; rfl) hv heq

/-- The directories that are made for a destination are not among the objects. -/
theorem Outside.mkdirs_away (hs : Sound H root fs) (ho : Outside root fs dest p d u n)
    {fs₁ : FS} (hm : Mkdirs K fs d u fs₁) {v : Loc}
    (hv : v <+: objectsDir root ∨ objectsDir root <+: v) : fs₁.lookup v = fs.lookup v := by
  rcases hm v with h | ⟨w, hw, -, rfl, hnone, -⟩
  · exact h
  · have hnot : ¬ objectsDir root <+: d ++ w := fun h =>
      ho.place (h.trans ((List.prefix_append_right_inj d).2 (hw.trans (List.prefix_append _ _))))
    have hd := hs.isDir_above (hv.resolve_right hnot) hnot
    rw [isDir_of_none hnone] at hd
    cases hd

/-- Where a destination leads is not among the objects. -/
theorem Outside.resolve_away (ho : Outside root fs dest p d u n)
    {fs₁ : FS} (hm : Mkdirs K fs d u fs₁) {v : Loc} (hv : fs₁.resolve true dest = .ok v) :
    ¬ objectsDir root <+: v := by
  by_cases hl : fs₁.isLink (d ++ (u ++ [n]))
  · -- behind a link that was there all the directories were there, too
    have hd : fs.isDir (d ++ u) := by
      obtain ⟨l, t, hl'⟩ := FS.isLink_iff.1 (hm.isLink hl)
      rw [← List.append_assoc] at hl'
      exact FS.isDir_of_lookup_concat hl'
    have heq : fs₁.lookup = fs.lookup := by
      funext x
      rcases hm x with h | ⟨w, hw, -, rfl, hnone, -⟩
      · exact h
      · obtain ⟨m, t, s, hl'⟩ := FS.isDir_iff.1 hd
        have hdw : fs.isDir (d ++ w) := by
          by_cases h : d ++ w = d ++ u
          · exact h ▸ hd
          · exact FS.isDir_of_prefix (by rw [hl']; rfl)
              ((List.prefix_append_right_inj d).2 hw) h
        rw [isDir_of_none hnone] at hdw
        cases hdw
    rw [FS.resolve_congr heq] at hv
    exact ho.target v hv
  · have hlf : fs₁.LinkFree true d (u ++ [n]) := by
      intro w hw hne _ hwl
      rcases List.prefix_concat_iff.1 hw with rfl | hw
      · exact hl hwl
      · exact ho.linkFree w hw hne (Or.inr rfl) (hm.isLink hwl)
    rw [ho.eq] at hv
    rw [(ho.leads.keeps hm.keeps).resolve_only (by simp) hlf hv]
    exact ho.place

/-- With its directory in place, a free or a regular destination can be written. -/
theorem Outside.copy_ne_error (ho : Outside root fs dest p d u n) {fs₁ : FS}
    (hs : Sound H root fs₁) (hm : Mkdirs K fs d u fs₁) (hd : fs₁.isDir (d ++ u)) {k : Key}
    {c : Bytes} (hk : objectAt root fs₁ k = some c)
    (hplace : fs.lookup (d ++ (u ++ [n])) = none ∨
      ∃ b m t, fs.lookup (d ++ (u ++ [n])) = some (.file b m t)) {e : Errno} :
    fs₁.copy K (Loc.toPath (k.loc root)) dest ≠ .error e := by
  intro hc
  have hsame : fs₁.lookup (d ++ (u ++ [n])) = fs.lookup (d ++ (u ++ [n])) := by
    rcases hm (d ++ (u ++ [n])) with h | ⟨w, hw, -, heq, -, -⟩
    · exact h
    · have := hw.length_le
      have := congrArg List.length (List.append_cancel_left heq)
      simp at this
      omega
  rw [← hsame, ← List.append_assoc] at hplace
  have hnl : ¬ fs₁.isLink (d ++ u ++ [n]) := by
    rcases hplace with h | ⟨b, m, t, h⟩ <;> rw [FS.isLink, h] <;> simp [Node.isLink]
  have hdest : fs₁.resolve true dest = .ok (d ++ u ++ [n]) := by
    rw [ho.eq, Loc.toPath_concat, ← List.append_assoc]
    exact ((ho.leads.keeps hm.keeps).below hd).resolve_child n (Or.inr hnl)
  obtain ⟨m, t, hl, hr⟩ := resolve_loc hs true hk
  generalize d ++ u ++ [n] = v at hplace hdest
  rcases hplace with h | ⟨b, m', t', h⟩ <;>
    simp [FS.copy, FS.copyPart, hr, hl, hdest, FS.put, h] at hc

/-- What `copyFile` does to a destination outside the store. -/
theorem exec_copyFile (hs : Sound H root fs) (ho : Outside root fs dest p d u n) (hash : String) :
    (∀ v, v <+: objectsDir root ∨ objectsDir root <+: v →
      (exec K.handle ((storeAt root).copyFile hash dest) fs).2.lookup v = fs.lookup v) ∧
    ∀ k c, k.text = hash → objectAt root fs k = some c →
      ((exec K.handle ((storeAt root).copyFile hash dest) fs).1 = .ok () →
        ∃ v, Source (exec K.handle ((storeAt root).copyFile hash dest) fs).2 dest v c) ∧
      (Vacant fs d u → (fs.lookup (d ++ (u ++ [n])) = none ∨
          ∃ b m t, fs.lookup (d ++ (u ++ [n])) = some (.file b m t)) →
        (exec K.handle ((storeAt root).copyFile hash dest) fs).1 = .ok ()) := by
  by_cases hkey : ∃ k : Key, k.text = hash
  · obtain ⟨k, rfl⟩ := hkey
    rw [exec_copyFile_eq ho.parent]
    have hmk := exec_createDirAll (K := K) ho.leads ho.linkFree
    generalize (IoM.createDirAll (p ++ Loc.toPath u)).run K fs = run at hmk ⊢
    rcases run with ⟨e | _, fs₁⟩
    · obtain ⟨hm, hvac⟩ := hmk
      refine ⟨fun v hv => ho.mkdirs_away hs hm hv, fun k' c _ _ => ⟨fun h => (by cases h), ?_⟩⟩
      exact fun hv _ => absurd (hm.vacant hv) hvac
    obtain ⟨hm, hd⟩ := hmk
    have away : ∀ v, v <+: objectsDir root ∨ objectsDir root <+: v →
        fs₁.lookup v = fs.lookup v := fun v hv => ho.mkdirs_away hs hm hv
    have hs₁ : Sound H root fs₁ := hs.congr away
    have hobj : ∀ k c, objectAt root fs k = some c → objectAt root fs₁ k = some c := by
      intro k c hk
      rw [objectAt, away _ (Or.inr (k.objectsDir_prefix_loc root))]
      exact hk
    simp only
    rcases hc : fs₁.copy K (Loc.toPath (k.loc root)) dest with e | fs₂
    · refine ⟨away, fun k' c hk' hc' => ⟨fun h => (by cases h), fun _ hplace => ?_⟩⟩
      obtain rfl := Key.ext hk'
      exact absurd hc (ho.copy_ne_error hs₁ hm hd (hobj _ _ hc') hplace)
    · obtain ⟨x, data, m, t, v, hx, hl, hv, hold, he⟩ := copyPart_ok hc
      have hnot := ho.resolve_away hm hv
      have hnd : fs₁.isDir v = false := by
        rcases hold with h | ⟨b, m, t, h⟩
        · exact isDir_of_none h
        · exact isDir_of_file h
      have hup := he.update hnd
      refine ⟨fun w hw => ?_, fun k' c hk' hc' => ⟨fun _ => ⟨v, ?_⟩, fun _ _ => rfl⟩⟩
      · have hne : w ≠ v := by
          rintro rfl
          rw [hs₁.isDir_above (hw.resolve_right hnot) hnot] at hnd
          cases hnd
        rw [hup, Function.update_of_ne hne, away w hw]
      · obtain rfl := Key.ext hk'
        obtain ⟨m', t', hl', hx'⟩ := resolve_loc hs₁ true (hobj _ _ hc')
        rw [hx'] at hx
        cases hx
        rw [hl'] at hl
        cases hl
        have hne : ¬ k'.loc root = v := by
          rintro rfl
          exact hnot (k'.objectsDir_prefix_loc root)
        rw [if_neg hne] at hup
        refine ⟨FS.walk_keeps (fun w => ?_) hv ?_, m, K.now, by rw [hup, Function.update_self]; rfl⟩
        · by_cases hw : w = v
          · subst hw
            refine ⟨fun h => (by rw [hnd] at h; cases h), fun l t h => ?_⟩
            rcases hold with h' | ⟨b, m, t, h'⟩ <;> rw [h'] at h <;> cases h
          · exact FS.Keeps.of_eq (by rw [hup, Function.update_of_ne hw])
        · simp [FS.isLink, hup, Node.isLink]
  · have herr : ∃ e, (storeAt root).hashToPath hash = .error e := by
      rcases h : (storeAt root).hashToPath hash with e | q
      · exact ⟨e, rfl⟩
      · obtain ⟨k, hk, -⟩ := hashToPath_eq_ok_iff.1 h
        exact absurd ⟨k, hk⟩ hkey
    obtain ⟨e, he⟩ := herr
    have hrun : exec K.handle ((storeAt root).copyFile hash dest) fs = (.error e, fs) := by
      rw [copyFile, he]
      rfl
    rw [hrun]
    exact ⟨fun _ _ => rfl, fun k c hk => absurd ⟨k, hk⟩ hkey⟩

end Copy

/-! ### Runs -/

/-- Programs that may be cut short. -/
abbrev crashes (K : Kernel) : Setting FsOp FsOp.Res FS :=
  (World.crashing K fun _ => True).toSetting

/-- A call on the store at `root`. A put may be cut short; the file that is put does not change
on the way, which it would if it were the temporary file of its own object. -/
inductive StoreCall (K : Kernel) (H : Blake3) (root : Loc) (fs fs' : FS) : Prop
  | putBlob (content : Bytes)
      (h : (crashes K).Cut ((storeAt root).putBlob H content) fs fs')
  | putFile (reads : Loc → ℕ → ℕ) (fuel : ℕ) (path : PathBuf)
      (hsrc : ∀ v c (k : Key), Source fs path v c → k.text = H.hash c → v ≠ k.tempLoc root)
      (h : (crashes K).Cut ((storeAt root).putFile H reads fuel path) fs fs')
  | getBlob (hash : String) (h : fs' = (exec K.handle ((storeAt root).getBlob hash) fs).2)
  | copyFile (hash : String) (dest p : PathBuf) (d u : Loc) (n : FileName)
      (ho : Outside root fs dest p d u n)
      (h : fs' = (exec K.handle ((storeAt root).copyFile hash dest) fs).2)

/-- Reached by calls on the store. -/
abbrev Later (K : Kernel) (H : Blake3) (root : Loc) : FS → FS → Prop :=
  Relation.ReflTransGen (StoreCall K H root)

theorem cut_sound {α : Type} {p : Action α} {P : FS → Prop} {Q : α → FS → Prop}
    {E : Error → FS → Prop}
    (hspec : Spec (World.crashing K fun s => Sound H root s ∧ Keeping root fs s).toSetting
      P p Q E) (hs : Sound H root fs) (hP : P fs) (hc : (crashes K).Cut p fs fs') :
    Sound H root fs' ∧ Keeping root fs fs' := by
  refine Setting.wp_cut (hspec fs ⟨hs, fun _ _ h => h⟩ hP) (Setting.Cut.of_eq ?_ ?_ ?_ hc) <;> rfl

theorem exec_getBlob_state (hash : String) (fs : FS) :
    (exec K.handle ((storeAt root).getBlob hash) fs).2 = fs := by
  rw [getBlob]
  rcases (storeAt root).hashToPath hash with e | p
  · rfl
  · rw [Fallible.ofExcept_ok_bind, withContext, Fallible.exec_mapError, io,
      Fallible.exec_mapError]
    rfl

/-- One call leaves a store in order, with all its objects. -/
theorem StoreCall.sound (hH : H.Lawful) (hs : Sound H root fs)
    (h : StoreCall K H root fs fs') : Sound H root fs' ∧ Keeping root fs fs' := by
  cases h with
  | putBlob content h =>
    exact cut_sound ((hosts_crashing K H root (fun _ => True) fs).spec_putBlob hH trivial) hs
      (fun _ hk => absurd trivial hk) h
  | putFile reads fuel path hsrc h =>
    have hspec : Spec (World.crashing K fun s => Sound H root s ∧ Keeping root fs s).toSetting
        (· = fs) ((storeAt root).putFile H reads fuel path) _ _ :=
      (hosts_crashing K H root (fun _ => True) fs).spec_putFile hH (leaseCrashing _) (· = fs)
        (fun _ => True) False (fun _ _ _ _ hr => hr.elim) (fun s _ heq k _ => by rw [heq])
        (fun s _ heq v c hv => ⟨trivial, trivial, hsrc v c _ (heq ▸ hv) rfl⟩)
        fun hf => hf.elim
    exact cut_sound hspec hs rfl h
  | getBlob hash h =>
    rw [exec_getBlob_state] at h
    rw [h]
    exact ⟨hs, fun _ _ h => h⟩
  | copyFile hash dest p d u n ho h =>
    have haway := (exec_copyFile (K := K) hs ho hash).1
    rw [← h] at haway
    refine ⟨hs.congr haway, fun k c hk => ?_⟩
    rw [objectAt, haway _ (Or.inr (k.objectsDir_prefix_loc root))]
    exact hk

/-- So does a run. -/
theorem Later.sound (hH : H.Lawful) (hs : Sound H root fs) (h : Later K H root fs fs') :
    Sound H root fs' ∧ Keeping root fs fs' := by
  induction h with
  | refl => exact ⟨hs, fun _ _ h => h⟩
  | tail _ hc ih =>
    obtain ⟨hs', hkeep⟩ := hc.sound hH ih.1
    exact ⟨hs', fun k c hk => hkeep k c (ih.2 k c hk)⟩

/-- A completed put of `c`. -/
inductive PutDone (K : Kernel) (H : Blake3) (root : Loc) (c : Bytes) (hash : String)
    (fs fs' : FS) : Prop
  | blob (h : exec K.handle ((storeAt root).putBlob H c) fs = (.ok hash, fs'))
  | file (reads : Loc → ℕ → ℕ) (fuel : ℕ) (path : PathBuf) (v : Loc)
      (hsrc : Source fs path v c) (hv : ∀ k : Key, k.text = H.hash c → v ≠ k.tempLoc root)
      (h : exec K.handle ((storeAt root).putFile H reads fuel path) fs = (.ok hash, fs'))

theorem PutDone.inserted (hH : H.Lawful) (hs : Sound H root fs) {c : Bytes} {hash : String}
    (h : PutDone K H root c hash fs fs') : hash = H.hash c ∧ Sound H root fs' ∧
      objectAt root fs' = Function.update (objectAt root fs) (hH.key c) (some c) := by
  cases h with
  | blob h =>
    obtain ⟨fs₁, hrun, hs₁, -, hup⟩ := exec_putBlob (K := K) hH hs c
    rw [h] at hrun
    cases hrun
    exact ⟨rfl, hs₁, hup⟩
  | file reads fuel path v hsrc hv h =>
    obtain ⟨res, fs₁, hrun, hs₁, -, -, hok⟩ :=
      exec_putFile (K := K) hH hs hsrc (hv (hH.key c) rfl) reads fuel
    rw [h] at hrun
    cases hrun
    exact ⟨(hok hash rfl).1, hs₁, (hok hash rfl).2⟩

/-- **The store is a crash-safe map from hashes to bytes.** In every state of a run: the objects
hold what their names say and stay; a put of a blob and a put of a file with the same contents
come to the same insertion; what was put is read back and copied out ever after; and the paths
of objects do not collide. -/
theorem objectStore_isMap (hH : H.Lawful) {fs₀ : FS} (h₀ : Fresh root fs₀)
    (hr : Later K H root fs₀ fs) :
    (Content H root fs ∧ ∀ fs', Later K H root fs fs' → Keeping root fs fs') ∧
    (∀ path v c reads fuel, Source fs path v c → v ≠ (hH.key c).tempLoc root →
      c.length < fuel → ∃ fs₁ fs₂,
        exec K.handle ((storeAt root).putBlob H c) fs = (.ok (H.hash c), fs₁) ∧
        exec K.handle ((storeAt root).putFile H reads fuel path) fs = (.ok (H.hash c), fs₂) ∧
        objectAt root fs₁ = Function.update (objectAt root fs) (hH.key c) (some c) ∧
        objectAt root fs₂ = objectAt root fs₁) ∧
    (∀ c hash fs₁ fs₂, PutDone K H root c hash fs fs₁ → Later K H root fs₁ fs₂ →
      exec K.handle ((storeAt root).getBlob hash) fs₂ = (.ok c, fs₂) ∧
      ∀ dest p d u n, Outside root fs₂ dest p d u n →
        ((exec K.handle ((storeAt root).copyFile hash dest) fs₂).1 = .ok () →
          ∃ v, Source (exec K.handle ((storeAt root).copyFile hash dest) fs₂).2 dest v c) ∧
        (Vacant fs₂ d u → (fs₂.lookup (d ++ (u ++ [n])) = none ∨
            ∃ b m t, fs₂.lookup (d ++ (u ++ [n])) = some (.file b m t)) →
          (exec K.handle ((storeAt root).copyFile hash dest) fs₂).1 = .ok ())) ∧
    (∀ hash, (storeAt root).hashToPath hash ≠ .error .panic) ∧
    (∀ hash p, (storeAt root).hashToPath hash = .ok p →
      ∃ a b : FileName, p = Loc.toPath (objectsDir root ++ [a, b])) ∧
    (∀ hash hash' p, (storeAt root).hashToPath hash = .ok p →
      (storeAt root).hashToPath hash' = .ok p → hash = hash') ∧
    ∀ hash hash' p p', (storeAt root).hashToPath hash = .ok p →
      (storeAt root).hashToPath hash' = .ok p' → p.withExtension (utf8 "tmp") ≠ p' := by
  have hs := (Later.sound hH h₀.sound hr).1
  have path_inj : Function.Injective Loc.toPath :=
    List.map_injective_iff.2 fun _ _ h => Comp.name.inj h
  refine ⟨⟨hs.content, fun fs' h => (Later.sound hH hs h).2⟩, ?_, ?_, hashToPath_ne_panic root,
    ?_, ?_, ?_⟩
  · intro path v c reads fuel hsrc hv hfuel
    obtain ⟨fs₁, hrun₁, -, -, hup₁⟩ := exec_putBlob (K := K) hH hs c
    obtain ⟨res, fs₂, hrun₂, -, -, hok, hup₂⟩ := exec_putFile (K := K) hH hs hsrc hv reads fuel
    rw [hok hfuel] at hrun₂ hup₂
    exact ⟨fs₁, fs₂, hrun₁, hrun₂, hup₁, (hup₂ _ rfl).2.trans hup₁.symm⟩
  · intro c hash fs₁ fs₂ hput hlater
    obtain ⟨rfl, hs₁, hup⟩ := hput.inserted hH hs
    obtain ⟨hs₂, hkeep⟩ := Later.sound hH hs₁ hlater
    have hobj : objectAt root fs₂ (hH.key c) = some c :=
      hkeep _ _ (by rw [hup, Function.update_self])
    have hget := exec_getBlob (K := K) hs₂ hobj
    rw [hH.key_text] at hget
    exact ⟨hget, fun dest p d u n ho => (exec_copyFile hs₂ ho _).2 _ c (hH.key_text c) hobj⟩
  · intro hash p hp
    obtain ⟨k, -, rfl⟩ := hashToPath_eq_ok_iff.1 hp
    exact ⟨k.shard, k.leaf, rfl⟩
  · intro hash hash' p hp hp'
    obtain ⟨k, rfl, rfl⟩ := hashToPath_eq_ok_iff.1 hp
    obtain ⟨k', rfl, heq⟩ := hashToPath_eq_ok_iff.1 hp'
    rw [Key.loc_injective (path_inj heq)]
  · intro hash hash' p p' hp hp' heq
    obtain ⟨k, -, rfl⟩ := hashToPath_eq_ok_iff.1 hp
    obtain ⟨k', -, rfl⟩ := hashToPath_eq_ok_iff.1 hp'
    rw [Key.withExtension_loc] at heq
    exact k.tempLoc_ne_loc root k' (path_inj heq)

section Sample

/-- An empty store. -/
def sampleFresh : FS := ⟨[(sampleRoot, .dir 0o755 0 4096)]⟩

theorem fresh_sample : Fresh sampleRoot sampleFresh := ⟨by decide, by decide⟩

theorem exec_eq_of_fst {α : Type} {p : Action α} {r : Except Error α}
    (h : (exec K.handle p fs).1 = r) : exec K.handle p fs = (r, (exec K.handle p fs).2) := by
  rw [← h]

/-- What is put into an empty store is read back. -/
theorem objectStore_isMap_sample :
    ∃ fs₁, exec sampleKernel.handle
        ((storeAt sampleRoot).putBlob (Blake3.ofTable sampleHashes) (utf8 "a")) sampleFresh =
          (.ok (sampleHashes.hash (utf8 "a")), fs₁) ∧
      exec sampleKernel.handle ((storeAt sampleRoot).getBlob (sampleHashes.hash (utf8 "a"))) fs₁ =
        (.ok (utf8 "a"), fs₁) := by
  have hput : exec sampleKernel.handle
      ((storeAt sampleRoot).putBlob (Blake3.ofTable sampleHashes) (utf8 "a")) sampleFresh =
        (.ok (sampleHashes.hash (utf8 "a")), _) := exec_eq_of_fst (by decide +kernel)
  exact ⟨_, hput, ((objectStore_isMap (K := sampleKernel) (Blake3.ofTable_lawful sampleHashes)
    fresh_sample .refl).2.2.1 _ _ _ _ (.blob hput) .refl).1⟩

/-- A copy whose destination is the path of an object spoils the object. -/
theorem objectStore_copy_over :
    ∃ fs₁ fs₂ fs₃, Fresh sampleRoot sampleFresh ∧
      exec sampleKernel.handle
        ((storeAt sampleRoot).putBlob (Blake3.ofTable sampleHashes) (utf8 "a")) sampleFresh =
          (.ok (sampleHashes.hash (utf8 "a")), fs₁) ∧
      exec sampleKernel.handle
        ((storeAt sampleRoot).putBlob (Blake3.ofTable sampleHashes) (utf8 "b")) fs₁ =
          (.ok (sampleHashes.hash (utf8 "b")), fs₂) ∧
      exec sampleKernel.handle ((storeAt sampleRoot).copyFile (sampleHashes.hash (utf8 "a"))
        (Loc.toPath (((Blake3.ofTable_lawful sampleHashes).key (utf8 "b")).loc sampleRoot))) fs₂ =
          (.ok (), fs₃) ∧
      ¬ Content (Blake3.ofTable sampleHashes) sampleRoot fs₃ := by
  refine ⟨_, _, _, fresh_sample, exec_eq_of_fst ?_, exec_eq_of_fst ?_, exec_eq_of_fst ?_,
    fun h => ?_⟩
  · decide +kernel
  · decide +kernel
  · decide +kernel
  · exact absurd (h ((Blake3.ofTable_lawful sampleHashes).key (utf8 "b")) (utf8 "a")
      (by decide +kernel)) (by decide +kernel)

end Sample

end SandD
