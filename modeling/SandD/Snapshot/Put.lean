import SandD.Snapshot.Objects

/-!
# Putting objects

What `putBlob` and `putFile` do to a store, in any world that hosts one: each operation is one
`StoreStep` or changes nothing, so that an assertion that stands store steps stands them; they
return the hash of the contents, and then the object is there.

* `Hosts`: a world with a store in it;
* `Lease`: the files whose contents others leave alone for the time being;
* `spec_putBlob`, `spec_putFile`.
-/

namespace SandD

open Posix ObjectStore
open Fallible (Spec Ends)

variable {K : Kernel} {σ : Type} {W : World K σ} {H : Blake3} {root : Loc}

/-! ### Worlds with a store -/

/-- A world in which a store is at `root`, and an assertion `P` about file systems that is not
upset by the putting of the objects `new` or by others; it may depend on the object whose
temporary file is full. -/
structure Hosts (W : World K σ) (H : Blake3) (root : Loc) (new : Key → Prop)
    (P : Option Key → FS → Prop) : Prop where
  inv_fs : ∀ s s', W.fs s' = W.fs s → W.inv s → W.inv s'
  clear : ∀ s, W.inv s → Clear (W.fs s) (objectsDir root)
  inv_step : ∀ k s s' a b, new k → W.inv s → P a (W.fs s) →
    StoreStep H root k (W.fs s) (W.fs s') a b → W.inv s'
  rely_objects : ∀ s s', W.inv s → W.rely s s' → ∀ v, objectsDir root <+: v →
    (W.fs s').lookup v = (W.fs s).lookup v
  step : ∀ k s s' a b, new k → W.inv s → P a (W.fs s) →
    StoreStep H root k (W.fs s) (W.fs s') a b → P b (W.fs s')
  rely : ∀ s s' a, W.inv s → P a (W.fs s) → W.rely s s' → P a (W.fs s')

/-- The operations that come between opening a file to be stored and copying it. -/
def Quiet (root : Loc) (fs : FS) : FsOp → Prop
  | .createDir _ => True
  | .readChunk .. => True
  | .metadata p => p.length < root.length + 3 ∨ (fs.stat true p).isOk = false
  | _ => False

/-- Files whose contents others leave alone, from the time they are opened. -/
structure Lease (W : World K σ) (root : Loc) where
  held : Loc → σ → Prop
  granted : ∀ s p v, W.inv s → (W.fs s).openFile p = .ok v →
    held v (W.handle (.openFile p) s).2
  kept : ∀ s o v, W.inv s → held v s → Quiet root (W.fs s) o → held v (W.handle o s).2
  safe : ∀ s s' v, W.inv s → held v s → W.rely s s' →
    held v s' ∧ ∀ data m t, (W.fs s).lookup v = some (.file data m t) →
      ∃ m' t', (W.fs s').lookup v = some (.file data m' t')

/-- `fs'` has one more directory. -/
def Grown (fs fs' : FS) : Prop :=
  ∃ u nd, nd.isDir = true ∧ fs.lookup u = none ∧
    fs'.lookup = Function.update fs.lookup u (some nd)

theorem Grown.kept {fs fs' : FS} (h : Grown fs fs') {v : Loc} {nd : Node}
    (hv : fs.lookup v = some nd) : fs'.lookup v = some nd := by
  obtain ⟨u, nd', -, hnone, hup⟩ := h
  have hne : v ≠ u := by
    rintro rfl
    rw [hnone] at hv
    cases hv
  rw [hup, Function.update_of_ne hne, hv]

theorem Grown.keeps {fs fs' : FS} (h : Grown fs fs') (v : Loc) : FS.Keeps fs fs' v := by
  constructor
  · intro hd
    obtain ⟨m, t, s, hl⟩ := FS.isDir_iff.1 hd
    exact FS.isDir_of_lookup (h.kept hl)
  · exact fun l t hl => ⟨t, h.kept hl⟩

/-- A path leads to a regular file with these contents. -/
def Source (fs : FS) (path : PathBuf) (v : Loc) (data : Bytes) : Prop :=
  fs.resolve true path = .ok v ∧ ∃ m t, fs.lookup v = some (.file data m t)

theorem Source.keeps {fs fs' : FS} {path : PathBuf} {v : Loc} {data : Bytes}
    (h : Source fs path v data) (hk : ∀ u, FS.Keeps fs fs' u)
    (hv : ∃ m t, fs'.lookup v = some (.file data m t)) : Source fs' path v data := by
  obtain ⟨m, t, hl⟩ := hv
  refine ⟨FS.walk_keeps hk h.1 ?_, m, t, hl⟩
  simp [FS.isLink, hl, Node.isLink]

theorem openFile_ok {fs : FS} {path : PathBuf} {v : Loc} (h : fs.openFile path = .ok v) :
    (∃ data, Source fs path v data) ∨ fs.isDir v := by
  rw [FS.openFile] at h
  rcases hr : fs.resolve true path with e | u <;> rw [hr] at h
  · cases h
  · have hnl := FS.resolve_not_isLink hr
    rcases hl : fs.lookup u with _ | (⟨data, m, t⟩ | _ | _ | _) <;> simp only [hl] at h <;>
      cases h
    · exact Or.inl ⟨data, hr, m, t, hl⟩
    · exact Or.inr (FS.isDir_of_lookup hl)
    · exact absurd (FS.isLink_iff.2 ⟨_, _, hl⟩) hnl

theorem Source.openFile {fs : FS} {path : PathBuf} {v : Loc} {data : Bytes}
    (h : Source fs path v data) : fs.openFile path = .ok v := by
  obtain ⟨hr, m, t, hl⟩ := h
  simp [FS.openFile, hr, hl]

theorem Source.unique {fs : FS} {path : PathBuf} {v v' : Loc} {data data' : Bytes}
    (h : Source fs path v data) (h' : Source fs path v' data') : v = v' ∧ data = data' := by
  obtain ⟨hr, m, t, hl⟩ := h
  obtain ⟨hr', m', t', hl'⟩ := h'
  rw [hr] at hr'
  cases hr'
  rw [hl] at hl'
  cases hl'
  exact ⟨rfl, rfl⟩

/-- There is room for an object: nothing but directories on the way, and no more than a regular
file where the temporary file goes. -/
def Room (fs : FS) (root : Loc) (k : Key) : Prop :=
  Vacant fs [] (k.shardLoc root) ∧
    (fs.lookup (k.tempLoc root) = none ∨ ∃ d m t, fs.lookup (k.tempLoc root) = some (.file d m t))

/-- With room for the object its temporary file can be written. -/
theorem put_temp {fs : FS} {k : Key} (hroom : Room fs root k) (mode : Mode) (data : Bytes) :
    ∃ fs', fs.put K (k.tempLoc root) mode data = .ok fs' := by
  rcases hroom.2 with h | ⟨d, m, t, h⟩ <;> simp [FS.put, h]

theorem Key.loc_ne_nil (k : Key) (root : Loc) : k.loc root ≠ [] := by simp [Key.loc]

theorem Key.tempLoc_ne_nil (k : Key) (root : Loc) : k.tempLoc root ≠ [] := by simp [Key.tempLoc]

theorem Key.shardLoc_comparable (k : Key) {root w : Loc} (hw : w <+: k.shardLoc root) :
    w <+: objectsDir root ∨ objectsDir root <+: w :=
  List.prefix_or_prefix_of_prefix hw (List.prefix_append _ _)

theorem Key.parent_loc (k : Key) (root : Loc) :
    PathBuf.parent (Loc.toPath (k.loc root)) = some (Loc.toPath (k.shardLoc root)) := by
  rw [Key.loc_eq, Loc.toPath_concat]
  simp [PathBuf.parent]

theorem Key.withExtension_loc (k : Key) (root : Loc) :
    PathBuf.withExtension (Loc.toPath (k.loc root)) (utf8 "tmp") =
      Loc.toPath (k.tempLoc root) := by
  rw [Key.loc_eq, Key.tempLoc_eq, Loc.toPath_concat, Loc.toPath_concat,
    PathBuf.withExtension_concat, Key.withExtension_leaf]

/-- The temporary file is full, and the object can take its place. -/
def Filled (fs : FS) (root : Loc) (k : Key) (data : Bytes) : Prop :=
  fs.lookup (k.loc root) = none ∧ fs.isDir (k.shardLoc root) ∧
    ∃ m t, fs.lookup (k.tempLoc root) = some (.file data m t)

namespace Hosts

variable {new : Key → Prop} {P : Option Key → FS → Prop} (hP : Hosts W H root new P) {k : Key}

include hP

theorem stable : W.Stable fun s => P none (W.fs s) := fun s s' hi hs hr => hP.rely s s' _ hi hs hr

/-- Whether the object is there. -/
theorem spec_objectExists {A : σ → Prop} (hA : W.Stable A)
    (hquiet : ∀ s, W.inv s → A s → (W.fs s).lookup (k.loc root) = none →
      A (W.handle (.metadata (Loc.toPath (k.loc root))) s).2) :
    Spec W.toSetting (fun s => P none (W.fs s) ∧ A s) (io (IoM.exists_ (Loc.toPath (k.loc root))))
      (fun b s => P none (W.fs s) ∧ (b = true → ((W.fs s).lookup (k.loc root)).isSome) ∧
        (b = false → A s ∧ (W.fs s).lookup (k.loc root) = none))
      (fun _ _ => False) := by
  refine Spec.mapError (spec_exists (fun s s' hi hs hr => ⟨hP.rely s s' _ hi hs.1 hr,
    hA s s' hi hs.2 hr⟩) fun s hi hs => ?_)
  have heq := effect_metadata (W := W) (Loc.toPath (k.loc root)) s
  refine ⟨hP.inv_fs _ _ heq hi, ?_⟩
  rw [(hP.clear s hi).pathExists (Or.inr (k.objectsDir_prefix_loc root)) (k.loc_ne_nil root), heq]
  refine ⟨hs.1, ?_⟩
  cases hl : (W.fs s).lookup (k.loc root) with
  | some nd => simp
  | none => simpa using hquiet s hi hs.2 hl

theorem mkdirable {A : σ → Prop} (hn : new k) (hA : W.Stable A)
    (hquiet : ∀ s o, W.inv s → A s → Quiet root (W.fs s) o →
      (W.fs (W.handle o s).2 = W.fs s ∨ Grown (W.fs s) (W.fs (W.handle o s).2)) →
      A (W.handle o s).2) :
    Mkdirable W (fun s => P none (W.fs s) ∧ A s ∧ (W.fs s).lookup (k.loc root) = none) [] []
      (k.shardLoc root) where
  stable s s' hi hs hr := ⟨hP.rely s s' _ hi hs.1 hr, hA s s' hi hs.2.1 hr, by
    rw [hP.rely_objects s s' hi hr _ (k.objectsDir_prefix_loc root)]
    exact hs.2.2⟩
  leads s _ _ := FS.leads_nil _
  linkFree s hi _ := (hP.clear s hi).linkFree (k.shardLoc_comparable List.prefix_rfl)
  stat s w hi hs hw := by
    rw [List.nil_append]
    have heq := effect_metadata (W := W) (Loc.toPath w) s
    refine ⟨hP.inv_fs _ _ heq hi, by rw [heq]; exact hs.1, ?_, by rw [heq]; exact hs.2.2⟩
    refine hquiet s _ hi hs.2.1 (Or.inl ?_) (Or.inl heq)
    have hlen := hw.length_le
    simp only [Key.shardLoc, objectsDir, List.length_append, List.length_singleton] at hlen
    simp only [Loc.toPath, List.length_map]
    omega
  mkdir s w hi hs hw hmk := by
    rw [List.nil_append] at hmk ⊢
    rcases hmk with heq | ⟨hne, hnone, hup⟩
    · refine ⟨hP.inv_fs _ _ heq hi, by rw [heq]; exact hs.1,
        hquiet s _ hi hs.2.1 trivial (Or.inl heq), by rw [heq]; exact hs.2.2⟩
    · rw [List.nil_append] at hnone hup
      have hstep : StoreStep H root k (W.fs s)
          (W.fs (W.handle (.createDir (Loc.toPath w)) s).2) none none :=
        .mkdir w K.newDir hw hnone rfl hup
      refine ⟨hP.inv_step k _ _ _ _ hn hi hs.1 hstep, hP.step k _ _ _ _ hn hi hs.1 hstep,
        hquiet s _ hi hs.2.1 trivial (Or.inr ⟨w, _, rfl, hnone, hup⟩), ?_⟩
      rw [StoreStep.eq_of_lookup hup (Key.ne_loc_of_prefix_shardLoc k root hw).symm]
      exact hs.2.2

/-- The directory of an object is made. -/
theorem spec_makeShard {A : σ → Prop} (hn : new k) (hA : W.Stable A)
    (hquiet : ∀ s o, W.inv s → A s → Quiet root (W.fs s) o →
      (W.fs (W.handle o s).2 = W.fs s ∨ Grown (W.fs s) (W.fs (W.handle o s).2)) →
      A (W.handle o s).2) :
    Spec W.toSetting (fun s => P none (W.fs s) ∧ A s ∧ (W.fs s).lookup (k.loc root) = none)
      (io (IoM.createDirAll (Loc.toPath (k.shardLoc root))))
      (fun _ s => P none (W.fs s) ∧ A s ∧ (W.fs s).lookup (k.loc root) = none ∧
        (W.fs s).isDir (k.shardLoc root))
      (fun _ s => P none (W.fs s) ∧ ¬ Room (W.fs s) root k) := by
  have h := spec_createDirAll (hP.mkdirable hn hA hquiet)
  rw [List.nil_append] at h
  refine Spec.mapError (h.conseq (fun _ hs => hs) (fun _ s _ hs => ?_) fun _ s _ hs => ?_)
  · exact ⟨hs.1.1, hs.1.2.1, hs.1.2.2, by simpa using hs.2⟩
  · exact ⟨hs.1.1, fun hroom => hs.2 hroom.1⟩

/-- What filling the temporary file has done. -/
theorem filled {s s' : σ} {data : Bytes} {mode : Mode} {mtime : ℤ} (hn : new k) (hi : W.inv s)
    (hs : P none (W.fs s)) (hloc : (W.fs s).lookup (k.loc root) = none)
    (hd : (W.fs s).isDir (k.shardLoc root))
    (hold : (W.fs s).lookup (k.tempLoc root) = none ∨
      ∃ d m t, (W.fs s).lookup (k.tempLoc root) = some (.file d m t))
    (hup : (W.fs s').lookup =
      Function.update (W.fs s).lookup (k.tempLoc root) (some (.file data mode mtime))) :
    W.inv s' ∧ P (some k) (W.fs s') ∧ Filled (W.fs s') root k data := by
  have hstep : StoreStep H root k (W.fs s) (W.fs s') none (some k) := .fill data mode mtime hold hup
  refine ⟨hP.inv_step k _ _ _ _ hn hi hs hstep, hP.step k _ _ _ _ hn hi hs hstep, ?_, ?_, mode,
    mtime, by rw [hup, Function.update_self]⟩
  · rw [StoreStep.eq_of_lookup hup (k.tempLoc_ne_loc root k).symm, hloc]
  · rw [FS.isDir, StoreStep.eq_of_lookup hup
      (Key.ne_tempLoc_of_prefix_shardLoc k root List.prefix_rfl)]
    exact hd

/-- Where an object and its temporary file go, when their directory is there. -/
theorem resolve_child {s : σ} {follow : Bool} {n : FileName} (hi : W.inv s)
    (hd : (W.fs s).isDir (k.shardLoc root)) :
    (W.fs s).resolve follow (Loc.toPath (k.shardLoc root ++ [n])) =
      .ok (k.shardLoc root ++ [n]) :=
  (hP.clear s hi).resolve_child
    (Or.inr ((List.prefix_append _ _).trans (List.prefix_append _ _))) hd

/-- The object takes its place. -/
theorem spec_publish {data : Bytes} (hn : new k) (hk : H.hash data = k.text) :
    Spec W.toSetting (fun s => P (some k) (W.fs s) ∧ Filled (W.fs s) root k data)
      (io (IoM.op (.rename (Loc.toPath (k.tempLoc root)) (Loc.toPath (k.loc root)))))
      (fun _ s => P none (W.fs s) ∧ ((W.fs s).lookup (k.loc root)).isSome)
      (fun _ _ => False) := by
  refine Spec.mapError (spec_renameAt (u := k.tempLoc root) (v := k.loc root) ?_ ?_ ?_
    (fun s _ hs => ?_) (fun s _ hs => ?_) ?_)
  · rintro s s' hi ⟨hs, hloc, hd, m, t, htemp⟩ hr
    have hobj := hP.rely_objects s s' hi hr
    refine ⟨hP.rely s s' _ hi hs hr, ?_, ?_, m, t, ?_⟩
    · rw [hobj _ (k.objectsDir_prefix_loc root), hloc]
    · rw [(W.rely_fs s s' hr).isDir]
      exact hd
    · rw [hobj _ (k.objectsDir_prefix_tempLoc root), htemp]
  · intro s hi hs
    rw [Key.tempLoc_eq]
    exact hP.resolve_child hi hs.2.2.1
  · intro s hi hs
    rw [Key.loc_eq]
    exact hP.resolve_child hi hs.2.2.1
  · obtain ⟨-, -, -, m, t, htemp⟩ := hs
    exact ⟨data, m, t, htemp⟩
  · exact isDir_of_none hs.2.1
  · rintro s s' hi ⟨hs, hloc, hd, m, t, htemp⟩ - hup
    have hup := hup (k.tempLoc_ne_loc root k)
    rw [htemp] at hup
    have hstep : StoreStep H root k (W.fs s) (W.fs s') (some k) none :=
      .publish data m t hk htemp hloc hup
    refine ⟨hP.inv_step k _ _ _ _ hn hi hs hstep, hP.step k _ _ _ _ hn hi hs hstep, ?_⟩
    rw [hup, Function.update_self]
    rfl

/-- The temporary file is written. -/
theorem spec_write (hn : new k) (content : Bytes) :
    Spec W.toSetting (fun s => P none (W.fs s) ∧ (W.fs s).lookup (k.loc root) = none ∧
        (W.fs s).isDir (k.shardLoc root))
      (io (IoM.op (.write (Loc.toPath (k.tempLoc root)) content)))
      (fun _ s => P (some k) (W.fs s) ∧ Filled (W.fs s) root k content)
      (fun _ s => P none (W.fs s) ∧ ¬ Room (W.fs s) root k) := by
  refine Spec.mapError (spec_writeAt (v := k.tempLoc root) ?_ ?_ ?_ ?_)
  · rintro s s' hi ⟨hs, hloc, hd⟩ hr
    refine ⟨hP.rely s s' _ hi hs hr, ?_, ?_⟩
    · rw [hP.rely_objects s s' hi hr _ (k.objectsDir_prefix_loc root), hloc]
    · rwa [(W.rely_fs s s' hr).isDir]
  · intro s hi hs
    rw [Key.tempLoc_eq]
    exact hP.resolve_child hi hs.2.2
  · rintro s s' d m hi ⟨hs, hloc, hd⟩ hold hup
    obtain ⟨hi', hs', hf⟩ := hP.filled hn hi hs hloc hd
      (hold.imp_right fun ⟨old, t, h⟩ => ⟨old, m, t, h⟩) hup
    exact ⟨hi', fun heq => ⟨hs', heq ▸ hf⟩⟩
  · rintro s s' hi ⟨hs, -, -⟩ hne hnf heq
    refine ⟨hP.inv_fs _ _ heq hi, by rw [heq]; exact hs, fun hroom => ?_⟩
    rw [heq] at hroom
    rcases hroom.2 with h | ⟨d, m, t, h⟩
    · exact hne h
    · exact hnf d m t h

omit hP in
theorem putBlob_eq {content : Bytes} (hk : H.hash content = k.text) :
    (storeAt root).putBlob H content = (do
      if ← io (IoM.exists_ (Loc.toPath (k.loc root))) then
        return k.text
      io (IoM.createDirAll (Loc.toPath (k.shardLoc root)))
      io (IoM.op (.write (Loc.toPath (k.tempLoc root)) content))
      io (IoM.op (.rename (Loc.toPath (k.tempLoc root)) (Loc.toPath (k.loc root))))
      return k.text) := by
  simp only [putBlob, hk, hashToPath_key, Fallible.ofExcept_ok_bind, parentOf, Key.parent_loc,
    Fallible.pure_bind]
  rw [Key.withExtension_loc]

/-- `putBlob` returns the hash of the contents, and then the object is there. -/
theorem spec_putBlob (hH : H.Lawful) {content : Bytes} (hn : new (hH.key content)) :
    Spec W.toSetting (fun s => P none (W.fs s)) ((storeAt root).putBlob H content)
      (fun hash s => P none (W.fs s) ∧ hash = H.hash content ∧
        ((W.fs s).lookup ((hH.key content).loc root)).isSome)
      (fun _ s => P none (W.fs s) ∧ ¬ Room (W.fs s) root (hH.key content)) := by
  have htrue : W.Stable fun _ => True := fun _ _ _ _ _ => trivial
  rw [putBlob_eq (hH.key_text content).symm]
  refine Spec.bind ((hP.spec_objectExists htrue fun _ _ _ _ => trivial).conseq
    (fun _ hs => ⟨hs, trivial⟩) (fun _ _ _ hs => hs) fun _ _ _ h => h.elim) fun b => ?_
  cases b with
  | true => exact Spec.pure fun s _ hs => ⟨hs.1, rfl, hs.2.1 rfl⟩
  | false =>
    refine Spec.bind ((hP.spec_makeShard hn htrue fun _ _ _ _ _ _ => trivial).pre
      fun s hs => ⟨hs.1, trivial, (hs.2.2 rfl).2⟩) fun _ => ?_
    refine Spec.bind ((hP.spec_write hn content).pre fun s hs => ⟨hs.1, hs.2.2⟩) fun _ => ?_
    refine Spec.bind ((hP.spec_publish hn (hH.key_text content).symm).conseq (fun _ hs => hs)
      (fun _ _ _ hs => hs) fun _ _ _ h => h.elim) fun _ => ?_
    exact Spec.pure fun s _ hs => ⟨hs.1, rfl, hs.2⟩

/-! ### Files -/

section File

variable (L : Lease W root) {path : PathBuf} {v : Loc} {data : Bytes}

/-- The file that is being stored, as it was opened. -/
def Opened (L : Lease W root) (path : PathBuf) (v : Loc) (data : Bytes) (s : σ) : Prop :=
  Source (W.fs s) path v data ∧ L.held v s

omit hP in
theorem stable_opened : W.Stable (Opened L path v data) := by
  rintro s s' hi ⟨hs, hh⟩ hr
  obtain ⟨hh', hl⟩ := L.safe s s' v hi hh hr
  obtain ⟨m, t, hv⟩ := hs.2
  exact ⟨hs.keeps (W.rely_fs s s' hr).keeps (hl _ _ _ hv), hh'⟩

omit hP in
theorem opened_quiet {s : σ} {o : FsOp} (hi : W.inv s) (hs : Opened L path v data s)
    (ho : Quiet root (W.fs s) o)
    (heq : W.fs (W.handle o s).2 = W.fs s ∨ Grown (W.fs s) (W.fs (W.handle o s).2)) :
    Opened L path v data (W.handle o s).2 := by
  refine ⟨?_, L.kept s o v hi hs.2 ho⟩
  rcases heq with heq | hg
  · rw [heq]
    exact hs.1
  · obtain ⟨m, t, hl⟩ := hs.1.2
    exact hs.1.keeps hg.keeps ⟨m, t, hg.kept hl⟩

/-- The loop of `putFile` comes to the hash of the file. -/
theorem spec_hashLoop (hH : H.Lawful) (reads : Loc → ℕ → ℕ) (fuel offset : ℕ)
    (hasher : H.Hasher) (hoff : offset ≤ data.length)
    (hchunks : ∃ chunks : List Bytes, hasher = chunks.foldl H.update H.new ∧
      chunks.flatten = data.take offset) :
    Spec W.toSetting (fun s => P none (W.fs s) ∧ Opened L path v data s)
      (hashLoop H reads v fuel offset hasher)
      (fun hasher s => (P none (W.fs s) ∧ Opened L path v data s) ∧ H.finalize hasher = H.hash data)
      (fun _ s => P none (W.fs s) ∧ fuel ≤ data.length - offset) := by
  induction fuel generalizing offset hasher with
  | zero => exact Spec.fail fun s _ hs => ⟨hs.1, Nat.zero_le _⟩
  | succ fuel ih =>
    obtain ⟨chunks, hhasher, hflat⟩ := hchunks
    have hsize : 1 ≤ readSize reads v offset := le_max_left _ _
    generalize hn : readSize reads v offset = n at hsize
    rw [hashLoop, hn]
    refine Spec.bind (N := fun b s => (P none (W.fs s) ∧ Opened L path v data s) ∧
      b = (data.drop offset).take n) (Spec.mapError (spec_op ?_ ?_ ?_)) fun b => ?_
    · exact fun s s' hi hs hr => ⟨hP.rely s s' _ hi hs.1 hr, stable_opened L s s' hi hs.2 hr⟩
    · exact fun s t _ _ h => (not_torn (by simp) (by simp) h).elim
    · intro s hi hs
      have heq : W.fs (W.handle (.readChunk v offset n) s).2 = W.fs s := W.effect _ s
      obtain ⟨m, t, hl⟩ := hs.2.1.2
      have hread : (W.fs s).readChunk v offset n = .ok ((data.drop offset).take n) := by
        simp [FS.readChunk, hl]
      refine ⟨hP.inv_fs _ _ heq hi, ?_⟩
      simp only [Kernel.handle, hread]
      exact ⟨⟨by rw [heq]; exact hs.1, opened_quiet L hi hs.2 trivial (Or.inl heq)⟩, rfl⟩
    · intro s hi hs
      obtain ⟨hs, rfl⟩ := hs
      by_cases hb : ((data.drop offset).take n).length = 0
      · -- nothing is left to read, so everything has been hashed
        have hend : data.length ≤ offset := by
          rw [List.length_take, List.length_drop] at hb
          omega
        rw [if_pos hb]
        refine Spec.pure (fun s _ hs => ⟨hs, ?_⟩) s hi hs
        rw [hhasher, hH.incremental, hflat, List.take_of_length_le hend]
      · rw [if_neg hb]
        have hlen : offset + ((data.drop offset).take n).length ≤ data.length := by
          rw [List.length_take, List.length_drop]
          omega
        refine (ih _ _ hlen ⟨chunks ++ [(data.drop offset).take n], ?_, ?_⟩).conseq
          (fun _ hs => hs) (fun _ _ _ hs => hs) (fun _ s _ hs => ⟨hs.1, ?_⟩) s hi hs
        · rw [List.foldl_append, ← hhasher]
          rfl
        · rw [List.flatten_append, hflat, List.flatten_singleton, List.take_add,
            ← List.prefix_iff_eq_take.1 (List.take_prefix n (data.drop offset))]
        · have := hs.2
          omega

/-- The temporary file is copied. -/
theorem spec_copy {A : σ → Prop} (hn : new k) (hk : v ≠ k.tempLoc root)
    (hA : ∀ s, W.inv s → A s → Opened L path v data s) (hA' : W.Stable A) (msg : String) :
    Spec W.toSetting (fun s => P none (W.fs s) ∧ A s ∧ (W.fs s).lookup (k.loc root) = none ∧
        (W.fs s).isDir (k.shardLoc root))
      (withContext msg (io (IoM.op (.copy path (Loc.toPath (k.tempLoc root))))))
      (fun _ s => P (some k) (W.fs s) ∧ Filled (W.fs s) root k data)
      (fun _ s => P none (W.fs s) ∧ ¬ Room (W.fs s) root k) := by
  have done : ∀ {s s' : σ} {part : Bytes → Bytes}, W.inv s → P none (W.fs s) →
      Source (W.fs s) path v data →
      (W.fs s).lookup (k.loc root) = none → (W.fs s).isDir (k.shardLoc root) →
      (W.fs s).copyPart K part path (Loc.toPath (k.tempLoc root)) = .ok (W.fs s') →
      W.inv s' ∧ P (some k) (W.fs s') ∧ Filled (W.fs s') root k (part data) := by
    intro s s' part hi hs hsrc hloc hd hc
    obtain ⟨u, data', m, t, w, hu, hl, hw, hold, he⟩ := copyPart_ok hc
    obtain ⟨hv, m', t', hl'⟩ := hsrc
    rw [hv] at hu
    cases hu
    rw [hl'] at hl
    cases hl
    obtain rfl := (hP.clear s hi).resolve (Or.inr (k.objectsDir_prefix_tempLoc root))
      (k.tempLoc_ne_nil root) hw
    rw [if_neg hk] at he
    refine hP.filled hn hi hs hloc hd hold (he.update ?_)
    rcases hold with h | ⟨old, m', t', h⟩
    · exact isDir_of_none h
    · exact isDir_of_file h
  refine Spec.mapError (Spec.mapError (spec_op ?_ ?_ ?_))
  · rintro s s' hi ⟨hs, ha, hloc, hd⟩ hr
    refine ⟨hP.rely s s' _ hi hs hr, hA' s s' hi ha hr, ?_, ?_⟩
    · rw [hP.rely_objects s s' hi hr _ (k.objectsDir_prefix_loc root), hloc]
    · rwa [(W.rely_fs s s' hr).isDir]
  · rintro s t hi ⟨hs, ha, hloc, hd⟩ ht
    cases W.torn_fs _ s t ht with
    | copy n hc => exact (done hi hs (hA s hi ha).1 hloc hd hc).1
  · rintro s hi ⟨hs, ha, hloc, hd⟩
    have hsrc := (hA s hi ha).1
    have heff := W.effect (.copy path (Loc.toPath (k.tempLoc root))) s
    simp only [Kernel.handle, FS.copy] at heff ⊢
    cases hc : (W.fs s).copyPart K id path (Loc.toPath (k.tempLoc root)) with
    | ok fs' =>
      rw [hc] at heff
      have heff' : W.fs (W.handle (.copy path (Loc.toPath (k.tempLoc root))) s).2 = fs' := heff
      exact done hi hs hsrc hloc hd (by rw [heff', hc])
    | error e =>
      rw [hc] at heff
      have heff' : W.fs (W.handle (.copy path (Loc.toPath (k.tempLoc root))) s).2 = W.fs s :=
        heff
      refine ⟨hP.inv_fs _ _ heff' hi, ?_⟩
      show P none _ ∧ ¬ Room _ root k
      rw [heff']
      refine ⟨hs, fun hroom => ?_⟩
      obtain ⟨hv, m, t, hl⟩ := hsrc
      obtain ⟨fs', hput⟩ := put_temp (K := K) hroom m (if v = k.tempLoc root then [] else data)
      have htemp : (W.fs s).resolve true (Loc.toPath (k.tempLoc root)) =
          .ok (k.tempLoc root) := by
        rw [Key.tempLoc_eq]
        exact hP.resolve_child hi hd
      simp only [FS.copyPart, hv, hl, htemp, id, hput] at hc
      cases hc

end File

/-- The rest of `put_file` when the hash is known. -/
def storeHashed (S : ObjectStore) (path : PathBuf) (hashHex : String) : Action String := do
  let objectPath ← Fallible.ofExcept (S.hashToPath hashHex)
  if ← io (IoM.exists_ objectPath) then
    return hashHex
  io (IoM.createDirAll (← parentOf objectPath))
  let tempPath := objectPath.withExtension (utf8 "tmp")
  withContext "Failed to copy file to object store" (io (IoM.op (.copy path tempPath)))
  io (IoM.op (.rename tempPath objectPath))
  return hashHex

omit hP in
theorem putFile_eq (S : ObjectStore) (reads : Loc → ℕ → ℕ) (fuel : ℕ) (path : PathBuf) :
    S.putFile H reads fuel path = (do
      let file ← withContext s!"Failed to open file: {path.display}" (io (IoM.op (.openFile path)))
      let hasher ← hashLoop H reads file fuel 0 H.new
      storeHashed S path (H.finalize hasher)) := rfl

omit hP in
theorem storeHashed_eq (path : PathBuf) :
    storeHashed (storeAt root) path k.text = (do
      if ← io (IoM.exists_ (Loc.toPath (k.loc root))) then
        return k.text
      io (IoM.createDirAll (Loc.toPath (k.shardLoc root)))
      withContext "Failed to copy file to object store"
        (io (IoM.op (.copy path (Loc.toPath (k.tempLoc root)))))
      io (IoM.op (.rename (Loc.toPath (k.tempLoc root)) (Loc.toPath (k.loc root))))
      return k.text) := by
  simp only [storeHashed, hashToPath_key, Fallible.ofExcept_ok_bind, parentOf, Key.parent_loc,
    Fallible.pure_bind]
  rw [Key.withExtension_loc]

theorem spec_storeHashed (hH : H.Lawful) (L : Lease W root) {path : PathBuf} {v : Loc}
    {data : Bytes} (hn : new (hH.key data)) (hv : v ≠ (hH.key data).tempLoc root) :
    Spec W.toSetting (fun s => P none (W.fs s) ∧ Opened L path v data s)
      (storeHashed (storeAt root) path (H.hash data))
      (fun hash s => P none (W.fs s) ∧ hash = H.hash data ∧
        ((W.fs s).lookup ((hH.key data).loc root)).isSome)
      (fun _ s => P none (W.fs s) ∧ ¬ Room (W.fs s) root (hH.key data)) := by
  have hstable : W.Stable (Opened L path v data) := stable_opened L
  rw [← hH.key_text data, storeHashed_eq]
  refine Spec.bind ((hP.spec_objectExists hstable fun s hi hs hnone => ?_).conseq
    (fun _ hs => hs) (fun _ _ _ hs => hs) fun _ _ _ h => h.elim) fun b => ?_
  · refine opened_quiet L hi hs (Or.inr ?_) (Or.inl (effect_metadata _ s))
    have := (hP.clear s hi).pathExists (Or.inr ((hH.key data).objectsDir_prefix_loc root))
      ((hH.key data).loc_ne_nil root)
    rw [hnone] at this
    exact this
  cases b with
  | true => exact Spec.pure fun s _ hs => ⟨hs.1, rfl, hs.2.1 rfl⟩
  | false =>
    refine Spec.bind ((hP.spec_makeShard hn hstable fun s o hi hs => opened_quiet L hi hs).pre
      fun s hs => ⟨hs.1, hs.2.2 rfl⟩) fun _ => ?_
    refine Spec.bind (hP.spec_copy L hn hv (fun _ _ hs => hs) hstable _) fun _ => ?_
    refine Spec.bind ((hP.spec_publish hn (hH.key_text data).symm).conseq (fun _ hs => hs)
      (fun _ _ _ hs => hs) fun _ _ _ h => h.elim) fun _ => ?_
    exact Spec.pure fun s _ hs => ⟨hs.1, rfl, hs.2⟩

/-- `putFile` returns the hash of what it read, and then the object is there. -/
theorem spec_putFile (hH : H.Lawful) (L : Lease W root) {reads : Loc → ℕ → ℕ} {fuel : ℕ}
    {path : PathBuf} (P₀ : FS → Prop) (D : Bytes → Prop) (Good : Prop)
    (hP₀ : ∀ s s', W.inv s → P₀ (W.fs s) → W.rely s s' → P₀ (W.fs s'))
    (hle : ∀ s, W.inv s → P₀ (W.fs s) → P none (W.fs s))
    (hsrc : ∀ s, W.inv s → P₀ (W.fs s) → ∀ v data, Source (W.fs s) path v data →
      D data ∧ new (hH.key data) ∧ v ≠ (hH.key data).tempLoc root)
    (hgood : Good → ∀ s, W.inv s → P₀ (W.fs s) →
      ∃ v data, Source (W.fs s) path v data ∧ data.length < fuel) :
    Spec W.toSetting (fun s => P₀ (W.fs s)) ((storeAt root).putFile H reads fuel path)
      (fun hash s => P none (W.fs s) ∧ ∃ data, D data ∧ hash = H.hash data ∧
        ((W.fs s).lookup ((hH.key data).loc root)).isSome)
      (fun _ s => P none (W.fs s) ∧
        (Good → ∃ data, D data ∧ ¬ Room (W.fs s) root (hH.key data))) := by
  rw [putFile_eq]
  -- what is opened is a regular file, or it cannot be read
  refine Spec.bind (N := fun v s => P none (W.fs s) ∧
    ((∃ data, D data ∧ new (hH.key data) ∧ v ≠ (hH.key data).tempLoc root ∧ Opened L path v data s ∧
      (Good → data.length < fuel)) ∨ ¬ Good ∧ (W.fs s).isDir v)) ?_ fun v s hi hs => ?_
  · refine Spec.mapError (Spec.mapError (spec_op hP₀ ?_ fun s hi hs => ?_))
    · exact fun s t _ _ h => (not_torn (by simp) (by simp) h).elim
    have heq : W.fs (W.handle (.openFile path) s).2 = W.fs s := W.effect _ s
    refine ⟨hP.inv_fs _ _ heq hi, ?_⟩
    simp only [Kernel.handle]
    cases ho : (W.fs s).openFile path with
    | error e =>
      refine ⟨by rw [heq]; exact hle s hi hs, fun hg => ?_⟩
      obtain ⟨v, data, hv, -⟩ := hgood hg s hi hs
      rw [hv.openFile] at ho
      cases ho
    | ok v =>
      refine ⟨by rw [heq]; exact hle s hi hs, ?_⟩
      rw [heq]
      rcases openFile_ok ho with ⟨data, hv⟩ | hd
      · obtain ⟨hD, hn, hne⟩ := hsrc s hi hs v data hv
        refine Or.inl ⟨data, hD, hn, hne,
          ⟨by rw [heq]; exact hv, L.granted s path v hi ho⟩, fun hg => ?_⟩
        obtain ⟨v', data', hv', hlen⟩ := hgood hg s hi hs
        rwa [(hv.unique hv').2]
      · refine Or.inr ⟨fun hg => ?_, hd⟩
        obtain ⟨v', data', hv', -⟩ := hgood hg s hi hs
        rw [hv'.openFile] at ho
        cases ho
        obtain ⟨-, m, t, hl⟩ := hv'
        simp [FS.isDir, hl, Node.isDir] at hd
  · obtain ⟨hs, ⟨data, hD, hn, hv, ho, hfuel⟩ | ⟨hg, hd⟩⟩ := hs
    · have hloop : Spec W.toSetting (fun s => P none (W.fs s) ∧ Opened L path v data s)
          (hashLoop H reads v fuel 0 H.new)
          (fun hasher s => (P none (W.fs s) ∧ Opened L path v data s) ∧
            H.finalize hasher = H.hash data)
          (fun _ s => P none (W.fs s) ∧
            (Good → ∃ data, D data ∧ ¬ Room (W.fs s) root (hH.key data))) :=
        (hP.spec_hashLoop L hH reads fuel 0 H.new (Nat.zero_le _) ⟨[], rfl, rfl⟩).conseq
          (fun _ hs => hs) (fun _ _ _ hs => hs)
          fun _ s _ hs => ⟨hs.1, fun hg => absurd (hfuel hg) (by have := hs.2; omega)⟩
      refine Spec.bind hloop (fun hasher s hi hs => ?_) s hi ⟨hs, ho⟩
      rw [hs.2]
      exact (hP.spec_storeHashed hH L hn hv).conseq (fun _ hs => hs)
        (fun hash s _ hs => ⟨hs.1, data, hD, hs.2⟩)
        (fun _ s _ hs => ⟨hs.1, fun _ => ⟨data, hD, hs.2⟩⟩) s hi hs.1
    · -- a directory cannot be read
      refine Spec.bind (N := fun _ _ => False) (P := fun s => P none (W.fs s) ∧ (W.fs s).isDir v) ?_
        (fun _ _ _ h => h.elim) s hi ⟨hs, hd⟩
      cases fuel with
      | zero => exact Spec.fail fun s _ hs => ⟨hs.1, fun h => absurd h hg⟩
      | succ fuel =>
        rw [hashLoop]
        refine Spec.bind (N := fun _ _ => False) (Spec.mapError (spec_op
          (stable_isDir hP.stable v) ?_ fun s hi hs => ?_)) fun _ _ _ h => h.elim
        · exact fun s t _ _ h => (not_torn (by simp) (by simp) h).elim
        · have heq : W.fs (W.handle (.readChunk v 0 (readSize reads v 0)) s).2 = W.fs s :=
            W.effect _ s
          obtain ⟨m, t, sz, hl⟩ := FS.isDir_iff.1 hs.2
          refine ⟨hP.inv_fs _ _ heq hi, ?_⟩
          simp only [Kernel.handle, FS.readChunk, hl]
          exact ⟨by rw [heq]; exact hs.1, fun h => absurd h hg⟩

end Hosts

end SandD
