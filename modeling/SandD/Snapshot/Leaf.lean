import SandD.Posix.Entry
import SandD.Snapshot.Layout
import SandD.Snapshot.Recorded

/-!
# Restoring files and links

What `restoreBlob` and `restoreSymlink` do to an entry of a directory that is apart from the
objects, when a regular file is not met as a link.

* `Apart`, `Within`: directories apart from the objects, and changes within one;
* `TreeEntry.Fits`, `TreeEntry.Becomes`: what an entry can be restored over, and what comes of it;
* `exec_restoreBlob`, `exec_restoreSymlink`: one entry succeeds over what fits, and fails over
  anything else.
-/

namespace SandD

open Posix ObjectStore SnapshotManager
open Fallible (exec Ends Spec)

variable {K : Kernel} {H : Blake3} {J : Serde} {root : Loc} {fs fs' fs'' : FS}

/-! ### Changes in one place -/

/-- Neither of a directory and the objects is inside the other. -/
structure Apart (root d : Loc) : Prop where
  above : ¬ d <+: objectsDir root
  below : ¬ objectsDir root <+: d

/-- Strictly below a directory. -/
def Under (d v : Loc) : Prop := d <+: v ∧ v ≠ d

namespace Apart

variable {d v : Loc}

theorem not_objects (h : Apart root d) (hv : d <+: v) : ¬ objectsDir root <+: v := fun ho =>
  (List.prefix_or_prefix_of_prefix hv ho).elim h.above h.below

theorem not_above (h : Apart root d) (hv : d <+: v) : ¬ v <+: objectsDir root := fun ho =>
  h.above (hv.trans ho)

theorem deeper (h : Apart root d) (hv : d <+: v) : Apart root v :=
  ⟨h.not_above hv, h.not_objects hv⟩

end Apart

theorem Under.deeper {d u v : Loc} (hu : Under d u) (hv : u <+: v) : Under d v := by
  refine ⟨hu.1.trans hv, ?_⟩
  rintro rfl
  exact hu.2 (hv.eq_of_length_le hu.1.length_le)

theorem under_concat (d : Loc) (n : FileName) : Under d (d ++ [n]) :=
  ⟨List.prefix_append _ _, by simp⟩

/-- Changes at the places of `inside`, apart from new objects in a store in order. -/
structure Within (H : Blake3) (root : Loc) (inside : Loc → Prop) (fs fs' : FS) : Prop where
  sound : Sound H root fs'
  keeping : Keeping root fs fs'
  store : ∀ v, objectsDir root <+: v → FS.Keeps fs fs' v
  away : ∀ v, ¬ inside v → ¬ objectsDir root <+: v → fs'.lookup v = fs.lookup v

namespace Within

variable {inside inside' : Loc → Prop} {d v : Loc}

theorem refl (hs : Sound H root fs) : Within H root inside fs fs :=
  ⟨hs, fun _ _ h => h, fun _ _ => FS.Keeps.of_eq rfl, fun _ _ _ => rfl⟩

theorem trans (h : Within H root inside fs fs') (h' : Within H root inside fs' fs'') :
    Within H root inside fs fs'' where
  sound := h'.sound
  keeping k b hb := h'.keeping k b (h.keeping k b hb)
  store v hv := (h.store v hv).trans (h'.store v hv)
  away v hv ho := (h'.away v hv ho).trans (h.away v hv ho)

theorem mono (h : Within H root inside fs fs') (hi : ∀ v, inside v → inside' v) :
    Within H root inside' fs fs' :=
  ⟨h.sound, h.keeping, h.store, fun v hv => h.away v fun hin => hv (hi v hin)⟩

/-- A path to the directory that the changes are in stays what it is. -/
theorem pinned {p : PathBuf} (h : Within H root inside fs fs') (hi : ∀ v, inside v → Under d v)
    (hp : fs.Pinned p d) : fs'.Pinned p d := by
  refine hp.mono fun v hv => ?_
  by_cases ho : objectsDir root <+: v
  · exact h.store v ho
  · exact FS.Keeps.of_eq (h.away v (fun hin => hv (hi v hin)) ho)

/-- A change away from the objects and from what is above them. -/
theorem of_away (hs : Sound H root fs) (hd : Apart root d) (hi : ∀ v, inside v → d <+: v)
    (h : ∀ v, ¬ inside v → fs'.lookup v = fs.lookup v) : Within H root inside fs fs' := by
  have hobj : ∀ v, objectsDir root <+: v → fs'.lookup v = fs.lookup v := fun v hv =>
    h v fun hin => hd.not_objects (hi v hin) hv
  refine ⟨hs.congr fun v hv => hv.elim (fun hv => ?_) (hobj v), fun k b hb => ?_,
    fun v hv => FS.Keeps.of_eq (hobj v hv), fun v hv _ => h v hv⟩
  · exact h v fun hin => hd.not_above (hi v hin) hv
  · obtain ⟨m, t, hl⟩ := objectAt_eq_some.1 hb
    exact objectAt_eq_some.2 ⟨m, t, (hobj _ (k.objectsDir_prefix_loc root)).trans hl⟩

end Within

theorem StoreStep.within {k : Key} {a b : Option Key} (hs : Sound H root fs)
    (h : StoreStep H root k fs fs' a b) : Within H root (fun _ => False) fs fs' :=
  ⟨hs.step h, fun _ _ hk => h.objectAt_kept hk, fun v _ => h.keeps v,
    fun _ _ hv => h.frame hs.isDir hv⟩

/-- Nothing but the store changes while something is put there. -/
theorem hosts_within (K : Kernel) (H : Blake3) (root : Loc) (fs : FS) :
    Hosts (World.crashing K fun s => Within H root (fun _ => False) fs s) H root (fun _ => True)
      fun _ _ => True where
  inv_fs s s' heq hi := by
    have heq' : s' = s := heq
    rwa [heq']
  clear s hi := hi.sound.clear
  inv_step k s s' _ _ _ hi _ h := hi.trans (h.within hi.sound)
  rely_objects _ _ _ hr := hr.elim
  step _ _ _ _ _ _ _ _ _ := trivial
  rely _ _ _ _ _ hr := hr.elim

/-- An object that is there is the one with that hash. -/
theorem stored_of_isSome (hH : H.Lawful) (hs : Sound H root fs) {c : Bytes}
    (h : (fs.lookup ((hH.key c).loc root)).isSome) : stored root fs (H.hash c) = some c := by
  obtain ⟨nd, hnd⟩ := Option.isSome_iff_exists.1 h
  obtain ⟨d, m, t, rfl⟩ := hs.file _ nd hnd
  have hd := objectAt_eq_some.2 ⟨m, t, hnd⟩
  obtain rfl : d = c := hH.injective (hs.content (hH.key c) d hd)
  exact (stored_key root fs (hH.key d)).trans hd

/-- `putFile` on a path that does not lead to the objects: it returns the hash of the file, which
is then stored. -/
theorem exec_putFile_within (hH : H.Lawful) (hs : Sound H root fs) {path : PathBuf}
    (hpath : ∀ v, fs.resolve true path = .ok v → ¬ objectsDir root <+: v)
    (reads : Loc → ℕ → ℕ) (fuel : ℕ) :
    ∃ res fs', exec K.handle ((storeAt root).putFile H reads fuel path) fs = (res, fs') ∧
      Within H root (fun _ => False) fs fs' ∧
      (∀ hash, res = .ok hash → ∃ v data, Source fs path v data ∧ hash = H.hash data ∧
        stored root fs' hash = some data) ∧
      ∀ v data, Source fs path v data → data.length < fuel → res = .ok (H.hash data) := by
  have hP := hosts_within K H root fs
  have hspec : Spec (World.crashing K fun s => Within H root (fun _ => False) fs s).toSetting
      (· = fs) ((storeAt root).putFile H reads fuel path) _ _ :=
    hP.spec_putFile hH (leaseCrashing _) (· = fs) (fun data => ∃ v, Source fs path v data)
      (∃ v data, Source fs path v data ∧ data.length < fuel)
      (fun _ _ _ _ hr => hr.elim) (fun _ _ _ => trivial)
      (fun s _ heq v data hsrc => by
        have hsrc : Source fs path v data := heq ▸ hsrc
        refine ⟨⟨v, hsrc⟩, trivial, ?_⟩
        rintro rfl
        exact hpath _ hsrc.1 (Key.objectsDir_prefix_tempLoc _ root))
      fun ⟨v, data, hsrc, hlen⟩ s _ heq => ⟨v, data, heq ▸ hsrc, hlen⟩
  have h := exec_of_spec hspec (Within.refl hs) rfl
  rcases hrun : exec K.handle ((storeAt root).putFile H reads fuel path) fs with ⟨e | hash, fs'⟩
  · rw [hrun] at h
    obtain ⟨hw, -, hroom⟩ := h
    refine ⟨_, fs', rfl, hw, nofun, fun v data hsrc hlen => ?_⟩
    obtain ⟨data', -, hno⟩ := hroom ⟨v, data, hsrc, hlen⟩
    exact absurd (hw.sound.room _) hno
  · rw [hrun] at h
    obtain ⟨hw, -, data, ⟨v, hsrc⟩, rfl, hsome⟩ := h
    refine ⟨_, fs', rfl, hw, ?_, fun v' data' hsrc' _ => by rw [(hsrc.unique hsrc').2]⟩
    rintro _ ⟨⟩
    exact ⟨v, data, hsrc, rfl, stored_of_isSome hH hw.sound hsome⟩

/-- `putBlob` changes nothing but the store. -/
theorem exec_putBlob_within (hH : H.Lawful) (hs : Sound H root fs) (c : Bytes) :
    ∃ fs', exec K.handle ((storeAt root).putBlob H c) fs = (.ok (H.hash c), fs') ∧
      Within H root (fun _ => False) fs fs' ∧ stored root fs' (H.hash c) = some c := by
  have h := exec_of_spec (p := (storeAt root).putBlob H c)
    ((hosts_within K H root fs).spec_putBlob hH trivial) (Within.refl hs) trivial
  rcases hrun : exec K.handle ((storeAt root).putBlob H c) fs with ⟨e | hash, fs'⟩
  · rw [hrun] at h
    exact absurd (h.1.sound.room _) h.2.2
  · rw [hrun] at h
    obtain ⟨hw, -, rfl, hsome⟩ := h
    exact ⟨fs', rfl, hw, stored_of_isSome hH hw.sound hsome⟩

/-! ### Entries -/

/-- A node has the size and the time that an entry records. -/
def TreeEntry.Same (e : TreeEntry) (nd : Node) : Prop :=
  nd.metadata.len = e.size ∧ nd.metadata.modified = e.modified

/-- What an entry can be restored over. -/
def TreeEntry.Fits (e : TreeEntry) (o : Option Node) : Prop :=
  match e.entryType with
  | .blob => ∀ nd, o = some nd → e.Same nd ∨ ∃ b m t, nd = .file b m t
  | .tree => ∀ nd, o = some nd → nd.isDir = true
  | .symlink | .symlinkDir => ∀ nd, o = some nd → nd.isDir = false

/-- The permission bits that an entry records. -/
def TreeEntry.bits (e : TreeEntry) : Mode := BitVec.ofNat 12 e.mode

/-- What comes of a place: something of the right size and time is taken for the file. -/
def TreeEntry.Becomes (K : Kernel) (obj : String → Option Bytes) (e : TreeEntry)
    (o : Option Node) (nd : Node) : Prop :=
  match e.entryType with
  | .blob =>
    (∃ old, o = some old ∧ e.Same old ∧ nd = (old.setMode e.bits).setMtime e.modified) ∨
      (∀ old, o = some old → ¬ e.Same old) ∧
        ∃ data, obj e.hash = some data ∧ nd = .file data e.bits e.modified
  | .tree => nd.isDir = true
  | .symlink | .symlinkDir => ∃ t : Target, obj e.hash = some t.bytes ∧ nd = .symlink t K.now

section Entry

variable {p : PathBuf} {d : Loc} {n : FileName} {nd : Node} {e : TreeEntry}

theorem exec_io {α : Type} (q : IoM α) :
    exec K.handle (io q) fs = ((q.run K fs).1.mapError Error.io, (q.run K fs).2) :=
  Fallible.exec_mapError ..

/-- The mode and the time of a node are set. -/
theorem exec_stamp (h : fs.Leads p d) (hl : fs.lookup (d ++ [n]) = some nd)
    (hn : nd.isLink = false) :
    ∃ fs', exec K.handle (do
        setMode (p ++ [.name n]) e.mode
        setMtime (p ++ [.name n]) e.modified) fs = (.ok (), fs') ∧
      fs'.lookup = Function.update fs.lookup (d ++ [n])
        (some ((nd.setMode e.bits).setMtime e.modified)) := by
  have hv : d ++ [n] ≠ [] := by simp
  have hup := FS.lookup_modify_some hv (Node.isDir_setMode e.bits) hl
  have hl' : (fs.modify (d ++ [n]) (Node.setMode e.bits)).lookup (d ++ [n]) =
      some (nd.setMode e.bits) := by rw [hup, Function.update_self]
  have hn' : (nd.setMode e.bits).isLink = false := by cases nd <;> first | rfl | exact hn
  have hleads : (fs.modify (d ++ [n]) (Node.setMode e.bits)).Leads p d :=
    h.keeps (FS.Keeps.of_update hup hl (Node.isDir_setMode e.bits nd) hn)
  have h₁ : exec K.handle (setMode (p ++ [.name n]) e.mode) fs =
      (.ok (), fs.modify (d ++ [n]) (Node.setMode e.bits)) := by
    rw [setMode, exec_io, run_op, Kernel.handle,
      show fs.change (p ++ [.name n]) (Node.setMode (BitVec.ofNat 12 e.mode)) = _ from
        h.change_entry _ hl hn]
    rfl
  refine ⟨(fs.modify (d ++ [n]) (Node.setMode e.bits)).modify (d ++ [n])
    (Node.setMtime e.modified), ?_, ?_⟩
  · rw [Fallible.exec_bind_ok _ h₁, setMtime, exec_io, run_op, Kernel.handle,
      hleads.change_entry _ hl' hn']
    rfl
  · rw [FS.lookup_modify_some hv (Node.isDir_setMtime e.modified) hl', hup, Function.update_idem]

/-- What an existing entry is found out to be. -/
theorem exec_shouldCopy (h : fs.Leads p d) (hn : ¬ fs.isLink (d ++ [n])) (S : SnapshotManager)
    (reads : Loc → ℕ → ℕ) (fuel : ℕ) :
    exec K.handle (S.shouldCopy H reads fuel (p ++ [.name n]) e) fs =
      match fs.lookup (d ++ [n]) with
      | none => (.ok true, fs)
      | some nd =>
        if nd.metadata.len = e.size ∧ nd.metadata.modified = e.modified then (.ok false, fs)
        else exec K.handle (do
          let fileHash ← S.store.putFile H reads fuel (p ++ [.name n])
          return decide (fileHash ≠ e.hash)) fs := by
  have hex : exec K.handle (io (IoM.exists_ (p ++ [.name n]))) fs =
      (.ok (fs.lookup (d ++ [n])).isSome, fs) := by
    rw [exec_io, run_exists, h.pathExists_entry hn]
    rfl
  rw [shouldCopy, Fallible.exec_bind_ok _ hex]
  rcases hl : fs.lookup (d ++ [n]) with _ | nd
  · rfl
  · have hmeta : exec K.handle (Fallible.attempt
        (io (IoM.op (.metadata (p ++ [.name n]))))) fs = (.ok (.ok nd.metadata), fs) := by
      rw [Fallible.exec_attempt, exec_io, run_op, Kernel.handle, h.stat_entry (Or.inr hn), hl]
      rfl
    simp only [Option.isSome_some, if_true]
    rw [Fallible.exec_bind_ok _ hmeta]
    simp only
    split_ifs <;> rfl

/-- `copyFile` to an entry where there is nothing or a regular file. -/
theorem exec_copyFile_entry (hs : Sound H root fs) (h : fs.Leads p d) (hd : Apart root d)
    {hash : String} {data : Bytes} (hobj : stored root fs hash = some data)
    (hl : fs.lookup (d ++ [n]) = none ∨ ∃ b m t, fs.lookup (d ++ [n]) = some (.file b m t)) :
    ∃ fs' m, exec K.handle ((storeAt root).copyFile hash (p ++ [.name n])) fs = (.ok (), fs') ∧
      fs'.lookup = Function.update fs.lookup (d ++ [n]) (some (.file data m K.now)) := by
  obtain ⟨k, rfl, hk⟩ := stored_eq_some.1 hobj
  obtain ⟨m, t, hfile, hres⟩ := resolve_loc hs true hk
  have hne : k.loc root ≠ d ++ [n] := fun heq =>
    hd.not_objects (List.prefix_append d [n]) (heq ▸ k.objectsDir_prefix_loc root)
  obtain ⟨fs', hcopy, hup⟩ := h.copy_entry (K := K) hres hfile hne hl
  have hparent : PathBuf.parent (p ++ [.name n]) = some p := by simp [PathBuf.parent]
  refine ⟨fs', m, ?_, hup⟩
  rw [exec_copyFile_eq hparent, exec_createDirAll_dir h]
  simp only [hcopy]

/-- What `restoreEntry` has done to a leaf of the tree. -/
structure Leaf (K : Kernel) (H : Blake3) (root d : Loc) (n : FileName)
    (obj : String → Option Bytes) (e : TreeEntry) (good : Prop) (fs : FS) (r : Except Error Unit)
    (fs' : FS) : Prop where
  within : Within H root (d ++ [n] <+: ·) fs fs'
  ok : e.Fits (fs.lookup (d ++ [n])) → good → r = .ok ()
  done : r = .ok () → e.Fits (fs.lookup (d ++ [n])) ∧
    ∃ nd, e.Becomes K obj (fs.lookup (d ++ [n])) nd ∧
      viewAt fs' (d ++ [n]) = Function.update (viewAt fs (d ++ [n])) [] (some nd)

variable {obj : String → Option Bytes} {good : Prop}

theorem viewAt_update {fs₁ : FS} {new : Option Node} (hd : Apart root d)
    (hw : Within H root (fun _ => False) fs fs₁)
    (hup : fs'.lookup = Function.update fs₁.lookup (d ++ [n]) new) :
    viewAt fs' (d ++ [n]) = Function.update (viewAt fs (d ++ [n])) [] new := by
  funext q
  rw [viewAt, hup, Function.update_apply, Function.update_apply]
  simp only [List.append_right_eq_self]
  split_ifs
  · rfl
  · exact hw.away _ id (hd.not_objects ((List.prefix_append d [n]).trans (List.prefix_append _ q)))

/-- A leaf is done when the node at its place is there. -/
theorem Leaf.of_update {fs₁ : FS} (hd : Apart root d) (hw : Within H root (fun _ => False) fs fs₁)
    (hup : fs'.lookup = Function.update fs₁.lookup (d ++ [n]) (some nd))
    (hfits : e.Fits (fs.lookup (d ++ [n]))) (hnd : e.Becomes K obj (fs.lookup (d ++ [n])) nd) :
    Leaf K H root d n obj e good fs (.ok ()) fs' where
  within := (hw.mono fun _ => False.elim).trans (.of_away hw.sound
    (hd.deeper (List.prefix_append d [n])) (fun _ h => h) fun v hv => by
      rw [hup, Function.update_of_ne]
      rintro rfl
      exact hv List.prefix_rfl)
  ok _ _ := rfl
  done _ := ⟨hfits, nd, hnd, viewAt_update hd hw hup⟩

/-- A regular file that is not there, or is not the right one, is copied. -/
theorem exec_copyBlob {fs₁ : FS} (hw : Within H root (fun _ => False) fs fs₁)
    (h : fs₁.Leads p d) (hd : Apart root d) {data : Bytes}
    (hobj : stored root fs₁ e.hash = some data)
    (hl : fs.lookup (d ++ [n]) = none ∨ ∃ b m t, fs.lookup (d ++ [n]) = some (.file b m t)) :
    ∃ fs', exec K.handle (do
        (managerAt root).store.copyFile e.hash (p ++ [.name n])
        setMode (p ++ [.name n]) e.mode
        setMtime (p ++ [.name n]) e.modified) fs₁ = (.ok (), fs') ∧
      fs'.lookup = Function.update fs₁.lookup (d ++ [n]) (some (.file data e.bits e.modified)) := by
  have hsame : fs₁.lookup (d ++ [n]) = fs.lookup (d ++ [n]) :=
    hw.away _ id (hd.not_objects (List.prefix_append d [n]))
  rw [← hsame] at hl
  obtain ⟨fs₂, m, hcopy, hup⟩ := exec_copyFile_entry (K := K) hw.sound h hd hobj hl
  have hhere : fs₂.lookup (d ++ [n]) = some (.file data m K.now) := by
    rw [hup, Function.update_self]
  have hleads : fs₂.Leads p d := by
    rcases hl with hl | ⟨b, m', t, hl⟩
    · refine h.keeps fun u => ?_
      by_cases hu : u = d ++ [n]
      · subst hu
        exact ⟨fun hdir => by simp [FS.isDir, hl] at hdir, fun l t hlink => by simp [hl] at hlink⟩
      · exact FS.Keeps.of_eq (by rw [hup, Function.update_of_ne hu])
    · exact h.keeps (FS.Keeps.of_update hup hl rfl rfl)
  obtain ⟨fs₃, hstamp, hup'⟩ := exec_stamp (K := K) (e := e) hleads hhere rfl
  refine ⟨fs₃, ?_, ?_⟩
  · exact (Fallible.exec_bind_ok _ hcopy).trans hstamp
  · rw [hup', hup, Function.update_idem]
    rfl

/-- `restoreBlob`. -/
theorem exec_restoreBlob (hH : H.Lawful) (hs : Sound H root fs) (hp : fs.Pinned p d)
    (hd : Apart root d) (hn : ¬ fs.isLink (d ++ [n])) (ht : e.entryType = .blob)
    {data : Bytes} (hobj : obj e.hash = some data)
    (hle : ∀ x b, obj x = some b → stored root fs x = some b) (reads : Loc → ℕ → ℕ) (fuel : ℕ) :
    ∃ r fs', exec K.handle ((managerAt root).restoreBlob H reads fuel (p ++ [.name n]) e) fs =
        (r, fs') ∧
      Leaf K H root d n obj e
        (∀ b m t, fs.lookup (d ++ [n]) = some (.file b m t) → b.length < fuel) fs r fs' := by
  have hcopy := exec_shouldCopy (K := K) (H := H) (e := e) hp.leads hn (managerAt root) reads fuel
  have hres : fs.resolve true (p ++ [.name n]) = .ok (d ++ [n]) :=
    hp.leads.resolve_entry (Or.inr hn)
  rcases hl : fs.lookup (d ++ [n]) with _ | nd
  · -- there is nothing
    rw [hl] at hcopy
    obtain ⟨fs', hrun, hup⟩ :=
      exec_copyBlob (K := K) (.refl hs) hp.leads hd (hle _ _ hobj) (.inl hl)
    refine ⟨_, fs', ?_, .of_update hd (.refl hs) hup ?_ ?_⟩
    · rw [restoreBlob, Fallible.exec_bind_ok _ hcopy]
      exact hrun
    · simp [TreeEntry.Fits, ht, hl]
    · rw [TreeEntry.Becomes, ht, hl]
      exact .inr ⟨fun _ h => (by cases h), data, hobj, rfl⟩
  · have hlink : nd.isLink = false := by simpa [FS.isLink, hl] using hn
    rw [hl] at hcopy
    by_cases hsame : e.Same nd
    · -- what is there is taken for the file
      obtain ⟨fs', hrun, hup⟩ := exec_stamp (K := K) (e := e) hp.leads hl hlink
      refine ⟨_, fs', ?_, .of_update hd (.refl hs) hup ?_ ?_⟩
      · rw [restoreBlob, Fallible.exec_bind_ok _ (hcopy.trans (if_pos hsame))]
        exact hrun
      · rw [TreeEntry.Fits, ht, hl]
        rintro _ ⟨⟩
        exact .inl hsame
      · rw [TreeEntry.Becomes, ht, hl]
        exact .inl ⟨nd, rfl, hsame, rfl⟩
    · -- its hash decides
      replace hcopy := hcopy.trans (if_neg hsame)
      have hpath : ∀ v, fs.resolve true (p ++ [.name n]) = .ok v → ¬ objectsDir root <+: v := by
        intro v hv
        rw [hres] at hv
        cases hv
        exact hd.not_objects (List.prefix_append d [n])
      obtain ⟨res, fs₁, hput, hw, hok, hgood⟩ :=
        exec_putFile_within (K := K) hH hs hpath reads fuel
      have hput' : exec K.handle ((managerAt root).store.putFile H reads fuel (p ++ [.name n])) fs =
        (res, fs₁) := hput
      rcases res with err | hash
      · refine ⟨.error err, fs₁, ?_, hw.mono fun _ => False.elim, fun hfits hlen => ?_,
          fun h => by cases h⟩
        · rw [Fallible.exec_bind_error _ hput'] at hcopy
          rw [restoreBlob, Fallible.exec_bind_error _ hcopy]
        · rw [TreeEntry.Fits, ht, hl] at hfits
          obtain hsame' | ⟨b, m, t, rfl⟩ := hfits nd rfl
          · exact absurd hsame' hsame
          · exact absurd (hgood _ b ⟨hres, m, t, hl⟩ (hlen b m t rfl)) (by simp)
      · obtain ⟨v, b, ⟨hv, m, t, hb⟩, rfl, -⟩ := hok hash rfl
        rw [hres] at hv
        cases hv
        obtain rfl : nd = .file b m t := Option.some_inj.1 (hl.symm.trans hb)
        rw [Fallible.exec_bind_ok _ hput', Fallible.exec_pure] at hcopy
        have hleads : fs₁.Leads p d := (hw.pinned (d := d) (fun _ => False.elim) hp).leads
        have hfits : e.Fits (fs.lookup (d ++ [n])) := by
          rw [TreeEntry.Fits, ht, hl]
          rintro _ ⟨⟩
          exact .inr ⟨b, m, t, rfl⟩
        have hbecomes : e.Becomes K obj (fs.lookup (d ++ [n])) (.file data e.bits e.modified) := by
          rw [TreeEntry.Becomes, ht, hl]
          refine .inr ⟨?_, data, hobj, rfl⟩
          rintro _ ⟨⟩
          exact hsame
        have hsource : stored root fs₁ e.hash = some data :=
          stored_keeping hw.keeping (hle _ _ hobj)
        by_cases hhash : H.hash b = e.hash
        · -- the right contents
          obtain rfl : b = data := by
            obtain ⟨k, hk, hkb⟩ := stored_eq_some.1 (hle _ _ hobj)
            exact hH.injective (hhash.trans (hk.symm.trans (hs.content k data hkb).symm))
          have hl₁ : fs₁.lookup (d ++ [n]) = some (.file b m t) :=
            (hw.away _ id (hd.not_objects (List.prefix_append d [n]))).trans hl
          obtain ⟨fs', hrun, hup⟩ := exec_stamp (K := K) (e := e) hleads hl₁ rfl
          refine ⟨_, fs', ?_, .of_update hd hw hup hfits hbecomes⟩
          rw [restoreBlob, Fallible.exec_bind_ok _ hcopy]
          simpa [hhash] using hrun
        · obtain ⟨fs', hrun, hup⟩ :=
            exec_copyBlob (K := K) hw hleads hd hsource (.inr ⟨b, m, t, hl⟩)
          refine ⟨_, fs', ?_, .of_update hd hw hup hfits hbecomes⟩
          rw [restoreBlob, Fallible.exec_bind_ok _ hcopy]
          simpa [hhash] using hrun

/-- `getBlob` of what is stored. -/
theorem exec_getBlob_stored (hs : Sound H root fs) {hash : String} {b : Bytes}
    (h : stored root fs hash = some b) :
    exec K.handle ((managerAt root).store.getBlob hash) fs = (.ok b, fs) := by
  obtain ⟨k, rfl, hk⟩ := stored_eq_some.1 h
  exact exec_getBlob hs hk

/-- Something is there, or a link that leads nowhere. -/
theorem exec_present {α : Type} (h : fs.Leads p d) (f : Bool → Action α) :
    exec K.handle (io (IoM.exists_ (p ++ [.name n])) >>= fun b =>
      if b then pure true >>= f else io (IoM.isSymlink (p ++ [.name n])) >>= f) fs =
      exec K.handle (f (fs.lookup (d ++ [n])).isSome) fs := by
  have hex : exec K.handle (io (IoM.exists_ (p ++ [.name n]))) fs =
      (.ok (fs.pathExists (p ++ [.name n])), fs) := by
    rw [exec_io, run_exists]
    rfl
  have hlink : exec K.handle (io (IoM.isSymlink (p ++ [.name n]))) fs =
      (.ok (fs.isLink (d ++ [n])), fs) := by
    rw [exec_io, run_isSymlink, h.pathIsLink_entry]
    rfl
  rw [Fallible.exec_bind_ok _ hex]
  by_cases hn : fs.isLink (d ++ [n])
  · obtain ⟨l, t, hl⟩ := FS.isLink_iff.1 hn
    split_ifs
    · rw [Fallible.pure_bind, hl]
      rfl
    · rw [Fallible.exec_bind_ok _ hlink, hn, hl]
      rfl
  · rw [h.pathExists_entry hn]
    cases hl : fs.lookup (d ++ [n]) with
    | none =>
      rw [if_neg (by simp), Fallible.exec_bind_ok _ hlink, FS.isLink, hl]
      rfl
    | some nd => rfl

/-- `restoreSymlink`. -/
theorem exec_restoreSymlink (hs : Sound H root fs) (hp : fs.Pinned p d) (hd : Apart root d)
    (ht : e.entryType.isLink = true) {t : Target} (hobj : obj e.hash = some t.bytes)
    (hutf : (fromUtf8 t.bytes).isSome)
    (hle : ∀ x b, obj x = some b → stored root fs x = some b) :
    ∃ r fs', exec K.handle ((managerAt root).restoreSymlink (p ++ [.name n]) e) fs = (r, fs') ∧
      Leaf K H root d n obj e True fs r fs' ∧
        ∀ u, ¬ d ++ [n] <+: u → fs'.lookup u = fs.lookup u := by
  obtain ⟨target, htarget⟩ := Option.isSome_iff_exists.1 hutf
  have hblob := exec_getBlob_stored (K := K) hs (hle _ _ hobj)
  have hbytes : utf8 target = t.bytes := utf8_of_fromUtf8 htarget
  have hrun : exec K.handle ((managerAt root).restoreSymlink (p ++ [.name n]) e) fs =
      exec K.handle (do
        if (fs.lookup (d ++ [n])).isSome then
          let _ ← Fallible.attempt (io (IoM.op (.removeFile (p ++ [.name n]))))
        io (IoM.op (.symlink t.bytes (p ++ [.name n])))) fs := by
    rw [restoreSymlink, Fallible.exec_bind_ok _ hblob]
    simp only [htarget]
    rw [← hbytes]
    exact exec_present hp.leads _
  have hfits : ∀ o, e.Fits o ↔ ∀ nd, o = some nd → nd.isDir = false := by
    intro o
    rw [TreeEntry.Fits]
    cases hty : e.entryType <;> rw [hty] at ht <;> first | rfl | cases ht
  have hbecomes : ∀ o, e.Becomes K obj o (.symlink t K.now) := by
    intro o
    rw [TreeEntry.Becomes]
    cases hty : e.entryType <;> rw [hty] at ht <;> first | exact ⟨t, hobj, rfl⟩ | cases ht
  have hv : d ++ [n] ≠ [] := by simp
  have hother : ∀ {fs' : FS} {new : Option Node},
      fs'.lookup = Function.update fs.lookup (d ++ [n]) new →
        ∀ u, ¬ d ++ [n] <+: u → fs'.lookup u = fs.lookup u := by
    intro fs' new hup u hu
    rw [hup, Function.update_of_ne]
    rintro rfl
    exact hu List.prefix_rfl
  rw [hrun]
  rcases hl : fs.lookup (d ++ [n]) with _ | nd
  · refine ⟨.ok (), fs.insert (d ++ [n]) (.symlink t K.now), ?_,
      .of_update hd (.refl hs) (hp.leads.lookup_insert_free hl _) ((hfits _).2 ?_) (hbecomes _),
      hother (hp.leads.lookup_insert_free hl _)⟩
    · simp only [Option.isSome_none, Bool.false_eq_true, if_false]
      rw [exec_io, run_op, Kernel.handle, hp.leads.symlink_entry t hl]
      rfl
    · rw [hl]
      intro _ h
      cases h
  · simp only [Option.isSome_some, if_true]
    cases hnd : nd.isDir
    · have hleaf : fs.isDir (d ++ [n]) = false := by
        rw [FS.isDir, hl]
        exact hnd
      have hup := FS.lookup_remove_leaf hv hleaf
      have hl' : (fs.remove (d ++ [n])).lookup (d ++ [n]) = none := by
        rw [hup, Function.update_self]
      have hw : Within H root (d ++ [n] <+: ·) fs (fs.remove (d ++ [n])) :=
        .of_away hs (hd.deeper (List.prefix_append d [n])) (fun _ h => h) fun v hv => by
          rw [hup, Function.update_of_ne]
          rintro rfl
          exact hv List.prefix_rfl
      have hleads := (hw.pinned (fun v => (under_concat d n).deeper) hp).leads
      have hup' : ((fs.remove (d ++ [n])).insert (d ++ [n]) (.symlink t K.now)).lookup =
          Function.update fs.lookup (d ++ [n]) (some (.symlink t K.now)) := by
        rw [hleads.lookup_insert_free hl', hup, Function.update_idem]
      refine ⟨.ok (), (fs.remove (d ++ [n])).insert (d ++ [n]) (.symlink t K.now), ?_,
        .of_update hd (.refl hs) hup' ((hfits _).2 ?_) (hbecomes _), hother hup'⟩
      · have hremove : exec K.handle (Fallible.attempt
            (io (IoM.op (.removeFile (p ++ [.name n]))))) fs =
              (.ok (.ok ()), fs.remove (d ++ [n])) := by
          rw [Fallible.exec_attempt, exec_io, run_op, Kernel.handle,
            hp.leads.removeFile_entry hl hnd]
          rfl
        rw [Fallible.exec_bind_ok _ hremove, exec_io, run_op, Kernel.handle,
          hleads.symlink_entry t hl']
        rfl
      · rw [hl]
        rintro _ ⟨⟩
        exact hnd
    · refine ⟨.error (.io .eexist), fs, ?_, ⟨.refl hs, fun hno _ => ?_,
        fun h => by cases h⟩, fun _ _ => rfl⟩
      · have hremove : exec K.handle (Fallible.attempt
            (io (IoM.op (.removeFile (p ++ [.name n]))))) fs =
              (.ok (.error (.io .eisdir)), fs) := by
          rw [Fallible.exec_attempt, exec_io, run_op, Kernel.handle,
            hp.leads.removeFile_dir (by rw [FS.isDir, hl]; exact hnd)]
          rfl
        rw [Fallible.exec_bind_ok _ hremove, exec_io, run_op, Kernel.handle,
          hp.leads.symlink_exists t (by rw [hl]; rfl)]
        rfl
      · rw [(hfits _).1 hno nd hl] at hnd
        cases hnd

end Entry

end SandD
