import SandD.Snapshot.Lookup

/-!
# Creating and deleting on a disk that fails

Runs of `createSnapshot` and `deleteSnapshot` in which any operation may fail.

* `FaultyRun`: such runs, with changes away from the snapshot root between the calls;
* `FaultyRun.ledger`: they keep the `Ledger`;
* `sameLookups_iff`: a `createSnapshot` that fails leaves no trace, if and only if it was not a tag
  ref that could not be written;
* `othersKept_iff`: a `deleteSnapshot` leaves the other snapshots and their tags alone, if and only
  if none of the tags that the deleted snapshot lists resolves to another one.
-/

namespace SandD

open Posix ObjectStore SnapshotManager
open Fallible (Spec Ends exec)

variable {K : Kernel} {H : Blake3} {J : Serde} {root : Loc} {fs fs' : FS}

/-! ### The setting -/

/-- The disk with a snapshot root on it. -/
abbrev faultyRoot (K : Kernel) (J : Serde) (root : Loc) : Setting FsOp FsOp.Res Faulty :=
  (Disk.faulty K fun s => Ledger J root s.fs).toSetting

theorem stable_faulty {P : Faulty → Prop} : (faultyRoot K J root).Stable P :=
  fun _ _ _ _ hr => hr.elim

/-- One operation. -/
theorem spec_faulty {o : FsOp} {P : Faulty → Prop} {Q : o.Ret → Faulty → Prop}
    {E : Errno → Faulty → Prop}
    (h : ∀ s r s', Ledger J root s.fs → P s → Posix.Outcome K o s.fs r s'.fs → s'.last = some o →
      (s.faults = [] → r = (K.handle o s.fs).1 ∧ s'.faults = []) →
      Ledger J root s'.fs ∧ Ends Q E r s') :
    Spec (faultyRoot K J root) P (IoM.op o) Q E := by
  refine Spec.perform stable_faulty (fun _ _ _ _ ht => ht.elim) fun s hi hs => ?_
  refine h s _ _ hi hs (Faulty.outcome o s) (Faulty.handle_last o s) fun hnil => ?_
  obtain ⟨fs, faults, last⟩ := s
  obtain rfl : faults = [] := hnil
  exact ⟨rfl, rfl⟩

/-- Store operations do not upset the ledger. -/
theorem faulty_store {o : FsOp} {s : Faulty} (ho : StoreOp root o) (hi : Ledger J root s.fs) :
    Beneath root s.fs ((faultyRoot K J root).handle o s).2.fs :=
  ho.outcome hi.layout (Faulty.outcome o s)

/-! ### Creating -/

/-- A tag ref, or its temporary file, is to be written or renamed. -/
def RefOp (root : Loc) : FsOp → Prop
  | .write p _ => ∃ n, p = Loc.toPath (tagsLoc root ++ [n])
  | .rename _ p => ∃ n, p = Loc.toPath (tagsLoc root ++ [n])
  | _ => False

/-- Nothing has changed but objects and temporary files of snapshots. -/
structure Unseen (root : Loc) (fs fs' : FS) : Prop where
  snapshots : ∀ n, (∀ u : Uuid, n ≠ u.plain.fileName.temp) →
    fs'.lookup (snapshotsLoc root ++ [n]) = fs.lookup (snapshotsLoc root ++ [n])
  tags : ∀ n, fs'.lookup (tagsLoc root ++ [n]) = fs.lookup (tagsLoc root ++ [n])

theorem Unseen.refl (root : Loc) (fs : FS) : Unseen root fs fs := ⟨fun _ _ => rfl, fun _ => rfl⟩

theorem Unseen.beneath {fs'' : FS} (h : Unseen root fs fs') (hb : Beneath root fs' fs'') :
    Unseen root fs fs'' :=
  ⟨fun n hn => (hb.snapshots n).trans (h.snapshots n hn), fun n => (hb.tags n).trans (h.tags n)⟩

theorem Unseen.temp {fs'' : FS} {u : Uuid} {new : Option Node} (h : Unseen root fs fs')
    (hup : fs''.lookup = Function.update fs'.lookup (u.tempLoc root) new) :
    Unseen root fs fs'' := by
  refine ⟨fun n hn => ?_, fun n => ?_⟩
  · rw [hup, Uuid.tempLoc, Function.update_of_ne (by simpa using hn u), h.snapshots n hn]
  · rw [hup, Uuid.tempLoc, Function.update_of_ne (snapshotsLoc_ne_tagsLoc root _ n).symm, h.tags n]

theorem snapshots_not_ref (n m : FileName) :
    Loc.toPath (snapshotsLoc root ++ [n]) ≠ Loc.toPath (tagsLoc root ++ [m]) := fun h =>
  snapshotsLoc_ne_tagsLoc root n m (List.map_injective_iff.2 (fun _ _ => Comp.name.inj) h)

theorem objects_not_ref {v : Loc} (hv : objectsDir root <+: v) (m : FileName) :
    Loc.toPath v ≠ Loc.toPath (tagsLoc root ++ [m]) := fun h =>
  not_objectsDir_prefix_tags root [m]
    ((List.map_injective_iff.2 (fun _ _ => Comp.name.inj) h : v = _) ▸ hv)

theorem StoreOp.not_ref {o : FsOp} (ho : StoreOp root o) : ¬ RefOp root o := by
  cases ho with
  | look h => cases o <;> first | exact id | exact h.elim
  | mkdir | copy => exact id
  | write k data =>
    rintro ⟨n, hn⟩
    exact objects_not_ref (k.objectsDir_prefix_tempLoc root) n hn
  | rename k =>
    rintro ⟨n, hn⟩
    exact objects_not_ref (k.objectsDir_prefix_loc root) n hn

/-- A snapshot with some tags has come, and the other ones are as before. -/
structure Created (J : Serde) (root : Loc) (u : Uuid) (tags : List String) (fs fs' : FS) :
    Prop where
  stored : ∃ snap, snapshotAt J root fs' u = some snap ∧ snap.tags = tags
  others : ∀ v, v ≠ u → snapshotAt J root fs' v = snapshotAt J root fs v

theorem Created.congr {u : Uuid} {tags : List String} {fs'' : FS}
    (h : Created J root u tags fs fs')
    (heq : ∀ v, snapshotAt J root fs'' v = snapshotAt J root fs' v) :
    Created J root u tags fs fs'' := by
  obtain ⟨⟨snap, hs, htags⟩, hothers⟩ := h
  exact ⟨⟨snap, (heq u).trans hs, htags⟩, fun v hv => (heq v).trans (hothers v hv)⟩

theorem Unseen.created {u : Uuid} {tags : List String} {fs'' : FS} (h : Unseen root fs fs')
    {new : Option Node} (hup : fs''.lookup = Function.update (Function.update fs'.lookup
      (u.tempLoc root) none) (snapshotLoc root u.plain) new)
    (hs : ∃ snap, snapshotAt J root fs'' u = some snap ∧ snap.tags = tags) :
    Created J root u tags fs fs'' := by
  refine ⟨hs, fun v hv => snapshotAt_congr ?_⟩
  have hname : ∀ w : Uuid, v.plain.fileName ≠ w.plain.fileName.temp := fun w =>
    (Plain.temp_ne_fileName w.plain v.plain).symm
  have hne : snapshotLoc root v.plain ≠ snapshotLoc root u.plain := fun h =>
    hv (Uuid.fileName_injective (by simpa [snapshotLoc] using h))
  have hne' : snapshotLoc root v.plain ≠ u.tempLoc root := by
    simpa [snapshotLoc, Uuid.tempLoc] using hname u
  rw [hup, Function.update_of_ne hne, Function.update_of_ne hne']
  exact h.snapshots _ hname

/-- What `createSnapshot` leaves when it fails: either nothing that can be seen, or the new
snapshot, and then a tag ref could not be written. -/
def Left (J : Serde) (root : Loc) (u : Uuid) (tags : List String) (fs : FS) (s : Faulty) : Prop :=
  (Unseen root fs s.fs ∧ ∀ o, s.last = some o → ¬ RefOp root o) ∨
    Created J root u tags fs s.fs ∧ ∃ o, s.last = some o ∧ RefOp root o

theorem slash_notMem_uuid (u : Uuid) {b : Bytes} (hb : b <+: utf8 u.text) : slash ∉ b :=
  fun h => u.plain.validName.2.1 (by
    rw [utf8_snapshotFile]
    exact List.mem_append_left _ (hb.subset h))

theorem spec_createSnapshot_faulty (hH : H.Lawful) (hJ : J.Lawful) (reads : Loc → ℕ → ℕ)
    (fuel : ℕ) (now : ℤ) (u : Uuid) (workspace : PathBuf) (message : Option String)
    (tags : Option (List String)) (fs : FS) :
    Spec (faultyRoot K J root) (fun s => s.fs = fs ∧ s.last = none)
      ((managerAt root).createSnapshot H J reads fuel now u.text workspace message tags)
      (fun r s => r = u.text ∧ Created J root u (sortedTags tags) fs s.fs)
      (fun _ => Left J root u (sortedTags tags) fs) := by
  have hseen : ∀ s o, s.last = some o → ¬ RefOp root o → Unseen root fs s.fs →
      Left J root u (sortedTags tags) fs s := fun s o hlast ho hs => .inl ⟨hs, fun o' ho' => by
    obtain rfl := Option.some_inj.1 (hlast.symm.trans ho')
    exact ho⟩
  refine ((spec_createSnapshot_ops hH now u workspace message
    (P := fun s => Unseen root fs s.fs ∧ ∀ o, s.last = some o → ¬ RefOp root o)
    (E := Left J root u (sortedTags tags) fs)
    (S := fun json s => Unseen root fs s.fs ∧ fileAt s.fs (u.tempLoc root) = some (utf8 json))
    (T := fun _ _ s => Created J root u (sortedTags tags) fs s.fs)
    (U := fun _ _ _ s => Created J root u (sortedTags tags) fs s.fs)
    stable_faulty ?_ (fun _ _ hs => .inl hs) ?_ ?_ ?_ ?_).pre ?_).post ?_
  · -- storing files and trees
    intro o s ho hi hs
    have hb := faulty_store (K := K) ho hi
    refine ⟨fun _ ht => ht.elim, hi.beneath hb, hs.1.beneath hb, fun o' ho' => ?_⟩
    obtain rfl := Option.some_inj.1 ((Faulty.handle_last o s).symm.trans ho')
    exact ho.not_ref
  · -- writing the snapshot file
    intro json hjson
    refine spec_faulty fun s r s' hi hs hout hlast _ => ?_
    have hnot : ¬ RefOp root (.write (Loc.toPath (u.tempLoc root)) (utf8 json)) :=
      fun ⟨n, hn⟩ => snapshots_not_ref _ n hn
    rcases outcome_write hi.layout.snapshots hout with ⟨heq, e, rfl⟩ | ⟨b, m, -, hok, hup⟩
    · rw [heq]
      exact ⟨hi, hseen s' _ hlast hnot (heq ▸ hs.1)⟩
    · have hun := hs.1.temp hup
      refine ⟨hi.of_temp (.inr ⟨b, m, _, rfl⟩) hup, ?_⟩
      cases r with
      | ok a =>
        obtain rfl := hok rfl
        exact ⟨hun, fileAt_eq_some.2 ⟨m, _, by rw [hup]; exact Function.update_self ..⟩⟩
      | error e => exact hseen s' _ hlast hnot hun
  · -- renaming it
    intro json hjson
    refine spec_faulty fun s r s' hi hs hout hlast _ => ?_
    have hnot : ¬ RefOp root (.rename (Loc.toPath (u.tempLoc root))
        (Loc.toPath (snapshotLoc root u.plain))) := fun ⟨n, hn⟩ => snapshots_not_ref _ n hn
    rcases outcome_rename hi.layout.snapshots hout with ⟨heq, e, rfl⟩ | ⟨rfl, -, hup⟩
    · rw [heq]
      exact ⟨hi, hseen s' _ hlast hnot (heq ▸ hs.1)⟩
    · obtain ⟨hledger, hsnap⟩ := hi.saved hJ hjson hs.2 hup
      exact ⟨hledger, hs.1.created hup hsnap⟩
  · -- writing a tag ref
    intro json done t rest _ _
    refine spec_faulty fun s r s' hi hs hout hlast _ => ?_
    have href : RefOp root (.write (Loc.toPath (t.tempLoc root)) (utf8 u.text)) := ⟨_, rfl⟩
    rcases outcome_write hi.layout.tags hout with ⟨heq, e, rfl⟩ | ⟨b, m, hb, -, hup⟩
    · rw [heq]
      exact ⟨hi, .inr ⟨heq ▸ hs, _, hlast, href⟩⟩
    · have hs' : Created J root u (sortedTags tags) fs s'.fs := hs.congr (snapshotAt_of_ref hup)
      refine ⟨hi.of_ref (.inr ⟨b, m, _, slash_notMem_uuid u hb, rfl⟩) hup, ?_⟩
      cases r with
      | ok a => exact hs'
      | error e => exact .inr ⟨hs', _, hlast, href⟩
  · -- renaming it
    intro json done t rest _ _
    refine spec_faulty fun s r s' hi hs hout hlast _ => ?_
    have href : RefOp root (.rename (Loc.toPath (t.tempLoc root)) (Loc.toPath (t.loc root))) :=
      ⟨_, rfl⟩
    rcases outcome_rename hi.layout.tags hout with ⟨heq, e, rfl⟩ | ⟨rfl, hne, hup⟩
    · rw [heq]
      exact ⟨hi, .inr ⟨heq ▸ hs, _, hlast, href⟩⟩
    · exact ⟨hi.tagged hne hup, hs.congr (snapshotAt_of_refs hup)⟩
  · rintro s ⟨rfl, hlast⟩
    refine ⟨.refl _ _, fun o ho => ?_⟩
    cases hlast.symm.trans ho
  · rintro r s - ⟨rfl, json, -, hs⟩
    exact ⟨rfl, hs⟩

/-! ### Deleting -/

/-- Nothing is gone but the snapshot file and the refs of the tags. -/
def Removed (root : Loc) (u : Uuid) (tags : List String) (fs fs' : FS) : Prop :=
  ∀ v, v ≠ snapshotLoc root u.plain → (∀ t : Tag, t.text ∈ tags → v ≠ t.loc root) →
    fs'.lookup v = fs.lookup v

/-- The refs of the tags are gone. -/
def Gone (root : Loc) (tags : List String) (fs : FS) : Prop :=
  ∀ t : Tag, t.text ∈ tags → fs.lookup (t.loc root) = none

/-- What `deleteSnapshot` leaves of a snapshot; without faults its refs are gone. -/
def Deletes (J : Serde) (root : Loc) (clean : Prop) (id : String) (fs fs' : FS) : Prop :=
  ∃ (u : Uuid) (snap : Snapshot), id = u.text ∧ snapshotAt J root fs u = some snap ∧
    Removed root u snap.tags fs fs' ∧ (clean → Gone root snap.tags fs')

theorem spec_exists_faulty (clean : Prop) {p : PathBuf} {P : FS → Prop}
    {E : Errno → Faulty → Prop} :
    Spec (faultyRoot K J root) (fun s => P s.fs ∧ (clean → s.faults = [])) (IoM.exists_ p)
      (fun b s => P s.fs ∧ (clean → s.faults = [] ∧ b = s.fs.pathExists p)) E := by
  refine Spec.bind (N := fun r s => P s.fs ∧
    (clean → s.faults = [] ∧ r = (s.fs.stat true p).map Node.metadata))
    ((Spec.attempt (F := fun e s => P s.fs ∧ (clean → s.faults = [] ∧
        .error e = (s.fs.stat true p).map Node.metadata))
      (Q := fun m s => P s.fs ∧ (clean → s.faults = [] ∧
        .ok m = (s.fs.stat true p).map Node.metadata)) ?_).post ?_) fun r => ?_
  · refine spec_faulty fun s r s' hi ⟨hs, hclean⟩ hout _ hnil => ?_
    obtain heq : s'.fs = s.fs := outcome_look (o := .metadata p) trivial hout
    rw [heq]
    refine ⟨hi, ?_⟩
    have hnil' : clean → s'.faults = [] ∧ r = (s.fs.stat true p).map Node.metadata :=
      fun hc => ⟨(hnil (hclean hc)).2, (hnil (hclean hc)).1⟩
    cases r <;> exact ⟨heq ▸ hs, heq ▸ hnil'⟩
  · rintro (e | m) s - hs <;> exact hs
  · cases r with
    | error e =>
      refine Spec.pure fun s _ hs => ⟨hs.1, fun hc => ⟨(hs.2 hc).1, ?_⟩⟩
      have heq := (hs.2 hc).2
      unfold FS.pathExists
      cases hst : s.fs.stat true p with
      | error _ => rfl
      | ok nd =>
        rw [hst] at heq
        cases heq
    | ok m =>
      refine Spec.pure fun s _ hs => ⟨hs.1, fun hc => ⟨(hs.2 hc).1, ?_⟩⟩
      have heq := (hs.2 hc).2
      unfold FS.pathExists
      cases hst : s.fs.stat true p with
      | error _ =>
        rw [hst] at heq
        cases heq
      | ok nd => rfl

/-- Without faults a file that is there is removed. -/
theorem removeFile_file {d : Loc} {n : FileName} (hd : FilesDir fs d)
    (h : fs.lookup (d ++ [n]) ≠ none) {e : Errno} :
    (K.handle (.removeFile (Loc.toPath (d ++ [n]))) fs).1 ≠ .error e := by
  obtain ⟨b, m, t, hfile⟩ := (hd.cases n).resolve_left h
  show (Kernel.commit fs (fs.removeFile (Loc.toPath (d ++ [n])))).1 ≠ _
  rw [FS.removeFile, hd.resolve false n]
  simp only [hfile]
  exact fun h => by cases h

theorem spec_loadSnapshot_faulty {id : String} (hid : Slashless id) {clean : Prop}
    (hclean : clean → ∃ (u : Uuid) (snap : Snapshot), id = u.text ∧
      snapshotAt J root fs u = some snap) :
    Spec (faultyRoot K J root) (fun s => s.fs = fs ∧ (clean → s.faults = []))
      ((managerAt root).loadSnapshot J id)
      (fun snap s => s.fs = fs ∧ (clean → s.faults = []) ∧
        ∃ u : Uuid, id = u.text ∧ snapshotAt J root fs u = some snap)
      (fun _ s => s.fs = fs ∧ ¬ clean) := by
  intro s₀ hi₀ hs₀
  have hledger : Ledger J root fs := hs₀.1 ▸ hi₀
  revert s₀
  show Spec _ _ _ _ _
  have hstored : clean → ∃ b json snap, fs.read ((managerAt root).snapshotFile id) = .ok b ∧
      fromUtf8 b = some json ∧ J.decodeSnapshot json = .ok snap := by
    intro hc
    obtain ⟨u, snap, rfl, hs⟩ := hclean hc
    obtain ⟨b, json, h⟩ := read_stored hledger.layout hs
    exact ⟨b, json, snap, h⟩
  refine Spec.bind (N := fun json s => s.fs = fs ∧ (clean → s.faults = []) ∧ ∃ b,
    fs.read ((managerAt root).snapshotFile id) = .ok b ∧ fromUtf8 b = some json)
    (Spec.mapError (Spec.bind (N := fun b s => s.fs = fs ∧ (clean → s.faults = []) ∧
      fs.read ((managerAt root).snapshotFile id) = .ok b) (Spec.mapError ?_) fun b => ?_))
    fun json => ?_
  · refine spec_faulty fun s r s' hi ⟨rfl, hfaults⟩ hout _ hnil => ?_
    obtain heq : s'.fs = s.fs := outcome_look (o := .read _) trivial hout
    rw [heq]
    refine ⟨hi, ?_⟩
    cases r with
    | ok b =>
      refine ⟨heq, fun hc => (hnil (hfaults hc)).2, ?_⟩
      exact (hout.of_ok rfl).1
    | error e =>
      refine ⟨heq, fun hc => ?_⟩
      obtain ⟨b, -, -, hb, -⟩ := hstored hc
      have hr : .error e = s.fs.read ((managerAt root).snapshotFile id) := (hnil (hfaults hc)).1
      cases hr.trans hb
  · cases hb : fromUtf8 b with
    | some json => exact Spec.pure fun s _ hs => ⟨hs.1, hs.2.1, b, hs.2.2, hb⟩
    | none =>
      refine Spec.fail fun s _ hs => ⟨hs.1, fun hc => ?_⟩
      obtain ⟨b', json, -, hb', hjson, -⟩ := hstored hc
      obtain rfl : b = b' := Except.ok.inj (hs.2.2.symm.trans hb')
      cases hb.symm.trans hjson
  · refine Spec.ofExcept (fun snap s hsnap _ ⟨hfs, hfaults, b, hb, hjson⟩ => ?_)
      fun e s he _ ⟨hfs, _, b, hb, hjson⟩ => ⟨hfs, fun hc => ?_⟩
    · obtain ⟨u, hu, hs⟩ := hledger.read_slashless hid hb
      refine ⟨hfs, hfaults, u, hu, hs.trans ?_⟩
      rw [hjson, Option.bind_some]
      unfold Serde.decodeSnapshot at hsnap
      split at hsnap
      next heq => exact heq.trans (congrArg some (Except.ok.inj hsnap))
      next => cases hsnap
    · obtain ⟨b', json', snap, hb', hjson', hsnap⟩ := hstored hc
      obtain rfl : b = b' := Except.ok.inj (hb.symm.trans hb')
      obtain rfl := Option.some_inj.1 (hjson.symm.trans hjson')
      cases he.symm.trans hsnap

/-- The refs of `done` are being removed. -/
structure Removing (J : Serde) (root : Loc) (clean : Prop) (id : String) (fs : FS)
    (snap : Snapshot) (done : List String) (s : Faulty) : Prop where
  stored : ∃ u : Uuid, id = u.text ∧ snapshotAt J root fs u = some snap
  away : ∀ v, (∀ t : Tag, t.text ∈ done → v ≠ t.loc root) → s.fs.lookup v = fs.lookup v
  faults : clean → s.faults = []
  gone : clean → Gone root done s.fs

/-- A ref is removed, if there is one. -/
theorem spec_removeTag_faulty {clean : Prop} {id : String} {snap : Snapshot} {done : List String}
    {t : Tag} (ht : t.text ∈ snap.tags) (hdone : ∀ x ∈ done, x ∈ snap.tags) :
    Spec (faultyRoot K J root) (Removing J root clean id fs snap done)
      ((managerAt root).removeTag t.text)
      (fun _ => Removing J root clean id fs snap (done ++ [t.text]))
      (fun _ s => Deletes J root clean id fs s.fs) := by
  have hmem : ∀ {t' : Tag}, t'.text ∈ done ++ [t.text] ↔ t'.text ∈ done ∨ t' = t := by
    intro t'
    rw [List.mem_append, List.mem_singleton]
    exact or_congr_right ⟨Tag.ext, congrArg Tag.text⟩
  rw [removeTag, t.file_eq]
  refine Spec.bind (N := fun b s => Removing J root clean id fs snap done s ∧
    (clean → b = s.fs.pathExists (Loc.toPath (t.loc root)))) (Spec.mapError
      ((spec_exists_faulty clean (P := fun s' => (∃ u : Uuid, id = u.text ∧
        snapshotAt J root fs u = some snap) ∧ (∀ v, (∀ t : Tag, t.text ∈ done → v ≠ t.loc root) →
          s'.lookup v = fs.lookup v) ∧ (clean → Gone root done s'))).conseq ?_ ?_
            fun _ _ _ h => h)) fun b => ?_
  · exact fun s hs => ⟨⟨hs.stored, hs.away, hs.gone⟩, hs.faults⟩
  · rintro b s - ⟨⟨hstored, haway, hgone⟩, hs⟩
    exact ⟨⟨hstored, haway, fun hc => (hs hc).1, hgone⟩, fun hc => (hs hc).2⟩
  · cases b with
    | false =>
      refine Spec.pure ?_
      rintro s hi ⟨hs, hb⟩
      refine ⟨hs.stored, fun v hv => hs.away v fun t' ht' => hv t' (hmem.2 (.inl ht')), hs.faults,
        fun hc t' ht' => ?_⟩
      rcases hmem.1 ht' with ht' | rfl
      · exact hs.gone hc t' ht'
      · have hl : Layout root s.fs := Ledger.layout hi
        have hnone := (pathExists_ref hl t').symm.trans (hb hc).symm
        exact Option.not_isSome_iff_eq_none.1 (by rw [hnone]; exact Bool.false_ne_true)
    | true =>
      refine Spec.mapError (spec_faulty ?_)
      rintro s r s' hi ⟨hs, hb⟩ hout - hnil
      rcases outcome_removeFile hi.layout.tags hout with ⟨heq, e, rfl⟩ | ⟨rfl, hup⟩
      · rw [heq]
        obtain ⟨u, hu, hsnap⟩ := hs.stored
        refine ⟨hi, u, snap, hu, hsnap, fun v _ hv => ?_, fun hc => ?_⟩
        · rw [heq]
          exact hs.away v fun t' ht' => hv t' (hdone _ ht')
        · -- the ref is there, and could have been removed
          have hthere : s.fs.lookup (t.loc root) ≠ none := fun hnone => by
            have := (hb hc).trans (pathExists_ref hi.layout t)
            rw [hnone] at this
            cases this
          exact absurd (hnil (hs.faults hc)).1.symm (removeFile_file hi.layout.tags hthere)
      · refine ⟨hi.of_ref (.inl rfl) hup, hs.stored, fun v hv => ?_,
          fun hc => (hnil (hs.faults hc)).2, fun hc t' ht' => ?_⟩
        · have hne : v ≠ tagsLoc root ++ [t.name] := hv t (hmem.2 (.inr rfl))
          rw [hup, Function.update_of_ne hne]
          exact hs.away v fun t' ht' => hv t' (hmem.2 (.inl ht'))
        · rw [hup]
          by_cases heq : t'.loc root = tagsLoc root ++ [t.name]
          · rw [heq, Function.update_self]
          · rw [Function.update_of_ne heq]
            refine hs.gone hc t' ((hmem.1 ht').resolve_right ?_)
            rintro rfl
            exact heq rfl

theorem spec_deleteSnapshot_faulty {id : String} (hid : Slashless id) (clean : Prop)
    (hledger : Ledger J root fs) (hclean : clean → ∃ (u : Uuid) (snap : Snapshot), id = u.text ∧
      snapshotAt J root fs u = some snap) :
    Spec (faultyRoot K J root) (fun s => s.fs = fs ∧ (clean → s.faults = []))
      ((managerAt root).deleteSnapshot J id)
      (fun _ s => Deletes J root clean id fs s.fs)
      (fun _ s => s.fs = fs ∧ ¬ clean ∨ Deletes J root clean id fs s.fs) := by
  refine spec_deleteSnapshot_ops (N := Removing J root clean id fs)
    ((spec_loadSnapshot_faulty hid hclean).conseq (fun _ h => h) ?_ fun _ _ _ h => .inl h) ?_ ?_
  · rintro snap s - ⟨rfl, hfaults, hstored⟩
    exact ⟨hstored, fun _ _ => rfl, hfaults, fun _ _ ht => absurd ht List.not_mem_nil⟩
  · intro snap done x rest heq s hi hs
    obtain ⟨u, -, hsnap⟩ := hs.stored
    obtain ⟨t, rfl⟩ := hledger.valid u snap hsnap x (by rw [heq]; simp)
    exact (spec_removeTag_faulty (by rw [heq]; simp) (fun y hy => by
      rw [heq]
      exact List.mem_append_left _ hy)).conseq (fun _ h => h) (fun _ _ _ h => h)
        (fun _ _ _ h => .inr h) s hi hs
  · intro snap s₀ hi₀ hs₀
    obtain ⟨u, rfl, hsnap⟩ := hs₀.stored
    revert s₀
    suffices hspec : Spec (faultyRoot K J root) (Removing J root clean u.text fs snap snap.tags)
        (IoM.op (.removeFile (Loc.toPath (snapshotLoc root u.plain))))
        (fun _ s => Deletes J root clean u.text fs s.fs)
        (fun _ s => s.fs = fs ∧ ¬ clean ∨ Deletes J root clean u.text fs s.fs) by
      intro s hi hs
      rw [snapshotFile_eq root u.plain]
      exact hspec s hi hs
    refine spec_faulty fun s r s' hi hs hout _ _ => ?_
    rcases outcome_removeFile hi.layout.snapshots hout with ⟨heq, e, rfl⟩ | ⟨rfl, hup⟩
    · rw [heq]
      exact ⟨hi, .inr ⟨u, snap, rfl, hsnap, fun v _ hv => heq ▸ hs.away v hv, heq ▸ hs.gone⟩⟩
    · refine ⟨hi.of_snapshot (.inl rfl) hup (.inl rfl), u, snap, rfl, hsnap, fun v hne hv => ?_,
        fun hc t ht => ?_⟩
      · rw [hup]
        exact (Function.update_of_ne hne ..).trans (hs.away v hv)
      · rw [hup]
        exact (Function.update_of_ne (snapshotLoc_ne_tagLoc u t).symm ..).trans (hs.gone hc t ht)

/-- Whatever is deleted, the ledger is kept. -/
theorem spec_deleteSnapshot_any (M : SnapshotManager) (id : String) :
    Spec (faultyRoot K J root) (fun _ => True) (M.deleteSnapshot J id) (fun _ _ => True)
      (fun _ _ => True) := by
  refine Spec.issues (issues_deleteSnapshot M id) stable_faulty fun o s ho hi _ =>
    ⟨fun _ ht => ht.elim, ?_, trivial⟩
  have hout := Faulty.outcome (K := K) o s
  have hl : Ledger J root s.fs := hi
  show Ledger J root (Faulty.handle K o s).2.fs
  rcases ho with ho | ⟨p, rfl⟩
  · rw [outcome_look ho hout]
    exact hl
  · rcases outcome_remove hout with ⟨heq, -⟩ | ⟨v, -, hv, -, hup⟩
    · rw [heq]
      exact hl
    · exact hl.removed hv hup

/-! ### Runs -/

/-- One call on a disk that fails, objects that come (as they do when a file is hashed in a
restore), or a change away from the snapshot root. -/
inductive FaultyStep (K : Kernel) (H : Blake3) (J : Serde) (root : Loc) (fs : FS) : FS → Prop
  | create (reads : Loc → ℕ → ℕ) (fuel : ℕ) (now : ℤ) (u : Uuid) (workspace : PathBuf)
      (message : Option String) (tags : Option (List String)) (faults : List (Option Fault)) :
      FaultyStep K H J root fs (exec (Faulty.handle K) ((managerAt root).createSnapshot H J reads
        fuel now u.text workspace message tags) ⟨fs, faults, none⟩).2.fs
  | delete (id : String) (faults : List (Option Fault)) :
      FaultyStep K H J root fs
        (exec (Faulty.handle K) ((managerAt root).deleteSnapshot J id) ⟨fs, faults, none⟩).2.fs
  | objects (fs' : FS) (h : Beneath root fs fs') : FaultyStep K H J root fs fs'
  | elsewhere (fs' : FS) (h : ∀ v, v <+: root ∨ root <+: v → fs'.lookup v = fs.lookup v) :
      FaultyStep K H J root fs fs'

/-- A sequence of calls, with changes away from the snapshot root between them. -/
abbrev FaultyRun (K : Kernel) (H : Blake3) (J : Serde) (root : Loc) : FS → FS → Prop :=
  Relation.ReflTransGen (FaultyStep K H J root)

/-- What a specification says about a run with faults. -/
theorem exec_faulty {α : Type} {p : Action α} {P : Faulty → Prop} {Q : α → Faulty → Prop}
    {E : Error → Faulty → Prop} (h : Spec (faultyRoot K J root) P p Q E) {s : Faulty}
    (hi : Ledger J root s.fs) (hs : P s) :
    Ledger J root (exec (Faulty.handle K) p s).2.fs ∧
      Ends Q E (exec (Faulty.handle K) p s).1 (exec (Faulty.handle K) p s).2 :=
  Setting.wp_run (h s hi hs)

theorem FaultyStep.ledger (hH : H.Lawful) (hJ : J.Lawful) (h : FaultyStep K H J root fs fs')
    (hi : Ledger J root fs) : Ledger J root fs' := by
  cases h with
  | create reads fuel now u workspace message tags faults =>
    exact (exec_faulty (spec_createSnapshot_faulty hH hJ reads fuel now u workspace message tags fs)
      (s := ⟨fs, faults, none⟩) hi ⟨rfl, rfl⟩).1
  | delete id faults =>
    exact (exec_faulty (spec_deleteSnapshot_any _ id) (s := ⟨fs, faults, none⟩) hi trivial).1
  | objects _ h => exact hi.beneath h
  | elsewhere _ h => exact hi.elsewhere h

theorem FaultyRun.ledger (hH : H.Lawful) (hJ : J.Lawful) {fs₀ : FS} (h₀ : EmptyStore root fs₀)
    (hr : FaultyRun K H J root fs₀ fs) : Ledger J root fs := by
  induction hr with
  | refl => exact .empty h₀
  | tail _ hs ih => exact hs.ledger hH hJ ih

/-- A new snapshot can be looked up. -/
theorem Created.not_sameLookups {u : Uuid} {tags : List String} (h : Created J root u tags fs fs')
    (hi : Ledger J root fs) (hi' : Ledger J root fs')
    (hfresh : fs.lookup (snapshotLoc root u.plain) = none) : ¬ SameLookups K J root fs fs' := by
  intro hsame
  obtain ⟨snap, hsnap, -⟩ := h.stored
  have hget := hsame.get u.text u.plain.1
  rw [exec_getSnapshot, exec_getSnapshot, infoFrom_stored hi'.layout hsnap] at hget
  have hread : fs.read ((managerAt root).snapshotFile u.text) = .error .enoent := by
    rw [snapshotFile_eq root u.plain, snapshotLoc, hi.layout.snapshots.read]
    have hnone : fileAt fs (snapshotsLoc root ++ [u.plain.fileName]) = none := by
      unfold snapshotLoc at hfresh
      rw [fileAt, hfresh]
    rw [hnone]
  rw [hread] at hget
  cases hget

/-- **A `createSnapshot` that fails leaves everything to be looked up as before, if and only if the
last operation, which failed, was not that on a tag ref.** -/
theorem sameLookups_iff (hH : H.Lawful) (hJ : J.Lawful) {fs₀ : FS} (h₀ : EmptyStore root fs₀)
    (hr : FaultyRun K H J root fs₀ fs) {reads : Loc → ℕ → ℕ} {fuel : ℕ} {now : ℤ} {u : Uuid}
    {workspace : PathBuf} {message : Option String} {tags : Option (List String)}
    {faults : List (Option Fault)} {e : Error} {s : Faulty}
    (hfresh : fs.lookup (snapshotLoc root u.plain) = none)
    (hx : exec (Faulty.handle K) ((managerAt root).createSnapshot H J reads fuel now u.text
      workspace message tags) ⟨fs, faults, none⟩ = (.error e, s)) :
    SameLookups K J root fs s.fs ↔ ∀ o, s.last = some o → ¬ RefOp root o := by
  have hledger := hr.ledger hH hJ h₀
  have hspec := exec_faulty (spec_createSnapshot_faulty (K := K) hH hJ reads fuel now u workspace
    message tags fs) (s := ⟨fs, faults, none⟩) hledger ⟨rfl, rfl⟩
  rw [hx] at hspec
  obtain ⟨hledger', hleft⟩ := hspec
  rcases hleft with ⟨hun, hlast⟩ | ⟨hcreated, o, hlast, href⟩
  · exact ⟨fun _ => hlast, fun _ => hledger.sameLookups hledger' hun.snapshots hun.tags⟩
  · exact ⟨fun hsame => absurd hsame (hcreated.not_sameLookups hledger hledger' hfresh),
      fun hnot => absurd href (hnot o hlast)⟩

/-- The workspace cannot be read. -/
def sampleUnread : List (Option Fault) := [none, some ⟨.eio, none⟩]

/-- The disk is full when the ref of the tag is written. -/
def sampleFull : List (Option Fault) := List.replicate 18 none ++ [some ⟨.enospc, none⟩]

/-- A snapshot with the tag `v1` is created on the disk that fails. -/
def sampleFaulty (faults : List (Option Fault)) : Except Error String × Faulty :=
  exec (Faulty.handle sampleKernel) (twinCreate sampleUuids.1) ⟨sampleStore, faults, none⟩

theorem last_sampleUnread : (sampleFaulty sampleUnread).1.isOk = false ∧
    (match (sampleFaulty sampleUnread).2.last with
      | some (.readDir _) => true
      | _ => false) = true := by decide +kernel

theorem sameLookups_iff_sample :
    ∃ e s, sampleFaulty sampleUnread = (.error e, s) ∧
      SameLookups sampleKernel (Serde.ofTable twinJson) sampleRoot sampleStore s.fs := by
  have hx := last_sampleUnread
  rcases hr : sampleFaulty sampleUnread with ⟨e | a, s⟩ <;> rw [hr] at hx
  · refine ⟨e, s, rfl, (sameLookups_iff (K := sampleKernel) (Blake3.ofTable_lawful sampleHashes)
      (Serde.ofTable_lawful twinJson) emptyStore_sample .refl (emptyStore_sample.snapshots _)
        hr).2 fun o ho href => ?_⟩
    have hlast := hx.2
    rw [ho] at hlast
    cases o <;> first | exact href | cases hlast
  · cases hx.1

/-- The ref could not be written. -/
def refFailed (x : Except Error String × Faulty) : Bool :=
  !x.1.isOk && match x.2.last with
    | some (.write p _) => p == Loc.toPath (twinTag.tempLoc sampleRoot)
    | _ => false

theorem refFailed_sampleFull : refFailed (sampleFaulty sampleFull) = true := by decide +kernel

theorem ledger_sample : Ledger (Serde.ofTable twinJson) sampleRoot sampleStore :=
  .empty emptyStore_sample

/-- What becomes of the disk when a snapshot with the tag `v1` is created. -/
theorem exec_twinCreate (u : Uuid) (faults : List (Option Fault))
    (hi : Ledger (Serde.ofTable twinJson) sampleRoot fs) {x : Except Error String × Faulty}
    (hx : x = exec (Faulty.handle sampleKernel) (twinCreate u) ⟨fs, faults, none⟩) :
    Ledger (Serde.ofTable twinJson) sampleRoot x.2.fs ∧
      Ends (fun r s => r = u.text ∧
          Created (Serde.ofTable twinJson) sampleRoot u [twinTag.text] fs s.fs)
        (fun _ => Left (Serde.ofTable twinJson) sampleRoot u [twinTag.text] fs) x.1 x.2 := by
  subst hx
  exact exec_faulty (spec_createSnapshot_faulty (Blake3.ofTable_lawful sampleHashes)
    (Serde.ofTable_lawful twinJson) _ _ _ u _ _ (some [twinTag.text]) fs)
      (s := ⟨fs, faults, none⟩) hi ⟨rfl, rfl⟩

/-- When the call succeeds, and when the ref could not be written, the snapshot is there. -/
theorem created_twin (u : Uuid) (faults : List (Option Fault))
    (hi : Ledger (Serde.ofTable twinJson) sampleRoot fs) {x : Except Error String × Faulty}
    (hx : x = exec (Faulty.handle sampleKernel) (twinCreate u) ⟨fs, faults, none⟩)
    (hok : x.1.isOk = true ∨ refFailed x = true) :
    Created (Serde.ofTable twinJson) sampleRoot u [twinTag.text] fs x.2.fs := by
  obtain ⟨-, hends⟩ := exec_twinCreate u faults hi hx
  obtain ⟨e | a, s⟩ := x
  · obtain ⟨-, hlast⟩ := Bool.and_eq_true_iff.1 (hok.resolve_left nofun)
    rcases hends with ⟨-, hnot⟩ | ⟨hcreated, -⟩
    · split at hlast
      next p data ho => exact absurd ⟨_, eq_of_beq hlast⟩ (hnot _ ho)
      next => cases hlast
    · exact hcreated
  · exact hends.2

theorem ledger_sampleFaulty (faults : List (Option Fault)) :
    Ledger (Serde.ofTable twinJson) sampleRoot (sampleFaulty faults).2.fs :=
  (exec_twinCreate sampleUuids.1 faults ledger_sample (by rw [sampleFaulty])).1

theorem created_sampleFull : Created (Serde.ofTable twinJson) sampleRoot sampleUuids.1
    [twinTag.text] sampleStore (sampleFaulty sampleFull).2.fs :=
  created_twin sampleUuids.1 sampleFull (x := sampleFaulty sampleFull) ledger_sample
    (by rw [sampleFaulty]) (.inr refFailed_sampleFull)

/-- When the ref cannot be written `createSnapshot` fails, and the new snapshot is there. -/
theorem failed_create_visible :
    EmptyStore sampleRoot sampleStore ∧ (sampleFaulty sampleFull).1.isOk = false ∧
      ¬ SameLookups sampleKernel (Serde.ofTable twinJson) sampleRoot sampleStore
        (sampleFaulty sampleFull).2.fs := by
  refine ⟨emptyStore_sample, ?_, created_sampleFull.not_sameLookups ledger_sample
    (ledger_sampleFaulty sampleFull) (emptyStore_sample.snapshots _)⟩
  simpa using (Bool.and_eq_true_iff.1 refFailed_sampleFull).1

/-- A tag resolves to a snapshot. -/
def ResolvesTo (K : Kernel) (J : Serde) (root : Loc) (fs : FS) (t : Tag) (v : Uuid) : Prop :=
  ∃ info, (exec K.handle ((managerAt root).findSnapshotByTag J t.text) fs).1 = .ok (some info) ∧
    info.id = v.text

/-- The other snapshots are as before, and so are the tags that resolve to them. -/
structure OthersKept (K : Kernel) (J : Serde) (root : Loc) (u : Uuid) (fs fs' : FS) : Prop where
  get : ∀ v, v ≠ u → (exec K.handle ((managerAt root).getSnapshot J (Uuid.text v)) fs').1 =
    (exec K.handle ((managerAt root).getSnapshot J v.text) fs).1
  find : ∀ t v, v ≠ u → ResolvesTo K J root fs t v → ResolvesTo K J root fs' t v

/-- The snapshot that is found under a ref has the identifier in it. -/
theorem Ledger.info_id (h : Ledger J root fs) {id : String} (hid : Slashless id)
    {info : SnapshotInfo}
    (hinfo : infoFrom J id (fs.read ((managerAt root).snapshotFile id)) = .ok info) :
    ∃ u : Uuid, id = u.text ∧ info.id = u.text := by
  cases hb : fs.read ((managerAt root).snapshotFile id) with
  | error e =>
    rw [hb] at hinfo
    cases hinfo
  | ok b =>
    obtain ⟨u, hu, hs⟩ := h.read_slashless hid hb
    rw [hb] at hinfo
    unfold infoFrom at hinfo
    cases hjson : fromUtf8 b with
    | none =>
      simp only [hjson] at hinfo
      cases hinfo
    | some json =>
      simp only [hjson, Serde.decodeSnapshot] at hinfo
      rw [hjson, Option.bind_some] at hs
      cases hsnap : J.snapshotFromStr json with
      | none =>
        simp only [hsnap] at hinfo
        cases hinfo
      | some snap =>
        simp only [hsnap] at hinfo
        cases hinfo
        exact ⟨u, hu, h.ids u snap (hs.trans hsnap)⟩

/-- What `deleteSnapshot` does to a snapshot that is stored. -/
theorem exec_deleteSnapshot_faulty (hi : Ledger J root fs) {u : Uuid} {snap : Snapshot}
    (hs : snapshotAt J root fs u = some snap) (faults : List (Option Fault)) {x : Faulty}
    (hx : x = (exec (Faulty.handle K) ((managerAt root).deleteSnapshot J u.text)
      ⟨fs, faults, none⟩).2) :
    Ledger J root x.fs ∧ Removed root u snap.tags fs x.fs ∧
      (faults = [] → Gone root snap.tags x.fs) := by
  obtain ⟨hi', hends⟩ := exec_faulty (spec_deleteSnapshot_faulty (K := K) u.plain.1 (faults = [])
    hi fun _ => ⟨u, snap, rfl, hs⟩) (s := ⟨fs, faults, none⟩) hi ⟨rfl, id⟩
  have hof : ∀ {fs'}, Deletes J root (faults = []) u.text fs fs' →
      Removed root u snap.tags fs fs' ∧ (faults = [] → Gone root snap.tags fs') := by
    rintro fs' ⟨v, snap', huv, hs', hremoved, hgone⟩
    obtain rfl : u = v := Uuid.ext huv
    obtain rfl := Option.some_inj.1 (hs.symm.trans hs')
    exact ⟨hremoved, hgone⟩
  generalize exec (Faulty.handle K) ((managerAt root).deleteSnapshot J u.text)
    ⟨fs, faults, none⟩ = y at hi' hends hx
  subst hx
  refine ⟨hi', ?_⟩
  obtain ⟨_ | _, s⟩ := y
  · rcases hends with ⟨heq, hnot⟩ | hdel
    · exact ⟨fun v _ _ => congrFun (congrArg FS.lookup heq) v, fun hc => absurd hc hnot⟩
    · exact hof hdel
  · exact hof hends

/-- A tag of the deleted snapshot that resolves to another one is lost. -/
theorem not_othersKept (hi : Ledger J root fs) {u v : Uuid} {snap : Snapshot}
    (hs : snapshotAt J root fs u = some snap) {t : Tag} (ht : t.text ∈ snap.tags) (hv : v ≠ u)
    (hres : ResolvesTo K J root fs t v) :
    ¬ OthersKept K J root u fs (exec (Faulty.handle K)
      ((managerAt root).deleteSnapshot J u.text) ⟨fs, [], none⟩).2.fs := by
  intro hall
  obtain ⟨hi', -, hgone⟩ := exec_deleteSnapshot_faulty (K := K) hi hs [] rfl
  obtain ⟨info, hinfo, -⟩ := hall.find t v hv hres
  rw [exec_findSnapshotByTag_none hi'.layout (refAt_none (hgone rfl t ht))] at hinfo
  cases hinfo

/-- When no tag of the deleted snapshot resolves to another one, these are left alone. -/
theorem othersKept_of (hi : Ledger J root fs) {u : Uuid} {snap : Snapshot}
    (hnone : ∀ t : Tag, t.text ∈ snap.tags → ∀ v, v ≠ u → ¬ ResolvesTo K J root fs t v)
    (hi' : Ledger J root fs') (hremoved : Removed root u snap.tags fs fs') :
    OthersKept K J root u fs fs' := by
  have hread : ∀ {id : String}, Slashless id → id ≠ u.text →
      fs'.read ((managerAt root).snapshotFile id) =
        fs.read ((managerAt root).snapshotFile id) := by
    intro id hid hne
    refine hi.layout.read_congr hi'.layout hid fun hp => hremoved _ ?_ fun t _ => ?_
    · exact fun h => hne (Plain.fileName_inj (List.append_cancel_left h |> List.head_eq_of_cons_eq))
    · exact snapshotsLoc_ne_tagsLoc root _ _
  refine ⟨fun v hv => ?_, fun t v hv ⟨info, hinfo, hid⟩ => ⟨info, ?_, hid⟩⟩
  · rw [exec_getSnapshot, exec_getSnapshot, hread v.plain.1 fun h => hv (Uuid.ext h)]
  have hnot : t.text ∉ snap.tags := fun ht => hnone t ht v hv ⟨info, hinfo, hid⟩
  have href := refAt_congr (hremoved (t.loc root) (snapshotLoc_ne_tagLoc u t).symm
    fun t' ht' heq => hnot (Tag.loc_injective root heq ▸ ht'))
  rw [exec_findSnapshotByTag hi.layout] at hinfo
  rw [exec_findSnapshotByTag hi'.layout, href]
  cases hdata : refAt root fs t with
  | none =>
    rw [hdata] at hinfo
    cases hinfo
  | some data =>
    rw [hdata] at hinfo
    unfold foundUnder at hinfo ⊢
    cases htext : fromUtf8 data with
    | none =>
      simp only [htext] at hinfo
      cases hinfo
    | some text =>
      simp only [htext] at hinfo ⊢
      have hsl := hi.slashless hdata htext
      cases hget : infoFrom J (trim text)
          (fs.read ((managerAt root).snapshotFile (trim text))) with
      | error e =>
        rw [hget] at hinfo
        cases hinfo
      | ok i =>
        rw [hget] at hinfo
        cases hinfo
        obtain ⟨w, hw, hiw⟩ := hi.info_id hsl hget
        have hne : trim text ≠ u.text := fun h =>
          hv (Uuid.ext (hid.symm.trans (hiw.trans (hw.symm.trans h))))
        rw [hread hsl hne, hget]
        rfl

/-- **Whatever fails, `deleteSnapshot` leaves the other snapshots alone and the tags that resolve to
them, if and only if no tag that the snapshot lists resolves to another one.** -/
theorem othersKept_iff (hH : H.Lawful) (hJ : J.Lawful) {fs₀ : FS} (h₀ : EmptyStore root fs₀)
    (hr : FaultyRun K H J root fs₀ fs) {u : Uuid} {snap : Snapshot}
    (hs : snapshotAt J root fs u = some snap) :
    (∀ faults, OthersKept K J root u fs (exec (Faulty.handle K)
      ((managerAt root).deleteSnapshot J u.text) ⟨fs, faults, none⟩).2.fs) ↔
      ∀ t : Tag, t.text ∈ snap.tags → ∀ v, v ≠ u → ¬ ResolvesTo K J root fs t v := by
  have hi := hr.ledger hH hJ h₀
  refine ⟨fun hall t ht v hv hres => not_othersKept hi hs ht hv hres (hall []),
    fun hnone faults => ?_⟩
  obtain ⟨hi', hremoved, -⟩ := exec_deleteSnapshot_faulty (K := K) hi hs faults rfl
  exact othersKept_of hi hnone hi' hremoved

/-- A snapshot whose tag could not be written, and then another one with that tag. -/
def sampleRetried : Except Error String × Faulty :=
  exec (Faulty.handle sampleKernel) (twinCreate sampleUuids.2)
    ⟨(sampleFaulty sampleFull).2.fs, [], none⟩

theorem faultyRun_sample (faults : List (Option Fault)) :
    FaultyRun sampleKernel (Blake3.ofTable sampleHashes) (Serde.ofTable twinJson) sampleRoot
      sampleStore (sampleFaulty faults).2.fs := by
  rw [sampleFaulty, twinCreate]
  exact .single (.create ..)

theorem faultyRun_sampleRetried :
    FaultyRun sampleKernel (Blake3.ofTable sampleHashes) (Serde.ofTable twinJson) sampleRoot
      sampleStore sampleRetried.2.fs := by
  rw [sampleRetried, twinCreate]
  exact (faultyRun_sample sampleFull).tail (.create ..)

theorem refAt_sampleFaulty : (sampleFaulty []).1.isOk = true ∧
    refAt sampleRoot (sampleFaulty []).2.fs twinTag = some (utf8 sampleUuids.1.text) := by
  decide +kernel

theorem refAt_sampleRetried : sampleRetried.1.isOk = true ∧
    refAt sampleRoot sampleRetried.2.fs twinTag = some (utf8 sampleUuids.2.text) := by
  decide +kernel

theorem othersKept_iff_sample : ∃ r s, sampleFaulty [] = (.ok r, s) ∧
      OthersKept sampleKernel (Serde.ofTable twinJson) sampleRoot sampleUuids.1 s.fs
        (exec (Faulty.handle sampleKernel) ((managerAt sampleRoot).deleteSnapshot
          (Serde.ofTable twinJson) sampleUuids.1.text) ⟨s.fs, [], none⟩).2.fs := by
  obtain ⟨hok, href⟩ := refAt_sampleFaulty
  have hi := ledger_sampleFaulty []
  have hcreated := created_twin sampleUuids.1 [] (x := sampleFaulty []) ledger_sample
    (by rw [sampleFaulty]) (.inl refAt_sampleFaulty.1)
  have hrun := faultyRun_sample []
  generalize sampleFaulty [] = x at hok href hi hcreated hrun ⊢
  obtain ⟨snap, hs, htags⟩ := hcreated.stored
  obtain ⟨_ | a, s⟩ := x
  · cases hok
  refine ⟨a, s, rfl, (othersKept_iff (Blake3.ofTable_lawful sampleHashes)
    (Serde.ofTable_lawful twinJson) emptyStore_sample hrun hs).2 (fun t ht v hv => ?_) []⟩
  rw [htags] at ht
  obtain rfl : t = twinTag := Tag.ext (List.mem_singleton.1 ht)
  rintro ⟨info, hinfo, hid⟩
  rw [exec_findSnapshotByTag_stored hi.layout href hs] at hinfo
  cases hinfo
  exact hv (Uuid.ext (hid.symm.trans (hi.ids _ _ hs)))

theorem ledger_sampleRetried :
    Ledger (Serde.ofTable twinJson) sampleRoot sampleRetried.2.fs :=
  (exec_twinCreate sampleUuids.2 [] (ledger_sampleFaulty sampleFull) (by rw [sampleRetried])).1

theorem created_sampleRetried :
    Created (Serde.ofTable twinJson) sampleRoot sampleUuids.2 [twinTag.text]
      (sampleFaulty sampleFull).2.fs sampleRetried.2.fs :=
  created_twin sampleUuids.2 [] (x := sampleRetried) (ledger_sampleFaulty sampleFull)
    (by rw [sampleRetried]) (.inl refAt_sampleRetried.1)

/-- The first snapshot is deleted, and the second one has lost its tag. -/
theorem deleted_tag_of_other :
    EmptyStore sampleRoot sampleStore ∧
    FaultyRun sampleKernel (Blake3.ofTable sampleHashes) (Serde.ofTable twinJson) sampleRoot
      sampleStore sampleRetried.2.fs ∧
    (∃ snap, snapshotAt (Serde.ofTable twinJson) sampleRoot sampleRetried.2.fs sampleUuids.1 =
      some snap) ∧
    ¬ OthersKept sampleKernel (Serde.ofTable twinJson) sampleRoot sampleUuids.1 sampleRetried.2.fs
      (exec (Faulty.handle sampleKernel) ((managerAt sampleRoot).deleteSnapshot
        (Serde.ofTable twinJson) sampleUuids.1.text) ⟨sampleRetried.2.fs, [], none⟩).2.fs := by
  have hne : sampleUuids.1 ≠ sampleUuids.2 := fun h => absurd (congrArg Uuid.text h) (by decide)
  have hi := ledger_sampleRetried
  obtain ⟨snap₁, hs₁, htags₁⟩ := created_sampleFull.stored
  obtain ⟨snap₂, hs₂, -⟩ := created_sampleRetried.stored
  have hs := (created_sampleRetried.others _ hne).trans hs₁
  refine ⟨emptyStore_sample, faultyRun_sampleRetried, ⟨snap₁, hs⟩,
    not_othersKept hi hs (t := twinTag) ?_ hne.symm ⟨snap₂.toInfo, ?_, hi.ids _ _ hs₂⟩⟩
  · rw [htags₁]
    exact List.mem_singleton.2 rfl
  · exact congrArg Prod.fst (exec_findSnapshotByTag_stored hi.layout refAt_sampleRetried.2 hs₂)

end SandD
