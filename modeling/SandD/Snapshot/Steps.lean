import SandD.Posix.Disk
import SandD.Snapshot.Create

/-!
# Creating and deleting, operation by operation

Which operations `createSnapshot` and `deleteSnapshot` issue, and what each of them may come to on
a disk that fails.  Before the snapshot file is written they are `StoreOp`s, whatever the answers
are, and these change nothing but what is below the objects directory.

* `StoreOp`, `issues_buildTree`: the operations that store files and trees;
* `Beneath`: what they may have changed;
* `outcome_write`, `outcome_rename`, `outcome_removeFile`: operations in a directory of files;
* `spec_createSnapshot_ops`, `spec_deleteSnapshot_ops`: rules for the two programs, from rules for
  their operations.
-/

namespace SandD

open Posix ObjectStore SnapshotManager
open Fallible

variable {K : Kernel} {H : Blake3} {J : Serde} {root : Loc} {fs fs' : FS}

/-! ### Storing -/

/-- The operations that store files and trees. -/
inductive StoreOp (root : Loc) : FsOp → Prop
  | look {o : FsOp} (h : Looks o) : StoreOp root o
  | mkdir (k : Key) {u : Loc} (hu : u <+: k.shardLoc root) :
      StoreOp root (.createDir (Loc.toPath u))
  | write (k : Key) (data : Bytes) : StoreOp root (.write (Loc.toPath (k.tempLoc root)) data)
  | copy (k : Key) (path : PathBuf) : StoreOp root (.copy path (Loc.toPath (k.tempLoc root)))
  | rename (k : Key) :
      StoreOp root (.rename (Loc.toPath (k.tempLoc root)) (Loc.toPath (k.loc root)))

theorem issues_op {A : FsOp → Prop} {o : FsOp} (ho : A o) : Issues A (IoM.op o) :=
  issues_perform ho

theorem issues_exists {A : FsOp → Prop} {p : PathBuf} (h : A (.metadata p)) :
    Issues A (IoM.exists_ p) := by
  refine issues_bind (issues_attempt (issues_op h)) fun r => ?_
  cases r <;> exact issues_pure _

theorem issues_isDir {A : FsOp → Prop} {p : PathBuf} (h : A (.metadata p)) :
    Issues A (IoM.isDir p) := by
  refine issues_bind (issues_attempt (issues_op h)) fun r => ?_
  cases r <;> exact issues_pure _

theorem issues_unlessDir {A : FsOp → Prop} {p : PathBuf} {e : Errno} (h : A (.metadata p)) :
    Issues A (IoM.unlessDir p e) := by
  refine issues_bind (issues_isDir h) fun b => ?_
  cases b
  · exact issues_fail _
  · exact issues_pure _

/-- `create_dir_all` makes directories above its own, and looks at them. -/
theorem issues_createDirAll {A : FsOp → Prop} {q : Loc}
    (hq : ∀ w, w <+: q → A (.createDir (Loc.toPath w)) ∧ A (.metadata (Loc.toPath w))) :
    Issues A (IoM.createDirAll (Loc.toPath q)) := by
  unfold IoM.createDirAll
  induction q using List.reverseRecOn with
  | nil => exact issues_pure _
  | append_singleton d n ih =>
    have hd : Issues A (IoM.createDirAllRev (Loc.toPath d).reverse) :=
      ih fun w hw => hq w (hw.trans (List.prefix_append _ _))
    obtain ⟨hmk, hlook⟩ := hq (d ++ [n]) List.prefix_rfl
    have hpath : (Comp.name n :: (Loc.toPath d).reverse).reverse = Loc.toPath (d ++ [n]) := by
      rw [List.reverse_cons, List.reverse_reverse, Loc.toPath_concat]
    rw [Loc.toPath_concat, List.reverse_append, List.reverse_singleton, List.singleton_append,
      IoM.createDirAllRev, hpath]
    refine issues_bind (issues_attempt (issues_op hmk)) fun r => ?_
    split
    · exact issues_pure _
    · refine issues_bind hd fun _ => issues_bind (issues_attempt (issues_op hmk)) fun r => ?_
      split
      · exact issues_pure _
      · exact issues_unlessDir hlook
    · exact issues_unlessDir hlook

theorem issues_createDirAll_any {A : FsOp → Prop} (hc : ∀ p, A (.createDir p))
    (hm : ∀ p, A (.metadata p)) (p : PathBuf) : Issues A (IoM.createDirAll p) := by
  have hrev : ∀ cs, Issues A (IoM.createDirAllRev cs) := by
    intro cs
    induction cs with
    | nil => exact issues_pure _
    | cons c cs ih =>
      refine issues_bind (issues_attempt (issues_op (hc _))) fun r => ?_
      rcases r with (e | u)
      · cases e
        case enoent =>
          refine issues_bind ih fun _ => issues_bind (issues_attempt (issues_op (hc _))) fun r => ?_
          rcases r with (e | u)
          · exact issues_unlessDir (hm _)
          · exact issues_pure _
        all_goals exact issues_unlessDir (hm _)
      · exact issues_pure _
  exact hrev _

theorem issues_look {o : FsOp} (h : Looks o) : Issues (StoreOp root) (io (IoM.op o)) :=
  issues_mapError (issues_op (.look h))

theorem issues_makeShard (k : Key) :
    Issues (StoreOp root) (io (IoM.createDirAll (Loc.toPath (k.shardLoc root)))) :=
  issues_mapError (issues_createDirAll fun _ hw => ⟨.mkdir k hw, .look trivial⟩)

theorem issues_putBlob (hH : H.Lawful) (content : Bytes) :
    Issues (StoreOp root) ((storeAt root).putBlob H content) := by
  rw [Hosts.putBlob_eq (k := hH.key content) rfl]
  refine issues_bind (issues_mapError (issues_exists (.look trivial))) fun b => ?_
  cases b with
  | true => exact issues_pure _
  | false =>
    exact issues_bind (issues_makeShard _) fun _ =>
      issues_bind (issues_mapError (issues_op (.write _ _))) fun _ =>
        issues_bind (issues_mapError (issues_op (.rename _))) fun _ => issues_pure _

theorem issues_hashLoop (reads : Loc → ℕ → ℕ) (file : Loc) (fuel offset : ℕ) (hasher : H.Hasher) :
    Issues (StoreOp root) (hashLoop H reads file fuel offset hasher) := by
  induction fuel generalizing offset hasher with
  | zero => exact issues_fail _
  | succ fuel ih =>
    refine issues_bind (issues_look trivial) fun buffer => ?_
    split_ifs
    · exact issues_pure _
    · exact ih _ _

theorem issues_storeHashed (path : PathBuf) (hashHex : String) :
    Issues (StoreOp root) (Hosts.storeHashed (storeAt root) path hashHex) := by
  cases hp : (storeAt root).hashToPath hashHex with
  | error e =>
    unfold Hosts.storeHashed
    rw [hp]
    exact issues_fail e
  | ok p =>
    obtain ⟨k, rfl, -⟩ := hashToPath_eq_ok_iff.1 hp
    rw [Hosts.storeHashed_eq]
    refine issues_bind (issues_mapError (issues_exists (.look trivial))) fun b => ?_
    cases b with
    | true => exact issues_pure _
    | false =>
      exact issues_bind (issues_makeShard k) fun _ =>
        issues_bind (issues_mapError (issues_mapError (issues_op (.copy k path)))) fun _ =>
          issues_bind (issues_mapError (issues_op (.rename k))) fun _ => issues_pure _

theorem issues_putFile (reads : Loc → ℕ → ℕ) (fuel : ℕ) (path : PathBuf) :
    Issues (StoreOp root) ((storeAt root).putFile H reads fuel path) := by
  rw [Hosts.putFile_eq]
  exact issues_bind (issues_mapError (issues_look trivial)) fun _ =>
    issues_bind (issues_hashLoop _ _ _ _ _) fun _ => issues_storeHashed _ _

theorem issues_targetIsDir (path : PathBuf) (target : Bytes) :
    Issues (StoreOp root) (targetIsDir path target) := by
  unfold targetIsDir
  split_ifs
  · exact issues_mapError (issues_isDir (.look trivial))
  · split
    · exact issues_mapError (issues_isDir (.look trivial))
    · exact issues_pure _

theorem issues_buildEntry (hH : H.Lawful) (reads : Loc → ℕ → ℕ) (fuel : ℕ)
    {buildTree : PathBuf → Action (String × ℕ × ℕ)}
    (hrec : ∀ path, Issues (StoreOp root) (buildTree path)) (dir : PathBuf) (acc : Built)
    (name : FileName) :
    Issues (StoreOp root) ((managerAt root).buildEntry H reads fuel buildTree dir acc name) := by
  refine issues_bind (issues_look trivial) fun metadata => ?_
  cases metadata.fileType with
  | symlink =>
    exact issues_bind (issues_look trivial) fun _ =>
      issues_bind (issues_putBlob hH _) fun _ =>
        issues_bind (issues_targetIsDir _ _) fun _ => issues_pure _
  | file => exact issues_bind (issues_putFile _ _ _) fun _ => issues_pure _
  | dir => exact issues_bind (hrec _) fun _ => issues_pure _
  | special => exact issues_pure _

/-- Building a tree stores files and trees, whatever the answers are. -/
theorem issues_buildTree (hH : H.Lawful) (reads : Loc → ℕ → ℕ) (fuel : ℕ) (path : PathBuf) :
    Issues (StoreOp root) ((managerAt root).buildTree H J reads fuel path) := by
  induction fuel generalizing path with
  | zero => exact issues_fail _
  | succ fuel ih =>
    have hentries : ∀ names acc, Issues (StoreOp root) ((managerAt root).buildEntries H reads fuel
        ((managerAt root).buildTree H J reads fuel) path names acc) := by
      intro names
      induction names with
      | nil => exact fun _ => issues_pure _
      | cons name names ihn =>
        exact fun acc => issues_bind (issues_buildEntry hH reads fuel ih path acc name)
          fun acc => ihn acc
    exact issues_bind (issues_look trivial) fun names =>
      issues_bind (hentries names _) fun built =>
        issues_bind (issues_ofExcept _) fun _ =>
          issues_bind (issues_putBlob hH _) fun _ => issues_pure _

theorem issues_requireNew (tag : String) :
    Issues (StoreOp root) ((managerAt root).requireNew tag) := by
  refine issues_bind (issues_mapError (issues_exists (.look trivial))) fun b => ?_
  cases b
  · exact issues_pure _
  · exact issues_fail _

/-- Deleting looks at files and removes files, whatever it is that is deleted. -/
theorem issues_deleteSnapshot (M : SnapshotManager) (id : String) :
    Issues (fun o => Looks o ∨ ∃ p, o = .removeFile p) (M.deleteSnapshot J id) := by
  have hremove : ∀ p, Issues (fun o => Looks o ∨ ∃ p, o = .removeFile p)
      (io (IoM.op (.removeFile p))) := fun p => issues_mapError (issues_op (.inr ⟨p, rfl⟩))
  refine issues_bind (issues_bind (issues_bind (issues_mapError (issues_bind (issues_mapError
    (issues_op (.inl trivial))) fun b => ?_)) fun _ => issues_ofExcept _) fun _ => issues_pure _)
      fun info => issues_bind (issues_forM fun tag _ => issues_mapError ?_)
        fun _ => issues_mapError (hremove _)
  · cases fromUtf8 b with
    | none => exact issues_fail _
    | some json => exact issues_pure _
  · refine issues_bind (issues_mapError (issues_exists (.inl trivial))) fun b => ?_
    cases b with
    | false => exact issues_pure _
    | true => exact hremove _

/-! ### What storing may have changed -/

/-- What has changed is below the objects directory. -/
structure Beneath (root : Loc) (fs fs' : FS) : Prop where
  layout : Layout root fs'
  away : ∀ v, ¬ objectsDir root <+: v → fs'.lookup v = fs.lookup v

namespace Beneath

theorem refl (hl : Layout root fs) : Beneath root fs fs := ⟨hl, fun _ _ => rfl⟩

theorem trans {fs'' : FS} (h : Beneath root fs fs') (h' : Beneath root fs' fs'') :
    Beneath root fs fs'' := ⟨h'.layout, fun v hv => (h'.away v hv).trans (h.away v hv)⟩

theorem snapshots (h : Beneath root fs fs') (n : FileName) :
    fs'.lookup (snapshotsLoc root ++ [n]) = fs.lookup (snapshotsLoc root ++ [n]) :=
  h.away _ (not_objectsDir_prefix_snapshots root [n])

theorem tags (h : Beneath root fs fs') (n : FileName) :
    fs'.lookup (tagsLoc root ++ [n]) = fs.lookup (tagsLoc root ++ [n]) :=
  h.away _ (not_objectsDir_prefix_tags root [n])

end Beneath

/-- A snapshot root stays in order when what changes is below the objects directory and no link
comes up there. -/
theorem Layout.beneath (hl : Layout root fs)
    (haway : ∀ v, ¬ objectsDir root <+: v → fs'.lookup v = fs.lookup v)
    (hlink : ∀ v, objectsDir root <+: v → ¬ fs'.isLink v) : Layout root fs' := by
  have hfiles : ∀ d, (∀ w, ¬ objectsDir root <+: d ++ w) → FilesDir fs d → FilesDir fs' d := by
    refine fun d hd h => h.congr fun v hv => haway v fun hobj => ?_
    rcases hv with hv | ⟨w, rfl⟩
    · exact hd [] (by simpa using hobj.trans hv)
    · exact hd w hobj
  refine ⟨?_, fun v hv => ?_, hfiles _ (not_objectsDir_prefix_snapshots root) hl.snapshots,
    hfiles _ (not_objectsDir_prefix_tags root) hl.tags⟩
  · rw [FS.isDir, haway root (FS.not_prefix_concat root _)]
    exact hl.isDir
  · by_cases hobj : objectsDir root <+: v
    · exact hlink v hobj
    · rw [FS.isLink, haway v hobj]
      exact hl.objects v hv

theorem Layout.edited {v : Loc} {new : Option Node} (hl : Layout root fs)
    (h : EditAt fs fs' v new) (hv : objectsDir root <+: v)
    (hnew : ∀ nd, new = some nd → nd.isLink = false) : Beneath root fs fs' := by
  have haway : ∀ w, ¬ objectsDir root <+: w → fs'.lookup w = fs.lookup w :=
    fun w hw => h.away w fun hvw => hw (hv.trans hvw)
  refine ⟨hl.beneath haway fun w hw hlink => ?_, haway⟩
  obtain ⟨l, t, hlink⟩ := FS.isLink_iff.1 hlink
  have hold : fs.lookup w ≠ some (.symlink l t) := fun hlw =>
    hl.objects w (Or.inr hw) (FS.isLink_iff.2 ⟨l, t, hlw⟩)
  by_cases hvw : v <+: w
  · by_cases heq : w = v
    · subst heq
      cases hnew _ (h.here.symm.trans hlink)
    · rcases h.below w hvw heq with hnone | ⟨-, hsame⟩
      · cases hnone.symm.trans hlink
      · exact hold (hsame.symm.trans hlink)
  · exact hold ((h.away w hvw).symm.trans hlink)

/-- Where a path to a place on the way to an object, or below the objects directory, leads. -/
theorem Layout.resolve_objects (hl : Layout root fs) {follow : Bool} {q v : Loc} (hne : q ≠ [])
    (hq : q <+: objectsDir root ∨ objectsDir root <+: q)
    (h : fs.resolve follow (Loc.toPath q) = .ok v) : v = q := hl.objects.resolve hq hne h

theorem isLink_of_isDir {nd : Node} (h : nd.isDir = true) : nd.isLink = false := by
  cases nd <;> first | rfl | cases h

/-- A write that is done, or begun, below the objects directory. -/
theorem beneath_write (hl : Layout root fs) (k : Key) {data : Bytes}
    (h : fs.write K (Loc.toPath (k.tempLoc root)) data = .ok fs') : Beneath root fs fs' := by
  obtain ⟨v, m, hv, -, hedit⟩ := write_ok h
  have hobj := k.objectsDir_prefix_tempLoc root
  obtain rfl := hl.resolve_objects (k.tempLoc_ne_nil root) (Or.inr hobj) hv
  refine hl.edited hedit hobj ?_
  rintro nd ⟨⟩
  rfl

theorem beneath_copy (hl : Layout root fs) (k : Key) {part : Bytes → Bytes} {path : PathBuf}
    (h : fs.copyPart K part path (Loc.toPath (k.tempLoc root)) = .ok fs') :
    Beneath root fs fs' := by
  obtain ⟨u, data, m, t, v, -, -, hv, -, hedit⟩ := copyPart_ok h
  have hobj := k.objectsDir_prefix_tempLoc root
  obtain rfl := hl.resolve_objects (k.tempLoc_ne_nil root) (Or.inr hobj) hv
  refine hl.edited hedit hobj ?_
  rintro nd ⟨⟩
  rfl

theorem beneath_rename (hl : Layout root fs) (k : Key)
    (h : fs.rename (Loc.toPath (k.tempLoc root)) (Loc.toPath (k.loc root)) = .ok fs') :
    Beneath root fs fs' := by
  obtain ⟨u, v, nd, hu, hv, hnd, -, -, hcase⟩ := rename_ok h
  have hobj := k.objectsDir_prefix_tempLoc root
  have hobj' := k.objectsDir_prefix_loc root
  obtain rfl := hl.resolve_objects (k.tempLoc_ne_nil root) (Or.inr hobj) hu
  obtain rfl := hl.resolve_objects (k.loc_ne_nil root) (Or.inr hobj') hv
  rcases hcase with ⟨-, rfl⟩ | ⟨-, hout, hin⟩
  · exact .refl hl
  · have hremoved := hl.edited hout hobj nofun
    refine hremoved.trans (hremoved.layout.edited hin hobj' ?_)
    rintro _ ⟨⟩
    by_contra hlink
    exact hl.objects _ (Or.inr hobj)
      (by simpa [FS.isLink, hnd] using hlink)

theorem beneath_createDir (hl : Layout root fs) (k : Key) {u : Loc} (hu : u <+: k.shardLoc root)
    (h : fs.createDir K (Loc.toPath u) = .ok fs') : Beneath root fs fs' := by
  obtain ⟨v, hv, hnone, hedit⟩ := createDir_ok h
  have hne : u ≠ [] := by
    rintro rfl
    rw [show v = [] from (Except.ok.inj hv).symm] at hnone
    cases hnone
  obtain rfl := hl.resolve_objects hne (k.shardLoc_comparable hu) hv
  have hobj : objectsDir root <+: v := by
    rcases k.shardLoc_comparable hu with hle | hle
    · rcases List.prefix_concat_iff.1 hle with heq | hroot
      · exact heq ▸ List.prefix_rfl
      · -- the root is there, and what is above it
        obtain ⟨m, t, size, hlook⟩ := FS.isDir_iff.1 hl.isDir
        obtain ⟨w, rfl⟩ := hroot
        cases (FS.lookup_append_of_none hnone w).symm.trans hlook
    · exact hle
  refine hl.edited hedit hobj ?_
  rintro nd ⟨⟩
  rfl

theorem commit_cases (fs : FS) (r : Except Errno FS) :
    (∃ e, r = .error e ∧ Kernel.commit fs r = (.error e, fs)) ∨
      ∃ fs', r = .ok fs' ∧ Kernel.commit fs r = (.ok (), fs') := by
  cases r with
  | ok fs' => exact .inr ⟨fs', rfl, rfl⟩
  | error e => exact .inl ⟨e, rfl, rfl⟩

theorem outcome_look {o : FsOp} {r : o.Res} (ho : Looks o) (h : Posix.Outcome K o fs r fs') :
    fs' = fs := by
  cases h with
  | done => exact handle_looks ho fs
  | failed => rfl
  | torn e h => cases h <;> exact ho.elim

/-- What a store operation may come to. -/
theorem StoreOp.outcome {o : FsOp} {r : o.Res} (ho : StoreOp root o) (hl : Layout root fs)
    (h : Posix.Outcome K o fs r fs') : Beneath root fs fs' := by
  cases ho with
  | look ho =>
    obtain rfl := outcome_look ho h
    exact .refl hl
  | mkdir k hu =>
    cases h with
    | done =>
      show Beneath root fs (Kernel.commit fs _).2
      rcases commit_cases fs (fs.createDir K (Loc.toPath _)) with ⟨e, -, heq⟩ | ⟨fs₁, h, heq⟩ <;>
        rw [heq]
      · exact .refl hl
      · exact beneath_createDir hl k hu h
    | failed => exact .refl hl
    | torn e h => cases h
  | write k data =>
    cases h with
    | done =>
      show Beneath root fs (Kernel.commit fs _).2
      rcases commit_cases fs (fs.write K (Loc.toPath (k.tempLoc root)) data)
        with ⟨e, -, heq⟩ | ⟨fs₁, h, heq⟩ <;> rw [heq]
      · exact .refl hl
      · exact beneath_write hl k h
    | failed => exact .refl hl
    | torn e h =>
      cases h with
      | write n h => exact beneath_write hl k h
  | copy k path =>
    cases h with
    | done =>
      show Beneath root fs (Kernel.commit fs _).2
      rcases commit_cases fs (fs.copy K path (Loc.toPath (k.tempLoc root)))
        with ⟨e, -, heq⟩ | ⟨fs₁, h, heq⟩ <;> rw [heq]
      · exact .refl hl
      · exact beneath_copy hl k h
    | failed => exact .refl hl
    | torn e h =>
      cases h with
      | copy n h => exact beneath_copy hl k h
  | rename k =>
    cases h with
    | done =>
      show Beneath root fs (Kernel.commit fs _).2
      rcases commit_cases fs (fs.rename (Loc.toPath (k.tempLoc root)) (Loc.toPath (k.loc root)))
        with ⟨e, -, heq⟩ | ⟨fs₁, h, heq⟩ <;> rw [heq]
      · exact .refl hl
      · exact beneath_rename hl k h
    | failed => exact .refl hl
    | torn e h => cases h

/-! ### Operations in a directory of files -/

section Files

variable {d : Loc} {n t : FileName}

theorem FilesDir.write_ok {data : Bytes} (hd : FilesDir fs d)
    (h : fs.write K (Loc.toPath (d ++ [n])) data = .ok fs') :
    ∃ m, fs'.lookup = Function.update fs.lookup (d ++ [n]) (some (.file data m K.now)) := by
  obtain ⟨v, m, hv, -, hedit⟩ := Posix.write_ok h
  obtain rfl := Except.ok.inj ((hd.resolve true n).symm.trans hv)
  exact ⟨m, hedit.update (hd.not_isDir n)⟩

/-- A write: it fails, or the file has new contents, all of them when it succeeds. -/
theorem outcome_write {data : Bytes} {r : (FsOp.write (Loc.toPath (d ++ [n])) data).Res}
    (hd : FilesDir fs d) (h : Posix.Outcome K (.write (Loc.toPath (d ++ [n])) data) fs r fs') :
    (fs' = fs ∧ ∃ e, r = .error e) ∨ ∃ b m, b <+: data ∧ (r = .ok () → b = data) ∧
      fs'.lookup = Function.update fs.lookup (d ++ [n]) (some (.file b m K.now)) := by
  cases h with
  | done =>
    show ((Kernel.commit fs _).2 = fs ∧ ∃ e, (Kernel.commit fs _).1 = _) ∨ ∃ b m, _ ∧
      ((Kernel.commit fs _).1 = _ → _) ∧ (Kernel.commit fs _).2.lookup = _
    rcases commit_cases fs (fs.write K (Loc.toPath (d ++ [n])) data)
      with ⟨e, -, heq⟩ | ⟨fs₁, h, heq⟩ <;> rw [heq]
    · exact .inl ⟨rfl, e, rfl⟩
    · obtain ⟨m, hup⟩ := hd.write_ok h
      exact .inr ⟨data, m, List.prefix_rfl, fun _ => rfl, hup⟩
  | failed e => exact .inl ⟨rfl, e, rfl⟩
  | torn e h =>
    cases h with
    | write k h =>
      obtain ⟨m, hup⟩ := hd.write_ok h
      exact .inr ⟨data.take k, m, List.take_prefix k data, nofun, hup⟩

/-- A rename: it fails, or the file has taken the other name. -/
theorem outcome_rename
    {r : (FsOp.rename (Loc.toPath (d ++ [t])) (Loc.toPath (d ++ [n]))).Res} (hd : FilesDir fs d)
    (h : Posix.Outcome K (.rename (Loc.toPath (d ++ [t])) (Loc.toPath (d ++ [n]))) fs r fs') :
    (fs' = fs ∧ ∃ e, r = .error e) ∨ r = .ok () ∧ fs.lookup (d ++ [t]) ≠ none ∧
      fs'.lookup = Function.update (Function.update fs.lookup (d ++ [t]) none) (d ++ [n])
        (fs.lookup (d ++ [t])) := by
  cases h with
  | done =>
    show ((Kernel.commit fs _).2 = fs ∧ ∃ e, (Kernel.commit fs _).1 = _) ∨
      (Kernel.commit fs _).1 = _ ∧ _ ∧ (Kernel.commit fs _).2.lookup = _
    rcases commit_cases fs (fs.rename (Loc.toPath (d ++ [t])) (Loc.toPath (d ++ [n])))
      with ⟨e, -, heq⟩ | ⟨fs₁, h, heq⟩ <;> rw [heq]
    · exact .inl ⟨rfl, e, rfl⟩
    · obtain ⟨u, v, nd, hu, hv, hnd, hndir, hvdir, hcase⟩ := rename_ok h
      obtain rfl := Except.ok.inj ((hd.resolve false t).symm.trans hu)
      obtain rfl := Except.ok.inj ((hd.resolve false n).symm.trans hv)
      refine .inr ⟨rfl, by rw [hnd]; nofun, ?_⟩
      rcases hcase with ⟨hself, rfl⟩ | ⟨hne, hout, hin⟩
      · rw [hself, Function.update_idem, Function.update_eq_self]
      · have hvdir' : (fs.remove (d ++ [t])).isDir (d ++ [n]) = false := by
          rw [FS.isDir, hout.update (hd.not_isDir t), Function.update_of_ne (Ne.symm hne)]
          exact hvdir
        rw [hin.update hvdir', hout.update (hd.not_isDir t), hnd]
  | failed e => exact .inl ⟨rfl, e, rfl⟩
  | torn e h => cases h

/-- Removing a file: it fails, or the file is gone. -/
theorem outcome_remove {p : PathBuf} {r : (FsOp.removeFile p).Res}
    (h : Posix.Outcome K (.removeFile p) fs r fs') :
    (fs' = fs ∧ ∃ e, r = .error e) ∨ ∃ v, fs.resolve false p = .ok v ∧ fs.isDir v = false ∧
      r = .ok () ∧ fs'.lookup = Function.update fs.lookup v none := by
  cases h with
  | done =>
    show ((Kernel.commit fs _).2 = fs ∧ ∃ e, (Kernel.commit fs _).1 = _) ∨
      ∃ v, _ ∧ _ ∧ (Kernel.commit fs _).1 = _ ∧ (Kernel.commit fs _).2.lookup = _
    rcases commit_cases fs (fs.removeFile p) with ⟨e, -, heq⟩ | ⟨fs₁, h, heq⟩ <;> rw [heq]
    · exact .inl ⟨rfl, e, rfl⟩
    · obtain ⟨v, nd, hv, hl, hnd, hedit⟩ := removeFile_ok h
      have hdir : fs.isDir v = false := by rw [FS.isDir, hl, Option.any_some, hnd]
      exact .inr ⟨v, hv, hdir, rfl, hedit.update hdir⟩
  | failed e => exact .inl ⟨rfl, e, rfl⟩
  | torn e h => cases h

theorem outcome_removeFile {r : (FsOp.removeFile (Loc.toPath (d ++ [n]))).Res}
    (hd : FilesDir fs d) (h : Posix.Outcome K (.removeFile (Loc.toPath (d ++ [n]))) fs r fs') :
    (fs' = fs ∧ ∃ e, r = .error e) ∨
      r = .ok () ∧ fs'.lookup = Function.update fs.lookup (d ++ [n]) none := by
  refine (outcome_remove h).imp_right fun ⟨v, hv, _, hr, hup⟩ => ⟨hr, ?_⟩
  obtain rfl := Except.ok.inj ((hd.resolve false n).symm.trans hv)
  exact hup

end Files

/-! ### The rules -/

/-- JSON of a new snapshot with valid tags. -/
def Describes (J : Serde) (u : Uuid) (tags : List String) (json : String) : Prop :=
  ∃ snap : Snapshot, snap.id = u.text ∧ snap.tags = tags ∧
    (∀ x ∈ tags, ∃ t : Tag, t.text = x) ∧ J.encodeSnapshot snap = .ok json

/-- The temporary file of a snapshot file. -/
def Uuid.tempLoc (u : Uuid) (root : Loc) : Loc := snapshotsLoc root ++ [u.plain.fileName.temp]

section Rules

variable {σ : Type} {M : Setting FsOp FsOp.Res σ}

/-- `createSnapshot` by its operations: store operations keep `P`, writing and renaming the
snapshot file lead to `S` and `T`, and for each tag writing the ref and renaming it lead to `U` and
to the next `T`. -/
theorem spec_createSnapshot_ops (hH : H.Lawful) {reads : Loc → ℕ → ℕ} {fuel : ℕ} (now : ℤ)
    (u : Uuid) (workspace : PathBuf) (message : Option String) {tags : Option (List String)}
    {P E : σ → Prop} {S : String → σ → Prop} {T : String → List String → σ → Prop}
    {U : String → List String → Tag → σ → Prop} (hP : M.Stable P)
    (hstore : ∀ o s, StoreOp root o → M.inv s → P s →
      (∀ t, M.torn o s t → M.inv t) ∧ M.inv (M.handle o s).2 ∧ P (M.handle o s).2)
    (hE : ∀ s, M.inv s → P s → E s)
    (hwrite : ∀ json, Describes J u (sortedTags tags) json →
      Spec M P (IoM.op (.write (Loc.toPath (u.tempLoc root)) (utf8 json)))
        (fun _ => S json) (fun _ => E))
    (hrename : ∀ json, Describes J u (sortedTags tags) json →
      Spec M (S json) (IoM.op (.rename (Loc.toPath (u.tempLoc root))
        (Loc.toPath (snapshotLoc root u.plain)))) (fun _ => T json []) (fun _ => E))
    (href : ∀ json done (t : Tag) rest, Describes J u (sortedTags tags) json →
      sortedTags tags = done ++ t.text :: rest →
      Spec M (T json done) (IoM.op (.write (Loc.toPath (t.tempLoc root)) (utf8 u.text)))
        (fun _ => U json done t) (fun _ => E))
    (htag : ∀ json done (t : Tag) rest, Describes J u (sortedTags tags) json →
      sortedTags tags = done ++ t.text :: rest →
      Spec M (U json done t) (IoM.op (.rename (Loc.toPath (t.tempLoc root))
        (Loc.toPath (t.loc root)))) (fun _ => T json (done ++ [t.text])) (fun _ => E)) :
    Spec M P
      ((managerAt root).createSnapshot H J reads fuel now u.text workspace message tags)
      (fun r s => r = u.text ∧ ∃ json, Describes J u (sortedTags tags) json ∧
        T json (sortedTags tags) s)
      (fun _ => E) := by
  have hissues : ∀ {α : Type} {p : Action α}, Fallible.Issues (StoreOp root) p →
      Spec M P p (fun _ => P) (fun _ => E) :=
    fun hp => (Spec.issues hp hP hstore).conseq (fun _ h => h) (fun _ _ _ h => h)
      fun _ s hi h => hE s hi h
  rw [createSnapshot_eq]
  refine Spec.bind (N := fun _ s => P s ∧ ∀ x ∈ sortedTags tags, ∃ t : Tag, t.text = x)
    ?_ fun _ s hi hs => ?_
  · refine (Spec.forM (I := fun done s => P s ∧ ∀ x ∈ done, ∃ t : Tag, t.text = x)
      fun done x rest _ => ?_).pre fun s hs => ⟨hs, by simp⟩
    refine Spec.ofExcept (fun a s hx _ hs => ⟨hs.1, fun y hy => ?_⟩)
      fun _ s _ hi hs => hE s hi hs.1
    rcases List.mem_append.1 hy with h | h
    · exact hs.2 y h
    · rw [List.mem_singleton.1 h]
      exact ⟨⟨x, hx⟩, rfl⟩
  obtain ⟨hs, hvalid⟩ := hs
  revert s
  show ∀ s, _ → P s → _
  by_cases hnow : now < 0
  · rw [if_pos hnow]
    exact Spec.fail hE
  rw [if_neg hnow]
  refine Spec.bind (hissues (issues_forM fun tag _ => issues_requireNew tag)) fun _ => ?_
  refine Spec.bind (hissues (issues_buildTree hH reads fuel workspace)) fun built => ?_
  refine Spec.bind (N := fun json s => P s ∧ Describes J u (sortedTags tags) json) ?_
    fun json s hi hs => ?_
  · exact Spec.ofExcept (fun json s hj _ hs => ⟨hs, _, rfl, rfl, hvalid, hj⟩)
      fun _ s _ hi hs => hE s hi hs
  obtain ⟨hs, hjson⟩ := hs
  revert s
  show ∀ s, _ → P s → _
  rw [saveJson_eq root u.plain]
  refine Spec.bind (N := fun _ => T json []) (Spec.bind (Spec.mapError (hwrite json hjson))
    fun _ => Spec.mapError (hrename json hjson)) fun _ => ?_
  refine Spec.bind (N := fun _ => T json (sortedTags tags)) (Spec.forM (I := T json)
    fun done x rest heq => ?_) fun _ => Spec.pure fun _ _ hs => ⟨rfl, json, hjson, hs⟩
  obtain ⟨t, rfl⟩ := hvalid x (by rw [heq]; simp)
  rw [addTag_eq]
  exact Spec.bind (Spec.mapError (href json done t rest hjson heq))
    fun _ => Spec.mapError (htag json done t rest hjson heq)

/-- `deleteSnapshot` by its parts: `N snap done` holds when the refs of `done` have been removed. -/
theorem spec_deleteSnapshot_ops {id : String} {P Q E : σ → Prop}
    {N : Snapshot → List String → σ → Prop}
    (hload : Spec M P ((managerAt root).loadSnapshot J id) (fun snap => N snap []) (fun _ => E))
    (htag : ∀ snap done x rest, snap.tags = done ++ x :: rest →
      Spec M (N snap done) ((managerAt root).removeTag x) (fun _ => N snap (done ++ [x]))
        (fun _ => E))
    (hfile : ∀ snap, Spec M (N snap snap.tags)
      (IoM.op (.removeFile ((managerAt root).snapshotFile id))) (fun _ => Q) (fun _ => E)) :
    Spec M P ((managerAt root).deleteSnapshot J id) (fun _ => Q) (fun _ => E) := by
  unfold SnapshotManager.deleteSnapshot SnapshotManager.getSnapshot
  rw [Fallible.bind_assoc]
  refine Spec.bind hload fun snap => ?_
  show Spec M (N snap []) (do
    snap.tags.forM fun tag =>
      withContext s!"Failed to remove tag ref '{tag}'" ((managerAt root).removeTag tag)
    withContext s!"Failed to delete snapshot {id}"
      (io (IoM.op (.removeFile ((managerAt root).snapshotFile id))))) _ _
  exact Spec.bind (Spec.forM (I := N snap)
    fun done x rest heq => Spec.mapError (htag snap done x rest heq))
    fun _ => Spec.mapError (Spec.mapError (hfile snap))

end Rules

end SandD
