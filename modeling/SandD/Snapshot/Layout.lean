import SandD.Snapshot.Manager
import SandD.Snapshot.Objects

/-!
# The layout of a snapshot root

Beside the objects, a snapshot root has a directory of snapshot files and one of tag refs.

* `FileName.temp`: the name of the temporary file beside a file;
* `Uuid`, `Tag`: the identifiers and the tags that occur, with their places below a root;
* `managerAt`, `snapshotsLoc`, `tagsLoc`: the directories of a snapshot root;
* `FilesDir`, `spec_replace`: directories of files, and the writing of a file in one;
* `Layout`: a snapshot root in order.
-/

namespace Posix

/-! ### Names of temporary files -/

theorem mem_fileStem {b : Bytes} {x : UInt8} (h : x ∈ fileStem b) : x ∈ b := by
  rw [fileStem, splitExtension] at h
  split at h
  · exact h
  · have := List.mem_reverse.1 (List.mem_of_mem_dropLast h)
    exact List.mem_reverse.1 ((List.dropWhile_sublist _).subset this)

theorem fileStem_ne_nil {b : Bytes} (h : b ≠ []) : fileStem b ≠ [] := by
  rw [fileStem, splitExtension]
  split
  · exact h
  · assumption

/-- A name with an extension is taken apart at its last dot. -/
theorem splitExtension_append {s e : Bytes} (hs : s ≠ []) (he : dot ∉ e) :
    splitExtension (s ++ dot :: e) = (s, some e) := by
  have hrev : (s ++ dot :: e).reverse = e.reverse ++ dot :: s.reverse := by simp
  have hne : ∀ x ∈ e.reverse, decide (x ≠ dot) = true := by
    intro x hx
    have hne : x ≠ dot := fun h => he (h ▸ List.mem_reverse.1 hx)
    simpa using hne
  have hdrop : (s ++ dot :: e).reverse.dropWhile (fun b => decide (b ≠ dot)) =
      dot :: s.reverse := by
    rw [hrev, List.dropWhile_append_of_pos hne]
    simp
  have htake : (s ++ dot :: e).reverse.takeWhile (fun b => decide (b ≠ dot)) = e.reverse := by
    rw [hrev, List.takeWhile_append_of_pos hne]
    simp
  rw [splitExtension, hdrop, htake, List.reverse_cons, List.reverse_reverse, List.dropLast_concat,
    List.reverse_reverse]
  cases s with
  | nil => exact absurd rfl hs
  | cons b s => rfl

/-- The stem of a name with an extension. -/
theorem fileStem_append {s e : Bytes} (hs : s ≠ []) (he : dot ∉ e) :
    fileStem (s ++ dot :: e) = s := congrArg Prod.fst (splitExtension_append hs he)

theorem extension_append {s e : Bytes} (hs : s ≠ []) (he : dot ∉ e) :
    extension (s ++ dot :: e) = some e := congrArg Prod.snd (splitExtension_append hs he)

theorem validName_temp {b : Bytes} (h : ValidName b) :
    ValidName (fileStem b ++ dot :: utf8 "tmp") := by
  have hmem : ∀ {x : UInt8}, x ∉ b → x ∉ dot :: utf8 "tmp" →
      x ∉ fileStem b ++ dot :: utf8 "tmp" := by
    intro x h1 h2 h
    exact (List.mem_append.1 h).elim (fun h => h1 (mem_fileStem h)) h2
  have hlen : 4 ≤ (fileStem b ++ dot :: utf8 "tmp").length := by
    rw [List.length_append]
    exact Nat.le_add_left _ _
  refine ⟨fun h => ?_, hmem h.2.1 (by decide), hmem h.2.2.1 (by decide), fun h => ?_,
    fun h => ?_⟩ <;> rw [h] at hlen <;> simp at hlen

/-- The name of the temporary file beside a file. -/
def FileName.temp (n : FileName) : FileName :=
  ⟨fileStem n.bytes ++ dot :: utf8 "tmp", validName_temp n.valid⟩

/-- `with_extension("tmp")` of a file. -/
theorem FileName.withExtension_tmp (n : FileName) :
    n.withExtension (utf8 "tmp") = .name n.temp := by
  rw [FileName.withExtension, Comp.ofBytes_of_valid (validName_temp n.valid)]
  rfl

theorem withExtension_toPath (d : Loc) (n : FileName) :
    PathBuf.withExtension (Loc.toPath (d ++ [n])) (utf8 "tmp") = Loc.toPath (d ++ [n.temp]) := by
  rw [Loc.toPath_concat, Loc.toPath_concat, PathBuf.withExtension_concat,
    FileName.withExtension_tmp]

theorem join_toPath (d : Loc) {b : Bytes} (h : ValidName b) :
    PathBuf.join (Loc.toPath d) b = Loc.toPath (d ++ [⟨b, h⟩]) := by
  rw [PathBuf.join_of_valid _ h, Loc.toPath_concat]

end Posix

namespace SandD

open Posix
open Fallible (Spec Ends)

/-! ### Identifiers and tags -/

/-- What `Uuid::new_v4` draws, as far as it matters: hexadecimal digits and hyphens. -/
structure Uuid where
  text : String
  nonempty : text ≠ ""
  form : ∀ c ∈ text.toList, isHexDigit c = true ∨ c = '-'

/-- A check of all letters at once, which the kernel evaluates. -/
theorem Uuid.form_of_all {text : String}
    (h : (text.toList.all fun c => isHexDigit c || c == '-') = true) :
    ∀ c ∈ text.toList, isHexDigit c = true ∨ c = '-' := by
  intro c hc
  simpa only [Bool.or_eq_true, beq_iff_eq] using List.all_eq_true.1 h c hc

@[ext] theorem Uuid.ext {u v : Uuid} (h : u.text = v.text) : u = v := by
  cases u; cases v; cases h; rfl

theorem Uuid.notMem (u : Uuid) {c : Char} (h : isHexDigit c = false) (hc : c ≠ '-') :
    c ∉ u.text.toList := fun hmem => by
  rcases u.form c hmem with h' | h'
  · rw [h] at h'
    cases h'
  · exact hc h'

/-- An identifier that stays in its directory. -/
def Plain (id : String) : Prop := '/' ∉ id.toList ∧ Char.ofNat 0 ∉ id.toList

theorem Uuid.plain (u : Uuid) : Plain u.text :=
  ⟨u.notMem (by decide) (by decide), u.notMem (by decide) (by decide)⟩

theorem Plain.validName {id : String} (h : Plain id) : ValidName (utf8 s!"{id}.json") := by
  have htext : s!"{id}.json" = id ++ ".json" := by simp [toString]
  have hlist : s!"{id}.json".toList = id.toList ++ ".json".toList := by simp [htext]
  have hlen : 5 ≤ s!"{id}.json".toList.length := by
    rw [hlist, List.length_append]
    exact Nat.le_add_left _ _
  refine validName_utf8 (fun he => ?_) (fun hm => ?_) (fun hm => ?_) (fun he => ?_) fun he => ?_
  · rw [he] at hlen
    simp at hlen
  · rw [hlist] at hm
    exact (List.mem_append.1 hm).elim h.1 (by decide)
  · rw [hlist] at hm
    exact (List.mem_append.1 hm).elim h.2 (by decide)
  · rw [he] at hlen
    simp at hlen
  · rw [he] at hlen
    simp at hlen

/-- The name of the snapshot file. -/
def Plain.fileName {id : String} (h : Plain id) : FileName := ⟨utf8 s!"{id}.json", h.validName⟩

theorem utf8_snapshotFile (id : String) : utf8 s!"{id}.json" = utf8 id ++ utf8 ".json" := by
  rw [show s!"{id}.json" = id ++ ".json" by simp [toString], utf8_append]

/-- A tag that was let through by `validateTagName`. -/
structure Tag where
  text : String
  valid : SnapshotManager.validateTagName text = .ok ()

@[ext] theorem Tag.ext {s t : Tag} (h : s.text = t.text) : s = t := by
  cases s; cases t; cases h; rfl

theorem validName_of_validateTagName {t : String}
    (h : SnapshotManager.validateTagName t = .ok ()) : ValidName (utf8 t) := by
  rw [SnapshotManager.validateTagName] at h
  split_ifs at h with h1 h2 h3 h4 h5 h6
  rw [not_or] at h4 h5
  refine validName_utf8 h1 h4.1 (fun hm => h6 ?_) h5.1 h5.2
  exact List.any_eq_true.2 ⟨_, hm, by decide⟩

namespace Tag

variable (t : Tag)

/-- The name of the tag ref. -/
def name : FileName := ⟨utf8 t.text, validName_of_validateTagName t.valid⟩

theorem name_injective : Function.Injective Tag.name := fun _ _ h =>
  Tag.ext (utf8_injective (congrArg FileName.bytes h))

end Tag

/-! ### Places -/

/-- The directory of the snapshot files. -/
def snapshotsLoc (root : Loc) : Loc := root ++ [⟨utf8 "snapshots", by decide⟩]

/-- The directory of the tag refs. -/
def tagsLoc (root : Loc) : Loc := root ++ [⟨utf8 "refs", by decide⟩, ⟨utf8 "tags", by decide⟩]

/-- The manager of the snapshot root at a place. -/
abbrev managerAt (root : Loc) : SnapshotManager := .ofRoot (Loc.toPath root)

theorem managerAt_store (root : Loc) : (managerAt root).store = storeAt root := rfl

theorem managerAt_snapshotsDir (root : Loc) :
    (managerAt root).snapshotsDir = Loc.toPath (snapshotsLoc root) :=
  join_toPath root (by decide : ValidName (utf8 "snapshots"))

theorem managerAt_tagsDir (root : Loc) :
    (managerAt root).tagsDir = Loc.toPath (tagsLoc root) := by
  have h1 := join_toPath root (by decide : ValidName (utf8 "refs"))
  have h2 := join_toPath (root ++ [⟨utf8 "refs", by decide⟩])
    (by decide : ValidName (utf8 "tags"))
  rw [← h1] at h2
  refine h2.trans ?_
  rw [tagsLoc, List.append_assoc]
  rfl

/-- The place of a snapshot file. -/
def snapshotLoc (root : Loc) {id : String} (h : Plain id) : Loc :=
  snapshotsLoc root ++ [h.fileName]

theorem snapshotFile_eq (root : Loc) {id : String} (h : Plain id) :
    (managerAt root).snapshotFile id = Loc.toPath (snapshotLoc root h) := by
  rw [SnapshotManager.snapshotFile, managerAt_snapshotsDir, join_toPath _ h.validName]
  rfl

/-- The place of a tag ref. -/
def Tag.loc (t : Tag) (root : Loc) : Loc := tagsLoc root ++ [t.name]

/-- The place of the temporary file for a tag ref. -/
def Tag.tempLoc (t : Tag) (root : Loc) : Loc := tagsLoc root ++ [t.name.temp]

theorem Tag.file_eq (t : Tag) (root : Loc) :
    PathBuf.join (managerAt root).tagsDir (utf8 t.text) = Loc.toPath (t.loc root) := by
  rw [managerAt_tagsDir, join_toPath _ (validName_of_validateTagName t.valid)]
  rfl

theorem Tag.loc_injective (root : Loc) : Function.Injective fun t : Tag => t.loc root :=
  fun _ _ h => Tag.name_injective (by simpa [Tag.loc] using h)

/-- The objects, the snapshot files and the tag refs are apart. -/
theorem not_objectsDir_prefix_snapshots (root v : Loc) :
    ¬ objectsDir root <+: snapshotsLoc root ++ v := by
  rw [objectsDir, snapshotsLoc, List.append_assoc, List.prefix_append_right_inj]
  simp [List.cons_prefix_cons]
  decide

theorem not_objectsDir_prefix_tags (root v : Loc) :
    ¬ objectsDir root <+: tagsLoc root ++ v := by
  rw [objectsDir, tagsLoc, List.append_assoc, List.prefix_append_right_inj]
  simp [List.cons_prefix_cons]
  decide

theorem not_snapshots_prefix_tags (root v : Loc) :
    ¬ snapshotsLoc root <+: tagsLoc root ++ v := by
  rw [snapshotsLoc, tagsLoc, List.append_assoc, List.prefix_append_right_inj]
  simp [List.cons_prefix_cons]
  decide

/-! ### Directories of files -/

/-- A directory with nothing but regular files in it, and no link on the way to it. -/
structure FilesDir (fs : FS) (d : Loc) : Prop where
  clear : Clear fs d
  isDir : fs.isDir d
  file : ∀ n nd, fs.lookup (d ++ [n]) = some nd → ∃ data m t, nd = .file data m t

namespace FilesDir

variable {fs fs' : FS} {d : Loc} {n : FileName}

theorem resolve (h : FilesDir fs d) (follow : Bool) (n : FileName) :
    fs.resolve follow (Loc.toPath (d ++ [n])) = .ok (d ++ [n]) :=
  h.clear.resolve_child (Or.inr (List.prefix_append _ _)) h.isDir

theorem cases (h : FilesDir fs d) (n : FileName) :
    fs.lookup (d ++ [n]) = none ∨ ∃ data m t, fs.lookup (d ++ [n]) = some (.file data m t) := by
  rcases hl : fs.lookup (d ++ [n]) with _ | nd
  · exact Or.inl rfl
  · obtain ⟨data, m, t, rfl⟩ := h.file n nd hl
    exact Or.inr ⟨data, m, t, rfl⟩

theorem not_isDir (h : FilesDir fs d) (n : FileName) : fs.isDir (d ++ [n]) = false := by
  rcases h.cases n with hl | ⟨data, m, t, hl⟩
  · exact isDir_of_none hl
  · exact isDir_of_file hl

/-- What is at a place above or below the directory is all that counts. -/
theorem congr (h : FilesDir fs d)
    (heq : ∀ v, v <+: d ∨ d <+: v → fs'.lookup v = fs.lookup v) : FilesDir fs' d where
  clear v hv := by
    rw [FS.isLink, heq v hv]
    exact h.clear v hv
  isDir := by
    rw [FS.isDir, heq d (Or.inl List.prefix_rfl)]
    exact h.isDir
  file n nd hl := h.file n nd (by rw [← heq _ (Or.inr (List.prefix_append _ _)), hl])

/-- A file in the directory may come, go and change. -/
theorem update (h : FilesDir fs d) {new : Option Node}
    (hnew : new = none ∨ ∃ data m t, new = some (.file data m t))
    (hup : fs'.lookup = Function.update fs.lookup (d ++ [n]) new) : FilesDir fs' d where
  clear v hv := by
    by_cases heq : v = d ++ [n]
    · rw [FS.isLink, hup, heq, Function.update_self]
      rcases hnew with rfl | ⟨data, m, t, rfl⟩ <;> simp [Node.isLink]
    · rw [FS.isLink, hup, Function.update_of_ne heq]
      exact h.clear v hv
  isDir := by
    rw [FS.isDir, hup, Function.update_of_ne (by simp)]
    exact h.isDir
  file n' nd hl := by
    by_cases heq : d ++ [n'] = d ++ [n]
    · rw [hup, heq, Function.update_self] at hl
      rcases hnew with rfl | ⟨data, m, t, rfl⟩
      · cases hl
      · cases hl
        exact ⟨data, m, t, rfl⟩
    · rw [hup, Function.update_of_ne heq] at hl
      exact h.file n' nd hl

theorem rewrites (h : FilesDir fs d) (hr : Rewrites fs fs') : FilesDir fs' d where
  clear v hv := by
    rw [hr.isLink]
    exact h.clear v hv
  isDir := by
    rw [hr.isDir]
    exact h.isDir
  file n nd hl := by
    rcases hr (d ++ [n]) with heq | ⟨b, m, t, b', m', t', -, hl'⟩
    · exact h.file n nd (heq ▸ hl)
    · rw [hl'] at hl
      cases hl
      exact ⟨b', m', t', rfl⟩

end FilesDir

section Replace

variable {K : Kernel} {σ : Type} {W : World K σ} {A B Q : σ → Prop} {d : Loc} {n t : FileName}
  {data : Bytes}

/-- A file is given contents by way of a temporary file. -/
theorem spec_replace (hA : W.Stable A) (hB : W.Stable B)
    (hdA : ∀ s, W.inv s → A s → FilesDir (W.fs s) d)
    (hdB : ∀ s, W.inv s → B s → FilesDir (W.fs s) d)
    (hwrite : ∀ s s' data' m, W.inv s → A s →
      (W.fs s').lookup =
        Function.update (W.fs s).lookup (d ++ [t]) (some (.file data' m K.now)) →
      W.inv s' ∧ (data' = data → B s'))
    (htemp : ∀ s, W.inv s → B s → (W.fs s).lookup (d ++ [t]) ≠ none)
    (hrename : ∀ s s', W.inv s → B s → (t = n → W.fs s' = W.fs s) →
      (t ≠ n → (W.fs s').lookup = Function.update
        (Function.update (W.fs s).lookup (d ++ [t]) none) (d ++ [n])
          ((W.fs s).lookup (d ++ [t]))) → W.inv s' ∧ Q s') :
    Spec W.toSetting A (do
        io (IoM.op (.write (Loc.toPath (d ++ [t])) data))
        io (IoM.op (.rename (Loc.toPath (d ++ [t])) (Loc.toPath (d ++ [n])))))
      (fun _ => Q) (fun _ _ => False) := by
  refine Spec.bind (N := fun _ => B) (Spec.mapError (spec_writeAt (v := d ++ [t]) hA
    (fun s hi hs => (hdA s hi hs).resolve true t)
    (fun s s' data' m hi hs _ hup => hwrite s s' data' m hi hs hup)
    fun s s' hi hs hne hnf _ => ?_)) fun _ => ?_
  · rcases (hdA s hi hs).cases t with hl | ⟨b, m, tm, hl⟩
    · exact absurd hl hne
    · exact absurd hl (hnf b m tm)
  · refine Spec.mapError (spec_renameAt (u := d ++ [t]) (v := d ++ [n]) hB
      (fun s hi hs => (hdB s hi hs).resolve false t)
      (fun s hi hs => (hdB s hi hs).resolve false n)
      (fun s hi hs => ((hdB s hi hs).cases t).resolve_left (htemp s hi hs))
      (fun s hi hs => (hdB s hi hs).not_isDir n) fun s s' hi hs heq hne => ?_)
    refine hrename s s' hi hs (fun h => heq (by rw [h])) fun h => hne fun h' => h ?_
    simpa using h'

end Replace

/-- A snapshot root in order, as far as directories go. -/
structure Layout (root : Loc) (fs : FS) : Prop where
  isDir : fs.isDir root
  objects : Clear fs (objectsDir root)
  snapshots : FilesDir fs (snapshotsLoc root)
  tags : FilesDir fs (tagsLoc root)

/-- A snapshot root without objects, snapshots and tags. -/
structure EmptyStore (root : Loc) (fs : FS) : Prop where
  layout : Layout root fs
  objects : fs.lookup (objectsDir root) = none
  snapshots : ∀ n, fs.lookup (snapshotsLoc root ++ [n]) = none
  tags : ∀ n, fs.lookup (tagsLoc root ++ [n]) = none

section New

open Fallible (exec)

variable {K : Kernel} {root : Loc} {fs fs' : FS}

/-- `create_dir_all` on a path without links that succeeds. -/
theorem createDirAll_ok {q : Loc} (hq : fs.LinkFree true [] q)
    (h : exec K.handle (IoM.createDirAll (Loc.toPath q)) fs = (.ok (), fs')) :
    Mkdirs K fs [] q fs' ∧ fs'.isDir q := by
  have hx := exec_createDirAll (K := K) (FS.leads_nil fs) hq
  simp only [List.nil_append, IoM.run, h] at hx
  exact hx

theorem new_ok {r : SnapshotManager}
    (h : exec K.handle (SnapshotManager.new (Loc.toPath root)) fs = (.ok r, fs')) :
    ∃ fs₁, exec K.handle (IoM.createDirAll (Loc.toPath (snapshotsLoc root))) fs = (.ok (), fs₁) ∧
      exec K.handle (IoM.createDirAll (Loc.toPath (tagsLoc root))) fs₁ = (.ok (), fs') := by
  rw [SnapshotManager.new] at h
  simp only [Fallible.exec_bind, withContext, io, Fallible.exec_mapError, managerAt_snapshotsDir,
    managerAt_tagsDir] at h
  rcases h₁ : exec K.handle (IoM.createDirAll (Loc.toPath (snapshotsLoc root))) fs with
    ⟨e | _, fs₁⟩ <;> rw [h₁] at h
  · cases h
  · rcases h₂ : exec K.handle (IoM.createDirAll (Loc.toPath (tagsLoc root))) fs₁ with
      ⟨e | _, fs₂⟩ <;> simp only [Except.mapError, h₂] at h <;> cases h
    exact ⟨fs₁, rfl, h₂⟩

/-- `SnapshotManager::new` makes an empty store where there was nothing. -/
theorem emptyStore_new (hdir : fs.isDir root.dropLast) (hnone : fs.lookup root = none)
    {r : SnapshotManager}
    (h : exec K.handle (SnapshotManager.new (Loc.toPath root)) fs = (.ok r, fs')) :
    EmptyStore root fs' := by
  have hbelow : ∀ v, root <+: v → fs.lookup v = none := by
    rintro v ⟨w, rfl⟩
    exact FS.lookup_append_of_none hnone w
  have habove : ∀ v, v <+: root → v ≠ root → fs.isDir v := by
    intro v hv hne
    have hv' : v <+: root.dropLast := by
      obtain ⟨w, rfl⟩ := hv
      rw [List.dropLast_append_of_ne_nil (by rintro rfl; simp at hne)]
      exact List.prefix_append _ _
    obtain ⟨m, t, s, hl⟩ := FS.isDir_iff.1 hdir
    by_cases heq : v = root.dropLast
    · exact heq ▸ hdir
    · exact FS.isDir_of_prefix (by rw [hl]; rfl) hv' heq
  have hlink : ∀ v, v <+: root ∨ root <+: v → ¬ fs.isLink v := by
    intro v hv hl
    by_cases hp : root <+: v
    · simp [FS.isLink, hbelow v hp] at hl
    · have hv := hv.resolve_right hp
      exact FS.not_isLink_of_isDir (habove v hv (by rintro rfl; exact hp hv)) hl
  have hfree : ∀ {fs₁ : FS} {q : Loc}, (∀ v, fs₁.isLink v → fs.isLink v) → root <+: q →
      fs₁.LinkFree true [] q := by
    intro fs₁ q hsub hq u hu _ _ hl
    exact hlink u (List.prefix_or_prefix_of_prefix hu hq) (hsub _ hl)
  obtain ⟨fs₁, h₁, h₂⟩ := new_ok h
  obtain ⟨m₁, d₁⟩ := createDirAll_ok (hfree (fun _ h => h) (List.prefix_append _ _)) h₁
  obtain ⟨m₂, d₂⟩ := createDirAll_ok (hfree (fun _ h => m₁.isLink h) (List.prefix_append _ _)) h₂
  have hsub : ∀ v, fs'.isLink v → fs.isLink v := fun v hl => m₁.isLink (m₂.isLink hl)
  have hclear : ∀ d, root <+: d → Clear fs' d := by
    intro d hd v hv hl
    refine hlink v ?_ (hsub v hl)
    rcases hv with hv | hv
    · exact List.prefix_or_prefix_of_prefix hv hd
    · exact Or.inr (hd.trans hv)
  -- below the root there is nothing but what was made
  have hnew : ∀ v, root <+: v → fs'.lookup v ≠ none → v <+: snapshotsLoc root ∨
      v <+: tagsLoc root := by
    intro v hv hne
    rcases m₂ v with heq | ⟨w, hw, -, rfl, -, -⟩
    · rcases m₁ v with heq' | ⟨w, hw, -, rfl, -, -⟩
      · rw [heq, heq', hbelow v hv] at hne
        exact absurd rfl hne
      · exact Or.inl hw
    · exact Or.inr hw
  have hempty : ∀ d n, d = snapshotsLoc root ∨ d = tagsLoc root →
      fs'.lookup (d ++ [n]) = none := by
    intro d n hd
    by_contra hne
    have hroot : root <+: d := by
      rcases hd with rfl | rfl <;> exact List.prefix_append _ _
    rcases hnew _ (hroot.trans (List.prefix_append _ _)) hne with hp | hp <;>
      rcases hd with rfl | rfl
    · exact FS.not_prefix_concat _ n hp
    · have := hp.length_le
      simp [snapshotsLoc, tagsLoc] at this
    · rw [snapshotsLoc, tagsLoc, List.append_assoc, List.prefix_append_right_inj,
        List.singleton_append, List.cons_prefix_cons] at hp
      exact absurd hp.1 (by decide)
    · exact FS.not_prefix_concat _ n hp
  have hfiles : ∀ d, d = snapshotsLoc root ∨ d = tagsLoc root → fs'.isDir d →
      FilesDir fs' d := by
    intro d hd hd'
    refine ⟨hclear d ?_, hd', fun n nd hl => ?_⟩
    · rcases hd with rfl | rfl <;> exact List.prefix_append _ _
    · rw [hempty d n hd] at hl
      cases hl
  have hobj : fs'.lookup (objectsDir root) = none := by
    by_contra hne
    rcases hnew _ (List.prefix_append _ _) hne with hp | hp
    · exact not_objectsDir_prefix_snapshots root [] (by rwa [List.append_nil])
    · exact not_objectsDir_prefix_tags root [] (by rwa [List.append_nil])
  have hroot : fs'.isDir root := by
    obtain ⟨m, t, s, hl⟩ := FS.isDir_iff.1 d₂
    refine FS.isDir_of_prefix (by rw [hl]; rfl) (List.prefix_append _ _) fun heq => ?_
    have := congrArg List.length heq
    simp at this
  exact ⟨⟨hroot, hclear _ (List.prefix_append _ _),
    hfiles _ (Or.inl rfl) ((m₂.keeps _).1 d₁), hfiles _ (Or.inr rfl) d₂⟩, hobj,
    fun n => hempty _ n (Or.inl rfl), fun n => hempty _ n (Or.inr rfl)⟩

end New

end SandD
