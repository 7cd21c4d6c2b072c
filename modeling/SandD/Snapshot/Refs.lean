import SandD.Snapshot.Create
import SandD.Snapshot.ObjectMap

/-!
# Snapshot files and tag refs

What `createSnapshot` and `deleteSnapshot` do to a snapshot root when they run alone.

* `snapshotAt`, `refAt`: what is stored under an identifier and under a tag;
* `Records`: the invariant of the snapshot files;
* `Framed`: what putting objects may have changed;
* `spec_createSnapshot`, `spec_deleteSnapshot`.
-/

namespace SandD

open Posix ObjectStore SnapshotManager
open Fallible (Spec Ends exec)

variable {K : Kernel} {H : Blake3} {J : Serde} {root : Loc} {fs fs' : FS}

/-! ### What is stored -/

/-- The bytes of a regular file. -/
def fileAt (fs : FS) (v : Loc) : Option Bytes :=
  match fs.lookup v with
  | some (.file data _ _) => some data
  | _ => none

theorem fileAt_eq_some {v : Loc} {data : Bytes} :
    fileAt fs v = some data ↔ ∃ m t, fs.lookup v = some (.file data m t) := by
  unfold fileAt
  rcases fs.lookup v with _ | (_ | _ | _ | _) <;> simp

theorem fileAt_congr {v : Loc} (h : fs'.lookup v = fs.lookup v) : fileAt fs' v = fileAt fs v := by
  rw [fileAt, h, fileAt]

/-- The snapshot that is stored under an identifier. -/
def snapshotAt (J : Serde) (root : Loc) (fs : FS) (u : Uuid) : Option Snapshot :=
  (fileAt fs (snapshotLoc root u.plain)).bind fun b => (fromUtf8 b).bind J.snapshotFromStr

/-- What a tag ref holds. -/
def refAt (root : Loc) (fs : FS) (t : Tag) : Option Bytes := fileAt fs (t.loc root)

/-- A snapshot root whose snapshot files are those of snapshots, under their identifiers. -/
structure Records (J : Serde) (root : Loc) (fs : FS) : Prop where
  layout : Layout root fs
  noTemp : NoTemp root none fs
  names : ∀ n, fs.lookup (snapshotsLoc root ++ [n]) ≠ none →
    ∃ u : Uuid, n = u.plain.fileName ∧ ∃ s, snapshotAt J root fs u = some s
  ids : ∀ u s, snapshotAt J root fs u = some s → s.id = u.text
  valid : ∀ u s, snapshotAt J root fs u = some s → ∀ x ∈ s.tags, ∃ t : Tag, t.text = x

/-! ### Names -/

theorem Plain.fileName_inj {i j : String} {hi : Plain i} {hj : Plain j}
    (h : hi.fileName = hj.fileName) : i = j := by
  have hb := congrArg FileName.bytes h
  simp only [Plain.fileName, utf8_snapshotFile] at hb
  exact utf8_injective (List.append_cancel_right hb)

theorem Uuid.fileName_injective {u v : Uuid} (h : u.plain.fileName = v.plain.fileName) : u = v :=
  Uuid.ext (Plain.fileName_inj h)

/-- The temporary file for a snapshot is no snapshot file. -/
theorem Plain.temp_ne_fileName {i j : String} (hi : Plain i) (hj : Plain j) :
    hi.fileName.temp ≠ hj.fileName := by
  intro h
  have hb := congrArg (fun n => n.bytes.getLast?) h
  have h1 : hi.fileName.temp.bytes.getLast? = some 0x70 := by
    show (fileStem _ ++ dot :: utf8 "tmp").getLast? = some 0x70
    rw [List.getLast?_append]
    rfl
  have h2 : hj.fileName.bytes.getLast? = some 0x6e := by
    simp only [Plain.fileName, utf8_snapshotFile]
    rw [List.getLast?_append]
    rfl
  rw [h1, h2] at hb
  cases hb

/-! ### The world -/

/-- The kernel by itself, with a snapshot root in order. -/
abbrev rootWorld (K : Kernel) (root : Loc) : World K FS := World.crashing K (Layout root)

/-- What putting objects may have changed: nothing but what is below the objects directory. -/
structure Framed (root : Loc) (fs fs' : FS) : Prop where
  layout : Layout root fs'
  noTemp : NoTemp root none fs'
  away : ∀ v, ¬ objectsDir root <+: v → fs'.lookup v = fs.lookup v

theorem Framed.refl (hl : Layout root fs) (hn : NoTemp root none fs) : Framed root fs fs :=
  ⟨hl, hn, fun _ _ => rfl⟩

theorem Framed.snapshots (h : Framed root fs fs') (w : Loc) :
    fs'.lookup (snapshotsLoc root ++ w) = fs.lookup (snapshotsLoc root ++ w) :=
  h.away _ (not_objectsDir_prefix_snapshots root w)

theorem Framed.tags (h : Framed root fs fs') (w : Loc) :
    fs'.lookup (tagsLoc root ++ w) = fs.lookup (tagsLoc root ++ w) :=
  h.away _ (not_objectsDir_prefix_tags root w)

theorem builder_root (K : Kernel) (H : Blake3) (root : Loc) (fs : FS) :
    Builder (rootWorld K root) H root fun a s => NoTemp root a s ∧
      ∀ v, ¬ objectsDir root <+: v → s.lookup v = fs.lookup v where
  inv_fs s s' heq hi := by
    have heq' : s' = s := heq
    rwa [heq']
  clear s hi := hi.objects
  inv_step k s s' a b _ hi _ h := h.layout hi
  rely_objects _ _ _ hr := hr.elim
  step k s s' a b _ hi hs h :=
    ⟨h.noTemp hs.1, fun v hv => (h.frame hi.isDir hv).trans (hs.2 v hv)⟩
  rely _ _ _ _ _ hr := hr.elim
  source s _ hs path v data k hv := hs.1.source hv k

/-- Building a tree changes nothing but objects. -/
theorem spec_buildTree_framed (hH : H.Lawful) (hn : NoTemp root none fs)
    (reads : Loc → ℕ → ℕ) (fuel : ℕ) (path : PathBuf) :
    Spec (rootWorld K root).toSetting (· = fs) ((managerAt root).buildTree H J reads fuel path)
      (fun _ s => Framed root fs s) (fun _ s => Framed root fs s) := by
  refine ((builder_root K H root fs).buildTree (leaseCrashing _) hH path).conseq ?_ ?_ ?_
  · rintro s rfl
    exact ⟨hn, fun _ _ => rfl⟩
  · exact fun _ s hi hs => ⟨hi, hs.1, hs.2⟩
  · exact fun _ s hi hs => ⟨hi, hs.1, hs.2⟩

theorem stable_root {P : FS → Prop} : (rootWorld K root).Stable P := fun _ _ _ _ hr => hr.elim

/-! ### Writing -/

/-- What the writing of a file in the directory `d`, by way of a temporary file, has done. -/
structure Replaced (root d : Loc) (t n : FileName) (data : Bytes) (fs fs' : FS) : Prop where
  layout : Layout root fs'
  here : ∃ m mtime, fs'.lookup (d ++ [n]) = some (.file data m mtime)
  temp : t ≠ n → fs'.lookup (d ++ [t]) = none
  away : ∀ v, v ≠ d ++ [n] → v ≠ d ++ [t] → fs'.lookup v = fs.lookup v

theorem spec_replaced {d : Loc} (hd : d = snapshotsLoc root ∨ d = tagsLoc root) (t n : FileName)
    (data : Bytes) {P : FS → Prop} :
    Spec (rootWorld K root).toSetting P (do
        io (IoM.op (.write (Loc.toPath (d ++ [t])) data))
        io (IoM.op (.rename (Loc.toPath (d ++ [t])) (Loc.toPath (d ++ [n])))))
      (fun _ s => ∃ s₀, P s₀ ∧ Replaced root d t n data s₀ s) (fun _ _ => False) := by
  have hdir : ∀ s, Layout root s → FilesDir s d := by
    intro s hs
    rcases hd with rfl | rfl
    · exact hs.snapshots
    · exact hs.tags
  refine spec_replace (B := fun s => ∃ s₀ m, P s₀ ∧
    s.lookup = Function.update s₀.lookup (d ++ [t]) (some (.file data m K.now)))
    stable_root stable_root (fun s hi _ => hdir s hi) (fun s hi _ => hdir s hi) ?_ ?_ ?_
  · intro s s' data' m hi hs hup
    refine ⟨Layout.update hi hd (Or.inr ⟨data', m, K.now, rfl⟩) hup, ?_⟩
    rintro rfl
    exact ⟨s, m, hs, hup⟩
  · rintro s - ⟨s₀, m, -, hup⟩ hnone
    have hup' : ((rootWorld K root).fs s).lookup (d ++ [t]) = _ := congrFun hup (d ++ [t])
    rw [hnone, Function.update_self] at hup'
    cases hup'
  · rintro s s' hi ⟨s₀, m, hs, hup⟩ heq hne
    by_cases htn : t = n
    · have hss : s' = s := heq htn
      subst hss
      subst htn
      refine ⟨hi, s₀, hs, hi, ⟨m, K.now, by rw [hup, Function.update_self]⟩,
        fun h => absurd rfl h, fun v h1 _ => by rw [hup, Function.update_of_ne h1]⟩
    · have hne' : s'.lookup = _ := hne htn
      have htemp : s.lookup (d ++ [t]) = some (.file data m K.now) := by
        rw [hup, Function.update_self]
      have hnt : d ++ [t] ≠ d ++ [n] := by simpa using htn
      have hl : Layout root s' := RefStep.layout
        (.rename d t n data m K.now hd htn htemp (by rw [hne']; exact congrArg _ htemp)) hi
      refine ⟨hl, s₀, hs, hl, ⟨m, K.now, ?_⟩, fun _ => ?_, fun v h1 h2 => ?_⟩
      · rw [hne', Function.update_self]
        exact htemp
      · rw [hne', Function.update_of_ne hnt, Function.update_self]
      · rw [hne', Function.update_of_ne h1, Function.update_of_ne h2]
        show s.lookup v = _
        rw [hup, Function.update_of_ne h2]

theorem Replaced.frame {d : Loc} {t n : FileName} {data : Bytes}
    (h : Replaced root d t n data fs fs') (hd : d = snapshotsLoc root ∨ d = tagsLoc root) {v : Loc}
    (hv : objectsDir root <+: v) : fs'.lookup v = fs.lookup v := by
  refine h.away v ?_ ?_
  · rintro rfl
    exact not_objectsDir_prefix_ref hd n hv
  · rintro rfl
    exact not_objectsDir_prefix_ref hd t hv

theorem Replaced.noTemp {d : Loc} {t n : FileName} {data : Bytes}
    (h : Replaced root d t n data fs fs') (hd : d = snapshotsLoc root ∨ d = tagsLoc root)
    (hn : NoTemp root none fs) : NoTemp root none fs' := fun k hk => by
  rw [h.frame hd (k.objectsDir_prefix_tempLoc root)]
  exact hn k hk

/-- The JSON of a snapshot has been written. -/
abbrev Saved (root : Loc) (u : Uuid) (json : String) : FS → FS → Prop :=
  Replaced root (snapshotsLoc root) u.plain.fileName.temp u.plain.fileName (utf8 json)

/-- A tag ref has been written. -/
abbrev Tagged (root : Loc) (u : Uuid) (t : Tag) : FS → FS → Prop :=
  Replaced root (tagsLoc root) t.name.temp t.name (utf8 u.text)

theorem spec_addTag (u : Uuid) (t : Tag) {P : FS → Prop} :
    Spec (rootWorld K root).toSetting P ((managerAt root).addTag u.text t.text)
      (fun _ s => ∃ s₀, P s₀ ∧ Tagged root u t s₀ s) (fun _ _ => False) := by
  rw [addTag_eq]
  exact spec_replaced (Or.inr rfl) _ _ _

theorem spec_requireNew (t : Tag) {P : FS → Prop} :
    Spec (rootWorld K root).toSetting P ((managerAt root).requireNew t.text)
      (fun _ s => P s ∧ s.lookup (t.loc root) = none) (fun _ s => P s) := by
  rw [requireNew, t.file_eq]
  refine Spec.bind (N := fun b s => P s ∧ s.pathExists (Loc.toPath (t.loc root)) = b)
    (Spec.mapError (Posix.spec_exists stable_root fun s hi hs => ⟨hi, hs, rfl⟩)) fun b => ?_
  cases b with
  | true => exact Spec.fail fun _ _ hs => hs.1
  | false =>
    refine Spec.pure fun s hi hs => ⟨hs.1, ?_⟩
    have hi' : Layout root s := hi
    have h := hi'.tags.clear.pathExists (q := t.loc root) (Or.inr (List.prefix_append _ _))
      (by simp [Tag.loc])
    rw [hs.2] at h
    exact Option.not_isSome_iff_eq_none.1 (by rw [← h]; simp)

/-- What creating a snapshot does: trees and files become objects, then the JSON is written, and
then the tag refs. -/
theorem spec_createSnapshot {reads : Loc → ℕ → ℕ} {fuel : ℕ} (now : ℤ) (u : Uuid)
    {workspace : PathBuf} (message : Option String) (tags : Option (List String))
    {B : String × ℕ × ℕ → FS → Prop} {I : String → List String → FS → FS → Prop}
    (hbuild : Spec (rootWorld K root).toSetting (· = fs)
      ((managerAt root).buildTree H J reads fuel workspace)
      (fun built s => Framed root fs s ∧ B built s) (fun _ s => Framed root fs s))
    (hnil : ∀ json s₁ s, Framed root fs s₁ → Saved root u json s₁ s → I json [] s₁ s)
    (hcons : ∀ json done (t : Tag) rest s₁ s s', sortedTags tags = done ++ t.text :: rest →
      Framed root fs s₁ → (∀ x : Tag, x.text ∈ sortedTags tags → fs.lookup (x.loc root) = none) →
      I json done s₁ s → Tagged root u t s s' → I json (done ++ [t.text]) s₁ s') :
    Spec (rootWorld K root).toSetting (· = fs)
      ((managerAt root).createSnapshot H J reads fuel now u.text workspace message tags)
      (fun r s => r = u.text ∧ ∃ built s₁ json, Framed root fs s₁ ∧ B built s₁ ∧
        J.encodeSnapshot (newSnapshot now u.text workspace message tags built) = .ok json ∧
        (∀ x ∈ sortedTags tags, ∃ t : Tag, t.text = x) ∧ I json (sortedTags tags) s₁ s)
      (fun _ s => s = fs ∨ Framed root fs s) := by
  rw [createSnapshot_eq]
  refine Spec.bind (N := fun _ s => s = fs ∧ ∀ x ∈ sortedTags tags, ∃ t : Tag, t.text = x)
    ?_ fun _ s hi hs => ?_
  · refine (Spec.forM (I := fun done s => s = fs ∧ ∀ x ∈ done, ∃ t : Tag, t.text = x)
      fun done x rest _ => ?_).pre fun s hs => ⟨hs, by simp⟩
    refine Spec.ofExcept (fun a s hx _ hs => ⟨hs.1, fun y hy => ?_⟩) fun _ _ _ _ hs => Or.inl hs.1
    rcases List.mem_append.1 hy with h | h
    · exact hs.2 y h
    · rw [List.mem_singleton.1 h]
      exact ⟨⟨x, hx⟩, rfl⟩
  obtain ⟨hs, hvalid⟩ := hs
  revert s
  show ∀ s, _ → s = fs → _
  by_cases hnow : now < 0
  · rw [if_pos hnow]
    exact Spec.fail fun _ _ hs => Or.inl hs
  rw [if_neg hnow]
  -- none of the tags was there before
  refine Spec.bind (N := fun _ s => s = fs ∧
    ∀ t : Tag, t.text ∈ sortedTags tags → fs.lookup (t.loc root) = none) ?_ fun _ s hi hs => ?_
  · refine (Spec.forM (I := fun done s => s = fs ∧
      ∀ t : Tag, t.text ∈ done → fs.lookup (t.loc root) = none)
      fun done x rest heq => ?_).pre fun s hs => ⟨hs, by simp⟩
    obtain ⟨t, rfl⟩ := hvalid x (by rw [heq]; simp)
    refine (spec_requireNew t).conseq (fun _ hs => hs) (fun _ s _ hs => ?_)
      fun _ _ _ hs => Or.inl hs.1
    refine ⟨hs.1.1, fun t' ht' => ?_⟩
    rcases List.mem_append.1 ht' with h | h
    · exact hs.1.2 t' h
    · rw [Tag.ext (List.mem_singleton.1 h), ← hs.1.1]
      exact hs.2
  obtain ⟨hs, hnew⟩ := hs
  revert s
  show ∀ s, _ → s = fs → _
  refine Spec.bind (hbuild.conseq (fun _ hs => hs) (fun _ _ _ hs => hs) fun _ _ _ hs => Or.inr hs)
    fun built => ?_
  refine Spec.bind (N := fun json s => (Framed root fs s ∧ B built s) ∧
    J.encodeSnapshot (newSnapshot now u.text workspace message tags built) = .ok json)
    (Spec.ofExcept (fun json s hj _ hs => ⟨hs, hj⟩) fun _ _ _ _ hs => Or.inr hs.1) fun json => ?_
  rw [saveJson_eq root u.plain]
  refine Spec.bind ((spec_replaced (Or.inl rfl) _ _ _).conseq (fun _ hs => hs)
    (fun _ _ _ hs => hs) fun _ _ _ hs => hs.elim) fun _ => ?_
  refine Spec.bind (N := fun _ s => ∃ s₁, ((Framed root fs s₁ ∧ B built s₁) ∧
    J.encodeSnapshot (newSnapshot now u.text workspace message tags built) = .ok json) ∧
    I json (sortedTags tags) s₁ s) ?_ fun _ => ?_
  · refine (Spec.forM (I := fun done s => ∃ s₁, ((Framed root fs s₁ ∧ B built s₁) ∧
      J.encodeSnapshot (newSnapshot now u.text workspace message tags built) = .ok json) ∧
      I json done s₁ s) fun done x rest heq => ?_).pre ?_
    · obtain ⟨t, rfl⟩ := hvalid x (by rw [heq]; simp)
      refine (spec_addTag u t).conseq (fun _ hs => hs) ?_ fun _ _ _ hs => hs.elim
      rintro _ s - ⟨s₀, ⟨s₁, hb, hI⟩, htag⟩
      exact ⟨s₁, hb, hcons json done t rest s₁ s₀ s heq hb.1.1 hnew hI htag⟩
    · rintro s ⟨s₁, hb, hsaved⟩
      exact ⟨s₁, hb, hnil json s₁ s hb.1.1 hsaved⟩
  · refine Spec.pure fun s _ hs => ⟨rfl, ?_⟩
    obtain ⟨s₁, ⟨⟨hf, hB⟩, hj⟩, hI⟩ := hs
    exact ⟨built, s₁, json, hf, hB, hj, hvalid, hI⟩

/-! ### The new snapshot -/

/-- The snapshot file of `u` has been written, and perhaps some tag refs. -/
structure Recorded (root : Loc) (u : Uuid) (json : String) (fs fs' : FS) : Prop where
  layout : Layout root fs'
  noTemp : NoTemp root none fs'
  here : fileAt fs' (snapshotLoc root u.plain) = some (utf8 json)
  snaps : ∀ n, n ≠ u.plain.fileName →
    fs'.lookup (snapshotsLoc root ++ [n]) = fs.lookup (snapshotsLoc root ++ [n])
  away : ∀ v, (∀ d n, d = snapshotsLoc root ∨ d = tagsLoc root → v ≠ d ++ [n]) →
    fs'.lookup v = fs.lookup v

theorem Saved.recorded {u : Uuid} {json : String} (hn : NoTemp root none fs)
    (htemp : fs.lookup (snapshotsLoc root ++ [u.plain.fileName.temp]) = none)
    (h : Saved root u json fs fs') : Recorded root u json fs fs' where
  layout := h.layout
  noTemp := h.noTemp (Or.inl rfl) hn
  here := fileAt_eq_some.2 h.here
  snaps n hne := by
    by_cases heq : n = u.plain.fileName.temp
    · rw [heq, htemp]
      exact h.temp (Plain.temp_ne_fileName _ _)
    · exact h.away _ (by simpa using hne) (by simpa using heq)
  away v hv := h.away v (hv _ _ (Or.inl rfl)) (hv _ _ (Or.inl rfl))

theorem snapshotsLoc_ne_tagsLoc (root : Loc) (m n : FileName) :
    snapshotsLoc root ++ [m] ≠ tagsLoc root ++ [n] := fun h =>
  not_snapshots_prefix_tags root [n] (h ▸ List.prefix_append _ _)

theorem Recorded.tagged {u : Uuid} {json : String} {t : Tag} {fs₀ : FS}
    (h : Recorded root u json fs₀ fs) (ht : Tagged root u t fs fs') :
    Recorded root u json fs₀ fs' := by
  have hsnaps : ∀ n, fs'.lookup (snapshotsLoc root ++ [n]) =
      fs.lookup (snapshotsLoc root ++ [n]) := fun n =>
    ht.away _ (snapshotsLoc_ne_tagsLoc root n _) (snapshotsLoc_ne_tagsLoc root n _)
  exact ⟨ht.layout, ht.noTemp (Or.inr rfl) h.noTemp, (fileAt_congr (hsnaps _)).trans h.here,
    fun n hne => (hsnaps n).trans (h.snaps n hne), fun v hv =>
      (ht.away v (hv _ _ (Or.inr rfl)) (hv _ _ (Or.inr rfl))).trans (h.away v hv)⟩

theorem snapshotAt_congr {u : Uuid}
    (h : fs'.lookup (snapshotLoc root u.plain) = fs.lookup (snapshotLoc root u.plain)) :
    snapshotAt J root fs' u = snapshotAt J root fs u := by
  rw [snapshotAt, fileAt_congr h, snapshotAt]

namespace Records

theorem temp_none (hr : Records J root fs) (u : Uuid) :
    fs.lookup (snapshotsLoc root ++ [u.plain.fileName.temp]) = none := by
  by_contra hne
  obtain ⟨v, hv, -⟩ := hr.names _ hne
  exact Plain.temp_ne_fileName u.plain v.plain hv

/-- What is at a place above or below the snapshot files is all that counts for them. -/
theorem congr (hr : Records J root fs) (hl : Layout root fs') (hn : NoTemp root none fs')
    (h : ∀ n, fs'.lookup (snapshotsLoc root ++ [n]) = fs.lookup (snapshotsLoc root ++ [n])) :
    Records J root fs' := by
  have hat : ∀ u, snapshotAt J root fs' u = snapshotAt J root fs u := fun u =>
    snapshotAt_congr (h _)
  refine ⟨hl, hn, fun n hne => ?_, fun u s hu => ?_, fun u s hu => ?_⟩
  · obtain ⟨u, hu, s, hs⟩ := hr.names n (by rwa [h] at hne)
    exact ⟨u, hu, s, by rw [hat, hs]⟩
  · exact hr.ids u s (by rwa [hat] at hu)
  · exact hr.valid u s (by rwa [hat] at hu)

variable {u : Uuid} {json : String} {snap : Snapshot} {fs₁ : FS}

theorem snapshotAt_recorded (hJ : J.Lawful) (hj : J.encodeSnapshot snap = .ok json)
    (h : Recorded root u json fs₁ fs') : snapshotAt J root fs' u = some snap := by
  have hstr : J.snapshotToString snap = some json := by
    rw [Serde.encodeSnapshot] at hj
    rcases hx : J.snapshotToString snap with _ | j <;> rw [hx] at hj <;> cases hj
    rfl
  rw [snapshotAt, h.here, Option.bind_some, fromUtf8_utf8, Option.bind_some]
  exact hJ.snapshot _ _ hstr

theorem snapshotAt_other (hf : Framed root fs fs₁) (h : Recorded root u json fs₁ fs') {v : Uuid}
    (hne : v ≠ u) : snapshotAt J root fs' v = snapshotAt J root fs v := by
  refine snapshotAt_congr ?_
  rw [snapshotLoc, h.snaps _ fun heq => hne (Uuid.fileName_injective heq), hf.snapshots]

/-- One more snapshot. -/
theorem recorded (hr : Records J root fs) (hJ : J.Lawful) (hf : Framed root fs fs₁)
    (hj : J.encodeSnapshot snap = .ok json) (hid : snap.id = u.text)
    (hvalid : ∀ x ∈ snap.tags, ∃ t : Tag, t.text = x) (h : Recorded root u json fs₁ fs') :
    Records J root fs' := by
  have hnew := snapshotAt_recorded hJ hj h
  have hold : ∀ {v}, v ≠ u → snapshotAt J root fs' v = snapshotAt J root fs v :=
    snapshotAt_other hf h
  refine ⟨h.layout, h.noTemp, fun n hne => ?_, fun v s hv => ?_, fun v s hv => ?_⟩
  · by_cases heq : n = u.plain.fileName
    · exact ⟨u, heq, snap, hnew⟩
    · rw [h.snaps n heq, hf.snapshots] at hne
      obtain ⟨v, hv, s, hs⟩ := hr.names n hne
      have hvu : v ≠ u := by
        rintro rfl
        exact heq hv
      exact ⟨v, hv, s, by rw [hold hvu, hs]⟩
  · by_cases heq : v = u
    · rw [heq, hnew] at hv
      cases hv
      rw [hid, heq]
    · exact hr.ids v s (by rwa [hold heq] at hv)
  · by_cases heq : v = u
    · rw [heq, hnew] at hv
      cases hv
      exact hvalid
    · exact hr.valid v s (by rwa [hold heq] at hv)

end Records

/-! ### Reading and deleting -/

/-- An identifier without `/`. -/
def Slashless (id : String) : Prop := '/' ∉ id.toList

/-- Two identifiers that stand for one path, the second one without `/`. -/
def Spells (root : Loc) (id name : String) : Prop :=
  Slashless name ∧ (managerAt root).snapshotFile id = (managerAt root).snapshotFile name

theorem Slashless.spells {id : String} (h : Slashless id) : Spells root id id := ⟨h, rfl⟩

/-- The file for an identifier with a NUL cannot be read. -/
theorem read_of_nul (hl : Layout root fs) {id : String} (hid : Slashless id)
    (h0 : Char.ofNat 0 ∈ id.toList) :
    fs.read ((managerAt root).snapshotFile id) = .error .einval := by
  have hbytes : utf8 s!"{id}.json" = utf8 id ++ utf8 ".json" := utf8_snapshotFile id
  have hslash : slash ∉ utf8 s!"{id}.json" := by
    rw [hbytes, List.mem_append]
    rintro (h | h)
    · obtain ⟨c, hc, hx⟩ := mem_utf8.1 h
      have hc' : c = '/' := Char.toNat_inj.1 (toNat_of_mem_utf8EncodeChar hx (by decide))
      exact hid (hc' ▸ hc)
    · exact absurd h (by decide)
  have hnul : (0 : UInt8) ∈ utf8 s!"{id}.json" := by
    rw [hbytes, List.mem_append]
    exact Or.inl (mem_utf8.2 ⟨_, h0, by decide⟩)
  have hlen : 5 ≤ (utf8 s!"{id}.json").length := by
    rw [hbytes, List.length_append]
    exact Nat.le_add_left _ _
  have hcomp : components (utf8 s!"{id}.json") = [.nul (utf8 s!"{id}.json")] ∧
      isAbsolute (utf8 s!"{id}.json") = false := by
    revert hslash hnul hlen
    generalize utf8 s!"{id}.json" = b
    intro hslash hnul hlen
    have h1 : b ≠ [] := by rintro rfl; simp at hlen
    have h2 : b ≠ [dot] := by rintro rfl; simp at hlen
    have h3 : b ≠ [dot, dot] := by rintro rfl; simp at hlen
    have h4 : ¬ ValidName b := fun h => h.2.2.1 hnul
    refine ⟨by simp [components, splitSlash_of_notMem hslash, Comp.ofBytes, h1, h2, h3, h4], ?_⟩
    rcases b with _ | ⟨x, xs⟩
    · rfl
    · have hne : x ≠ slash := fun h => hslash (by rw [h]; exact List.mem_cons_self)
      simp [isAbsolute, hne]
  have hpath : (managerAt root).snapshotFile id =
      Loc.toPath (snapshotsLoc root) ++ [.nul (utf8 s!"{id}.json")] := by
    rw [snapshotFile, managerAt_snapshotsDir, PathBuf.join, hcomp.2, hcomp.1]
    rfl
  obtain ⟨n, hn⟩ := (FS.leads_toPath hl.snapshots.isDir).rest
  have hres := hn true [.nul (utf8 s!"{id}.json")] (by simp)
  rw [hpath, FS.read, FS.stat, hres]
  cases n <;> rfl

/-- `loadSnapshot` gives what is stored, or fails. -/
theorem spec_loadSnapshot (hr : Records J root fs) {id name : String}
    (hname : Spells root id name) :
    Spec (rootWorld K root).toSetting (· = fs) ((managerAt root).loadSnapshot J id)
      (fun snap s => s = fs ∧ ∃ u : Uuid, name = u.text ∧ snapshotAt J root fs u = some snap)
      (fun _ s => s = fs) := by
  rw [loadSnapshot, hname.2]
  have hid := hname.1
  have hread : Spec (rootWorld K root).toSetting (· = fs)
      (readToString ((managerAt root).snapshotFile name))
      (fun j s => s = fs ∧ ∃ u : Uuid, name = u.text ∧
        (fileAt fs (snapshotLoc root u.plain)).bind fromUtf8 = some j) (fun _ s => s = fs) := by
    rw [readToString]
    refine Spec.bind (N := fun b s => s = fs ∧ fs.read ((managerAt root).snapshotFile name) = .ok b)
      (Spec.mapError (spec_op stable_root
        (fun s t _ _ h => (not_torn (by simp) (by simp) h).elim) fun s hi hs => ?_)) fun b => ?_
    · have hs' : ((rootWorld K root).handle (.read ((managerAt root).snapshotFile name)) s).2 = s :=
        rfl
      have hfs : (rootWorld K root).fs s = s := rfl
      rw [hs', hfs]
      refine ⟨hi, ?_⟩
      simp only [Kernel.handle]
      have hs : s = fs := hs
      subst hs
      rcases hb : FS.read s ((managerAt root).snapshotFile name) with e | b
      · exact rfl
      · exact ⟨rfl, rfl⟩
    · intro s hi hs
      obtain ⟨rfl, hb⟩ := hs
      have hplain : Plain name := by
        refine ⟨hid, fun h0 => ?_⟩
        rw [read_of_nul hr.layout hid h0] at hb
        cases hb
      -- only a snapshot file can be read under such a path
      have hfile : fileAt s (snapshotLoc root hplain) = some b := by
        rw [snapshotFile_eq root hplain, FS.read] at hb
        rcases hst : s.stat true (Loc.toPath (snapshotLoc root hplain)) with e | nd <;>
          rw [hst] at hb
        · cases hb
        · have hl := hr.layout.snapshots.clear.lookup_of_stat (Or.inr (List.prefix_append _ _))
            (by simp) hst
          cases nd with
          | file data m t =>
            cases hb
            exact fileAt_eq_some.2 ⟨m, t, hl⟩
          | _ => cases hb
      obtain ⟨m, t, hl⟩ := fileAt_eq_some.1 hfile
      obtain ⟨u, hu, -⟩ := hr.names hplain.fileName (by
        rw [← snapshotLoc, hl]
        simp)
      obtain rfl : name = u.text := Plain.fileName_inj hu
      rcases hj : fromUtf8 b with _ | j
      · exact Spec.fail (P := (· = s)) (fun _ _ hs => hs) s hi rfl
      · refine Spec.pure (P := (· = s)) (fun _ _ hs => ⟨hs, u, rfl, ?_⟩) s hi rfl
        rw [hfile, Option.bind_some, hj]
  refine Spec.bind (Spec.mapError hread) fun j => ?_
  refine Spec.ofExcept (fun snap s hj _ hs => ?_) fun _ _ _ _ hs => hs.1
  obtain ⟨hs, u, hu, hb⟩ := hs
  refine ⟨hs, u, hu, ?_⟩
  rw [Serde.decodeSnapshot] at hj
  rcases hd : J.snapshotFromStr j with _ | snap' <;> rw [hd] at hj <;> cases hj
  rw [snapshotAt]
  obtain ⟨b, hb1, hb2⟩ := Option.bind_eq_some_iff.1 hb
  rw [hb1, Option.bind_some, hb2, Option.bind_some, hd]

/-- The refs of `done` are gone. -/
structure Untagged (root : Loc) (done : List String) (fs fs' : FS) : Prop where
  gone : ∀ t : Tag, t.text ∈ done → fs'.lookup (t.loc root) = none
  away : ∀ v, (∀ t : Tag, t.text ∈ done → v ≠ t.loc root) → fs'.lookup v = fs.lookup v

theorem Untagged.step {done : List String} {t : Tag} {fs₀ : FS} (h : Untagged root done fs₀ fs)
    (hup : fs'.lookup = Function.update fs.lookup (t.loc root) none) :
    Untagged root (done ++ [t.text]) fs₀ fs' where
  gone t' ht' := by
    by_cases heq : t' = t
    · rw [heq, hup, Function.update_self]
    · rw [hup, Function.update_of_ne fun h' => heq (Tag.loc_injective root h')]
      refine h.gone t' ((List.mem_append.1 ht').resolve_right fun h' => heq (Tag.ext ?_))
      exact List.mem_singleton.1 h'
  away v hv := by
    rw [hup, Function.update_of_ne (hv t (by simp))]
    exact h.away v fun t' ht' => hv t' (List.mem_append_left _ ht')

/-- A tag ref is removed, if there is one. -/
theorem spec_removeTag (t : Tag) {P Q : FS → Prop}
    (hQ : ∀ s s', Layout root s → P s →
      s'.lookup = Function.update s.lookup (t.loc root) none → Q s') :
    Spec (rootWorld K root).toSetting P ((managerAt root).removeTag t.text)
      (fun _ => Q) (fun _ _ => False) := by
  rw [removeTag, t.file_eq]
  refine Spec.bind (N := fun b s => P s ∧ s.pathExists (Loc.toPath (t.loc root)) = b)
    (Spec.mapError (Posix.spec_exists stable_root fun s hi hs => ⟨hi, hs, rfl⟩)) fun b => ?_
  have hexists : ∀ s, Layout root s →
      s.pathExists (Loc.toPath (t.loc root)) = (s.lookup (t.loc root)).isSome := fun s hs =>
    hs.tags.clear.pathExists (Or.inr (List.prefix_append _ _)) (by simp [Tag.loc])
  cases b with
  | true =>
    refine Spec.mapError (spec_removeAt (v := t.loc root) stable_root
      (fun s hi _ => FilesDir.resolve (Layout.tags hi) false t.name) (fun s hi hs => ?_)
      fun s s' hi hs hup => ⟨?_, hQ s s' hi hs.1 hup⟩)
    · refine (FilesDir.cases (Layout.tags hi) t.name).resolve_left fun hnone => ?_
      have h := (hexists s hi).symm.trans hs.2
      rw [Tag.loc, hnone] at h
      cases h
    · exact Layout.update hi (Or.inr rfl) (Or.inl rfl) hup
  | false =>
    refine Spec.pure fun s hi hs => hQ s s hi hs.1 ?_
    have h := (hexists s hi).symm.trans hs.2
    rw [← Option.not_isSome_iff_eq_none.1 (by rw [h]; simp), Function.update_eq_self]

/-- What deleting a snapshot has done. -/
structure Deleted (root : Loc) (u : Uuid) (tags : List String) (fs fs' : FS) : Prop where
  layout : Layout root fs'
  here : fs'.lookup (snapshotLoc root u.plain) = none
  gone : ∀ t : Tag, t.text ∈ tags → fs'.lookup (t.loc root) = none
  away : ∀ v, v ≠ snapshotLoc root u.plain → (∀ t : Tag, t.text ∈ tags → v ≠ t.loc root) →
    fs'.lookup v = fs.lookup v

theorem snapshotLoc_ne_tagLoc (u : Uuid) (t : Tag) : snapshotLoc root u.plain ≠ t.loc root :=
  fun h => not_snapshots_prefix_tags root [t.name] (by
    rw [← Tag.loc, ← h]
    exact List.prefix_append _ _)

/-- `deleteSnapshot` deletes a snapshot and its refs, or changes nothing. -/
theorem spec_deleteSnapshot (hr : Records J root fs) {id name : String}
    (hname : Spells root id name) :
    Spec (rootWorld K root).toSetting (· = fs) ((managerAt root).deleteSnapshot J id)
      (fun _ s => ∃ u snap, name = Uuid.text u ∧ snapshotAt J root fs u = some snap ∧
        Deleted root u snap.tags fs s)
      (fun _ s => s = fs) := by
  rw [deleteSnapshot, getSnapshot, Fallible.bind_assoc]
  refine Spec.bind (spec_loadSnapshot hr hname) fun snap s hi hs => ?_
  obtain ⟨rfl, u, rfl, hsnap⟩ := hs
  have hfile : ∃ data m t, s.lookup (snapshotLoc root u.plain) = some (.file data m t) := by
    obtain ⟨b, hb, -⟩ := Option.bind_eq_some_iff.1 hsnap
    obtain ⟨m, t, hl⟩ := fileAt_eq_some.1 hb
    exact ⟨b, m, t, hl⟩
  rw [Fallible.pure_bind]
  refine (Spec.bind (P := (· = s)) (N := fun _ => Untagged root snap.tags s)
    ?_ fun _ => ?_ : Spec _ _ _ _ _) s hi rfl
  · refine (Spec.forM (I := fun done => Untagged root done s) fun done x rest heq => ?_).pre ?_
    · have hx : x ∈ snap.toInfo.tags := by
        rw [heq]
        simp
      obtain ⟨t, rfl⟩ := hr.valid u snap hsnap x hx
      exact Spec.mapError ((spec_removeTag t fun s₁ s₂ _ h hup => h.step hup).conseq
        (fun _ hs => hs) (fun _ _ _ hs => hs) fun _ _ _ hs => hs.elim)
    · rintro s' rfl
      exact ⟨fun t ht => by simp at ht, fun _ _ => rfl⟩
  · rw [hname.2, snapshotFile_eq root u.plain]
    refine Spec.mapError (Spec.mapError (((spec_removeAt (v := snapshotLoc root u.plain)
      stable_root (fun s' hi _ => FilesDir.resolve (Layout.snapshots hi) false _)
      (fun s' hi hs => ?_) (Q := fun s' => ∃ u' snap', u.text = Uuid.text u' ∧
        snapshotAt J root s u' = some snap' ∧ Deleted root u' snap'.tags s s')
      fun s₁ s₂ hi hs hup => ?_)).conseq (fun _ hs => hs) (fun _ _ _ hs => hs)
        fun _ _ _ hs => hs.elim))
    · obtain ⟨data, m, t, hl⟩ := hfile
      exact ⟨data, m, t, (Untagged.away hs _ fun t _ => snapshotLoc_ne_tagLoc u t).trans hl⟩
    · have hl : Layout root s₂ := Layout.update hi (Or.inl rfl) (Or.inl rfl) hup
      have hup' : s₂.lookup = Function.update s₁.lookup (snapshotLoc root u.plain) none := hup
      refine ⟨hl, u, snap, rfl, hsnap, hl, by rw [hup', Function.update_self], ?_, ?_⟩
      · intro t ht
        rw [hup', Function.update_of_ne (snapshotLoc_ne_tagLoc u t).symm]
        exact hs.gone t ht
      · intro v h1 h2
        rw [hup', Function.update_of_ne h1]
        exact hs.away v h2

namespace Deleted

variable {u : Uuid} {tags : List String}

theorem snapshotAt_self (h : Deleted root u tags fs fs') : snapshotAt J root fs' u = none := by
  rw [snapshotAt, fileAt, h.here]
  rfl

theorem snapshots (h : Deleted root u tags fs fs') {n : FileName} (hne : n ≠ u.plain.fileName) :
    fs'.lookup (snapshotsLoc root ++ [n]) = fs.lookup (snapshotsLoc root ++ [n]) :=
  h.away _ (by simpa [snapshotLoc] using hne) fun t _ => snapshotsLoc_ne_tagsLoc root n t.name

theorem snapshotAt_other (h : Deleted root u tags fs fs') {v : Uuid} (hne : v ≠ u) :
    snapshotAt J root fs' v = snapshotAt J root fs v :=
  snapshotAt_congr (h.snapshots fun heq => hne (Uuid.fileName_injective heq))

theorem frame (h : Deleted root u tags fs fs') {v : Loc} (hv : objectsDir root <+: v) :
    fs'.lookup v = fs.lookup v := by
  refine h.away v ?_ fun t _ => ?_
  · rintro rfl
    exact not_objectsDir_prefix_snapshots root _ hv
  · rintro rfl
    exact not_objectsDir_prefix_tags root _ hv

/-- One snapshot less. -/
theorem records (h : Deleted root u tags fs fs') (hr : Records J root fs) :
    Records J root fs' := by
  have hself : ∀ {v s}, snapshotAt J root fs' v = some s → v ≠ u := by
    rintro v s hv rfl
    rw [h.snapshotAt_self] at hv
    cases hv
  refine ⟨h.layout, fun k hk => ?_, fun n hne => ?_, fun v s hv => ?_, fun v s hv => ?_⟩
  · rw [h.frame (k.objectsDir_prefix_tempLoc root)]
    exact hr.noTemp k hk
  · have heq : n ≠ u.plain.fileName := by
      rintro rfl
      exact hne h.here
    obtain ⟨v, hv, s, hs⟩ := hr.names n (by rwa [h.snapshots heq] at hne)
    have hvu : v ≠ u := by
      rintro rfl
      exact heq hv
    exact ⟨v, hv, s, by rw [h.snapshotAt_other hvu, hs]⟩
  · exact hr.ids v s (by rw [← h.snapshotAt_other (hself hv), hv])
  · exact hr.valid v s (by rw [← h.snapshotAt_other (hself hv), hv])

end Deleted

end SandD
