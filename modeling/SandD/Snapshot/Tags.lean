import SandD.Snapshot.Busy
import SandD.Snapshot.Refs

/-!
# Tags and snapshots agree

A tag is recorded twice: in the JSON of its snapshot, and as a ref file of its own.  Runs of
`createSnapshot` and `deleteSnapshot` keep both in step, as long as no ref is taken for a temporary
file: the one for the tag `v1.0` is `v1.tmp`, which is a tag as well.

* `TagsAgree`: the invariant;
* `NoClash`: no temporary file of a call is the ref of another tag;
* `TagRun`: runs of calls on one snapshot root;
* `tags_agree`: **tags and snapshots agree** after any such run.
-/

namespace SandD

open Posix ObjectStore SnapshotManager
open Fallible (Spec Ends exec)

variable {K : Kernel} {H : Blake3} {J : Serde} {root : Loc} {fs fs' : FS}

/-! ### The invariant -/

/-- A snapshot lists a tag if and only if the ref of the tag holds the identifier of the snapshot,
and there are no other refs. -/
structure TagsAgree (J : Serde) (root : Loc) (fs : FS) : Prop extends Records J root fs where
  agree : ∀ u s, snapshotAt J root fs u = some s → ∀ t : Tag,
    t.text ∈ s.tags ↔ refAt root fs t = some (utf8 s.id)
  refs : ∀ n, fs.lookup (tagsLoc root ++ [n]) ≠ none →
    ∃ (t : Tag) (u : Uuid) (s : Snapshot), n = t.name ∧ snapshotAt J root fs u = some s ∧
      t.text ∈ s.tags

theorem refAt_congr {t : Tag} (h : fs'.lookup (t.loc root) = fs.lookup (t.loc root)) :
    refAt root fs' t = refAt root fs t :=
  fileAt_congr h

theorem refAt_none {t : Tag} (h : fs.lookup (t.loc root) = none) : refAt root fs t = none := by
  rw [refAt, fileAt, h]

namespace TagsAgree

/-- The identifier in the ref of a tag. -/
theorem ref (h : TagsAgree J root fs) {u : Uuid} {s : Snapshot} {t : Tag}
    (hu : snapshotAt J root fs u = some s) (ht : t.text ∈ s.tags) :
    refAt root fs t = some (utf8 u.text) := by
  rw [← h.ids u s hu]
  exact (h.agree u s hu t).1 ht

/-- A tag stands for one snapshot. -/
theorem unique (h : TagsAgree J root fs) {u v : Uuid} {s : Snapshot} {t : Tag}
    (hu : snapshotAt J root fs u = some s) (ht : t.text ∈ s.tags)
    (hv : refAt root fs t = some (utf8 v.text)) : v = u := by
  rw [h.ref hu ht] at hv
  exact Uuid.ext (utf8_injective (Option.some.inj hv).symm)

theorem congr (h : TagsAgree J root fs) (hl : Layout root fs') (hn : NoTemp root none fs')
    (hs : ∀ n, fs'.lookup (snapshotsLoc root ++ [n]) = fs.lookup (snapshotsLoc root ++ [n]))
    (ht : ∀ n, fs'.lookup (tagsLoc root ++ [n]) = fs.lookup (tagsLoc root ++ [n])) :
    TagsAgree J root fs' := by
  have hat : ∀ u, snapshotAt J root fs' u = snapshotAt J root fs u := fun u =>
    snapshotAt_congr (hs _)
  refine ⟨h.toRecords.congr hl hn hs, fun u s hu t => ?_, fun n hne => ?_⟩
  · rw [refAt_congr (t := t) (ht _)]
    exact h.agree u s (by rwa [hat] at hu) t
  · obtain ⟨t, u, s, hnt, hu, hts⟩ := h.refs n (by rwa [ht] at hne)
    exact ⟨t, u, s, hnt, by rw [hat, hu], hts⟩

theorem framed (h : TagsAgree J root fs) (hf : Framed root fs fs') : TagsAgree J root fs' :=
  h.congr hf.layout hf.noTemp (fun n => hf.snapshots [n]) fun n => hf.tags [n]

/-- Where there are no snapshots there is nothing to disagree. -/
theorem empty (h : EmptyStore root fs) : TagsAgree J root fs := by
  have hnone : ∀ u, snapshotAt J root fs u = none := fun u => by
    rw [snapshotAt, fileAt, snapshotLoc, h.snapshots]
    rfl
  refine ⟨⟨h.layout, fun k _ => ?_, fun n hn => absurd (h.snapshots n) hn, fun u s hu => ?_,
    fun u s hu => ?_⟩, fun u s hu => ?_, fun n hn => absurd (h.tags n) hn⟩
  · obtain ⟨w, hw⟩ := k.objectsDir_prefix_tempLoc root
    rw [← hw]
    exact FS.lookup_append_of_none h.objects w
  all_goals
    rw [hnone] at hu
    cases hu

end TagsAgree

/-! ### Creating -/

/-- No tag has a temporary file that is another tag, one whose ref is there already or is written
before it. -/
def NoClash (root : Loc) (fs : FS) (tags : List String) : Prop :=
  ∀ done (t : Tag) rest, tags = done ++ t.text :: rest → t.name.temp ≠ t.name →
    fs.lookup (tagsLoc root ++ [t.name.temp]) = none ∧
      ∀ t' : Tag, t'.text ∈ done → t'.name ≠ t.name.temp

/-- The snapshot file of `u` and the refs of `done` have been written. -/
structure Tagging (root : Loc) (u : Uuid) (json : String) (done : List String) (fs fs' : FS) :
    Prop extends Recorded root u json fs fs' where
  fresh : ∀ t : Tag, t.text ∈ done → fs.lookup (t.loc root) = none
  tagged : ∀ t : Tag, t.text ∈ done → refAt root fs' t = some (utf8 u.text)
  others : ∀ n, (∀ t : Tag, t.text ∈ done → n ≠ t.name) →
    fs'.lookup (tagsLoc root ++ [n]) = fs.lookup (tagsLoc root ++ [n])

theorem Recorded.tagging {u : Uuid} {json : String} {fs₁ : FS}
    (hs : Saved root u json fs₁ fs) (h : Recorded root u json fs₁ fs) :
    Tagging root u json [] fs₁ fs where
  toRecorded := h
  fresh t ht := by simp at ht
  tagged t ht := by simp at ht
  others n _ := hs.away _ (snapshotsLoc_ne_tagsLoc root _ n).symm
    (snapshotsLoc_ne_tagsLoc root _ n).symm

theorem Tagging.step {u : Uuid} {json : String} {done : List String} {t : Tag} {fs₁ : FS}
    (h : Tagging root u json done fs₁ fs) (ht : Tagged root u t fs fs')
    (hnew : fs₁.lookup (t.loc root) = none)
    (hclash : t.name.temp ≠ t.name → fs₁.lookup (tagsLoc root ++ [t.name.temp]) = none ∧
      ∀ t' : Tag, t'.text ∈ done → t'.name ≠ t.name.temp) :
    Tagging root u json (done ++ [t.text]) fs₁ fs' := by
  have hself : ∀ {t' : Tag}, t'.text ∈ done ++ [t.text] → t' ≠ t → t'.text ∈ done :=
    fun hmem hne => (List.mem_append.1 hmem).resolve_right fun h =>
      hne (Tag.ext (List.mem_singleton.1 h))
  have hloc : ∀ {n : FileName}, n ≠ t.name → n ≠ t.name.temp →
      fs'.lookup (tagsLoc root ++ [n]) = fs.lookup (tagsLoc root ++ [n]) := fun h1 h2 =>
    ht.away _ (by simpa using h1) (by simpa using h2)
  refine ⟨h.toRecorded.tagged ht, fun t' ht' => ?_, fun t' ht' => ?_, fun n hn => ?_⟩
  · by_cases heq : t' = t
    · rw [heq, hnew]
    · exact h.fresh t' (hself ht' heq)
  · by_cases heq : t' = t
    · rw [heq]
      exact fileAt_eq_some.2 ht.here
    · have hdone := hself ht' heq
      have hne : t'.name ≠ t.name := fun h' => heq (Tag.name_injective h')
      rw [← h.tagged t' hdone]
      refine refAt_congr (hloc hne fun htemp => ?_)
      exact (hclash fun h' => hne (htemp.trans h')).2 t' hdone htemp
  · have hne : n ≠ t.name := hn t (by simp)
    have hdone : ∀ t' : Tag, t'.text ∈ done → n ≠ t'.name := fun t' ht' =>
      hn t' (List.mem_append_left _ ht')
    by_cases htemp : n = t.name.temp
    · have hne' : t.name.temp ≠ t.name := fun h' => hne (htemp.trans h')
      rw [htemp, ht.temp hne', (hclash hne').1]
    · rw [hloc hne htemp]
      exact h.others n hdone

/-- A snapshot and its tags come to those that agree. -/
theorem TagsAgree.tagging (h : TagsAgree J root fs) (hJ : J.Lawful) {u : Uuid} {json : String}
    {snap : Snapshot} {fs₁ : FS} (hfresh : fs.lookup (snapshotLoc root u.plain) = none)
    (hf : Framed root fs fs₁) (hj : J.encodeSnapshot snap = .ok json) (hid : snap.id = u.text)
    (hvalid : ∀ x ∈ snap.tags, ∃ t : Tag, t.text = x)
    (ht : Tagging root u json snap.tags fs₁ fs') : TagsAgree J root fs' := by
  have hnew : snapshotAt J root fs' u = some snap := Records.snapshotAt_recorded hJ hj ht.toRecorded
  have hold : ∀ {v}, v ≠ u → snapshotAt J root fs' v = snapshotAt J root fs v :=
    Records.snapshotAt_other hf ht.toRecorded
  have hnone : snapshotAt J root fs u = none := by
    rw [snapshotAt, fileAt, hfresh]
    rfl
  have hne : ∀ {v s}, snapshotAt J root fs v = some s → v ≠ u := by
    rintro v s hv rfl
    rw [hnone] at hv
    cases hv
  have hkept : ∀ t : Tag, t.text ∉ snap.tags → refAt root fs' t = refAt root fs t := fun t hmem =>
    refAt_congr ((ht.others t.name fun t' ht' heq =>
      hmem (Tag.name_injective heq ▸ ht')).trans (hf.tags [t.name]))
  have hgone : ∀ t : Tag, t.text ∈ snap.tags → refAt root fs t = none := fun t hmem =>
    refAt_none ((hf.tags [t.name]).symm.trans (ht.fresh t hmem))
  refine ⟨h.toRecords.recorded hJ hf hj hid hvalid ht.toRecorded, fun v s hv t => ?_,
    fun n hn => ?_⟩
  · by_cases hmem : t.text ∈ snap.tags
    · rw [ht.tagged t hmem]
      by_cases heq : v = u
      · rw [heq, hnew] at hv
        cases hv
        simp [hmem, hid]
      · -- another snapshot had no such tag, which had no ref
        rw [hold heq] at hv
        refine iff_of_false (fun hts => ?_) fun hut => heq ?_
        · have href := h.ref hv hts
          rw [hgone t hmem] at href
          cases href
        · rw [h.ids v s hv] at hut
          exact Uuid.ext (utf8_injective (Option.some.inj hut).symm)
    · rw [hkept t hmem]
      by_cases heq : v = u
      · rw [heq, hnew] at hv
        cases hv
        refine iff_of_false hmem fun href => ?_
        -- a ref that holds the new identifier would belong to a snapshot under it
        obtain ⟨m, mt, hl⟩ := fileAt_eq_some.1 href
        obtain ⟨t', w, s, hname, hw, hts⟩ := h.refs t.name (by rw [← Tag.loc, hl]; simp)
        obtain rfl := Tag.name_injective hname
        rw [hid] at href
        exact hne hw (h.unique hw hts href).symm
      · exact h.agree v s (by rwa [hold heq] at hv) t
  · by_cases hmem : ∃ t : Tag, t.text ∈ snap.tags ∧ n = t.name
    · obtain ⟨t, hts, rfl⟩ := hmem
      exact ⟨t, u, snap, rfl, hnew, hts⟩
    · rw [ht.others n fun t hts heq => hmem ⟨t, hts, heq⟩, hf.tags] at hn
      obtain ⟨t, v, s, hname, hv, hts⟩ := h.refs n hn
      exact ⟨t, v, s, hname, by rw [hold (hne hv), hv], hts⟩

/-! ### Deleting -/

theorem TagsAgree.deleted (h : TagsAgree J root fs) {u : Uuid} {snap : Snapshot}
    (hu : snapshotAt J root fs u = some snap) (hd : Deleted root u snap.tags fs fs') :
    TagsAgree J root fs' := by
  have hself : ∀ {v s}, snapshotAt J root fs' v = some s → v ≠ u := by
    rintro v s hv rfl
    rw [hd.snapshotAt_self] at hv
    cases hv
  have hkept : ∀ t : Tag, t.text ∉ snap.tags →
      fs'.lookup (t.loc root) = fs.lookup (t.loc root) := fun t hmem =>
    hd.away _ (snapshotLoc_ne_tagLoc u t).symm fun t' ht' heq =>
      hmem (Tag.loc_injective root heq ▸ ht')
  refine ⟨hd.records h.toRecords, fun v s hv t => ?_, fun n hn => ?_⟩
  · have hvu := hself hv
    rw [hd.snapshotAt_other hvu] at hv
    by_cases hmem : t.text ∈ snap.tags
    · rw [refAt_none (hd.gone t hmem)]
      refine iff_of_false (fun hts => hvu ?_) (by simp)
      exact h.unique hu hmem (h.ref hv hts)
    · rw [refAt_congr (hkept t hmem)]
      exact h.agree v s hv t
  · have hsame : fs'.lookup (tagsLoc root ++ [n]) = fs.lookup (tagsLoc root ++ [n]) := by
      refine hd.away _ (snapshotsLoc_ne_tagsLoc root _ n).symm fun t ht heq => hn ?_
      rw [heq]
      exact hd.gone t ht
    obtain ⟨t, v, s, rfl, hv, hts⟩ := h.refs n (by rwa [hsame] at hn)
    have hvu : v ≠ u := by
      rintro rfl
      rw [hu] at hv
      cases hv
      exact hn (hd.gone t hts)
    exact ⟨t, v, s, rfl, by rw [hd.snapshotAt_other hvu, hv], hts⟩

/-! ### Runs -/

theorem exec_deleteSnapshot_of_load {id : String} {e : Error}
    (h : (exec K.handle ((managerAt root).loadSnapshot J id) fs).1 = .error e) :
    (exec K.handle ((managerAt root).deleteSnapshot J id) fs).2 = fs := by
  have hread : ∀ path, (exec K.handle (readToString path) fs).2 = fs := by
    intro path
    rw [readToString, Fallible.exec_bind, io, Fallible.exec_mapError, IoM.op,
      Fallible.exec_perform]
    simp only [Kernel.handle]
    rcases fs.read path with e | b
    · rfl
    · simp only [Except.mapError]
      rcases fromUtf8 b with _ | s <;> rfl
  have hload : (exec K.handle ((managerAt root).loadSnapshot J id) fs).2 = fs := by
    rw [loadSnapshot, withContext, Fallible.exec_bind, Fallible.exec_mapError]
    have hr := hread ((managerAt root).snapshotFile id)
    rcases hx : exec K.handle (readToString ((managerAt root).snapshotFile id)) fs with ⟨r, s⟩
    rw [hx] at hr
    have hr : s = fs := hr
    subst hr
    rcases r with e | j <;> rfl
  rcases hx : exec K.handle ((managerAt root).loadSnapshot J id) fs with ⟨r, s⟩
  rw [hx] at h hload
  have h : r = .error e := h
  have hload : s = fs := hload
  subst h hload
  rw [deleteSnapshot, getSnapshot, Fallible.bind_assoc, Fallible.exec_bind_error _ hx]

/-- One call, or a change away from the snapshot root.  Identifiers in `may` can be deleted. -/
inductive TagStep (K : Kernel) (H : Blake3) (J : Serde) (root : Loc) (may : String → Prop)
    (fs : FS) : FS → Prop
  /-- the tags of a creation that succeeds do not clash -/
  | create (reads : Loc → ℕ → ℕ) (fuel : ℕ) (now : ℤ) (u : Uuid) (workspace : PathBuf)
      (message : Option String) (tags : Option (List String))
      (hfresh : fs.lookup (snapshotLoc root u.plain) = none)
      (hclash : (exec K.handle ((managerAt root).createSnapshot H J reads fuel now u.text workspace
        message tags) fs).1 = .ok u.text → NoClash root fs (sortedTags tags)) :
      TagStep K H J root may fs (exec K.handle ((managerAt root).createSnapshot H J reads fuel now
        u.text workspace message tags) fs).2
  /-- an identifier stands for a file among the snapshots, or for no snapshot at all -/
  | delete (id : String) (hid : (∃ name, Spells root id name ∧ may name) ∨
        ∃ e, (exec K.handle ((managerAt root).loadSnapshot J id) fs).1 = .error e) :
      TagStep K H J root may fs (exec K.handle ((managerAt root).deleteSnapshot J id) fs).2
  | elsewhere (fs' : FS) (h : ∀ v, v <+: root ∨ root <+: v → fs'.lookup v = fs.lookup v) :
      TagStep K H J root may fs fs'

/-- A sequence of calls, with changes away from the snapshot root between them. -/
abbrev TagRun (K : Kernel) (H : Blake3) (J : Serde) (root : Loc) (may : String → Prop) :
    FS → FS → Prop :=
  Relation.ReflTransGen (TagStep K H J root may)

variable {may : String → Prop}

theorem Layout.elsewhere (hl : Layout root fs)
    (h : ∀ v, v <+: root ∨ root <+: v → fs'.lookup v = fs.lookup v) : Layout root fs' := by
  have key : ∀ {d : Loc}, root <+: d → ∀ v, v <+: d ∨ d <+: v → fs'.lookup v = fs.lookup v := by
    intro d hd v hv
    refine h v ?_
    rcases hv with hv | hv
    · exact List.prefix_or_prefix_of_prefix hv hd
    · exact Or.inr (hd.trans hv)
  refine ⟨?_, fun v hv => ?_, hl.snapshots.congr (key (List.prefix_append _ _)),
    hl.tags.congr (key (List.prefix_append _ _))⟩
  · rw [FS.isDir, h root (Or.inl List.prefix_rfl)]
    exact hl.isDir
  · rw [FS.isLink, key (List.prefix_append _ _) v hv]
    exact hl.objects v hv

/-- What creating a snapshot does to the snapshots that are there and to the tags. -/
theorem exec_createSnapshot (hH : H.Lawful) (hr : Records J root fs) (reads : Loc → ℕ → ℕ)
    (fuel : ℕ) (now : ℤ) (u : Uuid) (workspace : PathBuf) (message : Option String)
    (tags : Option (List String)) :
    Ends
      (fun r s => r = u.text ∧ ∃ snap s₁ json, snap.id = u.text ∧ snap.tags = sortedTags tags ∧
        (∀ x ∈ snap.tags, ∃ t : Tag, t.text = x) ∧ J.encodeSnapshot snap = .ok json ∧
        Framed root fs s₁ ∧ Recorded root u json s₁ s ∧
        (NoClash root fs (sortedTags tags) → Tagging root u json (sortedTags tags) s₁ s))
      (fun _ s => Framed root fs s)
      (exec K.handle ((managerAt root).createSnapshot H J reads fuel now u.text workspace message
        tags) fs).1
      (exec K.handle ((managerAt root).createSnapshot H J reads fuel now u.text workspace message
        tags) fs).2 := by
  have hbuild := spec_buildTree_framed (K := K) (J := J) hH hr.noTemp reads fuel workspace
  have hspec := spec_createSnapshot (B := fun _ _ => True)
    (I := fun json done s₁ s => Recorded root u json s₁ s ∧
      (NoClash root fs (sortedTags tags) → Tagging root u json done s₁ s)) now u message tags
    (hbuild.post fun _ _ _ hs => ⟨hs, trivial⟩)
    (fun json s₁ s hf hs => by
      have hrec := hs.recorded hf.noTemp (by
        rw [hf.snapshots]
        exact hr.temp_none u)
      exact ⟨hrec, fun _ => hrec.tagging hs⟩)
    fun json done t rest s₁ s s' heq hf hnew hI ht => by
      refine ⟨hI.1.tagged ht, fun hc => (hI.2 hc).step ht ?_ fun hne => ?_⟩
      · rw [Tag.loc, hf.tags]
        exact hnew t (by rw [heq]; simp)
      · rw [hf.tags]
        exact hc done t rest heq hne
  refine (exec_of_spec (hspec.conseq (fun _ hs => hs) ?_ ?_) hr.layout rfl).2
  · rintro r s - ⟨rfl, built, s₁, json, hf, -, hj, hvalid, hrec, htag⟩
    exact ⟨rfl, newSnapshot now u.text workspace message tags built, s₁, json, rfl, rfl, hvalid, hj,
      hf, hrec, htag⟩
  · rintro e s - (rfl | hf)
    · exact .refl hr.layout hr.noTemp
    · exact hf

theorem createSnapshot_ok (hH : H.Lawful) (hr : Records J root fs) {reads : Loc → ℕ → ℕ}
    {fuel : ℕ} {now : ℤ} {u : Uuid} {workspace : PathBuf} {message : Option String}
    {tags : Option (List String)} {r : String}
    (hx : exec K.handle ((managerAt root).createSnapshot H J reads fuel now u.text workspace message
      tags) fs = (.ok r, fs')) :
    ∃ snap s₁ json, snap.tags = sortedTags tags ∧ J.encodeSnapshot snap = .ok json ∧
      Framed root fs s₁ ∧ Recorded root u json s₁ fs' := by
  have hspec := exec_createSnapshot (K := K) hH hr reads fuel now u workspace message tags
  rw [hx] at hspec
  obtain ⟨-, snap, s₁, json, -, htags, -, hj, hf, hrec, -⟩ := hspec
  exact ⟨snap, s₁, json, htags, hj, hf, hrec⟩

/-- What one step does: tags and snapshots still agree, and only what may be deleted is gone. -/
theorem TagStep.agree (hH : H.Lawful) (hJ : J.Lawful) (hs : TagStep K H J root may fs fs')
    (h : TagsAgree J root fs) : TagsAgree J root fs' ∧
      ∀ u s, ¬ may u.text → snapshotAt J root fs u = some s → snapshotAt J root fs' u = some s := by
  cases hs with
  | create reads fuel now u workspace message tags hfresh hclash =>
    have hspec :=
      exec_createSnapshot (K := K) hH h.toRecords reads fuel now u workspace message tags
    rcases hx : exec K.handle ((managerAt root).createSnapshot H J reads fuel now u.text workspace
      message tags) fs with ⟨e | r, s⟩
    · -- a creation that fails has stored objects at most
      rw [hx] at hspec
      exact ⟨h.framed hspec, fun v snap _ hv =>
        (snapshotAt_congr (Framed.snapshots hspec _)).trans hv⟩
    · rw [hx] at hspec
      obtain ⟨rfl, snap, s₁, json, hid, htags, hvalid, hj, hf, hrec, htag⟩ := hspec
      have htag := htag (hclash (by rw [hx]))
      refine ⟨h.tagging hJ hfresh hf hj hid hvalid (htags ▸ htag), fun v s' _ hv => ?_⟩
      have hvu : v ≠ u := by
        rintro rfl
        rw [snapshotAt, fileAt, hfresh] at hv
        cases hv
      rw [Records.snapshotAt_other hf hrec hvu, hv]
  | delete id hid =>
    rcases hid with ⟨name, hname, hmay⟩ | ⟨e, he⟩
    · have hspec := exec_of_spec (K := K) (spec_deleteSnapshot h.toRecords hname) h.layout rfl
      rcases hx : exec K.handle ((managerAt root).deleteSnapshot J id) fs with ⟨e | r, s⟩
      · rw [hx] at hspec
        have heq : s = fs := hspec.2
        rw [heq]
        exact ⟨h, fun _ _ _ hv => hv⟩
      · rw [hx] at hspec
        obtain ⟨-, u, snap, rfl, hu, hd⟩ := hspec
        refine ⟨h.deleted hu hd, fun v s hv hs => ?_⟩
        have hvu : v ≠ u := by
          rintro rfl
          exact hv hmay
        rw [hd.snapshotAt_other hvu, hs]
    · rw [exec_deleteSnapshot_of_load he]
      exact ⟨h, fun _ _ _ hv => hv⟩
  | elsewhere _ helse =>
    have hbelow : ∀ {d : Loc} (w : Loc), root <+: d →
        fs'.lookup (d ++ w) = fs.lookup (d ++ w) := fun w hd =>
      helse _ (Or.inr (hd.trans (List.prefix_append _ _)))
    refine ⟨h.congr (h.layout.elsewhere helse) (fun k hk => ?_)
      (fun n => hbelow [n] (List.prefix_append _ _)) fun n => hbelow [n] (List.prefix_append _ _),
      fun u s _ hu => (snapshotAt_congr (hbelow _ (List.prefix_append _ _))).trans hu⟩
    rw [helse _ (Or.inr ((List.prefix_append _ _).trans (k.objectsDir_prefix_tempLoc root)))]
    exact h.noTemp k hk

theorem TagRun.agree (hH : H.Lawful) (hJ : J.Lawful) (hr : TagRun K H J root may fs fs')
    (h : TagsAgree J root fs) : TagsAgree J root fs' ∧
      ∀ u s, ¬ may u.text → snapshotAt J root fs u = some s → snapshotAt J root fs' u = some s := by
  induction hr with
  | refl => exact ⟨h, fun _ _ _ hu => hu⟩
  | tail _ hs ih =>
    obtain ⟨h', hkept⟩ := hs.agree hH hJ ih.1
    exact ⟨h', fun u s hm hu => hkept u s hm (ih.2 u s hm hu)⟩

/-! ### Looking a tag up -/

/-- Trimming leaves an identifier alone. -/
theorem Uuid.trim_text (u : Uuid) : trim u.text = u.text := by
  have hw : ∀ c ∈ u.text.toList, isWhitespace c = false := by
    intro c hc
    rcases u.form c hc with hx | rfl
    · have hn := toNat_of_isHexDigit hx
      simp only [isWhitespace, Bool.or_eq_false_iff, Bool.and_eq_false_imp, decide_eq_true_eq,
        beq_eq_false_iff_ne, decide_eq_false_iff_not]
      omega
    · decide
  have hdrop : ∀ l : List Char, (∀ c ∈ l, isWhitespace c = false) →
      l.dropWhile isWhitespace = l := by
    intro l hl
    cases l with
    | nil => rfl
    | cons c l =>
      rw [List.dropWhile_cons_of_neg]
      simp [hl c List.mem_cons_self]
  rw [trim, hdrop _ hw, hdrop _ fun c hc => hw c (List.mem_reverse.1 hc), List.reverse_reverse,
    String.ofList_toList]

theorem pathExists_ref (hl : Layout root fs) (t : Tag) :
    fs.pathExists (Loc.toPath (t.loc root)) = (fs.lookup (t.loc root)).isSome :=
  hl.tags.clear.pathExists (Or.inr (List.prefix_append _ _)) (by simp [Tag.loc])

theorem exec_getSnapshotByTag_eq (hl : Layout root fs) (t : Tag) :
    exec K.handle ((managerAt root).getSnapshotByTag t.text) fs =
      if (fs.lookup (t.loc root)).isSome then
        exec K.handle (do
          let content ← readToString (Loc.toPath (t.loc root))
          return some (trim content)) fs
      else (.ok none, fs) := by
  have hx : exec K.handle (IoM.exists_ (Loc.toPath (t.loc root))) fs =
      (.ok (fs.lookup (t.loc root)).isSome, fs) := by
    rw [← pathExists_ref hl t]
    exact run_exists _
  rw [getSnapshotByTag, t.file_eq, Fallible.exec_bind, io, Fallible.exec_mapError, hx]
  cases (fs.lookup (t.loc root)).isSome <;> rfl

/-- A tag resolves to the identifier in its ref. -/
theorem exec_getSnapshotByTag (hl : Layout root fs) {t : Tag} {u : Uuid}
    (h : refAt root fs t = some (utf8 u.text)) :
    exec K.handle ((managerAt root).getSnapshotByTag t.text) fs = (.ok (some u.text), fs) := by
  obtain ⟨m, mt, hfile⟩ := fileAt_eq_some.1 h
  have hstat : fs.stat true (Loc.toPath (t.loc root)) = .ok (.file (utf8 u.text) m mt) :=
    hl.tags.clear.stat_of_lookup (Or.inr (List.prefix_append _ _)) (by simp [Tag.loc]) hfile
  have hread : fs.read (Loc.toPath (t.loc root)) = .ok (utf8 u.text) := by rw [FS.read, hstat]
  rw [exec_getSnapshotByTag_eq hl, hfile, Option.isSome_some, if_pos rfl, Fallible.exec_bind,
    readToString, Fallible.exec_bind, io, Fallible.exec_mapError, IoM.op, Fallible.exec_perform]
  simp only [Kernel.handle, hread, Except.mapError, fromUtf8_utf8, Fallible.exec_pure, u.trim_text]

/-- A tag without a ref does not resolve. -/
theorem exec_getSnapshotByTag_none (hl : Layout root fs) {t : Tag}
    (h : fs.lookup (t.loc root) = none) :
    exec K.handle ((managerAt root).getSnapshotByTag t.text) fs = (.ok none, fs) := by
  rw [exec_getSnapshotByTag_eq hl, h]
  rfl

/-- **Tags and snapshots agree.**  After any run from an empty root: a snapshot lists a tag if and
only if the ref of the tag holds its identifier; there are no other refs, and no other files among
the snapshots; a tag resolves to the snapshot that lists it and otherwise to nothing; a new snapshot
has the tags it was created with; and a snapshot that is not deleted stays as it is, so that its
tags go on resolving to it. -/
theorem tags_agree (hH : H.Lawful) (hJ : J.Lawful) {fs₀ : FS} (h₀ : EmptyStore root fs₀)
    (hr : TagRun K H J root (fun _ => True) fs₀ fs) :
    (∀ u s, snapshotAt J root fs u = some s → ∀ t : Tag,
      t.text ∈ s.tags ↔ refAt root fs t = some (utf8 s.id)) ∧
    (∀ n, fs.lookup (tagsLoc root ++ [n]) ≠ none →
      ∃ (t : Tag) (u : Uuid) (s : Snapshot), n = t.name ∧ snapshotAt J root fs u = some s ∧
        t.text ∈ s.tags) ∧
    (∀ n, fs.lookup (snapshotsLoc root ++ [n]) ≠ none →
      ∃ (u : Uuid) (s : Snapshot), n = u.plain.fileName ∧ snapshotAt J root fs u = some s ∧
        s.id = u.text) ∧
    (∀ (t : Tag) u s, snapshotAt J root fs u = some s → t.text ∈ s.tags →
      exec K.handle ((managerAt root).getSnapshotByTag t.text) fs = (.ok (some u.text), fs)) ∧
    (∀ t : Tag, (∀ u s, snapshotAt J root fs u = some s → t.text ∉ s.tags) →
      exec K.handle ((managerAt root).getSnapshotByTag t.text) fs = (.ok none, fs)) ∧
    (∀ reads fuel now (u : Uuid) workspace message tags r fs',
      exec K.handle ((managerAt root).createSnapshot H J reads fuel now u.text workspace message
        tags) fs = (.ok r, fs') →
      ∃ s, snapshotAt J root fs' u = some s ∧ s.tags = sortedTags tags) ∧
    ∀ u s fs', snapshotAt J root fs u = some s → TagRun K H J root (· ≠ u.text) fs fs' →
      snapshotAt J root fs' u = some s ∧ ∀ t : Tag, t.text ∈ s.tags →
        exec K.handle ((managerAt root).getSnapshotByTag t.text) fs' =
          (.ok (some u.text), fs') := by
  have h := (hr.agree hH hJ (TagsAgree.empty h₀)).1
  refine ⟨h.agree, h.refs, fun n hn => ?_, fun t u s hu ht => ?_, fun t ht => ?_, ?_,
    fun u s fs' hu hlater => ?_⟩
  · obtain ⟨u, hu, s, hs⟩ := h.names n hn
    exact ⟨u, s, hu, hs, h.ids u s hs⟩
  · exact exec_getSnapshotByTag h.layout (h.ref hu ht)
  · refine exec_getSnapshotByTag_none h.layout (by_contra fun hne => ?_)
    obtain ⟨t', u, s, hname, hu, hts⟩ := h.refs t.name hne
    obtain rfl := Tag.name_injective hname
    exact ht u s hu hts
  · intro reads fuel now u workspace message tags r fs' hx
    obtain ⟨snap, s₁, json, htags, hj, -, hrec⟩ := createSnapshot_ok hH h.toRecords hx
    exact ⟨snap, Records.snapshotAt_recorded hJ hj hrec, htags⟩
  · obtain ⟨h', hkept⟩ := hlater.agree hH hJ h
    have hu' := hkept u s (by simp) hu
    exact ⟨hu', fun t ht => exec_getSnapshotByTag h'.layout (h'.ref hu' ht)⟩

section Sample

/-- The first and the second identifier. -/
def sampleUuids : Uuid × Uuid :=
  (⟨sampleIds.1, by decide, Uuid.form_of_all (by decide +kernel)⟩,
    ⟨sampleIds.2, by decide, Uuid.form_of_all (by decide +kernel)⟩)

/-- A snapshot of `/w` with one tag is created. -/
def sampleCreate (u : Uuid) (tag : String) : Action String :=
  (managerAt sampleRoot).createSnapshot (Blake3.ofTable sampleHashes) (Serde.ofTable sampleJson)
    (fun _ _ => 1) 3 sampleKernel.now u.text [.name ⟨utf8 "w", validName_w⟩] none (some [tag])

/-- The tag `v1.tmp`. -/
def sampleTag : Tag := ⟨"v1.tmp", by decide⟩

/-- After a snapshot with this tag. -/
def sampleTagged : FS :=
  (exec sampleKernel.handle (sampleCreate sampleUuids.1 sampleTag.text) sampleStore).2

/-- After another one with the tag `v1.0`. -/
def sampleClashed : FS :=
  (exec sampleKernel.handle (sampleCreate sampleUuids.2 "v1.0") sampleTagged).2

theorem exec_sampleCreate :
    exec sampleKernel.handle (sampleCreate sampleUuids.1 sampleTag.text) sampleStore =
      (.ok sampleUuids.1.text, sampleTagged) := by
  rw [sampleTagged]
  exact exec_eq_of_fst (by decide +kernel)

theorem exec_sampleClash :
    exec sampleKernel.handle (sampleCreate sampleUuids.2 "v1.0") sampleTagged =
      (.ok sampleUuids.2.text, sampleClashed) ∧
        refAt sampleRoot sampleClashed sampleTag = none := by
  have hrun : (exec sampleKernel.handle (sampleCreate sampleUuids.2 "v1.0") sampleTagged).1 =
      .ok sampleUuids.2.text ∧ refAt sampleRoot sampleClashed sampleTag = none := by
    decide +kernel
  refine ⟨?_, hrun.2⟩
  rw [sampleClashed]
  exact exec_eq_of_fst hrun.1

theorem tagRun_sample (may : String → Prop) :
    TagRun sampleKernel (Blake3.ofTable sampleHashes) (Serde.ofTable sampleJson) sampleRoot may
      sampleStore sampleTagged := by
  rw [sampleTagged, sampleCreate]
  refine .single (.create _ _ _ _ _ _ _ (emptyStore_sample.snapshots _) fun _ done t rest heq => ?_)
  have heq' : [sampleTag.text] = done ++ t.text :: rest := heq
  rcases done with _ | ⟨a, done⟩
  · obtain rfl : sampleTag = t := Tag.ext (List.cons_eq_cons.1 heq').1
    exact fun hne => absurd (by decide) hne
  · simp at heq'

/-- The tag of a snapshot resolves to it. -/
theorem tags_agree_sample :
    exec sampleKernel.handle ((managerAt sampleRoot).getSnapshotByTag sampleTag.text) sampleTagged =
      (.ok (some sampleUuids.1.text), sampleTagged) := by
  obtain ⟨s, hs, htags⟩ := (tags_agree (K := sampleKernel) (Blake3.ofTable_lawful sampleHashes)
    (Serde.ofTable_lawful sampleJson) emptyStore_sample .refl).2.2.2.2.2.1 _ _ _ _ _ _ _ _ _
      exec_sampleCreate
  refine (tags_agree (Blake3.ofTable_lawful sampleHashes) (Serde.ofTable_lawful sampleJson)
    emptyStore_sample (tagRun_sample _)).2.2.2.1 sampleTag sampleUuids.1 s hs ?_
  rw [htags]
  decide

/-- The ref of the tag `v1.tmp` is lost when the tag `v1.0` is made, although the snapshot that
lists it is still there. -/
theorem tags_clash :
    EmptyStore sampleRoot sampleStore ∧
    exec sampleKernel.handle (sampleCreate sampleUuids.1 sampleTag.text) sampleStore =
      (.ok sampleUuids.1.text, sampleTagged) ∧
    exec sampleKernel.handle (sampleCreate sampleUuids.2 "v1.0") sampleTagged =
      (.ok sampleUuids.2.text, sampleClashed) ∧
    ∃ s, snapshotAt (Serde.ofTable sampleJson) sampleRoot sampleClashed sampleUuids.1 = some s ∧
      sampleTag.text ∈ s.tags ∧ refAt sampleRoot sampleClashed sampleTag = none := by
  have hH := Blake3.ofTable_lawful sampleHashes
  have hJ := Serde.ofTable_lawful sampleJson
  have h₀ : TagsAgree (Serde.ofTable sampleJson) sampleRoot sampleStore :=
    TagsAgree.empty emptyStore_sample
  have hx₁ := exec_sampleCreate
  have hx₂ := exec_sampleClash.1
  rw [sampleCreate] at hx₁ hx₂
  obtain ⟨s, s₁, json₁, htags, hj, -, hrec₁⟩ := createSnapshot_ok hH h₀.toRecords hx₁
  obtain ⟨-, s₂, json₂, -, -, hf, hrec₂⟩ :=
    createSnapshot_ok hH ((tagRun_sample fun _ => True).agree hH hJ h₀).1.toRecords hx₂
  refine ⟨emptyStore_sample, exec_sampleCreate, exec_sampleClash.1, s, ?_, ?_,
    exec_sampleClash.2⟩
  · have hne : sampleUuids.1 ≠ sampleUuids.2 := fun h =>
      absurd (congrArg Uuid.text h) (by decide)
    exact (Records.snapshotAt_other hf hrec₂ hne).trans
      (Records.snapshotAt_recorded hJ hj hrec₁)
  · rw [htags]
    decide

end Sample

end SandD
