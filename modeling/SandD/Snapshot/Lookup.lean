import SandD.Snapshot.Steps
import SandD.Snapshot.Tags

/-!
# Looking snapshots up

`getSnapshot`, `findSnapshotByTag` and `listSnapshots` as functions of what is stored, in a
snapshot root that calls may have left in the middle of something.

* `Ledger`: the invariant, which leftovers do not upset;
* `infoFrom`, `foundUnder`: what `getSnapshot` makes of a file, and `findSnapshotByTag` of a ref;
* `exec_getSnapshot`, `exec_findSnapshotByTag`, `exec_listSnapshots`;
* `SameLookups`: all of them answer the same.
-/

namespace SandD

open Posix ObjectStore SnapshotManager
open Fallible (exec)

variable {K : Kernel} {H : Blake3} {J : Serde} {root : Loc} {fs fs' : FS}

/-! ### The invariant -/

/-- A snapshot root whose snapshot files are complete, and in which nothing else is beside them but
temporary files.  The refs hold no path. -/
structure Ledger (J : Serde) (root : Loc) (fs : FS) : Prop where
  layout : Layout root fs
  names : ∀ n, fs.lookup (snapshotsLoc root ++ [n]) ≠ none →
    (∃ u : Uuid, n = u.plain.fileName ∧ ∃ s, snapshotAt J root fs u = some s) ∨
      ∃ u : Uuid, n = u.plain.fileName.temp
  ids : ∀ u s, snapshotAt J root fs u = some s → s.id = u.text
  valid : ∀ u s, snapshotAt J root fs u = some s → ∀ x ∈ s.tags, ∃ t : Tag, t.text = x
  refs : ∀ n data, fileAt fs (tagsLoc root ++ [n]) = some data → slash ∉ data

theorem snapshotAt_of_file {u : Uuid} {data : Bytes} {m : Mode} {t : ℤ}
    (h : fs.lookup (snapshotLoc root u.plain) = some (.file data m t)) :
    snapshotAt J root fs u = (fromUtf8 data).bind J.snapshotFromStr := by
  rw [snapshotAt, fileAt_eq_some.2 ⟨m, t, h⟩, Option.bind_some]

theorem snapshotAt_none {u : Uuid} (h : fs.lookup (snapshotLoc root u.plain) = none) :
    snapshotAt J root fs u = none := by
  rw [snapshotAt, fileAt, h]
  rfl

/-- The snapshots do not depend on the refs. -/
theorem snapshotAt_of_ref {n : FileName} {new : Option Node}
    (hup : fs'.lookup = Function.update fs.lookup (tagsLoc root ++ [n]) new) (u : Uuid) :
    snapshotAt J root fs' u = snapshotAt J root fs u :=
  snapshotAt_congr (by
    rw [hup]
    exact Function.update_of_ne (snapshotsLoc_ne_tagsLoc root _ n) ..)

theorem snapshotAt_of_refs {t n : FileName} {old new : Option Node}
    (hup : fs'.lookup = Function.update (Function.update fs.lookup (tagsLoc root ++ [t]) old)
      (tagsLoc root ++ [n]) new) (u : Uuid) :
    snapshotAt J root fs' u = snapshotAt J root fs u :=
  snapshotAt_congr (by
    rw [hup]
    exact (Function.update_of_ne (snapshotsLoc_ne_tagsLoc root _ n) ..).trans
      (Function.update_of_ne (snapshotsLoc_ne_tagsLoc root _ t) ..))

theorem snapshotAt_describes (hJ : J.Lawful) {u : Uuid} {tags : List String} {json : String}
    (hj : Describes J u tags json) {m : Mode} {t : ℤ}
    (h : fs.lookup (snapshotLoc root u.plain) = some (.file (utf8 json) m t)) :
    ∃ s, snapshotAt J root fs u = some s ∧ s.id = u.text ∧ s.tags = tags ∧
      ∀ x ∈ s.tags, ∃ t : Tag, t.text = x := by
  obtain ⟨snap, hid, rfl, hvalid, henc⟩ := hj
  refine ⟨snap, ?_, hid, rfl, hvalid⟩
  rw [snapshotAt_of_file h, fromUtf8_utf8, Option.bind_some]
  refine hJ.snapshot snap json ?_
  unfold Serde.encodeSnapshot at henc
  split at henc
  next j heq => exact heq.trans (congrArg some (Except.ok.inj henc))
  next => cases henc

/-- A file takes the place of another one. -/
theorem Layout.renamed (hl : Layout root fs) {d : Loc} {t n : FileName} {data : Bytes} {m : Mode}
    {mtime : ℤ} (hd : d = snapshotsLoc root ∨ d = tagsLoc root)
    (hfile : fs.lookup (d ++ [t]) = some (.file data m mtime))
    (hup : fs'.lookup = Function.update (Function.update fs.lookup (d ++ [t]) none) (d ++ [n])
      (fs.lookup (d ++ [t]))) : Layout root fs' := by
  rw [hfile] at hup
  by_cases heq : t = n
  · subst heq
    rw [Function.update_idem] at hup
    exact hl.update hd (.inr ⟨data, m, mtime, rfl⟩) hup
  · exact RefStep.layout (.rename d t n data m mtime hd heq hfile hup) hl

namespace Ledger

/-- What may become of the files among the snapshots and of the refs. -/
theorem of_changes (h : Ledger J root fs) (hl : Layout root fs')
    (hsnap : ∀ n, fs'.lookup (snapshotsLoc root ++ [n]) = fs.lookup (snapshotsLoc root ++ [n]) ∨
      fs'.lookup (snapshotsLoc root ++ [n]) = none ∨ (∃ u : Uuid, n = u.plain.fileName.temp) ∨
      ∃ (u : Uuid) (s : Snapshot), n = u.plain.fileName ∧ snapshotAt J root fs' u = some s ∧
        s.id = u.text ∧ ∀ x ∈ s.tags, ∃ t : Tag, t.text = x)
    (href : ∀ n, fs'.lookup (tagsLoc root ++ [n]) = fs.lookup (tagsLoc root ++ [n]) ∨
      ∀ data, fileAt fs' (tagsLoc root ++ [n]) = some data → slash ∉ data) :
    Ledger J root fs' := by
  have hold : ∀ (u : Uuid) s, snapshotAt J root fs' u = some s → snapshotAt J root fs u = some s ∨
      s.id = u.text ∧ ∀ x ∈ s.tags, ∃ t : Tag, t.text = x := by
    intro u s hs
    rcases hsnap u.plain.fileName with hsame | hnone | ⟨v, hv⟩ | ⟨v, s', hv, hs', hid, hvalid⟩
    · exact .inl ((snapshotAt_congr hsame).symm.trans hs)
    · cases (snapshotAt_none hnone).symm.trans hs
    · exact absurd hv.symm (Plain.temp_ne_fileName v.plain u.plain)
    · obtain rfl := Uuid.fileName_injective hv
      obtain rfl := Option.some_inj.1 (hs'.symm.trans hs)
      exact .inr ⟨hid, hvalid⟩
  refine ⟨hl, fun n hn => ?_, fun u s hs => ?_, fun u s hs => ?_, fun n data hdata => ?_⟩
  · rcases hsnap n with hsame | hnone | htemp | ⟨u, s, rfl, hs, -⟩
    · rcases h.names n (hsame ▸ hn) with ⟨u, rfl, s, hs⟩ | htemp
      · exact .inl ⟨u, rfl, s, (snapshotAt_congr hsame).trans hs⟩
      · exact .inr htemp
    · exact absurd hnone hn
    · exact .inr htemp
    · exact .inl ⟨u, rfl, s, hs⟩
  · rcases hold u s hs with hs | ⟨hid, -⟩
    · exact h.ids u s hs
    · exact hid
  · rcases hold u s hs with hs | ⟨-, hvalid⟩
    · exact h.valid u s hs
    · exact hvalid
  · rcases href n with hsame | hfree
    · exact h.refs n data ((fileAt_congr hsame).symm.trans hdata)
    · exact hfree data hdata

theorem beneath (h : Ledger J root fs) (hb : Beneath root fs fs') : Ledger J root fs' :=
  h.of_changes hb.layout (fun n => .inl (hb.snapshots n)) fun n => .inl (hb.tags n)

theorem of_ref {n : FileName} {new : Option Node} (h : Ledger J root fs)
    (hnew : new = none ∨ ∃ data m t, slash ∉ data ∧ new = some (.file data m t))
    (hup : fs'.lookup = Function.update fs.lookup (tagsLoc root ++ [n]) new) :
    Ledger J root fs' := by
  refine h.of_changes (h.layout.update (.inr rfl) ?_ hup) (fun n' => .inl ?_) fun n' => ?_
  · exact hnew.imp_right fun ⟨data, m, t, _, heq⟩ => ⟨data, m, t, heq⟩
  · rw [hup, Function.update_of_ne (snapshotsLoc_ne_tagsLoc root n' n)]
  · by_cases heq : n' = n
    · subst heq
      refine .inr fun data hdata => ?_
      obtain ⟨m, t, hfile⟩ := fileAt_eq_some.1 hdata
      rw [hup, Function.update_self] at hfile
      rcases hnew with rfl | ⟨data', m', t', hfree, rfl⟩ <;> cases hfile
      exact hfree
    · rw [hup, Function.update_of_ne (by simpa using heq)]
      exact .inl rfl

/-- A ref takes the place of its temporary file. -/
theorem tagged (h : Ledger J root fs) {t n : FileName}
    (htemp : fs.lookup (tagsLoc root ++ [t]) ≠ none)
    (hup : fs'.lookup = Function.update (Function.update fs.lookup (tagsLoc root ++ [t]) none)
      (tagsLoc root ++ [n]) (fs.lookup (tagsLoc root ++ [t]))) : Ledger J root fs' := by
  obtain ⟨data, m, mtime, hfile⟩ := (h.layout.tags.cases t).resolve_left htemp
  refine h.of_changes (h.layout.renamed (.inr rfl) hfile hup) (fun n' => .inl ?_) fun n' => ?_
  · rw [hup, Function.update_of_ne (snapshotsLoc_ne_tagsLoc root n' n),
      Function.update_of_ne (snapshotsLoc_ne_tagsLoc root n' t)]
  · by_cases heq : n' = n
    · subst heq
      refine .inr fun data' hdata' => h.refs t data' ?_
      rwa [fileAt, hup, Function.update_self] at hdata'
    · have hne : tagsLoc root ++ [n'] ≠ tagsLoc root ++ [n] := by simpa using heq
      by_cases heq' : n' = t
      · subst heq'
        refine .inr fun data' hdata' => ?_
        rw [fileAt, hup, Function.update_of_ne hne, Function.update_self] at hdata'
        cases hdata'
      · rw [hup, Function.update_of_ne hne, Function.update_of_ne (by simpa using heq')]
        exact .inl rfl

/-- A temporary file among the snapshots comes, goes or changes. -/
theorem of_temp {u : Uuid} {new : Option Node} (h : Ledger J root fs)
    (hnew : new = none ∨ ∃ data m t, new = some (.file data m t))
    (hup : fs'.lookup = Function.update fs.lookup (u.tempLoc root) new) : Ledger J root fs' := by
  refine h.of_changes (h.layout.update (.inl rfl) hnew hup) (fun n => ?_) fun n => .inl ?_
  · by_cases heq : n = u.plain.fileName.temp
    · exact .inr (.inr (.inl ⟨u, heq⟩))
    · rw [hup, Uuid.tempLoc, Function.update_of_ne (by simpa using heq)]
      exact .inl rfl
  · rw [hup, Uuid.tempLoc, Function.update_of_ne (snapshotsLoc_ne_tagsLoc root _ n).symm]

/-- A snapshot file takes its place, or goes. -/
theorem of_snapshot {u : Uuid} {new : Option Node} (h : Ledger J root fs)
    (hnew : new = none ∨ ∃ data m t, new = some (.file data m t))
    (hup : fs'.lookup = Function.update fs.lookup (snapshotLoc root u.plain) new)
    (hs : new = none ∨ ∃ s, snapshotAt J root fs' u = some s ∧ s.id = u.text ∧
      ∀ x ∈ s.tags, ∃ t : Tag, t.text = x) : Ledger J root fs' := by
  refine h.of_changes (h.layout.update (.inl rfl) hnew hup) (fun n => ?_) fun n => .inl ?_
  · by_cases heq : n = u.plain.fileName
    · subst heq
      rcases hs with rfl | ⟨s, hs⟩
      · rw [hup, snapshotLoc, Function.update_self]
        exact .inr (.inl rfl)
      · exact .inr (.inr (.inr ⟨u, s, rfl, hs⟩))
    · rw [hup, snapshotLoc, Function.update_of_ne (by simpa using heq)]
      exact .inl rfl
  · rw [hup, snapshotLoc, Function.update_of_ne (snapshotsLoc_ne_tagsLoc root _ n).symm]

/-- Any file may go. -/
theorem removed (h : Ledger J root fs) {v : Loc} (hv : fs.isDir v = false)
    (hup : fs'.lookup = Function.update fs.lookup v none) : Ledger J root fs' := by
  have hold : ∀ w nd, fs'.lookup w = some nd → fs.lookup w = some nd := by
    intro w nd hw
    by_cases heq : w = v
    · rw [hup, heq, Function.update_self] at hw
      cases hw
    · rwa [hup, Function.update_of_ne heq] at hw
  have hdir : ∀ {w}, fs.isDir w → fs'.isDir w := by
    intro w hw
    have hne : w ≠ v := by
      rintro rfl
      cases hv.symm.trans hw
    rwa [FS.isDir, hup, Function.update_of_ne hne]
  have hclear : ∀ {d}, Clear fs d → Clear fs' d := fun hd w hw hlink => by
    obtain ⟨l, t, hl⟩ := FS.isLink_iff.1 hlink
    exact hd w hw (FS.isLink_iff.2 ⟨l, t, hold w _ hl⟩)
  have hfiles : ∀ {d}, FilesDir fs d → FilesDir fs' d := fun hd =>
    ⟨hclear hd.clear, hdir hd.isDir, fun n nd hnd => hd.file n nd (hold _ nd hnd)⟩
  have hthere : ∀ w, fs'.lookup w = fs.lookup w ∨ fs'.lookup w = none := by
    intro w
    cases hw : fs'.lookup w with
    | none => exact .inr rfl
    | some nd => exact .inl (hold w nd hw).symm
  refine h.of_changes ⟨hdir h.layout.isDir, hclear h.layout.objects, hfiles h.layout.snapshots,
    hfiles h.layout.tags⟩ (fun n => (hthere _).imp_right .inl) fun n => (hthere _).imp_right ?_
  intro hnone data hdata
  rw [fileAt, hnone] at hdata
  cases hdata

/-- The snapshot file takes the place of its temporary file. -/
theorem saved (h : Ledger J root fs) (hJ : J.Lawful) {u : Uuid} {tags : List String} {json : String}
    (hj : Describes J u tags json) (htemp : fileAt fs (u.tempLoc root) = some (utf8 json))
    (hup : fs'.lookup = Function.update (Function.update fs.lookup (u.tempLoc root) none)
      (snapshotLoc root u.plain) (fs.lookup (u.tempLoc root))) :
    Ledger J root fs' ∧ ∃ s, snapshotAt J root fs' u = some s ∧ s.tags = tags := by
  obtain ⟨m, t, hfile⟩ := fileAt_eq_some.1 htemp
  have hfile' : fs'.lookup (snapshotLoc root u.plain) = some (.file (utf8 json) m t) := by
    rw [hup, Function.update_self, hfile]
  obtain ⟨s, hs, hid, htags, hvalid⟩ := snapshotAt_describes hJ hj hfile'
  have hupdate : ∀ {d n}, (d = snapshotsLoc root ∨ d = tagsLoc root) →
      d ++ [n] ≠ u.tempLoc root → d ++ [n] ≠ snapshotLoc root u.plain →
      fs'.lookup (d ++ [n]) = fs.lookup (d ++ [n]) := fun _ h₁ h₂ => by
    rw [hup, Function.update_of_ne h₂, Function.update_of_ne h₁]
  refine ⟨h.of_changes (h.layout.renamed (.inl rfl) hfile hup) (fun n => ?_) (fun n => .inl ?_), s,
    hs, htags⟩
  · by_cases heq : n = u.plain.fileName
    · exact .inr (.inr (.inr ⟨u, s, heq, hs, hid, hvalid⟩))
    · by_cases heq' : n = u.plain.fileName.temp
      · exact .inr (.inr (.inl ⟨u, heq'⟩))
      · exact .inl (hupdate (.inl rfl) (by simpa [Uuid.tempLoc] using heq')
          (by simpa [snapshotLoc] using heq))
  · exact hupdate (.inr rfl) (snapshotsLoc_ne_tagsLoc root _ n).symm
      (snapshotsLoc_ne_tagsLoc root _ n).symm

theorem empty (h : EmptyStore root fs) : Ledger J root fs where
  layout := h.layout
  names n hn := absurd (h.snapshots n) hn
  ids u s hs := by cases (snapshotAt_none (h.snapshots _)).symm.trans hs
  valid u s hs := by cases (snapshotAt_none (h.snapshots _)).symm.trans hs
  refs n data hdata := by
    rw [fileAt, h.tags n] at hdata
    cases hdata

theorem elsewhere (h : Ledger J root fs)
    (heq : ∀ v, v <+: root ∨ root <+: v → fs'.lookup v = fs.lookup v) : Ledger J root fs' := by
  refine h.of_changes (h.layout.elsewhere heq) (fun n => .inl (heq _ (.inr ?_)))
    fun n => .inl (heq _ (.inr ?_))
  · rw [snapshotsLoc, List.append_assoc]
    exact List.prefix_append _ _
  · rw [tagsLoc, List.append_assoc]
    exact List.prefix_append _ _

end Ledger

/-! ### `get_snapshot` -/

/-- What `getSnapshot` makes of what is read under an identifier. -/
def infoFrom (J : Serde) (id : String) : Except Errno Bytes → Except Error SnapshotInfo
  | .error e => .error (.context s!"Snapshot {id} not found" (.io e))
  | .ok b =>
    match fromUtf8 b with
    | none => .error (.context s!"Snapshot {id} not found" .utf8)
    | some json => (J.decodeSnapshot json).map Snapshot.toInfo

theorem exec_readToString (p : PathBuf) : exec K.handle (readToString p) fs =
    (match fs.read p with
      | .error e => .error (.io e)
      | .ok b =>
        match fromUtf8 b with
        | some s => .ok s
        | none => .error .utf8, fs) := by
  have hread : exec K.handle (io (IoM.op (.read p))) fs = ((fs.read p).mapError Error.io, fs) :=
    Fallible.exec_mapError ..
  rw [readToString, Fallible.exec_bind, hread]
  cases fs.read p with
  | error e => rfl
  | ok b =>
    show exec K.handle
      (match fromUtf8 b with | some s => pure s | none => Fallible.fail .utf8 : Action String) fs =
        (match fromUtf8 b with | some s => .ok s | none => .error .utf8, fs)
    cases fromUtf8 b <;> rfl

theorem exec_getSnapshot {M : SnapshotManager} (id : String) :
    exec K.handle (M.getSnapshot J id) fs = (infoFrom J id (fs.read (M.snapshotFile id)), fs) := by
  rw [getSnapshot, Fallible.exec_bind, loadSnapshot, Fallible.exec_bind, withContext,
    Fallible.exec_mapError, exec_readToString]
  cases fs.read (M.snapshotFile id) with
  | error e => rfl
  | ok b =>
    cases hb : fromUtf8 b with
    | none => simp only [infoFrom, hb, Except.mapError]
    | some json =>
      simp only [infoFrom, hb, Except.mapError, Fallible.exec_ofExcept]
      cases J.decodeSnapshot json <;> rfl

theorem FilesDir.read {d : Loc} (hd : FilesDir fs d) (n : FileName) :
    fs.read (Loc.toPath (d ++ [n])) =
      match fileAt fs (d ++ [n]) with
      | some b => .ok b
      | none => .error .enoent := by
  rw [FS.read, FS.stat, hd.resolve true n, fileAt]
  rcases hd.cases n with hnone | ⟨b, m, t, hfile⟩
  · simp only [hnone]
  · simp only [hfile]

/-- What is read under an identifier without `/` is what is at the place of its snapshot file. -/
theorem Layout.read_congr (hl : Layout root fs) (hl' : Layout root fs') {id : String}
    (hid : Slashless id)
    (h : ∀ hp : Plain id, fs'.lookup (snapshotLoc root hp) = fs.lookup (snapshotLoc root hp)) :
    fs'.read ((managerAt root).snapshotFile id) = fs.read ((managerAt root).snapshotFile id) := by
  by_cases h0 : Char.ofNat 0 ∈ id.toList
  · rw [read_of_nul hl hid h0, read_of_nul hl' hid h0]
  · have hp : Plain id := ⟨hid, h0⟩
    have hfile : fileAt fs' (snapshotsLoc root ++ [hp.fileName]) = _ := fileAt_congr (h hp)
    rw [snapshotFile_eq root hp]
    unfold snapshotLoc at hfile ⊢
    rw [hl.snapshots.read, hl'.snapshots.read, hfile]

/-- What is read under the identifier of a snapshot that is stored. -/
theorem read_stored (hl : Layout root fs) {u : Uuid} {s : Snapshot}
    (hs : snapshotAt J root fs u = some s) : ∃ b json,
      fs.read ((managerAt root).snapshotFile u.text) = .ok b ∧ fromUtf8 b = some json ∧
      J.decodeSnapshot json = .ok s := by
  obtain ⟨b, hb, hs⟩ := Option.bind_eq_some_iff.1 hs
  obtain ⟨json, hjson, hs⟩ := Option.bind_eq_some_iff.1 hs
  have hb' : fileAt fs (snapshotsLoc root ++ [u.plain.fileName]) = some b := hb
  refine ⟨b, json, ?_, hjson, ?_⟩
  · rw [snapshotFile_eq root u.plain, snapshotLoc, hl.snapshots.read, hb']
  · rw [Serde.decodeSnapshot, hs]

theorem infoFrom_ok {id json : String} {r : Except Errno Bytes} {s : Snapshot}
    (hr : r = .ok (utf8 json)) (hs : J.decodeSnapshot json = .ok s) :
    infoFrom J id r = .ok s.toInfo := by
  simp only [hr, infoFrom, fromUtf8_utf8, hs]
  rfl

/-- The information on a snapshot that is stored. -/
theorem infoFrom_stored (hl : Layout root fs) {u : Uuid} {s : Snapshot}
    (hs : snapshotAt J root fs u = some s) :
    infoFrom J u.text (fs.read ((managerAt root).snapshotFile u.text)) = .ok s.toInfo := by
  obtain ⟨b, json, hb, hjson, hs⟩ := read_stored hl hs
  exact infoFrom_ok (hb.trans (by rw [utf8_of_fromUtf8 hjson])) hs

/-- What can be read under an identifier without `/` is a snapshot file. -/
theorem Ledger.read_slashless (h : Ledger J root fs) {id : String} (hid : Slashless id) {b : Bytes}
    (hb : fs.read ((managerAt root).snapshotFile id) = .ok b) :
    ∃ u : Uuid, id = u.text ∧ snapshotAt J root fs u = (fromUtf8 b).bind J.snapshotFromStr := by
  by_cases h0 : Char.ofNat 0 ∈ id.toList
  · cases (read_of_nul h.layout hid h0).symm.trans hb
  · have hp : Plain id := ⟨hid, h0⟩
    have hfile : fileAt fs (snapshotsLoc root ++ [hp.fileName]) = some b := by
      rw [snapshotFile_eq root hp, snapshotLoc, h.layout.snapshots.read] at hb
      split at hb
      next b' hb' => exact hb'.trans (congrArg some (Except.ok.inj hb))
      next => cases hb
    obtain ⟨m, t, hlook⟩ := fileAt_eq_some.1 hfile
    rcases h.names hp.fileName (by rw [hlook]; exact Option.some_ne_none _) with ⟨u, hu, -⟩ | ⟨u, hu⟩
    · refine ⟨u, Plain.fileName_inj hu, ?_⟩
      rw [hu] at hlook
      exact snapshotAt_of_file hlook
    · exact absurd hu.symm (Plain.temp_ne_fileName u.plain hp)

/-! ### `find_snapshot_by_tag` -/

/-- What `findSnapshotByTag` makes of the contents of a ref; `get` looks an identifier up. -/
def foundUnder (get : String → Except Error SnapshotInfo) :
    Option Bytes → Except Error (Option SnapshotInfo)
  | none => .ok none
  | some data =>
    match fromUtf8 data with
    | none => .error .utf8
    | some text => (get (trim text)).map some

theorem exec_getSnapshotByTag_file (hl : Layout root fs) (t : Tag) :
    exec K.handle ((managerAt root).getSnapshotByTag t.text) fs =
      (match refAt root fs t with
        | none => .ok none
        | some data =>
          match fromUtf8 data with
          | none => .error .utf8
          | some text => .ok (some (trim text)), fs) := by
  rw [exec_getSnapshotByTag_eq hl, refAt, Tag.loc]
  rcases hl.tags.cases t.name with hnone | ⟨data, m, mt, hfile⟩
  · rw [hnone, fileAt, hnone]
    rfl
  · have hdata : fileAt fs (tagsLoc root ++ [t.name]) = some data := fileAt_eq_some.2 ⟨m, mt, hfile⟩
    rw [hfile, Option.isSome_some, if_pos rfl, Fallible.exec_bind, exec_readToString,
      hl.tags.read, hdata]
    dsimp only
    cases fromUtf8 data <;> rfl

/-- What `findSnapshotByTag` answers. -/
theorem exec_findSnapshotByTag (hl : Layout root fs) (t : Tag) :
    exec K.handle ((managerAt root).findSnapshotByTag J t.text) fs =
      (foundUnder (fun id => infoFrom J id (fs.read ((managerAt root).snapshotFile id)))
        (refAt root fs t), fs) := by
  have hvalid : exec K.handle (Fallible.ofExcept (validateTagName t.text) : Action Unit) fs =
      (.ok (), fs) := by rw [Fallible.exec_ofExcept, t.valid]
  rw [findSnapshotByTag, Fallible.exec_bind, hvalid]
  dsimp only
  rw [Fallible.exec_bind, exec_getSnapshotByTag_file hl]
  cases refAt root fs t with
  | none => rfl
  | some data =>
    cases hd : fromUtf8 data with
    | none => simp only [foundUnder, hd]
    | some text =>
      simp only [foundUnder, hd]
      rw [Fallible.exec_bind, exec_getSnapshot]
      cases infoFrom J (trim text) (fs.read ((managerAt root).snapshotFile (trim text))) <;> rfl

/-- A ref with the identifier of a snapshot that is stored. -/
theorem exec_findSnapshotByTag_stored (hl : Layout root fs) {t : Tag} {u : Uuid} {s : Snapshot}
    (href : refAt root fs t = some (utf8 u.text)) (hs : snapshotAt J root fs u = some s) :
    exec K.handle ((managerAt root).findSnapshotByTag J t.text) fs = (.ok (some s.toInfo), fs) := by
  rw [exec_findSnapshotByTag hl, href, foundUnder, fromUtf8_utf8]
  dsimp only
  rw [u.trim_text, infoFrom_stored hl hs]
  rfl

theorem exec_findSnapshotByTag_none (hl : Layout root fs) {t : Tag}
    (href : refAt root fs t = none) :
    exec K.handle ((managerAt root).findSnapshotByTag J t.text) fs = (.ok none, fs) := by
  rw [exec_findSnapshotByTag hl, href, foundUnder]

/-- An invalid tag is an error whatever is stored. -/
theorem exec_findSnapshotByTag_invalid {tag : String} {e : Error}
    (h : validateTagName tag = .error e) :
    exec K.handle ((managerAt root).findSnapshotByTag J tag) fs = (.error e, fs) := by
  rw [findSnapshotByTag, Fallible.exec_bind, Fallible.exec_ofExcept, h]

theorem mem_of_mem_trim {s : String} {c : Char} (h : c ∈ (trim s).toList) : c ∈ s.toList := by
  unfold trim at h
  rw [String.toList_ofList, List.mem_reverse] at h
  have h := (List.dropWhile_sublist _).subset h
  exact (List.dropWhile_sublist _).subset (List.mem_reverse.1 h)

/-- What a ref holds is no path. -/
theorem Ledger.slashless (h : Ledger J root fs) {t : Tag} {data : Bytes} {text : String}
    (hdata : refAt root fs t = some data) (htext : fromUtf8 data = some text) :
    Slashless (trim text) := by
  intro hmem
  refine h.refs t.name data hdata ?_
  rw [← utf8_of_fromUtf8 htext]
  exact mem_utf8.2 ⟨'/', mem_of_mem_trim hmem, by decide⟩

/-! ### `list_snapshots` -/

theorem exec_mapM {α β : Type} {f : α → Action β} {g : α → β} {l : List α}
    (h : ∀ a ∈ l, exec K.handle (f a) fs = (.ok (g a), fs)) :
    exec K.handle (l.mapM f) fs = (.ok (l.map g), fs) := by
  have hloop : ∀ l acc, (∀ a ∈ l, exec K.handle (f a) fs = (.ok (g a), fs)) →
      exec K.handle (List.mapM.loop f l acc) fs = (.ok (acc.reverse ++ l.map g), fs) := by
    intro l
    induction l with
    | nil => exact fun acc _ => by simp [List.mapM.loop]
    | cons a l ih =>
      intro acc hl
      rw [List.mapM.loop, Fallible.exec_bind_ok _ (hl a List.mem_cons_self),
        ih _ fun b hb => hl b (List.mem_cons_of_mem a hb)]
      simp
  exact hloop l [] h

theorem strLE_total (a b : String) : StrLE a b ∨ StrLE b a := List.le_total (utf8 a) (utf8 b)

instance : Std.Total NewestFirst where
  total a b := by
    rcases Nat.lt_trichotomy a.createdAt b.createdAt with h | h | h
    · exact .inr (.inl h)
    · rcases strLE_total a.id b.id with hid | hid
      · exact .inl (.inr ⟨h, hid⟩)
      · exact .inr (.inr ⟨h.symm, hid⟩)
    · exact .inl (.inl h)

instance : IsTrans SnapshotInfo NewestFirst where
  trans a b c := by
    rintro (hab | ⟨hab, hab'⟩) (hbc | ⟨hbc, hbc'⟩)
    · exact .inl (hbc.trans hab)
    · exact .inl (hbc ▸ hab)
    · exact .inl (hab ▸ hbc)
    · exact .inr ⟨hab.trans hbc, List.le_trans hab' hbc'⟩

/-- Of two snapshots that are both newest first, the identifiers are the same. -/
theorem NewestFirst.id_eq {a b : SnapshotInfo} (h : NewestFirst a b) (h' : NewestFirst b a) :
    a.id = b.id := by
  rcases h with h | ⟨h, hid⟩ <;> rcases h' with h' | ⟨h', hid'⟩
  · exact absurd h' (Nat.lt_asymm h)
  · omega
  · omega
  · exact utf8_injective (List.le_antisymm hid hid')

theorem Plain.bytes_fileName {id : String} (h : Plain id) :
    h.fileName.bytes = utf8 id ++ dot :: utf8 "json" := utf8_snapshotFile id

/-- The identifier of a snapshot file. -/
theorem idOfFile_uuid (u : Uuid) : idOfFile u.plain.fileName = some u.text := by
  have hne : utf8 u.text ≠ [] := fun h => u.nonempty (utf8_eq_nil.1 h)
  rw [idOfFile, u.plain.bytes_fileName, extension_append hne (by decide), if_pos rfl,
    fileStem_append hne (by decide), toStringLossy_utf8]

/-- A temporary file does not count. -/
theorem idOfFile_temp (n : FileName) : idOfFile n.temp = none := by
  have hne : fileStem n.bytes ≠ [] := fileStem_ne_nil n.valid.1
  rw [idOfFile, if_neg]
  show ¬ extension (fileStem n.bytes ++ dot :: utf8 "tmp") = _
  rw [extension_append hne (by decide)]
  decide

/-- The snapshot that is stored as a file which counts. -/
theorem Ledger.idOfFile (h : Ledger J root fs) {n : FileName}
    (hn : fs.lookup (snapshotsLoc root ++ [n]) ≠ none) {id : String} (hid : idOfFile n = some id) :
    ∃ (u : Uuid) (s : Snapshot), n = u.plain.fileName ∧ id = u.text ∧
      snapshotAt J root fs u = some s := by
  rcases h.names n hn with ⟨u, rfl, s, hs⟩ | ⟨u, rfl⟩
  · exact ⟨u, s, rfl, Option.some_inj.1 (hid.symm.trans (idOfFile_uuid u)), hs⟩
  · rw [idOfFile_temp] at hid
    cases hid

theorem lookup_of_snapshotAt {u : Uuid} {s : Snapshot} (h : snapshotAt J root fs u = some s) :
    fs.lookup (snapshotLoc root u.plain) ≠ none := by
  intro hnone
  cases (snapshotAt_none hnone).symm.trans h

/-- The identifiers that `listSnapshots` finds. -/
theorem Ledger.ids_eq (h : Ledger J root fs) {ids : List String}
    (hids : ids = (fs.names (snapshotsLoc root)).filterMap SnapshotManager.idOfFile) :
    ids.Nodup ∧ ∀ id, id ∈ ids ↔ ∃ (u : Uuid) (s : Snapshot), id = u.text ∧
      snapshotAt J root fs u = some s := by
  have hmem := fun n => FS.mem_names (n := n) h.layout.snapshots.isDir
  subst hids
  constructor
  · refine List.pairwise_filterMap.2 ((fs.nodup_names _).imp_of_mem ?_)
    rintro n n' hn hn' hne id hid _ hid' rfl
    obtain ⟨u, s, rfl, hu, -⟩ := h.idOfFile (Option.isSome_iff_ne_none.1 ((hmem n).1 hn)) hid
    obtain ⟨v, s', rfl, hv, -⟩ := h.idOfFile (Option.isSome_iff_ne_none.1 ((hmem n').1 hn')) hid'
    exact hne (congrArg (fun w : Uuid => w.plain.fileName) (Uuid.ext (hu.symm.trans hv)))
  · intro id
    rw [List.mem_filterMap]
    constructor
    · rintro ⟨n, hn, hid⟩
      obtain ⟨u, s, -, hu, hs⟩ := h.idOfFile (Option.isSome_iff_ne_none.1 ((hmem n).1 hn)) hid
      exact ⟨u, s, hu, hs⟩
    · rintro ⟨u, s, rfl, hs⟩
      exact ⟨u.plain.fileName,
        (hmem _).2 (Option.isSome_iff_ne_none.2 (lookup_of_snapshotAt hs)), idOfFile_uuid u⟩

/-- What `listSnapshots` answers: the snapshots that are stored, each once, in order. -/
theorem exec_listSnapshots (h : Ledger J root fs) : ∃ l : List SnapshotInfo, l.Nodup ∧
    (∀ info, info ∈ l ↔ ∃ u s, snapshotAt J root fs u = some s ∧ info = s.toInfo) ∧
    exec K.handle ((managerAt root).listSnapshots J none) fs =
      (.ok ((l.insertionSort NewestFirst).destutter (·.id ≠ ·.id)), fs) := by
  obtain ⟨hnodup, hmem⟩ := h.ids_eq rfl
  set ids := (fs.names (snapshotsLoc root)).filterMap SnapshotManager.idOfFile with hids
  -- the information on each of them
  let info : String → SnapshotInfo := fun id =>
    match infoFrom J id (fs.read ((managerAt root).snapshotFile id)) with
    | .ok i => i
    | .error _ => ⟨id, 0, "", [], 0, 0⟩
  have hinfo : ∀ (u : Uuid) s, snapshotAt J root fs u = some s → info u.text = s.toInfo := by
    intro u s hs
    simp only [info, infoFrom_stored h.layout hs]
  have hget : ∀ id ∈ ids, exec K.handle ((managerAt root).getSnapshot J id) fs =
      (.ok (info id), fs) := by
    intro id hid
    obtain ⟨u, s, rfl, hs⟩ := (hmem id).1 hid
    rw [exec_getSnapshot, infoFrom_stored h.layout hs, hinfo u s hs]
  refine ⟨ids.map info, hnodup.map_on ?_, fun i => ?_, ?_⟩
  · intro id hid id' hid' heq
    obtain ⟨u, s, rfl, hs⟩ := (hmem id).1 hid
    obtain ⟨v, s', rfl, hs'⟩ := (hmem id').1 hid'
    rw [hinfo u s hs, hinfo v s' hs'] at heq
    exact (h.ids u s hs).symm.trans ((congrArg SnapshotInfo.id heq).trans (h.ids v s' hs'))
  · rw [List.mem_map]
    constructor
    · rintro ⟨id, hid, rfl⟩
      obtain ⟨u, s, rfl, hs⟩ := (hmem id).1 hid
      exact ⟨u, s, hs, hinfo u s hs⟩
    · rintro ⟨u, s, hs, rfl⟩
      exact ⟨u.text, (hmem _).2 ⟨u, s, rfl, hs⟩, hinfo u s hs⟩
  · have hdir : fs.readDir (managerAt root).snapshotsDir = .ok (fs.names (snapshotsLoc root)) := by
      obtain ⟨m, t, size, hlook⟩ := FS.isDir_iff.1 h.layout.snapshots.isDir
      rw [managerAt_snapshotsDir, FS.readDir, (FS.leads_toPath h.layout.snapshots.isDir).self]
      simp only [hlook]
    have hnames : exec K.handle (io (IoM.op (.readDir (managerAt root).snapshotsDir))) fs =
        (.ok (fs.names (snapshotsLoc root)), fs) := by
      refine (Fallible.exec_mapError ..).trans ?_
      show ((fs.readDir (managerAt root).snapshotsDir).mapError Error.io, fs) = _
      rw [hdir]
      rfl
    rw [listSnapshots, Fallible.exec_bind_ok _ hnames, Fallible.pure_bind,
      Fallible.exec_bind_ok _ (exec_mapM hget)]
    rfl

/-! ### The same answers -/

/-- Snapshots and tags are looked up with the same results. -/
structure SameLookups (K : Kernel) (J : Serde) (root : Loc) (fs fs' : FS) : Prop where
  list : (exec K.handle ((managerAt root).listSnapshots J none) fs').1 =
    (exec K.handle ((managerAt root).listSnapshots J none) fs).1
  get : ∀ id, Slashless id → (exec K.handle ((managerAt root).getSnapshot J id) fs').1 =
    (exec K.handle ((managerAt root).getSnapshot J id) fs).1
  find : ∀ tag, (exec K.handle ((managerAt root).findSnapshotByTag J tag) fs').1 =
    (exec K.handle ((managerAt root).findSnapshotByTag J tag) fs).1

/-- The order of the list does not matter to `listSnapshots`. -/
theorem insertionSort_congr {l l' : List SnapshotInfo} (hl : l.Nodup) (hl' : l'.Nodup)
    (hmem : ∀ i, i ∈ l ↔ i ∈ l') (hid : ∀ i ∈ l, ∀ j ∈ l, i.id = j.id → i = j) :
    l.insertionSort NewestFirst = l'.insertionSort NewestFirst := by
  have hanti : ∀ i j, i ∈ l.insertionSort NewestFirst → j ∈ l'.insertionSort NewestFirst →
      NewestFirst i j → NewestFirst j i → i = j := fun i j hi hj hij hji =>
    hid i ((List.mem_insertionSort _).1 hi) j ((hmem j).2 ((List.mem_insertionSort _).1 hj))
      (NewestFirst.id_eq hij hji)
  refine List.Perm.eq_of_pairwise hanti (List.pairwise_insertionSort ..)
    (List.pairwise_insertionSort ..) ?_
  exact ((List.perm_insertionSort ..).trans ((List.perm_ext_iff_of_nodup hl hl').2 hmem)).trans
    (List.perm_insertionSort ..).symm

/-- With the same snapshot files and the same refs everything is looked up as before. -/
theorem Ledger.sameLookups (h : Ledger J root fs) (h' : Ledger J root fs')
    (hsnap : ∀ n, (∀ u : Uuid, n ≠ u.plain.fileName.temp) →
      fs'.lookup (snapshotsLoc root ++ [n]) = fs.lookup (snapshotsLoc root ++ [n]))
    (href : ∀ n, fs'.lookup (tagsLoc root ++ [n]) = fs.lookup (tagsLoc root ++ [n])) :
    SameLookups K J root fs fs' := by
  have hplain : ∀ {id : String} (hp : Plain id),
      fs'.lookup (snapshotLoc root hp) = fs.lookup (snapshotLoc root hp) :=
    fun hp => hsnap _ fun u => (Plain.temp_ne_fileName u.plain hp).symm
  have hread := fun id (hid : Slashless id) =>
    h.layout.read_congr h'.layout hid fun hp => hplain hp
  refine ⟨?_, fun id hid => ?_, fun tag => ?_⟩
  · obtain ⟨l, hnodup, hl, hexec⟩ := exec_listSnapshots (K := K) h
    obtain ⟨l', hnodup', hl', hexec'⟩ := exec_listSnapshots (K := K) h'
    rw [hexec, hexec']
    have hsame : ∀ u, snapshotAt J root fs' u = snapshotAt J root fs u :=
      fun u => snapshotAt_congr (hplain u.plain)
    rw [insertionSort_congr hnodup' hnodup]
    · intro i
      rw [hl, hl']
      simp only [hsame]
    · intro i hi j hj hid
      obtain ⟨u, s, hs, rfl⟩ := (hl' i).1 hi
      obtain ⟨v, s', hs', rfl⟩ := (hl' j).1 hj
      have huv : u = v := Uuid.ext ((h'.ids u s hs).symm.trans (hid.trans (h'.ids v s' hs')))
      subst huv
      rw [Option.some_inj.1 (hs.symm.trans hs')]
  · rw [exec_getSnapshot, exec_getSnapshot, hread id hid]
  · cases hv : validateTagName tag with
    | error e => rw [exec_findSnapshotByTag_invalid hv, exec_findSnapshotByTag_invalid hv]
    | ok u =>
      have ht : tag = (⟨tag, hv⟩ : Tag).text := rfl
      rw [ht, exec_findSnapshotByTag h.layout, exec_findSnapshotByTag h'.layout,
        refAt_congr (href _)]
      cases hdata : refAt root fs ⟨tag, hv⟩ with
      | none => rfl
      | some data =>
        cases htext : fromUtf8 data with
        | none => simp only [foundUnder, htext]
        | some text => simp only [foundUnder, htext, hread _ (h.slashless hdata htext)]

section Sample

/-- A snapshot of `/w` with the tag `v1` is created. -/
def twinCreate (u : Uuid) : Action String :=
  (managerAt sampleRoot).createSnapshot (Blake3.ofTable sampleHashes) (Serde.ofTable twinJson)
    (fun _ _ => 1) 3 sampleKernel.now u.text [.name ⟨utf8 "w", validName_w⟩] none (some ["v1"])

/-- The tag `v1`. -/
def twinTag : Tag := ⟨"v1", by decide⟩

end Sample

end SandD
