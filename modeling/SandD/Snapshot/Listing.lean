import SandD.Lib.SortedBy
import SandD.Posix.Order
import SandD.Snapshot.Names

/-!
# Listing snapshots

`list_snapshots` goes two ways to the snapshots: through the files of the snapshot directory, or
through the refs of the tags it is given.  It sorts what it finds and drops neighbours with the
same identifier.

* `SnapshotManager.Stored`: the snapshots that are stored;
* `SnapshotManager.Catalogued`: every snapshot file parses and carries its identifier, and every
  ref names a snapshot that is stored;
* `SnapshotManager.Lists`: what is expected of `list_snapshots`;
* `lists_exactly`: **the lists are exact, sorted and do not depend on any order**.
-/

namespace SandD

open Posix SnapshotManager
open Fallible (exec)

/-! ### Sorting -/

theorem orders_newestFirst : Orders NewestFirst (·.id) := fun _ _ => NewestFirst.id_eq

/-! ### What is stored -/

instance : Inhabited SnapshotInfo := ⟨⟨"", 0, "", [], 0, 0⟩⟩

/-- The snapshot in a file. -/
def snapshotIn (J : Serde) (fs : FS) (p : PathBuf) : Option Snapshot :=
  match fs.read p with
  | .ok b => (fromUtf8 b).bind J.snapshotFromStr
  | .error _ => none

namespace SnapshotManager

variable (M : SnapshotManager) (J : Serde) (fs : FS)

/-- The name `n` is that of a snapshot file. -/
def HasFile (n : FileName) : Prop :=
  (∃ names, fs.readDir M.snapshotsDir = .ok names ∧ n ∈ names) ∧
    extension n.bytes = some (utf8 "json")

/-- A snapshot that is stored. -/
def Stored (info : SnapshotInfo) : Prop :=
  ∃ n s, M.HasFile fs n ∧ snapshotIn J fs (M.snapshotsDir ++ [.name n]) = some s ∧
    info = s.toInfo

/-- There is a ref for a tag. -/
def HasRef (tag : String) : Prop := fs.pathExists (M.tagsDir.join (utf8 tag))

/-- The ref of a tag points to a snapshot that is stored. -/
def PointsTo (tag : String) (info : SnapshotInfo) : Prop :=
  M.idUnder fs tag = .ok (some info.id) ∧ M.Stored J fs info

/-- Each snapshot file `<id>.json` parses and carries `id`, and each ref names a snapshot that is
stored. -/
structure Catalogued : Prop where
  opens : ∃ names, fs.readDir M.snapshotsDir = .ok names
  parses : ∀ n, M.HasFile fs n → ∃ s, n.bytes = utf8 s!"{s.id}.json" ∧
    snapshotIn J fs (M.snapshotsDir ++ [.name n]) = some s
  refs : ∀ tag, validateTagName tag = .ok () → M.HasRef fs tag → ∃ info, M.PointsTo J fs tag info

/-- Tags that are valid and have refs. -/
def Known (tags : List String) : Prop :=
  ∀ tag ∈ tags, validateTagName tag = .ok () ∧ M.HasRef fs tag

/-- What is expected of `list_snapshots`. -/
structure Lists (K : Kernel) : Prop where
  /-- Without tags it gives every snapshot that is stored once, the newest first. -/
  all : ∃ l, exec K.handle (M.listSnapshots J none) fs = (.ok l, fs) ∧
    (∀ info, info ∈ l ↔ M.Stored J fs info) ∧ (l.map (·.id)).Nodup ∧ l.Pairwise NewestFirst
  /-- With tags it gives those their refs point to, as they come in the whole list. -/
  tagged : ∀ tags, M.Known fs tags → ∃ l l',
    exec K.handle (M.listSnapshots J (some tags)) fs = (.ok l, fs) ∧
    (∀ info, info ∈ l ↔ ∃ tag ∈ tags, M.PointsTo J fs tag info) ∧ (l.map (·.id)).Nodup ∧
    exec K.handle (M.listSnapshots J none) fs = (.ok l', fs) ∧ l.Sublist l'
  /-- The order of the tags, and how often they come, does not matter. -/
  set : ∀ tags tags', M.Known fs tags → (∀ tag, tag ∈ tags ↔ tag ∈ tags') →
    exec K.handle (M.listSnapshots J (some tags')) fs =
      exec K.handle (M.listSnapshots J (some tags)) fs
  /-- It fails if and only if a tag is invalid or has no ref. -/
  fails : ∀ tags, (∃ e, (exec K.handle (M.listSnapshots J (some tags)) fs).1 = .error e) ↔
    ∃ tag ∈ tags, validateTagName tag ≠ .ok () ∨ ¬ M.HasRef fs tag
  /-- The order of the directory does not matter. -/
  orderless : ∀ fs', SameTree fs fs' → ∀ tags,
    (exec K.handle (M.listSnapshots J tags) fs').1 = (exec K.handle (M.listSnapshots J tags) fs).1

end SnapshotManager

variable {K : Kernel} {J : Serde} {M : SnapshotManager} {fs fs' : FS}

theorem infoAt_eq_ok {id : String} {info : SnapshotInfo} :
    M.infoAt J fs id = .ok info ↔
      ∃ s, snapshotIn J fs (M.snapshotFile id) = some s ∧ info = s.toInfo := by
  unfold infoAt snapshotIn
  cases fs.read (M.snapshotFile id) with
  | error e => simp [infoFrom]
  | ok b =>
    cases hb : fromUtf8 b with
    | none => simp [infoFrom, hb]
    | some json =>
      cases hs : J.snapshotFromStr json with
      | none => simp [infoFrom, hb, Serde.decodeSnapshot, hs, Except.map]
      | some s => simp [infoFrom, hb, Serde.decodeSnapshot, hs, Except.map, eq_comm]

/-- The path of a snapshot file. -/
theorem snapshotFile_of_bytes {n : FileName} {id : String} (h : n.bytes = utf8 s!"{id}.json") :
    M.snapshotFile id = M.snapshotsDir ++ [.name n] := by
  rw [SnapshotManager.snapshotFile, ← h, PathBuf.join_of_valid _ n.valid]

/-- The identifier of a snapshot file. -/
theorem idOfFile_of_bytes {n : FileName} {id : String}
    (hext : extension n.bytes = some (utf8 "json")) (h : n.bytes = utf8 s!"{id}.json") :
    SnapshotManager.idOfFile n = some id := by
  have hne : utf8 id ≠ [] := by
    intro hnil
    obtain rfl := utf8_eq_nil.1 hnil
    rw [h] at hext
    exact absurd hext (by decide)
  have hstem : fileStem (utf8 id ++ utf8 ".json") = utf8 id := fileStem_append hne (by decide)
  rw [SnapshotManager.idOfFile, if_pos hext, h, utf8_snapshotFile, hstem, toStringLossy_utf8]

namespace SnapshotManager.Catalogued

variable (h : M.Catalogued J fs)
include h

/-- A snapshot that is stored is found under its identifier. -/
theorem infoAt_stored {info : SnapshotInfo} (hs : M.Stored J fs info) :
    M.infoAt J fs info.id = .ok info := by
  obtain ⟨n, s, hn, hin, rfl⟩ := hs
  obtain ⟨s', hbytes, hin'⟩ := h.parses n hn
  obtain rfl := Option.some_inj.1 (hin.symm.trans hin')
  refine infoAt_eq_ok.2 ⟨s, ?_, rfl⟩
  show snapshotIn J fs (M.snapshotFile s.id) = some s
  rw [snapshotFile_of_bytes hbytes, hin]

theorem stored_unique {info info' : SnapshotInfo} (hs : M.Stored J fs info)
    (hs' : M.Stored J fs info') (hid : info.id = info'.id) : info = info' := by
  have heq := h.infoAt_stored hs
  rw [hid, h.infoAt_stored hs'] at heq
  exact (Except.ok.inj heq).symm

/-- The identifiers that are found in the directory. -/
theorem mem_ids {names : List FileName} (hnames : fs.readDir M.snapshotsDir = .ok names)
    {id : String} : id ∈ names.filterMap SnapshotManager.idOfFile ↔
      ∃ info, M.Stored J fs info ∧ info.id = id := by
  rw [List.mem_filterMap]
  constructor
  · rintro ⟨n, hn, hid⟩
    have hext : extension n.bytes = some (utf8 "json") := by
      by_contra hext
      rw [SnapshotManager.idOfFile, if_neg hext] at hid
      cases hid
    have hfile : M.HasFile fs n := ⟨⟨names, hnames, hn⟩, hext⟩
    obtain ⟨s, hbytes, hin⟩ := h.parses n hfile
    rw [idOfFile_of_bytes hext hbytes] at hid
    exact ⟨s.toInfo, ⟨n, s, hfile, hin, rfl⟩, Option.some_inj.1 hid⟩
  · rintro ⟨info, ⟨n, s, hfile, hin, rfl⟩, rfl⟩
    obtain ⟨⟨names', hnames', hn⟩, hext⟩ := hfile
    obtain rfl := Except.ok.inj (hnames.symm.trans hnames')
    obtain ⟨s', hbytes, hin'⟩ := h.parses n ⟨⟨names, hnames, hn⟩, hext⟩
    obtain rfl := Option.some_inj.1 (hin.symm.trans hin')
    exact ⟨n, hn, idOfFile_of_bytes hext hbytes⟩

/-- What becomes of identifiers that are stored. -/
theorem exec_sorted {ids : List String}
    (hids : ∀ id ∈ ids, ∃ info, M.Stored J fs info ∧ info.id = id) :
    ∃ infos, KeyedBy (·.id) infos ∧ (∀ info, info ∈ infos ↔ info.id ∈ ids ∧ M.Stored J fs info) ∧
      exec K.handle (do
        let snapshots ← ids.mapM (M.getSnapshot J)
        return (snapshots.insertionSort NewestFirst).destutter (·.id ≠ ·.id)) fs =
        (.ok (sortedBy NewestFirst (·.id) infos), fs) := by
  choose! info hinfo using hids
  have hmem : ∀ i, i ∈ ids.map info ↔ i.id ∈ ids ∧ M.Stored J fs i := by
    intro i
    rw [List.mem_map]
    constructor
    · rintro ⟨id, hid, rfl⟩
      exact ⟨(hinfo id hid).2.symm ▸ hid, (hinfo id hid).1⟩
    · rintro ⟨hid, hs⟩
      exact ⟨i.id, hid, h.stored_unique (hinfo _ hid).1 hs (hinfo _ hid).2⟩
  refine ⟨ids.map info, ?_, hmem, ?_⟩
  · exact fun i hi j hj hij => h.stored_unique ((hmem i).1 hi).2 ((hmem j).1 hj).2 hij
  · have hget : ∀ id ∈ ids, exec K.handle (M.getSnapshot J id) fs = (.ok (info id), fs) := by
      intro id hid
      have hat := h.infoAt_stored (hinfo id hid).1
      rw [(hinfo id hid).2] at hat
      rw [exec_getSnapshot, ← hat]
      rfl
    rw [Fallible.exec_bind_ok _ (exec_mapM hget)]
    rfl

/-- The whole list. -/
theorem exec_all : ∃ infos, KeyedBy (·.id) infos ∧ (∀ info, info ∈ infos ↔ M.Stored J fs info) ∧
    exec K.handle (M.listSnapshots J none) fs =
      (.ok (sortedBy NewestFirst (·.id) infos), fs) := by
  obtain ⟨names, hnames⟩ := h.opens
  obtain ⟨infos, hkey, hmem, hexec⟩ := h.exec_sorted (K := K) fun id => (h.mem_ids hnames).1
  refine ⟨infos, hkey, fun info => (hmem info).trans ⟨And.right, fun hs => ⟨?_, hs⟩⟩, ?_⟩
  · exact (h.mem_ids hnames).2 ⟨info, hs, rfl⟩
  · have hdir : exec K.handle (io (IoM.op (.readDir M.snapshotsDir))) fs = (.ok names, fs) := by
      refine (Fallible.exec_mapError ..).trans ?_
      show ((fs.readDir M.snapshotsDir).mapError Error.io, fs) = _
      rw [hnames]
      rfl
    rw [listSnapshots, Fallible.exec_bind_ok _ hdir, Fallible.pure_bind]
    exact hexec

theorem requireId_ok {tag : String} (hv : validateTagName tag = .ok ()) (href : M.HasRef fs tag) :
    ∃ info, M.PointsTo J fs tag info ∧ M.requireId fs tag = .ok info.id := by
  obtain ⟨info, hpoints⟩ := h.refs tag hv href
  refine ⟨info, hpoints, ?_⟩
  rw [SnapshotManager.requireId, hpoints.1]

/-- The list under tags that are valid and have refs. -/
theorem exec_tagged {tags : List String} (hknown : M.Known fs tags) : ∃ infos,
    KeyedBy (·.id) infos ∧
    (∀ info, info ∈ infos ↔ ∃ tag ∈ tags, M.PointsTo J fs tag info) ∧
    exec K.handle (M.listSnapshots J (some tags)) fs =
      (.ok (sortedBy NewestFirst (·.id) infos), fs) := by
  have hids : ∀ tag ∈ tags, ∃ info, M.PointsTo J fs tag info ∧
      M.requireId fs tag = .ok info.id :=
    fun tag htag => h.requireId_ok (hknown tag htag).1 (hknown tag htag).2
  choose! info hpoints hrequire using hids
  have hrun : exec K.handle (M.idsUnder tags) fs =
      (.ok (tags.map fun tag => (info tag).id), fs) := by
    refine (Fallible.exec_bind_ok _ (exec_validate fun tag htag => (hknown tag htag).1)).trans
      (exec_mapM fun tag htag => ?_)
    rw [exec_requireId, hrequire tag htag]
  have hstored : ∀ id ∈ tags.map fun tag => (info tag).id,
      ∃ i, M.Stored J fs i ∧ i.id = id := fun id hid => by
    obtain ⟨tag, htag, rfl⟩ := List.mem_map.1 hid
    exact ⟨info tag, (hpoints tag htag).2, rfl⟩
  obtain ⟨infos, hkey, hmem, hexec⟩ := h.exec_sorted (K := K) hstored
  refine ⟨infos, hkey, fun i => (hmem i).trans ?_, ?_⟩
  · rw [List.mem_map]
    constructor
    · rintro ⟨⟨tag, htag, hid⟩, hs⟩
      exact ⟨tag, htag, h.stored_unique (hpoints tag htag).2 hs hid ▸ hpoints tag htag⟩
    · rintro ⟨tag, htag, hp⟩
      refine ⟨⟨tag, htag, ?_⟩, hp.2⟩
      exact Option.some_inj.1 (Except.ok.inj ((hpoints tag htag).1.symm.trans hp.1))
  · rw [listSnapshots_parts, Fallible.exec_bind_ok _ hrun]
    exact hexec

end SnapshotManager.Catalogued

/-! ### Lists by tag -/

theorem exec_validateAll (tags : List String) :
    exec K.handle (tags.forM fun tag => Fallible.ofExcept (validateTagName tag) : Action Unit) fs =
      (tags.forM validateTagName, fs) := by
  induction tags with
  | nil => rfl
  | cons tag tags ih =>
    refine (Fallible.exec_bind ..).trans ?_
    show _ = (validateTagName tag >>= fun _ => tags.forM validateTagName, fs)
    rw [Fallible.exec_ofExcept]
    cases validateTagName tag with
    | error e => rfl
    | ok u => exact ih

theorem exec_idsUnder (tags : List String) : exec K.handle (M.idsUnder tags) fs =
    ((do
      tags.forM validateTagName
      tags.mapM (M.requireId fs)), fs) := by
  refine (Fallible.exec_bind ..).trans ?_
  rw [exec_validateAll]
  cases tags.forM validateTagName with
  | error e => rfl
  | ok u => exact Fallible.exec_mapM fun tag _ => exec_requireId tag

/-- The list under tags is a function of what is read from refs and snapshot files. -/
theorem exec_listSnapshots_some (tags : List String) :
    exec K.handle (M.listSnapshots J (some tags)) fs =
      ((do
        let ids ← (do
          tags.forM validateTagName
          tags.mapM (M.requireId fs))
        let infos ← ids.mapM (M.infoAt J fs)
        return sortedBy NewestFirst (·.id) infos), fs) := by
  rw [listSnapshots_parts, Fallible.exec_bind, exec_idsUnder]
  cases (do
    tags.forM validateTagName
    tags.mapM (M.requireId fs) : Except Error (List String)) with
  | error e => rfl
  | ok ids =>
    have hinfos : exec K.handle (ids.mapM (M.getSnapshot J)) fs = (ids.mapM (M.infoAt J fs), fs) :=
      Fallible.exec_mapM fun id _ => exec_getSnapshot id
    dsimp only
    rw [Fallible.exec_bind, hinfos]
    show _ = (ids.mapM (M.infoAt J fs) >>= fun infos =>
      pure (sortedBy NewestFirst (·.id) infos), fs)
    cases ids.mapM (M.infoAt J fs) <;> rfl

/-- A loop that gives a result has done so in every round. -/
theorem ok_of_mapM {α β ε : Type} {g : α → Except ε β} {l : List α} {r : List β}
    (h : l.mapM g = .ok r) : ∀ a ∈ l, ∃ b, g a = .ok b := by
  induction l generalizing r with
  | nil => nofun
  | cons a l ih =>
    rw [List.mapM_cons] at h
    cases ha : g a with
    | error e =>
      rw [ha] at h
      cases h
    | ok b =>
      rw [ha] at h
      cases hl : l.mapM g with
      | error e =>
        rw [hl] at h
        cases h
      | ok bs =>
        rintro a' ha'
        rcases List.mem_cons.1 ha' with rfl | ha'
        · exact ⟨b, ha⟩
        · exact ih hl a' ha'

/-- Where no identifier is to be found for one of the tags, the list fails. -/
theorem listSnapshots_fails {tags : List String} {tag : String} (htag : tag ∈ tags)
    (hbad : validateTagName tag ≠ .ok () ∨ ¬ M.HasRef fs tag) :
    ∃ e, (exec K.handle (M.listSnapshots J (some tags)) fs).1 = .error e := by
  cases hr : exec K.handle (M.listSnapshots J (some tags)) fs with
  | mk r fs' =>
    cases r with
    | error e => exact ⟨e, rfl⟩
    | ok l =>
      rw [listSnapshots_parts] at hr
      obtain ⟨ids, s, hids, -⟩ := Fallible.exec_bind_eq_ok _ hr
      obtain ⟨-, hvalid, hmap⟩ := exec_idsUnder_ok.1 hids
      obtain ⟨id, hid⟩ := ok_of_mapM hmap tag htag
      rcases hbad with hbad | hbad
      · exact absurd (hvalid tag htag) hbad
      · have hnone : M.idUnder fs tag = .ok none := if_neg hbad
        rw [SnapshotManager.requireId, hnone] at hid
        cases hid

/-! ### The order of a directory -/

section SameTree

variable (hsame : SameTree fs fs')
include hsame

theorem sameTree_infoAt : M.infoAt J fs' = M.infoAt J fs := by
  funext id
  rw [SnapshotManager.infoAt, hsame.read, ← SnapshotManager.infoAt]

theorem sameTree_idUnder : M.idUnder fs' = M.idUnder fs := by
  funext tag
  simp only [SnapshotManager.idUnder, hsame.pathExists, hsame.read]

theorem sameTree_requireId : M.requireId fs' = M.requireId fs := by
  funext tag
  rw [SnapshotManager.requireId, sameTree_idUnder hsame, ← SnapshotManager.requireId]

theorem sameTree_hasFile {n : FileName} : M.HasFile fs' n ↔ M.HasFile fs n := by
  refine and_congr_left fun _ => ⟨?_, ?_⟩
  · rintro ⟨names, hnames, hn⟩
    obtain ⟨names', hnames', hperm⟩ := SameTree.readDir hsame.symm hnames
    exact ⟨names', hnames', hperm.mem_iff.2 hn⟩
  · rintro ⟨names, hnames, hn⟩
    obtain ⟨names', hnames', hperm⟩ := hsame.readDir hnames
    exact ⟨names', hnames', hperm.mem_iff.2 hn⟩

theorem sameTree_stored {info : SnapshotInfo} : M.Stored J fs' info ↔ M.Stored J fs info := by
  simp only [SnapshotManager.Stored, sameTree_hasFile hsame, snapshotIn, hsame.read]

theorem sameTree_catalogued (h : M.Catalogued J fs) : M.Catalogued J fs' where
  opens := by
    obtain ⟨names, hnames⟩ := h.opens
    obtain ⟨names', hnames', -⟩ := hsame.readDir hnames
    exact ⟨names', hnames'⟩
  parses n hn := by
    obtain ⟨s, hbytes, hin⟩ := h.parses n ((sameTree_hasFile hsame).1 hn)
    refine ⟨s, hbytes, ?_⟩
    rwa [snapshotIn, hsame.read, ← snapshotIn]
  refs tag hvalid href := by
    rw [SnapshotManager.HasRef, hsame.pathExists] at href
    obtain ⟨info, hid, hs⟩ := h.refs tag hvalid href
    refine ⟨info, ?_, (sameTree_stored hsame).2 hs⟩
    rwa [sameTree_idUnder hsame]

end SameTree

/-- **The lists are exact, sorted and do not depend on any order**, wherever each snapshot file
parses and carries its identifier and each ref names a snapshot that is stored. -/
theorem lists_exactly (h : M.Catalogued J fs) : M.Lists J fs K where
  all := by
    obtain ⟨infos, hkey, hmem, hexec⟩ := h.exec_all (K := K)
    refine ⟨_, hexec, fun info => ?_, nodup_sortedBy orders_newestFirst hkey, pairwise_sortedBy⟩
    rw [mem_sortedBy orders_newestFirst hkey, hmem]
  tagged tags hknown := by
    obtain ⟨infos, hkey, hmem, hexec⟩ := h.exec_tagged (K := K) hknown
    obtain ⟨infos', hkey', hmem', hexec'⟩ := h.exec_all (K := K)
    refine ⟨_, _, hexec, fun info => ?_, nodup_sortedBy orders_newestFirst hkey, hexec', ?_⟩
    · rw [mem_sortedBy orders_newestFirst hkey, hmem]
    · refine sortedBy_sublist orders_newestFirst hkey' fun info hinfo => ?_
      obtain ⟨tag, -, hp⟩ := (hmem info).1 hinfo
      exact (hmem' info).2 hp.2
  set tags tags' hknown hsame := by
    have hknown' : M.Known fs tags' := fun tag htag => hknown tag ((hsame tag).2 htag)
    obtain ⟨infos, hkey, hmem, hexec⟩ := h.exec_tagged (K := K) hknown
    obtain ⟨infos', hkey', hmem', hexec'⟩ := h.exec_tagged (K := K) hknown'
    rw [hexec, hexec', sortedBy_congr orders_newestFirst hkey fun info => ?_]
    rw [hmem, hmem']
    simp only [hsame]
  fails tags := by
    constructor
    · rintro ⟨e, he⟩
      by_contra hgood
      push Not at hgood
      have hknown : M.Known fs tags := hgood
      obtain ⟨infos, -, -, hexec⟩ := h.exec_tagged (K := K) hknown
      rw [hexec] at he
      cases he
    · rintro ⟨tag, htag, hbad⟩
      exact listSnapshots_fails htag hbad
  orderless fs' hsame tags := by
    cases tags with
    | some tags =>
      rw [exec_listSnapshots_some, exec_listSnapshots_some, sameTree_infoAt hsame,
        sameTree_requireId hsame]
    | none =>
      obtain ⟨infos, hkey, hmem, hexec⟩ := h.exec_all (K := K)
      obtain ⟨infos', hkey', hmem', hexec'⟩ := (sameTree_catalogued hsame h).exec_all (K := K)
      rw [hexec, hexec', sortedBy_congr orders_newestFirst hkey fun info => ?_]
      rw [hmem, hmem', sameTree_stored hsame]

/-! ### Stores that are in order -/

section Ledger

variable {root : Loc}

theorem idUnder_of_hasRef {tag : String} (h : M.HasRef fs tag) : M.idUnder fs tag ≠ .ok none := by
  have heq : M.idUnder fs tag = _ := if_pos h
  rw [heq]
  cases fs.read (M.tagsDir.join (utf8 tag)) with
  | error e => nofun
  | ok b => cases hb : fromUtf8 b <;> simp [hb]

/-- The identifier in the ref of a tag, in a store whose refs are files. -/
theorem idUnder_eq (hl : Layout root fs) (t : Tag) : (managerAt root).idUnder fs t.text =
    match refAt root fs t with
    | none => .ok none
    | some data =>
      match fromUtf8 data with
      | none => .error .utf8
      | some text => .ok (some (trim text)) :=
  congrArg Prod.fst ((exec_getSnapshotByTag_idUnder (K := ⟨0, 0, 0⟩) t.text).symm.trans
    (exec_getSnapshotByTag_file hl t))

theorem readDir_snapshots (hl : Layout root fs) :
    fs.readDir (managerAt root).snapshotsDir = .ok (fs.names (snapshotsLoc root)) := by
  obtain ⟨m, t, size, hlook⟩ := FS.isDir_iff.1 hl.snapshots.isDir
  rw [managerAt_snapshotsDir, FS.readDir, (FS.leads_toPath hl.snapshots.isDir).self]
  simp only [hlook]

/-- A store that is in order, and whose refs name snapshots, is catalogued. -/
theorem Ledger.catalogued {J : Serde} (h : Ledger J root fs)
    (hrefs : ∀ t data, refAt root fs t = some data →
      ∃ u s, data = utf8 u.text ∧ snapshotAt J root fs u = some s) :
    (managerAt root).Catalogued J fs := by
  have hopens := readDir_snapshots h.layout
  have hplace : ∀ n : FileName, (managerAt root).snapshotsDir ++ [.name n] =
      Loc.toPath (snapshotsLoc root ++ [n]) := fun n => by
    rw [managerAt_snapshotsDir, Loc.toPath_concat]
  have hin : ∀ u : Uuid,
      snapshotIn J fs ((managerAt root).snapshotsDir ++ [.name u.plain.fileName]) =
        snapshotAt J root fs u := by
    intro u
    rw [snapshotIn, hplace, h.layout.snapshots.read, snapshotAt, snapshotLoc]
    cases fileAt fs (snapshotsLoc root ++ [u.plain.fileName]) <;> rfl
  have hbytes : ∀ u s, snapshotAt J root fs u = some s →
      u.plain.fileName.bytes = utf8 s!"{s.id}.json" := by
    intro u s hs
    rw [h.ids u s hs]
    rfl
  refine ⟨⟨_, hopens⟩, fun n hn => ?_, fun tag hvalid href => ?_⟩
  · obtain ⟨⟨names, hnames, hmem⟩, hext⟩ := hn
    obtain rfl := Except.ok.inj (hopens.symm.trans hnames)
    have hsome := (FS.mem_names h.layout.snapshots.isDir).1 hmem
    rcases h.names n (Option.isSome_iff_ne_none.1 hsome) with ⟨u, rfl, s, hs⟩ | ⟨u, rfl⟩
    · exact ⟨s, hbytes u s hs, (hin u).trans hs⟩
    · have hnone := idOfFile_temp u.plain.fileName
      rw [SnapshotManager.idOfFile, if_pos hext] at hnone
      cases hnone
  · have hid := idUnder_eq h.layout ⟨tag, hvalid⟩
    cases hdata : refAt root fs ⟨tag, hvalid⟩ with
    | none =>
      rw [hdata] at hid
      exact absurd hid (idUnder_of_hasRef href)
    | some data =>
      obtain ⟨u, s, rfl, hs⟩ := hrefs _ data hdata
      simp only [hdata, fromUtf8_utf8, u.trim_text] at hid
      rw [← h.ids u s hs] at hid
      refine ⟨s.toInfo, hid, u.plain.fileName, s, ⟨⟨_, hopens, ?_⟩, ?_⟩, (hin u).trans hs, rfl⟩
      · exact (FS.mem_names h.layout.snapshots.isDir).2
          (Option.isSome_iff_ne_none.2 (lookup_of_snapshotAt hs))
      · have hfile := idOfFile_uuid u
        by_contra hext
        rw [SnapshotManager.idOfFile, if_neg hext] at hfile
        cases hfile

end Ledger

section Sample

/-- An empty store, and in it a snapshot file. -/
def sampleFiled : FS :=
  sampleStore.insert (snapshotLoc sampleRoot sampleUuids.1.plain)
    (.file (utf8 (sampleSnapshotJson sampleIds.1 "v1")) 0o644 0)

/-- The same with a ref for the tag `v1`. -/
def sampleListed : FS :=
  sampleFiled.insert (twinTag.loc sampleRoot) (.file (utf8 sampleIds.1) 0o644 0)

theorem lookup_sampleFiled : sampleFiled.lookup = Function.update sampleStore.lookup
    (snapshotLoc sampleRoot sampleUuids.1.plain)
    (some (.file (utf8 (sampleSnapshotJson sampleIds.1 "v1")) 0o644 0)) := by
  refine (editAt_insert sampleStore emptyStore_sample.layout.snapshots.isDir _).update ?_
  rw [FS.isDir, emptyStore_sample.snapshots]
  rfl

theorem snapshotAt_sampleFiled : snapshotAt (Serde.ofTable twinJson) sampleRoot sampleFiled
    sampleUuids.1 = some (sampleSnapshot sampleIds.1 "v1") := by
  have hfile : sampleFiled.lookup (snapshotLoc sampleRoot sampleUuids.1.plain) =
      some (.file (utf8 (sampleSnapshotJson sampleIds.1 "v1")) 0o644 0) := by
    rw [lookup_sampleFiled, Function.update_self]
  rw [snapshotAt_of_file hfile, fromUtf8_utf8]
  exact (Serde.ofTable_lawful twinJson).snapshot _ _ (by decide +kernel)

theorem ledger_sampleFiled : Ledger (Serde.ofTable twinJson) sampleRoot sampleFiled := by
  refine (Ledger.empty emptyStore_sample).of_snapshot (.inr ⟨_, _, _, rfl⟩) lookup_sampleFiled
    (.inr ⟨_, snapshotAt_sampleFiled, rfl, fun x hx => ?_⟩)
  obtain rfl : x = "v1" := List.mem_singleton.1 hx
  exact ⟨twinTag, rfl⟩

theorem tags_sampleFiled (n : FileName) :
    sampleFiled.lookup (tagsLoc sampleRoot ++ [n]) = none := by
  rw [lookup_sampleFiled, snapshotLoc, Function.update_of_ne (snapshotsLoc_ne_tagsLoc _ _ _).symm]
  exact emptyStore_sample.tags n

theorem lookup_sampleListed : sampleListed.lookup = Function.update sampleFiled.lookup
    (twinTag.loc sampleRoot) (some (.file (utf8 sampleIds.1) 0o644 0)) := by
  refine (editAt_insert sampleFiled ledger_sampleFiled.layout.tags.isDir _).update ?_
  rw [FS.isDir, tags_sampleFiled]
  rfl

theorem catalogued_sampleListed :
    (managerAt sampleRoot).Catalogued (Serde.ofTable twinJson) sampleListed := by
  have hledger : Ledger (Serde.ofTable twinJson) sampleRoot sampleListed :=
    ledger_sampleFiled.of_ref (.inr ⟨_, _, _, by decide, rfl⟩) lookup_sampleListed
  refine hledger.catalogued fun t data hdata =>
    ⟨sampleUuids.1, sampleSnapshot sampleIds.1 "v1", ?_, ?_⟩
  · obtain ⟨m, mtime, hfile⟩ := fileAt_eq_some.1 hdata
    rw [lookup_sampleListed] at hfile
    by_cases heq : t.loc sampleRoot = twinTag.loc sampleRoot
    · rw [heq, Function.update_self] at hfile
      cases hfile
      rfl
    · rw [Function.update_of_ne heq, Tag.loc, tags_sampleFiled] at hfile
      cases hfile
  · rw [snapshotAt_of_ref lookup_sampleListed, snapshotAt_sampleFiled]

/-- The lists of this store. -/
theorem lists_exactly_sample :
    (managerAt sampleRoot).Lists (Serde.ofTable twinJson) sampleListed sampleKernel :=
  lists_exactly catalogued_sampleListed

end Sample

end SandD
