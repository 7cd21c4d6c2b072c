import SandD.Snapshot.Again
import SandD.Snapshot.Hashes

/-!
# The totals of a snapshot

A snapshot carries the number of its files and links, and the sum of the sizes of its files.

* `Inventory`: the entries of a tree that are not directories, each on its path, so that a sub-tree
  that is shared is counted wherever it is found;
* `Captures.inventory`: counting the workspace counts the entries;
* `Inventory.holds`: so does counting what was restored;
* `totals_agree`: **the totals are those of the stored tree**.
-/

namespace SandD

open Posix ObjectStore SnapshotManager
open Fallible (exec)

variable {K : Kernel} {H : Blake3} {J : Serde} {root r : Loc} {fs fs' : FS}
  {obj obj' : String → Option Bytes} {hash : String} {f : View} {c z : ℕ}

/-! ### Entries of a tree -/

/-- The size of a file. -/
def TreeEntry.blobSize (e : TreeEntry) : ℕ := if e.entryType = .blob then e.size else 0

/-- All entries for files and links below the tree with a hash, and their paths. -/
structure Inventory (J : Serde) (obj : String → Option Bytes) (hash : String)
    (entries : List (Loc × TreeEntry)) : Prop where
  nodup : (entries.map Prod.fst).Nodup
  mem : ∀ q e, (q, e) ∈ entries ↔ EntryAt J obj hash q e ∧ e.entryType ≠ .tree

/-- A file is as long as its entry says. -/
def SizesRight (J : Serde) (obj : String → Option Bytes) (hash : String) : Prop :=
  ∀ q e, EntryAt J obj hash q e → e.entryType = .blob →
    ∃ data, obj e.hash = some data ∧ e.size = data.length

/-- There is one entry on a path. -/
theorem Intact.entryAt_unique (hi : Intact J obj hash) {q : Loc} {e e' : TreeEntry}
    (h : EntryAt J obj hash q e) (h' : EntryAt J obj hash q e') : e = e' := by
  have hname : ∀ {hash : String} {es : List TreeEntry} {n : FileName} {e e' : TreeEntry},
      Intact J obj hash → entriesOf J obj hash = some es → e ∈ es → e' ∈ es →
        n.bytes = utf8 e.name → n.bytes = utf8 e'.name → e = e' := by
    intro hash es n e e' hi hes he he' hn hn'
    exact List.inj_on_of_nodup_map (hi.distinct hes) he he'
      (utf8_injective (hn.symm.trans hn'))
  induction h with
  | here hes he hn =>
    obtain ⟨e₁, he₁, hn₁, ⟨-, rfl⟩ | ⟨-, hq⟩⟩ := (entryAt_cons hes).1 h'
    · exact hname hi hes he he₁ hn hn₁
    · exact absurd rfl hq.ne_nil
  | deeper hes he hn ht hq ih =>
    obtain ⟨e₁, he₁, hn₁, ⟨rfl, -⟩ | ⟨-, hq'⟩⟩ := (entryAt_cons hes).1 h'
    · exact absurd rfl hq.ne_nil
    · obtain rfl := hname hi hes he he₁ hn hn₁
      obtain ⟨hes', -, -, -, -, tree⟩ := hi
      cases hes.symm.trans hes'
      exact ih (tree _ he ht) hq'

/-- Below any entry for a directory the tree is whole. -/
theorem Intact.sizesRight (hi : Intact J obj hash) : SizesRight J obj hash := by
  intro q e hq ht
  induction hq with
  | here hes he hn =>
    obtain ⟨hes', -, -, blob, -⟩ := hi
    cases hes.symm.trans hes'
    obtain ⟨data, hdata, hlen⟩ := blob _ he ht
    exact ⟨data, hdata, hlen.symm⟩
  | deeper hes he hn htree _ ih =>
    obtain ⟨hes', -, -, -, -, tree⟩ := hi
    cases hes.symm.trans hes'
    exact ih (tree _ he htree) ht

/-! ### Counting -/

theorem EntryType.plain_of_isLink {t : EntryType} (h : t.isLink = true) :
    t ≠ .tree ∧ t ≠ .blob := by
  cases t with
  | blob | tree => cases h
  | symlink | symlinkDir => decide

theorem TreeEntry.Of.not_tree_iff {e : TreeEntry} {nd : Node} (h : e.Of obj nd) :
    e.entryType ≠ .tree ↔ nd.counts = true := by
  cases nd with
  | file => simp [h.1, Node.counts]
  | dir => simp [h.1, Node.counts]
  | symlink => exact iff_of_true (EntryType.plain_of_isLink h.1).1 rfl
  | special => exact h.elim

theorem TreeEntry.Of.blobSize {e : TreeEntry} {nd : Node} (h : e.Of obj nd) :
    e.blobSize = nd.size := by
  rw [TreeEntry.blobSize]
  cases nd with
  | file => rw [if_pos h.1]; exact h.2.2.1
  | dir => rw [if_neg (by rw [h.1]; decide)]; rfl
  | symlink => rw [if_neg (EntryType.plain_of_isLink h.1).2]; rfl
  | special => exact h.elim

/-- A path that counts has an entry. -/
theorem Captures.counted (hc : Captures J obj hash f) {q : Loc} (hq : q ≠ []) :
    Counted f q ↔ ∃ e, EntryAt J obj hash q e ∧ e.entryType ≠ .tree := by
  constructor
  · rintro ⟨nd, hnd, hcounts⟩
    obtain ⟨e, he⟩ := hc.all q nd hq hnd (by
      rintro m t rfl
      cases hcounts)
    obtain ⟨nd', hnd', hof⟩ := hc.each q e he
    cases hnd.symm.trans hnd'
    exact ⟨e, he, hof.not_tree_iff.2 hcounts⟩
  · rintro ⟨e, he, ht⟩
    obtain ⟨nd, hnd, hof⟩ := hc.each q e he
    exact ⟨nd, hnd, hof.not_tree_iff.1 ht⟩

/-- **The files of a directory are the entries of its tree.** -/
theorem Captures.inventory (hc : Captures J obj hash f) (hi : Intact J obj hash)
    (hroot : ¬ Counted f []) (h : Totals f c z) :
    ∃ entries, Inventory J obj hash entries ∧ entries.length = c ∧
      (entries.map fun x => x.2.blobSize).sum = z := by
  obtain ⟨ps, hnodup, hmem, rfl, rfl⟩ := h
  have hne : ∀ q ∈ ps, q ≠ [] := by
    rintro q hq rfl
    exact hroot ((hmem []).1 hq).2
  have hentry : ∀ q, ∃ e, q ∈ ps → EntryAt J obj hash q e ∧ e.entryType ≠ .tree := by
    intro q
    by_cases hq : q ∈ ps
    · obtain ⟨e, he⟩ := (hc.counted (hne q hq)).1 ((hmem q).1 hq).2
      exact ⟨e, fun _ => he⟩
    · exact ⟨⟨"", 0, .blob, "", 0, 0⟩, fun h => absurd h hq⟩
  choose entry hentry using hentry
  refine ⟨ps.map fun q => (q, entry q), ⟨?_, fun q e => ?_⟩, List.length_map _, ?_⟩
  · rw [List.map_map]
    exact (List.map_id ps).symm ▸ hnodup
  · rw [List.mem_map]
    constructor
    · rintro ⟨q, hq, rfl, rfl⟩
      exact hentry q hq
    · rintro ⟨he, ht⟩
      have hq : q ∈ ps := (hmem q).2 ⟨trivial, (hc.counted he.ne_nil).2 ⟨e, he, ht⟩⟩
      exact ⟨q, hq, Prod.ext rfl (hi.entryAt_unique (hentry q hq).1 he)⟩
  · rw [List.map_map]
    refine congrArg List.sum (List.map_congr_left fun q hq => ?_)
    obtain ⟨nd, hnd, hof⟩ := hc.each q _ (hentry q hq).1
    rw [Function.comp_apply, hof.blobSize, sizeAt, hnd]
    rfl

theorem TreeEntry.Is.not_tree_iff {e : TreeEntry} {nd : Node} (h : e.Is obj nd) :
    e.entryType ≠ .tree ↔ nd.isDir = false := by
  cases nd with
  | file => exact iff_of_true (by rw [h.1]; decide) rfl
  | dir => exact iff_of_false (fun hne => hne h) nofun
  | symlink => exact iff_of_true (EntryType.plain_of_isLink h.1).1 rfl
  | special => exact h.elim

/-- The paths of a directory that are not those of directories. -/
def NonDirs (f : View) (ps : List Loc) : Prop :=
  ps.Nodup ∧ ∀ q, q ∈ ps ↔ q ≠ [] ∧ ∃ nd, f q = some nd ∧ nd.isDir = false

/-- A directory with a recorded tree has the files and links that are recorded. -/
theorem Inventory.holds {entries : List (Loc × TreeEntry)} (h : Inventory J obj hash entries)
    (hholds : HoldsTree J obj hash f) : NonDirs f (entries.map Prod.fst) := by
  refine ⟨h.nodup, fun q => ?_⟩
  rw [List.mem_map]
  constructor
  · rintro ⟨⟨q, e⟩, hmem, rfl⟩
    obtain ⟨he, ht⟩ := (h.mem q e).1 hmem
    obtain ⟨nd, hnd, his⟩ := hholds.each q e he
    exact ⟨he.ne_nil, nd, hnd, his.not_tree_iff.1 ht⟩
  · rintro ⟨hq, nd, hnd, hdir⟩
    obtain ⟨e, he⟩ := hholds.only q hq (by rw [hnd]; rfl)
    obtain ⟨nd', hnd', his⟩ := hholds.each q e he
    cases hnd.symm.trans hnd'
    exact ⟨(q, e), (h.mem q e).2 ⟨he, his.not_tree_iff.2 hdir⟩, rfl⟩

/-- The same tree in another store. -/
theorem Inventory.agree {entries : List (Loc × TreeEntry)} (h : Inventory J obj hash entries)
    (ha : Agree obj obj') (hi : Intact J obj hash) (hi' : Intact J obj' hash) :
    Inventory J obj' hash entries :=
  ⟨h.nodup, fun q e => (h.mem q e).trans (and_congr_left fun _ =>
    ⟨hi.entryAt_agree ha hi', hi'.entryAt_agree ha.symm hi⟩)⟩

/-! ### Snapshots -/

theorem Site.not_counted {p : PathBuf} (hs : Site H root p r fs) : ¬ Counted (viewAt fs r) [] := by
  rintro ⟨nd, hnd, hcounts⟩
  obtain ⟨m, t, s, hl⟩ := FS.isDir_iff.1 hs.leads.isDir
  rw [viewAt, List.append_nil, hl] at hnd
  cases hnd
  cases hcounts

/-- **The totals of a new snapshot are those of its tree**: its files and links are counted, as far
as a machine integer counts, the sizes of its files are right and added up, and whenever the
snapshot is restored where nothing is, as many files and links are made. -/
theorem totals_agree (hH : H.Lawful) (hJ : J.Lawful) (hr : Records J root fs)
    {workspace : PathBuf} (hs : Site H root workspace r fs) (hutf : NamesUtf8 (viewAt fs r))
    {reads : Loc → ℕ → ℕ} {fuel : ℕ} {now : ℤ} {u : Uuid} {message : Option String}
    {tags : Option (List String)} {id : String}
    (h : exec K.handle ((managerAt root).createSnapshot H J reads fuel now u.text workspace message
      tags) fs = (.ok id, fs')) :
    ∃ snap entries, snapshotAt J root fs' u = some snap ∧
      Intact J (stored root fs') snap.tree ∧
      Inventory J (stored root fs') snap.tree entries ∧
      snap.fileCount = entries.length % 2 ^ 64 ∧
      ((entries.map fun x => x.2.blobSize).sum < 2 ^ 64 →
        snap.totalSize = (entries.map fun x => x.2.blobSize).sum) ∧
      SizesRight J (stored root fs') snap.tree ∧
      ∀ fs₁ dest d, snapshotAt J root fs₁ u = some snap → Restoring H J root snap.tree dest d fs₁ →
        (∀ n, fs₁.lookup (d ++ [n]) = none) → ∀ reads, ∃ N, ∀ fuel, N ≤ fuel →
          ∃ fs₂ ps, exec K.handle
            ((managerAt root).restoreSnapshot H J reads fuel u.text dest) fs₁ = (.ok (), fs₂) ∧
            NonDirs (viewAt fs₂ d) ps ∧ ps.length = entries.length := by
  obtain ⟨-, snap, htaken, hc, c, z, htotals, hcount, hsize⟩ := created hH hJ hr hs hutf h
  have hi := htaken.intact
  obtain ⟨entries, hinv, rfl, rfl⟩ := hc.inventory hi hs.not_counted htotals
  refine ⟨snap, entries, htaken.here, hi, hinv, hcount,
    fun hlt => hsize.trans (Nat.mod_eq_of_lt hlt), hi.sizesRight, ?_⟩
  intro fs₁ dest d hsnap hrest hempty reads
  obtain ⟨N, hN⟩ := restore_empty (K := K) hH hsnap hrest hempty reads
  refine ⟨N, fun fuel hfuel => ?_⟩
  obtain ⟨fs₂, hrun⟩ := hN fuel hfuel
  have hheld := held_of_restore hH hsnap hrest hempty hrun
  have hagree := agree_stored hH htaken.sound hrest.sound
  exact ⟨fs₂, _, hrun, (hinv.agree hagree hi hrest.intact).holds hheld.holds, List.length_map _⟩

/-- The totals of the sample. -/
theorem totals_agree_sample : ∃ snap entries,
    snapshotAt (Serde.ofTable twinJson) sampleRoot sampleTaken sampleUuids.1 = some snap ∧
      Inventory (Serde.ofTable twinJson) (stored sampleRoot sampleTaken) snap.tree entries ∧
      snap.fileCount = entries.length % 2 ^ 64 := by
  have hrecords := (TagsAgree.empty (J := Serde.ofTable twinJson) emptyStore_sample).toRecords
  obtain ⟨snap, entries, hsnap, -, hinv, hcount, -⟩ :=
    totals_agree (Blake3.ofTable_lawful sampleHashes) (Serde.ofTable_lawful twinJson)
      hrecords ⟨Fresh.sound ⟨emptyStore_sample.layout.isDir, emptyStore_sample.objects⟩,
        FS.leads_toPath (r := sampleDir) (by decide +kernel), by decide, by decide⟩
      (namesUtf8_of_entries (by decide +kernel) _) exec_sampleTaken
  exact ⟨snap, entries, hsnap, hinv, hcount⟩

end SandD
