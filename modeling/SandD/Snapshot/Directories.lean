import SandD.Snapshot.Again
import SandD.Snapshot.Hashes

/-!
# Directories of a restore

The entry of a directory records its mode and its time, as those of files do.  A restore makes the
directories with `create_dir_all` and sets neither.

* `Restored.dir_at`: a recorded directory is left as it was, or is a new one;
* `KeepsDirs`: what is expected of the directories;
* `keepsDirs_iff`: **they are restored exactly when they look like new ones**.
-/

namespace SandD

open Posix ObjectStore SnapshotManager
open Fallible (exec)

variable {K : Kernel} {H : Blake3} {J : Serde} {root r : Loc} {fs fs' : FS}
  {obj : String → Option Bytes} {hash : String} {f g : View}

/-- What comes of a recorded directory. -/
theorem Restored.dir_at (h : Restored K J obj hash f g) {q : Loc} {e : TreeEntry}
    (hq : EntryAt J obj hash q e) (ht : e.entryType = .tree) :
    g q = some ((f q).getD K.newDir) := by
  induction hq generalizing f g with
  | @here hash es e n hes he hn =>
    obtain ⟨hes', -, dir, -, -, -⟩ := h
    cases hes.symm.trans hes'
    obtain ⟨nd, hnd, -, rfl⟩ := dir e he ht n hn
    exact hnd
  | @deeper hash es e e' n q hes he hn htree hq ih =>
    obtain ⟨hes', -, -, tree, -, -⟩ := h
    cases hes.symm.trans hes'
    exact ih (tree e he htree n hn) ht

/-- Each recorded directory has the permission bits and the time that are recorded. -/
def KeepsDirs (J : Serde) (obj : String → Option Bytes) (hash : String) (g : View) : Prop :=
  ∀ q e, EntryAt J obj hash q e → e.entryType = .tree →
    ∃ mode mtime size, g q = some (.dir mode mtime size) ∧ mode = e.bits ∧
      wholeSeconds mtime = e.modified

/-- The sub-directories look like those that are made with `K`. -/
def LikeNew (K : Kernel) (f : View) : Prop :=
  ∀ q mode mtime size, q ≠ [] → f q = some (.dir mode mtime size) →
    mode = 0o777 &&& ~~~K.umask ∧ wholeSeconds mtime = wholeSeconds K.now

/-- Where each recorded directory is a new one, what is recorded has to be that of a new one. -/
theorem Captures.keepsDirs_iff_likeNew (hc : Captures J obj hash f)
    (hg : ∀ q e, EntryAt J obj hash q e → e.entryType = .tree → g q = some K.newDir) :
    KeepsDirs J obj hash g ↔ LikeNew K f := by
  constructor
  · intro hkeeps q mode mtime size hq hdir
    obtain ⟨e, he⟩ := hc.all q _ hq hdir nofun
    obtain ⟨nd, hnd, hof⟩ := hc.each q e he
    cases hdir.symm.trans hnd
    obtain ⟨ht, hbits, hmodified⟩ := hof
    obtain ⟨mode', mtime', size', hq', hmode, htime⟩ := hkeeps q e he ht
    cases (hg q e he ht).symm.trans hq'
    exact ⟨hbits.symm.trans hmode.symm, hmodified.symm.trans htime.symm⟩
  · intro hnew q e he ht
    obtain ⟨nd, hnd, hof⟩ := hc.each q e he
    have hdir : ∃ mode mtime size, nd = .dir mode mtime size := by
      cases nd with
      | dir mode mtime size => exact ⟨mode, mtime, size, rfl⟩
      | file => cases ht.symm.trans hof.1
      | symlink =>
        have hlink := hof.1
        rw [ht] at hlink
        cases hlink
      | special => exact hof.elim
    obtain ⟨mode, mtime, size, rfl⟩ := hdir
    obtain ⟨-, hbits, hmodified⟩ := hof
    obtain ⟨hmode, htime⟩ := hnew q mode mtime size he.ne_nil hnd
    exact ⟨_, _, _, hg q e he ht, hmode.symm.trans hbits.symm, htime.symm.trans hmodified.symm⟩

/-- After a restore where nothing was, the recorded directories are new. -/
theorem newDirs_of_restore (hH : H.Lawful) {u : Uuid} {snap : Snapshot} {dest : PathBuf} {d : Loc}
    (hsnap : snapshotAt J root fs u = some snap) (h : Restoring H J root snap.tree dest d fs)
    (hempty : ∀ n, fs.lookup (d ++ [n]) = none) {reads : Loc → ℕ → ℕ} {fuel : ℕ}
    (hok : exec K.handle ((managerAt root).restoreSnapshot H J reads fuel u.text dest) fs =
      (.ok (), fs')) {q : Loc} {e : TreeEntry} (hq : EntryAt J (stored root fs) snap.tree q e)
    (ht : e.entryType = .tree) : viewAt fs' d q = some K.newDir := by
  have hlinks : NoLinks J (stored root fs) snap.tree (viewAt fs d) :=
    onTree_empty hempty fun e _ => nofun
  rw [(done_of_restore hH hsnap h hlinks hok).restored.dir_at hq ht,
    viewAt_empty hempty hq.ne_nil]
  rfl

/-- **Directories come back as they were recorded exactly when they look like new ones**: for a
snapshot that was created, and any restore of it that succeeds where nothing was. -/
theorem keepsDirs_iff (hH : H.Lawful) (hJ : J.Lawful) (hr : Records J root fs)
    {workspace : PathBuf} (hs : Site H root workspace r fs) (hutf : NamesUtf8 (viewAt fs r))
    {reads : Loc → ℕ → ℕ} {fuel : ℕ} {now : ℤ} {u : Uuid} {message : Option String}
    {tags : Option (List String)} {id : String}
    (h : exec K.handle ((managerAt root).createSnapshot H J reads fuel now u.text workspace message
      tags) fs = (.ok id, fs')) :
    ∃ snap, snapshotAt J root fs' u = some snap ∧
      ∀ K' fs₁ dest d, snapshotAt J root fs₁ u = some snap →
        Restoring H J root snap.tree dest d fs₁ → (∀ n, fs₁.lookup (d ++ [n]) = none) →
        ∀ reads fuel fs₂, exec (Kernel.handle K')
          ((managerAt root).restoreSnapshot H J reads fuel u.text dest) fs₁ = (.ok (), fs₂) →
        (KeepsDirs J (stored root fs') snap.tree (viewAt fs₂ d) ↔ LikeNew K' (viewAt fs r)) := by
  obtain ⟨-, snap, htaken, hc⟩ := ok_createSnapshot hH hJ hr hs hutf h
  refine ⟨snap, htaken.here, fun K' fs₁ dest d hsnap hrest hempty reads fuel fs₂ hok => ?_⟩
  have hagree := agree_stored hH htaken.sound hrest.sound
  exact hc.keepsDirs_iff_likeNew fun q e hq ht => newDirs_of_restore hH hsnap hrest hempty hok
    (htaken.intact.entryAt_agree hagree hrest.intact hq) ht

section Sample

/-- The directory `/w/p`. -/
def privateDir : Loc := sampleDir ++ [⟨utf8 "p", by decide⟩]

/-- `/w` with the private directory `p`, and an empty store. -/
def privateStore : FS :=
  (exec sampleKernel.handle (SnapshotManager.new (Loc.toPath sampleRoot))
    ⟨[(sampleDir, .dir 0o755 0 4096), (privateDir, .dir 0o700 0 4096)]⟩).2

/-- The trees of `p`, which is empty, and of `/w`. -/
def privateTrees : List (List WireEntry × Bytes) :=
  [([], [123, 34, 101, 110, 116, 114, 105, 101, 115, 34, 58, 91, 93, 125]),
    ([⟨"p", 0o40700, .tree,
        "17e235e6291b29a843c8ac8962bec2b1923e9d4ea624888548725e13141e8439", 0, 0⟩],
      [123, 34, 101, 110, 116, 114, 105, 101, 115, 34, 58, 91, 123, 34, 110, 97, 109, 101, 34, 58,
       34, 112, 34, 44, 34, 109, 111, 100, 101, 34, 58, 49, 54, 56, 51, 50, 44, 34, 101, 110, 116,
       114, 121, 95, 116, 121, 112, 101, 34, 58, 34, 116, 114, 101, 101, 34, 44, 34, 104, 97, 115,
       104, 34, 58, 34, 49, 55, 101, 50, 51, 53, 101, 54, 50, 57, 49, 98, 50, 57, 97, 56, 52, 51,
       99, 56, 97, 99, 56, 57, 54, 50, 98, 101, 99, 50, 98, 49, 57, 50, 51, 101, 57, 100, 52, 101,
       97, 54, 50, 52, 56, 56, 56, 53, 52, 56, 55, 50, 53, 101, 49, 51, 49, 52, 49, 101, 56, 52,
       51, 57, 34, 44, 34, 115, 105, 122, 101, 34, 58, 48, 44, 34, 109, 111, 100, 105, 102, 105,
       101, 100, 34, 58, 48, 125, 93, 125])]

/-- Their hashes. -/
def privateHashes : HashTable where
  rows := (privateTrees.map Prod.snd).zip
    ["17e235e6291b29a843c8ac8962bec2b1923e9d4ea624888548725e13141e8439",
      "fcd87f805f9d58abe52fb5a9cd9a91bcb4f8f349840e4e56b573767eb2cdf905"]
  distinct := by decide +kernel
  long := by decide +kernel
  hex := hex_of_all (by decide +kernel)
  start := by decide +kernel

/-- The snapshot of `/w`. -/
def privateSnapshot : Snapshot :=
  { sampleSnapshot sampleIds.1 "" with
    tree := "fcd87f805f9d58abe52fb5a9cd9a91bcb4f8f349840e4e56b573767eb2cdf905"
    tags := []
    fileCount := 0
    totalSize := 0 }

def privateJson : JsonTable where
  trees := privateTrees
  snapshots := [(privateSnapshot,
    "\x7b\n  \"id\": \"3f2b8c1d-5e6a-4b7c-8d9e-0f1a2b3c4d5e\",\n  \"created_at\": 1700000000,\n" ++
      "  \"tree\": \"fcd87f805f9d58abe52fb5a9cd9a91bcb4f8f349840e4e56b573767eb2cdf905\",\n" ++
      "  \"message\": \"Snapshot 3f2b8c1d-5e6a-4b7c-8d9e-0f1a2b3c4d5e\",\n  \"tags\": [],\n" ++
      "  \"workspace\": \"/w\",\n  \"file_count\": 0,\n  \"total_size\": 0\n\x7d")]
  distinctTrees := by decide +kernel
  distinctSnapshots := by decide +kernel
  start := by decide +kernel

/-- A snapshot of `/w` is created. -/
@[irreducible] def privateCreate : Except Error String × FS :=
  exec sampleKernel.handle ((managerAt sampleRoot).createSnapshot (Blake3.ofTable privateHashes)
    (Serde.ofTable privateJson) (fun _ _ => 1) 3 sampleKernel.now sampleUuids.1.text
    (Loc.toPath sampleDir) none none) privateStore

/-- The directory `/r` is absent. -/
theorem private_results : privateCreate.1 = .ok sampleUuids.1.text ∧
    privateCreate.2.lookup absentDir = none := by
  decide +kernel

theorem exec_privateCreate : exec sampleKernel.handle ((managerAt sampleRoot).createSnapshot
    (Blake3.ofTable privateHashes) (Serde.ofTable privateJson) (fun _ _ => 1) 3 sampleKernel.now
    sampleUuids.1.text (Loc.toPath sampleDir) none none) privateStore =
      (.ok sampleUuids.1.text, privateCreate.2) := by
  rw [← private_results.1]
  unfold privateCreate
  exact Prod.mk.eta.symm

theorem emptyStore_private : EmptyStore sampleRoot privateStore := by
  rw [privateStore]
  exact emptyStore_of_new (by decide) (by decide) (by decide +kernel)

theorem site_private : Site (Blake3.ofTable privateHashes) sampleRoot (Loc.toPath sampleDir)
    sampleDir privateStore :=
  ⟨Fresh.sound ⟨emptyStore_private.layout.isDir, emptyStore_private.objects⟩,
    FS.leads_toPath (by decide +kernel), by decide, by decide⟩

theorem absent_private (n : FileName) : privateCreate.2.lookup (absentDir ++ [n]) = none :=
  FS.lookup_append_of_none private_results.2 [n]

/-- The snapshot, and a restore of it into `/r`. -/
theorem restored_private : ∃ snap fuel fs,
    Taken (Blake3.ofTable privateHashes) (Serde.ofTable privateJson) sampleRoot sampleUuids.1 snap
        privateCreate.2 ∧
      Captures (Serde.ofTable privateJson) (stored sampleRoot privateCreate.2) snap.tree
        (viewAt privateStore sampleDir) ∧
      Restoring (Blake3.ofTable privateHashes) (Serde.ofTable privateJson) sampleRoot snap.tree
        (Loc.toPath absentDir) absentDir privateCreate.2 ∧
      exec sampleKernel.handle ((managerAt sampleRoot).restoreSnapshot
        (Blake3.ofTable privateHashes) (Serde.ofTable privateJson) (fun _ _ => 1) fuel
        sampleUuids.1.text (Loc.toPath absentDir)) privateCreate.2 = (.ok (), fs) := by
  have hrecords := (TagsAgree.empty (J := Serde.ofTable privateJson) emptyStore_private).toRecords
  obtain ⟨-, snap, htaken, hc⟩ := ok_createSnapshot (Blake3.ofTable_lawful privateHashes)
    (Serde.ofTable_lawful privateJson) hrecords site_private
    (namesUtf8_of_entries (by decide +kernel) _) exec_privateCreate
  have hrest : Restoring (Blake3.ofTable privateHashes) (Serde.ofTable privateJson) sampleRoot
      snap.tree (Loc.toPath absentDir) absentDir privateCreate.2 :=
    ⟨htaken.sound, htaken.intact, destination_sample private_results.2, by decide, by decide⟩
  obtain ⟨N, hN⟩ := restore_empty (K := sampleKernel) (Blake3.ofTable_lawful privateHashes)
    htaken.here hrest absent_private fun _ _ => 1
  obtain ⟨fs, hrun⟩ := hN N le_rfl
  exact ⟨snap, N, fs, htaken, hc, hrest, hrun⟩

/-- The private directory is open to all after a restore. -/
theorem private_directory_opened : ∃ snap fuel fs,
    snapshotAt (Serde.ofTable privateJson) sampleRoot privateCreate.2 sampleUuids.1 = some snap ∧
      exec sampleKernel.handle ((managerAt sampleRoot).restoreSnapshot
        (Blake3.ofTable privateHashes) (Serde.ofTable privateJson) (fun _ _ => 1) fuel
        sampleUuids.1.text (Loc.toPath absentDir)) privateCreate.2 = (.ok (), fs) ∧
      viewAt fs absentDir [⟨utf8 "p", by decide⟩] = some (.dir 0o755 (1700000000 * nanos) 4096) ∧
      ¬ KeepsDirs (Serde.ofTable privateJson) (stored sampleRoot privateCreate.2) snap.tree
        (viewAt fs absentDir) := by
  obtain ⟨snap, fuel, fs, htaken, hc, hrest, hrun⟩ := restored_private
  have hbefore : viewAt privateStore sampleDir [⟨utf8 "p", by decide⟩] =
      some (.dir 0o700 0 4096) := by decide +kernel
  obtain ⟨e, he⟩ := hc.all _ _ (by simp) hbefore nofun
  obtain ⟨nd, hnd, hof⟩ := hc.each _ e he
  obtain rfl := Option.some_inj.1 (hnd.symm.trans hbefore)
  obtain ⟨ht, hbits, -⟩ := hof
  have hafter := newDirs_of_restore (Blake3.ofTable_lawful privateHashes) htaken.here hrest
    absent_private hrun he ht
  have hnew : sampleKernel.newDir = .dir 0o755 (1700000000 * nanos) 4096 := by decide
  refine ⟨snap, fuel, fs, htaken.here, hrun, hafter.trans (congrArg some hnew), fun hkeeps => ?_⟩
  obtain ⟨mode, mtime, size, hdir, hmode, -⟩ := hkeeps _ e he ht
  rw [hafter, hnew] at hdir
  cases hdir
  exact absurd (hmode.trans hbits) (by decide)

/-- `/w/p` is not like a new directory. -/
theorem keepsDirs_iff_private : ∃ (snap : Snapshot) (fs : FS),
    KeepsDirs (Serde.ofTable privateJson) (stored sampleRoot privateCreate.2) snap.tree
        (viewAt fs absentDir) ↔
      LikeNew sampleKernel (viewAt privateStore sampleDir) := by
  have hrecords := (TagsAgree.empty (J := Serde.ofTable privateJson) emptyStore_private).toRecords
  obtain ⟨snap', fuel, fs, htaken, -, hrest, hrun⟩ := restored_private
  obtain ⟨snap, hsnap, hiff⟩ := keepsDirs_iff (Blake3.ofTable_lawful privateHashes)
    (Serde.ofTable_lawful privateJson) hrecords site_private
    (namesUtf8_of_entries (by decide +kernel) _) exec_privateCreate
  obtain rfl : snap' = snap := Option.some_inj.1 (htaken.here.symm.trans hsnap)
  exact ⟨snap', fs, hiff _ _ _ _ hsnap hrest absent_private _ _ _ hrun⟩

end Sample

end SandD
