import SandD.Snapshot.Restore
import SandD.Snapshot.Lookup

/-!
# Restoring a snapshot

`restoreSnapshot` into a destination: a directory, or one that can be made.

* `Destination`: such a path, and `exec_createDirAll_destination`;
* `exec_restoreTree`: what `restoreTree` comes to;
* `enough_exists`: a bound for the rounds that is large enough;
* `exec_restoreSnapshot`: the same for `restoreSnapshot`.
-/

namespace SandD

open Posix ObjectStore SnapshotManager
open Fallible (exec Ends Spec)

variable {K : Kernel} {H : Blake3} {J : Serde} {root : Loc} {fs fs' : FS} {dest : PathBuf} {d : Loc}

/-! ### Destinations -/

/-- A path of the directory `d`, which is there or can be made, whatever is in the directory. -/
def Destination (fs : FS) (dest : PathBuf) (d : Loc) : Prop :=
  ∃ p r q, dest = p ++ Loc.toPath q ∧ d = r ++ q ∧ Vacant fs r q ∧
    ∀ fs' : FS, (∀ v, ¬ Under d v → FS.Keeps fs fs' v) → fs'.Leads p r

theorem keeps_of_none {v : Loc} (h : fs.lookup v = none) : FS.Keeps fs fs' v := by
  refine ⟨fun hd => ?_, fun l t hl => ?_⟩
  · simp [FS.isDir, h] at hd
  · simp [h] at hl

/-- A directory whose path does not depend on what is inside. -/
theorem FS.Pinned.destination (h : fs.Pinned dest d) : Destination fs dest d :=
  ⟨dest, d, [], by simp [Loc.toPath], by simp, by
    intro w hw hne
    exact absurd (List.prefix_nil.1 hw) hne, h⟩

/-- An empty directory. -/
theorem FS.Leads.destination_empty (h : fs.Leads dest d) (hd : ∀ n, fs.lookup (d ++ [n]) = none) :
    Destination fs dest d := by
  refine FS.Pinned.destination fun fs' hk => h.keeps fun v => ?_
  by_cases hv : Under d v
  · obtain ⟨⟨w, rfl⟩, hne⟩ := hv
    cases w with
    | nil => simp at hne
    | cons n w =>
      rw [List.append_cons]
      exact keeps_of_none (FS.lookup_append_of_none (hd n) w)
  · exact hk v hv

/-- A directory that is absent, below one that is there. -/
theorem FS.Leads.destination_absent {p : PathBuf} {r q : Loc} {n : FileName} (h : fs.Leads p r)
    (hn : fs.lookup (r ++ [n]) = none) :
    Destination fs (p ++ Loc.toPath (n :: q)) (r ++ n :: q) := by
  refine ⟨p, r, n :: q, rfl, rfl, fun w hw hne => ?_, fun fs' hk => h.keeps fun v => ?_⟩
  · cases w with
    | nil => exact absurd rfl hne
    | cons m w =>
      obtain rfl := (List.cons_prefix_cons.1 hw).1
      rw [List.append_cons]
      exact .inl (FS.lookup_append_of_none hn w)
  · by_cases hv : Under (r ++ n :: q) v
    · obtain ⟨⟨w, rfl⟩, -⟩ := hv
      rw [List.append_cons, List.append_assoc]
      exact keeps_of_none (FS.lookup_append_of_none hn (q ++ w))
    · exact hk v hv

/-- `create_dir_all` on a destination. -/
theorem exec_createDirAll_destination (h : Destination fs dest d) :
    ∃ fs₁, (IoM.createDirAll dest).run K fs = (.ok (), fs₁) ∧ fs₁.Pinned dest d ∧
      ∀ v, fs₁.lookup v = fs.lookup v ∨
        v <+: d ∧ fs.lookup v = none ∧ fs₁.lookup v = some K.newDir := by
  obtain ⟨p, r, q, rfl, rfl, hvacant, hleads⟩ := h
  have hp : fs.Leads p r := hleads fs fun _ _ => FS.Keeps.of_eq rfl
  have hmk := exec_createDirAll (K := K) hp hvacant.linkFree
  rcases hrun : (IoM.createDirAll (p ++ Loc.toPath q)).run K fs with ⟨e | u, fs₁⟩
  · rw [hrun] at hmk
    exact absurd (Mkdirs.vacant hmk.1 hvacant) hmk.2
  · rw [hrun] at hmk
    obtain ⟨hm, hd⟩ := hmk
    refine ⟨fs₁, rfl, fun fs' hk => ?_, fun v => ?_⟩
    · have hp' := hleads fs' fun v hv => (hm.keeps v).trans (hk v hv)
      exact hp'.below ((hk (r ++ q) fun hin => hin.2 rfl).1 hd)
    · rcases hm v with hsame | ⟨w, hw, -, rfl, hnone, hnew⟩
      · exact .inl hsame
      · exact .inr ⟨(List.prefix_append_right_inj r).2 hw, hnone, hnew⟩

/-! ### Trees -/

variable {obj : String → Option Bytes} {hash : String}

/-- What can change: the inside of the destination, and directories above it that are missing. -/
def Around (fs : FS) (d v : Loc) : Prop := Under d v ∨ v <+: d ∧ fs.lookup v = none

/-- Directories that are made above a destination do not upset the store. -/
theorem within_mkdirs (hs : Sound H root fs) (hd : Apart root d)
    (hm : ∀ v, fs'.lookup v = fs.lookup v ∨
      v <+: d ∧ fs.lookup v = none ∧ fs'.lookup v = some K.newDir) :
    Within H root (Around fs d) fs fs' := by
  have hobj : ∀ v, objectsDir root <+: v → fs'.lookup v = fs.lookup v := by
    intro v hv
    rcases hm v with hsame | ⟨hp, -, -⟩
    · exact hsame
    · exact absurd (hv.trans hp) hd.below
  refine ⟨hs.congr fun v hv => ?_, fun k b hb => ?_, fun v hv => FS.Keeps.of_eq (hobj v hv),
    fun v hv _ => ?_⟩
  · by_cases ho : objectsDir root <+: v
    · exact hobj v ho
    · have hdir := hs.isDir_above (hv.resolve_right ho) ho
      rcases hm v with hsame | ⟨-, hnone, -⟩
      · exact hsame
      · simp [FS.isDir, hnone] at hdir
  · obtain ⟨m, t, hl⟩ := objectAt_eq_some.1 hb
    exact objectAt_eq_some.2 ⟨m, t, (hobj _ (k.objectsDir_prefix_loc root)).trans hl⟩
  · exact (hm v).resolve_right fun h => hv (.inr ⟨h.1, h.2.1⟩)

/-- A stored tree, and a destination apart from the objects. -/
structure Restoring (H : Blake3) (J : Serde) (root : Loc) (hash : String) (dest : PathBuf)
    (d : Loc) (fs : FS) : Prop where
  sound : Sound H root fs
  intact : Intact J (stored root fs) hash
  destination : Destination fs dest d
  apart : Apart root d

/-- `restoreTree` into a destination: **it succeeds over what fits, when it is given enough
rounds, and over nothing else**. -/
theorem exec_restoreTree (hH : H.Lawful) (h : Restoring H J root hash dest d fs)
    (hlinks : NoLinks J (stored root fs) hash (viewAt fs d)) (reads : Loc → ℕ → ℕ) (fuel : ℕ) :
    ∃ r fs', exec K.handle ((managerAt root).restoreTree H J reads (fuel + 1) hash dest) fs =
        (r, fs') ∧ Within H root (Around fs d) fs fs' ∧
      (FitsTree J (stored root fs) hash (viewAt fs d) → ∀ L, Bounded L (viewAt fs d) →
        Enough J (stored root fs) L fuel hash → r = .ok ()) ∧
      (r = .ok () → FitsTree J (stored root fs) hash (viewAt fs d) ∧
        Ground H root (stored root fs) dest d fs' ∧
        Restored K J (stored root fs) hash (viewAt fs d) (viewAt fs' d)) := by
  obtain ⟨fs₁, hmk, hp, hm⟩ := exec_createDirAll_destination (K := K) h.destination
  have hw := within_mkdirs h.sound h.apart hm
  have hview : ∀ q, q ≠ [] → viewAt fs₁ d q = viewAt fs d q := by
    intro q hq
    refine (hm (d ++ q)).resolve_right fun hno => hq ?_
    have hlen := hno.1.length_le
    rw [List.length_append] at hlen
    exact List.length_eq_zero_iff.1 (by omega)
  have hback : ∀ q, q ≠ [] → viewAt fs d q = viewAt fs₁ d q := fun q hq => (hview q hq).symm
  have hmk' : exec K.handle (io (IoM.createDirAll dest)) fs = (.ok (), fs₁) := by
    rw [exec_io, hmk]
    rfl
  have hg : Ground H root (stored root fs) dest d fs₁ :=
    ⟨hw.sound, fun x b hx => stored_keeping hw.keeping hx, hp, h.apart⟩
  obtain ⟨r, fs', hrun, hf⟩ := exec_fillTree (K := K) hH reads fuel hash dest d fs₁
    ⟨hg, h.intact, hlinks.congr hview⟩
  refine ⟨r, fs', ?_, hw.trans (hf.within.mono fun v hv => .inl hv), fun hfits L hL henough => ?_,
    fun hok => ?_⟩
  · rw [restoreTree_succ, Fallible.exec_bind_ok _ hmk', hrun]
  · refine hf.ok (hfits.congr hview) L (fun q b m t hq => ?_) henough
    rcases eq_or_ne q [] with rfl | hne
    · obtain ⟨md, t', s, hl⟩ := FS.isDir_iff.1 hp.isDir
      rw [viewAt, List.append_nil, hl] at hq
      cases hq
    · exact hL q b m t (hview q hne ▸ hq)
  · obtain ⟨hfits, hrest⟩ := hf.done hok
    exact ⟨hfits.congr hback, hg.later hf.within fun _ h => h, hrest.congr hback⟩

/-! ### Enough rounds -/

/-- More rounds do no harm. -/
theorem Enough.mono {L m n : ℕ} (h : Enough J obj L m hash) (hmn : m ≤ n) :
    Enough J obj L n hash := by
  induction m generalizing n hash with
  | zero => exact h.elim
  | succ m ih =>
    obtain ⟨n, rfl⟩ := Nat.exists_eq_add_of_le' (Nat.one_le_of_lt (Nat.lt_of_succ_le hmn))
    exact ⟨by have := h.1; omega, fun es hes e he ht => ih (h.2 es hes e he ht) (by omega)⟩

/-- There is a number of rounds that is enough. -/
theorem enough_exists (h : Intact J obj hash) (L : ℕ) : ∃ n, Enough J obj L n hash := by
  induction h with
  | @mk hash es hes _ _ _ _ _ ih =>
    -- a bound for all sub-trees
    have hall : ∀ l : List TreeEntry, (∀ e ∈ l, e ∈ es) →
        ∃ n, ∀ e ∈ l, e.entryType = .tree → Enough J obj L n e.hash := by
      intro l
      induction l with
      | nil => exact fun _ => ⟨0, nofun⟩
      | cons e l ihl =>
        intro hl
        obtain ⟨n, hn⟩ := ihl fun e' he' => hl e' (List.mem_cons_of_mem e he')
        by_cases ht : e.entryType = .tree
        · obtain ⟨m, hm⟩ := ih e (hl e List.mem_cons_self) ht
          refine ⟨max m n, fun e' he' ht' => ?_⟩
          rcases List.mem_cons.1 he' with rfl | he'
          · exact hm.mono (le_max_left m n)
          · exact (hn e' he' ht').mono (le_max_right m n)
        · refine ⟨n, fun e' he' ht' => ?_⟩
          rcases List.mem_cons.1 he' with rfl | he'
          · exact absurd ht' ht
          · exact hn e' he' ht'
    obtain ⟨n, hn⟩ := hall es fun _ he => he
    refine ⟨max n L + 1, by omega, fun es' hes' e he ht => ?_⟩
    cases hes.symm.trans hes'
    exact (hn e he ht).mono (le_max_left n L)

/-- The files of a file system have a largest one. -/
theorem bounded_exists (fs : FS) (d : Loc) : ∃ L, Bounded L (viewAt fs d) := by
  have hlist : ∀ l : List (Loc × Node), ∃ L, ∀ e ∈ l, ∀ b m t, e.2 = .file b m t →
      b.length ≤ L := by
    intro l
    induction l with
    | nil => exact ⟨0, fun e he => absurd he List.not_mem_nil⟩
    | cons e l ih =>
      obtain ⟨L, hL⟩ := ih
      refine ⟨max L e.2.metadata.len, fun e' he' b m t hb => ?_⟩
      rcases List.mem_cons.1 he' with rfl | he'
      · rw [hb]
        exact le_max_right L _
      · exact (hL e' he' b m t hb).trans (le_max_left L _)
  obtain ⟨L, hL⟩ := hlist fs.entries
  refine ⟨L, fun q b m t hq => ?_⟩
  rcases eq_or_ne (d ++ q) [] with hnil | hne
  · rw [viewAt, hnil] at hq
    cases hq
  · exact hL _ (mem_entries_of_lookup hq hne) b m t rfl

/-! ### Snapshots -/

/-- What is stored as a snapshot is loaded. -/
theorem exec_loadSnapshot {u : Uuid} {snap : Snapshot} (h : snapshotAt J root fs u = some snap) :
    exec K.handle ((managerAt root).loadSnapshot J u.text) fs = (.ok snap, fs) := by
  obtain ⟨b, hb, hs⟩ := Option.bind_eq_some_iff.1 h
  obtain ⟨json, hjson, hs⟩ := Option.bind_eq_some_iff.1 hs
  obtain ⟨m, t, hl⟩ := fileAt_eq_some.1 hb
  have hread : fs.read ((managerAt root).snapshotFile u.text) = .ok b := by
    have hlink : ¬ fs.isLink (snapshotsLoc root ++ [u.plain.fileName]) := by
      rw [snapshotLoc] at hl
      simp [FS.isLink, hl, Node.isLink]
    have hres := (FS.leads_toPath (FS.isDir_of_lookup_concat hl)).stat_entry
      (Or.inr hlink : true = false ∨ _)
    rw [snapshotFile_eq root u.plain, snapshotLoc, Loc.toPath_concat, FS.read, hres]
    rw [snapshotLoc] at hl
    simp only [hl]
  rw [loadSnapshot, withContext, Fallible.exec_bind, Fallible.exec_mapError, exec_readToString,
    hread]
  simp only [hjson, Except.mapError, Serde.decodeSnapshot, hs, Fallible.exec_ofExcept]

/-- `restoreSnapshot` of what is stored. -/
theorem exec_restoreSnapshot {u : Uuid} {snap : Snapshot} (h : snapshotAt J root fs u = some snap)
    (reads : Loc → ℕ → ℕ) (fuel : ℕ) :
    exec K.handle ((managerAt root).restoreSnapshot H J reads fuel u.text dest) fs =
      exec K.handle ((managerAt root).restoreTree H J reads fuel snap.tree dest) fs :=
  Fallible.exec_bind_ok _ (exec_loadSnapshot h)

/-- What a restore that went well has left, and over what. -/
structure RestoreDone (K : Kernel) (H : Blake3) (J : Serde) (root : Loc) (hash : String)
    (dest : PathBuf) (d : Loc) (fs fs' : FS) : Prop where
  within : Within H root (Around fs d) fs fs'
  fits : FitsTree J (stored root fs) hash (viewAt fs d)
  ground : Ground H root (stored root fs) dest d fs'
  restored : Restored K J (stored root fs) hash (viewAt fs d) (viewAt fs' d)

theorem done_of_restore (hH : H.Lawful) {u : Uuid} {snap : Snapshot}
    (hsnap : snapshotAt J root fs u = some snap)
    (h : Restoring H J root snap.tree dest d fs)
    (hlinks : NoLinks J (stored root fs) snap.tree (viewAt fs d)) {reads : Loc → ℕ → ℕ} {fuel : ℕ}
    (hok : exec K.handle
      ((managerAt root).restoreSnapshot H J reads fuel u.text dest) fs = (.ok (), fs')) :
    RestoreDone K H J root snap.tree dest d fs fs' := by
  rw [exec_restoreSnapshot hsnap] at hok
  cases fuel with
  | zero => cases hok
  | succ fuel =>
    obtain ⟨r, s, hrun, hw, -, hdone⟩ := exec_restoreTree (K := K) hH h hlinks reads fuel
    cases hrun.symm.trans hok
    obtain ⟨hfits, hg, hrest⟩ := hdone rfl
    exact ⟨hw, hfits, hg, hrest⟩

/-- Over what fits a restore goes well. -/
theorem restore_fitting (hH : H.Lawful) {u : Uuid} {snap : Snapshot}
    (hsnap : snapshotAt J root fs u = some snap)
    (h : Restoring H J root snap.tree dest d fs)
    (hlinks : NoLinks J (stored root fs) snap.tree (viewAt fs d))
    (hfits : FitsTree J (stored root fs) snap.tree (viewAt fs d)) (reads : Loc → ℕ → ℕ) :
    ∃ N, ∀ fuel, N ≤ fuel → ∃ fs', exec K.handle
      ((managerAt root).restoreSnapshot H J reads fuel u.text dest) fs = (.ok (), fs') := by
  obtain ⟨L, hL⟩ := bounded_exists fs d
  obtain ⟨N, hN⟩ := enough_exists h.intact L
  refine ⟨N + 1, fun fuel hfuel => ?_⟩
  obtain ⟨fuel, rfl⟩ := Nat.exists_eq_add_of_le' (Nat.one_le_of_lt hfuel)
  obtain ⟨r, fs', hrun, -, hok, -⟩ := exec_restoreTree (K := K) hH h hlinks reads fuel
  obtain rfl := hok hfits L hL (hN.mono (by omega))
  exact ⟨fs', (exec_restoreSnapshot hsnap reads (fuel + 1)).trans hrun⟩

section Sample

end Sample

end SandD
