import SandD.Snapshot.Exact

/-!
# Restoring again

A destination that holds the tree of a snapshot is left as it is by a further restore of it: files
are recognised by their sizes and times, and links are made again with the same targets.

* `Gentle`: operations that copy nothing;
* `Still`: what may differ afterwards, which is the times of links;
* `rests_fillTree`: the step, over a tree;
* `restore_again`: **after a restore into an absent or empty directory further restores succeed,
  copy nothing, and leave everything as it is**.
-/

namespace SandD

open Posix ObjectStore SnapshotManager
open Fallible

variable {K : Kernel} {H : Blake3} {J : Serde} {root : Loc} {fs fs' fs'' : FS} {dest p : PathBuf}
  {d : Loc} {obj : String → Option Bytes} {hash : String} {es : List TreeEntry}

/-! ### What is left alone -/

/-- Operations that neither copy a file nor put an object in its place. -/
def Gentle : FsOp → Prop
  | .copy .. | .write .. | .rename .. => False
  | _ => True

/-- Nothing has changed but the times of links below a directory. -/
def Still (d : Loc) (fs fs' : FS) : Prop :=
  ∀ v, fs'.lookup v = fs.lookup v ∨ Under d v ∧
    ∃ t m m', fs.lookup v = some (.symlink t m) ∧ fs'.lookup v = some (.symlink t m')

namespace Still

theorem of_eq (h : fs'.lookup = fs.lookup) : Still d fs fs' := fun v => .inl (by rw [h])

theorem refl (d : Loc) (fs : FS) : Still d fs fs := of_eq rfl

theorem trans (h : Still d fs fs') (h' : Still d fs' fs'') : Still d fs fs'' := by
  intro v
  rcases h' v with h₂ | ⟨hv, t, m, m', hl, hl'⟩
  · rw [h₂]
    exact h v
  · rcases h v with h₁ | ⟨-, t₁, m₁, m₁', hl₁, hl₁'⟩
    · exact .inr ⟨hv, t, m, m', h₁ ▸ hl, hl'⟩
    · rw [hl₁'] at hl
      cases hl
      exact .inr ⟨hv, t, m₁, m', hl₁, hl'⟩

theorem mono {d' : Loc} (h : Still d fs fs') (hd : ∀ v, Under d v → Under d' v) :
    Still d' fs fs' := fun v => (h v).imp id fun ⟨hv, hl⟩ => ⟨hd v hv, hl⟩

theorem outside (h : Still d fs fs') {v : Loc} (hv : ¬ Under d v) : fs'.lookup v = fs.lookup v :=
  (h v).resolve_right fun hno => hv hno.1

/-- A directory apart from the store is ground for a restore as before. -/
theorem ground (h : Still d fs fs') (hg : Ground H root obj p d fs) :
    Ground H root obj p d fs' :=
  hg.later (.of_away hg.sound hg.apart (fun _ hv => hv.1) fun _ hv => h.outside hv) fun _ hv => hv

theorem isDir (h : Still d fs fs') {v : Loc} : fs'.isDir v = fs.isDir v := by
  rcases h v with heq | ⟨-, t, m, m', hl, hl'⟩
  · rw [FS.isDir, heq, FS.isDir]
  · rw [FS.isDir, hl', FS.isDir, hl]
    rfl

/-- A tree that was held is held. -/
theorem holds (h : Still d fs fs') {r : Loc} (ht : HoldsTree J obj hash (viewAt fs r)) :
    HoldsTree J obj hash (viewAt fs' r) := by
  refine ⟨fun q e hq => ?_, fun q hq hsome => ht.only q hq ?_⟩
  · obtain ⟨nd, hnd, his⟩ := ht.each q e hq
    rcases h (r ++ q) with heq | ⟨-, t, m, m', hl, hl'⟩
    · exact ⟨nd, heq.trans hnd, his⟩
    · obtain rfl := Option.some_inj.1 (hl.symm.trans hnd)
      exact ⟨_, hl', his⟩
  · rcases h (r ++ q) with heq | ⟨-, t, m, m', hl, -⟩
    · rw [viewAt, heq] at hsome
      exact hsome
    · rw [viewAt, hl]
      rfl

end Still

/-- A program that succeeds, copies nothing, and leaves what is there as it is. -/
def Rests (K : Kernel) (d : Loc) (fs : FS) (p : Action Unit) : Prop :=
  ∃ fs', exec K.handle p fs = (.ok (), fs') ∧ Still d fs fs' ∧ Performs K.handle Gentle p fs

/-- One after the other. -/
theorem Rests.bind {p q : Action Unit} (hp : Rests K d fs p)
    (hq : ∀ fs', Still d fs fs' → Rests K d fs' q) : Rests K d fs (p >>= fun _ => q) := by
  obtain ⟨fs₁, hrun, hstill, hperf⟩ := hp
  obtain ⟨fs₂, hrun', hstill', hperf'⟩ := hq fs₁ hstill
  refine ⟨fs₂, (exec_bind_ok _ hrun).trans hrun', hstill.trans hstill',
    performs_bind.2 ⟨hperf, fun a s hs => ?_⟩⟩
  obtain rfl : s = fs₁ := by
    rw [hrun] at hs
    exact (Prod.mk.inj hs).2.symm
  exact hperf'

/-- What has been found out first. -/
theorem Rests.after {α : Type} {a : α} {p : Action α} {f : α → Action Unit}
    (hrun : exec K.handle p fs = (.ok a, fs)) (hp : Issues Gentle p) (hf : Rests K d fs (f a)) :
    Rests K d fs (p >>= f) := by
  obtain ⟨fs₁, hrun', hstill, hperf⟩ := hf
  refine ⟨fs₁, (exec_bind_ok _ hrun).trans hrun', hstill,
    performs_bind.2 ⟨hp.performs fs, fun b s hs => ?_⟩⟩
  rw [hrun] at hs
  cases hs
  exact hperf

theorem Rests.mono {d' : Loc} {p : Action Unit} (h : Rests K d fs p)
    (hd : ∀ v, Under d v → Under d' v) : Rests K d' fs p := by
  obtain ⟨fs', hrun, hstill, hperf⟩ := h
  exact ⟨fs', hrun, hstill.mono hd, hperf⟩

/-! ### Operations that are issued -/

theorem issues_getBlob (S : ObjectStore) (hash : String) : Issues Gentle (S.getBlob hash) := by
  refine issues_bind (issues_ofExcept _) fun p => ?_
  exact issues_mapError (issues_mapError (issues_op trivial))

theorem issues_cleanEntry (dest : PathBuf) (expected : List String) (n : FileName) :
    Issues Gentle (cleanEntry dest expected n) := by
  rw [cleanEntry]
  split_ifs
  · exact issues_pure _
  · refine issues_bind (issues_attempt (issues_mapError (issues_op trivial))) fun r => ?_
    cases r with
    | error e => exact issues_pure _
    | ok m =>
      show Issues Gentle (if m.fileType = .dir then _ else _)
      split_ifs
      · exact issues_bind (issues_attempt (issues_mapError (issues_op trivial))) fun _ =>
          issues_pure _
      · exact issues_bind (issues_attempt (issues_mapError (issues_op trivial))) fun _ =>
          issues_pure _

theorem issues_restoreSymlink (M : SnapshotManager) (path : PathBuf) (e : TreeEntry) :
    Issues Gentle (M.restoreSymlink path e) := by
  have hmake : ∀ (target : String) (b : Bool), Issues Gentle (do
      if b then
        let _ ← Fallible.attempt (io (IoM.op (.removeFile path)))
      io (IoM.op (.symlink (utf8 target) path)) : Action Unit) := by
    intro target b
    cases b
    · exact issues_mapError (issues_op trivial)
    · exact issues_bind (issues_attempt (issues_mapError (issues_op trivial))) fun _ =>
        issues_mapError (issues_op trivial)
  refine issues_bind (issues_getBlob _ _) fun b => ?_
  cases fromUtf8 b with
  | none => exact issues_fail _
  | some target =>
    refine issues_bind (issues_mapError (issues_exists trivial)) fun b => ?_
    cases b
    · refine issues_bind (issues_mapError ?_) fun b => hmake target b
      refine issues_bind (issues_attempt (issues_op trivial)) fun r => ?_
      cases r <;> exact issues_pure _
    · exact hmake target true

/-! ### Entries -/

section Entry

variable {n : FileName} {e : TreeEntry} {nd : Node}

/-- A file with the recorded contents, mode and time is recognised. -/
theorem rests_restoreBlob (h : fs.Leads p d) {data : Bytes}
    (hl : fs.lookup (d ++ [n]) = some (.file data e.bits e.modified)) (hsize : data.length = e.size)
    (S : SnapshotManager) (reads : Loc → ℕ → ℕ) (fuel : ℕ) :
    Rests K d fs (S.restoreBlob H reads fuel (p ++ [.name n]) e) := by
  have hn : ¬ fs.isLink (d ++ [n]) := by simp [FS.isLink, hl, Node.isLink]
  have hsame : e.Same (.file data e.bits e.modified) := ⟨hsize, rfl⟩
  have hcopy : exec K.handle (S.shouldCopy H reads fuel (p ++ [.name n]) e) fs =
      (.ok false, fs) := by
    rw [exec_shouldCopy h hn, hl]
    exact if_pos hsame
  have hex : exec K.handle (io (IoM.exists_ (p ++ [.name n]))) fs = (.ok true, fs) := by
    rw [exec_io, run_exists, h.pathExists_entry hn, hl]
    rfl
  have hmeta : exec K.handle (attempt (io (IoM.op (.metadata (p ++ [.name n]))))) fs =
      (.ok (.ok (Node.file data e.bits e.modified).metadata), fs) := by
    rw [exec_attempt, exec_io, run_op, Kernel.handle, h.stat_entry (.inr hn), hl]
    rfl
  have hperf : Performs K.handle Gentle (S.shouldCopy H reads fuel (p ++ [.name n]) e) fs := by
    refine performs_bind.2 ⟨(issues_mapError (issues_exists trivial)).performs fs, fun b s hb => ?_⟩
    rw [hex] at hb
    cases hb
    refine performs_bind.2 ⟨(issues_attempt (issues_mapError (issues_op trivial))).performs fs,
      fun r s hr => ?_⟩
    rw [hmeta] at hr
    cases hr
    show Performs K.handle Gentle (if _ then _ else _) fs
    rw [if_pos ⟨hsize, rfl⟩]
    exact performs_pure.2 trivial
  obtain ⟨fs', hrun, hup⟩ := exec_stamp (K := K) (e := e) h hl rfl
  refine ⟨fs', (exec_bind_ok _ hcopy).trans hrun, .of_eq ?_,
    performs_bind.2 ⟨hperf, fun b s hb => ?_⟩⟩
  · rw [hup, Function.update_eq_self_iff]
    exact hl.symm
  · rw [hcopy] at hb
    cases hb
    exact (issues_bind (issues_mapError (issues_op trivial)) fun _ =>
      issues_mapError (issues_op trivial)).performs fs

/-- A link is made again. -/
theorem rests_restoreSymlink (hg : Ground H root obj p d fs) (ht : e.entryType.isLink = true)
    {t : Target} {m : ℤ} (hl : fs.lookup (d ++ [n]) = some (.symlink t m))
    (hobj : obj e.hash = some t.bytes) (hutf : (fromUtf8 t.bytes).isSome) :
    Rests K d fs ((managerAt root).restoreSymlink (p ++ [.name n]) e) := by
  obtain ⟨r, fs', hrun, hleaf, hother⟩ := exec_restoreSymlink (K := K) (n := n) hg.sound hg.pinned
    hg.apart ht hobj hutf hg.le
  have hfits : e.Fits (fs.lookup (d ++ [n])) := by
    rw [TreeEntry.Fits, hl]
    cases hty : e.entryType <;> rw [hty] at ht
    any_goals cases ht
    all_goals
      rintro _ ⟨⟩
      rfl
  obtain rfl := hleaf.ok hfits trivial
  obtain ⟨-, nd, hnd, hview⟩ := hleaf.done rfl
  obtain ⟨t', hobj', rfl⟩ : ∃ t' : Target, obj e.hash = some t'.bytes ∧ nd = .symlink t' K.now := by
    rw [TreeEntry.Becomes] at hnd
    cases hty : e.entryType <;> rw [hty] at ht hnd
    any_goals cases ht
    all_goals exact hnd
  obtain rfl : t' = t := by
    have := Option.some_inj.1 (hobj'.symm.trans hobj)
    cases t
    cases t'
    simpa using this
  refine ⟨fs', hrun, fun v => ?_, (issues_restoreSymlink _ _ _).performs fs⟩
  by_cases hv : d ++ [n] <+: v
  · obtain ⟨w, rfl⟩ := hv
    have hw := congrFun hview w
    rcases eq_or_ne w [] with rfl | hne
    · rw [Function.update_self, viewAt] at hw
      refine .inr ⟨(under_concat d n).deeper (List.prefix_append _ _), t', m, K.now, ?_, hw⟩
      rw [List.append_nil]
      exact hl
    · rw [Function.update_of_ne hne] at hw
      exact .inl hw
  · exact .inl (hother v hv)

/-- A directory is gone through. -/
theorem rests_restoreSubtree (hg : Ground H root obj p d fs) (hdir : fs.isDir (d ++ [n]))
    (reads : Loc → ℕ → ℕ) (fuel : ℕ)
    (hrec : ∀ p d fs, Ground H root obj p d fs → HoldsTree J obj e.hash (viewAt fs d) →
      Rests K d fs (fillTree (managerAt root) H J reads fuel e.hash p))
    (hholds : HoldsTree J obj e.hash (viewAt fs (d ++ [n]))) :
    Rests K d fs ((managerAt root).restoreTree H J reads (fuel + 1) e.hash (p ++ [.name n])) := by
  have hg' := hg.child hdir
  refine Rests.after (a := ()) ?_ (issues_mapError (issues_createDirAll_any (fun _ => trivial)
    (fun _ => trivial) _)) ((hrec _ _ _ hg' hholds).mono fun v hv =>
      (under_concat d n).deeper hv.1)
  rw [exec_io, exec_createDirAll_dir hg'.pinned.leads]
  rfl

end Entry

/-! ### Trees -/

/-- The directory has what is recorded at the places of its entries. -/
theorem HoldsTree.entry (h : HoldsTree J obj hash (viewAt fs d)) (hi : Intact J obj hash)
    (hes : entriesOf J obj hash = some es) {e : TreeEntry} (he : e ∈ es) {n : FileName}
    (hn : n.bytes = utf8 e.name) : (∃ nd, fs.lookup (d ++ [n]) = some nd ∧ e.Is obj nd) ∧
      (e.entryType = .tree → HoldsTree J obj e.hash (viewAt fs (d ++ [n]))) := by
  obtain ⟨hes', -, distinct, -, -, -⟩ := hi
  cases hes.symm.trans hes'
  obtain ⟨hnode, hbelow⟩ := (onTree_iff hes).1 h.each e he n hn
  refine ⟨hnode, fun ht => ⟨?_, fun q hq hsome => ?_⟩⟩
  · rw [← child_viewAt]
    exact hbelow ht
  · rw [viewAt, List.append_assoc] at hsome
    obtain ⟨e', he'⟩ := h.only (n :: q) (by simp) hsome
    obtain ⟨e₁, he₁, hn₁, ⟨rfl, -⟩ | ⟨-, hrest⟩⟩ := (entryAt_cons hes).1 he'
    · exact absurd rfl hq
    · obtain rfl : e₁ = e := List.inj_on_of_nodup_map distinct he₁ he
        (utf8_injective (hn₁.symm.trans hn))
      exact ⟨e', hrest⟩

/-- One entry of a tree that is held. -/
theorem rests_restoreEntry {fuel : ℕ} {e : TreeEntry} {n : FileName} (reads : Loc → ℕ → ℕ)
    (hi : Intact J obj hash) (hes : entriesOf J obj hash = some es) (he : e ∈ es)
    (hn : n.bytes = utf8 e.name) (hg : Ground H root obj p d fs)
    (hholds : HoldsTree J obj hash (viewAt fs d))
    (hrec : e.entryType = .tree → ∃ m, fuel = m + 1 ∧ ∀ p d fs, Ground H root obj p d fs →
      HoldsTree J obj e.hash (viewAt fs d) →
        Rests K d fs (fillTree (managerAt root) H J reads m e.hash p)) :
    Rests K d fs ((managerAt root).restoreEntry H reads fuel
      ((managerAt root).restoreTree H J reads fuel) p e) := by
  have hjoin : p.join (utf8 e.name) = p ++ [.name n] := hn ▸ p.join_of_valid n.valid
  obtain ⟨⟨nd, hl, his⟩, hbelow⟩ := hholds.entry hi hes he hn
  obtain ⟨hes', -, -, blob, link, -⟩ := hi
  cases hes.symm.trans hes'
  rw [restoreEntry, hjoin]
  cases ht : e.entryType
  · obtain ⟨data, hdata, hsize⟩ := blob e he ht
    cases nd with
    | file b m t =>
      obtain ⟨-, hb, rfl, rfl⟩ := his
      obtain rfl := Option.some_inj.1 (hb.symm.trans hdata)
      exact rests_restoreBlob hg.pinned.leads hl hsize _ reads fuel
    | dir => cases ht.symm.trans his
    | symlink =>
      obtain ⟨hlink, -⟩ := his
      rw [ht] at hlink
      cases hlink
    | special => exact his.elim
  · obtain ⟨m, rfl, hsub⟩ := hrec ht
    refine rests_restoreSubtree hg ?_ reads m hsub (hbelow ht)
    cases nd with
    | dir => exact FS.isDir_of_lookup hl
    | file => cases ht.symm.trans his.1
    | symlink =>
      obtain ⟨hlink, -⟩ := his
      rw [ht] at hlink
      cases hlink
    | special => exact his.elim
  all_goals
    have hty : e.entryType.isLink = true := by rw [ht]; rfl
    obtain ⟨t, hobj, hutf⟩ := link e he hty
    cases nd with
    | symlink t' m =>
      obtain rfl : t' = t := by
        have := Option.some_inj.1 (his.2.symm.trans hobj)
        cases t
        cases t'
        simpa using this
      exact rests_restoreSymlink hg hty hl hobj hutf
    | file => cases ht.symm.trans his.1
    | dir => cases ht.symm.trans his
    | special => exact his.elim

/-- A whole directory: the loop over its entries, and nothing to clear away. -/
theorem rests_fillTree (reads : Loc → ℕ → ℕ) (fuel : ℕ) : ∀ hash p d fs,
    Intact J obj hash → Enough J obj 0 fuel hash → Ground H root obj p d fs →
      HoldsTree J obj hash (viewAt fs d) →
        Rests K d fs (fillTree (managerAt root) H J reads fuel hash p) := by
  induction fuel with
  | zero => exact fun _ _ _ _ _ h => h.elim
  | succ m ih =>
    intro hash p d fs hi henough hg hholds
    obtain ⟨hes, valid, -, -, -, tree⟩ := id hi
    rename_i es
    obtain ⟨b, hb, hdec⟩ := bytes_of_entriesOf hes
    refine Rests.after (exec_getBlob_stored hg.sound (hg.le _ _ hb)) (issues_getBlob _ _) ?_
    rw [hdec]
    show Rests K d fs (es.forM _ >>= fun _ => _)
    -- the loop
    have hloop : ∀ l : List TreeEntry, (∀ e ∈ l, e ∈ es) → ∀ fs, Ground H root obj p d fs →
        HoldsTree J obj hash (viewAt fs d) →
          Rests K d fs (l.forM ((managerAt root).restoreEntry H reads (m + 1)
            ((managerAt root).restoreTree H J reads (m + 1)) p)) := by
      intro l
      induction l with
      | nil => exact fun _ fs _ _ => ⟨fs, rfl, .refl d fs, trivial⟩
      | cons e l ihl =>
        intro hl fs hg hholds
        have he := hl e List.mem_cons_self
        refine Rests.bind (rests_restoreEntry (n := ⟨utf8 e.name, valid e he⟩) reads hi hes he rfl
          hg hholds fun ht => ⟨m, rfl, fun p d fs hg' hh => ?_⟩) fun fs' hstill => ?_
        · exact ih e.hash p d fs (tree e he ht) (henough.2 es hes e he ht) hg' hh
        · exact ihl (fun e' he' => hl e' (List.mem_cons_of_mem e he')) fs' (hstill.ground hg)
            (hstill.holds hholds)
    refine (hloop es (fun _ he => he) fs hg hholds).bind fun fs' hstill => ?_
    have hg' := hstill.ground hg
    refine Rests.after (a := fs'.names d) ?_ (issues_mapError (issues_op trivial)) ?_
    · rw [exec_io, run_op, Kernel.handle, hg'.pinned.leads.readDir_eq]
      rfl
    · -- every name is that of an entry
      obtain ⟨fs₂, hclean, hc⟩ := exec_clean (K := K) hg'.pinned (es.map (·.name)) (fs'.names d)
      refine ⟨fs₂, hclean, .of_eq (funext fun u => hc.kept u ?_),
        (issues_forM fun n _ => issues_cleanEntry _ _ n).performs fs'⟩
      rintro n ⟨hn, hno⟩ -
      rw [FS.mem_names hg'.pinned.isDir] at hn
      obtain ⟨e, he⟩ := (hstill.holds hholds).only [n] (by simp) hn
      obtain ⟨e', he', hname, -⟩ := (entryAt_cons hes).1 he
      rw [hname, toStringLossy_utf8] at hno
      exact hno (List.mem_map_of_mem he')

/-! ### Snapshots -/

/-- The destination holds the tree of a stored snapshot. -/
structure Held (H : Blake3) (J : Serde) (root : Loc) (obj : String → Option Bytes) (u : Uuid)
    (snap : Snapshot) (dest : PathBuf) (d : Loc) (fs : FS) : Prop where
  stored : snapshotAt J root fs u = some snap
  ground : Ground H root obj dest d fs
  intact : Intact J obj snap.tree
  holds : HoldsTree J obj snap.tree (viewAt fs d)
  away : ¬ Under d (snapshotLoc root u.plain)

/-- A further restore. -/
theorem Held.rests {u : Uuid} {snap : Snapshot} (h : Held H J root obj u snap dest d fs)
    {N : ℕ} (hN : Enough J obj 0 N snap.tree) (reads : Loc → ℕ → ℕ) {fuel : ℕ} (hfuel : N < fuel) :
    Rests K d fs ((managerAt root).restoreSnapshot H J reads fuel u.text dest) := by
  obtain ⟨fuel, rfl⟩ := Nat.exists_eq_add_of_le' (Nat.one_le_of_lt hfuel)
  refine Rests.after (exec_loadSnapshot h.stored) ?_ ?_
  · refine issues_bind (issues_mapError (issues_bind (issues_mapError (issues_op trivial))
      fun b => ?_)) fun _ => issues_ofExcept _
    cases fromUtf8 b <;> trivial
  · refine Rests.after (a := ()) ?_ (issues_mapError (issues_createDirAll_any (fun _ => trivial)
      (fun _ => trivial) _)) (rests_fillTree reads fuel snap.tree dest d fs h.intact
        (hN.mono (by omega)) h.ground h.holds)
    rw [exec_io, exec_createDirAll_dir h.ground.pinned.leads]
    rfl

theorem Held.still {u : Uuid} {snap : Snapshot} (h : Held H J root obj u snap dest d fs)
    (hs : Still d fs fs') : Held H J root obj u snap dest d fs' :=
  ⟨(snapshotAt_congr (hs.outside h.away)).trans h.stored, hs.ground h.ground, h.intact,
    hs.holds h.holds, h.away⟩

/-- States reached by further restores of a snapshot into a destination, with enough rounds. -/
abbrev Repeated (K : Kernel) (H : Blake3) (J : Serde) (root : Loc) (u : Uuid) (dest : PathBuf)
    (N : ℕ) : FS → FS → Prop :=
  Relation.ReflTransGen fun fs fs' => ∃ reads fuel, N ≤ fuel ∧
    fs' = (exec K.handle ((managerAt root).restoreSnapshot H J reads fuel u.text dest) fs).2

/-- In an empty directory nothing is in the way and nothing is mistaken. -/
theorem viewAt_empty (hempty : ∀ n, fs.lookup (d ++ [n]) = none) {q : Loc} (hq : q ≠ []) :
    viewAt fs d q = none := by
  obtain ⟨n, q, rfl⟩ := List.exists_cons_of_ne_nil hq
  rw [viewAt, List.append_cons]
  exact FS.lookup_append_of_none (hempty n) q

theorem onTree_empty (hempty : ∀ n, fs.lookup (d ++ [n]) = none)
    {X : TreeEntry → Option Node → Prop} (hX : ∀ e, X e none) :
    OnTree J obj X hash (viewAt fs d) := by
  intro q e hq
  rw [viewAt_empty hempty hq.ne_nil]
  exact hX e

theorem TreeEntry.fits_none (e : TreeEntry) : e.Fits none := by
  rw [TreeEntry.Fits]
  cases e.entryType <;> intro _ h <;> cases h

/-- A restore into an absent or empty directory succeeds when it is given enough rounds. -/
theorem restore_empty (hH : H.Lawful) {u : Uuid} {snap : Snapshot}
    (hsnap : snapshotAt J root fs u = some snap) (h : Restoring H J root snap.tree dest d fs)
    (hempty : ∀ n, fs.lookup (d ++ [n]) = none) (reads : Loc → ℕ → ℕ) :
    ∃ N, ∀ fuel, N ≤ fuel → ∃ fs', exec K.handle
      ((managerAt root).restoreSnapshot H J reads fuel u.text dest) fs = (.ok (), fs') := by
  exact restore_fitting hH hsnap h (onTree_empty hempty fun e _ => nofun)
    (onTree_empty hempty TreeEntry.fits_none) reads

/-- What it leaves. -/
theorem held_of_restore (hH : H.Lawful) {u : Uuid} {snap : Snapshot}
    (hsnap : snapshotAt J root fs u = some snap) (h : Restoring H J root snap.tree dest d fs)
    (hempty : ∀ n, fs.lookup (d ++ [n]) = none) {reads : Loc → ℕ → ℕ} {fuel : ℕ}
    (hok : exec K.handle ((managerAt root).restoreSnapshot H J reads fuel u.text dest) fs =
      (.ok (), fs')) : Held H J root (stored root fs) u snap dest d fs' := by
  have hlinks : NoLinks J (stored root fs) snap.tree (viewAt fs d) :=
    onTree_empty hempty fun e _ => nofun
  have hdone := done_of_restore hH hsnap h hlinks hok
  have hexact := (hdone.restored.holds_iff hdone.fits (rooted_viewAt fs d)).2
    ⟨onTree_empty hempty fun e _ => nofun, fun q m n e _ _ hsome => by
      rw [viewAt_empty hempty (by simp)] at hsome
      cases hsome⟩
  -- the snapshot file is there, and so it is not below the empty directory
  obtain ⟨b, hb, -⟩ := Option.bind_eq_some_iff.1 hsnap
  obtain ⟨m, t, hl⟩ := fileAt_eq_some.1 hb
  have haway : ¬ Under d (snapshotLoc root u.plain) := by
    rintro ⟨⟨w, hw⟩, hne⟩
    have hnone := viewAt_empty hempty (q := w) (by rintro rfl; exact hne (by simpa using hw.symm))
    rw [viewAt, hw, hl] at hnone
    cases hnone
  refine ⟨(snapshotAt_congr (hdone.within.away _ ?_ ?_)).trans hsnap, hdone.ground, h.intact,
    hexact, haway⟩
  · rintro (hu | ⟨-, hnone⟩)
    · exact haway hu
    · rw [hl] at hnone
      cases hnone
  · exact not_objectsDir_prefix_snapshots root [u.plain.fileName]

/-- **Restoring again changes nothing.** After a restore into an absent or empty directory, every
further one of the same snapshot succeeds, copies nothing, and leaves the paths, kinds, contents,
modes, times and targets as they are, down to the times of links, and nothing else changes. -/
theorem restore_again (hH : H.Lawful) {u : Uuid} {snap : Snapshot}
    (hsnap : snapshotAt J root fs u = some snap) (h : Restoring H J root snap.tree dest d fs)
    (hempty : ∀ n, fs.lookup (d ++ [n]) = none) {reads : Loc → ℕ → ℕ} {fuel : ℕ}
    (hok : exec K.handle ((managerAt root).restoreSnapshot H J reads fuel u.text dest) fs =
      (.ok (), fs')) :
    ∃ N, ∀ s, Repeated K H J root u dest N fs' s → Still d fs' s ∧
      HoldsTree J (stored root fs) snap.tree (viewAt s d) ∧
      ∀ reads fuel, N ≤ fuel →
        (exec K.handle ((managerAt root).restoreSnapshot H J reads fuel u.text dest) s).1 = .ok () ∧
        Performs K.handle Gentle
          ((managerAt root).restoreSnapshot H J reads fuel u.text dest) s := by
  have hheld := held_of_restore hH hsnap h hempty hok
  obtain ⟨N, hN⟩ := enough_exists h.intact 0
  have hrests : ∀ s, Held H J root (stored root fs) u snap dest d s → ∀ reads fuel, N + 1 ≤ fuel →
      Rests K d s ((managerAt root).restoreSnapshot H J reads fuel u.text dest) :=
    fun s hs reads fuel hfuel => hs.rests hN reads hfuel
  refine ⟨N + 1, fun s hs => ?_⟩
  have hstill : Still d fs' s ∧ Held H J root (stored root fs) u snap dest d s := by
    induction hs with
    | refl => exact ⟨.refl d fs', hheld⟩
    | tail _ hstep ih =>
      obtain ⟨reads, fuel, hfuel, rfl⟩ := hstep
      obtain ⟨s', hrun, hstill, -⟩ := hrests _ ih.2 reads fuel hfuel
      rw [hrun]
      exact ⟨ih.1.trans hstill, ih.2.still hstill⟩
  refine ⟨hstill.1, hstill.2.holds, fun reads fuel hfuel => ?_⟩
  obtain ⟨s', hrun, -, hperf⟩ := hrests s hstill.2 reads fuel hfuel
  exact ⟨by rw [hrun], hperf⟩

section Sample

/-- The directory `/r`. -/
def absentDir : Loc := [⟨utf8 "r", by decide⟩]

/-- It can be made where it is absent. -/
theorem destination_sample {s : FS} (h : s.lookup absentDir = none) :
    Destination s (Loc.toPath absentDir) absentDir :=
  FS.Leads.destination_absent (q := []) (FS.leads_toPath (r := []) rfl) h

/-- The snapshot of `/w` is restored into `/r`, again and again. -/
theorem restore_again_sample : ∃ (snap : Snapshot) (s : FS) (N : ℕ), ∀ s',
    Repeated sampleKernel (Blake3.ofTable sampleHashes) (Serde.ofTable twinJson) sampleRoot
        sampleUuids.1 (Loc.toPath absentDir) N s s' →
      Still absentDir s s' ∧ HoldsTree (Serde.ofTable twinJson) (stored sampleRoot sampleTaken)
        snap.tree (viewAt s' absentDir) := by
  obtain ⟨snap, htaken, -⟩ := taken_sample
  have hnone : sampleTaken.lookup absentDir = none := by decide +kernel
  have hempty : ∀ n, sampleTaken.lookup (absentDir ++ [n]) = none :=
    fun n => FS.lookup_append_of_none hnone [n]
  have hrest : Restoring (Blake3.ofTable sampleHashes) (Serde.ofTable twinJson) sampleRoot
      snap.tree (Loc.toPath absentDir) absentDir sampleTaken :=
    ⟨htaken.sound, htaken.intact, destination_sample hnone, by decide, by decide⟩
  obtain ⟨n, hn⟩ := restore_empty (K := sampleKernel) (Blake3.ofTable_lawful sampleHashes)
    htaken.here hrest hempty fun _ _ => 1
  obtain ⟨s, hrun⟩ := hn n le_rfl
  obtain ⟨N, hN⟩ := restore_again (Blake3.ofTable_lawful sampleHashes) htaken.here hrest hempty hrun
  exact ⟨snap, s, N, fun s' hs' => ⟨(hN s' hs').1, (hN s' hs').2.1⟩⟩

end Sample

end SandD
