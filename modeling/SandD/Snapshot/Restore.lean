import SandD.Snapshot.Capture

/-!
# Restoring a tree

What `restoreTree` does to a directory that is apart from the objects, when no recorded file or
directory is met as a link.

* `Cleared`, `exec_clean`: the clean-up;
* `FitsTree`, `Restored`: what a tree can be restored over, and what comes of the directory;
* `Ground`, `Ready`: directories in which a tree is going to be restored;
* `exec_fillTree`: **a tree that fits is restored, and one that does not fit is not**.
-/

namespace SandD

open Posix ObjectStore SnapshotManager
open Fallible (exec Ends Spec)

variable {K : Kernel} {H : Blake3} {J : Serde} {root : Loc} {fs fs' fs'' : FS}

/-! ### Cleaning up -/

section Clean

variable {p : PathBuf} {d : Loc}

/-- Some of the names in a directory have been cleared away. -/
structure Cleared (d : Loc) (gone : FileName → Prop) (fs fs' : FS) : Prop where
  empty : ∀ n, gone n → ∀ u, d ++ [n] <+: u → fs'.lookup u = none
  kept : ∀ u, (∀ n, gone n → ¬ d ++ [n] <+: u) → fs'.lookup u = fs.lookup u

theorem Cleared.refl (d : Loc) {gone : FileName → Prop} (h : ∀ n, ¬ gone n) :
    Cleared d gone fs fs := ⟨fun n hn => absurd hn (h n), fun _ _ => rfl⟩

theorem Cleared.trans {g₁ g₂ : FileName → Prop} (h : Cleared d g₁ fs fs')
    (h' : Cleared d g₂ fs' fs'') : Cleared d (fun n => g₁ n ∨ g₂ n) fs fs'' where
  empty n hn u hu := by
    by_cases hg : ∃ m, g₂ m ∧ d ++ [m] <+: u
    · obtain ⟨m, hm, hmu⟩ := hg
      exact h'.empty m hm u hmu
    · rw [h'.kept u fun m hm hmu => hg ⟨m, hm, hmu⟩]
      rcases hn with hn | hn
      · exact h.empty n hn u hu
      · exact absurd ⟨n, hn, hu⟩ hg
  kept u hu := (h'.kept u fun n hn => hu n (.inr hn)).trans (h.kept u fun n hn => hu n (.inl hn))

theorem Cleared.keeps {gone : FileName → Prop} (h : Cleared d gone fs fs') {v : Loc}
    (hv : ¬ Under d v) : FS.Keeps fs fs' v :=
  FS.Keeps.of_eq (h.kept v fun n _ hn => hv ((under_concat d n).deeper hn))

/-- What does not belong is removed. -/
theorem exec_cleanEntry (h : fs.Leads p d) (expected : List String) (n : FileName) :
    ∃ fs', exec K.handle (cleanEntry p expected n) fs = (.ok (), fs') ∧
      Cleared d (fun m => m = n ∧ toStringLossy n.bytes ∉ expected) fs fs' := by
  have hjoin : p.join n.bytes = p ++ [.name n] := p.join_of_valid n.valid
  rw [cleanEntry, hjoin]
  by_cases hmem : toStringLossy n.bytes ∈ expected
  · exact ⟨fs, by rw [if_pos hmem]; rfl, .refl d fun m hm => hm.2 hmem⟩
  · rw [if_neg hmem]
    have hstat : exec K.handle (Fallible.attempt
        (io (IoM.op (.symlinkMetadata (p ++ [.name n]))))) fs =
          (.ok ((fs.stat false (p ++ [.name n])).map Node.metadata |>.mapError Error.io), fs) := by
      rw [Fallible.exec_attempt, exec_io, run_op, Kernel.handle]
    rw [Fallible.exec_bind_ok _ hstat, h.stat_entry (Or.inl rfl)]
    have hremoved : Cleared d (fun m => m = n ∧ toStringLossy n.bytes ∉ expected) fs
        (fs.remove (d ++ [n])) := by
      refine ⟨?_, fun u hu => ?_⟩
      · rintro m ⟨rfl, -⟩ u hu
        rw [FS.lookup_remove fs (by simp), if_pos hu]
      · rw [FS.lookup_remove fs (by simp), if_neg (hu n ⟨rfl, hmem⟩)]
    rcases hl : fs.lookup (d ++ [n]) with _ | nd
    · refine ⟨fs, rfl, ?_, fun _ _ => rfl⟩
      rintro m ⟨rfl, -⟩ u ⟨w, rfl⟩
      exact FS.lookup_append_of_none hl w
    · refine ⟨fs.remove (d ++ [n]), ?_, hremoved⟩
      simp only [Except.map, Except.mapError]
      cases hnd : nd.isDir
      · have hty : ¬ nd.metadata.fileType = .dir := by
          cases nd <;> simp_all [Node.metadata, Node.isDir]
        rw [if_neg hty]
        have hrm : exec K.handle (Fallible.attempt (io (IoM.op (.removeFile (p ++ [.name n])))))
            fs = (.ok (.ok ()), fs.remove (d ++ [n])) := by
          rw [Fallible.exec_attempt, exec_io, run_op, Kernel.handle, h.removeFile_entry hl hnd]
          rfl
        exact Fallible.exec_bind_ok _ hrm
      · have hty : nd.metadata.fileType = .dir := by
          cases nd <;> simp_all [Node.metadata, Node.isDir]
        rw [if_pos hty]
        have hrm : exec K.handle (Fallible.attempt (io (IoM.op (.removeDirAll (p ++ [.name n])))))
            fs = (.ok (.ok ()), fs.remove (d ++ [n])) := by
          rw [Fallible.exec_attempt, exec_io, run_op, Kernel.handle,
            h.removeDirAll_entry (by rw [FS.isDir, hl]; exact hnd)]
          rfl
        exact Fallible.exec_bind_ok _ hrm

/-- The loop over the names. -/
theorem exec_clean (hp : fs.Pinned p d) (expected : List String) (names : List FileName) :
    ∃ fs', exec K.handle (names.forM (cleanEntry p expected)) fs = (.ok (), fs') ∧
      Cleared d (fun m => m ∈ names ∧ toStringLossy m.bytes ∉ expected) fs fs' := by
  induction names generalizing fs with
  | nil => exact ⟨fs, rfl, .refl d fun m hm => nomatch hm.1⟩
  | cons n names ih =>
    obtain ⟨fs₁, h₁, hc₁⟩ := exec_cleanEntry (K := K) hp.leads expected n
    obtain ⟨fs', h', hc'⟩ := ih (hp.mono fun v hv => hc₁.keeps hv)
    refine ⟨fs', (Fallible.exec_bind_ok _ h₁).trans h', ?_⟩
    have hc := hc₁.trans hc'
    refine ⟨fun m hm => hc.empty m ?_, fun u hu => hc.kept u fun m hm => hu m ?_⟩
    · rcases List.mem_cons.1 hm.1 with rfl | hmem
      · exact .inl ⟨rfl, hm.2⟩
      · exact .inr ⟨hmem, hm.2⟩
    · rcases hm with ⟨rfl, hm⟩ | ⟨hmem, hm⟩
      · exact ⟨List.mem_cons_self, hm⟩
      · exact ⟨List.mem_cons_of_mem n hmem, hm⟩

end Clean

/-! ### Directories -/

/-- `restoreTree` in a directory that is there. -/
def fillTree (M : SnapshotManager) (H : Blake3) (J : Serde) (reads : Loc → ℕ → ℕ) (fuel : ℕ)
    (treeHash : String) (dest : PathBuf) : Action Unit := do
  let treeJson ← M.store.getBlob treeHash
  let entries ← Fallible.ofExcept (J.decodeTree treeJson)
  let expected := entries.map (·.name)
  entries.forM (M.restoreEntry H reads fuel (M.restoreTree H J reads fuel) dest)
  let names ← io (IoM.op (.readDir dest))
  names.forM (cleanEntry dest expected)

theorem restoreTree_succ (M : SnapshotManager) (reads : Loc → ℕ → ℕ) (fuel : ℕ)
    (treeHash : String) (dest : PathBuf) :
    M.restoreTree H J reads (fuel + 1) treeHash dest = (do
      io (IoM.createDirAll dest)
      fillTree M H J reads fuel treeHash dest) := rfl

section Tree

variable (K : Kernel) (J : Serde) (obj : String → Option Bytes)

/-- What comes of a directory: leaves and sub-trees are restored, in sub-directories that are left
as they were or made, names that are taken for those of entries are kept, and others are cleared
away. -/
inductive Restored : String → View → View → Prop
  | mk {hash : String} {es : List TreeEntry} {f g : View} (hes : entriesOf J obj hash = some es)
      (leaf : ∀ e ∈ es, e.entryType ≠ .tree → ∀ n : FileName, n.bytes = utf8 e.name →
        ∃ nd, e.Becomes K obj (f [n]) nd ∧
          g.child n = Function.update (f.child n) [] (some nd))
      (dir : ∀ e ∈ es, e.entryType = .tree → ∀ n : FileName, n.bytes = utf8 e.name →
        ∃ nd, g [n] = some nd ∧ nd.isDir = true ∧ nd = (f [n]).getD K.newDir)
      (tree : ∀ e ∈ es, e.entryType = .tree → ∀ n : FileName, n.bytes = utf8 e.name →
        Restored e.hash (f.child n) (g.child n))
      (kept : ∀ n : FileName, (∀ e ∈ es, n.bytes ≠ utf8 e.name) →
        toStringLossy n.bytes ∈ es.map (·.name) → g.child n = f.child n)
      (cleared : ∀ n : FileName, toStringLossy n.bytes ∉ es.map (·.name) →
        ∀ q, g (n :: q) = none) : Restored hash f g

/-- A bound for the depth of a tree and the sizes of files. -/
def Enough (L : ℕ) : ℕ → String → Prop
  | 0, _ => False
  | n + 1, hash => L < n + 1 ∧ ∀ es, entriesOf J obj hash = some es →
      ∀ e ∈ es, e.entryType = .tree → Enough L n e.hash

/-- No file is larger than that. -/
def Bounded (L : ℕ) (f : View) : Prop := ∀ q b m t, f q = some (.file b m t) → b.length ≤ L

/-- Where no link is recorded there is none. -/
def NoLinks : String → View → Prop :=
  OnTree J obj fun e o => e.entryType.isLink = false → ∀ nd, o = some nd → nd.isLink = false

/-- A tree can be restored over what is there. -/
def FitsTree : String → View → Prop := OnTree J obj TreeEntry.Fits

end Tree

variable {obj : String → Option Bytes} {hash : String} {es : List TreeEntry} {f f' g : View}

theorem OnTree.congr {X : TreeEntry → Option Node → Prop} (h : OnTree J obj X hash f)
    (hf : ∀ q, q ≠ [] → f' q = f q) : OnTree J obj X hash f' := fun q e hq => by
  rw [hf q hq.ne_nil]
  exact h q e hq

theorem Restored.congr (h : Restored K J obj hash f g) (hf : ∀ q, q ≠ [] → f' q = f q) :
    Restored K J obj hash f' g := by
  have hchild : ∀ n, f'.child n = f.child n := fun n => funext fun q => hf (n :: q) (by simp)
  cases h with
  | mk hes leaf dir tree kept cleared =>
    refine .mk hes (fun e he ht n hn => ?_) (fun e he ht n hn => ?_) (fun e he ht n hn => ?_)
      (fun n hn hmem => ?_) cleared
    · rw [hf [n] (by simp), hchild]
      exact leaf e he ht n hn
    · rw [hf [n] (by simp)]
      exact dir e he ht n hn
    · rw [hchild]
      exact tree e he ht n hn
    · rw [hchild]
      exact kept n hn hmem

/-- An entry can be restored over what is there. -/
structure EntryFits (J : Serde) (obj : String → Option Bytes) (e : TreeEntry) (f : View) :
    Prop where
  node : e.Fits (f [])
  tree : e.entryType = .tree → FitsTree J obj e.hash f

/-- What comes of the place of an entry. -/
structure EntryDone (K : Kernel) (J : Serde) (obj : String → Option Bytes) (e : TreeEntry)
    (f g : View) : Prop where
  leaf : e.entryType ≠ .tree →
    ∃ nd, e.Becomes K obj (f []) nd ∧ g = Function.update f [] (some nd)
  dir : e.entryType = .tree →
    ∃ nd, g [] = some nd ∧ nd.isDir = true ∧ nd = (f []).getD K.newDir
  tree : e.entryType = .tree → Restored K J obj e.hash f g

/-- A directory apart from a store in order that holds the objects `obj`. -/
structure Ground (H : Blake3) (root : Loc) (obj : String → Option Bytes) (p : PathBuf) (d : Loc)
    (fs : FS) : Prop where
  sound : Sound H root fs
  le : ∀ x b, obj x = some b → stored root fs x = some b
  pinned : fs.Pinned p d
  apart : Apart root d

/-- A directory in which a tree is going to be restored. -/
structure Ready (H : Blake3) (J : Serde) (root : Loc) (obj : String → Option Bytes)
    (hash : String) (p : PathBuf) (d : Loc) (fs : FS) : Prop extends Ground H root obj p d fs where
  intact : Intact J obj hash
  noLinks : NoLinks J obj hash (viewAt fs d)

theorem Ground.later {p : PathBuf} {d : Loc} {inside : Loc → Prop}
    (hg : Ground H root obj p d fs) (hw : Within H root inside fs fs')
    (hi : ∀ v, inside v → Under d v) : Ground H root obj p d fs' :=
  ⟨hw.sound, fun x b hx => stored_keeping hw.keeping (hg.le x b hx), hw.pinned hi hg.pinned,
    hg.apart⟩

theorem Ground.child {p : PathBuf} {d : Loc} {n : FileName} (hg : Ground H root obj p d fs)
    (hn : fs.isDir (d ++ [n])) : Ground H root obj (p ++ [.name n]) (d ++ [n]) fs :=
  ⟨hg.sound, hg.le, hg.pinned.child hn, hg.apart.deeper (List.prefix_append d [n])⟩

/-- No link is in the way of an entry. -/
structure EntryFree (J : Serde) (obj : String → Option Bytes) (e : TreeEntry) (f : View) :
    Prop where
  node : e.entryType.isLink = false → ∀ nd, f [] = some nd → nd.isLink = false
  tree : e.entryType = .tree → NoLinks J obj e.hash f

/-- What `fillTree` comes to. -/
structure Fill (K : Kernel) (H : Blake3) (J : Serde) (root : Loc) (obj : String → Option Bytes)
    (fuel : ℕ) (hash : String) (d : Loc) (fs : FS) (r : Except Error Unit) (fs' : FS) : Prop where
  within : Within H root (Under d) fs fs'
  ok : FitsTree J obj hash (viewAt fs d) → ∀ L, Bounded L (viewAt fs d) →
    Enough J obj L fuel hash → r = .ok ()
  done : r = .ok () → FitsTree J obj hash (viewAt fs d) ∧
    Restored K J obj hash (viewAt fs d) (viewAt fs' d)

/-- What `restoreEntry` comes to. -/
structure FillEntry (K : Kernel) (H : Blake3) (J : Serde) (root : Loc)
    (obj : String → Option Bytes) (fuel : ℕ) (e : TreeEntry) (v : Loc) (fs : FS)
    (r : Except Error Unit) (fs' : FS) : Prop where
  within : Within H root (v <+: ·) fs fs'
  ok : EntryFits J obj e (viewAt fs v) → ∀ L, Bounded L (viewAt fs v) → L < fuel →
    (e.entryType = .tree → ∃ m, fuel = m + 1 ∧ Enough J obj L m e.hash) → r = .ok ()
  done : r = .ok () → EntryFits J obj e (viewAt fs v) ∧
    EntryDone K J obj e (viewAt fs v) (viewAt fs' v)

theorem Leaf.entry {d : Loc} {n : FileName} {e : TreeEntry} {good : Prop} {fuel : ℕ}
    {r : Except Error Unit} (h : Leaf K H root d n obj e good fs r fs') (ht : e.entryType ≠ .tree)
    (hgood : ∀ L, Bounded L (viewAt fs (d ++ [n])) → L < fuel → good) :
    FillEntry K H J root obj fuel e (d ++ [n]) fs r fs' := by
  have hnil : viewAt fs (d ++ [n]) [] = fs.lookup (d ++ [n]) := by
    rw [viewAt, List.append_nil]
  refine ⟨h.within, fun hfits L hL hfuel _ => h.ok ?_ (hgood L hL hfuel), fun hr => ?_⟩
  · rw [← hnil]
    exact hfits.node
  · obtain ⟨hfits, nd, hnd, hview⟩ := h.done hr
    rw [← hnil] at hfits hnd
    exact ⟨⟨hfits, fun h => absurd h ht⟩, fun _ => ⟨nd, hnd, hview⟩, fun h => absurd h ht,
      fun h => absurd h ht⟩

/-- `restoreTree` on an entry, when `fillTree` is known. -/
theorem exec_restoreSubtree {fuel : ℕ} {p : PathBuf} {d : Loc} {n : FileName} {e : TreeEntry}
    (reads : Loc → ℕ → ℕ) (hg : Ground H root obj p d fs) (hn : ¬ fs.isLink (d ++ [n]))
    (ht : e.entryType = .tree) (hi : Intact J obj e.hash)
    (hlinks : NoLinks J obj e.hash (viewAt fs (d ++ [n])))
    (hrec : ∀ m, fuel = m + 1 → ∀ p d fs, Ready H J root obj e.hash p d fs → ∃ r fs',
      exec K.handle (fillTree (managerAt root) H J reads m e.hash p) fs = (r, fs') ∧
        Fill K H J root obj m e.hash d fs r fs') :
    ∃ r fs', exec K.handle ((managerAt root).restoreTree H J reads fuel e.hash
        (p ++ [.name n])) fs = (r, fs') ∧
      FillEntry K H J root obj fuel e (d ++ [n]) fs r fs' := by
  have hd : Apart root (d ++ [n]) := hg.apart.deeper (List.prefix_append d [n])
  have hnil : viewAt fs (d ++ [n]) [] = fs.lookup (d ++ [n]) := by
    rw [viewAt, List.append_nil]
  cases fuel with
  | zero =>
    refine ⟨.error .outOfFuel, fs, rfl, .refl hg.sound, fun _ L _ hL _ => ?_, fun h => by cases h⟩
    exact absurd hL (Nat.not_lt_zero L)
  | succ m =>
    have hrun := restoreTree_succ (H := H) (J := J) (managerAt root) reads m e.hash (p ++ [.name n])
    -- what is left when the directory is there
    have hfill : ∀ fs₁, Within H root (d ++ [n] <+: ·) fs fs₁ → fs₁.isDir (d ++ [n]) →
        (∀ q, q ≠ [] → viewAt fs₁ (d ++ [n]) q = viewAt fs (d ++ [n]) q) →
        (∀ nd, fs.lookup (d ++ [n]) = some nd → nd.isDir = true) →
        fs₁.lookup (d ++ [n]) = some ((fs.lookup (d ++ [n])).getD K.newDir) →
        exec K.handle (io (IoM.createDirAll (p ++ [.name n]))) fs = (.ok (), fs₁) →
        ∃ r fs', exec K.handle ((managerAt root).restoreTree H J reads (m + 1) e.hash
            (p ++ [.name n])) fs = (r, fs') ∧
          FillEntry K H J root obj (m + 1) e (d ++ [n]) fs r fs' := by
      intro fs₁ hw hdir hview hnode hself hmk
      have hg₁ := (hg.later hw fun v => (under_concat d n).deeper).child hdir
      obtain ⟨r, fs', hr, hf⟩ := hrec m rfl (p ++ [.name n]) (d ++ [n]) fs₁
        ⟨hg₁, hi, hlinks.congr hview⟩
      refine ⟨r, fs', ?_, hw.trans (hf.within.mono fun v hv => hv.1), ?_, fun hok => ?_⟩
      · rw [hrun, Fallible.exec_bind_ok _ hmk, hr]
      · intro hfits L hL _ henough
        obtain ⟨m', hm', henough⟩ := henough ht
        obtain rfl : m = m' := Nat.succ_injective hm'
        refine hf.ok ((hfits.tree ht).congr hview) L (fun q b md t hq => ?_) henough
        rcases eq_or_ne q [] with rfl | hne
        · rw [viewAt, List.append_nil] at hq
          simp [FS.isDir, hq, Node.isDir] at hdir
        · exact hL q b md t (hview q hne ▸ hq)
      · obtain ⟨hfits, hrest⟩ := hf.done hok
        have hback : ∀ q, q ≠ [] → viewAt fs (d ++ [n]) q = viewAt fs₁ (d ++ [n]) q :=
          fun q hq => (hview q hq).symm
        refine ⟨⟨?_, fun _ => hfits.congr hback⟩, fun h => absurd ht h, fun _ => ?_,
          fun _ => hrest.congr hback⟩
        · rw [TreeEntry.Fits, ht, hnil]
          exact hnode
        · obtain ⟨md, t, s, hl⟩ := FS.isDir_iff.1
            (hg₁.later hf.within fun _ h => h).pinned.isDir
          have hkept : fs'.lookup (d ++ [n]) = fs₁.lookup (d ++ [n]) :=
            hf.within.away _ (fun hu => hu.2 rfl) (hd.not_objects List.prefix_rfl)
          refine ⟨_, by rw [viewAt, List.append_nil]; exact hl, rfl, ?_⟩
          rw [hnil]
          exact Option.some_inj.1 (hl.symm.trans (hkept.trans hself))
    rcases exec_createDirAll_entry (K := K) hg.pinned.leads hn with
      ⟨hdir, hmk⟩ | ⟨hnone, hmk⟩ | ⟨nd, err, hl, hnd, hmk⟩
    · refine hfill fs (.refl hg.sound) hdir (fun _ _ => rfl) (fun nd hl => ?_) ?_ ?_
      · rw [FS.isDir, hl] at hdir
        exact hdir
      · obtain ⟨md, t, s, hl⟩ := FS.isDir_iff.1 hdir
        rw [hl]
        rfl
      · rw [exec_io, hmk]
        rfl
    · have hup := hg.pinned.leads.lookup_insert_free hnone K.newDir
      refine hfill (fs.insert (d ++ [n]) K.newDir) ?_ ?_ (fun q hq => ?_) (fun nd hl => ?_) ?_ ?_
      · refine .of_away hg.sound hd (fun _ h => h) fun v hv => ?_
        rw [hup, Function.update_of_ne]
        rintro rfl
        exact hv List.prefix_rfl
      · rw [FS.isDir, hup, Function.update_self]
        rfl
      · rw [viewAt, viewAt, hup, Function.update_of_ne (by simpa using hq)]
      · rw [hnone] at hl
        cases hl
      · rw [hup, Function.update_self, hnone]
        rfl
      · rw [exec_io, hmk]
        rfl
    · have hmk' : exec K.handle (io (IoM.createDirAll (p ++ [.name n]))) fs =
          (.error (.io err), fs) := by
        rw [exec_io, hmk]
        rfl
      refine ⟨.error (.io err), fs, ?_, .refl hg.sound, fun hfits => ?_, fun h => by cases h⟩
      · rw [hrun, Fallible.exec_bind_error _ hmk']
      · have := hfits.node
        rw [TreeEntry.Fits, ht, hnil] at this
        rw [this nd hl] at hnd
        cases hnd

theorem restoreEntry_of_join {M : SnapshotManager} {e : TreeEntry} {p q : PathBuf}
    (hjoin : p.join (utf8 e.name) = q) (H : Blake3) (reads : Loc → ℕ → ℕ) (fuel : ℕ)
    (restoreTree : String → PathBuf → Action Unit) :
    M.restoreEntry H reads fuel restoreTree p e =
      match e.entryType with
      | .blob => M.restoreBlob H reads fuel q e
      | .tree => restoreTree e.hash q
      | .symlink | .symlinkDir => M.restoreSymlink q e := by
  unfold restoreEntry
  cases e.entryType <;> simp only [hjoin]

/-- `restoreEntry`, when `fillTree` is known. -/
theorem exec_restoreEntry (hH : H.Lawful) {fuel : ℕ} {p : PathBuf} {d : Loc} {n : FileName}
    {e : TreeEntry} (reads : Loc → ℕ → ℕ) (hi : Intact J obj hash)
    (hes : entriesOf J obj hash = some es) (he : e ∈ es) (hname : n.bytes = utf8 e.name)
    (hg : Ground H root obj p d fs) (hfree : EntryFree J obj e (viewAt fs (d ++ [n])))
    (hrec : ∀ m, fuel = m + 1 → ∀ hash p d fs, Ready H J root obj hash p d fs → ∃ r fs',
      exec K.handle (fillTree (managerAt root) H J reads m hash p) fs = (r, fs') ∧
        Fill K H J root obj m hash d fs r fs') :
    ∃ r fs', exec K.handle ((managerAt root).restoreEntry H reads fuel
        ((managerAt root).restoreTree H J reads fuel) p e) fs = (r, fs') ∧
      FillEntry K H J root obj fuel e (d ++ [n]) fs r fs' := by
  have hjoin : p.join (utf8 e.name) = p ++ [.name n] := hname ▸ p.join_of_valid n.valid
  have hentry := restoreEntry_of_join (M := managerAt root) (e := e) hjoin H reads fuel
    ((managerAt root).restoreTree H J reads fuel)
  have hlink : e.entryType.isLink = false → ¬ fs.isLink (d ++ [n]) := by
    intro hty hl
    obtain ⟨l, t, hl⟩ := FS.isLink_iff.1 hl
    have := hfree.node hty (.symlink l t) (by rw [viewAt, List.append_nil, hl])
    cases this
  obtain ⟨hes', -, -, blob, link, tree⟩ := hi
  cases hes.symm.trans hes'
  rw [hentry]
  cases ht : e.entryType
  · obtain ⟨data, hdata, -⟩ := blob e he ht
    obtain ⟨r, fs', hrun, hleaf⟩ := exec_restoreBlob (K := K) hH hg.sound hg.pinned hg.apart
      (hlink (by rw [ht]; rfl)) ht hdata hg.le reads fuel
    refine ⟨r, fs', hrun, hleaf.entry (by simp [ht]) fun L hL hfuel b m t hl => ?_⟩
    exact (hL [] b m t (by rw [viewAt, List.append_nil, hl])).trans_lt hfuel
  · exact exec_restoreSubtree reads hg (hlink (by rw [ht]; rfl)) ht (tree e he ht)
      (hfree.tree ht) fun m hm => hrec m hm e.hash
  all_goals
    have hty : e.entryType.isLink = true := by rw [ht]; rfl
    obtain ⟨t, ht', hutf⟩ := link e he hty
    obtain ⟨r, fs', hrun, hleaf, -⟩ := exec_restoreSymlink (K := K) (n := n) hg.sound hg.pinned
      hg.apart hty ht' hutf hg.le
    exact ⟨r, fs', hrun, hleaf.entry (by simp [ht]) fun _ _ _ => trivial⟩

/-! ### The loop -/

/-- When the entries `done` have been restored. -/
structure Progress (K : Kernel) (H : Blake3) (J : Serde) (root : Loc)
    (obj : String → Option Bytes) (d : Loc) (fs : FS) (done : List TreeEntry) (s : FS) : Prop where
  within : Within H root (Under d) fs s
  entry : ∀ e ∈ done, ∀ n : FileName, n.bytes = utf8 e.name →
    EntryFits J obj e (viewAt fs (d ++ [n])) ∧
      EntryDone K J obj e (viewAt fs (d ++ [n])) (viewAt s (d ++ [n]))
  other : ∀ n : FileName, (∀ e ∈ done, n.bytes ≠ utf8 e.name) →
    viewAt s (d ++ [n]) = viewAt fs (d ++ [n])

theorem viewAt_away {d : Loc} {m n : FileName} (hd : Apart root d) (hne : m ≠ n)
    (hw : Within H root (d ++ [n] <+: ·) fs fs') :
    viewAt fs' (d ++ [m]) = viewAt fs (d ++ [m]) := by
  funext q
  refine hw.away _ (fun hp => ?_)
    (hd.not_objects ((List.prefix_append d [m]).trans (List.prefix_append _ q)))
  rw [List.append_assoc, List.prefix_append_right_inj] at hp
  exact hne (List.cons_prefix_cons.1 hp).1.symm

/-- One round. -/
theorem Progress.step {d : Loc} {n : FileName} {e : TreeEntry} {fuel : ℕ} {done : List TreeEntry}
    {s s₁ : FS} (h : Progress K H J root obj d fs done s) (hd : Apart root d)
    (hname : n.bytes = utf8 e.name) (hnew : ∀ e' ∈ done, e'.name ≠ e.name)
    (he : FillEntry K H J root obj fuel e (d ++ [n]) s (.ok ()) s₁) :
    Progress K H J root obj d fs (done ++ [e]) s₁ := by
  have hview : viewAt s (d ++ [n]) = viewAt fs (d ++ [n]) :=
    h.other n fun e' he' heq => hnew e' he' (utf8_injective (heq.symm.trans hname))
  have hw := he.within
  refine ⟨h.within.trans (hw.mono fun v => (under_concat d n).deeper), fun e' he' m hm => ?_,
    fun m hm => ?_⟩
  · rcases List.mem_append.1 he' with he' | he'
    · have hne : m ≠ n := by
        rintro rfl
        exact hnew e' he' (utf8_injective (hm.symm.trans hname))
      rw [viewAt_away hd hne hw]
      exact h.entry e' he' m hm
    · obtain rfl := List.mem_singleton.1 he'
      obtain rfl : m = n := FileName.ext (hm.trans hname.symm)
      rw [← hview]
      exact he.done rfl
  · have hne : m ≠ n := by
      rintro rfl
      exact hm e (by simp) hname
    rw [viewAt_away hd hne hw]
    exact h.other m fun e' he' => hm e' (by simp [he'])

/-- A failed round: the entry does not fit. -/
theorem Progress.failed {d : Loc} {n : FileName} {e : TreeEntry} {fuel L : ℕ}
    {done : List TreeEntry} {s s₁ : FS} {err : Error} (h : Progress K H J root obj d fs done s)
    (hes : entriesOf J obj hash = some es) (he : e ∈ es) (hname : n.bytes = utf8 e.name)
    (hnew : ∀ e' ∈ done, e'.name ≠ e.name)
    (hr : FillEntry K H J root obj fuel e (d ++ [n]) s (.error err) s₁)
    (hL : Bounded L (viewAt fs d)) (henough : Enough J obj L fuel hash) :
    ¬ FitsTree J obj hash (viewAt fs d) := by
  intro hfits
  have hview : viewAt s (d ++ [n]) = (viewAt fs d).child n := by
    rw [child_viewAt]
    exact h.other n fun e' he' heq => hnew e' he' (utf8_injective (heq.symm.trans hname))
  obtain ⟨hnode, htree⟩ := (onTree_iff hes).1 hfits e he n hname
  have hok := hr.ok ⟨by rw [hview]; exact hnode, fun ht => by rw [hview]; exact htree ht⟩ L
    (fun q b m t hq => hL (n :: q) b m t (by rw [hview] at hq; exact hq))
  cases fuel with
  | zero => exact henough
  | succ m =>
    cases hok henough.1 fun ht => ⟨m, rfl, henough.2 es hes e he ht⟩

/-- The loop over the entries. -/
theorem exec_entries (hH : H.Lawful) {fuel : ℕ} {p : PathBuf} {d : Loc} (reads : Loc → ℕ → ℕ)
    (hr : Ready H J root obj hash p d fs) (hes : entriesOf J obj hash = some es)
    (hrec : ∀ m, fuel = m + 1 → ∀ hash p d fs, Ready H J root obj hash p d fs → ∃ r fs',
      exec K.handle (fillTree (managerAt root) H J reads m hash p) fs = (r, fs') ∧
        Fill K H J root obj m hash d fs r fs') :
    Ends (fun _ => Progress K H J root obj d fs es)
      (fun _ s => Within H root (Under d) fs s ∧ ∀ L, Bounded L (viewAt fs d) →
        Enough J obj L fuel hash → ¬ FitsTree J obj hash (viewAt fs d))
      (exec K.handle (es.forM ((managerAt root).restoreEntry H reads fuel
        ((managerAt root).restoreTree H J reads fuel) p)) fs).1
      (exec K.handle (es.forM ((managerAt root).restoreEntry H reads fuel
        ((managerAt root).restoreTree H J reads fuel) p)) fs).2 := by
  refine Fallible.spec_alone.1 (Fallible.Spec.forM (I := Progress K H J root obj d fs)
    fun done e rest hl => Fallible.spec_alone.2 fun s hs => ?_) fs
      ⟨.refl hr.sound, nofun, fun _ _ => rfl⟩
  have he : e ∈ es := by simp [hl]
  obtain ⟨hes', valid, distinct, -, -, -⟩ := id hr.intact
  cases hes.symm.trans hes'
  have hnew : ∀ e' ∈ done, e'.name ≠ e.name := by
    intro e' he' heq
    rw [hl, List.map_append, List.map_cons] at distinct
    exact (List.disjoint_of_nodup_append distinct (List.mem_map_of_mem he'))
      (by rw [heq]; exact List.mem_cons_self)
  obtain ⟨hnode, htree⟩ := (onTree_iff hes).1 hr.noLinks e he ⟨utf8 e.name, valid e he⟩ rfl
  have hview := hs.other ⟨utf8 e.name, valid e he⟩ fun e' he' heq =>
    hnew e' he' (utf8_injective heq.symm)
  obtain ⟨r, s₁, hrun, hentry⟩ := exec_restoreEntry (K := K) (n := ⟨utf8 e.name, valid e he⟩) hH
    reads hr.intact hes he rfl (hr.toGround.later hs.within fun _ h => h)
    ⟨fun hty nd hnd => hnode hty nd (by rw [hview, ← child_viewAt] at hnd; exact hnd),
      fun ht => by rw [hview, ← child_viewAt]; exact htree ht⟩ hrec
  rw [hrun]
  cases r with
  | ok u => exact hs.step hr.apart rfl hnew hentry
  | error err =>
    exact ⟨hs.within.trans (hentry.within.mono fun v => (under_concat d _).deeper),
      fun L hL henough => hs.failed hes he rfl hnew hentry hL henough⟩

/-- What is there when the directory has been cleared as well. -/
theorem Progress.restored {d : Loc} {s s₁ : FS} (h : Progress K H J root obj d fs es s)
    (hes : entriesOf J obj hash = some es) (hdir : s.isDir d)
    (hc : Cleared d (fun m => m ∈ s.names d ∧ toStringLossy m.bytes ∉ es.map (·.name)) s s₁) :
    Restored K J obj hash (viewAt fs d) (viewAt s₁ d) := by
  have hexpected : ∀ e ∈ es, ∀ n : FileName, n.bytes = utf8 e.name →
      toStringLossy n.bytes ∈ es.map (·.name) := by
    intro e he n hn
    rw [hn, toStringLossy_utf8]
    exact List.mem_map_of_mem he
  have hkept : ∀ n : FileName, toStringLossy n.bytes ∈ es.map (·.name) →
      viewAt s₁ (d ++ [n]) = viewAt s (d ++ [n]) := by
    intro n hn
    funext q
    refine hc.kept _ ?_
    rintro m ⟨-, hm⟩ hp
    rw [List.append_assoc, List.prefix_append_right_inj] at hp
    exact hm ((List.cons_prefix_cons.1 hp).1 ▸ hn)
  refine .mk hes (fun e he ht n hn => ?_) (fun e he ht n hn => ?_) (fun e he ht n hn => ?_)
    (fun n hn hmem => ?_) (fun n hn q => ?_)
  · have hnil : viewAt fs d [n] = viewAt fs (d ++ [n]) [] := by
      rw [← child_viewAt]
      rfl
    rw [child_viewAt, child_viewAt, hkept n (hexpected e he n hn), hnil]
    exact (h.entry e he n hn).2.leaf ht
  · obtain ⟨nd, hnd, hdir, heq⟩ := (h.entry e he n hn).2.dir ht
    rw [← hkept n (hexpected e he n hn), ← child_viewAt] at hnd
    rw [← child_viewAt] at heq
    exact ⟨nd, hnd, hdir, heq⟩
  · rw [child_viewAt, child_viewAt, hkept n (hexpected e he n hn)]
    exact (h.entry e he n hn).2.tree ht
  · rw [child_viewAt, child_viewAt, hkept n hmem]
    exact h.other n hn
  · by_cases hmem : n ∈ s.names d
    · exact hc.empty n ⟨hmem, hn⟩ _ (by simp [List.prefix_append_right_inj, List.cons_prefix_cons])
    · have hnone : s.lookup (d ++ [n]) = none := by
        rw [FS.mem_names hdir] at hmem
        simpa using hmem
      rw [viewAt, hc.kept]
      · rw [List.append_cons]
        exact FS.lookup_append_of_none hnone q
      · rintro m ⟨hm, -⟩ hp
        rw [List.prefix_append_right_inj] at hp
        exact hmem ((List.cons_prefix_cons.1 hp).1 ▸ hm)

/-- **A tree that fits is restored, and one that does not fit is not.** -/
theorem exec_fillTree (hH : H.Lawful) (reads : Loc → ℕ → ℕ) (fuel : ℕ) :
    ∀ hash p d fs, Ready H J root obj hash p d fs → ∃ r fs',
      exec K.handle (fillTree (managerAt root) H J reads fuel hash p) fs = (r, fs') ∧
        Fill K H J root obj fuel hash d fs r fs' := by
  induction fuel using Nat.strongRecOn with
  | ind fuel ih =>
  intro hash p d fs hr
  obtain ⟨hes, valid, -, -, -, -⟩ := id hr.intact
  rename_i es
  obtain ⟨b, hb, hdec⟩ := bytes_of_entriesOf hes
  have hblob := exec_getBlob_stored (K := K) hr.sound (hr.le _ _ hb)
  have hloop := exec_entries (K := K) hH reads hr hes
    fun m (hm : fuel = m + 1) => ih m (by omega)
  have hrun : exec K.handle (fillTree (managerAt root) H J reads fuel hash p) fs =
      exec K.handle (do
        es.forM ((managerAt root).restoreEntry H reads fuel
          ((managerAt root).restoreTree H J reads fuel) p)
        let names ← io (IoM.op (.readDir p))
        names.forM (cleanEntry p (es.map (·.name)))) fs := by
    rw [fillTree, Fallible.exec_bind_ok _ hblob, hdec]
    rfl
  rw [hrun]
  rcases hentries : exec K.handle (es.forM ((managerAt root).restoreEntry H reads fuel
    ((managerAt root).restoreTree H J reads fuel) p)) fs with ⟨err | u, s⟩
  · rw [hentries] at hloop
    obtain ⟨hw, hfail⟩ := hloop
    exact ⟨.error err, s, Fallible.exec_bind_error _ hentries, hw,
      fun hfits L hL henough => absurd hfits (hfail L hL henough), nofun⟩
  · rw [hentries] at hloop
    have hs : Progress K H J root obj d fs es s := hloop
    have hg := hr.toGround.later hs.within fun _ h => h
    have hread : exec K.handle (io (IoM.op (.readDir p))) s = (.ok (s.names d), s) := by
      rw [exec_io, run_op, Kernel.handle, hg.pinned.leads.readDir_eq]
      rfl
    obtain ⟨s', hclean, hc⟩ := exec_clean (K := K) hg.pinned (es.map (·.name)) (s.names d)
    refine ⟨.ok (), s', ?_, ?_, fun _ _ _ _ => rfl, fun _ => ⟨?_, ?_⟩⟩
    · rw [Fallible.exec_bind_ok _ hentries, Fallible.exec_bind_ok _ hread, hclean]
    · refine hs.within.trans (.of_away hg.sound hg.apart (fun _ h => h.1) fun v hv => ?_)
      exact hc.kept v fun m _ hm => hv ((under_concat d m).deeper hm)
    · refine (onTree_iff hes).2 fun e he n hn => ?_
      have := (hs.entry e he n hn).1
      rw [← child_viewAt] at this
      exact ⟨this.node, this.tree⟩
    · exact hs.restored hes hg.pinned.isDir hc

end SandD
