import SandD.Snapshot.Destination
import SandD.Snapshot.Failing

/-!
# What a restore spares

A restore on a disk on which any operation may fail, into a directory that is there.

* `Swept`: the places that the clean-up clears; those of sub-directories are cleared before the
  restore has ended;
* `withstands_fillTree`: the step, over a tree;
* `restore_spares`: **whatever fails, a restore changes recorded places and places it sweeps, and
  when it fails none that are swept in the directory itself**;
* `failed_restore_keeps`: so a restore that fails deletes nothing, if no recorded sub-directory
  holds a name that is not recorded.
-/

namespace SandD

open Posix ObjectStore SnapshotManager
open Fallible (exec Ends)

variable {K : Kernel} {H : Blake3} {J : Serde} {root : Loc} {fs fs' : FS}

/-! ### Places -/

section Places

variable (J : Serde) (obj : String → Option Bytes)

/-- Places at or below a name that is not expected in a recorded directory. -/
inductive Swept : String → Loc → Prop
  | here {hash : String} {es : List TreeEntry} {n : FileName} {q : Loc}
      (hes : entriesOf J obj hash = some es) (hn : toStringLossy n.bytes ∉ es.map (·.name)) :
      Swept hash (n :: q)
  | deeper {hash : String} {es : List TreeEntry} {e : TreeEntry} {n : FileName} {q : Loc}
      (hes : entriesOf J obj hash = some es) (he : e ∈ es) (hn : n.bytes = utf8 e.name)
      (ht : e.entryType = .tree) (hq : Swept e.hash q) : Swept hash (n :: q)

/-- Such a place in one of the sub-directories. -/
def SweptBelow (hash : String) (q : Loc) : Prop :=
  ∃ es, entriesOf J obj hash = some es ∧ ∃ e ∈ es, e.entryType = .tree ∧
    ∃ n q', q = n :: q' ∧ n.bytes = utf8 e.name ∧ Swept J obj e.hash q'

/-- What a restore that has succeeded may have changed. -/
def MayChange (hash : String) (q : Loc) : Prop :=
  (∃ e, EntryAt J obj hash q e) ∨ Swept J obj hash q

/-- What a restore that has not come to the end may have changed. -/
def MayBegin (hash : String) (q : Loc) : Prop :=
  (∃ e, EntryAt J obj hash q e) ∨ SweptBelow J obj hash q

/-- What the restore of an entry may have changed. -/
def MayChangeEntry (e : TreeEntry) (q : Loc) : Prop :=
  q = [] ∨ e.entryType = .tree ∧ MayChange J obj e.hash q

end Places

/-- The places of `X`, below a directory. -/
def Below (d : Loc) (X : Loc → Prop) (v : Loc) : Prop := ∃ q, v = d ++ q ∧ X q

variable {obj : String → Option Bytes} {hash : String} {es : List TreeEntry}

theorem SweptBelow.swept {q : Loc} (h : SweptBelow J obj hash q) : Swept J obj hash q := by
  obtain ⟨es, hes, e, he, ht, n, q, rfl, hn, hq⟩ := h
  exact .deeper hes he hn ht hq

theorem MayBegin.mayChange {q : Loc} (h : MayBegin J obj hash q) : MayChange J obj hash q :=
  h.imp_right SweptBelow.swept

theorem Swept.ne_nil {q : Loc} (h : Swept J obj hash q) : q ≠ [] := by
  cases h <;> simp

theorem MayChange.ne_nil {q : Loc} (h : MayChange J obj hash q) : q ≠ [] := by
  rcases h with ⟨e, he⟩ | hq
  · exact he.ne_nil
  · exact hq.ne_nil

theorem MayChange.under {d v : Loc} (h : Below d (MayChange J obj hash) v) : Under d v := by
  obtain ⟨q, rfl, hq⟩ := h
  exact ⟨List.prefix_append d q, by simpa using hq.ne_nil⟩

theorem MayBegin.below {d v : Loc} (h : Below d (MayBegin J obj hash) v) :
    Below d (MayChange J obj hash) v := by
  obtain ⟨q, rfl, hq⟩ := h
  exact ⟨q, rfl, hq.mayChange⟩

/-- What is touched at an entry is touched in the directory. -/
theorem MayChangeEntry.mayBegin {d v : Loc} {n : FileName} {e : TreeEntry}
    (hes : entriesOf J obj hash = some es) (he : e ∈ es) (hn : n.bytes = utf8 e.name)
    (h : Below (d ++ [n]) (MayChangeEntry J obj e) v) : Below d (MayBegin J obj hash) v := by
  obtain ⟨q, rfl, hq⟩ := h
  refine ⟨n :: q, by simp, ?_⟩
  rcases hq with rfl | ⟨ht, ⟨e', hq⟩ | hq⟩
  · exact .inl ⟨e, .here hes he hn⟩
  · exact .inl ⟨e', .deeper hes he hn ht hq⟩
  · exact .inr ⟨es, hes, e, he, ht, n, q, rfl, hn, hq⟩

/-! ### Entries -/

section Tree

variable {p : PathBuf} {d : Loc} {n : FileName} {e : TreeEntry} {fuel : ℕ}

/-- What `fillTree` may have done when it has ended in one way or the other. -/
abbrev Refills (K : Kernel) (H : Blake3) (J : Serde) (root : Loc) (obj : String → Option Bytes)
    (reads : Loc → ℕ → ℕ) (fuel : ℕ) (hash : String) (p : PathBuf) (d : Loc) (fs : FS) : Prop :=
  Withstands K (· = fs) (fillTree (managerAt root) H J reads fuel hash p)
    (fun _ => Within H root (Below d (MayChange J obj hash)) fs)
    (Within H root (Below d (MayBegin J obj hash)) fs)

/-- A sub-directory. -/
theorem withstands_subtree (reads : Loc → ℕ → ℕ) (hg : Ground H root obj p d fs)
    (hn : ¬ fs.isLink (d ++ [n])) (ht : e.entryType = .tree) (hi : Intact J obj e.hash)
    (hlinks : NoLinks J obj e.hash (viewAt fs (d ++ [n])))
    (hrec : ∀ m, fuel = m + 1 → ∀ p d fs, Ready H J root obj e.hash p d fs →
      Refills K H J root obj reads m e.hash p d fs) :
    Withstands K (· = fs) ((managerAt root).restoreTree H J reads fuel e.hash (p ++ [.name n]))
      (fun _ => Within H root (Below (d ++ [n]) (MayChangeEntry J obj e)) fs)
      (Within H root (Below (d ++ [n]) (MayChangeEntry J obj e)) fs) := by
  have hself : ∀ v, v = d ++ [n] → Below (d ++ [n]) (MayChangeEntry J obj e) v := by
    rintro v rfl
    exact ⟨[], by simp, .inl rfl⟩
  cases fuel with
  | zero =>
    refine .fail ?_
    rintro s rfl
    exact .refl hg.sound
  | succ m =>
    have hmade : ∀ s, MadeAt K (d ++ [n]) fs s →
        Within H root (Below (d ++ [n]) (MayChangeEntry J obj e)) fs s := by
      rintro s (rfl | ⟨-, hup⟩)
      · exact .refl hg.sound
      · exact (Within.of_update hg.sound hg.apart hup).mono hself
    rw [restoreTree_succ]
    refine .bind (.mapError ((withstands_makeEntry hg.pinned.leads hn).conseq (fun _ h => h)
      (fun _ _ h => h) hmade)) fun _ => .start fun s hs => ?_
    obtain ⟨hs, hdir⟩ := hs
    have hw := hmade s hs
    have hview : ∀ q, q ≠ [] → viewAt s (d ++ [n]) q = viewAt fs (d ++ [n]) q := by
      intro q hq
      rcases hs with rfl | ⟨-, hup⟩
      · rfl
      · rw [viewAt, viewAt, hup, Function.update_of_ne (by simpa using hq)]
    have hg' := (hg.later hw fun v hv => by
      obtain ⟨q, rfl, -⟩ := hv
      exact (under_concat d n).deeper (List.prefix_append _ q)).child hdir
    refine (hrec m rfl _ _ s ⟨hg', hi, hlinks.congr hview⟩).conseq (fun _ h => h)
      (fun _ s' h => hw.trans (h.mono ?_)) fun s' h => hw.trans (h.mono ?_)
    · rintro v ⟨q, rfl, hq⟩
      exact ⟨q, rfl, .inr ⟨ht, hq⟩⟩
    · rintro v ⟨q, rfl, hq⟩
      exact ⟨q, rfl, .inr ⟨ht, hq.mayChange⟩⟩

/-- One entry. -/
theorem withstands_restoreEntry (hH : H.Lawful) (reads : Loc → ℕ → ℕ) (hi : Intact J obj hash)
    (hes : entriesOf J obj hash = some es) (he : e ∈ es) (hname : n.bytes = utf8 e.name)
    (hg : Ground H root obj p d fs) (hfree : EntryFree J obj e (viewAt fs (d ++ [n])))
    (hrec : ∀ m, fuel = m + 1 → ∀ hash p d fs, Ready H J root obj hash p d fs →
      Refills K H J root obj reads m hash p d fs) :
    Withstands K (· = fs) ((managerAt root).restoreEntry H reads fuel
        ((managerAt root).restoreTree H J reads fuel) p e)
      (fun _ => Within H root (Below (d ++ [n]) (MayChangeEntry J obj e)) fs)
      (Within H root (Below (d ++ [n]) (MayChangeEntry J obj e)) fs) := by
  have hjoin : p.join (utf8 e.name) = p ++ [.name n] := hname ▸ p.join_of_valid n.valid
  have hself : ∀ s, Within H root (· = d ++ [n]) fs s →
      Within H root (Below (d ++ [n]) (MayChangeEntry J obj e)) fs s := by
    refine fun s h => h.mono ?_
    rintro v rfl
    exact ⟨[], by simp, .inl rfl⟩
  have hlink : e.entryType.isLink = false → ¬ fs.isLink (d ++ [n]) := by
    intro hty hl
    obtain ⟨l, t, hl⟩ := FS.isLink_iff.1 hl
    cases hfree.node hty (.symlink l t) (by rw [viewAt, List.append_nil, hl])
  obtain ⟨hes', -, -, -, -, tree⟩ := hi
  cases hes.symm.trans hes'
  rw [restoreEntry_of_join hjoin]
  cases ht : e.entryType
  · exact (withstands_restoreBlob hH hg.sound hg.pinned hg.apart (hlink (by rw [ht]; rfl)) e reads
      fuel).conseq (fun _ h => h) (fun _ => hself) hself
  · exact withstands_subtree reads hg (hlink (by rw [ht]; rfl)) ht (tree e he ht) (hfree.tree ht)
      fun m hm => hrec m hm e.hash
  all_goals
    exact (withstands_restoreSymlink hg.sound hg.pinned hg.apart e).conseq (fun _ h => h)
      (fun _ => hself) hself

/-- The loop over the entries, from one of them on. -/
theorem withstands_entries (hH : H.Lawful) (reads : Loc → ℕ → ℕ) (hi : Intact J obj hash)
    (hes : entriesOf J obj hash = some es)
    (hrec : ∀ m, fuel = m + 1 → ∀ hash p d fs, Ready H J root obj hash p d fs →
      Refills K H J root obj reads m hash p d fs) {l : List TreeEntry} (hl : ∀ e ∈ l, e ∈ es)
    (hdist : (l.map (·.name)).Nodup) (hg : Ground H root obj p d fs)
    (hfree : ∀ e ∈ l, ∀ n : FileName, n.bytes = utf8 e.name →
      EntryFree J obj e (viewAt fs (d ++ [n]))) :
    Withstands K (· = fs) (l.forM ((managerAt root).restoreEntry H reads fuel
        ((managerAt root).restoreTree H J reads fuel) p))
      (fun _ => Within H root (Below d (MayBegin J obj hash)) fs)
      (Within H root (Below d (MayBegin J obj hash)) fs) := by
  induction l generalizing fs with
  | nil =>
    refine .pure ?_
    rintro s rfl
    exact .refl hg.sound
  | cons e l ih =>
    have he := hl e List.mem_cons_self
    have hvalid : ValidName (utf8 e.name) := by
      obtain ⟨hes', valid, -⟩ := hi
      cases hes.symm.trans hes'
      exact valid e he
    have hbegin : ∀ v, Below (d ++ [⟨utf8 e.name, hvalid⟩]) (MayChangeEntry J obj e) v →
        Below d (MayBegin J obj hash) v := fun v => MayChangeEntry.mayBegin hes he rfl
    refine .bind ((withstands_restoreEntry hH reads hi hes he rfl hg
      (hfree e List.mem_cons_self ⟨_, hvalid⟩ rfl) hrec).conseq (fun _ h => h) (fun _ _ h => h)
        fun s h => h.mono hbegin) fun _ => .start fun s hw => ?_
    -- the other entries are as they were
    have hother : ∀ e' ∈ l, ∀ n : FileName, n.bytes = utf8 e'.name →
        viewAt s (d ++ [n]) = viewAt fs (d ++ [n]) := by
      intro e' he' n hn
      have hne : n ≠ ⟨utf8 e.name, hvalid⟩ := by
        rintro rfl
        have heq := utf8_injective hn
        rw [List.map_cons, List.nodup_cons] at hdist
        exact hdist.1 (heq ▸ List.mem_map_of_mem he')
      have hin : Within H root (d ++ [⟨utf8 e.name, hvalid⟩] <+: ·) fs s := by
        refine hw.mono ?_
        rintro v ⟨q, rfl, -⟩
        exact List.prefix_append _ q
      exact viewAt_away hg.apart hne hin
    have hg' := hg.later hw fun v hv => MayChange.under (MayBegin.below (hbegin v hv))
    refine (ih (fun e' he' => hl e' (List.mem_cons_of_mem e he'))
      (List.nodup_cons.1 hdist).2 hg' fun e' he' n hn => ?_).conseq (fun _ h => h)
        (fun _ s' h => (hw.mono hbegin).trans h) fun s' h => (hw.mono hbegin).trans h
    rw [hother e' he' n hn]
    exact hfree e' (List.mem_cons_of_mem e he') n hn

/-- The loop over the names. -/
theorem withstands_clean (hg : Ground H root obj p d fs) (expected : List String)
    (names : List FileName) :
    Withstands K (· = fs) (names.forM (cleanEntry p expected))
      (fun _ => Within H root (Below d fun q => ∃ n q', q = n :: q' ∧
        toStringLossy n.bytes ∉ expected) fs) (fun _ => False) := by
  induction names generalizing fs with
  | nil =>
    refine .pure ?_
    rintro s rfl
    exact .refl hg.sound
  | cons n names ih =>
    refine .bind (withstands_cleanEntry hg.sound hg.pinned hg.apart expected) fun _ =>
      .start fun s hw => ?_
    have hmono : ∀ v, toStringLossy n.bytes ∉ expected ∧ d ++ [n] <+: v →
        Below d (fun q => ∃ n q', q = n :: q' ∧ toStringLossy n.bytes ∉ expected) v := by
      rintro v ⟨hn, w, rfl⟩
      exact ⟨n :: w, by simp, n, w, rfl, hn⟩
    refine (ih (hg.later hw fun v hv => (under_concat d n).deeper hv.2)).conseq (fun _ h => h)
      (fun _ s' h => (hw.mono hmono).trans h) fun _ h => h

/-- **A tree, whatever fails.** -/
theorem withstands_fillTree (hH : H.Lawful) (reads : Loc → ℕ → ℕ) (fuel : ℕ) :
    ∀ hash p d fs, Ready H J root obj hash p d fs →
      Refills K H J root obj reads fuel hash p d fs := by
  induction fuel using Nat.strongRecOn with
  | ind fuel ih =>
  intro hash p d fs hr
  obtain ⟨hes, valid, distinct, -, -, -⟩ := id hr.intact
  rename_i es
  obtain ⟨b, hb, hdec⟩ := bytes_of_entriesOf hes
  have hnothing : ∀ s, s = fs → Within H root (Below d (MayBegin J obj hash)) fs s := by
    rintro s rfl
    exact .refl hr.sound
  refine .bind ((withstands_getBlob hr.sound (hr.le _ _ hb)).conseq (fun _ h => h)
    (fun _ _ h => h) hnothing) fun c => .start fun s hs => ?_
  obtain ⟨rfl, rfl⟩ := hs
  rw [hdec, Fallible.ofExcept_ok_bind]
  have hfree : ∀ e ∈ es, ∀ n : FileName, n.bytes = utf8 e.name →
      EntryFree J obj e (viewAt s (d ++ [n])) := by
    intro e he n hn
    obtain ⟨hnode, htree⟩ := (onTree_iff hes).1 hr.noLinks e he n hn
    rw [child_viewAt] at htree
    refine ⟨fun hty nd hnd => hnode hty nd ?_, htree⟩
    rw [← hnd, ← child_viewAt]
    rfl
  refine .bind (withstands_entries hH reads hr.intact hes (fun m hm => ih m (by omega))
    (fun _ h => h) distinct hr.toGround hfree) fun _ => ?_
  refine .bind (Q := fun _ => Within H root (Below d (MayBegin J obj hash)) s)
    (.mapError (.looks (issues_op (o := .readDir p) trivial))) fun names => .start fun s' hw => ?_
  have hg := hr.toGround.later hw fun v hv => MayChange.under (MayBegin.below hv)
  refine (withstands_clean hg _ names).conseq (fun _ h => h) (fun _ s'' h => ?_) fun _ h => h.elim
  refine (hw.mono fun v => MayBegin.below).trans (h.mono ?_)
  rintro v ⟨q, rfl, n, q', rfl, hn⟩
  exact ⟨_, rfl, .inr (.here hes hn)⟩

end Tree

end SandD
