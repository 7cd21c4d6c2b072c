import SandD.Posix.World

/-!
# Operations on an entry of a directory

What the operations do on `p/n` when the path `p` leads to a directory at `r`: they are about the
place `r ++ [n]`, as long as that is not a link which they follow.

* `FS.Leads.stat`, `FS.Leads.createDir`, `FS.Leads.removeFile`, …: each operation by what is at the
  place;
* `exec_createDirAll_dir`, `exec_createDirAll_entry`: `create_dir_all` on the directory and on its
  entry;
* `FS.Pinned.mono`, `pinned_mkdirs`: paths that lead to a directory whatever becomes of its inside.
-/

namespace Posix

open IoM

variable {K : Kernel} {fs fs' : FS} {p : PathBuf} {r : Loc} {n : FileName} {nd : Node}

/-- A node is changed into one of its kind. -/
theorem FS.lookup_modify_some {v : Loc} (hv : v ≠ []) {f : Node → Node}
    (hf : ∀ nd, (f nd).isDir = nd.isDir) (hl : fs.lookup v = some nd) :
    (fs.modify v f).lookup = Function.update fs.lookup v (some (f nd)) := by
  funext u
  rw [FS.lookup_modify fs hv hf, Function.update_apply]
  split_ifs with hu
  · rw [hu, hl]
    rfl
  · rfl

/-- A node that is no directory is taken away. -/
theorem FS.lookup_remove_leaf {v : Loc} (hv : v ≠ []) (hd : fs.isDir v = false) :
    (fs.remove v).lookup = Function.update fs.lookup v none := by
  funext u
  rw [FS.lookup_remove fs hv, Function.update_apply]
  split_ifs with hp hu hu
  · rfl
  · obtain ⟨w, rfl⟩ := hp
    exact (FS.lookup_append_of_not_isDir (by simp [hd]) (by simpa using hu)).symm
  · exact absurd hu (by rintro rfl; exact hp List.prefix_rfl)
  · rfl

/-- Paths do not depend on a node that is no link, as long as it does not cease to be a
directory. -/
theorem FS.Keeps.of_update {v : Loc} {new : Node}
    (hup : fs'.lookup = Function.update fs.lookup v (some new)) (hl : fs.lookup v = some nd)
    (hd : new.isDir = nd.isDir) (hn : nd.isLink = false) (u : Loc) : FS.Keeps fs fs' u := by
  by_cases hu : u = v
  · subst hu
    refine ⟨fun hdir => ?_, fun l t hlink => ?_⟩
    · rw [FS.isDir, hl] at hdir
      rw [FS.isDir, hup, Function.update_self]
      exact hd.trans hdir
    · rw [hl] at hlink
      cases hlink
      cases hn
  · exact FS.Keeps.of_eq (by rw [hup, Function.update_of_ne hu])

namespace FS.Leads

variable (h : fs.Leads p r)
include h

theorem resolve_entry {follow : Bool} (hn : follow = false ∨ ¬ fs.isLink (r ++ [n])) :
    fs.resolve follow (p ++ [.name n]) = .ok (r ++ [n]) := h.resolve_child n hn

theorem stat_entry {follow : Bool} (hn : follow = false ∨ ¬ fs.isLink (r ++ [n])) :
    fs.stat follow (p ++ [.name n]) =
      match fs.lookup (r ++ [n]) with
      | some nd => .ok nd
      | none => .error .enoent := by
  cases hl : fs.lookup (r ++ [n])
  · simp only [FS.stat, h.resolve_entry hn, hl]
  · simp only [FS.stat, h.resolve_entry hn, hl]

theorem pathExists_entry (hn : ¬ fs.isLink (r ++ [n])) :
    fs.pathExists (p ++ [.name n]) = (fs.lookup (r ++ [n])).isSome := by
  rw [FS.pathExists, h.stat_entry (Or.inr hn)]
  cases fs.lookup (r ++ [n]) <;> rfl

theorem pathIsLink_entry : fs.pathIsLink (p ++ [.name n]) = fs.isLink (r ++ [n]) := by
  rw [FS.pathIsLink, h.stat_entry (Or.inl rfl), FS.isLink]
  cases fs.lookup (r ++ [n]) <;> rfl

theorem readDir_eq : fs.readDir p = .ok (fs.names r) := by
  obtain ⟨m, t, s, hl⟩ := FS.isDir_iff.1 h.isDir
  rw [FS.readDir, h.self]
  simp only [hl]

/-- A file or a link is removed. -/
theorem removeFile_entry (hl : fs.lookup (r ++ [n]) = some nd) (hnd : nd.isDir = false) :
    fs.removeFile (p ++ [.name n]) = .ok (fs.remove (r ++ [n])) := by
  rw [FS.removeFile, h.resolve_entry (Or.inl rfl)]
  simp only [hl, hnd]
  rfl

theorem removeFile_dir (hd : fs.isDir (r ++ [n])) :
    fs.removeFile (p ++ [.name n]) = .error .eisdir := by
  obtain ⟨m, t, s, hl⟩ := FS.isDir_iff.1 hd
  rw [FS.removeFile, h.resolve_entry (Or.inl rfl)]
  simp only [hl, Node.isDir, if_true]

theorem removeDirAll_entry (hd : fs.isDir (r ++ [n])) :
    fs.removeDirAll (p ++ [.name n]) = .ok (fs.remove (r ++ [n])) := by
  obtain ⟨m, t, s, hl⟩ := FS.isDir_iff.1 hd
  rw [FS.removeDirAll, h.resolve_entry (Or.inl rfl)]
  simp [hl, Node.isDir]

/-- A link is made where there is nothing. -/
theorem symlink_entry (t : Target) (hl : fs.lookup (r ++ [n]) = none) :
    fs.symlink K t.bytes (p ++ [.name n]) = .ok (fs.insert (r ++ [n]) (.symlink t K.now)) := by
  rw [FS.symlink, dif_neg t.nonempty, dif_neg t.noNul, h.resolve_entry (Or.inl rfl)]
  simp only [hl]

theorem symlink_exists (t : Target) (hl : (fs.lookup (r ++ [n])).isSome) :
    fs.symlink K t.bytes (p ++ [.name n]) = .error .eexist := by
  obtain ⟨nd, hl⟩ := Option.isSome_iff_exists.1 hl
  rw [FS.symlink, dif_neg t.nonempty, dif_neg t.noNul, h.resolve_entry (Or.inl rfl)]
  simp only [hl]

/-- The node at a place is changed. -/
theorem change_entry (f : Node → Node) (hl : fs.lookup (r ++ [n]) = some nd)
    (hn : nd.isLink = false) :
    fs.change (p ++ [.name n]) f = .ok (fs.modify (r ++ [n]) f) := by
  have hlink : ¬ fs.isLink (r ++ [n]) := by simp [FS.isLink, hl, hn]
  rw [FS.change, h.resolve_entry (Or.inr hlink)]
  simp [hl]

theorem lookup_insert_free (hl : fs.lookup (r ++ [n]) = none) (new : Node) :
    (fs.insert (r ++ [n]) new).lookup = Function.update fs.lookup (r ++ [n]) (some new) := by
  funext u
  rw [FS.lookup_insert h.isDir, Function.update_apply]
  split_ifs with hu hp
  · rfl
  · obtain ⟨w, rfl⟩ := hp
    exact (FS.lookup_append_of_none hl w).symm
  · rfl

/-- The contents of a file are copied to a place where there is nothing or another file. -/
theorem copy_entry {src : PathBuf} {v : Loc} {data : Bytes} {m : Mode} {t : ℤ}
    (hsrc : fs.resolve true src = .ok v) (hv : fs.lookup v = some (.file data m t))
    (hne : v ≠ r ++ [n])
    (hl : fs.lookup (r ++ [n]) = none ∨ ∃ b m t, fs.lookup (r ++ [n]) = some (.file b m t)) :
    ∃ fs', fs.copy K src (p ++ [.name n]) = .ok fs' ∧
      fs'.lookup = Function.update fs.lookup (r ++ [n]) (some (.file data m K.now)) := by
  have hlink : ¬ fs.isLink (r ++ [n]) := by
    rcases hl with hl | ⟨b, m, t, hl⟩ <;> simp [FS.isLink, hl, Node.isLink]
  have hcopy : ∀ fs', fs.put K (r ++ [n]) m data = .ok fs' →
      fs.copy K src (p ++ [.name n]) = .ok (fs'.modify (r ++ [n]) (Node.setMode m)) := by
    intro fs' hput
    rw [FS.copy, FS.copyPart, hsrc]
    simp only [hv, h.resolve_entry (Or.inr hlink), if_neg hne]
    simp only [id, hput]
  have hv₀ : r ++ [n] ≠ [] := by simp
  rcases hl with hl | ⟨b, m', t', hl⟩
  · have hup := h.lookup_insert_free hl (.file data m K.now)
    have hhere : (fs.insert (r ++ [n]) (.file data m K.now)).lookup (r ++ [n]) =
        some (.file data m K.now) := by rw [hup, Function.update_self]
    refine ⟨_, hcopy _ (by rw [FS.put, hl]), ?_⟩
    rw [FS.lookup_modify_some hv₀ (Node.isDir_setMode m) hhere, hup, Function.update_idem]
    rfl
  · have hup := FS.lookup_modify_some hv₀ (Node.isDir_overwrite data K.now) hl
    have hhere : (fs.modify (r ++ [n]) (Node.overwrite data K.now)).lookup (r ++ [n]) =
        some (.file data m' K.now) := by
      rw [hup, Function.update_self]
      rfl
    refine ⟨_, hcopy _ (by rw [FS.put, hl]), ?_⟩
    rw [FS.lookup_modify_some hv₀ (Node.isDir_setMode m) hhere, hup, Function.update_idem]
    rfl

end FS.Leads

/-! ### `create_dir_all` -/

/-- How `create_dir_all` begins. -/
theorem run_createDirAll_concat {c : Comp} :
    (createDirAll (p ++ [c])).run K fs =
      match fs.createDir K (p ++ [c]) with
      | .ok fs' => (.ok (), fs')
      | .error .enoent => (createDirAll (p ++ [c])).run K fs
      | .error e => (unlessDir (p ++ [c]) e).run K fs := by
  have hrev : createDirAll (p ++ [c]) = createDirAllRev (c :: p.reverse) := by
    rw [createDirAll, List.reverse_append]
    rfl
  have hpath : (c :: p.reverse).reverse = p ++ [c] := by simp
  rcases hc : fs.createDir K (p ++ [c]) with e | fs'
  · cases e <;> try rfl
    all_goals
      rw [hrev, IoM.run, createDirAllRev, hpath, Fallible.exec_bind, Fallible.exec_attempt]
      simp only [op, Fallible.exec_perform, Kernel.handle, hc, Kernel.commit]
  · rw [hrev, IoM.run, createDirAllRev, hpath, Fallible.exec_bind, Fallible.exec_attempt]
    simp only [op, Fallible.exec_perform, Kernel.handle, hc, Kernel.commit]
    rfl

theorem run_unlessDir (e : Errno) :
    (unlessDir p e).run K fs = (if fs.pathIsDir p then .ok () else .error e, fs) := by
  have hd : Fallible.exec K.handle (isDir p) fs = (.ok (fs.pathIsDir p), fs) := run_isDir p
  rw [IoM.run, unlessDir, Fallible.exec_bind, hd]
  cases fs.pathIsDir p <;> rfl

/-- A directory that is there is found. -/
theorem exec_createDirAll_dir (h : fs.Leads p r) :
    (createDirAll p).run K fs = (.ok (), fs) := by
  rcases List.eq_nil_or_concat p with rfl | ⟨p', c, rfl⟩
  · rfl
  · obtain ⟨v, hv, hsome⟩ := FS.walk_nofollow rfl h.self (by
      obtain ⟨m, t, s, hl⟩ := FS.isDir_iff.1 h.isDir
      simp [hl])
    obtain ⟨nd, hnd⟩ := Option.isSome_iff_exists.1 hsome
    have hc : fs.createDir K (p'.concat c) = .error .eexist := by
      rw [FS.createDir, FS.resolve, hv]
      simp only [hnd]
    rw [List.concat_eq_append] at hc h ⊢
    rw [run_createDirAll_concat, hc]
    simp only [run_unlessDir, pathIsDir_iff.2 ⟨r, h⟩, if_true]

/-- An entry: it is there already, it is made, or something else is in the way. -/
theorem exec_createDirAll_entry (h : fs.Leads p r) (hn : ¬ fs.isLink (r ++ [n])) :
    (fs.isDir (r ++ [n]) ∧ (createDirAll (p ++ [.name n])).run K fs = (.ok (), fs)) ∨
    (fs.lookup (r ++ [n]) = none ∧ (createDirAll (p ++ [.name n])).run K fs =
      (.ok (), fs.insert (r ++ [n]) K.newDir)) ∨
    ∃ nd e, fs.lookup (r ++ [n]) = some nd ∧ nd.isDir = false ∧
      (createDirAll (p ++ [.name n])).run K fs = (.error e, fs) := by
  rw [run_createDirAll_concat, FS.createDir, h.resolve_entry (Or.inl rfl)]
  rcases hl : fs.lookup (r ++ [n]) with _ | nd
  · refine Or.inr (Or.inl ⟨rfl, ?_⟩)
    simp only [hl]
  · have hdir : fs.pathIsDir (p ++ [.name n]) = nd.isDir := by
      rw [FS.pathIsDir, h.stat_entry (Or.inr hn), hl]
      rfl
    simp only [run_unlessDir, hdir, FS.isDir, hl, Option.any_some]
    cases hd : nd.isDir
    · exact Or.inr (Or.inr ⟨nd, _, rfl, hd, rfl⟩)
    · exact Or.inl ⟨rfl, rfl⟩

/-! ### Pinned paths -/

theorem FS.Keeps.trans {fs'' : FS} {v : Loc} (h : FS.Keeps fs fs' v) (h' : FS.Keeps fs' fs'' v) :
    FS.Keeps fs fs'' v :=
  ⟨fun hd => h'.1 (h.1 hd), fun l t hl => by
    obtain ⟨t', hl'⟩ := h.2 l t hl
    exact h'.2 l t' hl'⟩

/-- A path stays pinned as long as what is away from the inside of the directory is kept. -/
theorem FS.Pinned.mono (h : fs.Pinned p r)
    (hk : ∀ v, ¬ (r <+: v ∧ v ≠ r) → FS.Keeps fs fs' v) : fs'.Pinned p r :=
  fun fs'' hk' => h fs'' fun v hv => (hk v hv).trans (hk' v hv)

theorem FS.Pinned.isDir (h : fs.Pinned p r) : fs.isDir r := h.leads.isDir

/-- The path of a directory below. -/
theorem FS.Pinned.below (h : fs.Pinned p r) {q : Loc} (hq : fs.isDir (r ++ q)) :
    fs.Pinned (p ++ Loc.toPath q) (r ++ q) := by
  induction q generalizing p r with
  | nil => simpa [Loc.toPath] using h
  | cons n q ih =>
    have hd : fs.isDir (r ++ [n]) := by
      rcases eq_or_ne q [] with rfl | hne
      · exact hq
      · refine FS.isDir_of_prefix (v := r ++ n :: q) ?_ ?_ ?_
        · obtain ⟨m, t, s, hl⟩ := FS.isDir_iff.1 hq
          simp [hl]
        · exact ⟨q, by simp⟩
        · simpa using hne.symm
    have := ih (h.child hd) (by simpa using hq)
    simpa [Loc.toPath] using this

/-- `create_dir_all` pins the path of the directory that it has made. -/
theorem pinned_mkdirs {q : Loc} (h : fs.Pinned p r) (hm : Mkdirs K fs r q fs')
    (hd : fs'.isDir (r ++ q)) : fs'.Pinned (p ++ Loc.toPath q) (r ++ q) :=
  (h.mono fun v _ => hm.keeps v).below hd

end Posix
