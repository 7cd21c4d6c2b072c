import SandD.Snapshot.Recorded

/-!
# Counting files

`buildTree` counts the files and links below a directory, and adds up the sizes of the files.  It
does so in machine integers, one entry after the other.

* `Counted`, `Tally`: the paths that count, their number and the sum of their sizes;
* `Totals`: all of them in a directory, and `Totals.unique`;
* `Tally.concat`, `Tally.all`: the same, one entry at a time;
* `Adds`: what an entry adds to the variables of the loop.
-/

namespace Posix

/-- Files and links count. -/
def Node.counts : Node → Bool
  | .file .. | .symlink .. => true
  | .dir .. | .special .. => false

/-- The size that counts. -/
def Node.size : Node → ℕ
  | .file data .. => data.length
  | _ => 0

end Posix

namespace SandD

open Posix

variable {f : View} {P : Loc → Prop} {c c' z z' : ℕ} {n : FileName} {ns : List FileName} {nd : Node}

/-- There is something on a path that counts. -/
def Counted (f : View) (q : Loc) : Prop := ∃ nd, f q = some nd ∧ nd.counts = true

/-- Its size. -/
def sizeAt (f : View) (q : Loc) : ℕ := (f q).elim 0 Node.size

/-- Among the paths in `P` there are `c` that count, and their sizes come to `z`. -/
def Tally (f : View) (P : Loc → Prop) (c z : ℕ) : Prop :=
  ∃ ps : List Loc, ps.Nodup ∧ (∀ q, q ∈ ps ↔ P q ∧ Counted f q) ∧ ps.length = c ∧
    (ps.map (sizeAt f)).sum = z

/-- The same of all paths. -/
abbrev Totals (f : View) : ℕ → ℕ → Prop := Tally f fun _ => True

/-- The names `ns` are where a path begins. -/
def BeginsIn (ns : List FileName) (q : Loc) : Prop := ∃ n ∈ ns, [n] <+: q

theorem Tally.unique (h : Tally f P c z) (h' : Tally f P c' z') : c = c' ∧ z = z' := by
  obtain ⟨ps, hn, hmem, rfl, rfl⟩ := h
  obtain ⟨ps', hn', hmem', rfl, rfl⟩ := h'
  have hperm : ps.Perm ps' :=
    (List.perm_ext_iff_of_nodup hn hn').2 fun q => (hmem q).trans (hmem' q).symm
  exact ⟨hperm.length_eq, (hperm.map _).sum_eq⟩

theorem Tally.congr {P' : Loc → Prop} (h : Tally f P c z)
    (hP : ∀ q, Counted f q → (P q ↔ P' q)) : Tally f P' c z := by
  obtain ⟨ps, hn, hmem, hc, hz⟩ := h
  exact ⟨ps, hn, fun q => (hmem q).trans (and_congr_left (hP q)), hc, hz⟩

theorem Tally.nil : Tally f (BeginsIn []) 0 0 :=
  ⟨[], List.nodup_nil, fun _ => ⟨nofun, fun ⟨⟨_, hn, _⟩, _⟩ => nomatch hn⟩, rfl, rfl⟩

/-- Something with nothing below it. -/
theorem Totals.leaf (h : f [] = some nd) (hbelow : ∀ q, q ≠ [] → f q = none) :
    Totals f (if nd.counts then 1 else 0) (if nd.counts then nd.size else 0) := by
  have hroot : ∀ q, Counted f q → q = [] ∧ nd.counts = true := by
    rintro q ⟨nd', hnd, hcounts⟩
    by_cases hq : q = []
    · subst hq
      obtain rfl := Option.some_inj.1 (h.symm.trans hnd)
      exact ⟨rfl, hcounts⟩
    · rw [hbelow q hq] at hnd
      cases hnd
  cases hc : nd.counts with
  | true =>
    refine ⟨[[]], List.nodup_singleton _, fun q => ?_, rfl, ?_⟩
    · rw [List.mem_singleton]
      constructor
      · rintro rfl
        exact ⟨trivial, nd, h, hc⟩
      · exact fun hq => (hroot q hq.2).1
    · simp [sizeAt, h]
  | false =>
    refine ⟨[], List.nodup_nil, fun q => ⟨nofun, fun hq => ?_⟩, rfl, rfl⟩
    rw [(hroot q hq.2).2] at hc
    cases hc

/-- One more name. -/
theorem Tally.concat (h : Tally f (BeginsIn ns) c z) (hn : n ∉ ns)
    (hchild : Totals (f.child n) c' z') :
    Tally f (BeginsIn (ns ++ [n])) (c + c') (z + z') := by
  obtain ⟨ps, hnodup, hmem, rfl, rfl⟩ := h
  obtain ⟨ps', hnodup', hmem', rfl, rfl⟩ := hchild
  refine ⟨ps ++ ps'.map (n :: ·), ?_, fun q => ?_, by simp, ?_⟩
  · refine hnodup.append (hnodup'.map fun _ _ heq => (List.cons.inj heq).2) fun q hq hq' => ?_
    obtain ⟨m, hm, hp⟩ := ((hmem q).1 hq).1
    obtain ⟨q', -, rfl⟩ := List.mem_map.1 hq'
    obtain rfl := (List.cons_prefix_cons.1 hp).1
    exact hn hm
  · rw [List.mem_append, hmem, List.mem_map]
    constructor
    · rintro (⟨⟨m, hm, hp⟩, hcount⟩ | ⟨q', hq', rfl⟩)
      · exact ⟨⟨m, List.mem_append_left _ hm, hp⟩, hcount⟩
      · exact ⟨⟨n, by simp, by simp⟩, ((hmem' q').1 hq').2⟩
    · rintro ⟨⟨m, hm, q', rfl⟩, hcount⟩
      rcases List.mem_append.1 hm with hm | hm
      · exact .inl ⟨⟨m, hm, List.prefix_append _ _⟩, hcount⟩
      · obtain rfl := List.mem_singleton.1 hm
        exact .inr ⟨q', (hmem' q').2 ⟨trivial, hcount⟩, rfl⟩
  · rw [List.map_append, List.sum_append, List.map_map]
    rfl

/-- When all names of a directory have been gone through. -/
theorem Tally.all (h : Tally f (BeginsIn ns) c z) (hf : Rooted f)
    (hroot : ∀ nd, f [] = some nd → nd.counts = false) (hall : ∀ n, (f [n]).isSome → n ∈ ns) :
    Totals f c z := by
  refine h.congr fun q hq => iff_of_true ?_ trivial
  obtain ⟨nd, hnd, hcounts⟩ := hq
  cases q with
  | nil =>
    rw [hroot nd hnd] at hcounts
    cases hcounts
  | cons n q =>
    refine ⟨n, hall n ?_, by simp⟩
    rcases eq_or_ne q [] with rfl | hne
    · rw [hnd]
      rfl
    · obtain ⟨nd', hnd', -⟩ := hf [n] q (by simp) hne (by rw [List.singleton_append, hnd]; rfl)
      rw [hnd']
      rfl

/-! ### Machine integers -/

/-- What an entry adds to the variables of the loop. -/
def Adds (c z : ℕ) (before after : Built) : Prop :=
  ∀ a b, before.fileCount = a % 2 ^ 64 → before.totalSize = b % 2 ^ 64 →
    after.fileCount = (a + c) % 2 ^ 64 ∧ after.totalSize = (b + z) % 2 ^ 64

theorem adds_nothing (b : Built) : Adds 0 0 b b := fun _ _ ha hb => ⟨ha, hb⟩

theorem wrappingAdd_mod (a c : ℕ) : wrappingAdd (a % 2 ^ 64) (c % 2 ^ 64) = (a + c) % 2 ^ 64 := by
  rw [wrappingAdd, ← Nat.add_mod]

theorem wrappingAdd_mod_left (a c : ℕ) : wrappingAdd (a % 2 ^ 64) c = (a + c) % 2 ^ 64 := by
  rw [wrappingAdd, Nat.mod_add_mod]

end SandD
