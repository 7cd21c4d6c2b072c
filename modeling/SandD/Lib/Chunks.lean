import Mathlib.Data.List.Defs
import Mathlib.Data.List.Flatten

/-!
# Lists in chunks

* `Chunked n l L`: the list `l` in chunks of length `n`, of which the last may be shorter;
* `chunked_toChunks`: that is what `List.toChunks` gives.
-/

namespace SandD

variable {α : Type} {n : ℕ} {l : List α} {L : List (List α)}

/-- `L` is a list that is not empty in chunks of length `n`. -/
inductive Chunked (n : ℕ) : List α → List (List α) → Prop
  | last {l : List α} (hne : l ≠ []) (hlen : l.length ≤ n) : Chunked n l [l]
  | more {c rest : List α} {L : List (List α)} (hlen : c.length = n) (h : Chunked n rest L) :
      Chunked n (c ++ rest) (c :: L)

theorem Chunked.ne_nil (h : Chunked n l L) : l ≠ [] := by
  induction h with
  | last hne => exact hne
  | more _ _ ih => exact List.append_ne_nil_of_right_ne_nil _ ih

theorem Chunked.ne_nil_of_mem (hn : 0 < n) (h : Chunked n l L) : ∀ c ∈ L, c ≠ [] := by
  induction h with
  | last hne => simpa using hne
  | more hlen _ ih =>
    rw [List.forall_mem_cons]
    exact ⟨List.ne_nil_of_length_pos (hlen ▸ hn), ih⟩

theorem Chunked.flatten (h : Chunked n l L) : L.flatten = l := by
  induction h with
  | last => simp
  | more _ _ ih => rw [List.flatten_cons, ih]

/-- The loop of `List.toChunks`, with a chunk that has been begun. -/
theorem toChunks_go (hn : 0 < n) (xs : List α) : ∀ (acc : Array α) (done : Array (List α)),
    0 < acc.size → acc.size ≤ n →
      ∃ L, List.toChunks.go n xs acc done = done.toList ++ L ∧ Chunked n (acc.toList ++ xs) L := by
  induction xs with
  | nil =>
    intro acc done hpos hle
    refine ⟨[acc.toList], by simp [List.toChunks.go], ?_⟩
    rw [List.append_nil]
    refine .last (List.ne_nil_of_length_pos ?_) ?_
    · rwa [Array.length_toList]
    · rwa [Array.length_toList]
  | cons x xs ih =>
    intro acc done hpos hle
    rw [List.toChunks.go]
    by_cases hfull : acc.size = n
    · obtain ⟨L, hL, hchunked⟩ := ih ((Array.mkEmpty n).push x) (done.push acc.toList)
        (by simp) (by simpa using Nat.succ_le_of_lt hn)
      refine ⟨acc.toList :: L, ?_, .more (by rwa [Array.length_toList]) ?_⟩
      · rw [if_pos (by simpa using hfull), hL]
        simp
      · simpa using hchunked
    · obtain ⟨L, hL, hchunked⟩ := ih (acc.push x) done (by simp) (by simp; omega)
      refine ⟨L, ?_, ?_⟩
      · rw [if_neg (by simpa using hfull), hL]
      · simpa using hchunked

/-- **`List.toChunks` cuts a list into chunks.** -/
theorem chunked_toChunks (hn : 0 < n) (hl : l ≠ []) : Chunked n l (l.toChunks n) := by
  obtain ⟨x, xs, rfl⟩ := List.exists_cons_of_ne_nil hl
  obtain ⟨L, hL, hchunked⟩ := toChunks_go hn xs #[x] #[] (by simp)
    (by simpa using Nat.succ_le_of_lt hn)
  have heq : (x :: xs).toChunks n = List.toChunks.go n xs #[x] #[] := by
    cases n with
    | zero => exact absurd hn (Nat.lt_irrefl 0)
    | succ n => rfl
  rw [heq, hL]
  exact hchunked

theorem flatten_toChunks (hn : 0 < n) (l : List α) : (l.toChunks n).flatten = l := by
  by_cases hl : l = []
  · rw [hl]
    rfl
  · exact (chunked_toChunks hn hl).flatten

theorem ne_nil_of_mem_toChunks (hn : 0 < n) : ∀ c ∈ l.toChunks n, c ≠ [] := by
  by_cases hl : l = []
  · rw [hl]
    exact nofun
  · exact (chunked_toChunks hn hl).ne_nil_of_mem hn

/-- Some of the lists, in their order, give the same elements only if they are all of them. -/
theorem eq_of_sublist_of_flatten {L' : List (List α)} (h : L'.Sublist L) (hL : ∀ c ∈ L, c ≠ [])
    (heq : L'.flatten = L.flatten) : L' = L := by
  have hlength := congrArg List.length heq
  clear heq
  induction h with
  | slnil => rfl
  | @cons L' L c h ih =>
    have hle := (h.flatten).length_le
    have hpos := List.length_pos_iff.2 (hL c List.mem_cons_self)
    rw [List.flatten_cons, List.length_append] at hlength
    omega
  | cons_cons c h ih =>
    rw [List.flatten_cons, List.flatten_cons, List.length_append, List.length_append,
      Nat.add_left_cancel_iff] at hlength
    rw [ih (fun c' hc' => hL c' (List.mem_cons_of_mem c hc')) hlength]

end SandD
