import Mathlib.Data.List.Sort
import Mathlib.Data.List.Destutter

/-!
# Sorting and dropping repetitions

A list is sorted by a relation that is total and transitive, and of neighbours with the same key
the first is kept.  Where the key tells the elements of the list apart, and elements that are
each before the other have the same key, this is a canonical form of the set of its elements.

* `sortedBy`;
* `mem_sortedBy`, `pairwise_sortedBy`, `nodup_sortedBy`: each element once, in order;
* `sortedBy_congr`: nothing but the set of elements matters;
* `sortedBy_sublist`: part of the elements, part of the form.
-/

namespace SandD

variable {α κ : Type*} {r : α → α → Prop} {key : α → κ} {l l' : List α}

/-- Sort by `r`, then drop what follows an element with the same key. -/
def sortedBy [DecidableEq κ] (r : α → α → Prop) [DecidableRel r] (key : α → κ) (l : List α) :
    List α :=
  (l.insertionSort r).destutter (key · ≠ key ·)

/-- The key tells the elements of a list apart. -/
def KeyedBy (key : α → κ) (l : List α) : Prop := ∀ a ∈ l, ∀ b ∈ l, key a = key b → a = b

theorem KeyedBy.subset (h : KeyedBy key l) (hsub : l' ⊆ l) : KeyedBy key l' :=
  fun a ha b hb => h a (hsub ha) b (hsub hb)

/-- Elements that are each before the other have the same key. -/
def Orders (r : α → α → Prop) (key : α → κ) : Prop := ∀ a b, r a b → r b a → key a = key b

/-- On a list that is sorted, repetitions are side by side. -/
theorem destutter_sorted [DecidableEq α] [DecidableEq κ] (hr : Orders r key) (hl : KeyedBy key l)
    (hs : l.Pairwise r) : l.destutter (key · ≠ key ·) = l.dedup := by
  have hkey : l.destutter (key · ≠ key ·) = l.destutter (· ≠ ·) := by
    have h : (l.destutter (key · ≠ key ·)).map (fun a => a) =
        (l.map fun a => a).destutter (· ≠ ·) :=
      List.map_destutter fun a ha b hb => not_congr ⟨hl a ha b hb, congrArg key⟩
    rwa [List.map_id', List.map_id'] at h
  -- on the elements of `l` the relation is antisymmetric
  let r' : α → α → Prop := fun a b => a ∈ l ∧ b ∈ l ∧ r a b
  have hanti : Std.Antisymm r' := ⟨fun a b hab hba =>
    hl a hab.1 b hab.2.1 (hr a b hab.2.2 hba.2.2)⟩
  have hs' : l.Pairwise r' := hs.imp_of_mem fun ha hb hab => ⟨ha, hb, hab⟩
  rw [hkey, hs'.destutter_eq_dedup]

/-- Two sorted lists without repetitions and with the same elements are the same. -/
theorem eq_of_sorted (hr : Orders r key) (hl : KeyedBy key l) (hs : l.Pairwise r)
    (hs' : l'.Pairwise r) (hn : l.Nodup) (hn' : l'.Nodup) (hmem : ∀ a, a ∈ l ↔ a ∈ l') :
    l = l' := by
  refine List.Perm.eq_of_pairwise (fun a b ha hb hab hba => ?_) hs hs'
    ((List.perm_ext_iff_of_nodup hn hn').2 hmem)
  exact hl a ha b ((hmem b).2 hb) (hr a b hab hba)

variable [DecidableEq κ] [DecidableRel r]

theorem sortedBy_sublist_sort : (sortedBy r key l).Sublist (l.insertionSort r) :=
  List.destutter_sublist _ _

variable [Std.Total r] [IsTrans α r]

theorem sortedBy_eq_dedup [DecidableEq α] (hr : Orders r key) (hl : KeyedBy key l) :
    sortedBy r key l = (l.insertionSort r).dedup :=
  destutter_sorted hr (hl.subset fun _ => (List.mem_insertionSort r).1)
    (List.pairwise_insertionSort r l)

/-- It is sorted. -/
theorem pairwise_sortedBy : (sortedBy r key l).Pairwise r :=
  (List.pairwise_insertionSort r l).sublist sortedBy_sublist_sort

/-- It has the same elements. -/
theorem mem_sortedBy (hr : Orders r key) (hl : KeyedBy key l) {a : α} :
    a ∈ sortedBy r key l ↔ a ∈ l := by
  classical
  rw [sortedBy_eq_dedup hr hl, List.mem_dedup, List.mem_insertionSort]

/-- No key is there twice. -/
theorem nodup_sortedBy (hr : Orders r key) (hl : KeyedBy key l) :
    ((sortedBy r key l).map key).Nodup := by
  classical
  rw [sortedBy_eq_dedup hr hl]
  refine (List.nodup_dedup _).map_on fun a ha b hb hab => hl a ?_ b ?_ hab
  · exact (List.mem_insertionSort r).1 (List.mem_dedup.1 ha)
  · exact (List.mem_insertionSort r).1 (List.mem_dedup.1 hb)

/-- Only the set of elements matters. -/
theorem sortedBy_congr (hr : Orders r key) (hl : KeyedBy key l) (hmem : ∀ a, a ∈ l ↔ a ∈ l') :
    sortedBy r key l = sortedBy r key l' := by
  have hl' : KeyedBy key l' := hl.subset fun a => (hmem a).2
  apply eq_of_sorted hr (hl.subset fun a => (mem_sortedBy hr hl).1) pairwise_sortedBy
    pairwise_sortedBy (nodup_sortedBy hr hl).of_map (nodup_sortedBy hr hl').of_map
  intro a
  rw [mem_sortedBy hr hl, mem_sortedBy hr hl', hmem]

/-- What is made of part of the elements is part of what is made of all. -/
theorem sortedBy_sublist (hr : Orders r key) (hl : KeyedBy key l) (hsub : l' ⊆ l) :
    (sortedBy r key l').Sublist (sortedBy r key l) := by
  classical
  have hl' := hl.subset hsub
  have heq : sortedBy r key l' = (sortedBy r key l).filter (· ∈ l') := by
    apply eq_of_sorted hr (hl'.subset fun a => (mem_sortedBy hr hl').1) pairwise_sortedBy
      (pairwise_sortedBy.filter _) (nodup_sortedBy hr hl').of_map
      ((nodup_sortedBy hr hl).of_map.filter _)
    intro a
    rw [mem_sortedBy hr hl', List.mem_filter, mem_sortedBy hr hl, decide_eq_true_iff]
    exact ⟨fun h => ⟨hsub h, h⟩, And.right⟩
  rw [heq]
  exact List.filter_sublist

end SandD
