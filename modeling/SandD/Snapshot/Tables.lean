import SandD.Snapshot.Tree
import Mathlib.Logic.Equiv.List

/-!
# Parameters given by tables

`Blake3` and `Serde` stand for code of others.  Here are functions that agree with a given table
of inputs and outputs and have the properties relied on everywhere, so that a run on concrete
inputs can be carried out.

* `tabulate`: a function with a table, and another function outside of it;
* `HashTable`, `Blake3.ofTable`, `Blake3.ofTable_lawful`;
* `JsonTable`, `Serde.ofTable`, `Serde.ofTable_lawful`;
* `sampleKernel`, `sampleRoot`: surroundings and a store root for such runs.
-/

namespace SandD

open Posix

/-! ### Tables -/

section Tabulate

variable {α β : Type} [BEq α] [LawfulBEq α] {rows : List (α × β)} {rest : α → β}

/-- The function with the table `rows`, and `rest` outside of it. -/
def tabulate (rows : List (α × β)) (rest : α → β) (a : α) : β := (rows.lookup a).getD (rest a)

theorem lookup_cons_pos (a : α) (b : β) (rows : List (α × β)) :
    ((a, b) :: rows).lookup a = some b := by
  simp

theorem lookup_cons_neg {a a' : α} (h : a ≠ a') (b : β) (rows : List (α × β)) :
    ((a', b) :: rows).lookup a = rows.lookup a := by
  rw [List.lookup_cons, beq_eq_false_iff_ne.2 h]

theorem mem_of_lookup {a : α} {b : β} (h : rows.lookup a = some b) : (a, b) ∈ rows := by
  induction rows with
  | nil => cases h
  | cons e rows ih =>
    obtain ⟨a', b'⟩ := e
    by_cases ha : a = a'
    · subst ha
      rw [lookup_cons_pos] at h
      cases h
      exact List.mem_cons_self
    · rw [lookup_cons_neg ha] at h
      exact List.mem_cons_of_mem _ (ih h)

omit [BEq α] [LawfulBEq α] in
/-- The table is found again from its values. -/
theorem lookup_swap [BEq β] [LawfulBEq β] (hrows : (rows.map Prod.snd).Nodup) {a : α} {b : β}
    (h : (a, b) ∈ rows) : (rows.map Prod.swap).lookup b = some a := by
  induction rows with
  | nil => cases h
  | cons e rows ih =>
    obtain ⟨a', b'⟩ := e
    rw [List.map_cons, List.nodup_cons] at hrows
    rw [List.map_cons, Prod.swap_prod_mk]
    rcases List.mem_cons.1 h with heq | hmem
    · cases heq
      exact lookup_cons_pos _ _ _
    · have hb : b ≠ b' := by
        rintro rfl
        exact hrows.1 (List.mem_map.2 ⟨_, hmem, rfl⟩)
      rw [lookup_cons_neg hb]
      exact ih hrows.2 hmem

/-- A value is in the table or is one of `rest`. -/
theorem tabulate_cases (rows : List (α × β)) (rest : α → β) (a : α) :
    (a, tabulate rows rest a) ∈ rows ∨ tabulate rows rest a = rest a := by
  rw [tabulate]
  rcases h : rows.lookup a with _ | b
  · exact Or.inr rfl
  · exact Or.inl (mem_of_lookup h)

theorem tabulate_injective [BEq β] [LawfulBEq β] (hrows : (rows.map Prod.snd).Nodup)
    (hrest : Function.Injective rest) (haway : ∀ e ∈ rows, ∀ a, e.2 ≠ rest a) :
    Function.Injective (tabulate rows rest) := by
  intro a a' h
  rcases tabulate_cases rows rest a with ha | ha <;>
    rcases tabulate_cases rows rest a' with ha' | ha'
  · have := lookup_swap hrows ha
    rw [h, lookup_swap hrows ha'] at this
    exact (Option.some.inj this).symm
  · exact absurd (h.trans ha') (haway _ ha a')
  · exact absurd (h.symm.trans ha) (haway _ ha' a)
  · exact hrest (ha.symm.trans (h.trans ha'))

end Tabulate

/-! ### Hashes -/

/-- A lower-case hexadecimal digit. -/
def hexChar (n : ℕ) : Char := "0123456789abcdef".toList.getD n '0'

/-- Bytes in hexadecimal. -/
def hexBytes (b : Bytes) : List Char :=
  b.flatMap fun x => [hexChar (x.toNat / 16), hexChar (x.toNat % 16)]

theorem hexChar_inj : ∀ m < 16, ∀ n < 16, hexChar m = hexChar n → m = n := by decide

theorem hexChar_lower : ∀ n < 16, isHexDigit (hexChar n) ∧ ¬ (hexChar n).isUpper := by decide

/-- A check of all letters at once, which the kernel evaluates. -/
theorem hex_of_all {rows : List (Bytes × String)}
    (h : (rows.all fun e => e.2.toList.all fun c => isHexDigit c && !c.isUpper) = true) :
    ∀ e ∈ rows, ∀ c ∈ e.2.toList, isHexDigit c ∧ ¬ c.isUpper := by
  intro e he c hc
  simpa only [Bool.and_eq_true, Bool.not_eq_true', Bool.not_eq_true] using
    List.all_eq_true.1 (List.all_eq_true.1 h e he) c hc

theorem hexBytes_injective : Function.Injective hexBytes := by
  intro a
  induction a with
  | nil =>
    intro b h
    cases b with
    | nil => rfl
    | cons y b => cases h
  | cons x a ih =>
    intro b h
    cases b with
    | nil => cases h
    | cons y b =>
      simp only [hexBytes, List.flatMap_cons, List.cons_append, List.nil_append,
        List.cons.injEq] at h
      obtain ⟨h1, h2, h3⟩ := h
      have hx := x.toNat_lt
      have hy := y.toNat_lt
      have h1 := hexChar_inj _ (by omega) _ (by omega) h1
      have h2 := hexChar_inj _ (by omega) _ (by omega) h2
      rw [ih h3, UInt8.toNat_inj.1 (show x.toNat = y.toNat by omega)]

/-- A table of hashes; those that start with `000` are kept for what is not in the table. -/
structure HashTable where
  rows : List (Bytes × String)
  distinct : (rows.map Prod.snd).Nodup
  long : ∀ e ∈ rows, 3 ≤ e.2.toList.length
  hex : ∀ e ∈ rows, ∀ c ∈ e.2.toList, isHexDigit c ∧ ¬ c.isUpper
  start : ∀ e ∈ rows, e.2.toList.take 3 ≠ ['0', '0', '0']

namespace HashTable

variable (T : HashTable)

/-- The hash of what is not in a table. -/
def other (b : Bytes) : String := String.ofList ('0' :: '0' :: '0' :: hexBytes b)

/-- The hash function with a table. -/
def hash : Bytes → String := tabulate T.rows other

theorem other_injective : Function.Injective other := by
  intro a b h
  simpa [other, hexBytes_injective.eq_iff] using congrArg String.toList h

theorem hash_injective : Function.Injective T.hash := by
  refine tabulate_injective T.distinct other_injective fun e he a h => T.start e he ?_
  simp [h, other]

end HashTable

/-- Hashing with a table, by collecting what is hashed. -/
def Blake3.ofTable (T : HashTable) : Blake3 where
  Hasher := Bytes
  new := []
  update := (· ++ ·)
  finalize := T.hash
  hash := T.hash

theorem Blake3.ofTable_lawful (T : HashTable) : (Blake3.ofTable T).Lawful where
  incremental chunks := by
    have h : ∀ (cs : List Bytes) (b : Bytes), cs.foldl (· ++ ·) b = b ++ cs.flatten := by
      intro cs
      induction cs with
      | nil => simp
      | cons c cs ih => simp [ih]
    exact congrArg T.hash ((h chunks []).trans (List.nil_append _))
  injective := T.hash_injective
  long b := by
    rcases tabulate_cases T.rows HashTable.other b with h | h
    · exact T.long _ h
    · show 3 ≤ (tabulate T.rows HashTable.other b).toList.length
      rw [h]
      simp [HashTable.other]
  hex b := by
    rcases tabulate_cases T.rows HashTable.other b with h | h
    · exact T.hex _ h
    · show ∀ c ∈ (tabulate T.rows HashTable.other b).toList, _
      rw [h]
      intro c hc
      simp only [HashTable.other, String.toList_ofList, List.mem_cons, hexBytes,
        List.mem_flatMap, List.not_mem_nil, or_false] at hc
      rcases hc with rfl | rfl | rfl | ⟨x, -, rfl | rfl⟩
      · decide
      · decide
      · decide
      · exact hexChar_lower _ (by have := x.toNat_lt; omega)
      · exact hexChar_lower _ (by omega)

/-! ### JSON -/

instance encodableString : Encodable String :=
  Encodable.ofLeftInverse (fun s => s.toList.map Char.toNat)
    (fun l => String.ofList (l.map Char.ofNat)) fun s => by
      simp [Function.comp_def, Char.ofNat_toNat]

instance encodableEntryType : Encodable EntryType :=
  Encodable.ofLeftInverse
    (fun
      | .blob => (false, false)
      | .tree => (false, true)
      | .symlink => (true, false)
      | .symlinkDir => (true, true))
    (fun
      | (false, false) => .blob
      | (false, true) => .tree
      | (true, false) => .symlink
      | (true, true) => .symlinkDir)
    fun t => by cases t <;> rfl

instance encodableWireEntry : Encodable WireEntry :=
  Encodable.ofLeftInverse (fun e => (e.name, e.mode, e.entryType, e.hash, e.size, e.modified))
    (fun (name, mode, entryType, hash, size, modified) =>
      ⟨name, mode, entryType, hash, size, modified⟩) fun _ => rfl

/-- A table of trees and snapshots with their JSON. -/
structure JsonTable where
  trees : List (List WireEntry × Bytes)
  snapshots : List (Snapshot × String)
  distinctTrees : (trees.map Prod.snd).Nodup
  distinctSnapshots : (snapshots.map Prod.snd).Nodup
  start : ∀ e ∈ trees, e.2.head? ≠ some 0

namespace JsonTable

variable (T : JsonTable)

/-- What stands for a tree that is not in a table. -/
def other (t : List WireEntry) : Bytes := 0 :: List.replicate (Encodable.encode t) 0

/-- The tree that `other` stands for. -/
def ofOther : Bytes → Option (List WireEntry)
  | 0 :: b => Encodable.decode b.length
  | _ => none

end JsonTable

/-- The functions with a table; a snapshot that is not in the table is not written. -/
def Serde.ofTable (T : JsonTable) : Serde where
  treeToVec := tabulate T.trees JsonTable.other
  treeFromSlice b := ((T.trees.map Prod.swap).lookup b).or (JsonTable.ofOther b)
  snapshotToString s := T.snapshots.lookup s
  snapshotFromStr j := (T.snapshots.map Prod.swap).lookup j

theorem Serde.ofTable_lawful (T : JsonTable) : (Serde.ofTable T).Lawful where
  tree t := by
    show ((T.trees.map Prod.swap).lookup (tabulate T.trees JsonTable.other t)).or
      (JsonTable.ofOther (tabulate T.trees JsonTable.other t)) = some t
    rcases tabulate_cases T.trees JsonTable.other t with h | h
    · rw [lookup_swap T.distinctTrees h, Option.some_or]
    · have hnone : (T.trees.map Prod.swap).lookup (JsonTable.other t) = none := by
        rcases hl : (T.trees.map Prod.swap).lookup (JsonTable.other t) with _ | t'
        · rfl
        · obtain ⟨e, he, heq⟩ := List.mem_map.1 (mem_of_lookup hl)
          have h2 : e.2 = JsonTable.other t := congrArg Prod.fst heq
          exact absurd (by rw [h2]; rfl) (T.start e he)
      rw [h, hnone, Option.none_or]
      simp [JsonTable.other, JsonTable.ofOther]
  snapshot s j h := lookup_swap T.distinctSnapshots (mem_of_lookup h)

/-! ### Samples -/

/-- Some time in 2023, with the usual file mode mask. -/
def sampleKernel : Kernel := ⟨1700000000 * nanos, 0o022, 4096⟩

/-- The store root `/s`. -/
def sampleRoot : Loc := [⟨utf8 "s", by decide⟩]

theorem validName_w : ValidName (utf8 "w") := by decide

theorem validName_f : ValidName (utf8 "f") := by decide

/-- The tree with the file `f`, which holds `a`. -/
def sampleTree : List WireEntry :=
  [⟨"f", 0o100644, .blob, "17762fddd969a453925d65717ac3eea21320b66b54342fde15128d6caf21215f", 1, 0⟩]

/-- Its JSON:
`{"entries":[{"name":"f","mode":33188,"entry_type":"blob","hash":"1776…","size":1,"modified":0}]}`
-/
def sampleTreeJson : Bytes :=
  [123, 34, 101, 110, 116, 114, 105, 101, 115, 34, 58, 91, 123, 34, 110, 97, 109, 101, 34, 58, 34,
   102, 34, 44, 34, 109, 111, 100, 101, 34, 58, 51, 51, 49, 56, 56, 44, 34, 101, 110, 116, 114,
   121, 95, 116, 121, 112, 101, 34, 58, 34, 98, 108, 111, 98, 34, 44, 34, 104, 97, 115, 104, 34,
   58, 34, 49, 55, 55, 54, 50, 102, 100, 100, 100, 57, 54, 57, 97, 52, 53, 51, 57, 50, 53, 100,
   54, 53, 55, 49, 55, 97, 99, 51, 101, 101, 97, 50, 49, 51, 50, 48, 98, 54, 54, 98, 53, 52, 51,
   52, 50, 102, 100, 101, 49, 53, 49, 50, 56, 100, 54, 99, 97, 102, 50, 49, 50, 49, 53, 102, 34,
   44, 34, 115, 105, 122, 101, 34, 58, 49, 44, 34, 109, 111, 100, 105, 102, 105, 101, 100, 34, 58,
   48, 125, 93, 125]

/-- The hashes of `a`, of `b` and of the tree. -/
def sampleHashes : HashTable where
  rows := [
    (utf8 "a", "17762fddd969a453925d65717ac3eea21320b66b54342fde15128d6caf21215f"),
    (utf8 "b", "10e5cf3d3c8a4f9f3468c8cc58eea84892a22fdadbc1acb22410190044c1d553"),
    (sampleTreeJson, "9bae7b05de3d2cf4ee7db9a10898414dc32e148c34eed551acbb34a4e8c06431")]
  distinct := by decide
  long := by decide +kernel
  hex := hex_of_all (by decide +kernel)
  start := by decide +kernel

/-- A snapshot of `/w` with this tree and one tag. -/
def sampleSnapshot (id tag : String) : Snapshot where
  id := id
  createdAt := 1700000000
  tree := "9bae7b05de3d2cf4ee7db9a10898414dc32e148c34eed551acbb34a4e8c06431"
  message := "Snapshot " ++ id
  tags := [tag]
  workspace := [.name ⟨utf8 "w", validName_w⟩]
  fileCount := 1
  totalSize := 1

/-- Its JSON. -/
def sampleSnapshotJson (id tag : String) : String :=
  "\x7b\n  \"id\": \"" ++ id ++ "\",\n  \"created_at\": 1700000000,\n  \"tree\": \"" ++
    "9bae7b05de3d2cf4ee7db9a10898414dc32e148c34eed551acbb34a4e8c06431" ++
    "\",\n  \"message\": \"Snapshot " ++ id ++ "\",\n  \"tags\": [\n    \"" ++ tag ++
    "\"\n  ],\n  \"workspace\": \"/w\",\n  \"file_count\": 1,\n  \"total_size\": 1\n\x7d"

/-- The first and the second identifier that are drawn. -/
def sampleIds : String × String :=
  ("3f2b8c1d-5e6a-4b7c-8d9e-0f1a2b3c4d5e", "7a8b9c0d-1e2f-4a3b-9c4d-5e6f7a8b9c0d")

/-- The JSON of the tree and of snapshots with the tags `v1.tmp` and `v1.0`. -/
def sampleJson : JsonTable where
  trees := [(sampleTree, sampleTreeJson)]
  snapshots := [
    (sampleSnapshot sampleIds.1 "v1.tmp", sampleSnapshotJson sampleIds.1 "v1.tmp"),
    (sampleSnapshot sampleIds.2 "v1.0", sampleSnapshotJson sampleIds.2 "v1.0")]
  distinctTrees := by decide
  distinctSnapshots := by decide +kernel
  start := by decide +kernel

/-- The JSON of the tree and of two snapshots with the tag `v1`. -/
def twinJson : JsonTable where
  trees := [(sampleTree, sampleTreeJson)]
  snapshots := [
    (sampleSnapshot sampleIds.1 "v1", sampleSnapshotJson sampleIds.1 "v1"),
    (sampleSnapshot sampleIds.2 "v1", sampleSnapshotJson sampleIds.2 "v1")]
  distinctTrees := by decide
  distinctSnapshots := by decide +kernel
  start := by decide +kernel

end SandD
