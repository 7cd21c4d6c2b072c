import SandD.Snapshot.Manager
import SandD.Snapshot.ObjectMap

/-!
# What a snapshot records

A snapshot names the hash of a tree object, which lists the entries of a directory; those of
sub-directories name further trees.

* `stored`: what is stored under a hash;
* `entriesOf`, `EntryAt`: the entries of a tree, and those on all paths below it;
* `Intact`: a hash from which a whole tree can be read, as `createSnapshot` leaves it;
* `View`, `OnTree`: what a directory looks like from inside, and what holds of it on all recorded
  paths;
* `HoldsTree`: **a directory holds exactly a recorded tree**.
-/

namespace SandD

open Posix

/-! ### Objects by their hashes -/

instance (priority := high) decidableHex (hash : String) :
    Decidable (∀ c ∈ hash.toList, isHexDigit c = true) := List.decidableBAll _ _

/-- What is stored under a hash. -/
def stored (root : Loc) (fs : FS) (hash : String) : Option Bytes :=
  if h : 3 ≤ hash.toList.length ∧ ∀ c ∈ hash.toList, isHexDigit c = true then
    objectAt root fs ⟨hash, h.1, h.2⟩
  else none

theorem stored_key (root : Loc) (fs : FS) (k : Key) :
    stored root fs k.text = objectAt root fs k := by
  rw [stored, dif_pos ⟨k.long, k.hex⟩]

/-- What is stored is stored under a key. -/
theorem stored_eq_some {root : Loc} {fs : FS} {hash : String} {b : Bytes} :
    stored root fs hash = some b ↔ ∃ k : Key, k.text = hash ∧ objectAt root fs k = some b := by
  constructor
  · intro h
    rw [stored] at h
    split at h
    next hk => exact ⟨_, rfl, h⟩
    next => cases h
  · rintro ⟨k, rfl, h⟩
    rw [stored_key, h]

theorem stored_keeping {root : Loc} {fs fs' : FS} (hk : Keeping root fs fs') {hash : String}
    {b : Bytes} (h : stored root fs hash = some b) : stored root fs' hash = some b := by
  obtain ⟨k, rfl, hb⟩ := stored_eq_some.1 h
  exact stored_eq_some.2 ⟨k, rfl, hk k b hb⟩

/-! ### Entries -/

/-- Links, to whatever. -/
def EntryType.isLink : EntryType → Bool
  | .symlink | .symlinkDir => true
  | _ => false

section

variable (J : Serde) (obj : String → Option Bytes)

/-- The entries of the tree with a hash. -/
def entriesOf (hash : String) : Option (List TreeEntry) :=
  (obj hash).bind fun b => (J.decodeTree b).toOption

/-- `e` is recorded on the path `q` below the tree with a hash. -/
inductive EntryAt : String → Loc → TreeEntry → Prop
  | here {hash : String} {es : List TreeEntry} {e : TreeEntry} {n : FileName}
      (hes : entriesOf J obj hash = some es) (he : e ∈ es) (hn : n.bytes = utf8 e.name) :
      EntryAt hash [n] e
  | deeper {hash : String} {es : List TreeEntry} {e e' : TreeEntry} {n : FileName} {q : Loc}
      (hes : entriesOf J obj hash = some es) (he : e ∈ es) (hn : n.bytes = utf8 e.name)
      (ht : e.entryType = .tree) (hq : EntryAt e.hash q e') : EntryAt hash (n :: q) e'

/-- A whole tree can be read from a hash: its objects are there, its names are those of files and
no two of them in a directory are the same, and sizes are right. -/
inductive Intact : String → Prop
  | mk {hash : String} {es : List TreeEntry} (hes : entriesOf J obj hash = some es)
      (valid : ∀ e ∈ es, ValidName (utf8 e.name)) (distinct : (es.map (·.name)).Nodup)
      (blob : ∀ e ∈ es, e.entryType = .blob → ∃ data, obj e.hash = some data ∧
        data.length = e.size)
      (link : ∀ e ∈ es, e.entryType.isLink = true → ∃ t : Target, obj e.hash = some t.bytes ∧
        (fromUtf8 t.bytes).isSome)
      (tree : ∀ e ∈ es, e.entryType = .tree → Intact e.hash) : Intact hash

/-- What is found from a directory downwards. -/
abbrev View := Loc → Option Node

/-- A sub-directory of a directory. -/
def View.child (f : View) (n : FileName) : View := fun q => f (n :: q)

/-- On each recorded path `X` holds of the entry and of what is there. -/
def OnTree (X : TreeEntry → Option Node → Prop) (hash : String) (f : View) : Prop :=
  ∀ q e, EntryAt J obj hash q e → X e (f q)

end

variable {J : Serde} {obj : String → Option Bytes} {hash : String} {es : List TreeEntry}
  {f g : View} {X Y : TreeEntry → Option Node → Prop}

theorem EntryAt.ne_nil {q : Loc} {e : TreeEntry} (h : EntryAt J obj hash q e) : q ≠ [] := by
  cases h <;> simp

/-- How an entry is recorded: in the tree itself, or below one of its sub-trees. -/
theorem entryAt_cons (hes : entriesOf J obj hash = some es) {n : FileName} {q : Loc}
    {e' : TreeEntry} : EntryAt J obj hash (n :: q) e' ↔
      ∃ e ∈ es, n.bytes = utf8 e.name ∧
        (q = [] ∧ e' = e ∨ e.entryType = .tree ∧ EntryAt J obj e.hash q e') := by
  constructor
  · intro h
    cases h with
    | here hes' he hn =>
      cases hes.symm.trans hes'
      exact ⟨_, he, hn, Or.inl ⟨rfl, rfl⟩⟩
    | deeper hes' he hn ht hq =>
      cases hes.symm.trans hes'
      exact ⟨_, he, hn, Or.inr ⟨ht, hq⟩⟩
  · rintro ⟨e, he, hn, ⟨rfl, rfl⟩ | ⟨ht, hq⟩⟩
    · exact .here hes he hn
    · exact .deeper hes he hn ht hq

/-- What holds on a tree, one directory at a time. -/
theorem onTree_iff (hes : entriesOf J obj hash = some es) : OnTree J obj X hash f ↔
    ∀ e ∈ es, ∀ n : FileName, n.bytes = utf8 e.name → X e (f [n]) ∧
      (e.entryType = .tree → OnTree J obj X e.hash (f.child n)) := by
  constructor
  · intro h e he n hn
    exact ⟨h [n] e (.here hes he hn), fun ht q e' hq => h (n :: q) e' (.deeper hes he hn ht hq)⟩
  · intro h q e' hq
    cases q with
    | nil => exact absurd rfl hq.ne_nil
    | cons n q =>
      obtain ⟨e, he, hn, ⟨rfl, rfl⟩ | ⟨ht, hq⟩⟩ := (entryAt_cons hes).1 hq
      · exact (h _ he n hn).1
      · exact (h e he n hn).2 ht q e' hq

theorem OnTree.imp (h : OnTree J obj X hash f)
    (hXY : ∀ q e, EntryAt J obj hash q e → X e (f q) → Y e (g q)) : OnTree J obj Y hash g :=
  fun q e hq => hXY q e hq (h q e hq)

theorem entriesOf_eq_some {b : Bytes} (hb : obj hash = some b) :
    entriesOf J obj hash = some es ↔ J.decodeTree b = .ok es := by
  rw [entriesOf, hb, Option.bind_some]
  cases J.decodeTree b <;> simp [Except.toOption]

theorem bytes_of_entriesOf (hes : entriesOf J obj hash = some es) :
    ∃ b, obj hash = some b ∧ J.decodeTree b = .ok es := by
  obtain ⟨b, hb, -⟩ := Option.bind_eq_some_iff.1 hes
  exact ⟨b, hb, (entriesOf_eq_some hb).1 hes⟩

/-! ### A directory with a recorded tree -/

/-- A node is what an entry records: a file with the bytes, the permission bits and the time, a
directory, or a link with the target. -/
def TreeEntry.Is (obj : String → Option Bytes) (e : TreeEntry) : Node → Prop
  | .file data mode mtime => e.entryType = .blob ∧ obj e.hash = some data ∧
      mode = BitVec.ofNat 12 e.mode ∧ mtime = e.modified
  | .dir .. => e.entryType = .tree
  | .symlink t _ => e.entryType.isLink = true ∧ obj e.hash = some t.bytes
  | .special .. => False

/-- A directory holds exactly the tree with a hash. -/
structure HoldsTree (J : Serde) (obj : String → Option Bytes) (hash : String) (f : View) :
    Prop where
  each : OnTree J obj (fun e o => ∃ nd, o = some nd ∧ e.Is obj nd) hash f
  only : ∀ q, q ≠ [] → (f q).isSome → ∃ e, EntryAt J obj hash q e

/-- What is found below a place. -/
def viewAt (fs : FS) (d : Loc) : View := fun q => fs.lookup (d ++ q)

theorem child_viewAt (fs : FS) (d : Loc) (n : FileName) :
    (viewAt fs d).child n = viewAt fs (d ++ [n]) := by
  funext q
  rw [View.child, viewAt, viewAt, List.append_assoc]
  rfl

/-- Nothing is below anything but directories. -/
def Rooted (f : View) : Prop :=
  ∀ q w, q ≠ [] → w ≠ [] → (f (q ++ w)).isSome → ∃ nd, f q = some nd ∧ nd.isDir = true

theorem rooted_viewAt (fs : FS) (d : Loc) : Rooted (viewAt fs d) := by
  intro q w _ hw hsome
  have hdir : fs.isDir (d ++ q) := by
    refine FS.isDir_of_prefix (v := d ++ (q ++ w)) hsome ⟨w, by simp⟩ fun h => hw ?_
    rw [List.append_cancel_left_eq] at h
    exact List.self_eq_append_right.1 h
  obtain ⟨m, t, s, hl⟩ := FS.isDir_iff.1 hdir
  exact ⟨_, hl, rfl⟩

theorem Rooted.child (h : Rooted f) (n : FileName) : Rooted (f.child n) := fun q w _ hw hsome =>
  h (n :: q) w (by simp) hw hsome

end SandD
