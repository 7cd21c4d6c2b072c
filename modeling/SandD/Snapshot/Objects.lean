import SandD.Snapshot.ObjectStore
import SandD.Posix.World
import Mathlib.Data.List.TakeWhile

/-!
# Places of objects

Where the objects of a store are, and what becomes of the file system when one is put there.

* `Key`: the strings that `hashToPath` accepts, with the places `Key.loc` of the object and
  `Key.tempLoc` of its temporary file below the root of the store;
* `hashToPath_eq_ok_iff`, `hashToPath_ne_panic`: what `hashToPath` computes;
* `StoreStep`: the changes that putting an object makes, one at a time: a directory on the way,
  the temporary file, and the object in its place.
-/

namespace SandD

open Posix

/-! ### Keys -/

/-- What a hash has to be to name an object. -/
structure Key where
  text : String
  long : 3 ≤ text.toList.length
  hex : ∀ c ∈ text.toList, isHexDigit c = true
  deriving DecidableEq

@[ext] theorem Key.ext {k k' : Key} (h : k.text = k'.text) : k = k' := by
  cases k; cases k'; cases h; rfl

theorem toNat_of_isHexDigit {c : Char} (h : isHexDigit c = true) :
    48 ≤ c.toNat ∧ c.toNat ≤ 102 := by
  have key : ∀ a b : Char, a ≤ c → c ≤ b → a.toNat ≤ c.toNat ∧ c.toNat ≤ b.toNat :=
    fun a b ha hb => ⟨ha, hb⟩
  have h0 : Char.toNat '0' = 48 := rfl
  have h9 : Char.toNat '9' = 57 := rfl
  have ha : Char.toNat 'a' = 97 := rfl
  have hf : Char.toNat 'f' = 102 := rfl
  have hA : Char.toNat 'A' = 65 := rfl
  have hF : Char.toNat 'F' = 70 := rfl
  simp only [isHexDigit, Bool.or_eq_true, Bool.and_eq_true, decide_eq_true_eq] at h
  rcases h with (⟨h1, h2⟩ | ⟨h1, h2⟩) | ⟨h1, h2⟩ <;> have := key _ _ h1 h2 <;> omega

theorem utf8Size_of_isHexDigit {c : Char} (h : isHexDigit c = true) : c.utf8Size = 1 := by
  have := (toNat_of_isHexDigit h).2
  rw [Char.utf8Size_eq_one_iff, UInt32.le_iff_toNat_le]
  show c.toNat ≤ 127
  omega

theorem length_utf8_of_hex {s : String} (h : ∀ c ∈ s.toList, isHexDigit c = true) :
    (utf8 s).length = s.toList.length := by
  rw [utf8, List.length_flatMap]
  revert h
  induction s.toList with
  | nil => exact fun _ => rfl
  | cons c cs ih =>
    intro h
    have hc := utf8Size_of_isHexDigit (h c List.mem_cons_self)
    have hcs := ih fun d hd => h d (List.mem_cons_of_mem _ hd)
    simp only [List.map_cons, List.sum_cons, String.length_utf8EncodeChar, hc, List.length_cons]
      at hcs ⊢
    omega

theorem notMem_of_hex {s : String} (h : ∀ c ∈ s.toList, isHexDigit c = true) {d : Char}
    (hd : isHexDigit d = false) : d ∉ s.toList := fun hmem => by
  rw [h d hmem] at hd
  cases hd

/-- A string of hexadecimal digits names a file. -/
theorem validName_of_hex {s : String} (hne : s ≠ "")
    (h : ∀ c ∈ s.toList, isHexDigit c = true) : ValidName (utf8 s) := by
  refine validName_utf8 hne (notMem_of_hex h (by decide)) (notMem_of_hex h (by decide)) ?_ ?_
  · rintro rfl
    exact notMem_of_hex h (d := '.') (by decide) (by decide)
  · rintro rfl
    exact notMem_of_hex h (d := '.') (by decide) (by decide)

theorem dot_notMem_of_hex {s : String} (h : ∀ c ∈ s.toList, isHexDigit c = true) :
    dot ∉ utf8 s := by
  intro hmem
  obtain ⟨c, hc, hx⟩ := mem_utf8.1 hmem
  have h1 := toNat_of_mem_utf8EncodeChar hx (by decide)
  have h2 := (toNat_of_isHexDigit (h c hc)).1
  have h3 : dot.toNat = 46 := rfl
  omega

namespace Key

variable (k : Key)

/-- `&hash[..2]`. -/
def front : String := String.ofList (k.text.toList.take 2)

/-- `&hash[2..]`. -/
def back : String := String.ofList (k.text.toList.drop 2)

theorem hex_front : ∀ c ∈ k.front.toList, isHexDigit c = true := fun c hc =>
  k.hex c (List.mem_of_mem_take (by simpa [front] using hc))

theorem hex_back : ∀ c ∈ k.back.toList, isHexDigit c = true := fun c hc =>
  k.hex c (List.mem_of_mem_drop (by simpa [back] using hc))

theorem front_ne : k.front ≠ "" := fun h => by
  have := congrArg (fun s => s.toList.length) h
  have hl := k.long
  simp [front] at this
  simp [this] at hl

theorem back_ne : k.back ≠ "" := fun h => by
  have := congrArg (fun s => s.toList.length) h
  have hl := k.long
  simp only [back, String.toList_ofList, List.length_drop, String.toList_empty,
    List.length_nil] at this
  omega

/-- The directory an object is in. -/
def shard : FileName := ⟨utf8 k.front, validName_of_hex k.front_ne k.hex_front⟩

/-- The file an object is. -/
def leaf : FileName := ⟨utf8 k.back, validName_of_hex k.back_ne k.hex_back⟩

theorem validName_temp : ValidName (utf8 k.back ++ utf8 ".tmp") := by
  have hmem : ∀ {x : UInt8}, x ∉ utf8 k.back → x ∉ utf8 ".tmp" →
      x ∉ utf8 k.back ++ utf8 ".tmp" := by
    intro x h1 h2 h
    exact (List.mem_append.1 h).elim h1 h2
  have hv := validName_of_hex k.back_ne k.hex_back
  have hlen : 4 ≤ (utf8 k.back ++ utf8 ".tmp").length := by
    rw [List.length_append]
    exact Nat.le_add_left _ _
  refine ⟨fun h => ?_, hmem hv.2.1 (by decide), hmem hv.2.2.1 (by decide), fun h => ?_,
    fun h => ?_⟩ <;> rw [h] at hlen <;> simp at hlen

/-- The temporary file for an object. -/
def temp : FileName := ⟨utf8 k.back ++ utf8 ".tmp", k.validName_temp⟩

/-- `with_extension("tmp")` of the object. -/
theorem withExtension_leaf : k.leaf.withExtension (utf8 "tmp") = .name k.temp := by
  have hdot : dot ∉ k.leaf.bytes := dot_notMem_of_hex k.hex_back
  have htake : k.leaf.bytes.reverse.dropWhile (fun b => decide (b ≠ dot)) = [] := by
    refine List.dropWhile_eq_nil_iff.2 fun x hx => ?_
    have : x ≠ dot := fun h => hdot (h ▸ List.mem_reverse.1 hx)
    simpa using this
  have hstem : fileStem k.leaf.bytes = k.leaf.bytes := by
    rw [fileStem, splitExtension, htake]
    rfl
  have heq : k.leaf.bytes ++ dot :: utf8 "tmp" = k.temp.bytes := by
    show utf8 k.back ++ dot :: utf8 "tmp" = utf8 k.back ++ utf8 ".tmp"
    congr 1
  rw [FileName.withExtension, hstem, heq, Comp.ofBytes_of_valid k.temp.valid]
  rfl

theorem bytes_append : k.shard.bytes ++ k.leaf.bytes = utf8 k.text := by
  show utf8 k.front ++ utf8 k.back = utf8 k.text
  rw [← utf8_append, front, back, ← String.ofList_append, List.take_append_drop,
    String.ofList_toList]

theorem length_shard : k.shard.bytes.length = 2 := by
  show (utf8 k.front).length = 2
  rw [length_utf8_of_hex k.hex_front, front, String.toList_ofList, List.length_take]
  have := k.long
  omega

theorem dot_notMem_leaf : dot ∉ k.leaf.bytes := dot_notMem_of_hex k.hex_back

theorem dot_mem_temp : dot ∈ k.temp.bytes :=
  List.mem_append_right _ (by decide)

/-- A temporary file is never an object. -/
theorem temp_ne_leaf (k' : Key) : k.temp ≠ k'.leaf := fun h =>
  k'.dot_notMem_leaf (h ▸ k.dot_mem_temp)

end Key

/-! ### Places -/

/-- The directory of the objects. -/
def objectsDir (root : Loc) : Loc := root ++ [⟨utf8 "objects", by decide⟩]

namespace Key

variable (k : Key) (root : Loc)

/-- The place of the directory an object is in. -/
def shardLoc : Loc := objectsDir root ++ [k.shard]

/-- The place of an object. -/
def loc : Loc := objectsDir root ++ [k.shard, k.leaf]

/-- The place of the temporary file for an object. -/
def tempLoc : Loc := objectsDir root ++ [k.shard, k.temp]

theorem loc_injective {k k' : Key} {root : Loc} (h : k.loc root = k'.loc root) : k = k' := by
  have h1 := List.append_cancel_left h
  simp only [List.cons.injEq, and_true] at h1
  refine Key.ext (utf8_injective ?_)
  rw [← k.bytes_append, ← k'.bytes_append, h1.1, h1.2]

theorem tempLoc_inj {k k' : Key} {root : Loc} (h : k.tempLoc root = k'.tempLoc root) :
    k = k' := by
  have h1 := List.append_cancel_left h
  simp only [List.cons.injEq, and_true] at h1
  have h2 : k.leaf = k'.leaf :=
    FileName.ext (List.append_cancel_right (congrArg FileName.bytes h1.2))
  exact @Key.loc_injective _ _ root (by rw [Key.loc, Key.loc, h1.1, h2])

theorem tempLoc_ne_loc (k' : Key) : k.tempLoc root ≠ k'.loc root := by
  intro h
  have h1 := List.append_cancel_left h
  simp only [List.cons.injEq, and_true] at h1
  exact k.temp_ne_leaf k' h1.2

theorem loc_eq : k.loc root = k.shardLoc root ++ [k.leaf] := by simp [loc, shardLoc]

theorem tempLoc_eq : k.tempLoc root = k.shardLoc root ++ [k.temp] := by simp [tempLoc, shardLoc]

theorem objectsDir_prefix_loc : objectsDir root <+: k.loc root := List.prefix_append _ _

theorem objectsDir_prefix_tempLoc : objectsDir root <+: k.tempLoc root :=
  List.prefix_append _ _

theorem length_loc : (k.loc root).length = (objectsDir root).length + 2 := by simp [loc]

theorem length_tempLoc : (k.tempLoc root).length = (objectsDir root).length + 2 := by
  simp [tempLoc]

/-- No place on the way to the directory of an object is that of an object. -/
theorem ne_loc_of_prefix_shardLoc {k' : Key} {v : Loc} (h : v <+: k'.shardLoc root) :
    v ≠ k.loc root := by
  rintro rfl
  have := h.length_le
  rw [length_loc, shardLoc, List.length_append, List.length_singleton] at this
  omega

theorem ne_tempLoc_of_prefix_shardLoc {k' : Key} {v : Loc} (h : v <+: k'.shardLoc root) :
    v ≠ k.tempLoc root := by
  rintro rfl
  have := h.length_le
  rw [length_tempLoc, shardLoc, List.length_append, List.length_singleton] at this
  omega

end Key

/-- The store with its root at a place. -/
abbrev storeAt (root : Loc) : ObjectStore := ⟨Loc.toPath root⟩

theorem splitAtByte_two {cs : List Char} (hlen : 2 ≤ cs.length)
    (h : ∀ c ∈ cs, isHexDigit c = true) : splitAtByte 2 cs = some (cs.take 2, cs.drop 2) := by
  obtain ⟨a, b, rest, rfl⟩ : ∃ a b rest, cs = a :: b :: rest := by
    match cs, hlen with
    | a :: b :: rest, _ => exact ⟨a, b, rest, rfl⟩
  have ha := utf8Size_of_isHexDigit (h a (by simp))
  have hb := utf8Size_of_isHexDigit (h b (by simp))
  simp [splitAtByte, ha, hb]

/-- `hashToPath` of a key. -/
theorem hashToPath_key (root : Loc) (k : Key) :
    (storeAt root).hashToPath k.text = .ok (Loc.toPath (k.loc root)) := by
  have hlen : ¬ (utf8 k.text).length < 3 := by
    rw [length_utf8_of_hex k.hex]
    have := k.long
    omega
  have hall : k.text.toList.all isHexDigit = true := by
    rw [List.all_eq_true]
    exact k.hex
  have hsplit := splitAtByte_two (le_trans (by omega) k.long) k.hex
  simp only [ObjectStore.hashToPath, if_neg hlen, hall, Bool.not_true, Bool.false_eq_true,
    if_false, hsplit]
  have hobj : ValidName (utf8 "objects") := by decide
  have h1 := PathBuf.join_of_valid (Loc.toPath root) hobj
  have h2 := PathBuf.join_of_valid (Loc.toPath root ++ [.name ⟨_, hobj⟩]) k.shard.valid
  have h3 := PathBuf.join_of_valid (Loc.toPath root ++ [.name ⟨_, hobj⟩] ++ [.name k.shard])
    k.leaf.valid
  rw [h1, show String.ofList (k.text.toList.take 2) = k.front from rfl,
    show String.ofList (k.text.toList.drop 2) = k.back from rfl]
  refine congrArg Except.ok ((congrArg (PathBuf.join · (utf8 k.back)) h2).trans (h3.trans ?_))
  simp [Key.loc, objectsDir, Loc.toPath]

/-- `hashToPath` accepts the keys and nothing else. -/
theorem hashToPath_eq_ok_iff {root : Loc} {hash : String} {p : PathBuf} :
    (storeAt root).hashToPath hash = .ok p ↔
      ∃ k : Key, k.text = hash ∧ p = Loc.toPath (k.loc root) := by
  constructor
  · intro h
    by_cases hlen : (utf8 hash).length < 3
    · simp [ObjectStore.hashToPath, hlen] at h
    by_cases hall : hash.toList.all isHexDigit = true
    · have hex : ∀ c ∈ hash.toList, isHexDigit c = true := List.all_eq_true.1 hall
      rw [length_utf8_of_hex hex] at hlen
      refine ⟨⟨hash, by omega, hex⟩, rfl, ?_⟩
      rw [hashToPath_key root ⟨hash, by omega, hex⟩] at h
      cases h
      rfl
    · simp [ObjectStore.hashToPath, hlen, hall] at h
  · rintro ⟨k, rfl, rfl⟩
    exact hashToPath_key root k

/-- No string makes `hashToPath` panic. -/
theorem hashToPath_ne_panic (root : Loc) (hash : String) :
    (storeAt root).hashToPath hash ≠ .error .panic := by
  intro h
  by_cases hlen : (utf8 hash).length < 3
  · simp [ObjectStore.hashToPath, hlen] at h
  by_cases hall : hash.toList.all isHexDigit = true
  · have hex : ∀ c ∈ hash.toList, isHexDigit c = true := List.all_eq_true.1 hall
    rw [length_utf8_of_hex hex] at hlen
    rw [hashToPath_key root ⟨hash, by omega, hex⟩] at h
    cases h
  · simp [ObjectStore.hashToPath, hlen, hall] at h

/-- The key of a hash. -/
def Blake3.Lawful.key {H : Blake3} (hH : H.Lawful) (b : Bytes) : Key :=
  ⟨H.hash b, hH.long b, fun c hc => (hH.hex b c hc).1⟩

@[simp] theorem Blake3.Lawful.key_text {H : Blake3} (hH : H.Lawful) (b : Bytes) :
    (hH.key b).text = H.hash b := rfl

/-! ### The changes of a store -/

/-- One change that putting the object `k` makes, with the object whose temporary file is full
before and after it. -/
inductive StoreStep (H : Blake3) (root : Loc) (k : Key) (fs fs' : FS) :
    Option Key → Option Key → Prop
  /-- a directory on the way -/
  | mkdir (u : Loc) (nd : Node) (hu : u <+: k.shardLoc root)
      (hnone : fs.lookup u = none) (hnd : nd.isDir = true)
      (h : fs'.lookup = Function.update fs.lookup u (some nd)) : StoreStep H root k fs fs' none none
  /-- the temporary file, which may be there from before -/
  | fill (data : Bytes) (mode : Mode) (mtime : ℤ)
      (hold : fs.lookup (k.tempLoc root) = none ∨
        ∃ d m t, fs.lookup (k.tempLoc root) = some (.file d m t))
      (h : fs'.lookup =
        Function.update fs.lookup (k.tempLoc root) (some (.file data mode mtime))) :
      StoreStep H root k fs fs' none (some k)
  /-- the temporary file takes the place of the object, which was free -/
  | publish (data : Bytes) (mode : Mode) (mtime : ℤ) (hk : H.hash data = k.text)
      (htemp : fs.lookup (k.tempLoc root) = some (.file data mode mtime))
      (hnone : fs.lookup (k.loc root) = none)
      (h : fs'.lookup = Function.update (Function.update fs.lookup (k.tempLoc root) none)
        (k.loc root) (some (.file data mode mtime))) : StoreStep H root k fs fs' (some k) none

/-- The file at the place of an object: what the store holds under a key. -/
def objectAt (root : Loc) (fs : FS) (k : Key) : Option Bytes :=
  match fs.lookup (k.loc root) with
  | some (.file data _ _) => some data
  | _ => none

/-- Every object file holds bytes whose hash is its name. -/
def Content (H : Blake3) (root : Loc) (fs : FS) : Prop :=
  ∀ k data, objectAt root fs k = some data → H.hash data = k.text

namespace StoreStep

variable {H : Blake3} {root : Loc} {k : Key} {fs fs' : FS} {a b : Option Key}

theorem eq_of_lookup {f : Loc → Option Node} {d : Loc} {new : Option Node} {v : Loc}
    (h : fs'.lookup = Function.update f d new) (hne : v ≠ d) : fs'.lookup v = f v := by
  rw [h, Function.update_of_ne hne]

/-- Away from the objects nothing changes but directories on the way to them. -/
theorem away (h : StoreStep H root k fs fs' a b) {v : Loc} (hv : ¬ objectsDir root <+: v)
    (hv' : (fs.lookup v).isSome ∨ ¬ v <+: objectsDir root) : fs'.lookup v = fs.lookup v := by
  have hne : ∀ {w : Loc}, objectsDir root <+: w → v ≠ w := by
    rintro w hw rfl
    exact hv hw
  cases h with
  | mkdir u nd hu hnone hnd h =>
    refine eq_of_lookup h ?_
    rintro rfl
    rcases hv' with hv' | hv'
    · rw [hnone] at hv'
      cases hv'
    · rcases List.prefix_concat_iff.1 hu with rfl | hu
      · exact hv (List.prefix_append _ _)
      · exact hv' hu
  | fill data mode mtime hold h => exact eq_of_lookup h (hne (k.objectsDir_prefix_tempLoc root))
  | publish data mode mtime hk htemp hnone h =>
    rw [eq_of_lookup h (hne (k.objectsDir_prefix_loc root)),
      Function.update_of_ne (hne (k.objectsDir_prefix_tempLoc root))]

theorem frame (h : StoreStep H root k fs fs' a b) (hroot : fs.isDir root) {v : Loc}
    (hv : ¬ objectsDir root <+: v) : fs'.lookup v = fs.lookup v := by
  refine h.away hv ?_
  by_cases hpre : v <+: objectsDir root
  · refine Or.inl ?_
    rcases List.prefix_concat_iff.1 hpre with rfl | hpre
    · exact absurd List.prefix_rfl hv
    · obtain ⟨m, t, s, hl⟩ := FS.isDir_iff.1 hroot
      by_cases heq : v = root
      · rw [heq, hl]
        rfl
      · obtain ⟨m', t', s', hl'⟩ := FS.isDir_iff.1
          (FS.isDir_of_prefix (by rw [hl]; rfl) hpre heq)
        rw [hl']
        rfl
  · exact Or.inr hpre

/-- Nothing is touched but temporary files. -/
theorem kept (h : StoreStep H root k fs fs' a b) {v : Loc} {nd : Node} (hv : fs.lookup v = some nd)
    (ht : v ≠ k.tempLoc root ∨ ∀ d m t, nd ≠ .file d m t) :
    fs'.lookup v = some nd := by
  cases h with
  | mkdir u nd' hu hnone hnd h =>
    refine (eq_of_lookup h ?_).trans hv
    rintro rfl
    rw [hnone] at hv
    cases hv
  | fill data mode mtime hold h =>
    refine (eq_of_lookup h ?_).trans hv
    rintro rfl
    rcases ht with ht | ht
    · exact ht rfl
    · rw [hv] at hold
      rcases hold with hold | ⟨d, m, t, hold⟩
      · cases hold
      · cases hold
        exact ht _ _ _ rfl
  | publish data mode mtime hk htemp hnone h =>
    have hne : v ≠ k.loc root := by
      rintro rfl
      rw [hnone] at hv
      cases hv
    have hne' : v ≠ k.tempLoc root := by
      rintro rfl
      rcases ht with ht | ht
      · exact ht rfl
      · rw [hv] at htemp
        cases htemp
        exact ht _ _ _ rfl
    rw [eq_of_lookup h hne, Function.update_of_ne hne', hv]

/-- Nothing but directories and regular files comes up. -/
theorem new_node (h : StoreStep H root k fs fs' a b) (v : Loc) :
    fs'.lookup v = fs.lookup v ∨ fs'.lookup v = none ∨
      ∃ nd, fs'.lookup v = some nd ∧ nd.isLink = false := by
  cases h with
  | mkdir u nd hu hnone hnd h =>
    by_cases hv : v = u
    · subst hv
      refine Or.inr (Or.inr ⟨nd, by rw [h, Function.update_self], ?_⟩)
      cases nd <;> first | rfl | cases hnd
    · exact Or.inl (eq_of_lookup h hv)
  | fill data mode mtime hold h =>
    by_cases hv : v = k.tempLoc root
    · subst hv
      exact Or.inr (Or.inr ⟨_, by rw [h, Function.update_self], rfl⟩)
    · exact Or.inl (eq_of_lookup h hv)
  | publish data mode mtime hk htemp hnone h =>
    by_cases hv : v = k.loc root
    · subst hv
      exact Or.inr (Or.inr ⟨_, by rw [h, Function.update_self], rfl⟩)
    · rw [eq_of_lookup h hv]
      by_cases hv' : v = k.tempLoc root
      · subst hv'
        exact Or.inr (Or.inl (Function.update_self ..))
      · exact Or.inl (Function.update_of_ne hv' ..)

theorem isLink (h : StoreStep H root k fs fs' a b) {v : Loc} (hl : fs'.isLink v) : fs.isLink v := by
  rcases h.new_node v with h | h | ⟨nd, h, hnd⟩
  · rwa [FS.isLink, h] at hl
  · simp [FS.isLink, h] at hl
  · simp [FS.isLink, h, hnd] at hl

theorem clear (h : StoreStep H root k fs fs' a b) {d : Loc} (hc : Clear fs d) : Clear fs' d :=
  fun v hv hl => hc v hv (h.isLink hl)

/-- Directories stay, and so do links. -/
theorem keeps (h : StoreStep H root k fs fs' a b) (v : Loc) : FS.Keeps fs fs' v := by
  constructor
  · intro hd
    obtain ⟨m, t, s, hl⟩ := FS.isDir_iff.1 hd
    exact FS.isDir_of_lookup (h.kept hl (Or.inr (by simp)))
  · intro l t hl
    exact ⟨t, h.kept hl (Or.inr (by simp))⟩

/-- An object that is there stays as it is. -/
theorem objectAt_kept (h : StoreStep H root k fs fs' a b) {k' : Key} {data : Bytes}
    (hk : objectAt root fs k' = some data) : objectAt root fs' k' = some data := by
  unfold objectAt at hk ⊢
  rcases hl : fs.lookup (k'.loc root) with _ | nd
  · rw [hl] at hk
    cases hk
  · rw [hl] at hk
    rw [h.kept hl (Or.inl (k.tempLoc_ne_loc root k').symm)]
    exact hk

/-- Another object is not touched. -/
theorem lookup_other (h : StoreStep H root k fs fs' a b) {k' : Key} (hne : k' ≠ k) :
    fs'.lookup (k'.loc root) = fs.lookup (k'.loc root) := by
  cases h with
  | mkdir u nd hu hnone hnd h =>
    exact eq_of_lookup h (Key.ne_loc_of_prefix_shardLoc k' root hu).symm
  | fill data mode mtime hold h => exact eq_of_lookup h (k.tempLoc_ne_loc root k').symm
  | publish data mode mtime hk htemp hnone h =>
    rw [eq_of_lookup h fun heq => hne (Key.loc_injective heq),
      Function.update_of_ne (k.tempLoc_ne_loc root k').symm]

/-- Where there is an object, there was one, or one has been published. -/
theorem new_object (h : StoreStep H root k fs fs' a b) (hnone : fs.lookup (k.loc root) = none) :
    fs'.lookup (k.loc root) = none ∨
      ∃ data m t, H.hash data = k.text ∧ fs'.lookup (k.loc root) = some (.file data m t) := by
  cases h with
  | mkdir u nd hu _ _ h =>
    left
    rw [eq_of_lookup h (Key.ne_loc_of_prefix_shardLoc k root hu).symm, hnone]
  | fill data mode mtime hold h =>
    left
    rw [eq_of_lookup h (k.tempLoc_ne_loc root k).symm, hnone]
  | publish data mode mtime hk htemp _ h =>
    exact Or.inr ⟨data, mode, mtime, hk, by rw [h, Function.update_self]⟩

theorem lookup_loc (h : StoreStep H root k fs fs' a b) (k' : Key) :
    fs'.lookup (k'.loc root) = fs.lookup (k'.loc root) ∨
      ∃ data m t, H.hash data = k'.text ∧ fs'.lookup (k'.loc root) = some (.file data m t) := by
  by_cases hne : k' = k
  · subst hne
    rcases hl : fs.lookup (k'.loc root) with _ | nd
    · exact h.new_object hl
    · exact Or.inl (h.kept hl (Or.inl (k'.tempLoc_ne_loc root k').symm))
  · exact Or.inl (h.lookup_other hne)

/-- Objects hold what their names say. -/
theorem content (h : StoreStep H root k fs fs' a b) (hc : Content H root fs) :
    Content H root fs' := by
  intro k' data hk
  rcases h.lookup_loc k' with heq | ⟨data', m, t, hh, hl⟩
  · exact hc k' data (by rw [objectAt, ← heq]; exact hk)
  · rw [objectAt, hl] at hk
    cases hk
    exact hh

end StoreStep

end SandD
