import SandD.Posix.Order
import SandD.Snapshot.Leaf
import SandD.Snapshot.Lookup
import SandD.Snapshot.Totals

/-!
# What `createSnapshot` records

The tree object that `buildTree` stores is that of the directory it has walked: every entry but
special files is recorded, and nothing else, in the order in which the directory was listed.

* `TreeEntry.Of`, `Captures`: an entry, and a tree, of what is there;
* `InOrder`: the order of the entries;
* `walked_buildTree`: **`buildTree` captures the directory and counts its files**, in whatever
  order it is listed;
* `created`: so does `createSnapshot`, and leaves the snapshot with a whole tree.
-/

namespace Posix

/-- The lossy form of the target of a link can be the target of one. -/
theorem Target.lossy (t : Target) : ∃ t' : Target, t'.bytes = utf8 (toStringLossy t.bytes) := by
  cases hd : fromUtf8 t.bytes with
  | some s =>
    refine ⟨t, ?_⟩
    rw [toStringLossy, hd]
    exact (utf8_of_fromUtf8 hd).symm
  | none =>
    have hl : utf8 (toStringLossy t.bytes) =
        (lossyChars t.bytes.length t.bytes).flatMap String.utf8EncodeChar := by
      rw [toStringLossy, hd, utf8, String.toList_ofList]
    refine ⟨⟨utf8 (toStringLossy t.bytes), fun hnil => t.nonempty ?_, fun h0 => ?_⟩, rfl⟩
    · rw [utf8_eq_nil, toStringLossy, hd] at hnil
      have hnil : lossyChars t.bytes.length t.bytes = [] := by
        have := congrArg String.toList hnil
        simpa using this
      have hsame := utf8_lossyChars (b := t.bytes) (Nat.le_refl _) (by simp [hnil])
      rw [hnil] at hsame
      exact hsame.symm
    · rw [hl] at h0
      obtain ⟨c, hc, h0⟩ := List.mem_flatMap.1 h0
      rcases mem_lossyChars hc with rfl | hb
      · revert h0
        decide
      · exact t.noNul (hb 0 h0)

end Posix

namespace SandD

open Posix ObjectStore SnapshotManager
open Fallible

variable {K : Kernel} {H : Blake3} {J : Serde} {root : Loc} {fs fs' : FS} {p : PathBuf} {r : Loc}
  {obj obj' : String → Option Bytes} {order : Loc → List FileName} {hash : String}
  {es : List TreeEntry} {f : View}

/-! ### Trees of directories -/

/-- A time in whole seconds. -/
def wholeSeconds (t : ℤ) : ℤ := t / nanos * nanos

/-- What is recorded of a node. -/
def TreeEntry.Of (obj : String → Option Bytes) (e : TreeEntry) : Node → Prop
  | .file data mode mtime => e.entryType = .blob ∧ obj e.hash = some data ∧
      e.size = data.length ∧ e.bits = mode ∧ e.modified = wholeSeconds mtime
  | .dir mode mtime _ => e.entryType = .tree ∧ e.bits = mode ∧ e.modified = wholeSeconds mtime
  | .symlink t _ => e.entryType.isLink = true ∧ obj e.hash = some (utf8 (toStringLossy t.bytes))
  | .special .. => False

/-- A tree is that of a directory. -/
structure Captures (J : Serde) (obj : String → Option Bytes) (hash : String) (f : View) : Prop where
  each : OnTree J obj (fun e o => ∃ nd, o = some nd ∧ e.Of obj nd) hash f
  all : ∀ q nd, q ≠ [] → f q = some nd → (∀ m t, nd ≠ .special m t) →
    ∃ e, EntryAt J obj hash q e

/-- `x` is the hash of the tree for the directory on a path. -/
def TreeAt (J : Serde) (obj : String → Option Bytes) (hash : String) (q : Loc) (x : String) :
    Prop :=
  q = [] ∧ x = hash ∨ ∃ e, EntryAt J obj hash q e ∧ e.entryType = .tree ∧ x = e.hash

/-- All that is in the directory on a path, each once. -/
def Enumerates (f : View) (q : Loc) (names : List FileName) : Prop :=
  names.Nodup ∧ ∀ n, n ∈ names ↔ (f (q ++ [n])).isSome

/-- What is recorded: anything but special files. -/
def recordable : Option Node → Bool
  | some (.special ..) | none => false
  | some _ => true

/-- The names that are recorded of the directory on a path, as they come in a list. -/
def recordedNames (f : View) (q : Loc) (names : List FileName) : List FileName :=
  names.filter fun n => recordable (f (q ++ [n]))

/-- The entries of each directory below `r` are in the order in which it is listed. -/
def InOrder (J : Serde) (obj : String → Option Bytes) (order : Loc → List FileName) (r : Loc)
    (hash : String) (f : View) : Prop :=
  ∀ q x es, TreeAt J obj hash q x → entriesOf J obj x = some es →
    Enumerates f q (order (r ++ q)) → es.map (·.name) =
      (recordedNames f q (order (r ++ q))).map fun n => toStringLossy n.bytes

/-- A directory that has been stored under a hash. -/
structure Filed (J : Serde) (obj : String → Option Bytes) (order : Loc → List FileName) (r : Loc)
    (hash : String) (f : View) : Prop where
  intact : Intact J obj hash
  captures : Captures J obj hash f
  inOrder : InOrder J obj order r hash f

/-- All names are UTF-8. -/
def NamesUtf8 (f : View) : Prop := ∀ q n, (f (q ++ [n])).isSome → (fromUtf8 n.bytes).isSome

theorem NamesUtf8.child (h : NamesUtf8 f) (n : FileName) : NamesUtf8 (f.child n) :=
  fun q m hm => h (n :: q) m hm

theorem mem_entries_of_lookup {v : Loc} {nd : Node} (hl : fs.lookup v = some nd) (hv : v ≠ []) :
    (v, nd) ∈ fs.entries := by
  obtain ⟨u, n, rfl⟩ : ∃ u n, v = u ++ [n] :=
    ⟨v.dropLast, v.getLast hv, (List.dropLast_append_getLast hv).symm⟩
  rw [FS.lookup_concat] at hl
  split_ifs at hl
  obtain ⟨l₁, l₂, heq, -⟩ := List.lookup_eq_some_iff.1 hl
  rw [heq]
  exact List.mem_append_right l₁ List.mem_cons_self

theorem namesUtf8_of_entries (h : ∀ e ∈ fs.entries, ∀ n ∈ e.1.getLast?, (fromUtf8 n.bytes).isSome)
    (d : Loc) : NamesUtf8 (viewAt fs d) := by
  intro q n hsome
  obtain ⟨nd, hl⟩ := Option.isSome_iff_exists.1 hsome
  rw [viewAt, ← List.append_assoc] at hl
  exact h _ (mem_entries_of_lookup hl (by simp)) n (by simp)

/-! ### More objects -/

section Mono

variable (hle : ∀ x b, obj x = some b → obj' x = some b)
include hle

theorem entriesOf_mono (h : entriesOf J obj hash = some es) : entriesOf J obj' hash = some es := by
  obtain ⟨b, hb, hdec⟩ := bytes_of_entriesOf h
  exact (entriesOf_eq_some (hle _ _ hb)).2 hdec

theorem Intact.mono (h : Intact J obj hash) : Intact J obj' hash := by
  induction h with
  | mk hes valid distinct blob link _ ih =>
    refine .mk (entriesOf_mono hle hes) valid distinct (fun e he ht => ?_) (fun e he ht => ?_) ih
    · obtain ⟨data, hdata, hsize⟩ := blob e he ht
      exact ⟨data, hle _ _ hdata, hsize⟩
    · obtain ⟨t, ht, hutf⟩ := link e he ht
      exact ⟨t, hle _ _ ht, hutf⟩

/-- The entries of a whole tree do not depend on other objects. -/
theorem Intact.entryAt_iff (h : Intact J obj hash) {q : Loc} {e : TreeEntry} :
    EntryAt J obj' hash q e ↔ EntryAt J obj hash q e := by
  induction h generalizing q with
  | mk hes _ _ _ _ _ ih =>
    cases q with
    | nil => exact ⟨fun h => absurd rfl h.ne_nil, fun h => absurd rfl h.ne_nil⟩
    | cons n q =>
      rw [entryAt_cons hes, entryAt_cons (entriesOf_mono hle hes)]
      constructor
      · rintro ⟨e', he, hn, heq | ⟨ht, hq⟩⟩
        · exact ⟨e', he, hn, .inl heq⟩
        · exact ⟨e', he, hn, .inr ⟨ht, (ih e' he ht).1 hq⟩⟩
      · rintro ⟨e', he, hn, heq | ⟨ht, hq⟩⟩
        · exact ⟨e', he, hn, .inl heq⟩
        · exact ⟨e', he, hn, .inr ⟨ht, (ih e' he ht).2 hq⟩⟩

theorem TreeEntry.Of.mono {e : TreeEntry} {nd : Node} (h : e.Of obj nd) : e.Of obj' nd := by
  cases nd with
  | file => exact ⟨h.1, hle _ _ h.2.1, h.2.2⟩
  | dir => exact h
  | symlink => exact ⟨h.1, hle _ _ h.2⟩
  | special => exact h

theorem Captures.mono (h : Captures J obj hash f) (hi : Intact J obj hash) :
    Captures J obj' hash f where
  each q e hq := by
    obtain ⟨nd, hnd, hof⟩ := h.each q e ((hi.entryAt_iff hle).1 hq)
    exact ⟨nd, hnd, hof.mono hle⟩
  all q nd hq hnd hno := by
    obtain ⟨e, he⟩ := h.all q nd hq hnd hno
    exact ⟨e, (hi.entryAt_iff hle).2 he⟩

omit hle in
theorem Intact.treeAt (h : Intact J obj hash) {q : Loc} {x : String} (hx : TreeAt J obj hash q x) :
    Intact J obj x := by
  induction h generalizing q with
  | @mk hash es hes valid distinct blob link tree ih =>
    rcases hx with ⟨-, rfl⟩ | ⟨e, hq, ht, rfl⟩
    · exact .mk hes valid distinct blob link tree
    · cases q with
      | nil => exact absurd rfl hq.ne_nil
      | cons n q =>
        obtain ⟨e', he, -, ⟨rfl, rfl⟩ | ⟨ht', hq⟩⟩ := (entryAt_cons hes).1 hq
        · exact tree e he ht
        · exact ih e' he ht' (.inr ⟨e, hq, ht, rfl⟩)

theorem InOrder.mono {order : Loc → List FileName} (h : InOrder J obj order r hash f)
    (hi : Intact J obj hash) : InOrder J obj' order r hash f := by
  intro q x es hx hes
  have hx' : TreeAt J obj hash q x := by
    rcases hx with hnil | ⟨e, hq, ht, rfl⟩
    · exact .inl hnil
    · exact .inr ⟨e, (hi.entryAt_iff hle).1 hq, ht, rfl⟩
  obtain ⟨hes', -⟩ := hi.treeAt hx'
  cases hes.symm.trans (entriesOf_mono hle hes')
  exact h q x es hx' hes'

theorem Filed.mono {order : Loc → List FileName} (h : Filed J obj order r hash f) :
    Filed J obj' order r hash f :=
  ⟨h.intact.mono hle, h.captures.mono hle h.intact, h.inOrder.mono hle h.intact⟩

end Mono

/-! ### One entry -/

/-- What `buildTree` puts down for a name: the time is not yet in whole seconds. -/
structure Made (J : Serde) (obj : String → Option Bytes) (order : Loc → List FileName) (r : Loc)
    (n : FileName) (f : View) (e : TreeEntry) : Prop where
  name : e.name = toStringLossy n.bytes
  node : ∃ nd, f [] = some nd ∧ TreeEntry.Of obj { e with modified := wholeSeconds e.modified } nd
  tree : e.entryType = .tree → NamesUtf8 f → Filed J obj order (r ++ [n]) e.hash f
  link : e.entryType.isLink = true → ∃ t : Target, obj e.hash = some t.bytes ∧
    (fromUtf8 t.bytes).isSome

/-- What `buildTree` puts down for some names. -/
inductive Gathered (J : Serde) (obj : String → Option Bytes) (order : Loc → List FileName)
    (r : Loc) (f : View) : List FileName → List TreeEntry → Prop
  | nil : Gathered J obj order r f [] []
  | skip {n : FileName} {ns : List FileName} {es : List TreeEntry} {m : Mode} {t : ℤ}
      (hn : f [n] = some (.special m t)) (h : Gathered J obj order r f ns es) :
      Gathered J obj order r f (n :: ns) es
  | take {n : FileName} {ns : List FileName} {e : TreeEntry} {es : List TreeEntry}
      (hn : Made J obj order r n (f.child n) e) (h : Gathered J obj order r f ns es) :
      Gathered J obj order r f (n :: ns) (e :: es)

theorem Made.mono (hle : ∀ x b, obj x = some b → obj' x = some b) {n : FileName} {e : TreeEntry}
    (h : Made J obj order r n f e) : Made J obj' order r n f e where
  name := h.name
  node := by
    obtain ⟨nd, hnd, hof⟩ := h.node
    exact ⟨nd, hnd, hof.mono hle⟩
  tree ht hutf := (h.tree ht hutf).mono hle
  link ht := by
    obtain ⟨t, hobj, hutf⟩ := h.link ht
    exact ⟨t, hle _ _ hobj, hutf⟩

theorem Gathered.mono (hle : ∀ x b, obj x = some b → obj' x = some b) {ns : List FileName}
    (h : Gathered J obj order r f ns es) : Gathered J obj' order r f ns es := by
  induction h with
  | nil => exact .nil
  | skip hn _ ih => exact .skip hn ih
  | take hn _ ih => exact .take (hn.mono hle) ih

theorem Gathered.concat_skip {ns : List FileName} {n : FileName} {m : Mode} {t : ℤ}
    (h : Gathered J obj order r f ns es) (hn : f [n] = some (.special m t)) :
    Gathered J obj order r f (ns ++ [n]) es := by
  induction h with
  | nil => exact .skip hn .nil
  | skip hn' _ ih => exact .skip hn' ih
  | take hn' _ ih => exact .take hn' ih

theorem Gathered.concat_take {ns : List FileName} {n : FileName} {e : TreeEntry}
    (h : Gathered J obj order r f ns es) (hn : Made J obj order r n (f.child n) e) :
    Gathered J obj order r f (ns ++ [n]) (es ++ [e]) := by
  induction h with
  | nil => exact .take hn .nil
  | skip hn' _ ih => exact .skip hn' ih
  | take hn' _ ih => exact .take hn' ih

namespace Gathered

variable {ns : List FileName} (h : Gathered J obj order r f ns es)
include h

theorem of_mem {e : TreeEntry} (he : e ∈ es) : ∃ n ∈ ns, Made J obj order r n (f.child n) e := by
  induction h with
  | nil => cases he
  | skip _ _ ih =>
    obtain ⟨n, hn, hm⟩ := ih he
    exact ⟨n, List.mem_cons_of_mem _ hn, hm⟩
  | take hn _ ih =>
    rcases List.mem_cons.1 he with rfl | he
    · exact ⟨_, List.mem_cons_self, hn⟩
    · obtain ⟨n, hn, hm⟩ := ih he
      exact ⟨n, List.mem_cons_of_mem _ hn, hm⟩

theorem of_name {n : FileName} (hn : n ∈ ns) : (∃ m t, f [n] = some (.special m t)) ∨
    ∃ e ∈ es, Made J obj order r n (f.child n) e := by
  induction h with
  | nil => cases hn
  | skip hs _ ih =>
    rcases List.mem_cons.1 hn with rfl | hn
    · exact .inl ⟨_, _, hs⟩
    · exact ih hn
  | take hm _ ih =>
    rcases List.mem_cons.1 hn with rfl | hn
    · exact .inr ⟨_, List.mem_cons_self, hm⟩
    · rcases ih hn with hs | ⟨e, he, hm⟩
      · exact .inl hs
      · exact .inr ⟨e, List.mem_cons_of_mem _ he, hm⟩

theorem isSome {n : FileName} (hn : n ∈ ns) : (f [n]).isSome := by
  rcases h.of_name hn with ⟨m, t, hs⟩ | ⟨e, -, hm⟩
  · rw [hs]
    rfl
  · obtain ⟨nd, hnd, -⟩ := hm.node
    rw [show f [n] = some nd from hnd]
    rfl

/-- The entries are in the order of the names. -/
theorem names_eq : es.map (·.name) =
    (recordedNames f [] ns).map fun n => toStringLossy n.bytes := by
  induction h with
  | nil => rfl
  | skip hn _ ih =>
    rw [ih, recordedNames, recordedNames, List.filter_cons_of_neg]
    rw [List.nil_append, hn]
    exact Bool.false_ne_true
  | take hm _ ih =>
    obtain ⟨nd, hnd, hof⟩ := hm.node
    have hnd : f ([] ++ [_]) = some nd := hnd
    rw [List.map_cons, ih, recordedNames, recordedNames, List.filter_cons_of_pos, List.map_cons,
      hm.name]
    rw [hnd]
    cases nd <;> first | rfl | exact hof.elim

end Gathered

/-- An entry as it is read back. -/
def TreeEntry.whole (e : TreeEntry) : TreeEntry := { e with modified := wholeSeconds e.modified }

/-- What is read back of a tree. -/
theorem decode_encodeTree (hJ : J.Lawful) {b : Bytes} (h : J.encodeTree es = .ok b) :
    J.decodeTree b = .ok (es.map TreeEntry.whole) := by
  have hwire : ∀ (es : List TreeEntry) (ws : List WireEntry), es.mapM TreeEntry.toWire = some ws →
      ws.map WireEntry.toEntry = es.map TreeEntry.whole := by
    intro es
    induction es with
    | nil =>
      intro ws hws
      obtain rfl : ws = [] := by simpa using hws.symm
      rfl
    | cons e es ih =>
      intro ws hws
      rw [List.mapM_cons] at hws
      obtain ⟨w, hw, hws⟩ := Option.bind_eq_some_iff.1 hws
      obtain ⟨ws', hws', hws⟩ := Option.bind_eq_some_iff.1 hws
      cases hws
      rw [List.map_cons, List.map_cons, ih ws' hws']
      congr 1
      unfold TreeEntry.toWire at hw
      split_ifs at hw with hneg
      cases hw
      have : 0 ≤ e.modified / nanos := Int.ediv_nonneg (by omega) (by decide)
      simp [WireEntry.toEntry, TreeEntry.whole, wholeSeconds, Int.toNat_of_nonneg this]
  rw [Serde.encodeTree] at h
  split at h
  next ws hws =>
    cases h
    rw [Serde.decodeTree, hJ.tree]
    simp only [hwire es ws hws]
  next => cases h

namespace Gathered

variable {ns : List FileName} (h : Gathered J obj order r f ns es) (hutf : NamesUtf8 f)
include h hutf

/-- Names are what they are recorded as. -/
theorem bytes_eq {n : FileName} (hn : n ∈ ns) : utf8 (toStringLossy n.bytes) = n.bytes := by
  obtain ⟨s, hs⟩ := Option.isSome_iff_exists.1 (hutf [] n (h.isSome hn))
  rw [toStringLossy, hs]
  exact utf8_of_fromUtf8 hs

/-- The name that an entry was made for. -/
theorem of_entry {e : TreeEntry} (he : e ∈ es.map TreeEntry.whole) {n : FileName}
    (hn : n.bytes = utf8 e.name) :
    ∃ e₀, e = e₀.whole ∧ n ∈ ns ∧ Made J obj order r n (f.child n) e₀ := by
  obtain ⟨e₀, he₀, rfl⟩ := List.mem_map.1 he
  obtain ⟨m, hm, hmade⟩ := h.of_mem he₀
  obtain rfl : n = m := FileName.ext (hn.trans (by
    show utf8 e₀.name = m.bytes
    rw [hmade.name, h.bytes_eq hutf hm]))
  exact ⟨e₀, rfl, hm, hmade⟩

variable (hes : entriesOf J obj hash = some (es.map TreeEntry.whole))
include hes

theorem intact (hns : ns.Nodup) : Intact J obj hash := by
  have hmade : ∀ e' ∈ es.map TreeEntry.whole, ∃ e n, e' = e.whole ∧ n ∈ ns ∧
      Made J obj order r n (f.child n) e := by
    intro e' he'
    obtain ⟨e, he, rfl⟩ := List.mem_map.1 he'
    obtain ⟨n, hn, hm⟩ := h.of_mem he
    exact ⟨e, n, rfl, hn, hm⟩
  refine .mk hes (fun e' he' => ?_) ?_ (fun e' he' ht => ?_) (fun e' he' ht => ?_)
    (fun e' he' ht => ?_) <;> try obtain ⟨e, n, rfl, -, hm⟩ := hmade e' he'
  · show ValidName (utf8 e.name)
    rw [hm.name]
    exact validName_toStringLossy n.valid
  · have hnames : (es.map TreeEntry.whole).map (·.name) = es.map (·.name) := by
      rw [List.map_map]
      rfl
    rw [hnames, h.names_eq]
    refine (hns.filter _).map_on fun m hm n hn heq => FileName.ext ?_
    rw [← h.bytes_eq hutf (List.mem_of_mem_filter hm),
      ← h.bytes_eq hutf (List.mem_of_mem_filter hn), heq]
  · obtain ⟨nd, -, hof⟩ := hm.node
    cases nd with
    | file data m t => exact ⟨data, hof.2.1, hof.2.2.1.symm⟩
    | dir => cases ht.symm.trans hof.1
    | symlink =>
      have := hof.1
      rw [show e.entryType = .blob from ht] at this
      cases this
    | special => exact hof.elim
  · exact hm.link ht
  · exact (hm.tree ht (hutf.child n)).intact

/-- The tree is that of the directory. -/
theorem captures (hall : ∀ n, (f [n]).isSome → n ∈ ns) (hf : Rooted f) : Captures J obj hash f := by
  refine ⟨(onTree_iff hes).2 fun e he n hn => ?_, fun q nd hq hnd hno => ?_⟩
  · obtain ⟨e₀, rfl, -, hm⟩ := h.of_entry hutf he hn
    exact ⟨hm.node, fun ht => (hm.tree ht (hutf.child n)).captures.each⟩
  · obtain ⟨n, q, rfl⟩ := List.exists_cons_of_ne_nil hq
    have hbelow : q ≠ [] → ∃ nd', f [n] = some nd' ∧ nd'.isDir = true := fun hne =>
      hf [n] q (by simp) hne (by rw [List.singleton_append, hnd]; rfl)
    have hroot : (f [n]).isSome := by
      rcases eq_or_ne q [] with rfl | hne
      · rw [hnd]
        rfl
      · obtain ⟨nd', hnd', -⟩ := hbelow hne
        rw [hnd']
        rfl
    have hn := hall n hroot
    rcases h.of_name hn with ⟨m, t, hs⟩ | ⟨e, he, hm⟩
    · rcases eq_or_ne q [] with rfl | hne
      · rw [hs] at hnd
        exact absurd (Option.some_inj.1 hnd).symm (hno m t)
      · obtain ⟨nd', hnd', hdir⟩ := hbelow hne
        rw [hs] at hnd'
        cases hnd'
        cases hdir
    · have hname : n.bytes = utf8 e.whole.name := by
        show n.bytes = utf8 e.name
        rw [hm.name, h.bytes_eq hutf hn]
      rcases eq_or_ne q [] with rfl | hne
      · exact ⟨e.whole, .here hes (List.mem_map_of_mem he) hname⟩
      · obtain ⟨nd', hnd', hdir⟩ := hbelow hne
        obtain ⟨nd₁, hnd₁, hof⟩ := hm.node
        obtain rfl := Option.some_inj.1 (hnd₁.symm.trans hnd')
        have ht : e.entryType = .tree := by
          cases nd₁ <;> first | exact hof.1 | cases hdir
        obtain ⟨e', he'⟩ := (hm.tree ht (hutf.child n)).captures.all q nd hne hnd hno
        exact ⟨e', .deeper hes (List.mem_map_of_mem he) hname ht he'⟩

/-- The entries are in the order in which the names were listed. -/
theorem inOrder (hns : Enumerates f [] (order r) → ns = order r) :
    InOrder J obj order r hash f := by
  intro q x es' hx hes' henum
  cases q with
  | nil =>
    obtain rfl : x = hash := by
      rcases hx with ⟨-, rfl⟩ | ⟨e, hq, -⟩
      · rfl
      · exact absurd rfl hq.ne_nil
    cases hes.symm.trans hes'
    rw [List.append_nil] at henum ⊢
    rw [← hns henum, ← h.names_eq, List.map_map]
    rfl
  | cons n q =>
    rcases hx with ⟨hnil, -⟩ | ⟨e', hq, ht, rfl⟩
    · cases hnil
    · obtain ⟨e, he, hn, hbelow⟩ := (entryAt_cons hes).1 hq
      have hx : e.entryType = .tree ∧ TreeAt J obj e.hash q e'.hash := by
        rcases hbelow with ⟨rfl, rfl⟩ | ⟨ht', hq⟩
        · exact ⟨ht, .inl ⟨rfl, rfl⟩⟩
        · exact ⟨ht', .inr ⟨e', hq, ht, rfl⟩⟩
      obtain ⟨e₀, rfl, -, hm⟩ := h.of_entry hutf he hn
      rw [List.append_cons] at henum ⊢
      exact (hm.tree hx.1 (hutf.child n)).inOrder q _ _ hx.2 hes' henum

end Gathered

/-! ### Walking a directory -/

/-- A directory apart from a store in order. -/
structure Site (H : Blake3) (root : Loc) (p : PathBuf) (r : Loc) (fs : FS) : Prop where
  sound : Sound H root fs
  leads : fs.Leads p r
  apart : Apart root r

namespace Site

variable {n : FileName}

theorem later (h : Site H root p r fs) (hw : Within H root (fun _ => False) fs fs') :
    Site H root p r fs' := by
  refine ⟨hw.sound, h.leads.keeps fun v => ?_, h.apart⟩
  by_cases ho : objectsDir root <+: v
  · exact hw.store v ho
  · exact FS.Keeps.of_eq (hw.away v id ho)

theorem view (h : Site H root p r fs) (hw : Within H root (fun _ => False) fs fs') :
    viewAt fs' r = viewAt fs r :=
  funext fun q => hw.away _ id (h.apart.not_objects (List.prefix_append r q))

theorem child (h : Site H root p r fs) (hd : fs.isDir (r ++ [n])) :
    Site H root (p ++ [.name n]) (r ++ [n]) fs :=
  ⟨h.sound, h.leads.below (q := [n]) hd, h.apart.deeper (List.prefix_append r [n])⟩

end Site

theorem stored_within {inside : Loc → Prop} (hw : Within H root inside fs fs') (x : String)
    (b : Bytes) (h : stored root fs x = some b) : stored root fs' x = some b :=
  stored_keeping hw.keeping h

theorem exec_targetIsDir (path : PathBuf) (target : Bytes) :
    ∃ b, exec K.handle (targetIsDir path target) fs = (.ok b, fs) := by
  have hdir : ∀ q, exec K.handle (io (IoM.isDir q)) fs = (.ok (fs.pathIsDir q), fs) := by
    intro q
    rw [exec_io, run_isDir]
    rfl
  rw [targetIsDir]
  split_ifs
  · exact ⟨_, hdir _⟩
  · cases path.parent with
    | none => exact ⟨false, rfl⟩
    | some q => exact ⟨_, hdir _⟩

theorem exec_readLink {path : PathBuf} {t : Target} {m : ℤ}
    (h : fs.stat false path = .ok (.symlink t m)) :
    exec K.handle (io (IoM.op (.readLink path))) fs = (.ok t.bytes, fs) := by
  rw [exec_io, run_op, Kernel.handle, FS.readLink, h]
  rfl

/-! ### What lists no directory -/

theorem exec_listing_op {o : FsOp} (ho : Unlisted o) :
    exec (K.listing order) (io (IoM.op o)) fs = exec K.handle (io (IoM.op o)) fs :=
  exec_listing (issues_mapError (issues_op ho)) fs

theorem unlisted_putBlob (S : ObjectStore) (content : Bytes) :
    Issues Unlisted (S.putBlob H content) := by
  refine issues_bind (issues_ofExcept _) fun path =>
    issues_bind (issues_mapError (issues_exists nofun)) fun b => ?_
  cases b with
  | true => exact issues_pure _
  | false =>
    have hparent : Issues Unlisted (parentOf path) := by
      unfold parentOf
      cases path.parent with
      | none => exact issues_fail _
      | some q => exact issues_pure _
    exact issues_bind hparent fun q =>
      issues_bind (issues_mapError (issues_createDirAll_any (fun _ => nofun) (fun _ => nofun) q))
        fun _ => issues_bind (issues_mapError (issues_op nofun)) fun _ =>
          issues_bind (issues_mapError (issues_op nofun)) fun _ => issues_pure _

theorem unlisted_hashLoop (reads : Loc → ℕ → ℕ) (file : Loc) (fuel offset : ℕ)
    (hasher : H.Hasher) : Issues Unlisted (hashLoop H reads file fuel offset hasher) := by
  induction fuel generalizing offset hasher with
  | zero => exact issues_fail _
  | succ fuel ih =>
    refine issues_bind (issues_mapError (issues_op nofun)) fun buffer => ?_
    split_ifs
    · exact issues_pure _
    · exact ih _ _

theorem unlisted_putFile (S : ObjectStore) (reads : Loc → ℕ → ℕ) (fuel : ℕ) (path : PathBuf) :
    Issues Unlisted (S.putFile H reads fuel path) := by
  refine issues_bind (issues_mapError (issues_mapError (issues_op nofun))) fun file =>
    issues_bind (unlisted_hashLoop reads file fuel 0 H.new) fun hasher =>
      issues_bind (issues_ofExcept _) fun path' =>
        issues_bind (issues_mapError (issues_exists nofun)) fun b => ?_
  cases b with
  | true => exact issues_pure _
  | false =>
    have hparent : Issues Unlisted (parentOf path') := by
      unfold parentOf
      cases path'.parent with
      | none => exact issues_fail _
      | some q => exact issues_pure _
    exact issues_bind hparent fun q =>
      issues_bind (issues_mapError (issues_createDirAll_any (fun _ => nofun) (fun _ => nofun) q))
        fun _ => issues_bind (issues_mapError (issues_mapError (issues_op nofun))) fun _ =>
          issues_bind (issues_mapError (issues_op nofun)) fun _ => issues_pure _

theorem unlisted_targetIsDir (path : PathBuf) (target : Bytes) :
    Issues Unlisted (targetIsDir path target) := by
  unfold targetIsDir
  split_ifs
  · exact issues_mapError (issues_isDir nofun)
  · split
    · exact issues_mapError (issues_isDir nofun)
    · exact issues_pure _

/-! ### The walk -/

/-- What has become of the variables of the loop after a name. -/
structure Noted (J : Serde) (obj : String → Option Bytes) (order : Loc → List FileName) (r : Loc)
    (n : FileName) (f : View) (before after : Built) : Prop where
  entries : (∃ m t, f [] = some (.special m t) ∧ after.entries = before.entries) ∨
    ∃ e, after.entries = before.entries ++ [e] ∧ Made J obj order r n f e
  counts : ∃ c z, Totals f c z ∧ Adds c z before after

/-- What `buildTree` has come to for a directory. -/
structure Walked (H : Blake3) (J : Serde) (root : Loc) (order : Loc → List FileName) (r : Loc)
    (fs : FS) (result : String × ℕ × ℕ) (fs' : FS) : Prop where
  within : Within H root (fun _ => False) fs fs'
  filed : NamesUtf8 (viewAt fs r) → Filed J (stored root fs') order r result.1 (viewAt fs r)
  counts : ∃ c z, Totals (viewAt fs r) c z ∧ result.2.1 = c % 2 ^ 64 ∧ result.2.2 = z % 2 ^ 64

theorem viewAt_leaf {nd : Node} {v : Loc} (hl : fs.lookup v = some nd) (hd : nd.isDir = false) :
    Totals (viewAt fs v) (if nd.counts then 1 else 0) (if nd.counts then nd.size else 0) := by
  refine Totals.leaf (by rw [viewAt, List.append_nil, hl]) fun q hq => ?_
  refine FS.lookup_append_of_not_isDir ?_ hq
  rw [FS.isDir, hl]
  simpa using hd

/-- One round of the loop. -/
theorem ok_buildEntry (hH : H.Lawful) {reads : Loc → ℕ → ℕ} {fuel : ℕ} {n : FileName}
    {acc acc' : Built} (hs : Site H root p r fs) (hn : (fs.lookup (r ++ [n])).isSome)
    (hrec : ∀ result fs', fs.isDir (r ++ [n]) →
      exec (K.listing order) ((managerAt root).buildTree H J reads fuel (p ++ [.name n])) fs =
        (.ok result, fs') → Walked H J root order (r ++ [n]) fs result fs')
    (h : exec (K.listing order) ((managerAt root).buildEntry H reads fuel
      ((managerAt root).buildTree H J reads fuel) p acc n) fs = (.ok acc', fs')) :
    Within H root (fun _ => False) fs fs' ∧
      Noted J (stored root fs') order r n (viewAt fs (r ++ [n])) acc acc' := by
  obtain ⟨nd, hl⟩ := Option.isSome_iff_exists.1 hn
  have hjoin : p.join n.bytes = p ++ [.name n] := p.join_of_valid n.valid
  have hstat : fs.stat false (p ++ [.name n]) = .ok nd := by
    rw [hs.leads.stat_entry (.inl rfl), hl]
  have hnil : viewAt fs (r ++ [n]) [] = some nd := by
    rw [viewAt, List.append_nil, hl]
  have hmeta : exec (K.listing order) (io (IoM.op (.symlinkMetadata (p ++ [.name n])))) fs =
      (.ok nd.metadata, fs) := by
    have hun : Unlisted (.symlinkMetadata (p ++ [.name n])) := unlisted_of_ne rfl
    rw [exec_listing_op hun, exec_io, run_op, Kernel.handle, hstat]
    rfl
  rw [buildEntry, hjoin, exec_bind_ok _ hmeta] at h
  cases nd with
  | file data m t =>
    obtain ⟨hash, fs₁, hput, hret⟩ := exec_bind_eq_ok _ h
    rw [exec_listing (unlisted_putFile ..)] at hput
    have hlink : ¬ fs.isLink (r ++ [n]) := by simp [FS.isLink, hl, Node.isLink]
    have hres : fs.resolve true (p ++ [.name n]) = .ok (r ++ [n]) :=
      hs.leads.resolve_entry (.inr hlink)
    have hplace : ∀ v, fs.resolve true (p ++ [.name n]) = .ok v →
        ¬ objectsDir root <+: v := fun v hv => by
      rw [hres] at hv
      cases hv
      exact hs.apart.not_objects (List.prefix_append r [n])
    obtain ⟨res, fs₂, hrun, hw, hok, -⟩ :=
      exec_putFile_within (K := K) hH hs.sound hplace reads fuel
    have hrun' : exec K.handle ((managerAt root).store.putFile H reads fuel (p ++ [.name n])) fs =
      (res, fs₂) := hrun
    rw [hput] at hrun'
    cases hrun'
    cases hret
    obtain ⟨v, b, ⟨hv, m', t', hb⟩, -, hstored⟩ := hok hash rfl
    rw [hres] at hv
    cases hv
    obtain ⟨rfl, rfl, rfl⟩ : data = b ∧ m = m' ∧ t = t' := by
      have := hl.symm.trans hb
      simpa using this
    refine ⟨hw,
      .inr ⟨_, rfl, rfl, ⟨_, hnil, rfl, hstored, rfl, bits_of_mode rfl m, rfl⟩,
      fun h => (by cases h), fun h => by cases h⟩,
      _, _, viewAt_leaf hl rfl, fun a b ha hb => ⟨?_, ?_⟩⟩
    · show wrappingAdd acc.fileCount 1 = _
      rw [ha]
      exact wrappingAdd_mod_left a 1
    · show wrappingAdd acc.totalSize data.length = _
      rw [hb]
      exact wrappingAdd_mod_left b data.length
  | dir m t size =>
    obtain ⟨⟨hash, c, z⟩, fs₁, hbuild, hret⟩ := exec_bind_eq_ok _ h
    cases hret
    have hwalk := hrec (hash, c, z) fs' (FS.isDir_of_lookup hl) hbuild
    obtain ⟨c', z', htotals, (rfl : c = c' % 2 ^ 64), (rfl : z = z' % 2 ^ 64)⟩ := hwalk.counts
    refine ⟨hwalk.within, .inr ⟨_, rfl, rfl, ⟨_, hnil, rfl, bits_of_mode rfl m, rfl⟩,
      fun _ => hwalk.filed, fun h => by cases h⟩,
      c', z', htotals, fun a b ha hb => ⟨?_, ?_⟩⟩
    · show wrappingAdd acc.fileCount (c' % 2 ^ 64) = _
      rw [ha, wrappingAdd_mod]
    · show wrappingAdd acc.totalSize (z' % 2 ^ 64) = _
      rw [hb, wrappingAdd_mod]
  | symlink t m =>
    obtain ⟨t', ht'⟩ := t.lossy
    have hread : exec (K.listing order) (io (IoM.op (.readLink (p ++ [.name n])))) fs =
        (.ok t.bytes, fs) := by
      have hun : Unlisted (.readLink (p ++ [.name n])) := unlisted_of_ne rfl
      rw [exec_listing_op hun, exec_readLink hstat]
    obtain ⟨fs₁, hput, hw, hstored⟩ := exec_putBlob_within (K := K) hH hs.sound
      (utf8 (toStringLossy t.bytes))
    have hput' : exec (K.listing order)
        ((managerAt root).store.putBlob H (utf8 (toStringLossy t.bytes))) fs =
          (.ok (H.hash (utf8 (toStringLossy t.bytes))), fs₁) :=
      (exec_listing (unlisted_putBlob ..) fs).trans hput
    obtain ⟨b, hb⟩ : ∃ b, exec (K.listing order)
        (SnapshotManager.targetIsDir (p ++ [.name n]) t.bytes) fs₁ = (.ok b, fs₁) := by
      rw [exec_listing (unlisted_targetIsDir ..)]
      exact exec_targetIsDir ..
    rw [show (Node.symlink t m).metadata.fileType = .symlink from rfl] at h
    simp only at h
    rw [exec_bind_ok _ hread, exec_bind_ok _ hput', exec_bind_ok _ hb] at h
    cases h
    have hty : (if b then EntryType.symlinkDir else EntryType.symlink).isLink = true := by
      cases b <;> rfl
    refine ⟨hw, .inr ⟨_, rfl, rfl, ⟨_, hnil, hty, hstored⟩, fun ht => ?_, fun _ =>
      ⟨t', by rw [ht']; exact hstored, by rw [ht', fromUtf8_utf8]; rfl⟩⟩,
      _, _, viewAt_leaf hl rfl, fun a b ha hb => ⟨?_, hb⟩⟩
    · cases b <;> cases ht
    · show wrappingAdd acc.fileCount 1 = _
      rw [ha]
      exact wrappingAdd_mod_left a 1
  | special m t =>
    cases h
    exact ⟨.refl hs.sound, .inl ⟨m, t, hnil, rfl⟩, _, _, viewAt_leaf hl rfl, adds_nothing acc⟩

/-- What the names that have been gone through have come to. -/
structure Accounted (J : Serde) (obj : String → Option Bytes) (order : Loc → List FileName)
    (r : Loc) (f : View) (done : List FileName) (acc : Built) : Prop where
  gathered : Gathered J obj order r f done acc.entries
  counts : ∃ c z, Tally f (BeginsIn done) c z ∧ acc.fileCount = c % 2 ^ 64 ∧
    acc.totalSize = z % 2 ^ 64

theorem accounted_nil : Accounted J obj order r f [] ⟨[], 0, 0⟩ := ⟨.nil, 0, 0, .nil, rfl, rfl⟩

theorem Accounted.step {done : List FileName} {n : FileName} {acc acc' : Built}
    (hle : ∀ x b, obj x = some b → obj' x = some b) (h : Accounted J obj order r f done acc)
    (hn : n ∉ done) (hnoted : Noted J obj' order r n (f.child n) acc acc') :
    Accounted J obj' order r f (done ++ [n]) acc' := by
  constructor
  · rcases hnoted.entries with ⟨m, t, hn, heq⟩ | ⟨e, heq, hm⟩
    · rw [heq]
      exact (h.gathered.mono hle).concat_skip hn
    · rw [heq]
      exact (h.gathered.mono hle).concat_take hm
  · obtain ⟨c, z, htally, hc, hz⟩ := h.counts
    obtain ⟨c', z', htotals, hadds⟩ := hnoted.counts
    obtain ⟨hc', hz'⟩ := hadds c z hc hz
    exact ⟨c + c', z + z', htally.concat hn htotals, hc', hz'⟩

/-- The loop. -/
theorem ok_buildEntries (hH : H.Lawful) {reads : Loc → ℕ → ℕ} {fuel : ℕ}
    (hrec : ∀ n result fs fs', Site H root (p ++ [.name n]) (r ++ [n]) fs →
      exec (K.listing order) ((managerAt root).buildTree H J reads fuel (p ++ [.name n])) fs =
        (.ok result, fs') → Walked H J root order (r ++ [n]) fs result fs')
    {names : List FileName} :
    ∀ {done : List FileName} {acc acc' : Built} {fs fs' : FS}, Site H root p r fs →
    (∀ n ∈ names, (fs.lookup (r ++ [n])).isSome) → (done ++ names).Nodup →
    Accounted J (stored root fs) order r (viewAt fs r) done acc →
    exec (K.listing order) ((managerAt root).buildEntries H reads fuel
      ((managerAt root).buildTree H J reads fuel) p names acc) fs = (.ok acc', fs') →
    Within H root (fun _ => False) fs fs' ∧
      Accounted J (stored root fs') order r (viewAt fs r) (done ++ names) acc' := by
  induction names with
  | nil =>
    intro done acc acc' fs fs' hs _ _ hg h
    cases h
    rw [List.append_nil]
    exact ⟨.refl hs.sound, hg⟩
  | cons n names ih =>
    intro done acc acc' fs fs' hs hnames hnodup hg h
    obtain ⟨acc₁, fs₁, hentry, hrest⟩ := exec_bind_eq_ok _
      (show exec (K.listing order) ((managerAt root).buildEntry H reads fuel
        ((managerAt root).buildTree H J reads fuel) p acc n >>= fun acc =>
          (managerAt root).buildEntries H reads fuel
            ((managerAt root).buildTree H J reads fuel) p names acc) fs = _ from h)
    obtain ⟨hw, hnoted⟩ := ok_buildEntry hH hs (hnames n List.mem_cons_self)
      (fun result fs' hd hrun => hrec n result fs fs' (hs.child hd) hrun) hentry
    have hview := hs.view hw
    have hnew : n ∉ done := fun hmem =>
      (List.disjoint_of_nodup_append hnodup hmem) List.mem_cons_self
    rw [← child_viewAt] at hnoted
    have hg₁ := hg.step (stored_within hw) hnew hnoted
    rw [← hview] at hg₁
    obtain ⟨hw', hg'⟩ := ih (hs.later hw) (fun m hm => by
      rw [show fs₁.lookup (r ++ [m]) = fs.lookup (r ++ [m]) from congrFun hview [m]]
      exact hnames m (List.mem_cons_of_mem n hm)) (by rwa [List.append_assoc]) hg₁ hrest
    rw [hview, List.append_assoc] at hg'
    exact ⟨hw.trans hw', hg'⟩

/-- **`buildTree` captures the directory and counts its files**, in whatever order it is listed. -/
theorem walked_buildTree (hH : H.Lawful) (hJ : J.Lawful) {reads : Loc → ℕ → ℕ} (fuel : ℕ) :
    ∀ {p : PathBuf} {r : Loc} {result : String × ℕ × ℕ} {fs fs' : FS}, Site H root p r fs →
      exec (K.listing order) ((managerAt root).buildTree H J reads fuel p) fs =
        (.ok result, fs') → Walked H J root order r fs result fs' := by
  induction fuel with
  | zero =>
    intro p r result fs fs' _ h
    cases h
  | succ fuel ih =>
    intro p r result fs fs' hs h
    have hres : fs.resolve true p = .ok r := hs.leads.self
    have hread : exec (K.listing order) (io (IoM.op (.readDir p))) fs =
        (.ok (arranged (order r) (fs.names r)), fs) := by
      refine (exec_mapError ..).trans ?_
      rw [IoM.op, exec_perform, Kernel.listing_readDir hres, hs.leads.readDir_eq]
      rfl
    have hperm := arranged_perm (order r) (fs.names r)
    set names := arranged (order r) (fs.names r) with hnames
    have hdir := hs.leads.isDir
    have hmem : ∀ n, n ∈ names ↔ (fs.lookup (r ++ [n])).isSome := fun n =>
      hperm.mem_iff.trans (FS.mem_names hdir)
    have hnodup : names.Nodup := hperm.nodup_iff.2 (FS.nodup_names fs r)
    rw [buildTree, exec_bind_ok _ hread] at h
    obtain ⟨built, fs₁, hloop, htree⟩ := exec_bind_eq_ok _ h
    obtain ⟨json, fs₂, hjson, hstore⟩ := exec_bind_eq_ok _ htree
    rw [exec_ofExcept] at hjson
    obtain ⟨hencode, rfl⟩ := Prod.mk.inj hjson
    obtain ⟨treeHash, fs₃, hput, hret⟩ := exec_bind_eq_ok _ hstore
    cases hret
    obtain ⟨hw, hg⟩ := ok_buildEntries hH (fun n result fs fs' hs' hrun => ih hs' hrun) hs
      (fun n hn => (hmem n).1 hn) hnodup accounted_nil hloop
    rw [exec_listing (unlisted_putBlob ..)] at hput
    obtain ⟨fs₄, hput', hw', hstored⟩ := exec_putBlob_within (K := K) hH hw.sound json
    have hput' : exec K.handle ((managerAt root).store.putBlob H json) fs₁ =
      (.ok (H.hash json), fs₄) := hput'
    rw [hput] at hput'
    cases hput'
    have hes := (entriesOf_eq_some hstored).2 (decode_encodeTree hJ hencode)
    have hgathered := hg.gathered.mono (stored_within hw')
    have hlisted : Enumerates (viewAt fs r) [] (order r) → names = order r := by
      intro henum
      refine arranged_eq ((List.perm_ext_iff_of_nodup henum.1 (FS.nodup_names fs r)).2 fun n => ?_)
      rw [henum.2, FS.mem_names hdir]
      rfl
    refine ⟨hw.trans hw', fun hutf => ⟨hgathered.intact hutf hes hnodup,
      hgathered.captures hutf hes (fun n hn => (hmem n).2 hn) (rooted_viewAt fs r),
      hgathered.inOrder hutf hes hlisted⟩, ?_⟩
    obtain ⟨c, z, htally, hc, hz⟩ := hg.counts
    refine ⟨c, z, htally.all (rooted_viewAt fs r) (fun nd hnd => ?_) (fun n hn => (hmem n).2 hn),
      hc, hz⟩
    obtain ⟨m, t, s, hl⟩ := FS.isDir_iff.1 hdir
    rw [viewAt, List.append_nil, hl] at hnd
    cases hnd
    rfl

/-- The same, without orders that are given. -/
theorem ok_buildTree (hH : H.Lawful) (hJ : J.Lawful) {reads : Loc → ℕ → ℕ} (fuel : ℕ)
    {hash : String} {c z : ℕ} (hs : Site H root p r fs) (hutf : NamesUtf8 (viewAt fs r))
    (h : exec K.handle ((managerAt root).buildTree H J reads fuel p) fs = (.ok (hash, c, z), fs')) :
    Within H root (fun _ => False) fs fs' ∧ Intact J (stored root fs') hash ∧
      Captures J (stored root fs') hash (viewAt fs r) := by
  rw [← K.listing_nil] at h
  have hwalk := walked_buildTree hH hJ fuel hs h
  exact ⟨hwalk.within, (hwalk.filed hutf).intact, (hwalk.filed hutf).captures⟩

/-! ### Snapshots -/

/-- A place among the snapshot files and the tag refs. -/
def Metadata (root v : Loc) : Prop :=
  ∃ d n, (d = snapshotsLoc root ∨ d = tagsLoc root) ∧ v = d ++ [n]

theorem Metadata.not_prefix {v : Loc} (h : Metadata root v) :
    ¬ (v <+: objectsDir root ∨ objectsDir root <+: v) := by
  obtain ⟨d, n, hd, rfl⟩ := h
  rintro (hv | hv)
  · have hlen := hv.length_le
    rcases hd with rfl | rfl <;> simp [objectsDir, snapshotsLoc, tagsLoc] at hlen
  · exact not_objectsDir_prefix_ref hd n hv

/-- Writing the snapshot file and the refs leaves the objects as they are. -/
theorem Recorded.within {u : Uuid} {json : String} (hs : Sound H root fs)
    (h : Recorded root u json fs fs') : Within H root (Metadata root) fs fs' := by
  have hsame : ∀ v, v <+: objectsDir root ∨ objectsDir root <+: v →
      fs'.lookup v = fs.lookup v := fun v hv =>
    h.away v fun d n hd heq => Metadata.not_prefix ⟨d, n, hd, heq⟩ hv
  refine ⟨hs.congr hsame, fun k b hk => ?_, fun v hv => .of_eq (hsame v (.inr hv)),
    fun v hv _ => h.away v fun d n hd heq => hv ⟨d, n, hd, heq⟩⟩
  rwa [objectAt, hsame _ (.inr (k.objectsDir_prefix_loc root))]

/-- A snapshot that is stored whole, in a store in order. -/
structure Taken (H : Blake3) (J : Serde) (root : Loc) (u : Uuid) (snap : Snapshot) (fs : FS) :
    Prop where
  records : Records J root fs
  sound : Sound H root fs
  here : snapshotAt J root fs u = some snap
  intact : Intact J (stored root fs) snap.tree

/-- **What `createSnapshot` leaves**: a snapshot whose tree is whole and that of the workspace, and
whose totals are those of the workspace. -/
theorem created (hH : H.Lawful) (hJ : J.Lawful) (hr : Records J root fs)
    {workspace : PathBuf} (hs : Site H root workspace r fs) (hutf : NamesUtf8 (viewAt fs r))
    {reads : Loc → ℕ → ℕ} {fuel : ℕ} {now : ℤ} {u : Uuid} {message : Option String}
    {tags : Option (List String)} {id : String}
    (h : exec K.handle ((managerAt root).createSnapshot H J reads fuel now u.text workspace message
      tags) fs = (.ok id, fs')) :
    id = u.text ∧ ∃ snap, Taken H J root u snap fs' ∧
      Captures J (stored root fs') snap.tree (viewAt fs r) ∧
      ∃ c z, Totals (viewAt fs r) c z ∧ snap.fileCount = c % 2 ^ 64 ∧
        snap.totalSize = z % 2 ^ 64 := by
  have hbuild := Spec.ran (fun _ _ hrely => hrely)
    (spec_buildTree_framed (K := K) (J := J) hH hr.noTemp reads fuel workspace)
  have hspec := spec_createSnapshot (B := fun built s =>
      exec K.handle ((managerAt root).buildTree H J reads fuel workspace) fs = (.ok built, s))
    (I := fun json _ s₁ s => Recorded root u json s₁ s) now u message tags hbuild
    (fun json s₁ s hf hsaved => hsaved.recorded hf.noTemp (by
      rw [hf.snapshots]
      exact hr.temp_none u))
    fun json done t rest s₁ s s' _ _ _ hrec ht => hrec.tagged ht
  obtain ⟨-, hends⟩ := exec_of_spec hspec hr.layout rfl
  rw [h] at hends
  obtain ⟨rfl, built, s₁, json, hf, hbuilt, hj, hvalid, hrec⟩ := hends
  rw [← K.listing_nil] at hbuilt
  have hwalk := walked_buildTree hH hJ fuel hs hbuilt
  have hfiled := hwalk.filed hutf
  have hw' := hrec.within hwalk.within.sound
  have hle := stored_within hw'
  exact ⟨rfl, _, ⟨hr.recorded hJ hf hj rfl hvalid hrec, hw'.sound,
    Records.snapshotAt_recorded hJ hj hrec, hfiled.intact.mono hle⟩,
    hfiled.captures.mono hle hfiled.intact, hwalk.counts⟩

theorem ok_createSnapshot (hH : H.Lawful) (hJ : J.Lawful) (hr : Records J root fs)
    {workspace : PathBuf} (hs : Site H root workspace r fs) (hutf : NamesUtf8 (viewAt fs r))
    {reads : Loc → ℕ → ℕ} {fuel : ℕ} {now : ℤ} {u : Uuid} {message : Option String}
    {tags : Option (List String)} {id : String}
    (h : exec K.handle ((managerAt root).createSnapshot H J reads fuel now u.text workspace message
      tags) fs = (.ok id, fs')) :
    id = u.text ∧ ∃ snap, Taken H J root u snap fs' ∧
      Captures J (stored root fs') snap.tree (viewAt fs r) := by
  obtain ⟨hid, snap, htaken, hc, -⟩ := created hH hJ hr hs hutf h
  exact ⟨hid, snap, htaken, hc⟩

/-! ### Changes elsewhere -/

/-- Nothing has changed in a snapshot root and above it. -/
def Elsewhere (root : Loc) (fs fs' : FS) : Prop :=
  ∀ v, v <+: root ∨ root <+: v → fs'.lookup v = fs.lookup v

namespace Elsewhere

variable (h : Elsewhere root fs fs')
include h

theorem below (w : Loc) : fs'.lookup (root ++ w) = fs.lookup (root ++ w) :=
  h _ (.inr (List.prefix_append root w))

/-- What is above or below a place in the root is as before. -/
theorem near {d v : Loc} (hd : root <+: d) (hv : v <+: d ∨ d <+: v) :
    fs'.lookup v = fs.lookup v :=
  h v (hv.elim (fun hv => List.prefix_or_prefix_of_prefix hv hd) fun hv => .inr (hd.trans hv))

theorem stored : SandD.stored root fs' = SandD.stored root fs := by
  funext x
  unfold SandD.stored objectAt
  split_ifs with hx
  · rw [h.near (List.prefix_append root _) (.inr (Key.objectsDir_prefix_loc _ root))]
  · rfl

theorem taken {u : Uuid} {snap : Snapshot} (ht : Taken H J root u snap fs) :
    Taken H J root u snap fs' := by
  have hsnaps : root <+: snapshotsLoc root := List.prefix_append root _
  refine ⟨ht.records.congr (ht.records.layout.elsewhere h) (fun k hk => ?_) (fun n => ?_),
    ht.sound.congr fun v => h.near (List.prefix_append root _), ?_, ?_⟩
  · rw [h.near (List.prefix_append root _) (.inr (k.objectsDir_prefix_tempLoc root))]
    exact ht.records.noTemp k hk
  · exact h.near hsnaps (.inr (List.prefix_append _ _))
  · rw [snapshotAt_congr (h.near hsnaps (.inr (List.prefix_append _ _)))]
    exact ht.here
  · rw [h.stored]
    exact ht.intact

end Elsewhere

section Sample

/-- The workspace `/w`. -/
def sampleDir : Loc := [⟨utf8 "w", validName_w⟩]

/-- After a snapshot of it. -/
def sampleTaken : FS := (exec sampleKernel.handle (twinCreate sampleUuids.1) sampleStore).2

theorem exec_sampleTaken :
    exec sampleKernel.handle (twinCreate sampleUuids.1) sampleStore =
      (.ok sampleUuids.1.text, sampleTaken) := by
  rw [sampleTaken]
  exact exec_eq_of_fst (by decide +kernel)

/-- The snapshot is that of the workspace. -/
theorem taken_sample : ∃ snap,
    Taken (Blake3.ofTable sampleHashes) (Serde.ofTable twinJson) sampleRoot sampleUuids.1 snap
      sampleTaken ∧
      Captures (Serde.ofTable twinJson) (stored sampleRoot sampleTaken) snap.tree
        (viewAt sampleStore sampleDir) := by
  have hrecords := (TagsAgree.empty (J := Serde.ofTable twinJson) emptyStore_sample).toRecords
  refine (ok_createSnapshot (Blake3.ofTable_lawful sampleHashes) (Serde.ofTable_lawful twinJson)
    hrecords ⟨Fresh.sound ⟨emptyStore_sample.layout.isDir, emptyStore_sample.objects⟩,
      FS.leads_toPath (r := sampleDir) (by decide +kernel), by decide, by decide⟩
    (namesUtf8_of_entries (by decide +kernel) _) exec_sampleTaken).2

/-- The name `f`. -/
def sampleName : FileName := ⟨utf8 "f", validName_f⟩

end Sample

end SandD
