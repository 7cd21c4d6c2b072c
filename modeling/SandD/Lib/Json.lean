import Mathlib.Data.Finmap
import Mathlib.Data.Multiset.Sort
import Mathlib.Data.Prod.Lex
import Mathlib.Data.String.Basic

/-!
# JSON values, codecs and records

JSON values without fractions, and how a derived serialiser and deserialiser treat them.

* `Codec`: how the values of a type are written and read, with the proof that reading undoes
  writing; `Codec.string`, `uint`, `list`, `option`, `stringMap`, ….
* `Fields`: the fields of a record, of which some have a default; `Fields.write`, `Fields.read`.
* `Fields.read_of_gives`: a record is read from any object that has its fields, in any order, next
  to other members, and without some of those that have a default.
-/

namespace SandD

/-- A JSON value; an object has its members in order, and may have a key twice. -/
inductive Json
  | null
  | bool (b : Bool)
  | num (n : ℤ)
  | str (s : String)
  | arr (items : List Json)
  | obj (members : List (String × Json))

/-- The order in which the entries of hash maps are visited. -/
structure MapOrder where
  entries : (Finmap fun _ : String => String) → AList fun _ : String => String
  toFinmap_entries : ∀ m, (entries m).toFinmap = m

namespace MapOrder

/-- The order of the keys, and of the values under one key. -/
def EntryLe (e e' : Σ _ : String, String) : Prop := toLex (e.1, e.2) ≤ toLex (e'.1, e'.2)

instance : DecidableRel EntryLe := fun _ _ => inferInstanceAs (Decidable (_ ≤ _))

instance : IsTrans _ EntryLe := ⟨fun _ _ _ => le_trans⟩

instance : Std.Antisymm EntryLe := ⟨fun e e' h h' => by
  have heq := congrArg ofLex (le_antisymm h h')
  obtain ⟨_, _⟩ := e
  obtain ⟨_, _⟩ := e'
  cases heq
  rfl⟩

instance : Std.Total EntryLe := ⟨fun _ _ => le_total _ _⟩

/-- Visits the entries in the order of their keys. -/
def sorted : MapOrder where
  entries m := ⟨m.entries.sort EntryLe, by
    have h := m.nodupKeys
    rwa [← Multiset.sort_eq m.entries EntryLe] at h⟩
  toFinmap_entries m := Finmap.ext (Multiset.sort_eq m.entries EntryLe)

end MapOrder

/-- How the values of a type are written and read. -/
structure Codec (α : Type) where
  write : MapOrder → α → Json
  read : Json → Option α
  /-- the values that can be written, such as the integers of a range -/
  Valid : α → Prop
  read_write : ∀ order a, Valid a → read (write order a) = some a

namespace Codec

variable {α β : Type}

def string : Codec String where
  write _ s := .str s
  read
    | .str s => some s
    | _ => none
  Valid _ := True
  read_write _ _ _ := rfl

def bool : Codec Bool where
  write _ b := .bool b
  read
    | .bool b => some b
    | _ => none
  Valid _ := True
  read_write _ _ _ := rfl

/-- Unsigned integers of `w` bits. -/
def uint (w : ℕ) : Codec ℕ where
  write _ n := .num n
  read
    | .num n => if 0 ≤ n ∧ n < 2 ^ w then some n.toNat else none
    | _ => none
  Valid n := n < 2 ^ w
  read_write _ n hn := if_pos ⟨Int.natCast_nonneg n, by exact_mod_cast hn⟩

/-- Signed integers of `w + 1` bits. -/
def int (w : ℕ) : Codec ℤ where
  write _ n := .num n
  read
    | .num n => if -2 ^ w ≤ n ∧ n < 2 ^ w then some n else none
    | _ => none
  Valid n := -2 ^ w ≤ n ∧ n < 2 ^ w
  read_write _ _ hn := if_pos hn

/-- A type whose values are written as those of another one. -/
def via (c : Codec β) (encode : α → β) (decode : β → Option α)
    (h : ∀ a, decode (encode a) = some a) : Codec α where
  write order a := c.write order (encode a)
  read j := (c.read j).bind decode
  Valid a := c.Valid (encode a)
  read_write order a ha := by
    rw [c.read_write order (encode a) ha, Option.bind_some, h]

theorem mapM_read_write (c : Codec α) (order : MapOrder) (as : List α)
    (h : ∀ a ∈ as, c.Valid a) : (as.map (c.write order)).mapM c.read = some as := by
  induction as with
  | nil => rfl
  | cons a as ih =>
    rw [List.map_cons, List.mapM_cons, c.read_write order a (h a List.mem_cons_self),
      ih fun a' ha' => h a' (List.mem_cons_of_mem _ ha')]
    rfl

def list (c : Codec α) : Codec (List α) where
  write order as := .arr (as.map (c.write order))
  read
    | .arr items => items.mapM c.read
    | _ => none
  Valid as := ∀ a ∈ as, c.Valid a
  read_write order as h := c.mapM_read_write order as h

/-- Options, with `null` for `none`. -/
def readOption (c : Codec α) : Json → Option (Option α)
  | .null => some none
  | j => (c.read j).map some

theorem readOption_write (c : Codec α) (hnull : ∀ order a, c.write order a ≠ .null)
    (order : MapOrder) (a : α) (ha : c.Valid a) :
    c.readOption (c.write order a) = some (some a) := by
  have hread := c.read_write order a ha
  have hne := hnull order a
  cases hj : c.write order a with
  | null => exact absurd hj hne
  | _ =>
    rw [hj] at hread
    exact congrArg (Option.map some) hread

def option (c : Codec α) (hnull : ∀ order a, c.write order a ≠ .null) : Codec (Option α) where
  write order
    | some a => c.write order a
    | none => .null
  read := c.readOption
  Valid a := ∀ a' ∈ a, c.Valid a'
  read_write order
    | some a, ha => c.readOption_write hnull order a (ha a rfl)
    | none, _ => rfl

/-- A map from its members, of which the later ones count. -/
def readMembers (members : List (String × Json)) (m : Finmap fun _ : String => String) :
    Option (Finmap fun _ : String => String) :=
  members.foldlM (fun m member => (string.read member.2).map fun s => m.insert member.1 s) m

theorem readMembers_map (l : List (Σ _ : String, String)) (hl : l.NodupKeys)
    (m : Finmap fun _ : String => String) :
    ∃ m', readMembers (l.map fun entry => (entry.1, .str entry.2)) m = some m' ∧
      ∀ key, m'.lookup key = (l.dlookup key).or (m.lookup key) := by
  induction l generalizing m with
  | nil => exact ⟨m, rfl, fun _ => rfl⟩
  | cons entry l ih =>
    obtain ⟨key₀, value₀⟩ := entry
    obtain ⟨hnotin, hl⟩ := List.nodupKeys_cons.1 hl
    obtain ⟨m', hm', hlookup⟩ := ih hl (m.insert key₀ value₀)
    refine ⟨m', hm', fun key => ?_⟩
    rw [hlookup key]
    by_cases hkey : key = key₀
    · subst hkey
      rw [List.dlookup_cons_eq, List.dlookup_eq_none.2 hnotin, Finmap.lookup_insert]
      rfl
    · rw [List.dlookup_cons_ne _ _ hkey, Finmap.lookup_insert_of_ne _ hkey]

/-- Maps from strings to strings. -/
def stringMap : Codec (Finmap fun _ : String => String) where
  write order m := .obj ((order.entries m).entries.map fun entry => (entry.1, .str entry.2))
  read
    | .obj members => readMembers members ∅
    | _ => none
  Valid _ := True
  read_write order m _ := by
    obtain ⟨m', hm', hlookup⟩ :=
      readMembers_map (order.entries m).entries (order.entries m).nodupKeys ∅
    refine hm'.trans (congrArg some (Finmap.ext_lookup fun key => ?_))
    rw [hlookup key, Finmap.lookup_empty, Option.or_none]
    conv_rhs => rw [← order.toFinmap_entries m]
    exact (Finmap.lookup_toFinmap key (order.entries m)).symm

end Codec

/-! ### Records -/

namespace Json

/-- What an object has under a key. -/
def values (key : String) (members : List (String × Json)) : List Json :=
  (members.filter fun member => member.1 = key).map Prod.snd

/-- The object has the member once, or, where its key is to be left out, not at all. -/
def Gives (omitted : String → Bool) (members : List (String × Json)) (member : String × Json) :
    Prop :=
  values member.1 members = if omitted member.1 then [] else [member.2]

theorem Gives.values_eq {omitted : String → Bool} {members : List (String × Json)} {key : String}
    {j : Json} (h : Gives omitted members (key, j)) (homitted : omitted key = false) :
    values key members = [j] := by
  unfold Gives at h
  rw [h, homitted]
  rfl

/-- An object gives its own members, if no two have the same key. -/
theorem gives_self {members : List (String × Json)} (h : (members.map Prod.fst).Nodup)
    {member : String × Json} (hmem : member ∈ members) :
    Gives (fun _ => false) members member := by
  show values member.1 members = [member.2]
  unfold values
  induction members with
  | nil => cases hmem
  | cons head members ih =>
    rw [List.map_cons, List.nodup_cons] at h
    rw [List.filter_cons]
    rcases List.mem_cons.1 hmem with rfl | hmem
    · have hnone : members.filter (fun other => other.1 = member.1) = [] := by
        refine List.filter_eq_nil_iff.2 fun other hother heq => h.1 ?_
        exact List.mem_map.2 ⟨other, hother, of_decide_eq_true heq⟩
      have heq : decide (member.1 = member.1) = true := decide_eq_true rfl
      rw [if_pos heq, hnone]
      rfl
    · have hne : ¬ decide (head.1 = member.1) = true := fun heq =>
        h.1 (List.mem_map.2 ⟨member, hmem, (of_decide_eq_true heq).symm⟩)
      rw [if_neg hne]
      exact ih h.2 hmem

end Json

/-- The fields of a record, each with its codec and, where it has one, its default. -/
inductive Fields : Type → Type 1
  | nil : Fields Unit
  | field {α τ : Type} (key : String) (codec : Codec α) (default : Option α) (rest : Fields τ) :
      Fields (α × τ)

namespace Fields

/-- A field without a default. -/
def required {α τ : Type} (key : String) (codec : Codec α) (rest : Fields τ) : Fields (α × τ) :=
  .field key codec none rest

/-- A field with a default. -/
def defaulted {α τ : Type} (key : String) (codec : Codec α) (default : α) (rest : Fields τ) :
    Fields (α × τ) :=
  .field key codec (some default) rest

/-- The members of the object for a record. -/
def write (order : MapOrder) : {τ : Type} → Fields τ → τ → List (String × Json)
  | _, .nil, _ => []
  | _, .field key codec _ rest, (a, b) => (key, codec.write order a) :: rest.write order b

/-- A field from what the object has under its key: having it twice is an error. -/
def readField {α : Type} (codec : Codec α) (default : Option α) : List Json → Option α
  | [] => default
  | [j] => codec.read j
  | _ => none

/-- A record from an object; unknown members are ignored. -/
def read (members : List (String × Json)) : {τ : Type} → Fields τ → Option τ
  | _, .nil => some ()
  | _, .field key codec default rest => do
    let a ← readField codec default (Json.values key members)
    let b ← rest.read members
    some (a, b)

/-- The records whose fields can be written. -/
def Valid : {τ : Type} → Fields τ → τ → Prop
  | _, .nil, _ => True
  | _, .field _ codec _ rest, (a, b) => codec.Valid a ∧ rest.Valid b

/-- The record with the defaults in the fields of the given keys. -/
def withDefaults (omitted : String → Bool) : {τ : Type} → Fields τ → τ → τ
  | _, .nil, a => a
  | _, .field _ _ none rest, (a, b) => (a, rest.withDefaults omitted b)
  | _, .field key _ (some default) rest, (a, b) =>
    (if omitted key then default else a, rest.withDefaults omitted b)

/-- The keys of the fields without a default. -/
def requiredKeys : {τ : Type} → Fields τ → List String
  | _, .nil => []
  | _, .field key _ none rest => key :: rest.requiredKeys
  | _, .field _ _ (some _) rest => rest.requiredKeys

/-- The keys of the fields. -/
def keys : {τ : Type} → Fields τ → List String
  | _, .nil => []
  | _, .field key _ _ rest => key :: rest.keys

variable {τ : Type} {order : MapOrder} {omitted : String → Bool} {members : List (String × Json)}

theorem map_fst_write (fields : Fields τ) (a : τ) :
    (fields.write order a).map Prod.fst = fields.keys := by
  induction fields with
  | nil => rfl
  | field key codec default rest ih =>
    obtain ⟨a, b⟩ := a
    rw [write, List.map_cons, ih]
    rfl

/-- **A record is read from an object that gives its fields, but for some that have a default.** -/
theorem read_of_gives (fields : Fields τ) (a : τ) (hvalid : fields.Valid a)
    (homitted : ∀ key ∈ fields.requiredKeys, omitted key = false)
    (h : ∀ member ∈ fields.write order a, Json.Gives omitted members member) :
    fields.read members = some (fields.withDefaults omitted a) := by
  induction fields with
  | nil => rfl
  | field key codec default rest ih =>
    obtain ⟨a, b⟩ := a
    have hrest := ih b hvalid.2
      (fun key hkey => homitted key (by cases default <;> simp [requiredKeys, hkey]))
      fun member hmem => h member (List.mem_cons_of_mem _ hmem)
    have hvalues : Json.values key members = if omitted key then [] else [codec.write order a] :=
      h (key, codec.write order a) List.mem_cons_self
    rw [read, hvalues, hrest]
    cases default with
    | none =>
      rw [homitted key List.mem_cons_self, if_neg Bool.false_ne_true, readField,
        codec.read_write order a hvalid.1]
      rfl
    | some default =>
      rw [withDefaults]
      by_cases hkey : omitted key = true
      · rw [if_pos hkey, if_pos hkey]
        rfl
      · rw [if_neg hkey, if_neg hkey, readField, codec.read_write order a hvalid.1]
        rfl

@[simp] theorem withDefaults_false (fields : Fields τ) (a : τ) :
    fields.withDefaults (fun _ => false) a = a := by
  induction fields with
  | nil => rfl
  | field key codec default rest ih =>
    obtain ⟨a, b⟩ := a
    cases default with
    | none => rw [withDefaults, ih]
    | some default =>
      rw [withDefaults, ih]
      rfl

end Fields

/-- The codec of a record type. -/
def Codec.record {α τ : Type} (fields : Fields τ) (hkeys : fields.keys.Nodup) (parts : α → τ)
    (make : τ → α) (h : ∀ a, make (parts a) = a) : Codec α where
  write order a := .obj (fields.write order (parts a))
  read
    | .obj members => (fields.read members).map make
    | _ => none
  Valid a := fields.Valid (parts a)
  read_write order a ha := by
    have hgives : ∀ member ∈ fields.write order (parts a),
        Json.Gives (fun _ => false) (fields.write order (parts a)) member := fun member hmem =>
      Json.gives_self (by rwa [Fields.map_fst_write]) hmem
    show (fields.read (fields.write order (parts a))).map make = some a
    rw [fields.read_of_gives (parts a) ha (fun _ _ => rfl) hgives, Fields.withDefaults_false]
    exact congrArg some (h a)

end SandD
