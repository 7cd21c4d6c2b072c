import Mathlib.Tactic.Common
import Mathlib.Data.List.Basic

/-!
# Bytes, file names and paths

The Unix side of `OsStr` and `Path`: an operating-system string is a list of bytes, a file name
is a non-empty byte string without `/` and NUL that is neither `.` nor `..`, and a path is what
is left of a byte string when it is split at `/` and the empty and `.` components are dropped.
Paths are absolute; a relative path stands for itself below the working directory.

* `utf8`, `fromUtf8`: a string and its bytes;
* `toStringLossy`: the string of a byte string, with U+FFFD for what is not UTF-8;
* `FileName`, `Comp`, `PathBuf`, `PathBuf.join`, `PathBuf.parent`, `PathBuf.withExtension`.
-/

/-- The contents of files, and the strings of the operating system. -/
abbrev Bytes := List UInt8

namespace Posix

/-! ### UTF-8 -/

/-- The bytes of a string. -/
def utf8 (s : String) : Bytes := s.toList.flatMap String.utf8EncodeChar

/-- The string of a byte string that is valid UTF-8. -/
def fromUtf8 (b : Bytes) : Option String :=
  b.toByteArray.utf8Decode?.map fun cs => String.ofList cs.toList

theorem toByteArray_injective : Function.Injective (List.toByteArray) := by
  intro a b h
  have h' := congrArg (fun x : ByteArray => x.data.toList) h
  simpa using h'

@[simp] theorem fromUtf8_utf8 (s : String) : fromUtf8 (utf8 s) = some s := by
  have h : (utf8 s).toByteArray.utf8Decode? = some s.toList.toArray :=
    List.utf8Decode?_utf8Encode (l := s.toList)
  simp [fromUtf8, h]

theorem utf8_of_fromUtf8 {b : Bytes} {s : String} (h : fromUtf8 b = some s) : utf8 s = b := by
  obtain ⟨cs, hcs, rfl⟩ := Option.map_eq_some_iff.1 h
  have hsome : b.toByteArray.utf8Decode?.isSome := by rw [hcs]; rfl
  have hget : (b.toByteArray.utf8Decode?.get hsome) = cs := by simp [hcs]
  have h2 := ByteArray.utf8Encode_get_utf8Decode? (b := b.toByteArray) (h := hsome)
  rw [hget] at h2
  have h3 : cs.toList.flatMap String.utf8EncodeChar = b := toByteArray_injective h2
  simpa [utf8] using h3

theorem utf8_injective : Function.Injective utf8 := by
  intro s t h
  have h' := congrArg fromUtf8 h
  simpa using h'

@[simp] theorem utf8_append (s t : String) : utf8 (s ++ t) = utf8 s ++ utf8 t := by
  simp [utf8]

/-- A byte below 128 is the encoding of the character with that code. -/
theorem toNat_of_mem_utf8EncodeChar {c : Char} {x : UInt8}
    (hx : x ∈ String.utf8EncodeChar c) (hlt : x.toNat < 128) : c.toNat = x.toNat := by
  have hv : c.val.toNat = c.toNat := rfl
  simp only [String.utf8EncodeChar] at hx
  split_ifs at hx with h1 h2 h3 <;> simp only [List.mem_cons, List.not_mem_nil, or_false] at hx
  · subst hx
    simp only [UInt8.toNat_ofNat']
    omega
  · rcases hx with rfl | rfl <;> simp only [UInt8.toNat_ofNat'] at hlt <;> omega
  · rcases hx with rfl | rfl | rfl <;> simp only [UInt8.toNat_ofNat'] at hlt <;> omega
  · rcases hx with rfl | rfl | rfl | rfl <;> simp only [UInt8.toNat_ofNat'] at hlt <;> omega

theorem mem_utf8 {s : String} {x : UInt8} :
    x ∈ utf8 s ↔ ∃ c ∈ s.toList, x ∈ String.utf8EncodeChar c := by
  simp [utf8]

@[simp] theorem utf8_eq_nil {s : String} : utf8 s = [] ↔ s = "" := by
  constructor
  · intro h
    exact utf8_injective (h.trans (by decide : [] = utf8 ""))
  · rintro rfl
    decide

/-! ### File names -/

/-- The byte `/`. -/
def slash : UInt8 := 0x2f

/-- The byte `.`. -/
def dot : UInt8 := 0x2e

/-- What the system accepts as the name of a directory entry. -/
def ValidName (b : Bytes) : Prop :=
  b ≠ [] ∧ slash ∉ b ∧ 0 ∉ b ∧ b ≠ [dot] ∧ b ≠ [dot, dot]

instance (b : Bytes) : Decidable (ValidName b) := by unfold ValidName; infer_instance

/-- The name of a directory entry. -/
structure FileName where
  bytes : Bytes
  valid : ValidName bytes
  deriving DecidableEq

@[ext] theorem FileName.ext {m n : FileName} (h : m.bytes = n.bytes) : m = n := by
  cases m; cases n; cases h; rfl

/-- A string names a file when none of its characters is `/` or NUL and it is not empty, `.` or
`..`. -/
theorem validName_utf8 {s : String} (hne : s ≠ "") (hs : '/' ∉ s.toList)
    (h0 : Char.ofNat 0 ∉ s.toList) (h1 : s ≠ ".") (h2 : s ≠ "..") : ValidName (utf8 s) := by
  have ascii : ∀ (x : UInt8) (d : Char), x.toNat < 128 → d.toNat = x.toNat →
      d ∉ s.toList → x ∉ utf8 s := by
    intro x d hx hd hds hmem
    obtain ⟨c, hc, hxc⟩ := mem_utf8.1 hmem
    have : c = d := Char.toNat_inj.1 ((toNat_of_mem_utf8EncodeChar hxc hx).trans hd.symm)
    exact hds (this ▸ hc)
  refine ⟨by simpa using hne, ascii slash '/' (by decide) (by decide) hs,
    ascii 0 (Char.ofNat 0) (by decide) (by decide) h0, ?_, ?_⟩
  · intro h
    exact h1 (utf8_injective (h.trans (by decide : [dot] = utf8 ".")))
  · intro h
    exact h2 (utf8_injective (h.trans (by decide : [dot, dot] = utf8 "..")))

/-! ### Lossy conversion

A byte string that is not UTF-8 is cut into characters and broken sequences; each broken
sequence, which is a first byte with the continuation bytes that fit it, becomes one U+FFFD. -/

/-- U+FFFD. -/
def replacement : Char := Char.ofNat 0xfffd

/-- Whether `b` lies between `lo` and `hi`. -/
def inRange (lo hi b : UInt8) : Bool := decide (lo ≤ b) && decide (b ≤ hi)

/-- The length of the sequence a first byte announces; `0` for a byte that starts none. -/
def charWidth (b : UInt8) : ℕ :=
  if b < 0x80 then 1
  else if inRange 0xc2 0xdf b then 2
  else if inRange 0xe0 0xef b then 3
  else if inRange 0xf0 0xf4 b then 4
  else 0

/-- Whether a second byte fits the first byte of a sequence of three or four. -/
def secondFits (first second : UInt8) : Bool :=
  if first = 0xe0 then inRange 0xa0 0xbf second
  else if first = 0xed then inRange 0x80 0x9f second
  else if first = 0xf0 then inRange 0x90 0xbf second
  else if first = 0xf4 then inRange 0x80 0x8f second
  else inRange 0x80 0xbf second

/-- How many bytes after the first one fit it. -/
def fitting (first : UInt8) : Bytes → ℕ
  | [] => 0
  | b :: bs =>
    match charWidth first with
    | 2 => if inRange 0x80 0xbf b then 1 else 0
    | 3 => if secondFits first b then 1 + run 1 bs else 0
    | 4 => if secondFits first b then 1 + run 2 bs else 0
    | _ => 0
where
  /-- At most `n` continuation bytes. -/
  run : ℕ → Bytes → ℕ
    | 0, _ => 0
    | _, [] => 0
    | n + 1, b :: bs => if inRange 0x80 0xbf b then 1 + run n bs else 0

/-- The characters of a byte string, with U+FFFD for each broken sequence. -/
def lossyChars : ℕ → Bytes → List Char
  | 0, _ => []
  | _, [] => []
  | fuel + 1, b :: bs =>
    let n := fitting b bs
    match fromUtf8 (b :: bs.take n) with
    | some s => s.toList ++ lossyChars fuel (bs.drop n)
    | none => replacement :: lossyChars fuel (bs.drop n)

/-- The string of a byte string; what is not UTF-8 becomes U+FFFD. -/
def toStringLossy (b : Bytes) : String :=
  match fromUtf8 b with
  | some s => s
  | none => String.ofList (lossyChars b.length b)

@[simp] theorem toStringLossy_utf8 (s : String) : toStringLossy (utf8 s) = s := by
  simp [toStringLossy]

theorem mem_lossyChars {fuel : ℕ} {b : Bytes} {c : Char} (hc : c ∈ lossyChars fuel b) :
    c = replacement ∨ ∀ x ∈ String.utf8EncodeChar c, x ∈ b := by
  induction fuel generalizing b with
  | zero => simp [lossyChars] at hc
  | succ fuel ih =>
    cases b with
    | nil => simp [lossyChars] at hc
    | cons a bs =>
      have hrest : c ∈ lossyChars fuel (bs.drop (fitting a bs)) →
          c = replacement ∨ ∀ x ∈ String.utf8EncodeChar c, x ∈ a :: bs := fun h =>
        (ih h).imp_right fun h x hx => List.mem_cons_of_mem _ (List.mem_of_mem_drop (h x hx))
      simp only [lossyChars] at hc
      cases hd : fromUtf8 (a :: bs.take (fitting a bs)) with
      | none =>
        simp only [hd, List.mem_cons] at hc
        exact hc.elim Or.inl hrest
      | some s =>
        simp only [hd, List.mem_append] at hc
        refine hc.elim (fun h => Or.inr fun x hx => ?_) hrest
        have hmem : x ∈ a :: bs.take (fitting a bs) :=
          utf8_of_fromUtf8 hd ▸ mem_utf8.2 ⟨c, h, hx⟩
        exact (List.mem_cons.1 hmem).elim (fun h => h ▸ List.mem_cons_self)
          fun h => List.mem_cons_of_mem _ (List.mem_of_mem_take h)

/-- Without a replacement the conversion has lost nothing. -/
theorem utf8_lossyChars {fuel : ℕ} {b : Bytes} (hlen : b.length ≤ fuel)
    (hr : replacement ∉ lossyChars fuel b) :
    (lossyChars fuel b).flatMap String.utf8EncodeChar = b := by
  induction fuel generalizing b with
  | zero =>
    have : b = [] := List.length_eq_zero_iff.1 (by omega)
    simp [this, lossyChars]
  | succ fuel ih =>
    cases b with
    | nil => simp [lossyChars]
    | cons a bs =>
      have hlen' : (bs.drop (fitting a bs)).length ≤ fuel := by
        simp only [List.length_cons, List.length_drop] at hlen ⊢
        omega
      simp only [lossyChars] at hr ⊢
      cases hd : fromUtf8 (a :: bs.take (fitting a bs)) with
      | none => simp [hd] at hr
      | some s =>
        simp only [hd, List.mem_append, not_or] at hr
        have hs : s.toList.flatMap String.utf8EncodeChar = a :: bs.take (fitting a bs) :=
          utf8_of_fromUtf8 hd
        simp only [List.flatMap_append, ih hlen' hr.2, hs, List.cons_append,
          List.take_append_drop]

/-- The lossy form of a file name is a file name. -/
theorem validName_toStringLossy {b : Bytes} (hb : ValidName b) :
    ValidName (utf8 (toStringLossy b)) := by
  cases hd : fromUtf8 b with
  | some s =>
    have : toStringLossy b = s := by simp [toStringLossy, hd]
    rw [this, utf8_of_fromUtf8 hd]
    exact hb
  | none =>
    have hl : toStringLossy b = String.ofList (lossyChars b.length b) := by
      simp [toStringLossy, hd]
    -- a result without U+FFFD would be the decoding that `b` does not have
    have hr : replacement ∈ (toStringLossy b).toList := by
      by_contra hr
      rw [hl, String.toList_ofList] at hr
      have hu : utf8 (toStringLossy b) = b := by
        rw [hl, utf8, String.toList_ofList]
        exact utf8_lossyChars (Nat.le_refl _) hr
      rw [← hu, fromUtf8_utf8] at hd
      cases hd
    have hch : ∀ d : Char, d ≠ replacement → ∀ x ∈ String.utf8EncodeChar d, x ∉ b →
        d ∉ (toStringLossy b).toList := by
      intro d hd x hx hxb hmem
      rw [hl, String.toList_ofList] at hmem
      exact (mem_lossyChars hmem).elim hd fun h => hxb (h x hx)
    have hne : ∀ t : String, replacement ∉ t.toList → toStringLossy b ≠ t := fun t ht h =>
      ht (h ▸ hr)
    exact validName_utf8 (hne _ (by decide))
      (hch '/' (by decide) slash (by decide) hb.2.1)
      (hch (Char.ofNat 0) (by decide) 0 (by decide) hb.2.2.1)
      (hne _ (by decide)) (hne _ (by decide))

/-! ### Paths -/

/-- A component of a path. A component with a NUL byte names nothing. -/
inductive Comp
  | name (n : FileName)
  | parent
  | nul (b : Bytes)
  deriving DecidableEq

/-- A path, from the root. -/
abbrev PathBuf := List Comp

/-- Split a byte string at `/`. -/
def splitSlash : Bytes → List Bytes
  | [] => [[]]
  | b :: bs =>
    if b = slash then [] :: splitSlash bs
    else
      match splitSlash bs with
      | [] => [[b]]
      | p :: ps => (b :: p) :: ps

/-- The component a piece between slashes stands for; empty pieces and `.` stand for none. -/
def Comp.ofBytes (b : Bytes) : Option Comp :=
  if b = [] ∨ b = [dot] then none
  else if b = [dot, dot] then some .parent
  else if h : ValidName b then some (.name ⟨b, h⟩)
  else some (.nul b)

/-- The components of a byte string. -/
def components (b : Bytes) : PathBuf := (splitSlash b).filterMap Comp.ofBytes

/-- Whether a byte string is an absolute path. -/
def isAbsolute (b : Bytes) : Bool := b.head? == some slash

/-- `Path::join`: an absolute path replaces the path it is joined to. -/
def PathBuf.join (p : PathBuf) (b : Bytes) : PathBuf :=
  if isAbsolute b then components b else p ++ components b

/-- The bytes of a component. -/
def Comp.bytes : Comp → Bytes
  | .name n => n.bytes
  | .parent => [dot, dot]
  | .nul b => b

/-- `Path::display`. -/
def PathBuf.display (p : PathBuf) : String :=
  if p = [] then "/" else toStringLossy (p.flatMap fun c => slash :: c.bytes)

/-- `Path::parent`. -/
def PathBuf.parent (p : PathBuf) : Option PathBuf := if p = [] then none else some p.dropLast

/-- The bytes before the last dot of a file name and the bytes after it; a name without a dot,
or with its only dot in front, has no second part. -/
def splitExtension (b : Bytes) : Bytes × Option Bytes :=
  let after := (b.reverse.takeWhile (· ≠ dot)).reverse
  match (b.reverse.dropWhile (· ≠ dot)).reverse.dropLast with
  | [] => (b, none)
  | before => (before, some after)

/-- `Path::file_stem` of a file name. -/
def fileStem (b : Bytes) : Bytes := (splitExtension b).1

/-- `Path::extension` of a file name. -/
def extension (b : Bytes) : Option Bytes := (splitExtension b).2

/-- A file name with its extension replaced. -/
def FileName.withExtension (n : FileName) (ext : Bytes) : Comp :=
  (Comp.ofBytes (fileStem n.bytes ++ dot :: ext)).getD (.nul [])

/-- `Path::with_extension`; a path without a file name is left as it is. -/
def PathBuf.withExtension (p : PathBuf) (ext : Bytes) : PathBuf :=
  match p.getLast? with
  | some (.name n) => p.dropLast ++ [n.withExtension ext]
  | _ => p

theorem splitSlash_of_notMem {b : Bytes} (h : slash ∉ b) : splitSlash b = [b] := by
  induction b with
  | nil => rfl
  | cons a bs ih =>
    simp only [List.mem_cons, not_or] at h
    simp [splitSlash, ih h.2, Ne.symm h.1]

theorem Comp.ofBytes_of_valid {b : Bytes} (h : ValidName b) :
    Comp.ofBytes b = some (.name ⟨b, h⟩) := by
  simp [Comp.ofBytes, h.1, h.2.2.2.1, h.2.2.2.2, h]

theorem components_of_valid {b : Bytes} (h : ValidName b) :
    components b = [.name ⟨b, h⟩] := by
  simp [components, splitSlash_of_notMem h.2.1, Comp.ofBytes_of_valid h]

theorem isAbsolute_of_valid {b : Bytes} (h : ValidName b) : isAbsolute b = false := by
  cases b with
  | nil => rfl
  | cons a bs =>
    have : a ≠ slash := fun ha => h.2.1 (ha ▸ List.mem_cons_self)
    simp [isAbsolute, this]

/-- Joining a file name appends it. -/
theorem PathBuf.join_of_valid (p : PathBuf) {b : Bytes} (h : ValidName b) :
    p.join b = p ++ [.name ⟨b, h⟩] := by
  simp [PathBuf.join, isAbsolute_of_valid h, components_of_valid h]

@[simp] theorem PathBuf.withExtension_concat (p : PathBuf) (n : FileName) (ext : Bytes) :
    PathBuf.withExtension (p ++ [.name n]) ext = p ++ [n.withExtension ext] := by
  simp [PathBuf.withExtension]

end Posix
