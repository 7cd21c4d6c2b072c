import Mathlib.Data.List.Basic

/-!
# Paths on Windows

The path rules of `std::path` on Windows: a path has a prefix, such as a drive, may have a root, and
has components.

* `Prefix`, `Comp`, `Path`: the parts of a path;
* `parsePrefix`, `parse`: how a string is taken apart;
* `Path.join`, `Path.withExtension`: `Path::join` and `Path::with_extension`;
* `parse_plain`, `parse_drive`: a string without separators is the name of an entry, **unless it
  starts with a drive**.
-/

namespace Windows

/-- `is_sep_byte`. -/
def isSep (c : Char) : Bool := c == '\\' || c == '/'

/-- `std::path::Prefix`. -/
inductive Prefix
  | verbatim (name : List Char)
  | verbatimUnc (server share : List Char)
  | verbatimDisk (letter : Char)
  | deviceNs (name : List Char)
  | unc (server share : List Char)
  | disk (letter : Char)
  deriving DecidableEq

namespace Prefix

/-- `is_verbatim`. -/
def isVerbatim : Prefix → Bool
  | .verbatim _ | .verbatimUnc .. | .verbatimDisk _ => true
  | _ => false

/-- `is_drive`. -/
def isDrive : Prefix → Bool
  | .disk _ => true
  | _ => false

/-- `len`. -/
def len : Prefix → ℕ
  | .verbatim x | .deviceNs x => 4 + x.length
  | .verbatimUnc x y => 8 + x.length + if y = [] then 0 else 1 + y.length
  | .verbatimDisk _ => 6
  | .unc x y => 2 + x.length + if y = [] then 0 else 1 + y.length
  | .disk _ => 2

end Prefix

/-- The parts of a path behind its root. -/
inductive Comp
  | curDir
  | parentDir
  | normal (name : List Char)
  deriving DecidableEq

/-- A path, taken apart. -/
@[ext] structure Path where
  pre : Option Prefix
  root : Bool
  comps : List Comp
  deriving DecidableEq

/-! ### Parsing -/

/-- `parse_drive`. -/
def driveLetter : List Char → Option Char
  | c :: ':' :: _ => if c.isAlpha then some c.toUpper else none
  | _ => none

/-- `parse_drive_exact`. -/
def driveExact (s : List Char) : Option Char :=
  if (s.drop 2).head?.all isSep then driveLetter s else none

/-- `parse_next_component`. -/
def nextComponent (sep : Char → Bool) (s : List Char) : List Char × List Char :=
  (s.takeWhile (!sep ·), (s.dropWhile (!sep ·)).drop 1)

/-- A prefix behind `\\?\`. -/
def parseVerbatim (s : List Char) : Prefix :=
  match s with
  | 'U' :: 'N' :: 'C' :: c :: r =>
    if isSep c then
      let (server, r) := nextComponent (· == '\\') r
      .verbatimUnc server (nextComponent (· == '\\') r).1
    else .verbatim (nextComponent (· == '\\') s).1
  | _ =>
    match driveExact s with
    | some letter => .verbatimDisk letter
    | none => .verbatim (nextComponent (· == '\\') s).1

/-- A prefix behind `\\`. -/
def parseUnc (s : List Char) : Option Prefix :=
  let (server, r) := nextComponent isSep s
  let share := (nextComponent isSep r).1
  if server ≠ [] ∧ share ≠ [] then some (.unc server share) else none

/-- `parse_prefix`. -/
def parsePrefix : List Char → Option Prefix
  | a :: b :: rest =>
    if isSep a && isSep b then
      match rest with
      | '?' :: c :: r =>
        if a == '\\' && b == '\\' && c == '\\' then some (parseVerbatim r) else parseUnc rest
      | '.' :: c :: r =>
        if isSep c then some (.deviceNs (nextComponent isSep r).1) else parseUnc rest
      | _ => parseUnc rest
    else (driveLetter (a :: b :: rest)).map .disk
  | _ => none

/-- `parse_single_component`. -/
def parseComponent (verbatim : Bool) (s : List Char) : Option Comp :=
  if s = [] then none
  else if s = ['.'] then if verbatim then some .curDir else none
  else if s = ['.', '.'] then some .parentDir
  else some (.normal s)

/-- `Path::components`. -/
def parse (s : List Char) : Path :=
  let pre := parsePrefix s
  let verbatim := pre.any Prefix.isVerbatim
  let sep : Char → Bool := if verbatim then (· == '\\') else isSep
  let rest := s.drop ((pre.map Prefix.len).getD 0)
  let root := rest.head?.any sep || pre.any (!Prefix.isDrive ·)
  let here := !root && rest.head? == some '.' && (rest.drop 1).head?.all sep
  ⟨pre, root, (if here then [.curDir] else []) ++
    (rest.splitOnP sep).filterMap (parseComponent verbatim)⟩

/-! ### Operations -/

/-- A string that can be the name of an entry. -/
structure IsName (s : List Char) : Prop where
  sep : ∀ c ∈ s, isSep c = false
  nil : s ≠ []
  dot : s ≠ ['.']
  dots : s ≠ ['.', '.']

/-- A check of all letters at once, which can be evaluated. -/
theorem sep_of_any {s : List Char} (h : s.any isSep = false) : ∀ c ∈ s, isSep c = false := by
  intro c hc
  simpa only [Bool.not_eq_true] using List.any_eq_false.1 h c hc

namespace Path

/-- `Path::is_absolute`. -/
def isAbsolute (p : Path) : Bool := p.root && p.pre.isSome

/-- One component is pushed to a verbatim path. -/
def pushVerbatim (cs : List Comp) : Comp → List Comp
  | .curDir => cs
  | .parentDir =>
    match cs.getLast? with
    | some (.normal _) => cs.dropLast
    | _ => cs
  | .normal name => cs ++ [.normal name]

/-- `Path::join`. -/
def join (p q : Path) : Path :=
  if q.isAbsolute || q.pre.isSome then q
  else if p.pre.any Prefix.isVerbatim then
    ⟨p.pre, p.root || q.root, q.comps.foldl pushVerbatim (if q.root then [] else p.comps)⟩
  else if q.root then ⟨p.pre, true, q.comps⟩
  else if p = ⟨none, false, []⟩ then q
  else ⟨p.pre, p.root, p.comps ++ q.comps.filter (· ≠ .curDir)⟩

/-- `Path::file_stem` of a file name. -/
def stem (s : List Char) : List Char :=
  match (s.reverse.dropWhile (· ≠ '.')).reverse.dropLast with
  | [] => s
  | before => before

/-- `Path::with_extension`. -/
def withExtension (p : Path) (ext : List Char) : Path :=
  match p.comps.getLast? with
  | some (.normal name) =>
    { p with comps := p.comps.dropLast ++ [.normal (stem name ++ '.' :: ext)] }
  | _ => p

/-- `p` is the path of an entry of `dir`. -/
def ChildOf (dir p : Path) : Prop :=
  ∃ name, IsName name ∧ p = { dir with comps := dir.comps ++ [.normal name] }

end Path

/-! ### Strings without separators -/

section Plain

variable {s : List Char}

theorem parsePrefix_plain (hsep : ∀ c ∈ s, isSep c = false) :
    parsePrefix s = (driveLetter s).map .disk := by
  match s with
  | [] => rfl
  | [a] => rfl
  | a :: b :: rest =>
    have ha : isSep a = false := hsep a List.mem_cons_self
    have hno : (isSep a && isSep b) = false := by rw [ha, Bool.false_and]
    show (if (isSep a && isSep b) = true then _ else _) = _
    rw [if_neg (by simp [hno])]

theorem splitOnP_plain (hsep : ∀ c ∈ s, isSep c = false) : s.splitOnP isSep = [s] :=
  List.splitOnP_eq_singleton fun c hc => by simp [hsep c hc]

/-- The string does not start with `.` as a component of its own, unless it is `.`. -/
theorem here_plain (hsep : ∀ c ∈ s, isSep c = false) :
    (s.head? == some '.' && (s.drop 1).head?.all isSep) = decide (s = ['.']) := by
  match s with
  | [] => rfl
  | [c] =>
    rw [show ([c] : List Char).head? = some c from rfl]
    by_cases hc : c = '.' <;> simp [hc]
  | c :: c' :: s =>
    have hc' : isSep c' = false := hsep c' (by simp)
    simp [hc']

theorem root_plain (hsep : ∀ c ∈ s, isSep c = false) : s.head?.any isSep = false := by
  cases s with
  | nil => rfl
  | cons c s => exact hsep c List.mem_cons_self

/-- A name is taken for a name, when it does not start with a drive. -/
theorem parse_plain (h : IsName s) (hdrive : driveLetter s = none) :
    parse s = ⟨none, false, [.normal s]⟩ := by
  have hpre : parsePrefix s = none := by rw [parsePrefix_plain h.sep, hdrive]; rfl
  have hcomp : parseComponent false s = some (.normal s) := by
    rw [parseComponent, if_neg h.nil, if_neg h.dot, if_neg h.dots]
  have hhere := here_plain h.sep
  rw [decide_eq_false h.dot] at hhere
  simp only [parse, hpre, Option.any_none, Option.map_none, Option.getD_none, List.drop_zero,
    Bool.false_eq_true, if_false, root_plain h.sep, Bool.or_false, Bool.not_false, Bool.true_and,
    hhere, splitOnP_plain h.sep, List.filterMap_cons, hcomp, List.filterMap_nil, List.nil_append]

/-- No string without separators is an absolute path. -/
theorem isAbsolute_plain (hsep : ∀ c ∈ s, isSep c = false) : (parse s).isAbsolute = false := by
  have hrest : ∀ c ∈ s.drop 2, isSep c = false := fun c hc => hsep c (List.mem_of_mem_drop hc)
  have hpre := parsePrefix_plain hsep
  rw [Path.isAbsolute, Bool.and_eq_false_iff]
  cases hdrive : driveLetter s with
  | none =>
    rw [hdrive] at hpre
    right
    simp only [parse, hpre, Option.map_none, Option.isSome_none]
  | some letter =>
    rw [hdrive] at hpre
    left
    simp only [parse, hpre, Option.map_some, Option.any_some, Prefix.isVerbatim,
      Bool.false_eq_true, if_false, Option.getD_some, Prefix.len, root_plain hrest, Prefix.isDrive,
      Bool.not_true, Bool.or_false]

/-- A string that starts with a drive is a path on it, with at most one component. -/
theorem parse_drive (hsep : ∀ c ∈ s, isSep c = false) {letter : Char}
    (hdrive : driveLetter s = some letter) :
    (parse s).pre = some (.disk letter) ∧ (parse s).comps.length ≤ 1 := by
  have hpre : parsePrefix s = some (.disk letter) := by rw [parsePrefix_plain hsep, hdrive]; rfl
  have hrest : ∀ c ∈ s.drop 2, isSep c = false := fun c hc => hsep c (List.mem_of_mem_drop hc)
  refine ⟨hpre, ?_⟩
  have hhere := here_plain hrest
  simp only [parse, hpre, Option.any_some, Prefix.isVerbatim, Bool.false_eq_true, if_false,
    Option.map_some, Option.getD_some, Prefix.len, splitOnP_plain hrest, root_plain hrest,
    Prefix.isDrive, Bool.not_true, Bool.or_false, Bool.not_false, Bool.true_and, hhere,
    List.length_append]
  by_cases hdot : s.drop 2 = ['.']
  · rw [hdot]
    decide
  · simp only [hdot, decide_false, Bool.false_eq_true, if_false, List.length_nil, Nat.zero_add]
    exact List.length_filterMap_le _ _

end Plain

/-! ### Entries of a directory -/

namespace Path

variable {p : Path} {s : List Char}

/-- A name is put behind a path. -/
theorem join_name (p : Path) (s : List Char) :
    p.join ⟨none, false, [.normal s]⟩ = { p with comps := p.comps ++ [.normal s] } := by
  have hrel : ((⟨none, false, [.normal s]⟩ : Path).isAbsolute ||
      (⟨none, false, [.normal s]⟩ : Path).pre.isSome) ≠ true := by simp [isAbsolute]
  unfold join
  rw [if_neg hrel]
  by_cases hverbatim : p.pre.any Prefix.isVerbatim = true
  · rw [if_pos hverbatim]
    simp [pushVerbatim]
  · rw [if_neg hverbatim, if_neg (by simp)]
    by_cases hempty : p = ⟨none, false, []⟩
    · rw [if_pos hempty, hempty]
      rfl
    · rw [if_neg hempty]
      simp

/-- What starts with a drive takes the place of a path. -/
theorem join_of_pre {q : Path} (h : q.pre.isSome) : p.join q = q := by
  unfold join
  rw [if_pos (by rw [h, Bool.or_true])]

theorem stem_ne_nil (hs : s ≠ []) : stem s ≠ [] := by
  unfold stem
  split
  · exact hs
  · assumption

theorem mem_stem {c : Char} (h : c ∈ stem s) : c ∈ s := by
  unfold stem at h
  split at h
  · exact h
  · have h := List.dropLast_subset _ h
    rw [List.mem_reverse] at h
    exact List.mem_reverse.1 ((List.dropWhile_sublist _).subset h)

/-- The name of the file with another extension. -/
theorem isName_extended {ext : List Char} (h : IsName s) (hext : ∀ c ∈ ext, isSep c = false)
    (hlen : 1 < ext.length) : IsName (stem s ++ '.' :: ext) where
  sep c hc := by
    rcases List.mem_append.1 hc with hc | hc
    · exact h.sep c (mem_stem hc)
    · rcases List.mem_cons.1 hc with rfl | hc
      · rfl
      · exact hext c hc
  nil h0 := by simpa using congrArg List.length h0
  dot h0 := by
    have hl := congrArg List.length h0
    simp only [List.length_append, List.length_cons, List.length_nil] at hl
    omega
  dots h0 := by
    have hl := congrArg List.length h0
    simp only [List.length_append, List.length_cons, List.length_nil] at hl
    omega

theorem withExtension_name (ext : List Char) :
    withExtension { p with comps := p.comps ++ [.normal s] } ext =
      { p with comps := p.comps ++ [.normal (stem s ++ '.' :: ext)] } := by
  unfold withExtension
  simp

end Path

end Windows
