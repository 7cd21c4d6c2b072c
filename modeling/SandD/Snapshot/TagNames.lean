import SandD.Snapshot.Names
import SandD.Windows.Path

/-!
# Tags as file names

A tag is the name of its ref, on Unix and on Windows.

* `accepted_iff`: the strings that `validateTagName` accepts, and `accepted_windows_iff`: the same
  ones on Windows;
* `windowsTagFile`, `windowsTempFile`: the paths on Windows;
* `SafeTag`: the paths of a tag are those of entries of the tag directory, and those of no other
  tag;
* `safeTag_iff`: **an accepted tag is safe exactly when it does not start with a drive**.
-/

namespace SandD

open Posix SnapshotManager

/-! ### Accepted tags -/

/-- What is demanded of a tag. -/
structure Accepted (tag : String) : Prop where
  nonempty : tag ≠ ""
  traversal : ¬ ['.', '.'] <:+: tag.toList
  slash : '/' ∉ tag.toList
  backslash : '\\' ∉ tag.toList
  dot : tag ≠ "."
  dots : tag ≠ ".."
  control : (tag.toList.any fun c => isControl c || c == Char.ofNat 0) = false

/-- Absolute paths have separators. -/
theorem isAbsolute_of_notMem {tag : String} (h : '/' ∉ tag.toList) :
    isAbsolute (utf8 tag) = false := by
  cases hb : utf8 tag with
  | nil => rfl
  | cons x b =>
    by_contra habs
    have hx : x = Posix.slash := by simpa [isAbsolute] using habs
    obtain ⟨c, hc, hmem⟩ := mem_utf8.1 (hb ▸ List.mem_cons_self : x ∈ utf8 tag)
    rw [hx] at hmem
    have hslash : c = '/' := Char.toNat_inj.1 (toNat_of_mem_utf8EncodeChar hmem (by decide))
    exact h (hslash ▸ hc)

theorem accepted_iff {tag : String} : validateTagName tag = .ok () ↔ Accepted tag := by
  constructor
  · intro h
    unfold validateTagName at h
    split_ifs at h with h₁ h₂ h₃ h₄ h₅ h₆
    exact ⟨h₁, h₃, fun hc => h₄ (.inl hc), fun hc => h₄ (.inr hc), fun hc => h₅ (.inl hc),
      fun hc => h₅ (.inr hc), by simpa using h₆⟩
  · intro h
    unfold validateTagName
    rw [if_neg h.nonempty, if_neg (by simp [isAbsolute_of_notMem h.slash]), if_neg h.traversal,
      if_neg (not_or.2 ⟨h.slash, h.backslash⟩), if_neg (not_or.2 ⟨h.dot, h.dots⟩),
      if_neg (by simp [h.control])]

/-- `validate_tag_name` on Windows. -/
def validateTagNameWindows (tag : String) : Except Error Unit :=
  if tag = "" then .error (.bail "Tag name cannot be empty")
  else if (Windows.parse tag.toList).isAbsolute then
    .error (.bail s!"Tag '{tag}' is an absolute path")
  else if ['.', '.'] <:+: tag.toList then
    .error (.bail s!"Tag '{tag}' contains path traversal sequence")
  else if '/' ∈ tag.toList ∨ '\\' ∈ tag.toList then
    .error (.bail s!"Tag '{tag}' contains path separators")
  else if tag = "." ∨ tag = ".." then .error (.bail s!"Tag '{tag}' is a reserved name")
  else if tag.toList.any fun c => isControl c || c == Char.ofNat 0 then
    .error (.bail s!"Tag '{tag}' contains invalid characters")
  else .ok ()

namespace Accepted

variable {tag : String}

theorem sep (h : Accepted tag) : ∀ c ∈ tag.toList, Windows.isSep c = false := by
  intro c hc
  have hslash : c ≠ '/' := fun heq => h.slash (heq ▸ hc)
  have hback : c ≠ '\\' := fun heq => h.backslash (heq ▸ hc)
  simp [Windows.isSep, hslash, hback]

theorem isName (h : Accepted tag) : Windows.IsName tag.toList where
  sep := h.sep
  nil h0 := h.nonempty (String.toList_injective h0)
  dot h0 := h.dot (String.toList_injective h0)
  dots h0 := h.dots (String.toList_injective h0)

end Accepted

/-- On Windows the same strings are accepted. -/
theorem accepted_windows_iff {tag : String} :
    validateTagNameWindows tag = .ok () ↔ Accepted tag := by
  constructor
  · intro h
    unfold validateTagNameWindows at h
    split_ifs at h with h₁ h₂ h₃ h₄ h₅ h₆
    exact ⟨h₁, h₃, fun hc => h₄ (.inl hc), fun hc => h₄ (.inr hc), fun hc => h₅ (.inl hc),
      fun hc => h₅ (.inr hc), by simpa using h₆⟩
  · intro h
    unfold validateTagNameWindows
    rw [if_neg h.nonempty, if_neg (by simp [Windows.isAbsolute_plain h.sep]), if_neg h.traversal,
      if_neg (not_or.2 ⟨h.slash, h.backslash⟩), if_neg (not_or.2 ⟨h.dot, h.dots⟩),
      if_neg (by simp [h.control])]

/-! ### Paths -/

/-- The tag directory on Windows. -/
def windowsTagsDir (root : Windows.Path) : Windows.Path :=
  (root.join (Windows.parse "refs".toList)).join (Windows.parse "tags".toList)

/-- The path of a ref on Windows. -/
def windowsTagFile (root : Windows.Path) (tag : String) : Windows.Path :=
  (windowsTagsDir root).join (Windows.parse tag.toList)

/-- The path of the temporary file for a ref on Windows. -/
def windowsTempFile (root : Windows.Path) (tag : String) : Windows.Path :=
  (windowsTagFile root tag).withExtension "tmp".toList

/-- The path of a ref on Unix. -/
def tagFile (root : PathBuf) (tag : String) : PathBuf := (ofRoot root).tagsDir.join (utf8 tag)

/-- The path of the temporary file for a ref on Unix. -/
def tempFile (root : PathBuf) (tag : String) : PathBuf :=
  (tagFile root tag).withExtension (utf8 "tmp")

/-- The path of an entry of a directory. -/
def ChildOf (dir p : PathBuf) : Prop := ∃ n : FileName, p = dir ++ [.name n]

/-- The paths of a tag are those of entries of the tag directory, and no other accepted tag has the
same ref. -/
structure SafeTag (root : PathBuf) (windowsRoot : Windows.Path) (tag : String) : Prop where
  ref : ChildOf (ofRoot root).tagsDir (tagFile root tag)
  temp : ChildOf (ofRoot root).tagsDir (tempFile root tag)
  distinct : ∀ other, validateTagName other = .ok () → other ≠ tag →
    tagFile root other ≠ tagFile root tag
  windowsRef : Windows.Path.ChildOf (windowsTagsDir windowsRoot) (windowsTagFile windowsRoot tag)
  windowsTemp : Windows.Path.ChildOf (windowsTagsDir windowsRoot) (windowsTempFile windowsRoot tag)
  windowsDistinct : ∀ other, validateTagNameWindows other = .ok () → other ≠ tag →
    windowsTagFile windowsRoot other ≠ windowsTagFile windowsRoot tag

section Unix

variable (root : PathBuf) {tag : String}

theorem tagFile_eq (h : validateTagName tag = .ok ()) : tagFile root tag =
    (ofRoot root).tagsDir ++ [.name ⟨utf8 tag, validName_of_validateTagName h⟩] :=
  PathBuf.join_of_valid _ (validName_of_validateTagName h)

theorem tempFile_eq (h : validateTagName tag = .ok ()) :
    tempFile root tag = (ofRoot root).tagsDir ++
      [.name (FileName.temp ⟨utf8 tag, validName_of_validateTagName h⟩)] := by
  rw [tempFile, tagFile_eq root h, PathBuf.withExtension_concat, FileName.withExtension_tmp]

end Unix

section OnWindows

variable (root : Windows.Path) {tag : String}

theorem windowsTagsDir_comps : (windowsTagsDir root).comps =
    root.comps ++ [.normal "refs".toList, .normal "tags".toList] := by
  have hrefs : Windows.IsName "refs".toList :=
    ⟨Windows.sep_of_any (by decide), by decide, by decide, by decide⟩
  have htags : Windows.IsName "tags".toList :=
    ⟨Windows.sep_of_any (by decide), by decide, by decide, by decide⟩
  rw [windowsTagsDir, Windows.parse_plain hrefs (by decide),
    Windows.parse_plain htags (by decide), Windows.Path.join_name, Windows.Path.join_name,
    List.append_assoc]
  rfl

theorem windowsTagFile_eq (h : Accepted tag) (hdrive : Windows.driveLetter tag.toList = none) :
    windowsTagFile root tag = { windowsTagsDir root with
      comps := (windowsTagsDir root).comps ++ [.normal tag.toList] } := by
  rw [windowsTagFile, Windows.parse_plain h.isName hdrive, Windows.Path.join_name]

/-- A tag that starts with a drive leads out of the directory. -/
theorem windowsTagFile_drive (h : Accepted tag) {letter : Char}
    (hdrive : Windows.driveLetter tag.toList = some letter) :
    (windowsTagFile root tag).comps.length ≤ 1 := by
  obtain ⟨hpre, hlen⟩ := Windows.parse_drive h.sep hdrive
  rwa [windowsTagFile, Windows.Path.join_of_pre (by rw [hpre]; rfl)]

theorem not_childOf_drive (h : Accepted tag) {letter : Char}
    (hdrive : Windows.driveLetter tag.toList = some letter) :
    ¬ Windows.Path.ChildOf (windowsTagsDir root) (windowsTagFile root tag) := by
  rintro ⟨name, -, heq⟩
  have hlen := windowsTagFile_drive root h hdrive
  rw [heq, windowsTagsDir_comps] at hlen
  simp only [List.length_append, List.length_cons, List.length_nil] at hlen
  omega

end OnWindows

/-- **An accepted tag is safe if and only if it does not start with a drive.** -/
theorem safeTag_iff (root : PathBuf) (windowsRoot : Windows.Path) {tag : String}
    (h : validateTagName tag = .ok ()) :
    SafeTag root windowsRoot tag ↔ Windows.driveLetter tag.toList = none := by
  have hacc := accepted_iff.1 h
  constructor
  · intro hsafe
    cases hdrive : Windows.driveLetter tag.toList with
    | none => rfl
    | some letter => exact absurd hsafe.windowsRef (not_childOf_drive windowsRoot hacc hdrive)
  · intro hdrive
    have hfile := windowsTagFile_eq windowsRoot hacc hdrive
    have htemp : Windows.IsName (Windows.Path.stem tag.toList ++ '.' :: "tmp".toList) :=
      Windows.Path.isName_extended hacc.isName (Windows.sep_of_any (by decide)) (by decide)
    refine ⟨⟨_, tagFile_eq root h⟩, ⟨_, tempFile_eq root h⟩, fun other hother hne heq => ?_,
      ⟨_, hacc.isName, hfile⟩,
      ⟨_, htemp, by rw [windowsTempFile, hfile, Windows.Path.withExtension_name]⟩,
      fun other hother hne heq => ?_⟩
    · rw [tagFile_eq root hother, tagFile_eq root h] at heq
      simp only [List.append_cancel_left_eq, List.cons.injEq, Comp.name.injEq, FileName.mk.injEq,
        and_true] at heq
      exact hne (utf8_injective heq)
    · have hacc' := accepted_windows_iff.1 hother
      cases hdrive' : Windows.driveLetter other.toList with
      | none =>
        rw [windowsTagFile_eq windowsRoot hacc' hdrive', hfile] at heq
        have hcomps := congrArg Windows.Path.comps heq
        simp only [List.append_cancel_left_eq, List.cons.injEq, Windows.Comp.normal.injEq,
          and_true] at hcomps
        exact hne (String.toList_injective hcomps)
      | some letter =>
        have hlen := windowsTagFile_drive windowsRoot hacc' hdrive'
        rw [heq, hfile, windowsTagsDir_comps] at hlen
        simp only [List.length_append, List.length_cons, List.length_nil] at hlen
        omega

/-- The tag directory of `C:\\s`. -/
def sampleWindowsRoot : Windows.Path := Windows.parse "C:\\s".toList

theorem safeTag_sample : SafeTag [] sampleWindowsRoot "v1.0" :=
  (safeTag_iff [] sampleWindowsRoot (by decide)).2 (by decide)

/-- The tag `D:x` is accepted, and its ref is not in the tag directory. -/
theorem unsafe_drive_tag : validateTagName "D:x" = .ok () ∧ validateTagNameWindows "D:x" = .ok () ∧
    windowsTagFile sampleWindowsRoot "D:x" = ⟨some (.disk 'D'), false, [.normal ['x']]⟩ ∧
    ¬ SafeTag [] sampleWindowsRoot "D:x" := by
  have hacc : Accepted "D:x" := accepted_iff.1 (by decide)
  have hdrive : Windows.driveLetter "D:x".toList = some 'D' := by decide
  refine ⟨by decide, by decide, by decide, fun h => ?_⟩
  exact not_childOf_drive sampleWindowsRoot hacc hdrive h.windowsRef

end SandD
