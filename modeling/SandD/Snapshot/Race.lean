import SandD.Posix.Slices
import SandD.Snapshot.Busy

/-!
# Two puts of one content

Two calls that put the same content into one store use the same temporary file.  The operations
are cut into system calls, and the calls of the two processes may come in any order.

* `RaceInv`: what holds of the store all the time;
* `Turned`: what a call of one process does to the other;
* `racer`: the part of a process; a file is opened for writing only when the other process has
  not opened it last;
* `puts_race`: **then both return the hash, and nothing but the whole content is ever read**;
* `truncated_object`: otherwise an empty object may come of it, and an error.
-/

namespace SandD

open Posix ObjectStore
open Fallible (Ends)
open Party (Holds)
open CallM (call)

/-- What holds of the store while its object `k` is put. -/
structure RaceInv (root : Loc) (k : Key) (content : Bytes) (s : Shared) : Prop where
  clear : Clear s.fs (objectsDir root)
  way : Vacant s.fs [] (k.shardLoc root)
  temp : s.fs.lookup (k.tempLoc root) = none ∨
    ∃ d m t, s.fs.lookup (k.tempLoc root) = some (.file d m t)
  object : ∀ nd, s.fs.lookup (k.loc root) = some nd → ∃ m t, nd = .file content m t
  names : ∀ i h v, s.opened i = some h → h.place = some v → v = k.tempLoc root ∨ v = k.loc root
  /-- the temporary file is open in one process only -/
  one : ∀ i n n', s.opened i = some ⟨some (k.tempLoc root), n⟩ →
    s.opened i.other ≠ some ⟨some (k.tempLoc root), n'⟩

/-- What stays in the file system when the object `k` is put. -/
structure Onward (root : Loc) (k : Key) (fs fs' : FS) : Prop where
  keeps : ∀ v, FS.Keeps fs fs' v
  object : (fs.lookup (k.loc root)).isSome → (fs'.lookup (k.loc root)).isSome
  files : ∀ v data m t, v ≠ k.tempLoc root → fs.lookup v = some (.file data m t) →
    ∃ m' t', fs'.lookup v = some (.file data m' t')

/-- What a call of the process `i` has done, as the other one sees it. -/
structure Turned (root : Loc) (k : Key) (content : Bytes) (i : Side) (s s' : Shared) : Prop where
  inv : RaceInv root k content s'
  onward : Onward root k s.fs s'.fs
  closed : s.opened i.other = none → s'.opened i.other = none
  mine : ∀ n, s.opened i.other = some ⟨some (k.tempLoc root), n⟩ →
    s'.opened i.other = some ⟨some (k.tempLoc root), n⟩ ∧
      s'.fs.lookup (k.tempLoc root) = s.fs.lookup (k.tempLoc root)

/-- A file is opened for writing when the other process has not opened it last. -/
def Opens (i : Side) : SysCall → Shared → Prop
  | .openWrite p _, s => ∀ h ∈ s.opened i.other, ∀ v ∈ h.place, s.fs.resolve true p ≠ .ok v
  | _, _ => True

instance Opens.decidable : ∀ i c s, Decidable (Opens i c s)
  | i, .openWrite p _, s => inferInstanceAs
    (Decidable (∀ h ∈ s.opened i.other, ∀ v ∈ h.place, s.fs.resolve true p ≠ .ok v))
  | _, .whole _, _ | _, .fstat _, _ | _, .fchmod _, _ | _, .writePiece _, _
  | _, .copyRange .., _ => .isTrue trivial

/-- The part of a process. -/
def racer (K : Kernel) (root : Loc) (k : Key) (content : Bytes) (i : Side) :
    Party SysCall SysCall.Res Shared where
  handle := K.sys i
  may := Opens i
  guar s s' := RaceInv root k content s → Turned root k content i s s'
  rely s s' := RaceInv root k content s → Turned root k content i.other s s'

section

variable {K : Kernel} {root : Loc} {k : Key} {content : Bytes} {i : Side} {s s' : Shared}
  {A : FS → Prop} {sizes : ℕ → List ℕ}

theorem Onward.of_eq {fs fs' : FS} (h : fs'.lookup = fs.lookup) : Onward root k fs fs' where
  keeps v := .of_eq (by rw [h])
  object hs := by rwa [h]
  files v data m t _ hl := ⟨m, t, by rw [h, hl]⟩

theorem Turned.refl (h : RaceInv root k content s) : Turned root k content i s s :=
  ⟨h, .of_eq rfl, fun h => h, fun _ h => ⟨h, rfl⟩⟩

/-! ### Assertions -/

/-- Before a process opens the temporary file. -/
def Unopened (root : Loc) (k : Key) (content : Bytes) (A : FS → Prop) (i : Side)
    (s : Shared) : Prop :=
  RaceInv root k content s ∧ s.opened i = none ∧ A s.fs

/-- The process has filled the temporary file with a part of the content. -/
def Partly (root : Loc) (k : Key) (content : Bytes) (A : FS → Prop) (i : Side) (n : ℕ)
    (s : Shared) : Prop :=
  RaceInv root k content s ∧ A s.fs ∧ s.opened i = some ⟨some (k.tempLoc root), n⟩ ∧
    ∃ m t, s.fs.lookup (k.tempLoc root) = some (.file (content.take n) m t)

/-- The object is there. -/
def Placed (root : Loc) (k : Key) (content : Bytes) (s : Shared) : Prop :=
  RaceInv root k content s ∧ (s.fs.lookup (k.loc root)).isSome

section Stable

variable (hA : ∀ fs fs', A fs → Onward root k fs fs' → A fs')

include hA

theorem stable_unopened : (racer K root k content i).Stable (Unopened root k content A i) := by
  rintro s s' ⟨hi, hn, ha⟩ hr
  have ht := hr hi
  have hc := ht.closed
  rw [Side.other_other] at hc
  exact ⟨ht.inv, hc hn, hA _ _ ha ht.onward⟩

theorem stable_unopenedDir (v : Loc) : (racer K root k content i).Stable fun s =>
    Unopened root k content A i s ∧ s.fs.isDir v := by
  rintro s s' ⟨hs, hd⟩ hr
  exact ⟨stable_unopened hA s s' hs hr, ((hr hs.1).onward.keeps v).1 hd⟩

theorem stable_partly (n : ℕ) :
    (racer K root k content i).Stable (Partly root k content A i n) := by
  rintro s s' ⟨hi, ha, ho, hl⟩ hr
  have ht := hr hi
  have hm := ht.mine n
  rw [Side.other_other] at hm
  obtain ⟨ho', hl'⟩ := hm ho
  refine ⟨ht.inv, hA _ _ ha ht.onward, ho', ?_⟩
  rwa [hl']

end Stable

theorem stable_placed : (racer K root k content i).Stable (Placed root k content) := by
  rintro s s' ⟨hi, hl⟩ hr
  exact ⟨(hr hi).inv, (hr hi).onward.object hl⟩

/-! ### What a call does -/

/-- `fs'` differs from `fs` where `fs` has no directory and neither has a link. -/
def Touched (fs fs' : FS) : Prop :=
  ∀ v, fs'.lookup v = fs.lookup v ∨
    fs.isDir v = false ∧ fs.isLink v = false ∧ fs'.isLink v = false

theorem Touched.keeps {fs fs' : FS} (h : Touched fs fs') (v : Loc) : FS.Keeps fs fs' v := by
  rcases h v with h | ⟨hd, hl, -⟩
  · exact .of_eq h
  · refine ⟨fun h => ?_, fun l t h => ?_⟩
    · rw [hd] at h
      cases h
    · rw [FS.isLink_iff.2 ⟨l, t, h⟩] at hl
      cases hl

theorem Touched.clear {fs fs' : FS} {d : Loc} (h : Touched fs fs') (hc : Clear fs d) :
    Clear fs' d := by
  intro v hv hl
  rcases h v with h | ⟨-, -, h⟩
  · exact hc v hv (by rwa [FS.isLink, h] at hl)
  · rw [h] at hl
    cases hl

/-- A directory is made on the way to the object. -/
theorem turned_mkdir {w : Loc} {nd : Node} (hi : RaceInv root k content s)
    (hw : w <+: k.shardLoc root) (hnone : s.fs.lookup w = none) (hnd : nd.isDir = true)
    (hopened : s'.opened = s.opened)
    (hup : s'.fs.lookup = Function.update s.fs.lookup w (some nd)) :
    Turned root k content i s s' := by
  have hlink : nd.isLink = false := by cases nd <;> first | rfl | cases hnd
  have hkept : ∀ v, v ≠ w → s'.fs.lookup v = s.fs.lookup v := fun v hv => by
    rw [hup, Function.update_of_ne hv]
  have htouched : Touched s.fs s'.fs := by
    intro v
    by_cases hv : v = w
    · subst hv
      refine .inr ⟨isDir_of_none hnone, by simp [FS.isLink, hnone], ?_⟩
      simp [FS.isLink, hup, hlink]
    · exact .inl (hkept v hv)
  have htemp := hkept _ (Key.ne_tempLoc_of_prefix_shardLoc k root hw).symm
  have hloc := hkept _ (Key.ne_loc_of_prefix_shardLoc k root hw).symm
  refine ⟨⟨htouched.clear hi.clear, ?_, ?_, ?_, ?_, ?_⟩, ⟨htouched.keeps, ?_, ?_⟩, ?_, ?_⟩
  · intro u hu hne
    have hway := hi.way u hu hne
    rw [List.nil_append, FS.isDir] at hway ⊢
    by_cases huw : u = w
    · subst huw
      exact .inr (by simp [hup, hnd])
    · rwa [hkept u huw]
  · rw [htemp]
    exact hi.temp
  · rw [hloc]
    exact hi.object
  · rw [hopened]
    exact hi.names
  · rw [hopened]
    exact hi.one
  · rw [hloc]
    exact id
  · intro v data m t _ hl
    refine ⟨m, t, ?_⟩
    rw [hkept v (by rintro rfl; rw [hnone] at hl; cases hl), hl]
  · rw [hopened]
    exact id
  · intro n hn
    exact ⟨by rw [hopened, hn], htemp⟩

/-- The process that has the temporary file open gives it new contents. -/
theorem turned_temp {n : ℕ} {data : Bytes} {m : Mode} {t : ℤ} (hi : RaceInv root k content s)
    (hother : ∀ n, s.opened i.other ≠ some ⟨some (k.tempLoc root), n⟩)
    (hopened : s'.opened = Function.update s.opened i (some ⟨some (k.tempLoc root), n⟩))
    (hup : s'.fs.lookup =
      Function.update s.fs.lookup (k.tempLoc root) (some (.file data m t))) :
    Turned root k content i s s' := by
  have hkept : ∀ v, v ≠ k.tempLoc root → s'.fs.lookup v = s.fs.lookup v := fun v hv => by
    rw [hup, Function.update_of_ne hv]
  have hfile : s'.fs.lookup (k.tempLoc root) = some (.file data m t) := by
    rw [hup, Function.update_self]
  have htouched : Touched s.fs s'.fs := by
    intro v
    by_cases hv : v = k.tempLoc root
    · subst hv
      refine .inr ⟨?_, ?_, by simp [FS.isLink, hfile, Node.isLink]⟩ <;>
        rcases hi.temp with h | ⟨d, m, t, h⟩ <;>
        simp [FS.isDir, FS.isLink, h, Node.isDir, Node.isLink]
    · exact .inl (hkept v hv)
  have hloc := hkept _ (k.tempLoc_ne_loc root k).symm
  have hleft : s'.opened i.other = s.opened i.other := by
    rw [hopened, Function.update_of_ne (Side.other_ne i)]
  refine ⟨⟨htouched.clear hi.clear, ?_, .inr ⟨data, m, t, hfile⟩, ?_, ?_, ?_⟩,
    ⟨htouched.keeps, ?_, ?_⟩, ?_, ?_⟩
  · intro u hu hne
    have hway := hi.way u hu hne
    rw [List.nil_append, FS.isDir] at hway ⊢
    rwa [hkept u (Key.ne_tempLoc_of_prefix_shardLoc k root hu)]
  · rw [hloc]
    exact hi.object
  · intro j h v hj hv
    rcases Side.eq_or_other i j with rfl | rfl
    · rw [hopened, Function.update_self] at hj
      cases hj
      cases hv
      exact .inl rfl
    · rw [hleft] at hj
      exact hi.names _ h v hj hv
  · intro j a b hj hj'
    rcases Side.eq_or_other i j with rfl | rfl
    · rw [hleft] at hj'
      exact hother b hj'
    · rw [hleft] at hj
      exact hother a hj
  · rw [hloc]
    exact id
  · intro v data m t hv hl
    exact ⟨m, t, by rw [hkept v hv, hl]⟩
  · rw [hleft]
    exact id
  · intro a ha
    exact absurd ha (hother a)

/-- The process that has the temporary file open gives it the name of the object. -/
theorem turned_rename {n : ℕ} {m : Mode} {t : ℤ} (hi : RaceInv root k content s)
    (hmine : s.opened i = some ⟨some (k.tempLoc root), n⟩)
    (hopened : s'.opened = fun j => (s.opened j).map (Handle.renamed (k.tempLoc root) (k.loc root)))
    (hup : s'.fs.lookup = Function.update (Function.update s.fs.lookup (k.tempLoc root) none)
      (k.loc root) (some (.file content m t))) :
    Turned root k content i s s' := by
  have hne := k.tempLoc_ne_loc root k
  have hother : ∀ n', s.opened i.other ≠ some ⟨some (k.tempLoc root), n'⟩ := fun n' =>
    hi.one i n n' hmine
  have hkept : ∀ v, v ≠ k.tempLoc root → v ≠ k.loc root → s'.fs.lookup v = s.fs.lookup v :=
    fun v hv hv' => by rw [hup, Function.update_of_ne hv', Function.update_of_ne hv]
  have htemp : s'.fs.lookup (k.tempLoc root) = none := by
    rw [hup, Function.update_of_ne hne, Function.update_self]
  have hfile : s'.fs.lookup (k.loc root) = some (.file content m t) := by
    rw [hup, Function.update_self]
  have hobj : s.fs.lookup (k.loc root) = none ∨
      ∃ d m t, s.fs.lookup (k.loc root) = some (.file d m t) := by
    rcases hl : s.fs.lookup (k.loc root) with _ | nd
    · exact .inl rfl
    · obtain ⟨m, t, rfl⟩ := hi.object nd hl
      exact .inr ⟨content, m, t, rfl⟩
  have hplain : ∀ v, (s.fs.lookup v = none ∨ ∃ d m t, s.fs.lookup v = some (.file d m t)) →
      s.fs.isDir v = false ∧ s.fs.isLink v = false := by
    rintro v (h | ⟨d, m, t, h⟩) <;> simp [FS.isDir, FS.isLink, h, Node.isDir, Node.isLink]
  have htouched : Touched s.fs s'.fs := by
    intro v
    by_cases hv : v = k.tempLoc root
    · subst hv
      exact .inr ⟨(hplain _ hi.temp).1, (hplain _ hi.temp).2, by simp [FS.isLink, htemp]⟩
    by_cases hv' : v = k.loc root
    · subst hv'
      exact .inr ⟨(hplain _ hobj).1, (hplain _ hobj).2, by simp [FS.isLink, hfile, Node.isLink]⟩
    exact .inl (hkept v hv hv')
  -- nobody has the temporary file open any more
  have hplace : ∀ j h v, s'.opened j = some h → h.place = some v → v = k.loc root := by
    intro j h v hj hv
    rw [hopened] at hj
    obtain ⟨h₀, hj₀, rfl⟩ := Option.map_eq_some_iff.1 hj
    unfold Handle.renamed at hv
    split_ifs at hv with hT hL
    · exact (Option.some_inj.1 hv).symm
    · rcases hi.names j h₀ v hj₀ hv with rfl | rfl
      · exact absurd hv hT
      · rfl
  refine ⟨⟨htouched.clear hi.clear, ?_, .inl htemp, ?_, ?_, ?_⟩, ⟨htouched.keeps, ?_, ?_⟩, ?_, ?_⟩
  · intro u hu hne
    have hway := hi.way u hu hne
    rw [List.nil_append, FS.isDir] at hway ⊢
    rwa [hkept u (Key.ne_tempLoc_of_prefix_shardLoc k root hu)
      (Key.ne_loc_of_prefix_shardLoc k root hu)]
  · intro nd hl
    rw [hfile] at hl
    cases hl
    exact ⟨m, t, rfl⟩
  · exact fun j h v hj hv => .inr (hplace j h v hj hv)
  · exact fun j a b hj _ => absurd (hplace j _ _ hj rfl) hne
  · rw [hfile]
    exact fun _ => rfl
  · intro v data m' t' hv hl
    by_cases hv' : v = k.loc root
    · subst hv'
      obtain ⟨m₀, t₀, h₀⟩ := hi.object _ hl
      cases h₀
      exact ⟨m, t, hfile⟩
    · exact ⟨m', t', by rw [hkept v hv hv', hl]⟩
  · intro hnone
    rw [hopened]
    exact congrArg _ hnone
  · intro a ha
    exact absurd ha (hother a)

/-! ### The calls of a put -/

/-- A call that only looks. -/
theorem holds_look {c : SysCall} {P : Shared → Prop} {Q : c.Ret → Shared → Prop}
    {E : Errno → Shared → Prop} (hP : (racer K root k content i).Stable P)
    (ho : ∀ s, P s → ∃ r, K.sys i c s = (r, s) ∧ Ends Q E r s) :
    Holds (racer K root k content i) P (call c) Q E := by
  refine Holds.perform hP fun s hs _ => ?_
  obtain ⟨r, hr, hends⟩ := ho s hs
  show (_ → Turned root k content i s (K.sys i c s).2) ∧ Ends Q E (K.sys i c s).1 (K.sys i c s).2
  rw [hr]
  exact ⟨Turned.refl, hends⟩

theorem sys_metadata (p : PathBuf) :
    K.sys i (.whole (.metadata p)) s = ((s.fs.stat true p).map Node.metadata, s) := by
  simp [Kernel.sys, Kernel.handle, FS.follow]

theorem sys_openFile (p : PathBuf) : K.sys i (.whole (.openFile p)) s = (s.fs.openFile p, s) := by
  simp [Kernel.sys, Kernel.handle, FS.follow]

theorem sys_readChunk (f : Loc) (offset size : ℕ) :
    K.sys i (.whole (.readChunk f offset size)) s = (s.fs.readChunk f offset size, s) := by
  simp [Kernel.sys, Kernel.handle, FS.follow]

theorem sys_createDir (p : PathBuf) :
    K.sys i (.whole (.createDir p)) s =
      ((K.handle (.createDir p) s.fs).1, ⟨(K.handle (.createDir p) s.fs).2, s.opened⟩) := by
  simp [Kernel.sys, FS.follow]

/-- `Path::exists`, of the object. -/
theorem holds_exists (hA : ∀ fs fs', A fs → Onward root k fs fs' → A fs') :
    Holds (racer K root k content i) (Unopened root k content A i)
      (Fallible.slice (FsOp.slices sizes) (IoM.exists_ (Loc.toPath (k.loc root))))
      (fun b s => Unopened root k content A i s ∧ (b = true → (s.fs.lookup (k.loc root)).isSome))
      (fun _ _ => False) := by
  rw [IoM.exists_, Fallible.slice_bind, Fallible.slice_attempt]
  refine Holds.bind (N := fun res s => Unopened root k content A i s ∧
    (res.isOk = true → (s.fs.lookup (k.loc root)).isSome)) ?_ fun res => ?_
  · refine (Holds.attempt (holds_look (c := .whole (.metadata _))
      (Q := fun _ s => Unopened root k content A i s ∧ (s.fs.lookup (k.loc root)).isSome)
      (E := fun _ s => Unopened root k content A i s) (stable_unopened hA) fun s hs => ?_)).post ?_
    · refine ⟨_, sys_metadata _, ?_⟩
      have hex := hs.1.clear.pathExists (.inr (k.objectsDir_prefix_loc root)) (k.loc_ne_nil root)
      rw [FS.pathExists] at hex
      rcases hst : s.fs.stat true (Loc.toPath (k.loc root)) with e | nd
      · exact hs
      · rw [hst] at hex
        exact ⟨hs, hex.symm⟩
    · rintro (e | m) s h
      · exact ⟨h, fun hok => by cases hok⟩
      · exact ⟨h.1, fun _ => h.2⟩
  · rcases res with e | m
    · exact Holds.pure fun s hs => ⟨hs.1, fun hok => by cases hok⟩
    · exact Holds.pure fun s hs => ⟨hs.1, fun _ => hs.2 rfl⟩

/-- `create_dir`, on the way to the object; it fails when the directory is there, or the one above
it, which `up` says is there, is not. -/
theorem holds_createDir (hA : ∀ fs fs', A fs → Onward root k fs fs' → A fs') {w : Loc}
    (hw : w <+: k.shardLoc root) (up : Prop) :
    Holds (racer K root k content i)
      (fun s => Unopened root k content A i s ∧ (up → s.fs.isDir w.dropLast))
      (call (.whole (.createDir (Loc.toPath w))))
      (fun _ s => Unopened root k content A i s ∧ s.fs.isDir w)
      (fun e s => Unopened root k content A i s ∧
        (s.fs.isDir w ∨ e = .enoent ∧ w ≠ [] ∧ ¬ up)) := by
  refine Holds.perform (fun s s' hs hr => ⟨stable_unopened hA s s' hs.1 hr, fun hup =>
    ((hr hs.1.1).onward.keeps _).1 (hs.2 hup)⟩) fun s ⟨⟨hi, hn, ha⟩, hup⟩ _ => ?_
  show (_ → Turned root k content i s (K.sys i _ s).2) ∧ Ends _ _ (K.sys i _ s).1 (K.sys i _ s).2
  rw [sys_createDir]
  simp only [Kernel.handle]
  cases hc : s.fs.createDir K (Loc.toPath w) with
  | ok fs' =>
    obtain ⟨v, hv, hnone, he⟩ := createDir_ok hc
    have hne : w ≠ [] := by
      rintro rfl
      cases hv
      cases hnone
    obtain rfl := hi.clear.resolve (k.shardLoc_comparable hw) hne hv
    have ht : Turned root k content i s ⟨fs', s.opened⟩ :=
      turned_mkdir hi hw hnone rfl rfl (he.update (isDir_of_none hnone))
    refine ⟨fun _ => ht, ⟨ht.inv, hn, hA _ _ ha ht.onward⟩, ?_⟩
    simp [Kernel.commit, FS.isDir, he.here, Kernel.newDir, Node.isDir]
  | error e =>
    refine ⟨Turned.refl, ⟨hi, hn, ha⟩, ?_⟩
    by_cases hne : w = []
    · exact .inl (by rw [hne]; rfl)
    by_cases hd : s.fs.isDir w
    · exact .inl hd
    have hvac : Vacant s.fs [] w := fun u hu => hi.way u (hu.trans hw)
    have henoent := (createDir_below_error (FS.leads_nil _) hvac hne hc).resolve_right hd
    refine .inr ⟨henoent, hne, fun h => ?_⟩
    -- with the directory above in place nothing could have failed
    obtain ⟨u, n, rfl⟩ : ∃ u n, w = u ++ [n] :=
      ⟨w.dropLast, w.getLast hne, (List.dropLast_append_getLast hne).symm⟩
    have hnone := (hvac _ List.prefix_rfl hne).resolve_right hd
    rw [List.dropLast_concat] at hup
    obtain ⟨fs', hok⟩ := createDir_below_dir (K := K) (FS.leads_nil _) (hup h) hnone
    cases hc.symm.trans hok

/-- `Path::is_dir`, of a directory that is there. -/
theorem holds_unlessDir (hA : ∀ fs fs', A fs → Onward root k fs fs' → A fs') {w : Loc}
    (e : Errno) :
    Holds (racer K root k content i) (fun s => Unopened root k content A i s ∧ s.fs.isDir w)
      (Fallible.slice (FsOp.slices sizes) (IoM.unlessDir (Loc.toPath w) e))
      (fun _ s => Unopened root k content A i s ∧ s.fs.isDir w) (fun _ _ => False) := by
  rw [IoM.unlessDir, Fallible.slice_bind, IoM.isDir, Fallible.slice_bind, Fallible.slice_attempt]
  refine Holds.bind (N := fun b s => (Unopened root k content A i s ∧ s.fs.isDir w) ∧ b = true)
    (Holds.bind (N := fun res s => (Unopened root k content A i s ∧ s.fs.isDir w) ∧
      ∃ m : Metadata, res = .ok m ∧ m.fileType = .dir) ?_ fun res => ?_) fun b => ?_
  · refine (Holds.attempt (holds_look (c := .whole (.metadata _))
      (Q := fun m s => (Unopened root k content A i s ∧ s.fs.isDir w) ∧ m.fileType = .dir)
      (E := fun _ _ => False) (stable_unopenedDir hA w) fun s hs => ?_)).post ?_
    · refine ⟨_, sys_metadata _, ?_⟩
      obtain ⟨m, t, n, hl⟩ := FS.isDir_iff.1 hs.2
      have hst : s.fs.stat true (Loc.toPath w) = .ok (.dir m t n) := by
        rw [FS.stat, (FS.leads_toPath hs.2).self]
        simp only [hl]
      rw [hst]
      exact ⟨hs, rfl⟩
    · rintro (e | m) s h
      · exact h.elim
      · exact ⟨h.1, m, rfl, h.2⟩
  · rintro s ⟨hs, m, rfl, hm⟩
    exact Holds.pure (P := fun t => t = s) (fun t ht => by subst ht; exact ⟨hs, by simp [hm]⟩) s rfl
  · rintro s ⟨hs, rfl⟩
    exact hs

/-- `create_dir_all`, of the directory of the object. -/
theorem holds_createDirAll (hA : ∀ fs fs', A fs → Onward root k fs fs' → A fs') {w : Loc}
    (hw : w <+: k.shardLoc root) :
    Holds (racer K root k content i) (Unopened root k content A i)
      (Fallible.slice (FsOp.slices sizes) (IoM.createDirAll (Loc.toPath w)))
      (fun _ s => Unopened root k content A i s ∧ s.fs.isDir w) (fun _ _ => False) := by
  induction w using List.reverseRecOn with
  | nil => exact Holds.pure fun s hs => ⟨hs, rfl⟩
  | append_singleton w c ih =>
    have hup := (List.prefix_append w [c]).trans hw
    have hpath : (Loc.toPath (w ++ [c])).reverse = .name c :: (Loc.toPath w).reverse := by
      simp [Loc.toPath]
    have hback : (Comp.name c :: (Loc.toPath w).reverse).reverse = Loc.toPath (w ++ [c]) := by
      rw [← hpath, List.reverse_reverse]
    rw [IoM.createDirAll, hpath, IoM.createDirAllRev, hback, Fallible.slice_bind,
      Fallible.slice_attempt]
    refine Holds.bind (Holds.attempt ((holds_createDir hA hw False).pre fun s hs =>
      ⟨hs, False.elim⟩)) fun res => ?_
    rcases res with e | _
    · by_cases he : e = .enoent
      · subst he
        rw [Fallible.slice_bind]
        refine Holds.bind ((ih hup).pre fun s hs => hs.1) fun _ => ?_
        rw [Fallible.slice_bind, Fallible.slice_attempt]
        refine Holds.bind (Holds.attempt ((holds_createDir hA hw True).pre fun s hs =>
          ⟨hs.1, fun _ => by rw [List.dropLast_concat]; exact hs.2⟩)) fun res => ?_
        rcases res with e | _
        · exact (holds_unlessDir hA e).pre fun s hs =>
            ⟨hs.1, hs.2.resolve_right fun h => h.2.2 trivial⟩
        · exact Holds.pure fun s hs => hs
      · have hslice : Holds (racer K root k content i) (fun s => Unopened root k content A i s ∧
            s.fs.isDir (w ++ [c])) (Fallible.slice (FsOp.slices sizes)
              (IoM.unlessDir (Loc.toPath (w ++ [c])) e)) (fun _ s => Unopened root k content A i s ∧
            s.fs.isDir (w ++ [c])) (fun _ _ => False) := holds_unlessDir hA e
        cases e
        case enoent => exact absurd rfl he
        all_goals exact hslice.pre fun s hs => ⟨hs.1, hs.2.resolve_right fun h => he h.1⟩
    · exact Holds.pure fun s hs => hs

/-- `open`, of the temporary file. -/
theorem holds_openWrite (hA : ∀ fs fs', A fs → Onward root k fs fs' → A fs') (mode : Mode) :
    Holds (racer K root k content i)
      (fun s => Unopened root k content A i s ∧ s.fs.isDir (k.shardLoc root))
      (call (.openWrite (Loc.toPath (k.tempLoc root)) mode))
      (fun _ s => Partly root k content A i 0 s) (fun _ _ => False) := by
  refine Holds.perform (stable_unopenedDir hA _) fun s ⟨⟨hi, hn, ha⟩, hd⟩ hmay => ?_
  have hr : s.fs.resolve true (Loc.toPath (k.tempLoc root)) = .ok (k.tempLoc root) := by
    rw [Key.tempLoc_eq]
    exact hi.clear.resolve_child (.inr ((List.prefix_append _ _).trans (List.prefix_append _ _))) hd
  have hother : ∀ n, s.opened i.other ≠ some ⟨some (k.tempLoc root), n⟩ := by
    intro n ho
    exact hmay _ ho _ rfl hr
  obtain ⟨fs', m, hput, hup⟩ : ∃ fs' m,
      s.fs.put K (k.tempLoc root) (mode &&& ~~~K.umask) [] = .ok fs' ∧ fs'.lookup =
        Function.update s.fs.lookup (k.tempLoc root) (some (.file [] m K.now)) := by
    obtain ⟨fs', hput⟩ := put_temp (K := K) ⟨hi.way, hi.temp⟩ (mode &&& ~~~K.umask) []
    rcases put_ok hr hput with ⟨hl, he⟩ | ⟨old, m, t, hl, he⟩
    · exact ⟨fs', _, hput, he.update (isDir_of_none hl)⟩
    · exact ⟨fs', m, hput, he.update (isDir_of_file hl)⟩
  have hsys : K.sys i (.openWrite (Loc.toPath (k.tempLoc root)) mode) s = (.ok (), ⟨fs',
      Function.update s.opened i (some ⟨some (k.tempLoc root), 0⟩)⟩) := exec_openWrite hr hput
  have ht : Turned root k content i s ⟨fs',
      Function.update s.opened i (some ⟨some (k.tempLoc root), 0⟩)⟩ :=
    turned_temp hi hother rfl hup
  show (_ → Turned root k content i s (K.sys i _ s).2) ∧ Ends _ _ (K.sys i _ s).1 (K.sys i _ s).2
  rw [hsys]
  exact ⟨fun _ => ht, ht.inv, hA _ _ ha ht.onward, Function.update_self .., m, K.now, by
    rw [hup, Function.update_self, List.take_zero]⟩

/-- What a change of the temporary file by the process that has it open comes to. -/
theorem Partly.modify {a b : ℕ} (hA : ∀ fs fs', A fs → Onward root k fs fs' → A fs')
    (hs : Partly root k content A i a s) {f : Node → Node} (hf : ∀ nd, (f nd).isDir = nd.isDir)
    (hb : ∀ m t, ∃ m' t', f (.file (content.take a) m t) = .file (content.take b) m' t')
    (hopened : s'.opened = Function.update s.opened i (some ⟨some (k.tempLoc root), b⟩))
    (hfs : s'.fs = s.fs.modify (k.tempLoc root) f) :
    Turned root k content i s s' ∧ Partly root k content A i b s' := by
  obtain ⟨hi, ha, ho, m, t, hl⟩ := hs
  obtain ⟨m', t', hnew⟩ := hb m t
  have hup : s'.fs.lookup =
      Function.update s.fs.lookup (k.tempLoc root) (some (.file (content.take b) m' t')) := by
    rw [hfs, (editAt_modify s.fs (k.tempLoc_ne_nil root) hf).update (isDir_of_file hl), hl]
    exact congrArg (fun nd => Function.update s.fs.lookup (k.tempLoc root) (some nd)) hnew
  have ht : Turned root k content i s s' :=
    turned_temp hi (fun n => hi.one i a n ho) hopened hup
  exact ⟨ht, ht.inv, hA _ _ ha ht.onward, by rw [hopened, Function.update_self], m', t', by
    rw [hup, Function.update_self]⟩

/-- `fchmod`, of the temporary file. -/
theorem holds_fchmod (hA : ∀ fs fs', A fs → Onward root k fs fs' → A fs') (n : ℕ) (mode : Mode) :
    Holds (racer K root k content i) (Partly root k content A i n) (call (.fchmod mode))
      (fun _ s => Partly root k content A i n s) (fun _ _ => False) := by
  refine Holds.perform (stable_partly hA n) fun s hs _ => ?_
  obtain ⟨s', hs'⟩ : ∃ s' : Shared,
      s' = { s with fs := s.fs.modify (k.tempLoc root) (Node.setMode mode) } := ⟨_, rfl⟩
  have hsys : K.sys i (.fchmod mode) s = (.ok (), s') := by
    rw [hs']
    exact exec_fchmod (K := K) hs.2.2.1 mode
  obtain ⟨ht, hp⟩ : Turned root k content i s s' ∧ Partly root k content A i n s' :=
    hs.modify hA (Node.isDir_setMode mode) (fun m t => ⟨mode, t, rfl⟩)
      (by rw [hs', ← hs.2.2.1, Function.update_eq_self]) (by rw [hs'])
  show (_ → Turned root k content i s (K.sys i _ s).2) ∧ Ends _ _ (K.sys i _ s).1 (K.sys i _ s).2
  rw [hsys]
  exact ⟨fun _ => ht, hp⟩

/-- The temporary file takes in a piece of the content. -/
theorem Partly.write {offset n : ℕ} (hA : ∀ fs fs', A fs → Onward root k fs fs' → A fs')
    (hs : Partly root k content A i offset s) (hlen : offset + n ≤ content.length) :
    ∃ s', s.write i K.now ((content.drop offset).take n) = (.ok (), s') ∧
      Turned root k content i s s' ∧ Partly root k content A i (offset + n) s' := by
  have hoffset : (content.take offset).length = offset := by
    rw [List.length_take]
    omega
  have hpiece : ((content.drop offset).take n).length = n := by
    rw [List.length_take, List.length_drop]
    omega
  have hfill : splice offset ((content.drop offset).take n) (content.take offset) =
      content.take (offset + n) := by
    have h := splice_length (content.take offset) ((content.drop offset).take n)
    rw [hoffset] at h
    rw [h, List.take_add]
  refine ⟨⟨s.fs.modify (k.tempLoc root)
      (Node.splice offset ((content.drop offset).take n) K.now),
    Function.update s.opened i (some ⟨some (k.tempLoc root), offset + n⟩)⟩, ?_,
    hs.modify hA (Node.isDir_splice _ _ _) (fun m t => ⟨m, K.now, ?_⟩) rfl rfl⟩
  · rw [Shared.write, hs.2.2.1, hpiece]
  · rw [Node.splice, hfill]

/-- Writing a piece. -/
theorem holds_writePiece (hA : ∀ fs fs', A fs → Onward root k fs fs' → A fs') {offset n : ℕ}
    (hlen : offset + n ≤ content.length) :
    Holds (racer K root k content i) (Partly root k content A i offset)
      (call (.writePiece ((content.drop offset).take n)))
      (fun _ s => Partly root k content A i (offset + n) s) (fun _ _ => False) := by
  refine Holds.perform (stable_partly hA offset) fun s hs _ => ?_
  obtain ⟨s', hw, ht, hp⟩ := hs.write (K := K) hA hlen
  have hsys : K.sys i (.writePiece ((content.drop offset).take n)) s = (.ok (), s') := hw
  show (_ → Turned root k content i s (K.sys i _ s).2) ∧ Ends _ _ (K.sys i _ s).1 (K.sys i _ s).2
  rw [hsys]
  exact ⟨fun _ => ht, hp⟩

/-- Copying a piece, of a file that holds the content. -/
theorem holds_copyRange (hA : ∀ fs fs', A fs → Onward root k fs fs' → A fs') {v : Loc}
    (hv : ∀ fs, A fs → ∃ m t, fs.lookup v = some (.file content m t)) {offset n : ℕ}
    (hlen : offset + n ≤ content.length) :
    Holds (racer K root k content i) (Partly root k content A i offset)
      (call (.copyRange v offset n))
      (fun _ s => Partly root k content A i (offset + n) s) (fun _ _ => False) := by
  refine Holds.perform (stable_partly hA offset) fun s hs _ => ?_
  obtain ⟨s', hw, ht, hp⟩ := hs.write (K := K) hA hlen
  obtain ⟨m, t, hl⟩ := hv s.fs hs.2.1
  have hsys : K.sys i (.copyRange v offset n) s = (.ok (), s') := by
    rw [Kernel.sys, FS.readChunk, hl]
    exact hw
  show (_ → Turned root k content i s (K.sys i _ s).2) ∧ Ends _ _ (K.sys i _ s).1 (K.sys i _ s).2
  rw [hsys]
  exact ⟨fun _ => ht, hp⟩

/-- Pieces one after the other. -/
theorem holds_inPieces {M : Party SysCall SysCall.Res Shared} {f : ℕ → ℕ → CallM Unit}
    {I : ℕ → Shared → Prop} {E : Errno → Shared → Prop} {len : ℕ}
    (hf : ∀ offset n, offset + n ≤ len → Holds M (I offset) (f offset n)
      (fun _ => I (offset + n)) E) :
    ∀ ns offset, offset + ns.sum = len →
      Holds M (I offset) (inPieces f offset ns) (fun _ => I len) E := by
  intro ns
  induction ns with
  | nil =>
    rintro offset rfl
    exact Holds.pure fun s hs => hs
  | cons n ns ih =>
    intro offset hlen
    rw [List.sum_cons] at hlen
    exact Holds.bind (hf offset n (by omega)) fun _ => ih (offset + n) (by omega)

/-- `rename`, of the full temporary file. -/
theorem holds_rename (hA : ∀ fs fs', A fs → Onward root k fs fs' → A fs') :
    Holds (racer K root k content i) (Partly root k content A i content.length)
      (call (.whole (.rename (Loc.toPath (k.tempLoc root)) (Loc.toPath (k.loc root)))))
      (fun _ s => Placed root k content s) (fun _ _ => False) := by
  refine Holds.perform (stable_partly hA _) fun s ⟨hi, ha, ho, m, t, hl⟩ _ => ?_
  rw [List.take_length] at hl
  have hd : s.fs.isDir (k.shardLoc root) := by
    rw [Key.tempLoc_eq] at hl
    exact FS.isDir_of_lookup_concat hl
  have hcomp : ∀ n, k.shardLoc root ++ [n] <+: objectsDir root ∨
      objectsDir root <+: k.shardLoc root ++ [n] := fun n =>
    .inr ((List.prefix_append _ _).trans (List.prefix_append _ _))
  have hsrc : s.fs.resolve false (Loc.toPath (k.tempLoc root)) = .ok (k.tempLoc root) := by
    rw [Key.tempLoc_eq]
    exact hi.clear.resolve_child (hcomp _) hd
  have hdst : s.fs.resolve false (Loc.toPath (k.loc root)) = .ok (k.loc root) := by
    rw [Key.loc_eq]
    exact hi.clear.resolve_child (hcomp _) hd
  have hfree : s.fs.isDir (k.loc root) = false := by
    rcases hobj : s.fs.lookup (k.loc root) with _ | nd
    · exact isDir_of_none hobj
    · obtain ⟨m, t, rfl⟩ := hi.object nd hobj
      exact isDir_of_file hobj
  have hne := k.tempLoc_ne_loc root k
  obtain ⟨fs', hren⟩ : ∃ fs', s.fs.rename (Loc.toPath (k.tempLoc root))
      (Loc.toPath (k.loc root)) = .ok fs' := by
    refine ⟨(s.fs.remove (k.tempLoc root)).insert (k.loc root) (.file content m t), ?_⟩
    simp [FS.rename, hsrc, hdst, hl, Node.isDir, hfree, hne]
  have hup : fs'.lookup = Function.update (Function.update s.fs.lookup (k.tempLoc root) none)
      (k.loc root) (some (.file content m t)) := by
    obtain ⟨u, v, nd, hu, hv, hnd, -, -, hcase⟩ := rename_ok hren
    cases hsrc.symm.trans hu
    cases hdst.symm.trans hv
    cases hl.symm.trans hnd
    obtain ⟨-, e1, e2⟩ := hcase.resolve_left fun h => hne h.1
    have u1 := e1.update (isDir_of_file hl)
    rw [e2.update (by rw [FS.isDir, u1, Function.update_of_ne hne.symm]; exact hfree), u1]
  have hsys : K.sys i (.whole (.rename (Loc.toPath (k.tempLoc root)) (Loc.toPath (k.loc root)))) s =
      (.ok (), ⟨fs', fun j =>
        (s.opened j).map (Handle.renamed (k.tempLoc root) (k.loc root))⟩) := by
    have hfollow : ∀ h, s.fs.follow h (.rename (Loc.toPath (k.tempLoc root))
        (Loc.toPath (k.loc root))) = h.renamed (k.tempLoc root) (k.loc root) := fun h => by
      simp only [FS.follow, hsrc, hdst, hren]
      exact if_pos ⟨rfl, hne⟩
    simp only [Kernel.sys, Kernel.handle, hren, Kernel.commit, hfollow]
  have ht : Turned root k content i s
      ⟨fs', fun j => (s.opened j).map (Handle.renamed (k.tempLoc root) (k.loc root))⟩ :=
    turned_rename hi ho rfl hup
  show (_ → Turned root k content i s (K.sys i _ s).2) ∧ Ends _ _ (K.sys i _ s).1 (K.sys i _ s).2
  rw [hsys]
  refine ⟨fun _ => ht, ht.inv, ?_⟩
  show (fs'.lookup (k.loc root)).isSome
  rw [hup, Function.update_self]
  rfl

/-! ### Both puts -/

section Puts

variable (hsizes : ∀ n, (sizes n).sum = n) {H : Blake3}

/-- Fill the temporary file, and give it the name of the object. -/
theorem holds_store (hA : ∀ fs fs', A fs → Onward root k fs fs' → A fs')
    {fill : Action Unit} (hfill : Holds (racer K root k content i)
      (fun s => Unopened root k content A i s ∧ s.fs.isDir (k.shardLoc root))
      (Fallible.slice (FsOp.slices sizes) fill)
      (fun _ s => Partly root k content A i content.length s) (fun _ _ => False)) :
    Holds (racer K root k content i) (Unopened root k content A i)
      (Fallible.slice (FsOp.slices sizes) (do
        if ← io (IoM.exists_ (Loc.toPath (k.loc root))) then
          return k.text
        io (IoM.createDirAll (Loc.toPath (k.shardLoc root)))
        fill
        io (IoM.op (.rename (Loc.toPath (k.tempLoc root)) (Loc.toPath (k.loc root))))
        return k.text))
      (fun hash s => hash = k.text ∧ Placed root k content s) (fun _ _ => False) := by
  rw [Fallible.slice_bind, io, Fallible.slice_mapError]
  refine Holds.bind (Holds.mapError (holds_exists hA)) fun b => ?_
  cases b with
  | true => exact Holds.pure fun s hs => ⟨rfl, hs.1.1, hs.2 rfl⟩
  | false =>
    refine Holds.pre (P := Unopened root k content A i) ?_ fun s hs => hs.1
    simp only [Bool.false_eq_true, if_false]
    rw [Fallible.slice_bind, io, Fallible.slice_mapError]
    refine Holds.bind (Holds.mapError (holds_createDirAll hA List.prefix_rfl)) fun _ => ?_
    rw [Fallible.slice_bind]
    refine Holds.bind hfill fun _ => ?_
    rw [Fallible.slice_bind, io, Fallible.slice_mapError, IoM.op, Fallible.slice_perform]
    exact Holds.bind (Holds.mapError (holds_rename hA)) fun _ => Holds.pure fun s hs => ⟨rfl, hs⟩

include hsizes

/-- `put_blob`. -/
theorem holds_putBlob (hk : H.hash content = k.text) :
    Holds (racer K root k content i) (Unopened root k content (fun _ => True) i)
      (Fallible.slice (FsOp.slices sizes) ((storeAt root).putBlob H content))
      (fun hash s => hash = H.hash content ∧ Placed root k content s) (fun _ _ => False) := by
  have hA : ∀ fs fs', True → Onward root k fs fs' → True := fun _ _ _ _ => trivial
  rw [Hosts.putBlob_eq hk, hk]
  refine holds_store hA ?_
  rw [io, Fallible.slice_mapError, IoM.op, Fallible.slice_perform]
  refine Holds.mapError (Holds.bind (holds_openWrite hA _) fun _ => ?_)
  exact holds_inPieces (fun offset n hlen => holds_writePiece hA hlen) (sizes content.length) 0
    ((Nat.zero_add _).trans (hsizes _))

omit hsizes in
theorem onward_source {path : PathBuf} {v : Loc} (hv : v ≠ k.tempLoc root) (fs fs' : FS)
    (hs : Source fs path v content) (ho : Onward root k fs fs') : Source fs' path v content := by
  obtain ⟨m, t, hl⟩ := hs.2
  exact hs.keeps ho.keeps (ho.files v content m t hv hl)

omit hsizes in
/-- The loop of `put_file` comes to the hash of the file. -/
theorem holds_hashLoop (hA : ∀ fs fs', A fs → Onward root k fs fs' → A fs') (hH : H.Lawful)
    {v : Loc} (hv : ∀ fs, A fs → ∃ m t, fs.lookup v = some (.file content m t))
    (reads : Loc → ℕ → ℕ) (fuel offset : ℕ) (hasher : H.Hasher) (hoff : offset ≤ content.length)
    (hfuel : content.length - offset < fuel)
    (hchunks : ∃ chunks : List Bytes, hasher = chunks.foldl H.update H.new ∧
      chunks.flatten = content.take offset) :
    Holds (racer K root k content i) (Unopened root k content A i)
      (Fallible.slice (FsOp.slices sizes) (hashLoop H reads v fuel offset hasher))
      (fun hasher s => Unopened root k content A i s ∧ H.finalize hasher = H.hash content)
      (fun _ _ => False) := by
  induction fuel generalizing offset hasher with
  | zero => omega
  | succ fuel ih =>
    obtain ⟨chunks, hhasher, hflat⟩ := hchunks
    have hsize : 1 ≤ readSize reads v offset := le_max_left _ _
    generalize hn : readSize reads v offset = n at hsize
    rw [hashLoop, hn, Fallible.slice_bind, io, Fallible.slice_mapError, IoM.op,
      Fallible.slice_perform]
    refine Holds.bind (N := fun b s => Unopened root k content A i s ∧
      b = (content.drop offset).take n) (Holds.mapError (holds_look (stable_unopened hA)
        fun s hs => ?_)) fun b => ?_
    · obtain ⟨m, t, hl⟩ := hv s.fs hs.2.2
      refine ⟨_, sys_readChunk _ _ _, ?_⟩
      rw [FS.readChunk, hl]
      exact ⟨hs, rfl⟩
    · rintro s ⟨hs, rfl⟩
      by_cases hb : ((content.drop offset).take n).length = 0
      · -- nothing is left to read, so everything has been hashed
        have hend : content.length ≤ offset := by
          rw [List.length_take, List.length_drop] at hb
          omega
        rw [if_pos hb]
        refine Holds.pure (P := Unopened root k content A i) (fun s hs => ⟨hs, ?_⟩) s hs
        rw [hhasher, hH.incremental, hflat, List.take_of_length_le hend]
      · rw [if_neg hb]
        have hlen : offset + ((content.drop offset).take n).length ≤ content.length := by
          rw [List.length_take, List.length_drop]
          omega
        refine ih _ _ hlen (by omega) ⟨chunks ++ [(content.drop offset).take n], ?_, ?_⟩ s hs
        · rw [List.foldl_append, ← hhasher]
          rfl
        · rw [List.flatten_append, hflat, List.flatten_singleton, List.take_add,
            ← List.prefix_iff_eq_take.1 (List.take_prefix n (content.drop offset))]

/-- `std::fs::copy`, of a file that holds the content. -/
theorem holds_copy {path : PathBuf} {v : Loc} (hv : v ≠ k.tempLoc root) :
    Holds (racer K root k content i)
      (fun s => Unopened root k content (Source · path v content) i s ∧
        s.fs.isDir (k.shardLoc root))
      (copyCalls sizes path (Loc.toPath (k.tempLoc root)))
      (fun _ s => Partly root k content (Source · path v content) i content.length s)
      (fun _ _ => False) := by
  have hA : ∀ fs fs', Source fs path v content → Onward root k fs fs' →
      Source fs' path v content := onward_source hv
  refine Holds.bind (N := fun f s => (Unopened root k content (Source · path v content) i s ∧
    s.fs.isDir (k.shardLoc root)) ∧ f = v) (holds_look (stable_unopenedDir hA _) fun s hs => ?_)
      fun f => ?_
  · exact ⟨_, sys_openFile _, by rw [hs.1.2.2.openFile]; exact ⟨hs, rfl⟩⟩
  rintro s ⟨hs, rfl⟩
  refine Holds.bind (N := fun md s => (Unopened root k content (Source · path f content) i s ∧
    s.fs.isDir (k.shardLoc root)) ∧ md.fileType = .file ∧ md.len = content.length)
      (holds_look (stable_unopenedDir hA _) fun s hs => ?_) (fun md => ?_) s hs
  · obtain ⟨m, t, hl⟩ := hs.1.2.2.2
    refine ⟨.ok (Node.file content m t).metadata, ?_, hs, rfl, rfl⟩
    rw [Kernel.sys, hl]
  · rintro s ⟨hs, htype, hlen⟩
    rw [if_pos htype, hlen]
    refine Holds.bind (holds_openWrite hA _) (fun _ => Holds.bind (holds_fchmod hA 0 _) fun _ => ?_)
      s hs
    exact holds_inPieces (fun offset n hlen => holds_copyRange hA (fun fs hs => hs.2) hlen)
      (sizes content.length) 0 ((Nat.zero_add _).trans (hsizes _))

/-- `put_file`. -/
theorem holds_putFile (hH : H.Lawful) (hk : H.hash content = k.text) {reads : Loc → ℕ → ℕ}
    {fuel : ℕ} {path : PathBuf} {v : Loc} (hv : v ≠ k.tempLoc root)
    (hfuel : content.length < fuel) :
    Holds (racer K root k content i) (Unopened root k content (Source · path v content) i)
      (Fallible.slice (FsOp.slices sizes) ((storeAt root).putFile H reads fuel path))
      (fun hash s => hash = H.hash content ∧ Placed root k content s) (fun _ _ => False) := by
  have hA : ∀ fs fs', Source fs path v content → Onward root k fs fs' →
      Source fs' path v content := onward_source hv
  rw [Hosts.putFile_eq, Fallible.slice_bind, withContext, Fallible.slice_mapError, io,
    Fallible.slice_mapError, IoM.op, Fallible.slice_perform]
  refine Holds.bind (N := fun f s => Unopened root k content (Source · path v content) i s ∧ f = v)
    (Holds.mapError (Holds.mapError (holds_look (stable_unopened hA) fun s hs => ?_))) fun f => ?_
  · exact ⟨_, sys_openFile _, by rw [hs.2.2.openFile]; exact ⟨hs, rfl⟩⟩
  rintro s ⟨hs, rfl⟩
  rw [Fallible.slice_bind]
  refine Holds.bind (holds_hashLoop hA hH (fun fs hs => hs.2) reads fuel 0 H.new (Nat.zero_le _)
    hfuel ⟨[], rfl, rfl⟩) (fun hasher => ?_) s hs
  rintro s ⟨hs, hfin⟩
  rw [hfin, hk, Hosts.storeHashed_eq]
  refine holds_store hA ?_ s hs
  rw [withContext, Fallible.slice_mapError, io, Fallible.slice_mapError, IoM.op,
    Fallible.slice_perform]
  exact Holds.mapError (Holds.mapError (holds_copy hsizes hv))

end Puts

end

/-- A put of a content: of a blob, or of a file that holds it. -/
inductive Put
  | blob
  | file (reads : Loc → ℕ → ℕ) (fuel : ℕ) (path : PathBuf)

/-- The call. -/
def Put.action (H : Blake3) (root : Loc) (content : Bytes) : Put → Action String
  | .blob => (storeAt root).putBlob H content
  | .file reads fuel path => (storeAt root).putFile H reads fuel path

/-- What is put holds the content, and is not the temporary file. -/
def Put.Fits (root : Loc) (k : Key) (content : Bytes) (fs : FS) : Put → Prop
  | .blob => True
  | .file _ fuel path =>
    ∃ v, Source fs path v content ∧ v ≠ k.tempLoc root ∧ content.length < fuel

/-- Two puts, with their operations cut into calls. -/
def puts (sizes : Side → ℕ → List ℕ) (H : Blake3) (root : Loc) (content : Bytes) (p q : Put)
    (fs : FS) : Pair SysCall SysCall.Res (Except Error String) (Except Error String) Shared :=
  ⟨Fallible.slice (FsOp.slices (sizes .left)) (p.action H root content),
    Fallible.slice (FsOp.slices (sizes .right)) (q.action H root content), ⟨fs, fun _ => none⟩⟩

section

variable {K : Kernel} {root : Loc} {content : Bytes} {sizes : Side → ℕ → List ℕ} {H : Blake3}
  {fs : FS} {p q : Put}

/-- A store with room for the object, which is not there or as it should be. -/
theorem raceInv_start {k : Key} (hclear : Clear fs (objectsDir root)) (hroom : Room fs root k)
    (hobject : ∀ nd, fs.lookup (k.loc root) = some nd → ∃ m t, nd = .file content m t) :
    RaceInv root k content ⟨fs, fun _ => none⟩ where
  clear := hclear
  way := hroom.1
  temp := hroom.2
  object := hobject
  names _ _ _ h := nomatch h
  one _ _ _ h := nomatch h

theorem raceInv_empty (h : EmptyStore root fs) (k : Key) :
    RaceInv root k content ⟨fs, fun _ => none⟩ := by
  have hnone : ∀ v, objectsDir root <+: v → fs.lookup v = none := by
    rintro v ⟨w, rfl⟩
    exact FS.lookup_append_of_none h.objects w
  refine raceInv_start h.layout.objects ⟨fun u hu _ => ?_, .inl (hnone _ ?_)⟩ fun nd hl => ?_
  · rw [List.nil_append]
    rcases k.shardLoc_comparable hu with hpre | hpre
    · rcases List.prefix_concat_iff.1 hpre with rfl | hpre
      · exact .inl h.objects
      · obtain ⟨m, t, n, hl⟩ := FS.isDir_iff.1 h.layout.isDir
        by_cases heq : u = root
        · exact .inr (heq ▸ h.layout.isDir)
        · exact .inr (FS.isDir_of_prefix (by rw [hl]; rfl) hpre heq)
    · exact .inl (hnone u hpre)
  · exact k.objectsDir_prefix_tempLoc root
  · rw [hnone _ (k.objectsDir_prefix_loc root)] at hl
    cases hl

theorem wp_put (hsizes : ∀ i n, (sizes i n).sum = n) (hH : H.Lawful) {i : Side}
    (hstart : RaceInv root (hH.key content) content ⟨fs, fun _ => none⟩)
    (hp : p.Fits root (hH.key content) content fs) :
    (racer K root (hH.key content) content i).wp
      (Ends (fun hash s => hash = H.hash content ∧ Placed root (hH.key content) content s)
        (fun _ _ => False))
      (Fallible.slice (FsOp.slices (sizes i)) (p.action H root content)) ⟨fs, fun _ => none⟩ := by
  cases p with
  | blob => exact holds_putBlob (hsizes i) (hH.key_text content).symm _ ⟨hstart, rfl, trivial⟩
  | file reads fuel path =>
    obtain ⟨v, hsource, hv, hfuel⟩ := hp
    exact holds_putFile (hsizes i) hH (hH.key_text content).symm hv hfuel _ ⟨hstart, rfl, hsource⟩

theorem RaceInv.read {k : Key} {s : Shared} (hi : RaceInv root k content s) {b : Bytes}
    (hb : s.fs.read (Loc.toPath (k.loc root)) = .ok b) : b = content := by
  rw [FS.read] at hb
  cases hst : s.fs.stat true (Loc.toPath (k.loc root)) with
  | error e =>
    rw [hst] at hb
    cases hb
  | ok nd =>
    have hl := hi.clear.lookup_of_stat (.inr (k.objectsDir_prefix_loc root)) (k.loc_ne_nil root) hst
    obtain ⟨m, t, rfl⟩ := hi.object nd hl
    rw [hst] at hb
    cases hb
    rfl

theorem Placed.read {k : Key} {s : Shared} (hs : Placed root k content s) :
    s.fs.read (Loc.toPath (k.loc root)) = .ok content := by
  obtain ⟨nd, hl⟩ := Option.isSome_iff_exists.1 hs.2
  obtain ⟨m, t, rfl⟩ := hs.1.object nd hl
  rw [FS.read, hs.1.clear.stat_of_lookup (.inr (k.objectsDir_prefix_loc root))
    (k.loc_ne_nil root) hl]

/-- **Two puts of one content, neither of which opens the temporary file while the other has it
open and has not renamed it**: whatever the order of their calls, the place of the object is never
read with anything but the content; who is done has returned the hash, and the object is there;
and the calls come to an end. -/
theorem puts_race (hsizes : ∀ i n, (sizes i n).sum = n) (hH : H.Lawful)
    (hstart : RaceInv root (hH.key content) content ⟨fs, fun _ => none⟩)
    (hp : p.Fits root (hH.key content) content fs) (hq : q.Fits root (hH.key content) content fs)
    {es : List Side}
    {z : Pair SysCall SysCall.Res (Except Error String) (Except Error String) Shared}
    (hrun : run (Pair.step K.sys) (puts sizes H root content p q fs) es = some z)
    (hopens : Along (Pair.step K.sys) (Pair.Allowed Opens)
      (puts sizes H root content p q fs) es) :
    (∀ b, z.state.fs.read (Loc.toPath ((hH.key content).loc root)) = .ok b → b = content) ∧
    (∀ r, z.left.result = some r ∨ z.right.result = some r → r = .ok (H.hash content) ∧
      z.state.fs.read (Loc.toPath ((hH.key content).loc root)) = .ok content) ∧
    Acc (fun z' z => ∃ e, Pair.step K.sys z e = some z') z := by
  have hdone : ∀ i, ∀ r : Except Error String, (racer K root (hH.key content) content i).Stable
      (Ends (fun hash s => hash = H.hash content ∧ Placed root (hH.key content) content s)
        (fun _ _ => False) r) := by
    rintro i (e | hash) s s' h hr
    · exact h
    · exact ⟨h.1, stable_placed s s' h.2 hr⟩
  have hrely : ∀ i s s', (racer K root (hH.key content) content i).guar s s' →
      (racer K root (hH.key content) content i.other).rely s s' := fun i s s' h => by
    show RaceInv root (hH.key content) content s → Turned _ _ _ i.other.other s s'
    rw [Side.other_other]
    exact h
  obtain ⟨hi, hl, hr⟩ := parallel (M := racer K root (hH.key content) content)
    (I := RaceInv root (hH.key content) content) hrely (fun i s s' hi h => (h hi).inv)
    (hdone .left) (hdone .right) hstart (wp_put hsizes hH hstart hp) (wp_put hsizes hH hstart hq)
    hrun hopens
  refine ⟨fun b hb => hi.read hb, ?_, Pair.acc _ z⟩
  rintro r (h | h)
  · rw [Program.result_eq_some.1 h] at hl
    rcases r with e | hash
    · exact hl.elim
    · exact ⟨congrArg Except.ok hl.1, hl.2.read⟩
  · rw [Program.result_eq_some.1 h] at hr
    rcases r with e | hash
    · exact hr.elim
    · exact ⟨congrArg Except.ok hr.1, hr.2.read⟩

end

/-! ### Two puts of a blob -/

section Sample

/-- Two puts of the blob `a`. -/
def samplePuts : Pair SysCall SysCall.Res (Except Error String) (Except Error String) Shared :=
  puts (fun _ n => [n]) (Blake3.ofTable sampleHashes) sampleRoot (utf8 "a") .blob .blob sampleStore

/-- The key of the blob. -/
def sampleKey : Key := (Blake3.ofTable_lawful sampleHashes).key (utf8 "a")

/-- An order in which one opens the temporary file when the other has renamed it. -/
def sampleTurns : List Side := .right :: List.replicate 7 .left ++ List.replicate 5 .right

theorem puts_race_sample : ∃ z, run (Pair.step sampleKernel.sys) samplePuts sampleTurns = some z ∧
    z.state.fs.read (Loc.toPath (sampleKey.loc sampleRoot)) = .ok (utf8 "a") := by
  have hrun : ((run (Pair.step sampleKernel.sys) samplePuts sampleTurns).any
      fun z => z.left.result.isSome && z.right.result.isSome) = true ∧
      Along (Pair.step sampleKernel.sys) (Pair.Allowed Opens) samplePuts sampleTurns := by
    decide +kernel
  obtain ⟨z, hz, hdone⟩ := (Option.any_eq_true _ _).1 hrun.1
  obtain ⟨r, hr⟩ := Option.isSome_iff_exists.1 (Bool.and_eq_true_iff.1 hdone).1
  have hfits : Put.Fits sampleRoot sampleKey (utf8 "a") sampleStore .blob := trivial
  exact ⟨z, hz, ((puts_race (fun _ n => List.sum_singleton) (Blake3.ofTable_lawful sampleHashes)
    (raceInv_empty emptyStore_sample _) hfits hfits hz hrun.2).2.1 r (.inl hr)).2⟩

/-- When one call opens, and truncates, the temporary file that the other has written, the other
makes an empty object of it; and then the one does not find what it has written. -/
theorem truncated_object : RaceInv sampleRoot sampleKey (utf8 "a") ⟨sampleStore, fun _ => none⟩ ∧
    (∃ z, run (Pair.step sampleKernel.sys) samplePuts
        (List.replicate 6 .left ++ List.replicate 4 .right ++ [.left]) = some z ∧
      z.state.fs.read (Loc.toPath (sampleKey.loc sampleRoot)) = .ok []) ∧
    ∃ z, run (Pair.step sampleKernel.sys) samplePuts
        (List.replicate 6 .left ++ List.replicate 4 .right ++ [.left, .right, .right]) = some z ∧
      z.right.result = some (.error (.io .enoent)) := by
  have hrun : ((run (Pair.step sampleKernel.sys) samplePuts
        (List.replicate 6 .left ++ List.replicate 4 .right ++ [.left])).any fun z =>
          z.state.fs.read (Loc.toPath (sampleKey.loc sampleRoot)) = .ok []) = true ∧
      ((run (Pair.step sampleKernel.sys) samplePuts
        (List.replicate 6 .left ++ List.replicate 4 .right ++ [.left, .right, .right])).any fun z =>
          z.right.result = some (.error (.io .enoent))) = true := by
    decide +kernel
  obtain ⟨z, hz, hread⟩ := (Option.any_eq_true _ _).1 hrun.1
  obtain ⟨z', hz', hfailed⟩ := (Option.any_eq_true _ _).1 hrun.2
  exact ⟨raceInv_empty emptyStore_sample _, ⟨z, hz, of_decide_eq_true hread⟩, z', hz',
    of_decide_eq_true hfailed⟩

end Sample

end SandD
