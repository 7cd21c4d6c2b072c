import SandD.Snapshot.Create
import SandD.Snapshot.Tables

/-!
# Storing files of a busy workspace

Calls that put objects, step by step, next to another process that writes to regular files
outside the objects directory.  `putFile` reads its file twice, to hash it and to copy it; the
state of a run records which file is between the two.

* `World.busy`: the kernel with a writer, who may be `careful` not to change the bytes of the
  file that is being stored;
* `BusyRun`: runs of calls;
* `content_of_careful`: **with a careful writer every object holds what its name says**;
* `busy_breaks_content`: otherwise it may not.
-/

namespace SandD

open Posix ObjectStore
open Fallible (Spec Ends exec)

/-! ### The setting -/

/-- A file system, and the file that has been opened to be stored and not been copied yet. -/
structure BusyState where
  fs : FS
  storing : Option Loc

/-- What becomes of the file that is being stored: it is opened, and it is done with when it has
been copied or when the object turns out to be there (the path of an object is three names longer
than the root). -/
def noteStoring (root : Loc) (s : BusyState) : FsOp → Option Loc
  | .openFile p => (s.fs.openFile p).toOption.or s.storing
  | .copy .. => none
  | .metadata p =>
    if root.length + 3 ≤ p.length ∧ (s.fs.stat true p).isOk = true then none else s.storing
  | _ => s.storing

/-- Another process gives a regular file outside the objects directory new contents. -/
inductive Writes (root : Loc) (careful : Prop) (s s' : BusyState) : Prop
  | mk (v : Loc) (data : Bytes) (m : Mode) (t : ℤ) (data' : Bytes) (m' : Mode) (t' : ℤ)
      (hv : ¬ objectsDir root <+: v) (hold : s.fs.lookup v = some (.file data m t))
      (hup : s'.fs.lookup = Function.update s.fs.lookup v (some (.file data' m' t')))
      (hstoring : s'.storing = s.storing)
      (hcareful : careful → s.storing = some v → data' = data)

theorem Writes.rewrites {root : Loc} {careful : Prop} {s s' : BusyState}
    (h : Writes root careful s s') : Rewrites s.fs s'.fs := by
  obtain ⟨v, data, m, t, data', m', t', -, hold, hup, -, -⟩ := h
  intro u
  by_cases heq : u = v
  · exact Or.inr ⟨data, m, t, data', m', t', heq ▸ hold, by rw [hup, heq, Function.update_self]⟩
  · exact Or.inl (by rw [hup, Function.update_of_ne heq])

/-- The objects directory is not written to. -/
theorem Writes.frame {root : Loc} {careful : Prop} {s s' : BusyState}
    (h : Writes root careful s s') {u : Loc} (hu : objectsDir root <+: u) :
    s'.fs.lookup u = s.fs.lookup u := by
  obtain ⟨v, _, _, _, _, _, _, hv, -, hup, -, -⟩ := h
  rw [hup, Function.update_of_ne]
  rintro rfl
  exact hv hu

/-- The kernel with a writer; `J` has to hold all the time. -/
def World.busy (K : Kernel) (root : Loc) (careful : Prop) (J : BusyState → Prop)
    (hJ : ∀ s s', J s → Writes root careful s s' → J s') : World K BusyState where
  handle o s := ((K.handle o s.fs).1, ⟨(K.handle o s.fs).2, noteStoring root s o⟩)
  torn _ _ _ := False
  rely := Writes root careful
  inv := J
  inv_rely := hJ
  fs := BusyState.fs
  answer _ _ := rfl
  effect _ _ := rfl
  torn_fs _ _ _ h := h.elim
  rely_fs _ _ h := h.rewrites

/-- The setting of a program next to a writer. -/
abbrev busy (K : Kernel) (root : Loc) (careful : Prop) : Setting FsOp FsOp.Res BusyState :=
  (World.busy K root careful (fun _ => True) fun _ _ _ _ => trivial).toSetting

/-! ### The invariant -/

/-- A snapshot root in order whose objects hold what their names say. -/
structure BusySound (H : Blake3) (root : Loc) (fs : FS) : Prop where
  layout : Layout root fs
  content : Content H root fs

variable {K : Kernel} {H : Blake3} {root : Loc}

theorem BusySound.writes {careful : Prop} {s s' : BusyState} (hs : BusySound H root s.fs)
    (h : Writes root careful s s') : BusySound H root s'.fs := by
  have hr := h.rewrites
  refine ⟨⟨?_, fun v hv hl => hs.layout.objects v hv (by rwa [hr.isLink] at hl),
    hs.layout.snapshots.rewrites hr, hs.layout.tags.rewrites hr⟩, fun k data hk => ?_⟩
  · rw [hr.isDir]
    exact hs.layout.isDir
  · rw [objectAt, h.frame (k.objectsDir_prefix_loc root)] at hk
    exact hs.content k data hk

/-- The world of a careful writer. -/
abbrev carefulWorld (K : Kernel) (H : Blake3) (root : Loc) : World K BusyState :=
  World.busy K root True (fun s => BusySound H root s.fs) fun _ _ hs h => hs.writes h

/-- Between two puts there is no temporary file, so none is ever stored. -/
theorem keeper_careful (K : Kernel) (H : Blake3) (root : Loc) :
    Keeper (carefulWorld K H root) H root (NoTemp root) where
  inv_fs s s' heq hi := by
    have heq' : s'.fs = s.fs := heq
    show BusySound H root s'.fs
    rw [heq']
    exact hi
  clear s hi := hi.layout.objects
  inv_step k s s' a b _ hi _ h := ⟨h.layout hi.layout, h.content hi.content⟩
  rely_objects s s' _ hr v hv := hr.frame hv
  step k s s' a b _ _ hs h := h.noTemp hs
  rely s s' a _ hs hr k hk := by
    have hsame : s'.fs.lookup (k.tempLoc root) = s.fs.lookup (k.tempLoc root) :=
      hr.frame (k.objectsDir_prefix_tempLoc root)
    exact hsame.trans (hs k hk)
  layout s hi _ := hi.layout
  ref s s' hi hs h := by
    refine ⟨⟨h.layout hi.layout, fun k data hk => ?_⟩, fun k hk => ?_⟩
    · exact hi.content k data (by rw [← hk]; exact congrFun h.objectAt.symm k)
    · exact (h.frame (k.objectsDir_prefix_tempLoc root)).trans (hs k hk)
  source s _ hs path v data k hv := hs.source hv k

/-- A careful writer leaves the file that is being stored alone. -/
def leaseCareful (K : Kernel) (H : Blake3) (root : Loc) : Lease (carefulWorld K H root) root where
  held v s := s.storing = some v
  granted s p v _ ho := by
    have ho' : s.fs.openFile p = .ok v := ho
    show (s.fs.openFile p).toOption.or s.storing = some v
    rw [ho']
    rfl
  kept s o v _ hh ho := by
    show noteStoring root s o = some v
    cases o with
    | metadata p =>
      have ho' : p.length < root.length + 3 ∨ (s.fs.stat true p).isOk = false := ho
      rw [noteStoring, if_neg, hh]
      rintro ⟨hlen, hok⟩
      rcases ho' with h | h
      · omega
      · rw [hok] at h
        cases h
    | createDir p => exact hh
    | readChunk f offset size => exact hh
    | _ => exact ho.elim
  safe s s' v _ hh hr := by
    obtain ⟨u, data, m, t, data', m', t', -, hold, hup, hst, hcareful⟩ := hr
    refine ⟨hst.trans hh, fun b m₀ t₀ hb => ?_⟩
    show ∃ m t, s'.fs.lookup v = some (.file b m t)
    by_cases heq : v = u
    · subst heq
      have hb' : s.fs.lookup v = some (.file b m₀ t₀) := hb
      rw [hold] at hb'
      cases hb'
      exact ⟨m', t', by rw [hup, Function.update_self, hcareful trivial hh]⟩
    · exact ⟨m₀, t₀, by rw [hup, Function.update_of_ne heq]; exact hb⟩

/-! ### Runs -/

/-- The calls that put objects. -/
inductive PutCall (H : Blake3) (J : Serde) (root : Loc) : Action String → Prop
  | putBlob (content : Bytes) : PutCall H J root ((storeAt root).putBlob H content)
  | putFile (reads : Loc → ℕ → ℕ) (fuel : ℕ) (path : PathBuf) :
      PutCall H J root ((storeAt root).putFile H reads fuel path)
  | createSnapshot (reads : Loc → ℕ → ℕ) (fuel : ℕ) (now : ℤ) (uuid : Uuid)
      (workspace : PathBuf) (message : Option String) (tags : Option (List String)) :
      PutCall H J root ((managerAt root).createSnapshot H J reads fuel now uuid.text workspace
        message tags)

/-- The file systems between the calls of a run. -/
inductive BusyRun (K : Kernel) (H : Blake3) (J : Serde) (root : Loc) (careful : Prop)
    (fs₀ : FS) : FS → Prop
  | start : BusyRun K H J root careful fs₀ fs₀
  | call {fs : FS} {p : Action String} {r : Except Error String} {t : BusyState}
      (hrun : BusyRun K H J root careful fs₀ fs) (hp : PutCall H J root p)
      (hi : (busy K root careful).Interleaved p ⟨fs, none⟩ (Program.done r) t) :
      BusyRun K H J root careful fs₀ t.fs

section Run

variable {J : Serde} {fs₀ fs : FS}

/-- The calls keep what a careful writer leaves. -/
theorem PutCall.keeps (hH : H.Lawful) {p : Action String} (hp : PutCall H J root p) :
    Keeps (carefulWorld K H root) (NoTemp root) p := by
  have hK := keeper_careful K H root
  have L := leaseCareful K H root
  cases hp with
  | putBlob content => exact hK.toBuilder.putBlob hH content
  | putFile reads fuel path => exact hK.toBuilder.putFile L hH path
  | createSnapshot reads fuel now uuid workspace message tags =>
    exact hK.createSnapshot L hH now uuid workspace message tags

theorem PutCall.interleaved (hH : H.Lawful) {p q : Action String} (hp : PutCall H J root p)
    {t : BusyState} (hs : BusySound H root fs) (hn : NoTemp root none fs)
    (hi : (busy K root True).Interleaved p ⟨fs, none⟩ q t) :
    BusySound H root t.fs ∧ ∀ r, q = Program.done r → NoTemp root none t.fs := by
  have hstable : ∀ r : Except Error String, (carefulWorld K H root).Stable
      (Ends (fun _ s => NoTemp root none s.fs) (fun _ s => NoTemp root none s.fs) r) := by
    rintro (e | h) s s' hi hs hr
    · exact (keeper_careful K H root).rely s s' none hi hs hr
    · exact (keeper_careful K H root).rely s s' none hi hs hr
  have hi' : (carefulWorld K H root).Interleaved p ⟨fs, none⟩ q t := by
    refine Setting.Interleaved.of_eq ?_ ?_ hi <;> rfl
  have hq := Setting.wp_interleaved hstable (hp.keeps hH ⟨fs, none⟩ hs hn) hi'
  refine ⟨Setting.wp_inv hq, ?_⟩
  rintro (e | h) rfl
  · exact hq.2
  · exact hq.2

theorem BusyRun.sound (hH : H.Lawful) (h₀ : EmptyStore root fs₀)
    (hrun : BusyRun K H J root True fs₀ fs) : BusySound H root fs ∧ NoTemp root none fs := by
  induction hrun with
  | start =>
    have hbelow : ∀ v, objectsDir root <+: v → fs₀.lookup v = none := by
      rintro v ⟨w, rfl⟩
      exact FS.lookup_append_of_none h₀.objects w
    refine ⟨⟨h₀.layout, fun k data hk => ?_⟩, fun k _ =>
      hbelow _ (k.objectsDir_prefix_tempLoc root)⟩
    rw [objectAt, hbelow _ (k.objectsDir_prefix_loc root)] at hk
    cases hk
  | call _ hp hi ih =>
    obtain ⟨hs, hn⟩ := hp.interleaved hH ih.1 ih.2 hi
    exact ⟨hs, hn _ rfl⟩

/-- What is read under a hash hashes to it. -/
theorem BusySound.getBlob (hs : BusySound H root fs) {hash : String} {b : Bytes}
    (h : (exec K.handle ((storeAt root).getBlob hash) fs).1 = .ok b) : H.hash b = hash := by
  rw [ObjectStore.getBlob] at h
  rcases hk : (storeAt root).hashToPath hash with e | q
  · rw [hk] at h
    cases h
  · obtain ⟨k, rfl, rfl⟩ := hashToPath_eq_ok_iff.1 hk
    rw [hk, Fallible.ofExcept_ok_bind, withContext, io, Fallible.exec_mapError,
      Fallible.exec_mapError, IoM.op, Fallible.exec_perform] at h
    simp only [Kernel.handle, FS.read] at h
    rcases hst : fs.stat true (Loc.toPath (k.loc root)) with e | nd <;> rw [hst] at h
    · cases h
    · have hl := hs.layout.objects.lookup_of_stat (Or.inr (k.objectsDir_prefix_loc root))
        (k.loc_ne_nil root) hst
      cases nd with
      | file data m t =>
        cases h
        exact hs.content k b (by rw [objectAt, hl])
      | _ => cases h

/-- **With a careful writer objects hold what their names say**, at every moment of every run:
no object has other bytes than those its name is the hash of, and none are ever read. -/
theorem content_of_careful (hH : H.Lawful) (h₀ : EmptyStore root fs₀)
    (hrun : BusyRun K H J root True fs₀ fs) {p q : Action String} (hp : PutCall H J root p)
    {t : BusyState} (hi : (busy K root True).Interleaved p ⟨fs, none⟩ q t) :
    Content H root t.fs ∧
      ∀ hash b, (exec K.handle ((storeAt root).getBlob hash) t.fs).1 = .ok b → H.hash b = hash := by
  obtain ⟨hs, hn⟩ := hrun.sound hH h₀
  have ht := (hp.interleaved hH hs hn hi).1
  exact ⟨ht.content, fun _ _ h => ht.getBlob h⟩

end Run

section Sample

/-- The workspace `/w` with the file `f`, which holds `a`. -/
def sampleWorkspace : FS :=
  ⟨[([⟨utf8 "w", validName_w⟩], .dir 0o755 0 4096),
    ([⟨utf8 "w", validName_w⟩, ⟨utf8 "f", validName_f⟩], .file (utf8 "a") 0o644 0)]⟩

/-- The same with an empty store in `/s`. -/
def sampleStore : FS :=
  (exec sampleKernel.handle (SnapshotManager.new (Loc.toPath sampleRoot)) sampleWorkspace).2

/-- A store is made where there is none. -/
theorem emptyStore_of_new {fs : FS} (habove : fs.isDir sampleRoot.dropLast)
    (hnone : fs.lookup sampleRoot = none) (h : (exec sampleKernel.handle
      (SnapshotManager.new (Loc.toPath sampleRoot)) fs).1.isOk = true) :
    EmptyStore sampleRoot
      (exec sampleKernel.handle (SnapshotManager.new (Loc.toPath sampleRoot)) fs).2 := by
  rcases hr : exec sampleKernel.handle (SnapshotManager.new (Loc.toPath sampleRoot)) fs
    with ⟨e | r, fs'⟩
  · rw [hr] at h
    cases h
  · exact emptyStore_new habove hnone hr

theorem emptyStore_sample : EmptyStore sampleRoot sampleStore := by
  rw [sampleStore]
  exact emptyStore_of_new (by decide) (by decide) (by decide +kernel)

/-- The place of the file `f`. -/
def sampleFile : Loc := [⟨utf8 "w", validName_w⟩, ⟨utf8 "f", validName_f⟩]

/-- `f` is stored. -/
def sampleCall : Action String :=
  (storeAt sampleRoot).putFile (Blake3.ofTable sampleHashes) (fun _ _ => 1) 3
    (Loc.toPath sampleFile)

/-- What is left of the call after `f` was opened and read, and the state then. -/
def sampleRead : Action String × BusyState :=
  Program.advance (busy sampleKernel sampleRoot False).handle 3 sampleCall ⟨sampleStore, none⟩

/-- Now `b` is written to `f`. -/
def sampleWritten : BusyState :=
  ⟨sampleRead.2.fs.modify sampleFile (Node.overwrite (utf8 "b") 0), sampleRead.2.storing⟩

/-- Left alone, the call gives an object that holds what its name says. -/
theorem content_of_careful_sample :
    Content (Blake3.ofTable sampleHashes) sampleRoot
      (Program.run (busy sampleKernel sampleRoot True).handle sampleCall
        ⟨sampleStore, none⟩).2.fs :=
  (content_of_careful (J := Serde.ofTable ⟨[], [], by decide, by decide, by decide⟩)
    (Blake3.ofTable_lawful sampleHashes) emptyStore_sample .start
    (.putFile (fun _ _ => 1) 3 (Loc.toPath sampleFile))
    (Setting.interleaved_run sampleCall _)).1

/-- The end of the call. -/
def sampleEnd : BusyState :=
  (Program.run (busy sampleKernel sampleRoot False).handle sampleRead.1 sampleWritten).2

theorem lookup_sampleRead :
    sampleRead.2.fs.lookup sampleFile = some (.file (utf8 "a") 0o644 0) := by
  decide +kernel

theorem writes_sample : Writes sampleRoot False sampleRead.2 sampleWritten := by
  have hup : sampleWritten.fs.lookup = Function.update sampleRead.2.fs.lookup sampleFile
      (some (.file (utf8 "b") 0o644 0)) := by
    have h := (editAt_modify sampleRead.2.fs (v := sampleFile) (by decide)
      (Node.isDir_overwrite (utf8 "b") 0)).update (isDir_of_file lookup_sampleRead)
    rw [lookup_sampleRead] at h
    exact h
  exact .mk sampleFile _ _ _ (utf8 "b") 0o644 0 (by decide) lookup_sampleRead hup
    (by rw [sampleWritten]) fun h => h.elim

/-- A write between the hashing and the copying of a file leaves an object with other bytes than
those its name is the hash of. -/
theorem busy_breaks_content :
    ∃ t, EmptyStore sampleRoot sampleStore ∧
      (busy sampleKernel sampleRoot False).Interleaved sampleCall ⟨sampleStore, none⟩
        (Program.done (.ok (sampleHashes.hash (utf8 "a")))) t ∧
      ¬ Content (Blake3.ofTable sampleHashes) sampleRoot t.fs := by
  have hread : (busy sampleKernel sampleRoot False).Interleaved sampleCall ⟨sampleStore, none⟩
      sampleRead.1 sampleRead.2 := by
    rw [sampleRead]
    exact Setting.interleaved_advance 3 sampleCall _
  have hrun : (busy sampleKernel sampleRoot False).Interleaved sampleRead.1 sampleWritten
      (Program.done (.ok (sampleHashes.hash (utf8 "a")))) sampleEnd := by
    have hresult : (Program.run (busy sampleKernel sampleRoot False).handle sampleRead.1
        sampleWritten).1 = .ok (sampleHashes.hash (utf8 "a")) := by decide +kernel
    rw [← hresult, sampleEnd]
    exact Setting.interleaved_run _ _
  refine ⟨sampleEnd, emptyStore_sample, hread.trans (.others writes_sample hrun), fun h => ?_⟩
  exact absurd (h ((Blake3.ofTable_lawful sampleHashes).key (utf8 "a")) (utf8 "b")
    (by decide +kernel)) (by decide +kernel)

end Sample

end SandD
