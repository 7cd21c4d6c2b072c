import SandD.Posix.World

/-!
# Disks that fail

An operation may fail for reasons that the file system itself does not show: a name that is too
long, a full disk, a broken one.  A write or a copy that fails may have been begun.

* `Outcome`: what an operation may come to;
* `Disk`: a setting whose operations come to something of this kind; others may do anything;
* `Disk.faulty`: the kernel with a list of the faults to come, which keeps the last operation.
-/

namespace Posix

/-- What an operation may answer, and what it may leave. -/
inductive Outcome (K : Kernel) (o : FsOp) (fs : FS) : o.Res → FS → Prop
  | done : Outcome K o fs (K.handle o fs).1 (K.handle o fs).2
  | failed (e : Errno) : Outcome K o fs (.error e) fs
  | torn (e : Errno) {fs' : FS} (h : K.Torn o fs fs') : Outcome K o fs (.error e) fs'

/-- An operation that succeeds has done what the kernel does. -/
theorem Outcome.of_ok {K : Kernel} {o : FsOp} {fs fs' : FS} {r : o.Res} {a : o.Ret}
    (h : Outcome K o fs r fs') (hr : r = .ok a) :
    (K.handle o fs).1 = .ok a ∧ fs' = (K.handle o fs).2 := by
  cases h with
  | done => exact ⟨hr, rfl⟩
  | failed => cases hr
  | torn => cases hr

/-- A setting with a file system whose operations may fail. -/
structure Disk (K : Kernel) (σ : Type) extends Setting FsOp FsOp.Res σ where
  fs : σ → FS
  outcome : ∀ o s, Outcome K o (fs s) (handle o s).1 (fs (handle o s).2)
  torn_fs : ∀ o s t, torn o s t → K.Torn o (fs s) (fs t)

/-- The kernel by itself, when a program may be cut short; `J` has to hold all the time. -/
def Disk.crashing (K : Kernel) (J : FS → Prop) : Disk K FS where
  toSetting := (World.crashing K J).toSetting
  fs s := s
  outcome _ _ := .done
  torn_fs _ _ _ h := h

/-- A fault: the error, and how much of the contents has been written. -/
structure Fault where
  error : Errno
  written : Option ℕ
  deriving DecidableEq

/-- What an operation that fails leaves. -/
def Fault.leave (K : Kernel) (f : Fault) (o : FsOp) (fs : FS) : FS :=
  match f.written, o with
  | some n, .write p data =>
    match fs.write K p (data.take n) with
    | .ok fs' => fs'
    | .error _ => fs
  | some n, .copy src dst =>
    match fs.copyPart K (List.take n) src dst with
    | .ok fs' => fs'
    | .error _ => fs
  | _, _ => fs

/-- A file system, what will befall the operations to come, and the last one. -/
structure Faulty where
  fs : FS
  faults : List (Option Fault)
  last : Option FsOp

/-- One operation, or its fault. -/
def Faulty.handle (K : Kernel) : Program.Handler FsOp FsOp.Res Faulty := fun o s =>
  match s.faults with
  | some f :: rest => (.error f.error, ⟨f.leave K o s.fs, rest, some o⟩)
  | _ => ((K.handle o s.fs).1, ⟨(K.handle o s.fs).2, s.faults.tail, some o⟩)

variable {K : Kernel}

theorem Fault.leave_eq (f : Fault) (o : FsOp) (fs : FS) :
    f.leave K o fs = fs ∨ K.Torn o fs (f.leave K o fs) := by
  unfold Fault.leave
  split
  · split
    next h => exact .inr (.write _ h)
    next => exact .inl rfl
  · split
    next h => exact .inr (.copy _ h)
    next => exact .inl rfl
  · exact .inl rfl

theorem Faulty.outcome (o : FsOp) (s : Faulty) :
    Outcome K o s.fs (Faulty.handle K o s).1 (Faulty.handle K o s).2.fs := by
  unfold Faulty.handle
  split
  next f rest _ =>
    rcases f.leave_eq (K := K) o s.fs with h | h
    · show Outcome K o s.fs (.error f.error) (f.leave K o s.fs)
      rw [h]
      exact .failed f.error
    · exact .torn f.error h
  next => exact .done

@[simp] theorem Faulty.handle_last (o : FsOp) (s : Faulty) :
    (Faulty.handle K o s).2.last = some o := by
  unfold Faulty.handle
  split <;> rfl

/-- The kernel with faults; `J` has to hold all the time. -/
def Disk.faulty (K : Kernel) (J : Faulty → Prop) : Disk K Faulty where
  handle := Faulty.handle K
  torn _ _ _ := False
  rely _ _ := False
  inv := J
  inv_rely _ _ _ h := h.elim
  fs := Faulty.fs
  outcome := Faulty.outcome
  torn_fs _ _ _ h := h.elim

/-- Without faults to come the disk does what the kernel does. -/
theorem Faulty.handle_nil (o : FsOp) (fs : FS) (last : Option FsOp) :
    Faulty.handle K o ⟨fs, [], last⟩ = ((K.handle o fs).1, ⟨(K.handle o fs).2, [], some o⟩) := rfl

/-- Without faults to come a program runs as on the kernel. -/
theorem Faulty.run_nil {α : Type} (p : Program FsOp FsOp.Res α) (fs : FS) (last : Option FsOp) :
    (p.run (Faulty.handle K) ⟨fs, [], last⟩).1 = (p.run K.handle fs).1 ∧
      (p.run (Faulty.handle K) ⟨fs, [], last⟩).2.fs = (p.run K.handle fs).2 := by
  induction p generalizing fs last with
  | done a => exact ⟨rfl, rfl⟩
  | step o k ih =>
    rw [Program.run_step, Program.run_step, Faulty.handle_nil]
    exact ih _ _ _

end Posix
