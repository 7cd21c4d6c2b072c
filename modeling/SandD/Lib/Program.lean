import Mathlib.Tactic.Common
import Mathlib.Logic.Relation

/-!
# Effect programs

A program over a signature of operations `Op`, where the operation `o` is answered by a value
of `Res o`, is a well-founded tree: it is finished, or it issues one operation and goes on with
the answer.  A `Setting` says what the operations do, in what states a torn operation may leave
the system, and what others may do to the state between two operations.  One program text then
has several meanings, and the results about them share it.

* `Program.run`: every operation carried out, alone, to the end;
* `Setting.Interleaved`: one operation at a time, with steps of others in between;
* `Setting.Cut`: an interleaved run that is cut short after any of its operations, or in the
  middle of one;
* `Program.Beside`: two programs, an operation of one or the other at a time.

`Setting.wp` is the weakest precondition for all three: every state on the way satisfies the
invariant of the setting, and the program ends with the postcondition.  `Program.Issues` is a
bound on the operations of a program: what they keep, the program keeps.  `Program.Performs` is
one on those of a single run.

`Fallible` adds failure with errors of a type `ε`; an operation is answered by an `Except`, and
a failed computation ends the program unless it is caught by `attempt`.
-/

/-- A program over the operations `Op`, answered in `Res`, that ends with a value of `α`. -/
inductive Program (Op : Type) (Res : Op → Type) (α : Type) : Type
  | done (a : α)
  | step (o : Op) (next : Res o → Program Op Res α)

namespace Program

variable {Op : Type} {Res : Op → Type} {α β γ σ : Type}

/-- Sequencing. -/
def bind : Program Op Res α → (α → Program Op Res β) → Program Op Res β
  | .done a, f => f a
  | .step o k, f => .step o fun r => (k r).bind f

/-- What an operation does to the state, and its answer. -/
abbrev Handler (Op : Type) (Res : Op → Type) (σ : Type) := (o : Op) → σ → Res o × σ

theorem bind_assoc (p : Program Op Res α) (f : α → Program Op Res β)
    (g : β → Program Op Res γ) : (p.bind f).bind g = p.bind fun a => (f a).bind g := by
  induction p with
  | done a => rfl
  | step o k ih => simp only [bind, ih]

variable (h : Handler Op Res σ)

/-- Run a program to its end. -/
def run : Program Op Res α → σ → α × σ
  | .done a, s => (a, s)
  | .step o k, s => run (k (h o s).1) (h o s).2

/-- Carry out the first `n` operations of a program. -/
def advance : ℕ → Program Op Res α → σ → Program Op Res α × σ
  | n + 1, .step o k, s => advance n (k (h o s).1) (h o s).2
  | _, p, s => (p, s)

@[simp] theorem run_done (a : α) (s : σ) : run h (.done a : Program Op Res α) s = (a, s) := rfl

@[simp] theorem run_step (o : Op) (k : Res o → Program Op Res α) (s : σ) :
    run h (.step o k) s = run h (k (h o s).1) (h o s).2 := rfl

@[simp] theorem run_bind (p : Program Op Res α) (f : α → Program Op Res β) (s : σ) :
    run h (p.bind f) s = run h (f (run h p s).1) (run h p s).2 := by
  induction p generalizing s with
  | done a => rfl
  | step o k ih => simp only [bind, run_step, ih]

end Program

namespace Program

variable {Op : Type} {Res : Op → Type} {α β σ : Type}

/-! ### What a program may issue -/

/-- Whatever the answers are, the program issues operations of `A` only. -/
def Issues (A : Op → Prop) : Program Op Res α → Prop
  | .done _ => True
  | .step o k => A o ∧ ∀ r, (k r).Issues A

variable {A B : Op → Prop} {h : Handler Op Res σ}

theorem Issues.mono {p : Program Op Res α} (hp : p.Issues A) (hAB : ∀ o, A o → B o) :
    p.Issues B := by
  induction p with
  | done a => trivial
  | step o k ih => exact ⟨hAB o hp.1, fun r => ih r (hp.2 r)⟩

theorem Issues.bind {p : Program Op Res α} {f : α → Program Op Res β} (hp : p.Issues A)
    (hf : ∀ a, (f a).Issues A) : (p.bind f).Issues A := by
  induction p with
  | done a => exact hf a
  | step o k ih => exact ⟨hp.1, fun r => ih r (hp.2 r)⟩

/-! ### What a run issues -/

/-- Every operation of the run from a state is one of `A`. -/
def Performs (h : Handler Op Res σ) (A : Op → Prop) : Program Op Res α → σ → Prop
  | .done _, _ => True
  | .step o k, s => A o ∧ Performs h A (k (h o s).1) (h o s).2

theorem Issues.performs {p : Program Op Res α} (hp : p.Issues A) (s : σ) : p.Performs h A s := by
  induction p generalizing s with
  | done a => trivial
  | step o k ih => exact ⟨hp.1, ih _ (hp.2 _) _⟩

/-- Where two systems answer what a program may issue in the same way, it runs in the same way. -/
theorem run_congr {h' : Handler Op Res σ} {p : Program Op Res α} (hp : p.Issues A)
    (hh : ∀ o s, A o → h o s = h' o s) (s : σ) : run h p s = run h' p s := by
  induction p generalizing s with
  | done a => rfl
  | step o k ih =>
    show run h (k (h o s).1) (h o s).2 = run h' (k (h' o s).1) (h' o s).2
    rw [hh o s hp.1]
    exact ih _ (hp.2 _) _

theorem performs_bind {p : Program Op Res α} {f : α → Program Op Res β} {s : σ} :
    (p.bind f).Performs h A s ↔
      p.Performs h A s ∧ (f (run h p s).1).Performs h A (run h p s).2 := by
  induction p generalizing s with
  | done a => exact ⟨fun hf => ⟨trivial, hf⟩, fun hf => hf.2⟩
  | step o k ih =>
    constructor
    · rintro ⟨ho, hk⟩
      exact ⟨⟨ho, (ih _).1 hk |>.1⟩, (ih _).1 hk |>.2⟩
    · rintro ⟨⟨ho, hk⟩, hf⟩
      exact ⟨ho, (ih _).2 ⟨hk, hf⟩⟩

/-! ### Two programs side by side -/

/-- From two programs to what is left of them, after operations of one and the other in some
order. -/
inductive Beside (h : Handler Op Res σ) :
    Program Op Res α → Program Op Res β → σ → Program Op Res α → Program Op Res β → σ → Prop
  | refl (p : Program Op Res α) (q : Program Op Res β) (s : σ) : Beside h p q s p q s
  | left {o : Op} {k : Res o → Program Op Res α} {p' : Program Op Res α} {q q' : Program Op Res β}
      {s s' : σ} (hs : Beside h (k (h o s).1) q (h o s).2 p' q' s') :
      Beside h (.step o k) q s p' q' s'
  | right {o : Op} {k : Res o → Program Op Res β} {p p' : Program Op Res α}
      {q' : Program Op Res β} {s s' : σ} (hs : Beside h p (k (h o s).1) (h o s).2 p' q' s') :
      Beside h p (.step o k) s p' q' s'

theorem Beside.symm {p p' : Program Op Res α} {q q' : Program Op Res β} {s s' : σ}
    (hs : Beside h p q s p' q' s') : Beside h q p s q' p' s' := by
  induction hs with
  | refl => exact .refl _ _ _
  | left _ ih => exact .right ih
  | right _ ih => exact .left ih

theorem Beside.trans {p p' p'' : Program Op Res α} {q q' q'' : Program Op Res β} {s s' s'' : σ}
    (hs : Beside h p q s p' q' s') (hs' : Beside h p' q' s' p'' q'' s'') :
    Beside h p q s p'' q'' s'' := by
  induction hs with
  | refl => exact hs'
  | left _ ih => exact .left (ih hs')
  | right _ ih => exact .right (ih hs')

/-- The first `n` operations of the one program. -/
theorem beside_advance (n : ℕ) (p : Program Op Res α) (q : Program Op Res β) (s : σ) :
    Beside h p q s (advance h n p s).1 q (advance h n p s).2 := by
  induction n generalizing p s with
  | zero => exact .refl _ _ _
  | succ n ih =>
    cases p with
    | done a => exact .refl _ _ _
    | step o k => exact .left (ih _ _)

/-- The one program to its end. -/
theorem beside_run (p : Program Op Res α) (q : Program Op Res β) (s : σ) :
    Beside h p q s (.done (run h p s).1) q (run h p s).2 := by
  induction p generalizing s with
  | done a => exact .refl _ _ _
  | step o k ih => exact .left (ih _ _)

end Program

/-! ### Settings -/

/-- What surrounds a program. -/
structure Setting (Op : Type) (Res : Op → Type) (σ : Type) where
  /-- What the operations do. -/
  handle : Program.Handler Op Res σ
  /-- What a torn operation may leave. -/
  torn : Op → σ → σ → Prop
  /-- What others may do between two operations. -/
  rely : σ → σ → Prop
  /-- What has to hold all the time. -/
  inv : σ → Prop
  inv_rely : ∀ s s', inv s → rely s s' → inv s'

namespace Setting

open Relation (ReflTransGen)
open Program (Handler)

variable {Op : Type} {Res : Op → Type} {α β γ σ : Type}

/-- A program alone, that is not cut short. -/
def alone (h : Handler Op Res σ) : Setting Op Res σ where
  handle := h
  torn _ _ _ := False
  rely _ _ := False
  inv _ := True
  inv_rely _ _ _ _ := trivial

/-- A program next to others that carry out operations of `A`, which `I` stands. -/
def beside (h : Handler Op Res σ) (A : Op → Prop) (I : σ → Prop)
    (hI : ∀ o s, A o → I s → I (h o s).2) : Setting Op Res σ where
  handle := h
  torn _ _ _ := False
  rely s s' := ∃ o, A o ∧ s' = (h o s).2
  inv := I
  inv_rely := by
    rintro s _ hs ⟨o, ho, rfl⟩
    exact hI o s ho hs

variable (M : Setting Op Res σ)

/-- From a program and a state to those reached by steps of the program and of others. -/
inductive Interleaved : Program Op Res α → σ → Program Op Res α → σ → Prop
  | refl (p : Program Op Res α) (s : σ) : Interleaved p s p s
  | others {p q : Program Op Res α} {s s' t : σ} (hr : M.rely s s')
      (h : Interleaved p s' q t) : Interleaved p s q t
  | own {o : Op} {k : Res o → Program Op Res α} {q : Program Op Res α} {s t : σ}
      (h : Interleaved (k (M.handle o s).1) (M.handle o s).2 q t) :
      Interleaved (.step o k) s q t

/-- The states in which a run that is cut short may be left. -/
def Cut (p : Program Op Res α) (s t : σ) : Prop :=
  ∃ q s', M.Interleaved p s q s' ∧
    (s' = t ∨ ∃ o k, q = Program.step o k ∧ M.torn o s' t)

/-- Weakest precondition. -/
def wp (Q : α → σ → Prop) : Program Op Res α → σ → Prop
  | .done a, s => M.inv s ∧ Q a s
  | .step o k, s => M.inv s ∧ ∀ s', ReflTransGen M.rely s s' →
      (∀ t, M.torn o s' t → M.inv t) ∧ wp Q (k (M.handle o s').1) (M.handle o s').2

/-- Others leave an assertion alone. -/
def Stable (P : σ → Prop) : Prop := ∀ s s', M.inv s → P s → M.rely s s' → P s'

variable {M} {Q R : α → σ → Prop} {P : σ → Prop}

theorem Stable.star (hP : M.Stable P) {s s' : σ} (hi : M.inv s) (hs : P s)
    (h : ReflTransGen M.rely s s') : M.inv s' ∧ P s' := by
  induction h with
  | refl => exact ⟨hi, hs⟩
  | tail _ hr ih => exact ⟨M.inv_rely _ _ ih.1 hr, hP _ _ ih.1 ih.2 hr⟩

theorem wp_inv {p : Program Op Res α} {s : σ} (hp : M.wp Q p s) : M.inv s := by
  cases p with
  | done a => exact hp.1
  | step o k => exact hp.1

theorem wp_mono (hQ : ∀ a s, M.inv s → Q a s → R a s) {p : Program Op Res α} {s : σ}
    (hp : M.wp Q p s) : M.wp R p s := by
  induction p generalizing s with
  | done a => exact ⟨hp.1, hQ a s hp.1 hp.2⟩
  | step o k ih => exact ⟨hp.1, fun s' hs' => ⟨(hp.2 s' hs').1, ih _ (hp.2 s' hs').2⟩⟩

theorem wp_bind {p : Program Op Res α} {f : α → Program Op Res β} {Q : β → σ → Prop} {s : σ}
    (hp : M.wp (fun a s => M.wp Q (f a) s) p s) : M.wp Q (p.bind f) s := by
  induction p generalizing s with
  | done a => exact hp.2
  | step o k ih => exact ⟨hp.1, fun s' hs' => ⟨(hp.2 s' hs').1, ih _ (hp.2 s' hs').2⟩⟩

/-- The weakest precondition is sound for whole runs. -/
theorem wp_run {p : Program Op Res α} {s : σ} (hp : M.wp Q p s) :
    M.inv (p.run M.handle s).2 ∧ Q (p.run M.handle s).1 (p.run M.handle s).2 := by
  induction p generalizing s with
  | done a => exact hp
  | step o k ih => exact ih _ (hp.2 s .refl).2

/-- When nobody else does anything the program ends as it runs. -/
theorem wp_ran (hr : ∀ s s', ¬ M.rely s s') {p : Program Op Res α} {s : σ} (hp : M.wp Q p s) :
    M.wp (fun a t => Q a t ∧ p.run M.handle s = (a, t)) p s := by
  induction p generalizing s with
  | done a => exact ⟨hp.1, hp.2, rfl⟩
  | step o k ih =>
    refine ⟨hp.1, fun s' hs' => ?_⟩
    obtain rfl : s = s' := by
      cases hs' with
      | refl => rfl
      | tail _ h => exact (hr _ _ h).elim
    obtain ⟨ht, hk⟩ := hp.2 s .refl
    exact ⟨ht, ih _ hk⟩

theorem wp_rely (hQ : ∀ a, M.Stable (Q a)) {p : Program Op Res α} {s s' : σ} (hp : M.wp Q p s)
    (hr : M.rely s s') : M.wp Q p s' := by
  cases p with
  | done a => exact ⟨M.inv_rely _ _ hp.1 hr, hQ a s s' hp.1 hp.2 hr⟩
  | step o k => exact ⟨M.inv_rely _ _ hp.1 hr, fun t ht => hp.2 t (.head hr ht)⟩

/-- On the way the weakest precondition holds of what is left of the program. -/
theorem wp_interleaved (hQ : ∀ a, M.Stable (Q a)) {p q : Program Op Res α} {s t : σ}
    (hp : M.wp Q p s) (h : M.Interleaved p s q t) : M.wp Q q t := by
  induction h with
  | refl => exact hp
  | others hr _ ih => exact ih (wp_rely hQ hp hr)
  | own _ ih => exact ih (hp.2 _ .refl).2

/-- The weakest precondition is sound for runs that are cut short. -/
theorem wp_cut {p : Program Op Res α} {s t : σ} (hp : M.wp Q p s) (hc : M.Cut p s t) :
    M.inv t := by
  obtain ⟨q, s', hi, h⟩ := hc
  have hq : M.wp (fun _ _ => True) q s' :=
    wp_interleaved (fun _ _ _ _ _ _ => trivial) (wp_mono (fun _ _ _ _ => trivial) hp) hi
  rcases h with rfl | ⟨o, k, rfl, ht⟩
  · exact wp_inv hq
  · exact (hq.2 s' .refl).1 t ht

/-- What the operations that a program may issue keep, the program keeps. -/
theorem wp_issues {A : Op → Prop} {p : Program Op Res α} (hp : p.Issues A) (hP : M.Stable P)
    (hstep : ∀ o s, A o → M.inv s → P s → (∀ t, M.torn o s t → M.inv t) ∧
      M.inv (M.handle o s).2 ∧ P (M.handle o s).2) {s : σ} (hi : M.inv s) (hs : P s) :
    M.wp (fun _ => P) p s := by
  induction p generalizing s with
  | done a => exact ⟨hi, hs⟩
  | step o k ih =>
    refine ⟨hi, fun s' hr => ?_⟩
    obtain ⟨hi', hs'⟩ := hP.star hi hs hr
    obtain ⟨ht, hi'', hs''⟩ := hstep o s' hp.1 hi' hs'
    exact ⟨ht, ih _ (hp.2 _) hi'' hs''⟩

/-- Of two programs side by side the one runs next to the operations of the other. -/
theorem interleaved_of_beside {h : Handler Op Res σ} {A : Op → Prop} {I : σ → Prop}
    {hI : ∀ o s, A o → I s → I (h o s).2} {p p' : Program Op Res α} {q q' : Program Op Res β}
    {s s' : σ} (hs : Program.Beside h p q s p' q' s') (hq : q.Issues A) :
    (beside h A I hI).Interleaved p s p' s' := by
  induction hs with
  | refl => exact .refl _ _
  | left _ ih => exact .own (ih hq)
  | right _ ih => exact .others ⟨_, hq.1, rfl⟩ (ih (hq.2 _))

/-- What can be reached does not depend on what has to hold. -/
theorem Interleaved.of_eq {N : Setting Op Res σ} (hh : N.handle = M.handle)
    (hr : N.rely = M.rely) {p q : Program Op Res α} {s t : σ} (h : N.Interleaved p s q t) :
    M.Interleaved p s q t := by
  induction h with
  | refl => exact .refl _ _
  | others hr' _ ih => exact .others (hr ▸ hr') ih
  | own _ ih =>
    rw [hh] at ih
    exact .own ih

theorem Cut.of_eq {N : Setting Op Res σ} (hh : N.handle = M.handle) (ht : N.torn = M.torn)
    (hr : N.rely = M.rely) {p : Program Op Res α} {s t : σ} (h : N.Cut p s t) : M.Cut p s t := by
  obtain ⟨q, s', hi, h⟩ := h
  rw [ht] at h
  exact ⟨q, s', hi.of_eq hh hr, h⟩

theorem Interleaved.trans {p q r : Program Op Res α} {s t u : σ} (h : M.Interleaved p s q t)
    (h' : M.Interleaved q t r u) : M.Interleaved p s r u := by
  induction h with
  | refl => exact h'
  | others hr _ ih => exact .others hr (ih h')
  | own _ ih => exact .own (ih h')

/-- The first `n` operations of a program, with nothing in between. -/
theorem interleaved_advance (n : ℕ) (p : Program Op Res α) (s : σ) :
    M.Interleaved p s (Program.advance M.handle n p s).1 (Program.advance M.handle n p s).2 := by
  induction n generalizing p s with
  | zero => exact .refl _ _
  | succ n ih =>
    cases p with
    | done a => exact .refl _ _
    | step o k => exact .own (ih _ _)

/-- A program may run to its end with nothing in between. -/
theorem interleaved_run (p : Program Op Res α) (s : σ) :
    M.Interleaved p s (.done (p.run M.handle s).1) (p.run M.handle s).2 := by
  induction p generalizing s with
  | done a => exact .refl _ _
  | step o k ih => exact .own (ih _ _)

/-- A whole run is one that is cut short after its last operation. -/
theorem cut_run (p : Program Op Res α) (s : σ) : M.Cut p s (p.run M.handle s).2 := by
  exact ⟨.done (p.run M.handle s).1, _, interleaved_run p s, Or.inl rfl⟩

/-- Alone, the weakest precondition speaks about the run. -/
theorem wp_alone {h : Handler Op Res σ} {p : Program Op Res α} {s : σ} :
    (alone h).wp Q p s ↔ Q (p.run h s).1 (p.run h s).2 := by
  constructor
  · exact fun hp => (wp_run hp).2
  · intro hp
    induction p generalizing s with
    | done a => exact ⟨trivial, hp⟩
    | step o k ih =>
      refine ⟨trivial, fun s' hs' => ?_⟩
      obtain rfl : s = s' := by
        cases hs' with
        | refl => rfl
        | tail _ hr => exact hr.elim
      exact ⟨fun _ ht => ht.elim, ih _ hp⟩

end Setting

/-! ### Programs that may fail -/

/-- A program that ends with a value of `α` or fails with an error of `ε`. -/
def Fallible (Op : Type) (Res : Op → Type) (ε α : Type) := Program Op Res (Except ε α)

namespace Fallible

variable {Op : Type} {Res : Op → Type} {ε α β σ : Type}

/-- Go on with the value; an error ends the program. -/
def andThen (p : Fallible Op Res ε α) (f : α → Fallible Op Res ε β) : Fallible Op Res ε β :=
  Program.bind p fun
    | .ok a => f a
    | .error e => .done (.error e)

instance : Monad (Fallible Op Res ε) where
  pure a := Program.done (.ok a)
  bind := andThen

/-- Fail. -/
def fail (e : ε) : Fallible Op Res ε α := Program.done (.error e)

/-- Hand an error over as a value. -/
def attempt (p : Fallible Op Res ε α) : Fallible Op Res ε (Except ε α) :=
  Program.bind p fun r => .done (.ok r)

/-- Change the error. -/
def mapError {ε' : Type} (f : ε → ε') (p : Fallible Op Res ε α) : Fallible Op Res ε' α :=
  Program.bind p fun r => .done (r.mapError f)

/-- A single operation. -/
def perform {R : Op → Type} (o : Op) : Fallible Op (fun o => Except ε (R o)) ε (R o) :=
  Program.step o Program.done

/-- A pure computation that may fail. -/
def ofExcept (r : Except ε α) : Fallible Op Res ε α := Program.done r

theorem pure_bind (a : α) (f : α → Fallible Op Res ε β) : (pure a >>= f) = f a := rfl

theorem bind_assoc {γ : Type} (p : Fallible Op Res ε α) (f : α → Fallible Op Res ε β)
    (g : β → Fallible Op Res ε γ) : (p >>= f >>= g) = p >>= fun a => f a >>= g := by
  refine (Program.bind_assoc p _ _).trans (congrArg (Program.bind p) (funext fun r => ?_))
  cases r <;> rfl

theorem ofExcept_ok_bind (a : α) (f : α → Fallible Op Res ε β) :
    (ofExcept (.ok a) >>= f) = f a := rfl

variable (h : Program.Handler Op Res σ)

/-- Run a fallible program: its outcome and the state it leaves, which an error keeps. -/
def exec (p : Fallible Op Res ε α) (s : σ) : Except ε α × σ := Program.run h p s

@[simp] theorem exec_pure (a : α) (s : σ) :
    exec h (pure a : Fallible Op Res ε α) s = (.ok a, s) := rfl

@[simp] theorem exec_fail (e : ε) (s : σ) :
    exec h (fail e : Fallible Op Res ε α) s = (.error e, s) := rfl

@[simp] theorem exec_ofExcept (r : Except ε α) (s : σ) :
    exec h (ofExcept r : Fallible Op Res ε α) s = (r, s) := rfl

theorem exec_bind (p : Fallible Op Res ε α) (f : α → Fallible Op Res ε β) (s : σ) :
    exec h (p >>= f) s =
      match exec h p s with
      | (.ok a, s') => exec h (f a) s'
      | (.error e, s') => (.error e, s') := by
  refine (Program.run_bind h p _ s).trans ?_
  show _ = match Program.run h p s with
    | (.ok a, s') => exec h (f a) s'
    | (.error e, s') => (.error e, s')
  rcases Program.run h p s with ⟨_ | _, s'⟩ <;> rfl

@[simp] theorem exec_attempt (p : Fallible Op Res ε α) (s : σ) :
    exec h (attempt p) s = (.ok (exec h p s).1, (exec h p s).2) :=
  Program.run_bind h p _ s

@[simp] theorem exec_perform {R : Op → Type}
    (h : Program.Handler Op (fun o => Except ε (R o)) σ) (o : Op) (s : σ) :
    exec h (perform o : Fallible Op (fun o => Except ε (R o)) ε (R o)) s = h o s := rfl

@[simp] theorem exec_mapError {ε' : Type} (f : ε → ε') (p : Fallible Op Res ε α) (s : σ) :
    exec h (mapError f p) s = ((exec h p s).1.mapError f, (exec h p s).2) :=
  Program.run_bind h p _ s

/-- `exec_bind` when the first part succeeds. -/
theorem exec_bind_ok {p : Fallible Op Res ε α} {f : α → Fallible Op Res ε β} {s s' : σ} {a : α}
    (hp : exec h p s = (.ok a, s')) : exec h (p >>= f) s = exec h (f a) s' := by
  rw [exec_bind, hp]

/-- `exec_bind` when the first part fails. -/
theorem exec_bind_error {p : Fallible Op Res ε α} {f : α → Fallible Op Res ε β} {s s' : σ}
    {e : ε} (hp : exec h p s = (.error e, s')) : exec h (p >>= f) s = (.error e, s') := by
  rw [exec_bind, hp]

/-- A sequence that succeeds is made of parts that do. -/
theorem exec_bind_eq_ok {p : Fallible Op Res ε α} {f : α → Fallible Op Res ε β} {s s'' : σ}
    {b : β} (hpf : exec h (p >>= f) s = (.ok b, s'')) :
    ∃ a s', exec h p s = (.ok a, s') ∧ exec h (f a) s' = (.ok b, s'') := by
  rw [exec_bind] at hpf
  rcases hp : exec h p s with ⟨_ | a, s'⟩
  · rw [hp] at hpf
    simp at hpf
  · rw [hp] at hpf
    exact ⟨a, s', rfl, hpf⟩

/-- In a loop that succeeds every round does. -/
theorem exec_forM_ok {f : β → Fallible Op Res ε PUnit} {l : List β} {s s' : σ} {u : PUnit}
    (hl : exec h (l.forM f) s = (.ok u, s')) {b : β} (hb : b ∈ l) :
    ∃ s₁ s₂, exec h (f b) s₁ = (.ok ⟨⟩, s₂) := by
  induction l generalizing s with
  | nil => cases hb
  | cons a l ih =>
    obtain ⟨⟨⟩, s₁, ha, hrest⟩ := exec_bind_eq_ok h
      (show exec h (f a >>= fun _ => l.forM f) s = _ from hl)
    rcases List.mem_cons.1 hb with rfl | hb
    · exact ⟨s, s₁, ha⟩
    · exact ih hrest hb

/-! ### Rules -/

/-- How a fallible program ends: with `Q` when it succeeds and with `E` when it fails. -/
def Ends (Q : α → σ → Prop) (E : ε → σ → Prop) : Except ε α → σ → Prop
  | .ok a, s => Q a s
  | .error e, s => E e s

/-- From a state in `P` the program ends with `Q` when it succeeds and with `E` when it fails. -/
def Spec (M : Setting Op Res σ) (P : σ → Prop) (p : Fallible Op Res ε α) (Q : α → σ → Prop)
    (E : ε → σ → Prop) : Prop :=
  ∀ s, M.inv s → P s → M.wp (Ends Q E) p s

variable {M : Setting Op Res σ} {P P' : σ → Prop} {Q Q' : α → σ → Prop} {E E' : ε → σ → Prop}

theorem Spec.conseq {p : Fallible Op Res ε α} (hp : Spec M P p Q E) (hP : ∀ s, P' s → P s)
    (hQ : ∀ a s, M.inv s → Q a s → Q' a s) (hE : ∀ e s, M.inv s → E e s → E' e s) :
    Spec M P' p Q' E' := by
  intro s hi hs
  refine Setting.wp_mono ?_ (hp s hi (hP s hs))
  rintro (e | a) s hi h
  · exact hE e s hi h
  · exact hQ a s hi h

theorem Spec.pre {p : Fallible Op Res ε α} (hp : Spec M P p Q E) (hP : ∀ s, P' s → P s) :
    Spec M P' p Q E := fun s hi hs => hp s hi (hP s hs)

theorem Spec.post {p : Fallible Op Res ε α} (hp : Spec M P p Q E)
    (hQ : ∀ a s, M.inv s → Q a s → Q' a s) : Spec M P p Q' E :=
  hp.conseq (fun _ h => h) hQ fun _ _ _ h => h

/-- A program that nobody disturbs ends as it runs. -/
theorem Spec.ran {p : Fallible Op Res ε α} {s₀ : σ} (hr : ∀ s s', ¬ M.rely s s')
    (hp : Spec M (· = s₀) p Q E) :
    Spec M (· = s₀) p (fun a s => Q a s ∧ exec M.handle p s₀ = (.ok a, s)) E := by
  rintro _ hi rfl
  refine Setting.wp_mono (fun a s _ hs => ?_) (Setting.wp_ran hr (hp _ hi rfl))
  obtain ⟨hs, hrun⟩ := hs
  cases a with
  | ok a => exact ⟨hs, hrun⟩
  | error e => exact hs

theorem Spec.done {r : Except ε α} (hr : ∀ s, M.inv s → P s → Ends Q E r s) :
    Spec M P (Program.done r) Q E := fun s hi hs => ⟨hi, hr s hi hs⟩

theorem Spec.pure {a : α} (hQ : ∀ s, M.inv s → P s → Q a s) :
    Spec M P (Pure.pure a : Fallible Op Res ε α) Q E :=
  Spec.done hQ

theorem Spec.fail {e : ε} (hE : ∀ s, M.inv s → P s → E e s) :
    Spec M P (Fallible.fail e : Fallible Op Res ε α) Q E :=
  Spec.done hE

theorem Spec.ofExcept {r : Except ε α} (hQ : ∀ a s, r = .ok a → M.inv s → P s → Q a s)
    (hE : ∀ e s, r = .error e → M.inv s → P s → E e s) :
    Spec M P (Fallible.ofExcept r) Q E := by
  refine Spec.done fun s hi hs => ?_
  cases r with
  | ok a => exact hQ a s rfl hi hs
  | error e => exact hE e s rfl hi hs

theorem Spec.bind {p : Fallible Op Res ε α} {f : α → Fallible Op Res ε β}
    {N : α → σ → Prop} {Q : β → σ → Prop} (hp : Spec M P p N E)
    (hf : ∀ a, Spec M (N a) (f a) Q E) : Spec M P (p >>= f) Q E := by
  intro s hi hs
  refine Setting.wp_bind (Setting.wp_mono ?_ (hp s hi hs))
  rintro (e | a) s hi h
  · exact ⟨hi, h⟩
  · exact hf a s hi h

/-- A loop; what holds may depend on the elements that are done. -/
theorem Spec.forM {f : β → Fallible Op Res ε PUnit} {l : List β} {I : List β → σ → Prop}
    (hf : ∀ done a rest, l = done ++ a :: rest →
      Spec M (I done) (f a) (fun _ => I (done ++ [a])) E) :
    Spec M (I []) (l.forM f) (fun _ => I l) E := by
  have key : ∀ rest done, l = done ++ rest → Spec M (I done) (rest.forM f) (fun _ => I l) E := by
    intro rest
    induction rest with
    | nil =>
      intro done hl
      rw [List.append_nil] at hl
      exact Spec.pure fun s _ hs => hl ▸ hs
    | cons a rest ih =>
      intro done hl
      refine Spec.bind (hf done a rest hl) fun _ => ih (done ++ [a]) ?_
      rw [hl, List.append_assoc, List.singleton_append]
  exact key l [] rfl

theorem Spec.attempt {p : Fallible Op Res ε α} {F : ε → σ → Prop}
    {E : ε → σ → Prop} (hp : Spec M P p Q F) :
    Spec M P (Fallible.attempt p) (Ends Q F) E := by
  intro s hi hs
  refine Setting.wp_bind (Setting.wp_mono ?_ (hp s hi hs))
  rintro (e | a) s hi h
  · exact ⟨hi, h⟩
  · exact ⟨hi, h⟩

theorem Spec.mapError {ε' : Type} {p : Fallible Op Res ε α} {f : ε → ε'} {E : ε' → σ → Prop}
    (hp : Spec M P p Q (fun e s => E (f e) s)) : Spec M P (Fallible.mapError f p) Q E := by
  intro s hi hs
  refine Setting.wp_bind (Setting.wp_mono ?_ (hp s hi hs))
  rintro (e | a) s hi h
  · exact ⟨hi, h⟩
  · exact ⟨hi, h⟩

/-- A single operation; what is known before it has to stand what others do. -/
theorem Spec.perform {R : Op → Type} {M : Setting Op (fun o => Except ε (R o)) σ} {o : Op}
    {Q : R o → σ → Prop} (hP : M.Stable P)
    (ht : ∀ s t, M.inv s → P s → M.torn o s t → M.inv t)
    (ho : ∀ s, M.inv s → P s →
      M.inv (M.handle o s).2 ∧ Ends Q E (M.handle o s).1 (M.handle o s).2) :
    Spec M P (Fallible.perform (R := R) o) Q E := by
  intro s hi hs
  refine ⟨hi, fun s' hs' => ?_⟩
  obtain ⟨hi', hs'⟩ := hP.star hi hs hs'
  exact ⟨fun t h => ht s' t hi' hs' h, ho s' hi' hs'⟩

/-! ### What a program may issue -/

/-- Whatever the answers are, the program issues operations of `A` only. -/
def Issues (A : Op → Prop) (p : Fallible Op Res ε α) : Prop := Program.Issues A p

/-- What the operations that a program may issue keep, the program keeps. -/
theorem Spec.issues {A : Op → Prop} {p : Fallible Op Res ε α} (hp : Issues A p)
    (hP : M.Stable P) (hstep : ∀ o s, A o → M.inv s → P s → (∀ t, M.torn o s t → M.inv t) ∧
      M.inv (M.handle o s).2 ∧ P (M.handle o s).2) :
    Spec M P p (fun _ => P) (fun _ => P) := by
  intro s hi hs
  refine Setting.wp_mono ?_ (Setting.wp_issues hp hP hstep hi hs)
  rintro (e | a) s - h <;> exact h

section Issues

variable {A B : Op → Prop}

theorem Issues.mono {p : Fallible Op Res ε α} (hp : Issues A p) (hAB : ∀ o, A o → B o) :
    Issues B p := Program.Issues.mono hp hAB

theorem issues_pure (a : α) : Issues A (Pure.pure a : Fallible Op Res ε α) := trivial

theorem issues_fail (e : ε) : Issues A (Fallible.fail e : Fallible Op Res ε α) := trivial

theorem issues_ofExcept (r : Except ε α) : Issues A (Fallible.ofExcept r : Fallible Op Res ε α) :=
  trivial

theorem issues_bind {p : Fallible Op Res ε α} {f : α → Fallible Op Res ε β} (hp : Issues A p)
    (hf : ∀ a, Issues A (f a)) : Issues A (p >>= f) := by
  refine Program.Issues.bind hp fun r => ?_
  cases r with
  | ok a => exact hf a
  | error e => trivial

theorem issues_attempt {p : Fallible Op Res ε α} (hp : Issues A p) :
    Issues A (Fallible.attempt p : Fallible Op Res ε (Except ε α)) :=
  Program.Issues.bind hp fun _ => trivial

theorem issues_mapError {ε' : Type} {f : ε → ε'} {p : Fallible Op Res ε α} (hp : Issues A p) :
    Issues A (Fallible.mapError f p) := Program.Issues.bind hp fun _ => trivial

theorem issues_perform {R : Op → Type} {o : Op} (ho : A o) :
    Issues A (Fallible.perform o : Fallible Op (fun o => Except ε (R o)) ε (R o)) :=
  ⟨ho, fun _ => trivial⟩

theorem issues_forM {f : β → Fallible Op Res ε PUnit} {l : List β}
    (hf : ∀ a ∈ l, Issues A (f a)) : Issues A (l.forM f) := by
  induction l with
  | nil => trivial
  | cons a l ih =>
    exact issues_bind (hf a List.mem_cons_self)
      fun _ => ih fun b hb => hf b (List.mem_cons_of_mem a hb)

end Issues

section Performs

variable {A : Op → Prop} {h : Program.Handler Op Res σ} {s : σ}

/-- Every operation of the run from a state is one of `A`. -/
def Performs (h : Program.Handler Op Res σ) (A : Op → Prop) (p : Fallible Op Res ε α) (s : σ) :
    Prop := Program.Performs h A p s

theorem Issues.performs {p : Fallible Op Res ε α} (hp : Issues A p) (s : σ) : Performs h A p s :=
  Program.Issues.performs hp s

theorem performs_pure {a : α} : Performs h A (Pure.pure a : Fallible Op Res ε α) s ↔ True :=
  Iff.rfl

theorem performs_fail {e : ε} : Performs h A (Fallible.fail e : Fallible Op Res ε α) s ↔ True :=
  Iff.rfl

theorem performs_ofExcept {r : Except ε α} :
    Performs h A (Fallible.ofExcept r : Fallible Op Res ε α) s ↔ True := Iff.rfl

theorem performs_bind {p : Fallible Op Res ε α} {f : α → Fallible Op Res ε β} :
    Performs h A (p >>= f) s ↔
      Performs h A p s ∧ ∀ a s', exec h p s = (.ok a, s') → Performs h A (f a) s' := by
  refine Program.performs_bind.trans (and_congr_right fun _ => ?_)
  have hrun : Program.run h p s = exec h p s := rfl
  rcases hp : exec h p s with ⟨e | a, s'⟩
  · rw [hrun, hp]
    refine ⟨fun _ a s'' h => ?_, fun _ => trivial⟩
    cases h
  · rw [hrun, hp]
    constructor
    · rintro hf _ _ ⟨⟩
      exact hf
    · exact fun hf => hf a s' rfl

theorem performs_attempt {p : Fallible Op Res ε α} :
    Performs h A (Fallible.attempt p : Fallible Op Res ε (Except ε α)) s ↔ Performs h A p s :=
  Program.performs_bind.trans (and_iff_left trivial)

theorem performs_mapError {ε' : Type} {f : ε → ε'} {p : Fallible Op Res ε α} :
    Performs h A (Fallible.mapError f p) s ↔ Performs h A p s :=
  Program.performs_bind.trans (and_iff_left trivial)

theorem performs_perform {R : Op → Type} {h : Program.Handler Op (fun o => Except ε (R o)) σ}
    {o : Op} :
    Performs h A (Fallible.perform o : Fallible Op (fun o => Except ε (R o)) ε (R o)) s ↔ A o :=
  and_iff_left trivial

/-- The run of a loop comes to those elements before which all went well. -/
theorem performs_forM {f : β → Fallible Op Res ε PUnit} {l : List β} :
    Performs h A (l.forM f) s ↔ ∀ before b after, l = before ++ b :: after →
      ∀ s', exec h (before.forM f) s = (.ok ⟨⟩, s') → Performs h A (f b) s' := by
  induction l generalizing s with
  | nil =>
    refine ⟨fun _ before b after hl => ?_, fun _ => trivial⟩
    cases before <;> cases hl
  | cons a l ih =>
    have hcons : Performs h A ((a :: l).forM f) s ↔ Performs h A (f a) s ∧
        ∀ u s', exec h (f a) s = (.ok u, s') → Performs h A (l.forM f) s' := performs_bind
    refine hcons.trans ⟨?_, fun hl => ⟨hl [] a l rfl s rfl, fun u s' hu => ih.2 ?_⟩⟩
    · rintro ⟨ha, hl⟩ before b after heq s' hs'
      cases before with
      | nil =>
        obtain ⟨rfl, rfl⟩ : a = b ∧ l = after := by simpa using heq
        cases hs'
        exact ha
      | cons c before =>
        obtain ⟨rfl, rfl⟩ : a = c ∧ l = before ++ b :: after := by simpa using heq
        obtain ⟨u, s₁, hu, hs₁⟩ := exec_bind_eq_ok h
          (show exec h (f a >>= fun _ => before.forM f) s = _ from hs')
        exact ih.1 (hl u s₁ hu) before b after rfl s' hs₁
    · intro before b after heq s₁ hs₁
      refine hl (a :: before) b after (by rw [heq]; rfl) s₁ ?_
      exact (exec_bind_ok h hu).trans hs₁

/-- A loop whose rounds leave the state alone. -/
theorem exec_mapM {f : β → Fallible Op Res ε α} {g : β → Except ε α} {l : List β}
    (hf : ∀ b ∈ l, exec h (f b) s = (g b, s)) : exec h (l.mapM f) s = (l.mapM g, s) := by
  have hloop : ∀ l acc, (∀ b ∈ l, exec h (f b) s = (g b, s)) →
      exec h (List.mapM.loop f l acc) s = (List.mapM.loop g l acc, s) := by
    intro l
    induction l with
    | nil => exact fun _ _ => rfl
    | cons b l ih =>
      intro acc hl
      rw [List.mapM.loop, exec_bind, hl b List.mem_cons_self, List.mapM.loop]
      cases g b with
      | error e => rfl
      | ok a => exact ih _ fun c hc => hl c (List.mem_cons_of_mem b hc)
  exact hloop l [] hf

/-- Its run comes to those elements before which all went well. -/
theorem performs_mapM {f : β → Fallible Op Res ε α} {g : β → Except ε α} {l : List β}
    (hf : ∀ b ∈ l, exec h (f b) s = (g b, s)) :
    Performs h A (l.mapM f) s ↔ ∀ before b after, l = before ++ b :: after →
      (∀ a ∈ before, (g a).isOk) → Performs h A (f b) s := by
  have hloop : ∀ l acc, (∀ b ∈ l, exec h (f b) s = (g b, s)) →
      (Performs h A (List.mapM.loop f l acc) s ↔ ∀ before b after, l = before ++ b :: after →
        (∀ a ∈ before, (g a).isOk) → Performs h A (f b) s) := by
    intro l
    induction l with
    | nil =>
      refine fun _ _ => ⟨fun _ before b after hl => ?_, fun _ => trivial⟩
      cases before <;> cases hl
    | cons c l ih =>
      intro acc hl
      have ih := fun a => ih (a :: acc) fun b hb => hl b (List.mem_cons_of_mem c hb)
      rw [List.mapM.loop, performs_bind, hl c List.mem_cons_self]
      constructor
      · rintro ⟨hc, hrest⟩ before b after heq hok
        cases before with
        | nil =>
          obtain ⟨rfl, -⟩ : c = b ∧ l = after := by simpa using heq
          exact hc
        | cons d before =>
          obtain ⟨rfl, rfl⟩ : c = d ∧ l = before ++ b :: after := by simpa using heq
          cases hg : g c with
          | error e =>
            have := hok c List.mem_cons_self
            rw [hg] at this
            cases this
          | ok a =>
            exact (ih a).1 (hrest a s (by rw [hg])) before b after rfl
              fun d hd => hok d (List.mem_cons_of_mem c hd)
      · refine fun hall => ⟨hall [] c l rfl nofun, fun a s' hs' => ?_⟩
        obtain ⟨hg, rfl⟩ := Prod.mk.inj hs'
        refine (ih a).2 fun before b after heq hok =>
          hall (c :: before) b after (by rw [heq]; rfl) ?_
        intro d hd
        rcases List.mem_cons.1 hd with rfl | hd
        · rw [hg]
          rfl
        · exact hok d hd
  exact hloop l [] hf

end Performs

/-- Alone, a specification speaks about `exec`. -/
theorem spec_alone {h : Program.Handler Op Res σ} {p : Fallible Op Res ε α} :
    Spec (Setting.alone h) P p Q E ↔ ∀ s, P s → Ends Q E (exec h p s).1 (exec h p s).2 :=
  ⟨fun hp s hs => Setting.wp_alone.1 (hp s trivial hs),
    fun hp s _ hs => Setting.wp_alone.2 (hp s hs)⟩

end Fallible
