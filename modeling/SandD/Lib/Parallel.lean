import SandD.Lib.Program
import SandD.Lib.Transition

/-!
# Two programs side by side

Two programs take turns at one state, an operation at a time and in any order.  What an operation
does may depend on whose it is.

* `Program.slice`: a program with its operations cut into finer ones, and `run_slice`: alone it
  does what the program does;
* `Pair.step`: an operation of the one or the other;
* `Party`: what a program relies on and what it guarantees, with its weakest precondition
  `Party.wp` and the rules for `Party.Holds`;
* `parallel`: two parties each of which guarantees what the other relies on;
* `Pair.acc`: the turns come to an end.
-/

namespace Program

variable {Op Op' : Type} {Res : Op → Type} {Res' : Op' → Type} {α β σ τ : Type}

/-- Cut every operation into finer ones. -/
def slice (f : (o : Op) → Program Op' Res' (Res o)) : Program Op Res α → Program Op' Res' α
  | .done a => .done a
  | .step o k => (f o).bind fun r => (k r).slice f

/-- What a program that is done has come to. -/
def result : Program Op Res α → Option α
  | .done a => some a
  | .step .. => none

theorem result_eq_some {p : Program Op Res α} {a : α} : p.result = some a ↔ p = .done a := by
  cases p <;> simp [result]

variable {f : (o : Op) → Program Op' Res' (Res o)}

theorem slice_bind (p : Program Op Res α) (g : α → Program Op Res β) :
    (p.bind g).slice f = (p.slice f).bind fun a => (g a).slice f := by
  induction p with
  | done a => rfl
  | step o k ih =>
    show (f o).bind (fun r => ((k r).bind g).slice f) = _
    rw [funext ih]
    exact (bind_assoc _ _ _).symm

theorem bind_done (p : Program Op Res α) : p.bind .done = p := by
  induction p with
  | done a => rfl
  | step o k ih => exact congrArg (Program.step o) (funext ih)

/-- Alone, a program that is cut does what it does uncut, when its operations do. -/
theorem run_slice {h : Handler Op Res σ} {h' : Handler Op' Res' τ} {R : σ → τ → Prop}
    (hf : ∀ o s t, R s t → (run h' (f o) t).1 = (h o s).1 ∧ R (h o s).2 (run h' (f o) t).2)
    (p : Program Op Res α) {s : σ} {t : τ} (hst : R s t) :
    (run h' (p.slice f) t).1 = (run h p s).1 ∧ R (run h p s).2 (run h' (p.slice f) t).2 := by
  induction p generalizing s t with
  | done a => exact ⟨rfl, hst⟩
  | step o k ih =>
    obtain ⟨hr, hst'⟩ := hf o s t hst
    rw [slice, run_bind, hr]
    exact ih _ hst'

end Program

namespace Fallible

variable {Op Op' : Type} {R : Op → Type} {Res' : Op' → Type} {ε ε' α β : Type}
  {f : (o : Op) → Program Op' Res' (Except ε (R o))}

/-- Cut every operation into finer ones. -/
def slice (f : (o : Op) → Program Op' Res' (Except ε (R o)))
    (p : Fallible Op (fun o => Except ε (R o)) ε' α) : Fallible Op' Res' ε' α :=
  Program.slice f p

theorem slice_pure (a : α) :
    slice f (pure a : Fallible Op (fun o => Except ε (R o)) ε' α) = pure a := rfl

theorem slice_bind (p : Fallible Op (fun o => Except ε (R o)) ε' α)
    (g : α → Fallible Op (fun o => Except ε (R o)) ε' β) :
    slice f (p >>= g) = slice f p >>= fun a => slice f (g a) := by
  refine (Program.slice_bind p _).trans (congrArg (Program.bind _) (funext fun r => ?_))
  cases r <;> rfl

theorem slice_attempt (p : Fallible Op (fun o => Except ε (R o)) ε' α) :
    slice f (attempt p : Fallible Op (fun o => Except ε (R o)) ε' (Except ε' α)) =
      attempt (slice f p) :=
  Program.slice_bind p _

theorem slice_mapError {ε'' : Type} (g : ε' → ε'')
    (p : Fallible Op (fun o => Except ε (R o)) ε' α) :
    slice f (mapError g p) = mapError g (slice f p) :=
  Program.slice_bind p _

theorem slice_perform (o : Op) :
    slice f (perform o : Fallible Op (fun o => Except ε (R o)) ε (R o)) = f o :=
  Program.bind_done (f o)

end Fallible

/-! ### Turns -/

namespace SandD

/-- Two programs and the state they share. -/
structure Pair (Op : Type) (Res : Op → Type) (α β σ : Type) where
  left : Program Op Res α
  right : Program Op Res β
  state : σ

/-- Whose turn it is. -/
inductive Side
  | left
  | right
  deriving DecidableEq

/-- The other one. -/
def Side.other : Side → Side
  | left => right
  | right => left

@[simp] theorem Side.other_other (i : Side) : i.other.other = i := by
  cases i <;> rfl

theorem Side.other_ne (i : Side) : i.other ≠ i := by
  cases i <;> exact nofun

theorem Side.eq_or_other (i j : Side) : j = i ∨ j = i.other := by
  cases i <;> cases j <;> simp [other]

namespace Pair

open Program (Handler)

variable {Op : Type} {Res : Op → Type} {α β σ : Type}

/-- An operation of the one or the other. -/
def step (h : Side → Handler Op Res σ) (z : Pair Op Res α β σ) :
    Side → Option (Pair Op Res α β σ)
  | .left =>
    match z.left with
    | .done _ => none
    | .step o k => some ⟨k (h .left o z.state).1, z.right, (h .left o z.state).2⟩
  | .right =>
    match z.right with
    | .done _ => none
    | .step o k => some ⟨z.left, k (h .right o z.state).1, (h .right o z.state).2⟩

/-- The operation whose turn it is may be taken. -/
def Allowed (may : Side → Op → σ → Prop) (z : Pair Op Res α β σ) : Side → Prop
  | .left =>
    match z.left with
    | .done _ => True
    | .step o _ => may .left o z.state
  | .right =>
    match z.right with
    | .done _ => True
    | .step o _ => may .right o z.state

instance Allowed.decidable {may : Side → Op → σ → Prop} [∀ i o s, Decidable (may i o s)] :
    ∀ (z : Pair Op Res α β σ) i, Decidable (Allowed may z i)
  | ⟨.done _, _, _⟩, .left | ⟨_, .done _, _⟩, .right => .isTrue trivial
  | ⟨.step o _, _, s⟩, .left => inferInstanceAs (Decidable (may .left o s))
  | ⟨_, .step o _, s⟩, .right => inferInstanceAs (Decidable (may .right o s))

/-- **Turns come to an end.** -/
theorem acc (h : Side → Handler Op Res σ) (z : Pair Op Res α β σ) :
    Acc (fun z' z => ∃ e, step h z e = some z') z := by
  obtain ⟨p, q, s⟩ := z
  induction p generalizing q s with
  | done a =>
    induction q generalizing s with
    | done b =>
      refine ⟨_, ?_⟩
      rintro z' ⟨_ | _, h'⟩ <;> cases h'
    | step o k ih =>
      refine ⟨_, ?_⟩
      rintro z' ⟨_ | _, h'⟩
      · cases h'
      · cases h'
        exact ih _ _
  | step o k ih =>
    induction q generalizing s with
    | done b =>
      refine ⟨_, ?_⟩
      rintro z' ⟨_ | _, h'⟩
      · cases h'
        exact ih _ _ _
      · cases h'
    | step o' k' ih' =>
      refine ⟨_, ?_⟩
      rintro z' ⟨_ | _, h'⟩
      · cases h'
        exact ih _ _ _
      · cases h'
        exact ih' _ _

end Pair

/-! ### Rely and guarantee -/

/-- A program's part: what its operations do and when they may be taken, what it relies on of the
others, and what it guarantees them. -/
structure Party (Op : Type) (Res : Op → Type) (σ : Type) where
  handle : Program.Handler Op Res σ
  may : Op → σ → Prop
  rely : σ → σ → Prop
  guar : σ → σ → Prop

namespace Party

open Relation (ReflTransGen)
open Fallible (Ends)

variable {Op : Type} {Res : Op → Type} {α β ε σ : Type} (M : Party Op Res σ)

/-- Weakest precondition: whatever the others do before an operation that may be taken, it gives
them what they rely on, and the program ends with the postcondition. -/
def wp (Q : α → σ → Prop) : Program Op Res α → σ → Prop
  | .done a, s => Q a s
  | .step o k, s => ∀ s', ReflTransGen M.rely s s' → M.may o s' →
      M.guar s' (M.handle o s').2 ∧ wp Q (k (M.handle o s').1) (M.handle o s').2

/-- The others leave an assertion alone. -/
def Stable (P : σ → Prop) : Prop := ∀ s s', P s → M.rely s s' → P s'

variable {M} {P P' : σ → Prop} {Q Q' : α → σ → Prop} {E E' : ε → σ → Prop}

theorem Stable.star (hP : M.Stable P) {s s' : σ} (hs : P s) (h : ReflTransGen M.rely s s') :
    P s' := by
  induction h with
  | refl => exact hs
  | tail _ hr ih => exact hP _ _ ih hr

theorem wp_mono (hQ : ∀ a s, Q a s → Q' a s) {p : Program Op Res α} {s : σ} (hp : M.wp Q p s) :
    M.wp Q' p s := by
  induction p generalizing s with
  | done a => exact hQ a s hp
  | step o k ih => exact fun s' hs' hm => ⟨(hp s' hs' hm).1, ih _ (hp s' hs' hm).2⟩

theorem wp_bind {p : Program Op Res α} {f : α → Program Op Res β} {Q : β → σ → Prop} {s : σ}
    (hp : M.wp (fun a s => M.wp Q (f a) s) p s) : M.wp Q (p.bind f) s := by
  induction p generalizing s with
  | done a => exact hp
  | step o k ih => exact fun s' hs' hm => ⟨(hp s' hs' hm).1, ih _ (hp s' hs' hm).2⟩

theorem wp_rely (hQ : ∀ a, M.Stable (Q a)) {p : Program Op Res α} {s s' : σ} (hp : M.wp Q p s)
    (hr : M.rely s s') : M.wp Q p s' := by
  cases p with
  | done a => exact hQ a s s' hp hr
  | step o k => exact fun t ht hm => hp t (.head hr ht) hm

/-! ### Rules -/

/-- From a state in `P` the program ends with `Q` when it succeeds and with `E` when it fails. -/
def Holds (M : Party Op Res σ) (P : σ → Prop) (p : Fallible Op Res ε α) (Q : α → σ → Prop)
    (E : ε → σ → Prop) : Prop :=
  ∀ s, P s → M.wp (Ends Q E) p s

theorem Holds.conseq {p : Fallible Op Res ε α} (hp : Holds M P p Q E) (hP : ∀ s, P' s → P s)
    (hQ : ∀ a s, Q a s → Q' a s) (hE : ∀ e s, E e s → E' e s) : Holds M P' p Q' E' := by
  intro s hs
  refine wp_mono ?_ (hp s (hP s hs))
  rintro (e | a) s h
  · exact hE e s h
  · exact hQ a s h

theorem Holds.pre {p : Fallible Op Res ε α} (hp : Holds M P p Q E) (hP : ∀ s, P' s → P s) :
    Holds M P' p Q E := fun s hs => hp s (hP s hs)

theorem Holds.post {p : Fallible Op Res ε α} (hp : Holds M P p Q E)
    (hQ : ∀ a s, Q a s → Q' a s) : Holds M P p Q' E :=
  hp.conseq (fun _ h => h) hQ fun _ _ h => h

theorem Holds.pure {a : α} (hQ : ∀ s, P s → Q a s) :
    Holds M P (Pure.pure a : Fallible Op Res ε α) Q E := hQ

theorem Holds.fail {e : ε} (hE : ∀ s, P s → E e s) :
    Holds M P (Fallible.fail e : Fallible Op Res ε α) Q E := hE

theorem Holds.bind {p : Fallible Op Res ε α} {f : α → Fallible Op Res ε β} {N : α → σ → Prop}
    {Q : β → σ → Prop} (hp : Holds M P p N E) (hf : ∀ a, Holds M (N a) (f a) Q E) :
    Holds M P (p >>= f) Q E := by
  intro s hs
  refine wp_bind (wp_mono ?_ (hp s hs))
  rintro (e | a) s h
  · exact h
  · exact hf a s h

theorem Holds.attempt {p : Fallible Op Res ε α} {F : ε → σ → Prop} {E : ε → σ → Prop}
    (hp : Holds M P p Q F) : Holds M P (Fallible.attempt p) (Ends Q F) E := by
  intro s hs
  refine wp_bind (wp_mono ?_ (hp s hs))
  rintro (e | a) s h
  · exact h
  · exact h

theorem Holds.mapError {ε' : Type} {p : Fallible Op Res ε α} {f : ε → ε'} {E : ε' → σ → Prop}
    (hp : Holds M P p Q fun e s => E (f e) s) : Holds M P (Fallible.mapError f p) Q E := by
  intro s hs
  refine wp_bind (wp_mono ?_ (hp s hs))
  rintro (e | a) s h
  · exact h
  · exact h

/-- A single operation; what is known before it has to stand what the others do. -/
theorem Holds.perform {R : Op → Type} {M : Party Op (fun o => Except ε (R o)) σ} {o : Op}
    {Q : R o → σ → Prop} (hP : M.Stable P)
    (ho : ∀ s, P s → M.may o s → M.guar s (M.handle o s).2 ∧
      Ends Q E (M.handle o s).1 (M.handle o s).2) :
    Holds M P (Fallible.perform (R := R) o) Q E :=
  fun _ hs s' hs' hm => ho s' (hP.star hs hs') hm

end Party

/-- **Two programs that guarantee each other what they rely on, and whose operations are taken only
when they may be, run side by side as they do next to what they rely on**; an invariant that the
guarantees keep holds all the time. -/
theorem parallel {Op : Type} {Res : Op → Type} {α β σ : Type} {M : Side → Party Op Res σ}
    {Q : α → σ → Prop} {Q' : β → σ → Prop} {I : σ → Prop} {z z' : Pair Op Res α β σ}
    {es : List Side} (hM : ∀ i s s', (M i).guar s s' → (M i.other).rely s s')
    (hI : ∀ i s s', I s → (M i).guar s s' → I s')
    (hQ : ∀ a, (M .left).Stable (Q a)) (hQ' : ∀ b, (M .right).Stable (Q' b))
    (hi : I z.state) (hl : (M .left).wp Q z.left z.state)
    (hr : (M .right).wp Q' z.right z.state)
    (hrun : run (Pair.step fun i => (M i).handle) z es = some z')
    (hmay : Along (Pair.step fun i => (M i).handle) (Pair.Allowed fun i => (M i).may) z es) :
    I z'.state ∧ (M .left).wp Q z'.left z'.state ∧ (M .right).wp Q' z'.right z'.state := by
  refine run_invariant_along (I := fun z => I z.state ∧ (M .left).wp Q z.left z.state ∧
    (M .right).wp Q' z.right z.state) ?_ hrun hmay ⟨hi, hl, hr⟩
  rintro ⟨p, q, s⟩ e z' ⟨hi, hl, hr⟩ hmay h
  cases e with
  | left =>
    cases p with
    | done a => cases h
    | step o k =>
      cases h
      obtain ⟨hg, hk⟩ := hl s .refl hmay
      exact ⟨hI .left _ _ hi hg, hk, Party.wp_rely hQ' hr (hM .left _ _ hg)⟩
  | right =>
    cases q with
    | done b => cases h
    | step o k =>
      cases h
      obtain ⟨hg, hk⟩ := hr s .refl hmay
      exact ⟨hI .right _ _ hi hg, Party.wp_rely hQ hl (hM .right _ _ hg), hk⟩

end SandD
