import Mathlib.Data.Option.Basic
import Mathlib.Data.List.Basic

/-!
# Labelled transition systems with partial steps

A system is a function `step : σ → ε → Option σ`: in a state an event either can happen, and
then leads to one state, or cannot.  Who chooses the events is left open, so that a list of
events is one interleaving of all the actors.

* `run step s es` takes the events `es` one after the other;
* `Along step P s es` says that every event of the run is taken where `P` allows it, and
  `Always step P s es` that every state the run passes, its first and last included, meets `P`;
* `Reach step s₀ s`: some run leads from `s₀` to `s`;
* the invariant rules `run_invariant`, `run_invariant_along`, `Reach.invariant`.
-/

namespace SandD

variable {σ ε : Type}

/-- Take the events one after the other. -/
def run (step : σ → ε → Option σ) : σ → List ε → Option σ
  | s, [] => some s
  | s, e :: es => (step s e).bind fun s' => run step s' es

/-- `s` is reached from `s₀`. -/
def Reach (step : σ → ε → Option σ) (s₀ s : σ) : Prop := ∃ es, run step s₀ es = some s

/-- Every event of the run is taken where `P` allows it. -/
def Along (step : σ → ε → Option σ) (P : σ → ε → Prop) : σ → List ε → Prop
  | _, [] => True
  | s, e :: es => P s e ∧ ∀ s', step s e = some s' → Along step P s' es

/-- Every state of the run meets `P`. -/
def Always (step : σ → ε → Option σ) (P : σ → Prop) : σ → List ε → Prop
  | s, [] => P s
  | s, e :: es => P s ∧ ∀ s', step s e = some s' → Always step P s' es

variable {step : σ → ε → Option σ} {s s' s'' : σ} {e : ε} {es es' : List ε}

@[simp] theorem run_nil : run step s [] = some s := rfl

theorem run_cons : run step s (e :: es) = (step s e).bind fun s' => run step s' es := rfl

theorem run_cons_eq_some :
    run step s (e :: es) = some s'' ↔ ∃ s', step s e = some s' ∧ run step s' es = some s'' := by
  rw [run_cons, Option.bind_eq_some_iff]

theorem run_append : run step s (es ++ es') = (run step s es).bind fun s' => run step s' es' := by
  induction es generalizing s with
  | nil => rfl
  | cons e es ih =>
    rw [List.cons_append, run_cons, run_cons, Option.bind_assoc]
    exact congrArg _ (funext fun _ => ih)

theorem run_append_of_run (h : run step s es = some s') (h' : run step s' es' = some s'') :
    run step s (es ++ es') = some s'' := by
  rw [run_append, h]
  exact h'

theorem run_append_eq_some :
    run step s (es ++ es') = some s'' ↔
      ∃ s', run step s es = some s' ∧ run step s' es' = some s'' := by
  rw [run_append, Option.bind_eq_some_iff]

theorem run_eq_getD (h : (run step s es).isSome = true) :
    run step s es = some ((run step s es).getD s) :=
  (Option.getD_of_ne_none (Option.isSome_iff_ne_none.1 h) s).symm

theorem run_singleton : run step s [e] = step s e := by
  rw [run_cons]
  exact Option.bind_fun_some _

/-! ### What a run keeps -/

/-- What every step keeps, a run keeps. -/
theorem run_invariant {I : σ → Prop} (hstep : ∀ s e s', I s → step s e = some s' → I s')
    (h : run step s es = some s') (hs : I s) : I s' := by
  induction es generalizing s with
  | nil => cases h; exact hs
  | cons e es ih =>
    obtain ⟨s₁, h₁, h₂⟩ := run_cons_eq_some.1 h
    exact ih h₂ (hstep s e s₁ hs h₁)

/-- What every step that `P` allows keeps, a run of such steps keeps. -/
theorem run_invariant_along {I : σ → Prop} {P : σ → ε → Prop}
    (hstep : ∀ s e s', I s → P s e → step s e = some s' → I s')
    (h : run step s es = some s') (hP : Along step P s es) (hs : I s) : I s' := by
  induction es generalizing s with
  | nil => cases h; exact hs
  | cons e es ih =>
    obtain ⟨s₁, h₁, h₂⟩ := run_cons_eq_some.1 h
    exact ih h₂ (hP.2 s₁ h₁) (hstep s e s₁ hs hP.1 h₁)

/-- What every step into a state of `P` keeps, a run through such states keeps. -/
theorem run_invariant_always {I P : σ → Prop}
    (hstep : ∀ s e s', I s → P s → P s' → step s e = some s' → I s')
    (h : run step s es = some s') (hP : Always step P s es) (hs : I s) : I s' := by
  induction es generalizing s with
  | nil => cases h; exact hs
  | cons e es ih =>
    obtain ⟨s₁, h₁, h₂⟩ := run_cons_eq_some.1 h
    have hP₁ : P s₁ := by
      cases es with
      | nil => exact hP.2 s₁ h₁
      | cons _ _ => exact (hP.2 s₁ h₁).1
    exact ih h₂ (hP.2 s₁ h₁) (hstep s e s₁ hs hP.1 hP₁ h₁)

instance Along.decidable {P : σ → ε → Prop} [∀ s e, Decidable (P s e)] :
    ∀ s es, Decidable (Along step P s es)
  | _, [] => .isTrue trivial
  | s, e :: es =>
    match h : step s e with
    | some s' =>
      haveI := Along.decidable (P := P) s' es
      decidable_of_iff (P s e ∧ Along step P s' es)
        (and_congr_right' ⟨fun hes _ h' => Option.some_inj.1 (h.symm.trans h') ▸ hes,
          fun hes => hes s' h⟩)
    | none =>
      decidable_of_iff (P s e) ⟨fun hP => ⟨hP, fun _ h' => nomatch h.symm.trans h'⟩, And.left⟩

theorem Along.mono {P Q : σ → ε → Prop} (h : Along step P s es)
    (hPQ : ∀ s e, P s e → Q s e) : Along step Q s es := by
  induction es generalizing s with
  | nil => trivial
  | cons e es ih => exact ⟨hPQ s e h.1, fun s' hs' => ih (h.2 s' hs')⟩

theorem Along.of_forall {P : σ → ε → Prop} (h : ∀ e ∈ es, ∀ s, P s e) : Along step P s es := by
  induction es generalizing s with
  | nil => trivial
  | cons e es ih =>
    exact ⟨h e List.mem_cons_self s, fun _ _ => ih fun e' he' => h e' (List.mem_cons_of_mem e he')⟩

/-- A run in two parts. -/
theorem Along.append {P : σ → ε → Prop} (h : Along step P s (es ++ es'))
    (hrun : run step s es = some s') : Along step P s es ∧ Along step P s' es' := by
  induction es generalizing s with
  | nil =>
    obtain rfl := Option.some_inj.1 hrun
    exact ⟨trivial, h⟩
  | cons e es ih =>
    obtain ⟨s₁, h₁, h₂⟩ := run_cons_eq_some.1 hrun
    obtain ⟨hes, hes'⟩ := ih (h.2 s₁ h₁) h₂
    refine ⟨⟨h.1, fun s₂ hs₂ => ?_⟩, hes'⟩
    obtain rfl := Option.some_inj.1 (h₁.symm.trans hs₂)
    exact hes

theorem Along.and {P Q : σ → ε → Prop} (hP : Along step P s es) (hQ : Along step Q s es) :
    Along step (fun s e => P s e ∧ Q s e) s es := by
  induction es generalizing s with
  | nil => trivial
  | cons e es ih => exact ⟨⟨hP.1, hQ.1⟩, fun s' hs' => ih (hP.2 s' hs') (hQ.2 s' hs')⟩

/-- Of a run from an invariant state, `P` may be read with the invariant at hand. -/
theorem Along.and_invariant {I : σ → Prop} {P : σ → ε → Prop} (h : Along step P s es) (hs : I s)
    (hstep : ∀ s e s', I s → step s e = some s' → I s') :
    Along step (fun s e => I s ∧ P s e) s es := by
  induction es generalizing s with
  | nil => trivial
  | cons e es ih => exact ⟨⟨hs, h.1⟩, fun s' hs' => ih (h.2 s' hs') (hstep s e s' hs hs')⟩

theorem Always.head {P : σ → Prop} (h : Always step P s es) : P s := by
  cases es with
  | nil => exact h
  | cons _ _ => exact h.1

/-- A run of allowed steps passes only states in which what such steps keep gives `Q`. -/
theorem Along.always {I Q : σ → Prop} {P : σ → ε → Prop} (h : Along step P s es)
    (hstep : ∀ s e s', I s → P s e → step s e = some s' → I s') (hQ : ∀ s, I s → Q s)
    (hs : I s) : Always step Q s es := by
  induction es generalizing s with
  | nil => exact hQ s hs
  | cons e es ih =>
    exact ⟨hQ s hs, fun s' h' => ih (h.2 s' h') (hstep s e s' hs h.1 h')⟩

/-- A run of steps that `R` allows, through states of `Q`, takes only steps that `P` allows, if
those that lead into `Q` are. -/
theorem Always.along_of {I Q : σ → Prop} {P R : σ → ε → Prop} (h : Always step Q s es)
    (hR : Along step R s es) (hstep : ∀ s e s', I s → R s e → step s e = some s' → I s')
    (hP : ∀ s e s', I s → step s e = some s' → Q s' → P s e)
    (hrun : run step s es = some s'') (hs : I s) : Along step P s es := by
  induction es generalizing s with
  | nil => trivial
  | cons e es ih =>
    obtain ⟨s₁, h₁, h₂⟩ := run_cons_eq_some.1 hrun
    refine ⟨hP s e s₁ hs h₁ (h.2 s₁ h₁).head, fun s' h' => ?_⟩
    obtain rfl := Option.some_inj.1 (h₁.symm.trans h')
    exact ih (h.2 s₁ h₁) (hR.2 s₁ h₁) h₂ (hstep s e s₁ hs hR.1 h₁)

/-- A run through states of `Q` takes only steps that `P` allows, if those that lead into `Q`
are. -/
theorem Always.along {I Q : σ → Prop} {P : σ → ε → Prop} (h : Always step Q s es)
    (hstep : ∀ s e s', I s → step s e = some s' → I s')
    (hP : ∀ s e s', I s → step s e = some s' → Q s' → P s e)
    (hrun : run step s es = some s'') (hs : I s) : Along step P s es :=
  h.along_of (R := fun _ _ => True) (.of_forall fun _ _ _ => trivial)
    (fun s e s' hs _ => hstep s e s' hs) hP hrun hs

/-! ### What is still to come

An invariant may speak of the events that are still to come. -/

/-- What every step keeps while its event is used up, a run keeps. -/
theorem run_invariant_rest {I : σ → List ε → Prop}
    (hstep : ∀ s e es s', I s (e :: es) → step s e = some s' → I s' es)
    (h : run step s es = some s') (hs : I s es) : I s' [] := by
  induction es generalizing s with
  | nil => cases h; exact hs
  | cons e es ih =>
    obtain ⟨s₁, h₁, h₂⟩ := run_cons_eq_some.1 h
    exact ih h₂ (hstep s e es s₁ hs h₁)

/-- A run from a state of `Q` passes only such states if and only if it takes only steps that `P`
allows, when the steps that `P` allows are those that stay in `Q`. -/
theorem always_iff_along {I : σ → List ε → Prop} {Q : σ → Prop} {P : σ → ε → Prop}
    (hstep : ∀ s e es s', I s (e :: es) → step s e = some s' → I s' es)
    (hiff : ∀ s e es s', I s (e :: es) → Q s → step s e = some s' → (Q s' ↔ P s e))
    (h : run step s es = some s'') (hs : I s es) (hQ : Q s) :
    Always step Q s es ↔ Along step P s es := by
  induction es generalizing s with
  | nil => exact iff_of_true hQ trivial
  | cons e es ih =>
    obtain ⟨s₁, h₁, h₂⟩ := run_cons_eq_some.1 h
    have hP := hiff s e es s₁ hs hQ h₁
    constructor
    · intro hall
      have hQ₁ := (hall.2 s₁ h₁).head
      refine ⟨hP.1 hQ₁, fun s' h' => ?_⟩
      obtain rfl := Option.some_inj.1 (h₁.symm.trans h')
      exact (ih h₂ (hstep s e es s₁ hs h₁) hQ₁).1 (hall.2 s₁ h₁)
    · intro hall
      refine ⟨hQ, fun s' h' => ?_⟩
      obtain rfl := Option.some_inj.1 (h₁.symm.trans h')
      exact (ih h₂ (hstep s e es s₁ hs h₁) (hP.2 hall.1)).2 (hall.2 s₁ h₁)

/-! ### What a run can reach -/

/-- A run of allowed steps leads to a state of `Q`, if in every other state that meets `I` an
allowed step makes a measure smaller and keeps `I`. -/
theorem exists_run_of_lt {I Q : σ → Prop} {P : σ → ε → Prop} (μ : σ → ℕ)
    (hstep : ∀ s, I s → ¬ Q s → ∃ e s', P s e ∧ step s e = some s' ∧ I s' ∧ μ s' < μ s)
    (hs : I s) : ∃ es s', run step s es = some s' ∧ Along step P s es ∧ I s' ∧ Q s' := by
  induction hn : μ s using Nat.strongRecOn generalizing s with
  | ind n ih =>
    by_cases hQ : Q s
    · exact ⟨[], s, rfl, trivial, hs, hQ⟩
    · obtain ⟨e, s₁, he, h₁, hs₁, hlt⟩ := hstep s hs hQ
      obtain ⟨es, s', hrun, halong, hs', hQ'⟩ := ih (μ s₁) (hn ▸ hlt) hs₁ rfl
      refine ⟨e :: es, s', run_cons_eq_some.2 ⟨s₁, h₁, hrun⟩, ⟨he, fun s₂ h₂ => ?_⟩, hs', hQ'⟩
      obtain rfl := Option.some_inj.1 (h₁.symm.trans h₂)
      exact halong

/-! ### Reachable states -/

namespace Reach

theorem refl (s : σ) : Reach step s s := ⟨[], rfl⟩

theorem of_isSome (h : (run step s es).isSome = true) :
    Reach step s ((run step s es).getD s) :=
  ⟨es, run_eq_getD h⟩

theorem tail {s₀ : σ} (h : Reach step s₀ s) (hs : step s e = some s') : Reach step s₀ s' := by
  obtain ⟨es, hes⟩ := h
  exact ⟨es ++ [e], run_append_of_run hes (run_singleton.trans hs)⟩

theorem trans {s₀ : σ} (h : Reach step s₀ s) (hs : run step s es = some s') :
    Reach step s₀ s' := by
  obtain ⟨es₀, hes₀⟩ := h
  exact ⟨es₀ ++ es, run_append_of_run hes₀ hs⟩

theorem invariant {I : σ → Prop} {s₀ : σ} (h : Reach step s₀ s) (hs₀ : I s₀)
    (hstep : ∀ s e s', I s → step s e = some s' → I s') : I s := by
  obtain ⟨es, hes⟩ := h
  exact run_invariant hstep hes hs₀

end Reach

end SandD
