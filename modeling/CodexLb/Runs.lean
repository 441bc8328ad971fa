import Mathlib.Data.List.Basic

/-!
# Labelled runs and their invariants

A transition system is a relation between a state, the label of one step and the
next state. A run lists the labels it took, so a statement about every
interleaving is a statement about every list of labels.

`restrict` keeps only the steps that meet a condition on the state before the
step.
-/
namespace CodexLb.Runs

variable {S A : Type*}

/-- A finite run from one state to another, with the labels in order. -/
inductive Run (step : S → A → S → Prop) : S → List A → S → Prop
  | done (s : S) : Run step s [] s
  | step {s t u : S} {a : A} {as : List A} :
      step s a t → Run step t as u → Run step s (a::as) u

variable {step : S → A → S → Prop} {s t : S}

theorem Run.single {a : A} (h : step s a t) : Run step s [a] t := .step h (.done t)

variable {as : List A} {u : S} {bs : List A}

theorem Run.append (h : Run step s as t) (k : Run step t bs u) : Run step s (as++bs) u := by
  induction h with
  | done s => exact k
  | step hs _ ih => exact .step hs (ih k)

variable {I : S → Prop}

/-- What every step preserves, every run preserves. -/
theorem Run.invariant (hstep : ∀ s a t, I s → step s a t → I t) (h : Run step s as t) (hs : I s) :
    I t := by
  induction h with
  | done s => exact hs
  | step hst _ ih => exact ih (hstep _ _ _ hs hst)

/-- A reflexive and transitive relation contained in every step from an
invariant state relates the two ends of a run. -/
theorem Run.relates {R : S → S → Prop} (hrefl : ∀ s, R s s)
    (htrans : ∀ s t u, R s t → R t u → R s u) (hstep : ∀ s a t, I s → step s a t → I t ∧ R s t)
    (h : Run step s as t) (hs : I s) : R s t := by
  induction h with
  | done s => exact hrefl s
  | step hst _ ih =>
    obtain ⟨hi,hr⟩ := hstep _ _ _ hs hst
    exact htrans _ _ _ hr (ih hi)

/-- Only the steps that meet `G` in the state before them. -/
def restrict (step : S → A → S → Prop) (G : S → A → Prop) : S → A → S → Prop :=
  fun s a t => G s a ∧ step s a t

variable {G : S → A → Prop}

theorem Run.erase (h : Run (restrict step G) s as t) : Run step s as t := by
  induction h with
  | done s => exact .done s
  | step hs _ ih => exact .step hs.2 ih

/-- The transitions of a partial step function. -/
def Steps (f : S → A → Option S) : S → A → S → Prop := fun s a t => f s a = some t

/-- Run a partial step function over a list of labels, stopping at a step
that does not meet `G`. -/
def exec (f : S → A → Option S) (G : S → A → Prop) [∀ s a, Decidable (G s a)] :
    S → List A → Option S
  | s,[] => some s
  | s,a::as => if G s a then (f s a).bind fun t => exec f G t as else none

variable {f : S → A → Option S}

theorem run_of_exec [∀ s a, Decidable (G s a)] (h : exec f G s as = some t) :
    Run (restrict (Steps f) G) s as t := by
  induction as generalizing s with
  | nil =>
    simp only [exec,Option.some.injEq] at h
    subst h
    exact .done s
  | cons a as ih =>
    rw [exec] at h
    split_ifs at h with hG
    obtain ⟨u,hu,ht⟩ := Option.bind_eq_some_iff.mp h
    exact .step ⟨hG,hu⟩ (ih ht)

/-- A run that a computation has found, with what it checked at the end. -/
theorem exists_run_of_exec {f : S → A → Option S} {G : S → A → Prop} [∀ s a, Decidable (G s a)]
    {s : S} {l : List A} {p : S → Prop} [DecidablePred p]
    (h : (exec f G s l).any (fun t => decide (p t)) = true) :
    ∃ t, Run (restrict (Steps f) G) s l t ∧ p t := by
  cases he : exec f G s l with
  | none => simp [he] at h
  | some t => exact ⟨t,run_of_exec he,by simpa [he] using h⟩

theorem exists_steps_of_exec {l : List A} {p : S → Prop} [DecidablePred p]
    (h : (exec f (fun _ _ => True) s l).any (fun t => decide (p t)) = true) :
    ∃ t, Run (Steps f) s l t ∧ p t := by
  obtain ⟨t,hrun,hp⟩ := exists_run_of_exec h
  exact ⟨t,hrun.erase,hp⟩

/-- Such a run for a result about all runs, which is then applied to it. -/
theorem exists_run_with {l : List A} {p q : S → Prop} [∀ s a, Decidable (G s a)] [DecidablePred p]
    (hq : ∀ t, Run (restrict (Steps f) G) s l t → p t → q t)
    (h : (exec f G s l).any (fun t => decide (p t)) = true) :
    ∃ t, Run (restrict (Steps f) G) s l t ∧ q t := by
  obtain ⟨t,hrun,hp⟩ := exists_run_of_exec h
  exact ⟨t,hrun,hq t hrun hp⟩

theorem exists_steps_with {l : List A} {p q : S → Prop} [DecidablePred p]
    (hq : ∀ t, Run (Steps f) s l t → p t → q t)
    (h : (exec f (fun _ _ => True) s l).any (fun t => decide (p t)) = true) :
    ∃ t, Run (Steps f) s l t ∧ q t := by
  obtain ⟨t,hrun,hp⟩ := exists_steps_of_exec h
  exact ⟨t,hrun,hq t hrun hp⟩

end CodexLb.Runs
