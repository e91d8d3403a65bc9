import AxVirtLayer.Lib.Run
import Mathlib.Data.List.Induction

/-!
# Traces and simulations of runs

What is seen of a run is a list of labels for each of its steps, its trace.  Rules about traces
and about the moments of a run, for the runs of `Lib.Run`:

* `Simulation.runs`: if each step of a system is matched by a run of a specification over the
  labels that are seen of the step, then each run of the system is matched by a run of the
  specification over its trace;
* `runs_rec`: an invariant of a run together with its end.
-/

namespace AxVirtLayer.Lib

variable {σ τ υ α β γ : Type*} {step : σ → α → Option σ}

/-! ## Traces -/

/-- What is seen of the run from `s` with the labels `ls`, when `obs` is what is seen of a
step. -/
def trace (step : σ → α → Option σ) (obs : σ → α → List β) (s : σ) : List α → List β
  | [] => []
  | a :: ls => obs s a ++ ((step s a).map fun s' => trace step obs s' ls).getD []

@[simp] lemma trace_nil (obs : σ → α → List β) (s : σ) : trace step obs s [] = [] := rfl

lemma trace_cons {obs : σ → α → List β} {s s' : σ} {a : α} (hs : step s a = some s')
    (ls : List α) : trace step obs s (a :: ls) = obs s a ++ trace step obs s' ls := by
  rw [trace, hs]
  rfl

@[simp] lemma trace_singleton (obs : σ → α → List β) (s : σ) (a : α) :
    trace step obs s [a] = obs s a := by
  rw [trace]
  cases step s a with
  | none => exact List.append_nil _
  | some s' => exact List.append_nil _

/-- Seeing through a filter that keeps what `f` gives. -/
lemma filterMap_trace (f : β → Option γ) (obs : σ → α → List β) (s : σ) (ls : List α) :
    (trace step obs s ls).filterMap f = trace step (fun s a => (obs s a).filterMap f) s ls := by
  induction ls generalizing s with
  | nil => rfl
  | cons a ls ih =>
    rw [trace, trace, List.filterMap_append]
    congr 1
    cases step s a with
    | none => rfl
    | some s' => exact ih s'

/-- **The trace rule.**  If under an invariant each step adds to a value of the state what is
seen of the step, then the run adds its trace. -/
theorem trace_eq_of_step {obs : σ → α → List β} {I : σ → Prop} {f : σ → List β}
    (hstep : ∀ s a s', I s → step s a = some s' → I s' ∧ f s' = f s ++ obs s a)
    {s t : σ} {ls : List α} (hs : I s) (ht : runs step s ls = some t) :
    f t = f s ++ trace step obs s ls := by
  induction ls generalizing s with
  | nil =>
    obtain rfl := Option.some_injective _ ht
    exact (List.append_nil _).symm
  | cons a ls ih =>
    rw [runs_cons, Option.bind_eq_some_iff] at ht
    obtain ⟨s', hs', ht'⟩ := ht
    obtain ⟨hI, hf⟩ := hstep s a s' hs hs'
    rw [ih hI ht', hf, trace_cons hs', List.append_assoc]

/-! ## Moments -/

/-- At some state of the run from `s` with the labels `ls`, the first and the last one included. -/
def Sometime (step : σ → α → Option σ) (P : σ → Prop) (s : σ) (ls : List α) : Prop :=
  ∃ before after t, ls = before ++ after ∧ runs step s before = some t ∧ P t

lemma sometime_last {P : σ → Prop} {s t : σ} {ls : List α} (ht : runs step s ls = some t)
    (h : P t) : Sometime step P s ls := ⟨ls, [], t, (List.append_nil _).symm, ht, h⟩

/-- What held at some moment held at some moment of a longer run. -/
lemma Sometime.append {P : σ → Prop} {s : σ} {ls : List α} (h : Sometime step P s ls)
    (ls' : List α) : Sometime step P s (ls ++ ls') := by
  obtain ⟨before, after, t, rfl, ht, hP⟩ := h
  exact ⟨before, after ++ ls', t, List.append_assoc .., ht, hP⟩

/-- **The history rule.**  An invariant of a run together with its end, which a step more keeps. -/
theorem runs_rec {Q : List α → σ → Prop} {s : σ} (hstart : Q [] s)
    (hstep : ∀ ls t a t', runs step s ls = some t → Q ls t → step t a = some t' →
      Q (ls ++ [a]) t')
    {t : σ} {ls : List α} (ht : runs step s ls = some t) : Q ls t := by
  induction ls using List.reverseRecOn generalizing t with
  | nil =>
    obtain rfl := Option.some_injective _ ht
    exact hstart
  | append_singleton ls a ih =>
    rw [runs_concat, Option.bind_eq_some_iff] at ht
    obtain ⟨t', ht', hs⟩ := ht
    exact hstep ls t' a t ht' (ih ht') hs

/-! ## Simulations -/

/-- A forward simulation: a step from related states is matched by a run of the specification
over what is seen of the step. -/
structure Simulation (step : σ → α → Option σ) (obs : σ → α → List β)
    (spec : τ → β → Option τ) (R : σ → τ → Prop) : Prop where
  step : ∀ s t a s', R s t → step s a = some s' → ∃ t', runs spec t (obs s a) = some t' ∧ R s' t'

namespace Simulation

variable {obs : σ → α → List β} {spec : τ → β → Option τ} {R : σ → τ → Prop}

/-- **The simulation rule.**  A run is matched by a run of the specification over its trace. -/
theorem runs (h : Simulation step obs spec R) {s s' : σ} {t : τ} {ls : List α} (hst : R s t)
    (hs : Lib.runs step s ls = some s') :
    ∃ t', Lib.runs spec t (trace step obs s ls) = some t' ∧ R s' t' := by
  induction ls generalizing s t with
  | nil =>
    obtain rfl := Option.some_injective _ hs
    exact ⟨t, rfl, hst⟩
  | cons a ls ih =>
    rw [runs_cons, Option.bind_eq_some_iff] at hs
    obtain ⟨s₁, hs₁, hrest⟩ := hs
    obtain ⟨t₁, ht₁, hst₁⟩ := h.step s t a s₁ hst hs₁
    obtain ⟨t', ht', hst'⟩ := ih hst₁ hrest
    exact ⟨t', by rw [trace_cons hs₁]; exact runs_trans ht₁ ht', hst'⟩

/-- **Simulations compose**: what is seen of the specification is seen of the system. -/
theorem comp {spec' : υ → γ → Option υ} {obs' : τ → β → List γ} {S : τ → υ → Prop}
    (h : Simulation step obs spec R) (h' : Simulation spec obs' spec' S)
    {seen : σ → α → List γ}
    (hseen : ∀ s t a s', R s t → step s a = some s' → seen s a = trace spec obs' t (obs s a)) :
    Simulation step seen spec' fun s u => ∃ t, R s t ∧ S t u where
  step := by
    rintro s u a s' ⟨t, hst, htu⟩ hs
    obtain ⟨t', ht', hst'⟩ := h.step s t a s' hst hs
    obtain ⟨u', hu', htu'⟩ := h'.runs htu ht'
    exact ⟨u', by rw [hseen s t a s' hst hs]; exact hu', t', hst', htu'⟩

end Simulation

end AxVirtLayer.Lib
