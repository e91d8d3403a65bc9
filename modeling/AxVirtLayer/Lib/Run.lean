import Mathlib.Logic.Basic
import Mathlib.Data.List.Basic
import Mathlib.Data.Option.Basic

/-!
# Runs of a labelled transition function

A system is given by a partial step function `step : σ → α → Option σ`: the label
`α` carries every choice that the scheduler, the environment or the input makes, and
`none` means that the step is not possible (or that the code stops at an assertion).
A run is a list of labels.

The file supplies the induction rules used for every property of runs:

* `inv_of_allSteps`: an invariant that every step meeting a side condition preserves
  holds at the end of every run all of whose steps meet that condition;
* `always_iff_allSteps`: when the side condition is exactly what preserves the
  invariant, the invariant holds all along a run if and only if every step of the run
  meets the condition;
* `always_iff_last`: a property that no step regains holds all along a run if and only
  if it holds at its end.
-/

namespace AxVirtLayer.Lib

variable {σ α : Type*} (step : σ → α → Option σ)

/-- The state reached from `s` by the run with the labels `ls`. -/
def runs (s : σ) : List α → Option σ
  | [] => some s
  | a :: ls => (step s a).bind fun s' => runs s' ls

/-- Every step of the run from `s` with the labels `ls` meets `C`, a condition on the
state before the step and on its label.  Nothing is asked beyond a step that is not
possible. -/
def AllSteps (C : σ → α → Prop) (s : σ) : List α → Prop
  | [] => True
  | a :: ls => C s a ∧ ∀ s', step s a = some s' → AllSteps C s' ls

/-- Every state of the run from `s` with the labels `ls`, the first and the last one
included, satisfies `P`, and every step of the run is possible. -/
def Always (P : σ → Prop) (s : σ) : List α → Prop
  | [] => P s
  | a :: ls => P s ∧ ∃ s', step s a = some s' ∧ Always P s' ls

variable {step}

@[simp] lemma runs_nil (s : σ) : runs step s [] = some s := rfl

@[simp] lemma runs_cons (s : σ) (a : α) (ls : List α) :
    runs step s (a :: ls) = (step s a).bind fun s' => runs step s' ls := rfl

lemma runs_append (s : σ) (l₁ l₂ : List α) :
    runs step s (l₁ ++ l₂) = (runs step s l₁).bind fun s' => runs step s' l₂ := by
  induction l₁ generalizing s with
  | nil => rfl
  | cons a l₁ ih =>
    rw [List.cons_append, runs_cons, runs_cons, Option.bind_assoc]
    congr 1
    funext s'
    exact ih s'

/-- A run goes on from where another one ends. -/
lemma runs_trans {s t : σ} {r : Option σ} {l₁ l₂ : List α} (h₁ : runs step s l₁ = some t)
    (h₂ : runs step t l₂ = r) : runs step s (l₁ ++ l₂) = r := by
  rw [runs_append, h₁]
  exact h₂

lemma runs_concat (s : σ) (ls : List α) (a : α) :
    runs step s (ls ++ [a]) = (runs step s ls).bind fun s' => step s' a := by
  rw [runs_append]
  congr 1
  funext s'
  simp

/-- The step between two successive prefixes of a run. -/
lemma step_of_runs_take {s u v : σ} {ls : List α} {k : ℕ} (hk : k < ls.length)
    (hu : runs step s (ls.take k) = some u) (hv : runs step s (ls.take (k + 1)) = some v) :
    step u ls[k] = some v := by
  rw [← List.take_append_getElem hk, runs_concat, hu] at hv
  exact hv

instance decidableAllSteps {C : σ → α → Prop} [∀ s a, Decidable (C s a)] (s : σ) :
    (ls : List α) → Decidable (AllSteps step C s ls)
  | [] => isTrue trivial
  | a :: ls =>
    match h : step s a with
    | none => decidable_of_iff (C s a) (by simp [AllSteps, h])
    | some s' =>
      have : Decidable (AllSteps step C s' ls) := decidableAllSteps s' ls
      decidable_of_iff (C s a ∧ AllSteps step C s' ls) (by simp [AllSteps, h])

@[simp] lemma allSteps_nil (C : σ → α → Prop) (s : σ) : AllSteps step C s [] := trivial

/-- A condition that every label of the run meets in every state. -/
lemma allSteps_of_forall {C : σ → α → Prop} {s : σ} {ls : List α}
    (h : ∀ a ∈ ls, ∀ s, C s a) : AllSteps step C s ls := by
  induction ls generalizing s with
  | nil => trivial
  | cons a ls ih =>
    exact ⟨h a (by simp) s, fun s' _ => ih fun b hb => h b (by simp [hb])⟩

lemma AllSteps.append {C : σ → α → Prop} {s : σ} {l₁ l₂ : List α}
    (h : AllSteps step C s (l₁ ++ l₂)) :
    AllSteps step C s l₁ ∧ ∀ t, runs step s l₁ = some t → AllSteps step C t l₂ := by
  induction l₁ generalizing s with
  | nil =>
    refine ⟨trivial, fun t ht => ?_⟩
    rwa [← Option.some_injective _ ht]
  | cons a l₁ ih =>
    refine ⟨⟨h.1, fun s' hs' => (ih (h.2 s' hs')).1⟩, fun t ht => ?_⟩
    obtain ⟨s', hs', ht⟩ := Option.bind_eq_some_iff.1 ht
    exact (ih (h.2 s' hs')).2 t ht

lemma allSteps_and {C D : σ → α → Prop} {s : σ} {ls : List α} (hC : AllSteps step C s ls)
    (hD : AllSteps step D s ls) : AllSteps step (fun s a => C s a ∧ D s a) s ls := by
  induction ls generalizing s with
  | nil => trivial
  | cons a ls ih =>
    exact ⟨⟨hC.1, hD.1⟩, fun s' hs' => ih (hC.2 s' hs') (hD.2 s' hs')⟩

/-- A condition implies another one along a run if it does so under an invariant of the
allowed steps. -/
lemma AllSteps.mono_of_inv {I : σ → Prop} {V C D : σ → α → Prop}
    (hkeep : ∀ s a s', I s → V s a → step s a = some s' → I s')
    (hCD : ∀ s a, I s → V s a → C s a → D s a) {s : σ} {ls : List α} (hs : I s)
    (hV : AllSteps step V s ls) (hC : AllSteps step C s ls) : AllSteps step D s ls := by
  induction ls generalizing s with
  | nil => trivial
  | cons a ls ih =>
    exact ⟨hCD s a hs hV.1 hC.1, fun s' hs' =>
      ih (hkeep s a s' hs hV.1 hs') (hV.2 s' hs') (hC.2 s' hs')⟩

/-- **The invariant rule.**  What every step meeting `C` preserves holds at the end of
every run whose steps all meet `C`. -/
theorem inv_of_allSteps {I : σ → Prop} {C : σ → α → Prop}
    (hstep : ∀ s a s', I s → C s a → step s a = some s' → I s')
    {s t : σ} {ls : List α} (hs : I s) (hC : AllSteps step C s ls)
    (ht : runs step s ls = some t) : I t := by
  induction ls generalizing s with
  | nil =>
    have : s = t := by simpa using ht
    exact this ▸ hs
  | cons a ls ih =>
    rw [runs_cons, Option.bind_eq_some_iff] at ht
    obtain ⟨s', hs', ht'⟩ := ht
    exact ih (hstep s a s' hs hC.1 hs') (hC.2 s' hs') ht'

/-- The invariant rule for a step function whose steps need no side condition. -/
theorem inv_of_runs {I : σ → Prop}
    (hstep : ∀ s a s', I s → step s a = some s' → I s')
    {s t : σ} {ls : List α} (hs : I s) (ht : runs step s ls = some t) : I t := by
  induction ls generalizing s with
  | nil =>
    have : s = t := by simpa using ht
    exact this ▸ hs
  | cons a ls ih =>
    rw [runs_cons, Option.bind_eq_some_iff] at ht
    obtain ⟨s', hs', ht'⟩ := ht
    exact ih (hstep s a s' hs hs') ht'

lemma always_head {P : σ → Prop} {s : σ} {ls : List α} (h : Always step P s ls) : P s := by
  cases ls with
  | nil => exact h
  | cons a ls => exact h.1

/-- A property that holds all along a run holds at the end of each of its prefixes. -/
lemma always_prefix {P : σ → Prop} {s : σ} {l₁ l₂ : List α}
    (h : Always step P s (l₁ ++ l₂)) : ∃ u, runs step s l₁ = some u ∧ P u := by
  induction l₁ generalizing s with
  | nil => exact ⟨s, rfl, always_head h⟩
  | cons a l₁ ih =>
    obtain ⟨-, s', hs', h'⟩ := h
    obtain ⟨u, hu, hPu⟩ := ih h'
    exact ⟨u, by rw [runs_cons, hs']; exact hu, hPu⟩

lemma always_last {P : σ → Prop} {s : σ} {ls : List α} (h : Always step P s ls) :
    ∃ u, runs step s ls = some u ∧ P u := by
  rw [← List.append_nil ls] at h
  exact always_prefix h

/-- **The preservation rule.**  If the allowed steps that meet `C` are possible and keep
`I`, then `I` holds all along every run of allowed steps that all meet `C`. -/
theorem always_of_allSteps (I : σ → Prop) {C V : σ → α → Prop}
    (hstep : ∀ s a, I s → V s a → C s a → ∃ s', step s a = some s' ∧ I s')
    {s : σ} {ls : List α} (hs : I s) (hV : AllSteps step V s ls) (hC : AllSteps step C s ls) :
    Always step I s ls := by
  induction ls generalizing s with
  | nil => exact hs
  | cons a ls ih =>
    obtain ⟨s', hs', hI⟩ := hstep s a hs hV.1 hC.1
    exact ⟨hs, s', hs', ih hI (hV.2 s' hs') (hC.2 s' hs')⟩

lemma Always.mono {P Q : σ → Prop} (hPQ : ∀ s, P s → Q s) {s : σ} {ls : List α}
    (h : Always step P s ls) : Always step Q s ls := by
  induction ls generalizing s with
  | nil => exact hPQ s h
  | cons a ls ih =>
    obtain ⟨hP, s', hs', h'⟩ := h
    exact ⟨hPQ s hP, s', hs', ih h'⟩

/-- **The last state decides.**  If the allowed steps are possible and keep `I`, and `P` holds
before each of them after which it holds, then `P` holds all along a run of allowed steps if
and only if it holds at the end of the run. -/
theorem always_iff_last {I P : σ → Prop} {V : σ → α → Prop}
    (hpos : ∀ s a, V s a → ∃ s', step s a = some s')
    (hkeep : ∀ s a s', I s → V s a → step s a = some s' → I s')
    (hback : ∀ s a s', I s → V s a → step s a = some s' → P s' → P s)
    {s : σ} {ls : List α} (hs : I s) (hV : AllSteps step V s ls) :
    Always step P s ls ↔ ∀ t, runs step s ls = some t → P t := by
  constructor
  · intro h t ht
    obtain ⟨u, hu, hP⟩ := always_last h
    rw [ht] at hu
    obtain rfl := Option.some_injective _ hu
    exact hP
  · intro h
    induction ls generalizing s with
    | nil => exact h s rfl
    | cons a ls ih =>
      obtain ⟨s', hs'⟩ := hpos s a hV.1
      have hrest : Always step P s' ls := by
        refine ih (hkeep s a s' hs hV.1 hs') (hV.2 s' hs') fun t ht => h t ?_
        rw [runs_cons, hs']
        exact ht
      exact ⟨hback s a s' hs hV.1 hs' (always_head hrest), s', hs', hrest⟩

/-- **The exact rule.**  Suppose that `I` strengthens `P`, that the allowed steps are
possible from the states with `I`, that a step meeting `C` keeps `I`, and that a step
after which `P` holds met `C`.  Then `P` holds all along a run of allowed steps if and
only if all the steps of the run meet `C`. -/
theorem always_iff_allSteps {I P : σ → Prop} {C V : σ → α → Prop}
    (hIP : ∀ s, I s → P s)
    (hpos : ∀ s a, I s → V s a → C s a → ∃ s', step s a = some s')
    (hkeep : ∀ s a s', I s → V s a → C s a → step s a = some s' → I s')
    (hexact : ∀ s a s', I s → V s a → step s a = some s' → P s' → C s a)
    {s : σ} {ls : List α} (hs : I s) (hV : AllSteps step V s ls) :
    Always step P s ls ↔ AllSteps step C s ls := by
  induction ls generalizing s with
  | nil => exact ⟨fun _ => trivial, fun _ => hIP s hs⟩
  | cons a ls ih =>
    obtain ⟨hVa, hVls⟩ := hV
    constructor
    · rintro ⟨-, s', hs', h⟩
      have hC : C s a := hexact s a s' hs hVa hs' (always_head h)
      refine ⟨hC, fun s'' hs'' => ?_⟩
      have heq : s' = s'' := Option.some_injective _ (hs'.symm.trans hs'')
      subst heq
      exact (ih (hkeep s a s' hs hVa hC hs') (hVls s' hs')).1 h
    · rintro ⟨hC, h⟩
      obtain ⟨s', hs'⟩ := hpos s a hs hVa hC
      have hI : I s' := hkeep s a s' hs hVa hC hs'
      exact ⟨hIP s hs, s', hs', (ih hI (hVls s' hs')).2 (h s' hs')⟩

end AxVirtLayer.Lib
