import AxVirtLayer.Lib.Run
import Mathlib.Order.Basic
import Mathlib.Algebra.Order.Group.Nat

/-!
# Fair schedules

A schedule gives turns to the threads of a system, one after another; a thread that cannot take a
step lets its turn pass.  In a round every thread has a turn, at any place and any number of times.

`Helpful.rounds` is the rule for what a system gets to under every fair schedule.  It asks for a
measure and, in each state where the measure is not 0, for a helpful thread: its turn lowers the
measure, and a turn of another thread lowers the measure or leaves it, and the helpful thread, as
they are.
-/

namespace AxVirtLayer.Lib

variable {σ α : Type*} (step : σ → α → Option σ)

/-- A turn. -/
def turn (s : σ) (a : α) : σ := (step s a).getD s

/-- The state after the turns of a schedule. -/
def turns (s : σ) (ls : List α) : σ := ls.foldl (turn step) s

/-- Every turn meets `C`, a condition on the state before the turn and on the thread. -/
def AllTurns (C : σ → α → Prop) (s : σ) : List α → Prop
  | [] => True
  | a :: ls => C s a ∧ AllTurns C (turn step s a) ls

instance decidableAllTurns {C : σ → α → Prop} [∀ s a, Decidable (C s a)] (s : σ) :
    (ls : List α) → Decidable (AllTurns step C s ls)
  | [] => isTrue trivial
  | a :: ls =>
    have : Decidable (AllTurns step C (turn step s a) ls) := decidableAllTurns _ ls
    inferInstanceAs (Decidable (C s a ∧ AllTurns step C (turn step s a) ls))

variable {step}

/-- A turn passes, or it is a step. -/
lemma turn_cases (step : σ → α → Option σ) (s : σ) (a : α) :
    turn step s a = s ∨ step s a = some (turn step s a) := by
  rw [turn]
  cases step s a with
  | none => exact Or.inl rfl
  | some s' => exact Or.inr rfl

lemma turn_of_some {s s' : σ} {a : α} (h : step s a = some s') : turn step s a = s' := by
  rw [turn, h]
  rfl

lemma turns_append (s : σ) (l₁ l₂ : List α) :
    turns step s (l₁ ++ l₂) = turns step (turns step s l₁) l₂ := List.foldl_append

lemma allTurns_append {C : σ → α → Prop} {s : σ} {l₁ l₂ : List α} :
    AllTurns step C s (l₁ ++ l₂) ↔
      AllTurns step C s l₁ ∧ AllTurns step C (turns step s l₁) l₂ := by
  induction l₁ generalizing s with
  | nil => exact (true_and _).symm.to_iff
  | cons a l₁ ih => exact (and_congr_right' ih).trans and_assoc.symm

lemma allTurns_of_mem {C : σ → α → Prop} {s : σ} {ls : List α} (h : ∀ s, ∀ a ∈ ls, C s a) :
    AllTurns step C s ls := by
  induction ls generalizing s with
  | nil => trivial
  | cons a ls ih =>
    exact ⟨h s a List.mem_cons_self, ih fun s b hb => h s b (List.mem_cons_of_mem _ hb)⟩

/-- A measure with a helpful thread in every state where it is not 0. -/
structure Helpful (step : σ → α → Option σ) (I : σ → Prop) (C : σ → α → Prop) (p : σ → ℕ)
    (helper : σ → α) : Prop where
  keep : ∀ s a, I s → C s a → I (turn step s a)
  other : ∀ s a, I s → C s a → p (turn step s a) < p s ∨
    p (turn step s a) = p s ∧ helper (turn step s a) = helper s
  own : ∀ s, I s → p s ≠ 0 → C s (helper s) → p (turn step s (helper s)) < p s

namespace Helpful

variable {I : σ → Prop} {C : σ → α → Prop} {p : σ → ℕ} {helper : σ → α}

/-- The measure does not grow. -/
lemma turns_le (h : Helpful step I C p helper) {s : σ} {ls : List α} (hs : I s)
    (hC : AllTurns step C s ls) : I (turns step s ls) ∧ p (turns step s ls) ≤ p s := by
  induction ls generalizing s with
  | nil => exact ⟨hs, le_rfl⟩
  | cons a ls ih =>
    obtain ⟨hI, hle⟩ := ih (h.keep s a hs hC.1) hC.2
    refine ⟨hI, hle.trans ?_⟩
    rcases h.other s a hs hC.1 with hlt | ⟨heq, -⟩
    · exact hlt.le
    · exact heq.le

/-- **One round.**  Until the helpful thread has its turn it stays the helpful one, or the measure
is lower already. -/
lemma round (h : Helpful step I C p helper) {s : σ} {ls : List α} (hs : I s) (hp : p s ≠ 0)
    (hC : AllTurns step C s ls) (hmem : helper s ∈ ls) : p (turns step s ls) < p s := by
  induction ls generalizing s with
  | nil => cases hmem
  | cons a ls ih =>
    have hI := h.keep s a hs hC.1
    have hle := (h.turns_le hI hC.2).2
    by_cases ha : helper s = a
    · have hlt := h.own s hs hp (ha ▸ hC.1)
      rw [ha] at hlt
      exact hle.trans_lt hlt
    · rcases h.other s a hs hC.1 with hlt | ⟨heq, hsame⟩
      · exact hle.trans_lt hlt
      · have hleft := (List.mem_cons.1 hmem).resolve_left ha
        rw [← hsame] at hleft
        exact (ih hI (by rwa [heq]) hC.2 hleft).trans_eq heq

/-- **The rule for fair schedules**: as many rounds as the measure says bring it to 0. -/
theorem rounds (h : Helpful step I C p helper) {threads : List α}
    (hhelper : ∀ s, I s → p s ≠ 0 → helper s ∈ threads) {rs : List (List α)}
    (hfair : ∀ r ∈ rs, ∀ a ∈ threads, a ∈ r) {s : σ} (hs : I s)
    (hC : AllTurns step C s rs.flatten) (hlen : p s ≤ rs.length) :
    I (turns step s rs.flatten) ∧ p (turns step s rs.flatten) = 0 := by
  induction rs generalizing s with
  | nil => exact ⟨hs, Nat.le_zero.1 hlen⟩
  | cons r rs ih =>
    rw [List.flatten_cons, allTurns_append] at hC
    rw [List.flatten_cons, turns_append]
    obtain ⟨hI, hle⟩ := h.turns_le hs hC.1
    refine ih (fun r' hr' => hfair r' (List.mem_cons_of_mem _ hr')) hI hC.2 ?_
    rw [List.length_cons] at hlen
    by_cases hp : p s = 0
    · omega
    · have hlt := h.round hs hp hC.1 (hfair r List.mem_cons_self _ (hhelper s hs hp))
      omega

end Helpful

end AxVirtLayer.Lib
