import Mathlib.Algebra.Order.BigOperators.Group.Finset
import Mathlib.Order.Interval.Finset.Nat

/-!
# Spans of numbers

A span is given by the number it starts at and its length.  The file relates a family of
spans that lie apart inside `[0, top)` to the sum of their lengths: the lengths of such a
family add up to at most `top`, and spans laid end to end with at most that sum lie apart.
-/

namespace AxVirtLayer.Lib

variable {ι : Type*}

/-- The number is in the span. -/
def InSpan (off len x : ℕ) : Prop := off ≤ x ∧ x < off + len

/-- The spans of the members of `s` lie inside `[0, top)`, and no number is in two of them. -/
structure SpansApart (s : Finset ι) (off len : ι → ℕ) (top : ℕ) : Prop where
  inside : ∀ i ∈ s, off i + len i ≤ top
  disjoint : ∀ i ∈ s, ∀ j ∈ s, ∀ x, InSpan (off i) (len i) x → InSpan (off j) (len j) x → i = j

section

variable {s : Finset ι} {off len : ι → ℕ} {top : ℕ}

/-- **The pigeonhole rule.**  The lengths of spans that lie apart add up to at most the room
they lie in. -/
lemma SpansApart.sum_le (h : SpansApart s off len top) : ∑ i ∈ s, len i ≤ top := by
  classical
  have hdisjoint : (s : Set ι).PairwiseDisjoint fun i => Finset.Ico (off i) (off i + len i) := by
    intro i hi j hj hij
    refine Finset.disjoint_left.2 fun x hxi hxj => hij ?_
    exact h.disjoint i hi j hj x (Finset.mem_Ico.1 hxi) (Finset.mem_Ico.1 hxj)
  have hsub : s.biUnion (fun i => Finset.Ico (off i) (off i + len i)) ⊆ Finset.range top := by
    intro x hx
    obtain ⟨i, hi, hxi⟩ := Finset.mem_biUnion.1 hx
    have hlt := (Finset.mem_Ico.1 hxi).2
    have hinside := h.inside i hi
    exact Finset.mem_range.2 (hlt.trans_le hinside)
  calc ∑ i ∈ s, len i = ∑ i ∈ s, (Finset.Ico (off i) (off i + len i)).card := by
        simp only [Nat.card_Ico, Nat.add_sub_cancel_left]
    _ = (s.biUnion fun i => Finset.Ico (off i) (off i + len i)).card :=
        (Finset.card_biUnion hdisjoint).symm
    _ ≤ (Finset.range top).card := Finset.card_le_card hsub
    _ = top := Finset.card_range top

/-- Spans of which one always ends before the other starts lie apart. -/
lemma spansApart_of_below (hinside : ∀ i ∈ s, off i + len i ≤ top)
    (hbelow : ∀ i ∈ s, ∀ j ∈ s, i ≠ j → off i + len i ≤ off j ∨ off j + len j ≤ off i) :
    SpansApart s off len top := by
  refine ⟨hinside, fun i hi j hj x hxi hxj => ?_⟩
  by_contra hne
  obtain ⟨hlo, hhi⟩ := hxi
  obtain ⟨hlo', hhi'⟩ := hxj
  rcases hbelow i hi j hj hne with h | h
  · omega
  · omega

/-- Spans of one length laid end to end lie apart. -/
lemma spansApart_stride (size count : ℕ) :
    SpansApart (Finset.range count) (fun i => size * i) (fun _ => size) (size * count) := by
  refine spansApart_of_below (fun i hi => ?_) (fun i _ j _ hne => ?_)
  · have hlt : i + 1 ≤ count := Finset.mem_range.1 hi
    calc size * i + size = size * (i + 1) := (Nat.mul_succ size i).symm
      _ ≤ size * count := Nat.mul_le_mul_left size hlt
  · rcases Nat.lt_or_gt_of_ne hne with hlt | hlt
    · refine Or.inl ?_
      calc size * i + size = size * (i + 1) := (Nat.mul_succ size i).symm
        _ ≤ size * j := Nat.mul_le_mul_left size hlt
    · refine Or.inr ?_
      calc size * j + size = size * (j + 1) := (Nat.mul_succ size j).symm
        _ ≤ size * i := Nat.mul_le_mul_left size hlt

end

end AxVirtLayer.Lib
