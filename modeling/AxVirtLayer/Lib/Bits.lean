import Mathlib.Data.BitVec
import Mathlib.Data.Finset.Card
import Mathlib.Data.Finset.Range
import Mathlib.Data.Finset.Filter

/-!
# Words as sets of bits

A machine word is read as the finite set of its set bits.  The file gives the reading of
the word operations a bitmap uses (setting a bit, clearing a bit, masking off the low
bits, counting trailing zeros, counting set bits) in terms of that set.
-/

namespace AxVirtLayer.Lib

variable {w : ℕ}

/-- One instance for the numerals of `Fin 4`. -/
instance neZeroFour : NeZero 4 := ⟨by decide⟩

/-- The set bits of a word. -/
def bitSet (x : BitVec w) : Finset ℕ := (Finset.range w).filter fun i => x.getLsbD i

@[simp] lemma mem_bitSet {x : BitVec w} {i : ℕ} : i ∈ bitSet x ↔ x.getLsbD i = true := by
  simp only [bitSet, Finset.mem_filter, Finset.mem_range, and_iff_right_iff_imp]
  exact BitVec.lt_of_getLsbD

/-! ## Setting, clearing and testing one bit -/

lemma getLsbD_one_shiftLeft (i j : ℕ) :
    (1#w <<< i).getLsbD j = (decide (j < w) && decide (j = i)) := by
  simp only [BitVec.getLsbD_shiftLeft, BitVec.getLsbD_one]
  grind

lemma getLsbD_setBit (x : BitVec w) {i : ℕ} (hi : i < w) (j : ℕ) :
    (x ||| 1#w <<< i).getLsbD j = (x.getLsbD j || decide (j = i)) := by
  rw [BitVec.getLsbD_or, getLsbD_one_shiftLeft]
  by_cases h : j = i <;> simp [h, hi]

lemma getLsbD_clearBit (x : BitVec w) (i j : ℕ) :
    (x &&& ~~~(1#w <<< i)).getLsbD j = (x.getLsbD j && decide (j ≠ i)) := by
  rw [BitVec.getLsbD_and, BitVec.getLsbD_not, getLsbD_one_shiftLeft]
  by_cases hj : j < w
  · simp [hj]
  · simp [BitVec.getLsbD_of_ge x j (by omega)]

lemma and_one_shiftLeft_ne_zero (x : BitVec w) (i : ℕ) :
    x &&& 1#w <<< i ≠ 0#w ↔ x.getLsbD i = true := by
  constructor
  · intro h
    by_contra hi
    refine h (BitVec.eq_of_getLsbD_eq fun j _ => ?_)
    rw [BitVec.getLsbD_and, getLsbD_one_shiftLeft]
    by_cases hj : j = i
    · subst hj
      simp [hi]
    · simp [hj]
  · intro hi h
    have hlt := BitVec.lt_of_getLsbD hi
    have hbit : (x &&& 1#w <<< i).getLsbD i = false := by rw [h, BitVec.getLsbD_zero]
    rw [BitVec.getLsbD_and, getLsbD_one_shiftLeft, hi] at hbit
    simp [hlt] at hbit

lemma getLsbD_allOnes_shiftLeft (i j : ℕ) :
    (BitVec.allOnes w <<< i).getLsbD j = (decide (j < w) && decide (i ≤ j)) := by
  simp only [BitVec.getLsbD_shiftLeft, BitVec.getLsbD_allOnes]
  grind

/-! ## Trailing zeros -/

lemma ctz_lt {x : BitVec w} (hx : x ≠ 0#w) : x.ctz.toNat < w := by
  have h := BitVec.ctz_lt_iff_ne_zero.2 hx
  have hw : w < 2 ^ w := Nat.lt_two_pow_self
  simpa [BitVec.lt_def, Nat.mod_eq_of_lt hw] using h

/-- The count of trailing zeros is the least set bit. -/
lemma ctz_eq_iff {x : BitVec w} (hx : x ≠ 0#w) {i : ℕ} :
    x.ctz.toNat = i ↔ x.getLsbD i = true ∧ ∀ j < i, x.getLsbD j = false := by
  constructor
  · rintro rfl
    exact ⟨BitVec.getLsbD_true_ctz_of_ne_zero hx, fun j hj => BitVec.getLsbD_false_of_lt_ctz hj⟩
  · rintro ⟨hi, hlow⟩
    rcases lt_trichotomy x.ctz.toNat i with h | h | h
    · exact absurd (hlow _ h) (by simp [BitVec.getLsbD_true_ctz_of_ne_zero hx])
    · exact h
    · exact absurd hi (by simp [BitVec.getLsbD_false_of_lt_ctz h])

/-! ## Counting the set bits -/

lemma cpopNatRec_eq_card (x : BitVec w) (n : ℕ) :
    x.cpopNatRec n 0 = ((Finset.range n).filter fun i => x.getLsbD i).card := by
  induction n with
  | zero => rfl
  | succ n ih =>
    rw [BitVec.cpopNatRec_succ, BitVec.cpopNatRec_eq, ih, Finset.range_add_one,
      Finset.filter_insert]
    cases h : x.getLsbD n
    · simp
    · simp

/-- The population count is the number of set bits. -/
lemma toNat_cpop_eq_card (x : BitVec w) : x.cpop.toNat = (bitSet x).card := by
  rw [BitVec.toNat_cpop, cpopNatRec_eq_card, bitSet]

end AxVirtLayer.Lib
