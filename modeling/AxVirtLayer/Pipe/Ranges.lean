import AxVirtLayer.Lib.Spans
import AxVirtLayer.Pipe.Presence
import Mathlib.Algebra.BigOperators.Fin

/-!
# The layout of a bitpool

The ranges and dispositions that `bitpool_range_populate` computes from the percentages, and the
bytes of the buckets (`bitpool_create`, `_bitpool_index_to_bucket`).  `round` is rounding to the
nearest count here: for a multiple of 64 no percentage of it is halfway between two counts.

The four shares are rounded one by one, so that together they can be one more than there are
buckets: the range of the lowest priority then starts below zero, and wraps.
-/

namespace AxVirtLayer

open Lib

/-! ## The checks -/

/-- The checks of `bitpool_range_populate`. -/
structure BitpoolPercDesc.Accepted (perc : BitpoolPercDesc) : Prop where
  sum_le : bitpoolPercDescSum perc ≤ 100
  real_le : perc 0 ≤ perc 3
  high_le : perc 1 ≤ perc 3
  med_le : perc 2 ≤ perc 3

/-- A count of buckets that `bitpool_create` accepts: a positive multiple of 64 that is a
`u32`. -/
structure PoolCount (n : ℕ) : Prop where
  pos : 0 < n
  mult : n % 64 = 0
  lt : n < 2 ^ 32

section

variable {n : ℕ} {perc : BitpoolPercDesc}

lemma BitpoolPercDesc.Accepted.le_low (h : perc.Accepted) (r : Fin 4) : perc r ≤ perc 3 := by
  rcases range_cases r with rfl | rfl | rfl | rfl
  · exact h.real_le
  · exact h.high_le
  · exact h.med_le
  · exact le_rfl

lemma BitpoolPercDesc.Accepted.le_hundred (h : perc.Accepted) (r : Fin 4) : perc r ≤ 100 := by
  have hsum := h.sum_le
  have hle := h.le_low r
  rw [bitpoolPercDescSum] at hsum
  omega

/-! ## Rounding -/

/-- The share of a percentage is rounded up: one, or zero if it is rounded down. -/
def roundedUp (p n : ℕ) : ℕ := if 50 < p * n % 100 then 1 else 0

/-- A percentage of a multiple of 64 is never halfway between two counts. -/
lemma percent_mod_ne (hn : PoolCount n) (p : ℕ) : p * n % 100 ≠ 50 := by
  have hmult := hn.mult
  obtain ⟨k, rfl⟩ := Nat.dvd_of_mod_eq_zero hmult
  rw [Nat.mul_left_comm]
  omega

lemma nearestPercent_eq (hn : PoolCount n) (p : ℕ) :
    nearestPercent p n = p * n / 100 + roundedUp p n := by
  have hne := percent_mod_ne hn p
  rw [nearestPercent, roundedUp]
  generalize p * n = x at hne
  split_ifs with h
  · omega
  · omega

lemma nearestPercent_mono {p q : ℕ} (h : p ≤ q) (n : ℕ) :
    nearestPercent p n ≤ nearestPercent q n := by
  have hmul := Nat.mul_le_mul_right n h
  rw [nearestPercent, nearestPercent]
  omega

lemma nearestPercent_le {p : ℕ} (h : p ≤ 100) (n : ℕ) : nearestPercent p n ≤ n := by
  have hmul := Nat.mul_le_mul_right n h
  rw [nearestPercent]
  omega

/-- Only the share of zero percent is empty. -/
lemma nearestPercent_eq_zero_iff (hn : PoolCount n) {p : ℕ} : nearestPercent p n = 0 ↔ p = 0 := by
  have hpos := hn.pos
  have hmult := hn.mult
  constructor
  · intro h
    by_contra hne
    have hmul := Nat.mul_le_mul_right n (Nat.one_le_iff_ne_zero.2 hne)
    rw [nearestPercent] at h
    omega
  · rintro rfl
    rw [nearestPercent, Nat.zero_mul]

/-! ## What `bitpool_range_populate` computes -/

lemma bitpoolPopulateLoop_bitN (round : ℕ → ℕ → ℕ) (perc : BitpoolPercDesc) (smapBitN : ℕ)
    (buf : Fin 4 → BitpoolPriorRange) (r : Fin 4) :
    (bitpoolPopulateLoop round perc smapBitN [0, 1, 2, 3] 0 buf r).bitN =
      round (perc r) smapBitN % 2 ^ 32 := by
  simp only [bitpoolPopulateLoop]
  rcases range_cases r with rfl | rfl | rfl | rfl
  all_goals simp

/-- **The outcome of `bitpool_range_populate`** on percentages that pass its checks: the division
by zero if one of the first three percentages is zero, or else ranges whose sizes are the rounded
shares and whose dispositions are the quotients. -/
lemma bitpoolRangePopulate_cases (hperc : perc.Accepted) (smapDesc : SyncMapDesc)
    (hn : PoolCount (smapDesc.size * 64)) :
    ((perc 0 = 0 ∨ perc 1 = 0 ∨ perc 2 = 0) ∧
        bitpoolRangePopulate nearestPercent smapDesc perc = none) ∨
      ((perc 0 ≠ 0 ∧ perc 1 ≠ 0 ∧ perc 2 ≠ 0) ∧
        ∃ ranges, bitpoolRangePopulate nearestPercent smapDesc perc = some ranges ∧
          ∀ r, (ranges r).bitN = nearestPercent (perc r) (smapDesc.size * 64) ∧
            (ranges r).bitDisp = if r = 3 then 1 else (ranges 3).bitN / (ranges r).bitN) := by
  have hsum := hperc.sum_le
  have hlow := hperc.le_low
  have hchecks : ¬ (perc 3 < perc 0 ∨ perc 3 < perc 1 ∨ perc 3 < perc 2) := by
    have h0 := hlow 0
    have h1 := hlow 1
    have h2 := hlow 2
    omega
  have hbitN : ∀ r, (bitpoolPopulateLoop nearestPercent perc (smapDesc.size * 64) [0, 1, 2, 3] 0
      (fun _ => ⟨0, 0, 0⟩) r).bitN = nearestPercent (perc r) (smapDesc.size * 64) := by
    intro r
    rw [bitpoolPopulateLoop_bitN]
    exact Nat.mod_eq_of_lt ((nearestPercent_le (hperc.le_hundred r) _).trans_lt hn.lt)
  rw [bitpoolRangePopulate, if_neg (by omega), if_neg hchecks]
  simp only [hbitN, nearestPercent_eq_zero_iff hn]
  by_cases hzero : perc 0 = 0 ∨ perc 1 = 0 ∨ perc 2 = 0
  · exact Or.inl ⟨hzero, if_pos hzero⟩
  · exact Or.inr ⟨by tauto, _, if_neg hzero, fun r => ⟨rfl, rfl⟩⟩

/-! ## Dispositions -/

/-- **The dispositions are well defined**: `bitpool_range_populate` divides by no empty range, and
gives every range that is not empty a disposition of at least one. -/
def QuotasDefined (smapDesc : SyncMapDesc) (perc : BitpoolPercDesc) : Prop :=
  ∃ ranges, bitpoolRangePopulate nearestPercent smapDesc perc = some ranges ∧
    ∀ r, 0 < (ranges r).bitN → 1 ≤ (ranges r).bitDisp

/-- The dispositions are well defined if and only if none of the first three percentages is
zero. -/
theorem quotasDefined_iff {smapDesc : SyncMapDesc} (hn : PoolCount (smapDesc.size * 64))
    (hperc : perc.Accepted) :
    QuotasDefined smapDesc perc ↔ perc 0 ≠ 0 ∧ perc 1 ≠ 0 ∧ perc 2 ≠ 0 := by
  rcases bitpoolRangePopulate_cases hperc smapDesc hn with ⟨hzero, heq⟩ |
    ⟨hne, ranges, heq, hranges⟩
  · refine ⟨fun ⟨ranges, hsome, _⟩ => ?_, fun hne => ?_⟩
    · rw [heq] at hsome
      cases hsome
    · tauto
  · refine ⟨fun _ => hne, fun _ => ⟨ranges, heq, fun r hpos => ?_⟩⟩
    rw [(hranges r).2]
    split_ifs with hr
    · exact le_rfl
    · -- the lowest priority has the largest share
      have hle : (ranges r).bitN ≤ (ranges 3).bitN := by
        rw [(hranges r).1, (hranges 3).1]
        exact nearestPercent_mono (hperc.le_low r) _
      exact (Nat.one_le_div_iff hpos).2 hle

end

/-- `BITPOOL_PERC_OFFLOAD`, which leaves out the highest priority. -/
def bitpoolPercOffload : BitpoolPercDesc := ![0, 10, 20, 70]

/-- The equivalence for the default percentages of 64 buckets. -/
theorem quotasDefined_iff_default :
    QuotasDefined ⟨fun _ => 0, 1⟩ bitpoolPercDefault ↔
      bitpoolPercDefault 0 ≠ 0 ∧ bitpoolPercDefault 1 ≠ 0 ∧ bitpoolPercDefault 2 ≠ 0 :=
  quotasDefined_iff ⟨by decide, rfl, by decide⟩ ⟨by decide, by decide, by decide, by decide⟩

/-- Under `BITPOOL_PERC_OFFLOAD` the share of the lowest priority is divided by zero. -/
theorem offload_not_quotasDefined :
    bitpoolPercOffload.Accepted ∧ ¬ QuotasDefined ⟨fun _ => 0, 1⟩ bitpoolPercOffload := by
  have hperc : bitpoolPercOffload.Accepted := ⟨by decide, by decide, by decide, by decide⟩
  refine ⟨hperc, fun ⟨ranges, hsome, _⟩ => ?_⟩
  rcases bitpoolRangePopulate_cases hperc ⟨fun _ => 0, 1⟩ ⟨by decide, rfl, by decide⟩ with
    ⟨-, hnone⟩ | ⟨⟨hne, -⟩, -⟩
  · rw [hnone] at hsome
    cases hsome
  · exact hne rfl

/-! ## The layout -/

/-- **The ranges partition the pool**: they are disjoint and inside it, lie one below the other
from the highest priority on, and the index of a bucket leads back to its range. -/
structure BitpoolDesc.RangesPartition {β : Type} (pool : BitpoolDesc β) : Prop where
  disjoint : ∀ r s i, (pool.ranges r).Has i → (pool.ranges s).Has i → r = s
  inside : ∀ r, (pool.ranges r).bitI + (pool.ranges r).bitN ≤ pool.bucketCount
  descending : ∀ r s, r < s → (pool.ranges s).bitI + (pool.ranges s).bitN ≤ (pool.ranges r).bitI
  presence : ∀ r i, (pool.ranges r).Has i → bitpoolIndexToPresence pool i = some r

section

variable {n : ℕ} {perc : BitpoolPercDesc}

/-- The shares that are rounded up are covered by the remainders of all shares and by the part
of the pool that is given to no priority. -/
def RoundingFits (n : ℕ) (perc : BitpoolPercDesc) : Prop :=
  100 * (roundedUp (perc 0) n + roundedUp (perc 1) n + roundedUp (perc 2) n +
      roundedUp (perc 3) n) ≤
    perc 0 * n % 100 + perc 1 * n % 100 + perc 2 * n % 100 + perc 3 * n % 100 +
      (100 - bitpoolPercDescSum perc) * n

instance (n : ℕ) (perc : BitpoolPercDesc) : Decidable (RoundingFits n perc) :=
  inferInstanceAs (Decidable (_ ≤ _))

/-- The condition says that the rounded shares fit into the pool. -/
lemma roundingFits_iff (hn : PoolCount n) (hperc : perc.Accepted) :
    RoundingFits n perc ↔ nearestPercent (perc 0) n + nearestPercent (perc 1) n +
      nearestPercent (perc 2) n + nearestPercent (perc 3) n ≤ n := by
  have hsum : perc 0 * n + perc 1 * n + perc 2 * n + perc 3 * n +
      (100 - bitpoolPercDescSum perc) * n = 100 * n := by
    have hle := hperc.sum_le
    rw [← Nat.add_mul, ← Nat.add_mul, ← Nat.add_mul, ← Nat.add_mul, ← bitpoolPercDescSum,
      Nat.add_sub_cancel' hle]
  simp only [nearestPercent_eq hn, RoundingFits]
  omega

lemma BitpoolDesc.Shape.rangesPartition {β : Type} {pool : BitpoolDesc β} (h : pool.Shape) :
    pool.RangesPartition where
  disjoint _ _ _ hr hs := h.eq_of_has hr hs
  inside := h.inside
  descending := h.below
  presence _ _ hi := h.indexToPresence hi

/-- The sizes of ranges that partition a pool add up to at most its size. -/
lemma BitpoolDesc.RangesPartition.sum_le {β : Type} {pool : BitpoolDesc β}
    (h : pool.RangesPartition) :
    (pool.ranges 0).bitN + (pool.ranges 1).bitN + (pool.ranges 2).bitN + (pool.ranges 3).bitN ≤
      pool.bucketCount := by
  have hapart : SpansApart Finset.univ (fun r => (pool.ranges r).bitI)
      (fun r => (pool.ranges r).bitN) pool.bucketCount :=
    ⟨fun r _ => h.inside r, fun r _ s _ i hr hs => h.disjoint r s i hr hs⟩
  have hsum := hapart.sum_le
  rwa [Fin.sum_univ_four] at hsum

/-- Ranges whose sizes fit into the pool are laid out without a wrap. -/
lemma shape_of_sum_le {β : Type} {pool : BitpoolDesc β} (smapDesc : SyncMapDesc)
    (hn : PoolCount (smapDesc.size * 64)) {round : ℕ → ℕ → ℕ}
    (hranges : bitpoolRangePopulate round smapDesc perc = some pool.ranges)
    (hcount : pool.bucketCount = smapDesc.size * 64) (hsize : pool.smapDesc.size = smapDesc.size)
    (hpos : ∀ r, 0 < (pool.ranges r).bitN)
    (hsum : (pool.ranges 0).bitN + (pool.ranges 1).bitN + (pool.ranges 2).bitN +
      (pool.ranges 3).bitN ≤ smapDesc.size * 64) : pool.Shape := by
  obtain ⟨-, h0, h1, h2, h3⟩ := bitpoolRangePopulate_bitI hranges
  have hlt := hn.lt
  have hinside : ∀ r, (pool.ranges r).bitI + (pool.ranges r).bitN ≤ smapDesc.size * 64 := by
    intro r
    rcases range_cases r with rfl | rfl | rfl | rfl <;> omega
  refine ⟨hpos, bitpoolRangePopulate_below hranges hlt hinside, ?_, ?_, ?_⟩
  · rw [hcount]
    exact hinside
  · omega
  · rw [hcount]
    exact hlt

/-- Shares of ranges that partition the pool fit into it. -/
lemma roundingFits_of_partition {β : Type} {mem : ℕ → β} {pool : BitpoolDesc β}
    (hn : PoolCount n) (hperc : perc.Accepted)
    (hcreate : bitpoolCreate nearestPercent mem n perc = some pool) (h : pool.RangesPartition) :
    RoundingFits n perc := by
  have hsize : n / 64 * 64 = n := Nat.div_mul_cancel (Nat.dvd_of_mod_eq_zero hn.mult)
  have hn' : PoolCount (n / 64 * 64) := hsize.symm ▸ hn
  rcases bitpoolRangePopulate_cases hperc ⟨fun _ => 0, n / 64⟩ hn' with
    ⟨-, hnone⟩ | ⟨-, ranges, hranges, hspec⟩
  · rw [bitpoolCreate, if_neg hn.pos.ne', syncMapInit, if_neg (not_not.2 hn.mult)] at hcreate
    simp only [Option.bind_eq_bind, Option.bind_some, hnone] at hcreate
    cases hcreate
  · rw [bitpoolCreate_eq hn.pos.ne' hn.mult hranges mem] at hcreate
    obtain rfl := Option.some_injective _ hcreate
    have hsum := h.sum_le
    rw [roundingFits_iff hn hperc]
    simpa only [(hspec _).1, hsize] using hsum

/-- **The ranges partition the pool** if and only if the shares that are rounded up are
covered. -/
theorem rangesPartition_iff {β : Type} (mem : ℕ → β) (hn : PoolCount n) (hperc : perc.Accepted)
    (hne : ∀ r, perc r ≠ 0) :
    (∃ pool, bitpoolCreate nearestPercent mem n perc = some pool ∧ pool.RangesPartition) ↔
      RoundingFits n perc := by
  refine ⟨fun ⟨pool, hcreate, h⟩ => roundingFits_of_partition hn hperc hcreate h, fun hfits => ?_⟩
  have hsize : n / 64 * 64 = n := Nat.div_mul_cancel (Nat.dvd_of_mod_eq_zero hn.mult)
  have hn' : PoolCount (n / 64 * 64) := hsize.symm ▸ hn
  rcases bitpoolRangePopulate_cases hperc ⟨fun _ => 0, n / 64⟩ hn' with
    ⟨hzero, -⟩ | ⟨-, ranges, hranges, hspec⟩
  · rcases hzero with h | h | h
    · exact absurd h (hne 0)
    · exact absurd h (hne 1)
    · exact absurd h (hne 2)
  · have hbits : ∀ r, (ranges r).bitN = nearestPercent (perc r) n := by
      intro r
      rw [(hspec r).1, hsize]
    have hpos : ∀ r, 0 < (ranges r).bitN := by
      intro r
      rw [hbits, Nat.pos_iff_ne_zero]
      exact fun h => hne r ((nearestPercent_eq_zero_iff hn).1 h)
    have hsum : (ranges 0).bitN + (ranges 1).bitN + (ranges 2).bitN + (ranges 3).bitN ≤
        n / 64 * 64 := by
      simpa only [hbits, hsize] using (roundingFits_iff hn hperc).1 hfits
    exact ⟨_, bitpoolCreate_eq hn.pos.ne' hn.mult hranges mem,
      (shape_of_sum_le ⟨fun _ => 0, n / 64⟩ hn' hranges hsize.symm rfl hpos hsum).rangesPartition⟩

end

lemma bitpoolPercDefault_accepted : bitpoolPercDefault.Accepted :=
  ⟨by decide, by decide, by decide, by decide⟩

/-- The equivalence for the queue of the scheduler. -/
theorem rangesPartition_iff_default :
    (∃ pool, bitpoolCreate nearestPercent (fun _ => ()) 64 bitpoolPercDefault = some pool ∧
        pool.RangesPartition) ↔ RoundingFits 64 bitpoolPercDefault :=
  rangesPartition_iff _ ⟨by decide, rfl, by decide⟩ bitpoolPercDefault_accepted (by decide)

/-- Percentages 9, 9, 9 and 73 of 64 buckets are rounded up to 6, 6, 6 and 47, one bucket too
many. -/
theorem roundedUpPercents_not_partition :
    PoolCount 64 ∧ BitpoolPercDesc.Accepted ![9, 9, 9, 73] ∧
      ¬ ∃ pool, bitpoolCreate nearestPercent (fun _ => ()) 64 ![9, 9, 9, 73] = some pool ∧
        pool.RangesPartition := by
  have hn : PoolCount 64 := ⟨by decide, rfl, by decide⟩
  have hperc : BitpoolPercDesc.Accepted ![9, 9, 9, 73] :=
    ⟨by decide, by decide, by decide, by decide⟩
  refine ⟨hn, hperc, fun ⟨pool, hcreate, h⟩ => ?_⟩
  exact absurd (roundingFits_of_partition hn hperc hcreate h) (by decide)

/-! ## The bytes of the buckets -/

/-- `_bitpool_index_to_bucket`: the offset from `bucket_base`, a product of two `u32`; `none` is
the failing assertion. -/
def bitpoolIndexToBucket (bucketCount bucketSize index : ℕ) : Option ℕ :=
  if index < bucketCount then some (bucketSize * index % 2 ^ 32) else none

/-- The bytes `bitpool_create` requests for its buckets, a product of two `u32`. -/
def bitpoolBucketBytes (bucketCount bucketSize : ℕ) : ℕ := bucketSize * bucketCount % 2 ^ 32

/-- **Buckets never overlap**: the buckets below the count have places inside the bytes that were
requested, and no byte belongs to two of them. -/
def BucketsApart (bucketCount bucketSize : ℕ) : Prop :=
  ∃ off : ℕ → ℕ,
    (∀ index < bucketCount, bitpoolIndexToBucket bucketCount bucketSize index =
      some (off index)) ∧
    SpansApart (Finset.range bucketCount) off (fun _ => bucketSize)
      (bitpoolBucketBytes bucketCount bucketSize)

/-- **Buckets never overlap** if and only if the product of their count and their size is a
`u32`. -/
theorem bucketsApart_iff (bucketCount bucketSize : ℕ) :
    BucketsApart bucketCount bucketSize ↔ bucketSize * bucketCount < 2 ^ 32 := by
  constructor
  · rintro ⟨off, -, hapart⟩
    -- the buckets need more bytes than a wrapped product requests
    have hsum := hapart.sum_le
    rw [Finset.sum_const, Finset.card_range, smul_eq_mul, bitpoolBucketBytes, Nat.mul_comm] at hsum
    have hlt : bucketSize * bucketCount % 2 ^ 32 < 2 ^ 32 := Nat.mod_lt _ (by decide)
    omega
  · intro hlt
    refine ⟨fun index => bucketSize * index, fun index hindex => ?_, ?_⟩
    · have hle : bucketSize * index ≤ bucketSize * bucketCount :=
        Nat.mul_le_mul_left bucketSize hindex.le
      rw [bitpoolIndexToBucket, if_pos hindex, Nat.mod_eq_of_lt (hle.trans_lt hlt)]
    · rw [bitpoolBucketBytes, Nat.mod_eq_of_lt hlt]
      exact spansApart_stride bucketSize bucketCount

/-- For 2 ^ 20 buckets of 4096 bytes no bytes are requested at all. -/
theorem largeBuckets_not_apart : ¬ BucketsApart (2 ^ 20) (2 ^ 12) := by
  rintro ⟨off, -, hapart⟩
  have hinside := hapart.inside 0 (Finset.mem_range.2 (by decide))
  rw [show bitpoolBucketBytes (2 ^ 20) (2 ^ 12) = 0 by decide] at hinside
  omega

end AxVirtLayer
