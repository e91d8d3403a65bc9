import AxVirtLayer.Pipe.First
import Mathlib.Data.Finset.Card
import Mathlib.Data.Fin.VecNotation
import Mathlib.Order.Interval.Finset.Nat

/-!
# The bitpool

The queue of payloads (`bitpool.h` and `bitpool.c`): four ranges of buckets, one for each
priority, and a bitmap of the full ones.  The functions are given here as they run alone.

The bucket copies of `bitpool_bucket_func` are one copy of a bucket, whatever its size; the
bucket size is left out.  `round` of a percentage is computed in floating point: it is a
parameter of `bitpool_range_populate`.
-/

namespace AxVirtLayer

/-! ## Priorities and ranges -/

/-- `enum mte_prior`. -/
inductive MtePrior
  | mtePriorMin
  | priorMin
  | priorLow
  | priorMod
  | priorMed
  | priorHigh
  | priorVeryHigh
  | priorReal
  | priorMax
  | mtePriorMax
deriving DecidableEq, Repr

/-- `bitpool_prior_range`. -/
structure BitpoolPriorRange where
  /-- Count of bits in range. -/
  bitN : ℕ
  /-- Index of the first bit. -/
  bitI : ℕ
  /-- Disposition per lowest priority. -/
  bitDisp : ℕ
deriving DecidableEq, Repr

/-- The index is in the range. -/
def BitpoolPriorRange.Has (range : BitpoolPriorRange) (i : ℕ) : Prop :=
  range.bitI ≤ i ∧ i < range.bitI + range.bitN

instance BitpoolPriorRange.decidableHas (range : BitpoolPriorRange) (i : ℕ) :
    Decidable (range.Has i) :=
  inferInstanceAs (Decidable (_ ∧ _))

/-- `bitpool_desc` with buckets that hold a `β`. -/
structure BitpoolDesc (β : Type) where
  /-- Active bucket count per priority range: real, high, med, low. -/
  presence : Fin 4 → ℕ
  bucketBase : ℕ → β
  bucketCount : ℕ
  ranges : Fin 4 → BitpoolPriorRange
  smapDesc : SyncMapDesc

/-- `_bitpool_prior_to_presence`; `none` is the failing assertion. -/
def bitpoolPriorToPresence : MtePrior → Option (Fin 4)
  | .priorMin | .priorLow => some 3
  | .priorMod | .priorMed => some 2
  | .priorHigh | .priorVeryHigh => some 1
  | .priorReal | .priorMax => some 0
  | .mtePriorMin | .mtePriorMax => none

/-- `bitpool_perc_desc`. -/
abbrev BitpoolPercDesc := Fin 4 → ℕ

/-- `bitpool_perc_desc_sum`. -/
def bitpoolPercDescSum (perc : BitpoolPercDesc) : ℕ := perc 0 + perc 1 + perc 2 + perc 3

/-- `BITPOOL_PERC_DEFAULT`. -/
def bitpoolPercDefault : BitpoolPercDesc := ![10, 15, 25, 50]

/-- The first loop of `bitpool_range_populate`: the count and the first bit of each range, from
the top of the map down. -/
def bitpoolPopulateLoop (round : ℕ → ℕ → ℕ) (perc : BitpoolPercDesc) (smapBitN : ℕ) :
    List (Fin 4) → ℕ → (Fin 4 → BitpoolPriorRange) → Fin 4 → BitpoolPriorRange
  | [], _, buf => buf
  | i :: is, taken, buf =>
    let bitN := round (perc i) smapBitN % 2 ^ 32
    let bitI := (smapBitN + 2 * 2 ^ 32 - bitN - taken) % 2 ^ 32
    bitpoolPopulateLoop round perc smapBitN is ((taken + bitN) % 2 ^ 32)
      (Function.update buf i ⟨bitN, bitI, (buf i).bitDisp⟩)

/-- `bitpool_range_populate`; `none` is `AX_INV_DATA`, or the division by an empty range.
`round p n` is the count of bits of `p` percent of `n`. -/
def bitpoolRangePopulate (round : ℕ → ℕ → ℕ) (smapDesc : SyncMapDesc) (perc : BitpoolPercDesc) :
    Option (Fin 4 → BitpoolPriorRange) :=
  if bitpoolPercDescSum perc > 100 then none
  else if perc 3 < perc 0 ∨ perc 3 < perc 1 ∨ perc 3 < perc 2 then none
  else
    let buf := bitpoolPopulateLoop round perc (smapDesc.size * 64) [0, 1, 2, 3] 0
      fun _ => ⟨0, 0, 0⟩
    if (buf 0).bitN = 0 ∨ (buf 1).bitN = 0 ∨ (buf 2).bitN = 0 then none
    else some fun i => { buf i with bitDisp := if i = 3 then 1 else (buf 3).bitN / (buf i).bitN }

/-- Rounding to the nearest count of bits. -/
def nearestPercent (p n : ℕ) : ℕ := (p * n + 50) / 100

/-- The ranges of 64 buckets under `BITPOOL_PERC_DEFAULT`. -/
def defaultRanges : Fin 4 → BitpoolPriorRange :=
  ![⟨6, 58, 5⟩, ⟨10, 48, 3⟩, ⟨16, 32, 2⟩, ⟨32, 0, 1⟩]

example : bitpoolRangePopulate nearestPercent ⟨fun _ => 0, 1⟩ bitpoolPercDefault =
    some defaultRanges := by decide +kernel

/-- `bitpool_create` on zeroed memory; `mem` is what the buckets hold when they are handed
out. -/
def bitpoolCreate {β : Type} (round : ℕ → ℕ → ℕ) (mem : ℕ → β) (bucketCount : ℕ)
    (perc : BitpoolPercDesc) : Option (BitpoolDesc β) :=
  if bucketCount = 0 then none
  else do
    let smapDesc ← syncMapInit bucketCount
    let ranges ← bitpoolRangePopulate round smapDesc perc
    some ⟨fun _ => 0, mem, bucketCount, ranges, smapDesc⟩

/-- The pool of `bitpool_create`, given its ranges. -/
lemma bitpoolCreate_eq {β : Type} {round : ℕ → ℕ → ℕ} {bucketCount : ℕ} {perc : BitpoolPercDesc}
    {ranges : Fin 4 → BitpoolPriorRange} (hne : bucketCount ≠ 0) (hmod : bucketCount % 64 = 0)
    (hranges : bitpoolRangePopulate round ⟨fun _ => 0, bucketCount / 64⟩ perc = some ranges)
    (mem : ℕ → β) :
    bitpoolCreate round mem bucketCount perc =
      some ⟨fun _ => 0, mem, bucketCount, ranges, ⟨fun _ => 0, bucketCount / 64⟩⟩ := by
  have hinit : syncMapInit bucketCount = some ⟨fun _ => 0, bucketCount / 64⟩ := by
    rw [syncMapInit, if_neg (not_not.2 hmod)]
  rw [bitpoolCreate, if_neg hne, hinit]
  simp only [Option.bind_eq_bind, Option.bind_some, hranges]

/-- The ranges are those of the priorities real, high, med and low. -/
lemma range_cases (r : Fin 4) : r = 0 ∨ r = 1 ∨ r = 2 ∨ r = 3 := by
  revert r
  decide

/-! ## Loading and unloading -/

/-- Why a load does not return an index. -/
inductive LoadStop
  /-- The priority is not valid: an assertion fails. -/
  | asrt
  /-- `AX_INV_DATA`: the range is empty. -/
  | invData
  /-- The range is full: the loop goes on until another thread clears a bit. -/
  | blocks
deriving DecidableEq, Repr

section Operations

variable {β : Type}

/-- `_bitpool_index_to_presence`; `none` is the failing assertion. -/
def bitpoolIndexToPresence (bitpool : BitpoolDesc β) (index : ℕ) : Option (Fin 4) :=
  if bitpool.bucketCount ≤ index then none
  else [0, 1, 2, 3].find? fun i =>
    decide ((bitpool.ranges i).bitN > 0 ∧ index ≥ (bitpool.ranges i).bitI)

/-- `bitpool_prior_load`: the index, and the pool afterwards. -/
def bitpoolPriorLoad (bitpool : BitpoolDesc β) (bucket : β) (prior : MtePrior) :
    Except LoadStop (ℕ × BitpoolDesc β) :=
  match bitpoolPriorToPresence prior with
  | none => .error .asrt
  | some p =>
    let range := bitpool.ranges p
    if range.bitN = 0 then .error .invData
    else
      match syncMapSigFirst range.bitI ((range.bitI + range.bitN) % 2 ^ 32) bitpool.smapDesc with
      | (none, _) => .error .blocks
      | (some index, smapDesc) =>
        .ok (index, { bitpool with
          bucketBase := Function.update bitpool.bucketBase index bucket
          presence := Function.update bitpool.presence p ((bitpool.presence p + 1) % 2 ^ 32)
          smapDesc := smapDesc })

/-- `bitpool_prior_unload`; `none` is a failing assertion. -/
def bitpoolPriorUnload (bitpool : BitpoolDesc β) (index : ℕ) : Option (BitpoolDesc β) :=
  if bitpool.bucketCount ≤ index then some bitpool
  else (bitpoolIndexToPresence bitpool index).map fun p =>
    { bitpool with
      presence := Function.update bitpool.presence p
        ((bitpool.presence p + (2 ^ 32 - 1)) % 2 ^ 32)
      smapDesc := { bitpool.smapDesc with map := syncMapSigoff bitpool.smapDesc.map index } }

/-- `struct bitpool_prior_unload_disp_res`; the two indexes are bytes. -/
structure BitpoolPriorUnloadDispRes where
  succ : Bool
  presenceI : ℕ
  bucketI : ℕ
deriving DecidableEq, Repr

/-- The loop of `bitpool_prior_unload_disp` over the priorities left: the range it stops at, and
the dispositions. -/
def bitpoolDispLoop (bitpool : BitpoolDesc β) :
    List (Fin 4) → (Fin 4 → ℕ) → Fin 4 × (Fin 4 → ℕ)
  | [], disp => (3, disp)
  | i :: is, disp =>
    if bitpool.presence i > 0 then
      if disp i < (bitpool.ranges i).bitDisp then (i, disp)
      else bitpoolDispLoop bitpool is (Function.update disp i 0)
    else bitpoolDispLoop bitpool is disp

/-- `bitpool_prior_unload_disp`: the result, the pool and the dispositions afterwards. -/
def bitpoolPriorUnloadDisp (bitpool : BitpoolDesc β) (disp : Fin 4 → ℕ) :
    BitpoolPriorUnloadDispRes × BitpoolDesc β × (Fin 4 → ℕ) :=
  let (i, disp) := bitpoolDispLoop bitpool [0, 1, 2] disp
  let range := bitpool.ranges i
  match syncMapUnsigFirst range.bitI ((range.bitI + range.bitN) % 2 ^ 32) bitpool.smapDesc with
  | (none, smapDesc) => (⟨false, 0, 0⟩, { bitpool with smapDesc := smapDesc }, disp)
  | (some bucketI, smapDesc) =>
    (⟨true, i, bucketI % 2 ^ 8⟩, { bitpool with smapDesc := smapDesc }, disp)

end Operations

/-! ## The bits of a range -/

section Ranges

variable {β : Type} (bitpool : BitpoolDesc β)

/-- The bucket is full and in the range. -/
def BitpoolDesc.FullIn (r : Fin 4) (i : ℕ) : Prop :=
  (bitpool.ranges r).Has i ∧ syncMapIssig bitpool.smapDesc.map i = true

/-- The number of set bits of a range. -/
def BitpoolDesc.setBits (r : Fin 4) : ℕ :=
  ((Finset.Ico (bitpool.ranges r).bitI ((bitpool.ranges r).bitI + (bitpool.ranges r).bitN)).filter
    fun i => syncMapIssig bitpool.smapDesc.map i = true).card

/-- The four ranges are not empty, pairwise disjoint and inside the map. -/
structure BitpoolDesc.RangesOk : Prop where
  nonempty : ∀ r, 0 < (bitpool.ranges r).bitN
  disjoint : ∀ r s i, (bitpool.ranges r).Has i → (bitpool.ranges s).Has i → r = s
  inside : ∀ r, (bitpool.ranges r).bitI + (bitpool.ranges r).bitN ≤ bitpool.bucketCount

/-- The count of each range is the number of its set bits. -/
def BitpoolDesc.CountsOk : Prop := ∀ r, bitpool.presence r = bitpool.setBits r

variable {bitpool}

/-- Ranges that lie apart are disjoint. -/
lemma BitpoolDesc.rangesOk_of_apart (hpos : ∀ r, 0 < (bitpool.ranges r).bitN)
    (hapart : ∀ r s, r ≠ s →
      (bitpool.ranges r).bitI + (bitpool.ranges r).bitN ≤ (bitpool.ranges s).bitI ∨
        (bitpool.ranges s).bitI + (bitpool.ranges s).bitN ≤ (bitpool.ranges r).bitI)
    (hinside : ∀ r, (bitpool.ranges r).bitI + (bitpool.ranges r).bitN ≤ bitpool.bucketCount) :
    bitpool.RangesOk := by
  refine ⟨hpos, fun r s i hr hs => ?_, hinside⟩
  by_contra hne
  have hlo := hr.1
  have hhi := hr.2
  have hlo' := hs.1
  have hhi' := hs.2
  have hrs := hapart r s hne
  omega

/-- The ranges of the scheduler's queue. -/
lemma BitpoolDesc.rangesOk_default (hranges : bitpool.ranges = defaultRanges)
    (hcount : bitpool.bucketCount = 64) : bitpool.RangesOk := by
  refine rangesOk_of_apart ?_ ?_ ?_
  · rw [hranges]
    decide
  · rw [hranges]
    decide
  · rw [hranges, hcount]
    decide

lemma BitpoolDesc.setBits_pos_iff {r : Fin 4} :
    0 < bitpool.setBits r ↔ ∃ i, bitpool.FullIn r i := by
  rw [setBits, Finset.card_pos]
  constructor
  · rintro ⟨i, hi⟩
    rw [Finset.mem_filter, Finset.mem_Ico] at hi
    exact ⟨i, hi⟩
  · rintro ⟨i, hi⟩
    exact ⟨i, by rwa [Finset.mem_filter, Finset.mem_Ico]⟩

end Ranges

/-! ## The range a dispatch selects -/

section Selection

variable {β : Type} {bitpool : BitpoolDesc β} {disp : Fin 4 → ℕ}

/-- The priority has payloads and some of its disposition is left. -/
def BitpoolDesc.HasQuota (bitpool : BitpoolDesc β) (disp : Fin 4 → ℕ) (r : Fin 4) : Prop :=
  r < 3 ∧ 0 < bitpool.presence r ∧ disp r < (bitpool.ranges r).bitDisp

/-- The priority is the first one with disposition left, or low if there is none. -/
def BitpoolDesc.Selected (bitpool : BitpoolDesc β) (disp : Fin 4 → ℕ) (r : Fin 4) : Prop :=
  (bitpool.HasQuota disp r ∨ r = 3) ∧ ∀ q < r, ¬ bitpool.HasQuota disp q

instance (bitpool : BitpoolDesc β) (disp : Fin 4 → ℕ) (r : Fin 4) :
    Decidable (bitpool.HasQuota disp r) := inferInstanceAs (Decidable (_ ∧ _ ∧ _))

lemma bitpoolDispLoop_fst (bitpool : BitpoolDesc β) (disp : Fin 4 → ℕ) :
    (bitpoolDispLoop bitpool [0, 1, 2] disp).1 =
      if bitpool.HasQuota disp 0 then 0 else if bitpool.HasQuota disp 1 then 1
      else if bitpool.HasQuota disp 2 then 2 else 3 := by
  have h01 : (1 : Fin 4) ≠ 0 := by decide
  have h02 : (2 : Fin 4) ≠ 0 := by decide
  have h12 : (2 : Fin 4) ≠ 1 := by decide
  -- the resets of the dispositions concern the priorities passed over
  simp only [bitpoolDispLoop, BitpoolDesc.HasQuota, Function.update_of_ne h01,
    Function.update_of_ne h02, Function.update_of_ne h12]
  grind

/-- **The loop selects** the first priority with disposition left. -/
lemma bitpoolDispLoop_selected (bitpool : BitpoolDesc β) (disp : Fin 4 → ℕ) :
    bitpool.Selected disp (bitpoolDispLoop bitpool [0, 1, 2] disp).1 := by
  have hbelow : (∀ q : Fin 4, ¬ q < 0) ∧ (∀ q : Fin 4, q < 1 → q = 0) ∧
      (∀ q : Fin 4, q < 2 → q = 0 ∨ q = 1) ∧ ∀ q : Fin 4, q < 3 → q = 0 ∨ q = 1 ∨ q = 2 := by
    decide
  obtain ⟨hlow, hhigh, hmed, hall⟩ := hbelow
  rw [bitpoolDispLoop_fst, BitpoolDesc.Selected]
  split_ifs with h0 h1 h2
  · exact ⟨Or.inl h0, fun q hq => absurd hq (hlow q)⟩
  · exact ⟨Or.inl h1, fun q hq => hhigh q hq ▸ h0⟩
  · refine ⟨Or.inl h2, fun q hq => ?_⟩
    rcases hmed q hq with rfl | rfl
    · exact h0
    · exact h1
  · refine ⟨Or.inr rfl, fun q hq => ?_⟩
    rcases hall q hq with rfl | rfl | rfl
    · exact h0
    · exact h1
    · exact h2

/-- Only one priority is selected. -/
lemma BitpoolDesc.Selected.unique {r s : Fin 4} (hr : bitpool.Selected disp r)
    (hs : bitpool.Selected disp s) : r = s := by
  have hlast : ∀ q : Fin 4, q < 3 → ¬ 3 < q := by decide
  have hmost : ∀ q : Fin 4, q ≤ 3 := by decide
  rcases lt_trichotomy r s with hlt | heq | hlt
  · rcases hr.1 with hquota | rfl
    · exact absurd hquota (hs.2 r hlt)
    · exact absurd hlt (hmost s).not_gt
  · exact heq
  · rcases hs.1 with hquota | rfl
    · exact absurd hquota (hr.2 s hlt)
    · exact absurd hlt (hmost r).not_gt

/-! ## What a dispatch finds -/

/-- The index a dispatch finds in a range: the first full bucket, or the first one after the
first quad if that quad is full from the start of the range on. -/
def BitpoolDesc.Finds (bitpool : BitpoolDesc β) (r : Fin 4) (i : ℕ) : Prop :=
  bitpool.FullIn r i ∧
    ¬ (i / 64 = (bitpool.ranges r).bitI / 64 ∧
      FirstQuadFull bitpool.smapDesc.map (bitpool.ranges r).bitI) ∧
    ∀ j < i, bitpool.FullIn r j → j / 64 = (bitpool.ranges r).bitI / 64 ∧
      FirstQuadFull bitpool.smapDesc.map (bitpool.ranges r).bitI

/-- The pool after the bit of a bucket has been cleared. -/
def BitpoolDesc.clear (bitpool : BitpoolDesc β) (i : ℕ) : BitpoolDesc β :=
  { bitpool with smapDesc :=
    { bitpool.smapDesc with map := syncMapSigoff bitpool.smapDesc.map i } }

/-- The ranges are inside the map, whose indexes are `u32`. -/
def BitpoolDesc.FitsMap (bitpool : BitpoolDesc β) : Prop :=
  64 * bitpool.smapDesc.size < 2 ^ 32 ∧
    ∀ r, (bitpool.ranges r).bitI + (bitpool.ranges r).bitN ≤ 64 * bitpool.smapDesc.size

/-- **A dispatch**: it finds an index in the selected range and clears its bit, or finds none
and leaves the pool as it is. -/
lemma bitpoolPriorUnloadDisp_cases (hfits : bitpool.FitsMap) (disp : Fin 4 → ℕ) :
    ∃ r disp', bitpool.Selected disp r ∧
      ((∃ i, bitpool.Finds r i ∧ bitpoolPriorUnloadDisp bitpool disp =
          (⟨true, r, i % 2 ^ 8⟩, bitpool.clear i, disp')) ∨
        ((∀ i, ¬ bitpool.Finds r i) ∧ bitpoolPriorUnloadDisp bitpool disp =
          (⟨false, 0, 0⟩, bitpool, disp'))) := by
  have hsel := bitpoolDispLoop_selected bitpool disp
  rw [bitpoolPriorUnloadDisp]
  generalize bitpoolDispLoop bitpool [0, 1, 2] disp = loop at hsel
  obtain ⟨r, disp'⟩ := loop
  refine ⟨r, disp', hsel, ?_⟩
  obtain ⟨hsize, hfits⟩ := hfits
  have hinside := hfits r
  have hlt : (bitpool.ranges r).bitI + (bitpool.ranges r).bitN < 2 ^ 32 := by omega
  obtain ⟨m', res, heq, hspec⟩ := syncMapFirst_spec ⟨.unsigFirst, (bitpool.ranges r).bitI,
    (bitpool.ranges r).bitI + (bitpool.ranges r).bitN⟩ bitpool.smapDesc
  have hspec := hspec.of_size_le hsize.le
  simp only [Nat.mod_eq_of_lt hlt, syncMapUnsigFirst, heq]
  cases res with
  | none =>
    obtain ⟨rfl, hnone⟩ := hspec
    refine Or.inr ⟨fun i hi => ?_, rfl⟩
    obtain ⟨⟨⟨hle, hto⟩, hset⟩, hskip, -⟩ := hi
    have hge := hnone i ⟨⟨hle, hset⟩, fun hskips => hskip hskips.2⟩ (by omega)
    exact absurd hto (Nat.not_lt.2 hge)
  | some i =>
    obtain ⟨⟨⟨⟨hle, hset⟩, hskip⟩, hleast⟩, hto, -, rfl⟩ := hspec
    refine Or.inl ⟨i, ⟨⟨⟨hle, hto⟩, hset⟩, fun hquad => hskip ⟨rfl, hquad⟩, fun j hj hfull => ?_⟩,
      rfl⟩
    by_contra hno
    exact hleast j hj ⟨⟨hfull.1.1, hfull.2⟩, fun hskips => hno hskips.2⟩

end Selection

end AxVirtLayer
