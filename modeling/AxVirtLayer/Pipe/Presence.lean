import AxVirtLayer.Lib.Run
import AxVirtLayer.Pipe.Dispatch

/-!
# Presence counters

Loads and unloads of one bitpool, run one after another.  An unload is
`bitpool_prior_unload_disp` followed by `bitpool_prior_unload` of the bucket it returns.  The
index of that bucket is a byte: from 256 buckets on the second call clears another bucket and
counts down the presence of its range.  `presence_always_iff` says that nothing else goes wrong.
-/

namespace AxVirtLayer

open Lib

/-! ## The operations -/

/-- A pool with what a run of operations has done: the indexes loaded and not yet unloaded, and
whether a presence counter has gone below zero. -/
structure PoolState (β : Type) where
  pool : BitpoolDesc β
  loaded : Finset ℕ
  wrapped : Bool

/-- A load of a bucket, or an unload with dispositions. -/
inductive PoolOp (β : Type)
  | load (bucket : β) (prior : MtePrior)
  | unload (disp : Fin 4 → ℕ)

section

variable {β : Type}

/-- The state before the first operation. -/
def PoolState.start (pool : BitpoolDesc β) : PoolState β := ⟨pool, ∅, false⟩

/-- Whether the presence that `bitpool_prior_unload` counts down is zero. -/
def presenceWraps (pool : BitpoolDesc β) (index : ℕ) : Bool :=
  match bitpoolIndexToPresence pool index with
  | some p => decide (pool.presence p = 0)
  | none => false

/-- One operation; `none` when it does not return. -/
def poolStep (s : PoolState β) : PoolOp β → Option (PoolState β)
  | .load bucket prior =>
    match bitpoolPriorLoad s.pool bucket prior with
    | .ok (index, pool) => some ⟨pool, insert index s.loaded, s.wrapped⟩
    | .error _ => none
  | .unload disp =>
    let (res, pool, _) := bitpoolPriorUnloadDisp s.pool disp
    if res.succ then
      (bitpoolPriorUnload pool res.bucketI).map fun pool' =>
        ⟨pool', s.loaded.erase res.bucketI, s.wrapped || presenceWraps pool res.bucketI⟩
    else some { s with pool := pool }

/-- The operations that are allowed: loads at a valid priority whose range has a clear bit, and
unloads. -/
def PoolOp.Allowed (s : PoolState β) : PoolOp β → Prop
  | .load _ prior => ∃ p, bitpoolPriorToPresence prior = some p ∧
      ∃ i, (s.pool.ranges p).Has i ∧ syncMapIssig s.pool.smapDesc.map i = false
  | .unload _ => True

/-- **The presence counters agree with the map**: each counter is the number of set bits of its
range, the set bits are the indexes loaded and not yet unloaded, and no counter has wrapped. -/
def CountsAgree (s : PoolState β) : Prop :=
  s.pool.CountsOk ∧ (∀ i, syncMapIssig s.pool.smapDesc.map i = true ↔ i ∈ s.loaded) ∧
    s.wrapped = false

/-- The index an unload finds fits the byte it is returned in. -/
def PoolOp.IndexFits (s : PoolState β) : PoolOp β → Prop
  | .load _ _ => True
  | .unload disp => ∀ r i, s.pool.Selected disp r → s.pool.Finds r i → i < 256

/-! ## The ranges of a pool -/

/-- The ranges lie one below the other, from the first priority on, inside the map. -/
structure BitpoolDesc.Shape (pool : BitpoolDesc β) : Prop where
  nonempty : ∀ r, 0 < (pool.ranges r).bitN
  below : ∀ r s, r < s →
    (pool.ranges s).bitI + (pool.ranges s).bitN ≤ (pool.ranges r).bitI
  inside : ∀ r, (pool.ranges r).bitI + (pool.ranges r).bitN ≤ pool.bucketCount
  size : 64 * pool.smapDesc.size = pool.bucketCount
  count_lt : pool.bucketCount < 2 ^ 32

/-- The first bits of the ranges of `bitpool_range_populate`, modulo `2 ^ 32`. -/
lemma bitpoolRangePopulate_bitI {round : ℕ → ℕ → ℕ} {smapDesc : SyncMapDesc}
    {perc : BitpoolPercDesc} {ranges : Fin 4 → BitpoolPriorRange}
    (h : bitpoolRangePopulate round smapDesc perc = some ranges) :
    (∀ r, (ranges r).bitN < 2 ^ 32) ∧
      (ranges 0).bitI = (smapDesc.size * 64 + 2 * 2 ^ 32 - (ranges 0).bitN) % 2 ^ 32 ∧
      (ranges 1).bitI =
        (smapDesc.size * 64 + 2 * 2 ^ 32 - (ranges 1).bitN - (ranges 0).bitN) % 2 ^ 32 ∧
      (ranges 2).bitI = (smapDesc.size * 64 + 2 * 2 ^ 32 - (ranges 2).bitN -
        ((ranges 0).bitN + (ranges 1).bitN) % 2 ^ 32) % 2 ^ 32 ∧
      (ranges 3).bitI = (smapDesc.size * 64 + 2 * 2 ^ 32 - (ranges 3).bitN -
        ((ranges 0).bitN + (ranges 1).bitN + (ranges 2).bitN) % 2 ^ 32) % 2 ^ 32 := by
  rw [bitpoolRangePopulate] at h
  split_ifs at h
  dsimp only at h
  split_ifs at h
  obtain rfl := Option.some_injective _ h
  have hmod : ∀ x : ℕ, x % 2 ^ 32 < 2 ^ 32 := fun x => Nat.mod_lt _ (by decide)
  simp only [bitpoolPopulateLoop]
  refine ⟨fun r => ?_, ?_⟩
  · rcases range_cases r with rfl | rfl | rfl | rfl
    all_goals simpa using hmod _
  · simp only [Fin.isValue, Nat.reducePow, Nat.reduceMul, Nat.sub_zero, zero_add, dvd_refl,
      Nat.mod_mod_of_dvd, ne_eq, one_ne_zero, not_false_eq_true, Function.update_of_ne,
      Nat.add_mod_mod, Nat.mod_add_mod, Fin.reduceEq, zero_ne_one, Function.update_self, true_and]
    omega

/-- `bitpool_range_populate` lays the ranges out from the top of the map down, if they fit into
it. -/
lemma bitpoolRangePopulate_below {round : ℕ → ℕ → ℕ} {smapDesc : SyncMapDesc}
    {perc : BitpoolPercDesc} {ranges : Fin 4 → BitpoolPriorRange}
    (h : bitpoolRangePopulate round smapDesc perc = some ranges)
    (hlt : smapDesc.size * 64 < 2 ^ 32)
    (hinside : ∀ r, (ranges r).bitI + (ranges r).bitN ≤ smapDesc.size * 64) :
    ∀ r s, r < s → (ranges s).bitI + (ranges s).bitN ≤ (ranges r).bitI := by
  obtain ⟨hn, h0, h1, h2, h3⟩ := bitpoolRangePopulate_bitI h
  have n0 := hn 0
  have n1 := hn 1
  have n2 := hn 2
  have n3 := hn 3
  have i0 := hinside 0
  have i1 := hinside 1
  have i2 := hinside 2
  have i3 := hinside 3
  have hcases : ∀ r s : Fin 4, r < s →
      (r = 0 ∧ (s = 1 ∨ s = 2 ∨ s = 3)) ∨ (r = 1 ∧ (s = 2 ∨ s = 3)) ∨ (r = 2 ∧ s = 3) := by
    decide
  intro r s hrs
  rcases hcases r s hrs with ⟨rfl, rfl | rfl | rfl⟩ | ⟨rfl, rfl | rfl⟩ | ⟨rfl, rfl⟩ <;> omega

/-- **A pool of `bitpool_create`** has the shape, is empty and counts nothing. -/
lemma bitpoolCreate_spec {round : ℕ → ℕ → ℕ} {mem : ℕ → β} {bucketCount : ℕ}
    {perc : BitpoolPercDesc} {pool : BitpoolDesc β}
    (h : bitpoolCreate round mem bucketCount perc = some pool) (hcount : bucketCount < 2 ^ 32)
    (hranges : pool.RangesOk) :
    pool.Shape ∧ (∀ r, pool.presence r = 0) ∧ pool.smapDesc.map = fun _ => 0 := by
  rw [bitpoolCreate] at h
  split_ifs at h
  obtain ⟨smapDesc, hinit, hrest⟩ := Option.bind_eq_some_iff.1 h
  obtain ⟨ranges, hpop, hpool⟩ := Option.bind_eq_some_iff.1 hrest
  obtain rfl := Option.some_injective _ hpool
  rw [syncMapInit] at hinit
  split_ifs at hinit with hmod
  obtain rfl := Option.some_injective _ hinit
  have hsize : 64 * (bucketCount / 64) = bucketCount := by omega
  have hbits : bucketCount / 64 * 64 = bucketCount := by omega
  have hbelow := bitpoolRangePopulate_below hpop (hbits.le.trans_lt hcount)
    fun r => (hranges.inside r).trans hbits.ge
  exact ⟨⟨hranges.nonempty, hbelow, hranges.inside, hsize, hcount⟩, fun _ => rfl, rfl⟩

namespace BitpoolDesc

variable {pool pool' : BitpoolDesc β} {r s : Fin 4} {i j : ℕ}

/-- The shape does not depend on the contents. -/
lemma Shape.congr (h : pool.Shape) (hranges : pool'.ranges = pool.ranges)
    (hcount : pool'.bucketCount = pool.bucketCount)
    (hsize : pool'.smapDesc.size = pool.smapDesc.size) : pool'.Shape := by
  refine ⟨?_, ?_, ?_, ?_, ?_⟩
  · rw [hranges]
    exact h.nonempty
  · rw [hranges]
    exact h.below
  · rw [hranges, hcount]
    exact h.inside
  · rw [hsize, hcount]
    exact h.size
  · rw [hcount]
    exact h.count_lt

lemma Shape.fitsMap (h : pool.Shape) : pool.FitsMap := by
  have hsize := h.size
  have hcount := h.count_lt
  refine ⟨by omega, fun r => ?_⟩
  have hinside := h.inside r
  omega

/-- An index is in one range at most. -/
lemma Shape.eq_of_has (h : pool.Shape) (hr : (pool.ranges r).Has i)
    (hs : (pool.ranges s).Has i) : r = s := by
  have hri := hr.2
  have hrb := hr.1
  have hsi := hs.2
  have hsb := hs.1
  rcases lt_trichotomy r s with hlt | heq | hlt
  · have hbelow := h.below r s hlt
    omega
  · exact heq
  · have hbelow := h.below s r hlt
    omega

/-- **`_bitpool_index_to_presence` is right on the ranges**: the comparison from the top down
stops at the range of the index. -/
lemma Shape.indexToPresence (h : pool.Shape) (hi : (pool.ranges r).Has i) :
    bitpoolIndexToPresence pool i = some r := by
  have hlt : ¬ pool.bucketCount ≤ i := by
    have hinside := h.inside r
    have hhi := hi.2
    omega
  -- a range above the index does not stop the search
  have hskip : ∀ q < r, ¬ ((pool.ranges q).bitN > 0 ∧ i ≥ (pool.ranges q).bitI) := by
    rintro q hq ⟨-, hge⟩
    have hbelow := h.below q r hq
    have hhi := hi.2
    omega
  have hstop : (pool.ranges r).bitN > 0 ∧ i ≥ (pool.ranges r).bitI := ⟨h.nonempty r, hi.1⟩
  have hcases : ∀ r : Fin 4, r = 0 ∨ r = 1 ∧ 0 < r ∨ r = 2 ∧ 0 < r ∧ 1 < r ∨
      r = 3 ∧ 0 < r ∧ 1 < r ∧ 2 < r := by decide
  rw [bitpoolIndexToPresence, if_neg hlt]
  rcases hcases r with rfl | ⟨rfl, h0⟩ | ⟨rfl, h0, h1⟩ | ⟨rfl, h0, h1, h2⟩
  · simp [List.find?, hstop.1, hstop.2]
  · have s0 := hskip 0 h0
    simp [List.find?, s0, hstop.1, hstop.2]
  · have s0 := hskip 0 h0
    have s1 := hskip 1 h1
    simp [List.find?, s0, s1, hstop.1, hstop.2]
  · have s0 := hskip 0 h0
    have s1 := hskip 1 h1
    have s2 := hskip 2 h2
    simp [List.find?, s0, s1, s2, hstop.1, hstop.2]

/-! ## Counting the bits -/

/-- The full buckets of a range. -/
def fullSet (pool : BitpoolDesc β) (r : Fin 4) : Finset ℕ :=
  (Finset.Ico (pool.ranges r).bitI ((pool.ranges r).bitI + (pool.ranges r).bitN)).filter
    fun i => syncMapIssig pool.smapDesc.map i = true

lemma setBits_eq (pool : BitpoolDesc β) (r : Fin 4) : pool.setBits r = (pool.fullSet r).card := rfl

lemma mem_fullSet : i ∈ pool.fullSet r ↔ pool.FullIn r i := by
  rw [fullSet, Finset.mem_filter, Finset.mem_Ico]
  rfl

lemma setBits_le (pool : BitpoolDesc β) (r : Fin 4) : pool.setBits r ≤ (pool.ranges r).bitN := by
  rw [setBits_eq, fullSet]
  refine (Finset.card_filter_le _ _).trans ?_
  rw [Nat.card_Ico]
  omega

lemma Shape.setBits_lt (h : pool.Shape) (r : Fin 4) : pool.setBits r < 2 ^ 32 := by
  have hle := setBits_le pool r
  have hinside := h.inside r
  have hcount := h.count_lt
  omega

/-- Setting a clear bit counts once in its range, and in no other. -/
lemma setBits_sigon (h : pool.Shape) (hranges : pool'.ranges = pool.ranges)
    (hmap : pool'.smapDesc.map = syncMapSigon pool.smapDesc.map i) (hi : (pool.ranges r).Has i)
    (hclear : syncMapIssig pool.smapDesc.map i = false) (s : Fin 4) :
    pool'.setBits s = pool.setBits s + if s = r then 1 else 0 := by
  have hmem : ∀ j, j ∈ pool'.fullSet s ↔
      j ∈ pool.fullSet s ∨ (pool.ranges s).Has j ∧ j = i := by
    intro j
    rw [mem_fullSet, mem_fullSet, FullIn, FullIn, hranges, hmap, syncMapIssig_sigon,
      Bool.or_eq_true, decide_eq_true_eq, and_or_left]
  rw [setBits_eq, setBits_eq]
  by_cases hs : s = r
  · subst hs
    have hnot : i ∉ pool.fullSet s := fun hin => by
      rw [mem_fullSet] at hin
      exact Bool.false_ne_true (hclear ▸ hin.2)
    have heq : pool'.fullSet s = insert i (pool.fullSet s) := by
      ext j
      rw [hmem, Finset.mem_insert]
      constructor
      · rintro (hin | ⟨-, rfl⟩)
        · exact Or.inr hin
        · exact Or.inl rfl
      · rintro (rfl | hin)
        · exact Or.inr ⟨hi, rfl⟩
        · exact Or.inl hin
    rw [heq, Finset.card_insert_of_notMem hnot, if_pos rfl]
  · have heq : pool'.fullSet s = pool.fullSet s := by
      ext j
      rw [hmem]
      constructor
      · rintro (hin | ⟨hj, rfl⟩)
        · exact hin
        · exact absurd (h.eq_of_has hj hi) hs
      · exact Or.inl
    rw [heq, if_neg hs, Nat.add_zero]

/-- Clearing a set bit counts down its range, and no other. -/
lemma setBits_sigoff (h : pool.Shape) (hranges : pool'.ranges = pool.ranges)
    (hmap : pool'.smapDesc.map = syncMapSigoff pool.smapDesc.map i) (hi : pool.FullIn r i)
    (s : Fin 4) : pool.setBits s = pool'.setBits s + if s = r then 1 else 0 := by
  have hmem : ∀ j, j ∈ pool'.fullSet s ↔ j ∈ pool.fullSet s ∧ j ≠ i := by
    intro j
    rw [mem_fullSet, mem_fullSet, FullIn, FullIn, hranges, hmap, syncMapIssig_sigoff,
      Bool.and_eq_true, decide_eq_true_eq, and_assoc]
  rw [setBits_eq, setBits_eq]
  by_cases hs : s = r
  · subst hs
    have hin : i ∈ pool.fullSet s := mem_fullSet.2 hi
    have heq : pool'.fullSet s = (pool.fullSet s).erase i := by
      ext j
      rw [hmem, Finset.mem_erase, and_comm]
    rw [heq, if_pos rfl, Finset.card_erase_add_one hin]
  · have heq : pool'.fullSet s = pool.fullSet s := by
      ext j
      rw [hmem]
      refine ⟨fun hj => hj.1, fun hj => ⟨hj, ?_⟩⟩
      rintro rfl
      exact hs (h.eq_of_has (mem_fullSet.1 hj).1 hi.1)
    rw [heq, if_neg hs, Nat.add_zero]

/-- A dispatch finds at most one index in a range. -/
lemma Finds.unique (hi : pool.Finds r i) (hj : pool.Finds r j) : i = j := by
  rcases lt_trichotomy i j with hlt | heq | hlt
  · exact absurd (hj.2.2 i hlt hi.1) hi.2.1
  · exact heq
  · exact absurd (hi.2.2 j hlt hj.1) hj.2.1

end BitpoolDesc

/-! ## One operation -/

section

variable {pool : BitpoolDesc β}

/-- The pool after a load into the bucket `i` of the range `r`. -/
def BitpoolDesc.fill (pool : BitpoolDesc β) (r : Fin 4) (i : ℕ) (bucket : β) : BitpoolDesc β :=
  { pool with
    bucketBase := Function.update pool.bucketBase i bucket
    presence := Function.update pool.presence r ((pool.presence r + 1) % 2 ^ 32)
    smapDesc := { pool.smapDesc with map := syncMapSigon pool.smapDesc.map i } }

/-- The pool after an unload of the bucket `i` of the range `r`. -/
def BitpoolDesc.drain (pool : BitpoolDesc β) (r : Fin 4) (i : ℕ) : BitpoolDesc β :=
  { pool.clear i with
    presence := Function.update pool.presence r ((pool.presence r + (2 ^ 32 - 1)) % 2 ^ 32) }

/-- **A load** into a range with a clear bit takes one of its clear bits. -/
lemma bitpoolPriorLoad_spec (h : pool.Shape) (bucket : β) {prior : MtePrior} {r : Fin 4}
    (hprior : bitpoolPriorToPresence prior = some r)
    (hclear : ∃ j, (pool.ranges r).Has j ∧ syncMapIssig pool.smapDesc.map j = false) :
    ∃ i, (pool.ranges r).Has i ∧ syncMapIssig pool.smapDesc.map i = false ∧
      bitpoolPriorLoad pool bucket prior = .ok (i, pool.fill r i bucket) := by
  obtain ⟨j, hj, hjclear⟩ := hclear
  obtain ⟨hsize, hfits⟩ := h.fitsMap
  have hinside := hfits r
  have hlt : (pool.ranges r).bitI + (pool.ranges r).bitN < 2 ^ 32 := by omega
  have hne : (pool.ranges r).bitN ≠ 0 := (h.nonempty r).ne'
  obtain ⟨m', res, heq, hspec⟩ := syncMapFirst_spec ⟨.sigFirst, (pool.ranges r).bitI,
    (pool.ranges r).bitI + (pool.ranges r).bitN⟩ pool.smapDesc
  have hspec := hspec.of_size_le hsize.le
  cases res with
  | none =>
    -- the clear bit of the range is not overlooked
    have hhi := hj.2
    have hto := hspec.2 j ⟨⟨hj.1, hjclear⟩, not_skips_sigFirst⟩ (by omega)
    exact absurd hhi (Nat.not_lt.2 hto)
  | some i =>
    obtain ⟨⟨⟨⟨hle, hbit⟩, -⟩, -⟩, hto, -, rfl⟩ := hspec
    refine ⟨i, ⟨hle, hto⟩, hbit, ?_⟩
    simp only [bitpoolPriorLoad, hprior, if_neg hne, Nat.mod_eq_of_lt hlt, syncMapSigFirst, heq]
    rfl

/-- An unload sets no bit. -/
lemma bitpoolPriorUnload_issig {pool' : BitpoolDesc β} {i j : ℕ}
    (h : bitpoolPriorUnload pool i = some pool')
    (hclear : syncMapIssig pool.smapDesc.map j = false) :
    syncMapIssig pool'.smapDesc.map j = false := by
  rw [bitpoolPriorUnload] at h
  split_ifs at h
  · obtain rfl := Option.some_injective _ h
    exact hclear
  · obtain ⟨p, -, rfl⟩ := Option.map_eq_some_iff.1 h
    rw [syncMapIssig_sigoff, hclear, Bool.false_and]

/-- **An unload** of a bucket of a range counts down the presence of that range. -/
lemma bitpoolPriorUnload_spec (h : pool.Shape) {r : Fin 4} {i : ℕ}
    (hi : (pool.ranges r).Has i) : bitpoolPriorUnload pool i = some (pool.drain r i) := by
  have hlt : ¬ pool.bucketCount ≤ i := by
    have hinside := h.inside r
    have hhi := hi.2
    omega
  rw [bitpoolPriorUnload, if_neg hlt, h.indexToPresence hi]
  rfl

end

/-- What an invariant of runs needs besides the agreement. -/
def PoolState.Inv (s : PoolState β) : Prop := s.pool.Shape ∧ CountsAgree s

variable {s s' : PoolState β}

/-- A load counts one more in its range. -/
lemma PoolState.Inv.load (h : s.Inv) {bucket : β} {prior : MtePrior}
    (hallowed : PoolOp.Allowed s (.load bucket prior)) :
    ∃ s', poolStep s (.load bucket prior) = some s' ∧ s'.Inv := by
  obtain ⟨hshape, hcounts, hloaded, hwrapped⟩ := h
  obtain ⟨p, hprior, hclear⟩ := hallowed
  obtain ⟨i, hi, hbit, heq⟩ := bitpoolPriorLoad_spec hshape bucket hprior hclear
  refine ⟨⟨s.pool.fill p i bucket, insert i s.loaded, s.wrapped⟩, by rw [poolStep, heq],
    hshape.congr rfl rfl rfl, fun r => ?_, fun k => ?_, hwrapped⟩
  · have hranges : (s.pool.fill p i bucket).ranges = s.pool.ranges := rfl
    have hsum := BitpoolDesc.setBits_sigon hshape hranges rfl hi hbit r
    have hfits := (hshape.congr hranges rfl rfl).setBits_lt r
    rw [hsum, ← hcounts r] at hfits ⊢
    show Function.update s.pool.presence p ((s.pool.presence p + 1) % 2 ^ 32) r = _
    by_cases hr : r = p
    · subst hr
      rw [if_pos rfl] at hfits ⊢
      rw [Function.update_self, Nat.mod_eq_of_lt hfits]
    · rw [Function.update_of_ne hr, if_neg hr, Nat.add_zero]
  · show syncMapIssig (syncMapSigon s.pool.smapDesc.map i) k = true ↔ k ∈ insert i s.loaded
    rw [syncMapIssig_sigon, Bool.or_eq_true, decide_eq_true_eq, hloaded, Finset.mem_insert,
      or_comm]

/-- An unload finds nothing and changes nothing, or it finds a full bucket of the selected range:
then it clears its bit, and the one of the bucket whose number is its last byte. -/
lemma poolStep_unload_cases (h : s.pool.FitsMap) (disp : Fin 4 → ℕ) :
    ∃ r, s.pool.Selected disp r ∧
      (((∀ i, ¬ s.pool.Finds r i) ∧ poolStep s (.unload disp) = some s) ∨
        ∃ i, s.pool.Finds r i ∧ poolStep s (.unload disp) =
          (bitpoolPriorUnload (s.pool.clear i) (i % 2 ^ 8)).map fun pool =>
            ⟨pool, s.loaded.erase (i % 2 ^ 8),
              s.wrapped || presenceWraps (s.pool.clear i) (i % 2 ^ 8)⟩) := by
  obtain ⟨r, disp', hsel, ⟨i, hi, heq⟩ | ⟨hnone, heq⟩⟩ := bitpoolPriorUnloadDisp_cases h disp
  · refine ⟨r, hsel, Or.inr ⟨i, hi, ?_⟩⟩
    simp only [poolStep, heq, if_true]
  · refine ⟨r, hsel, Or.inl ⟨hnone, ?_⟩⟩
    simp only [poolStep, heq, Bool.false_eq_true, if_false]

/-- An unload whose index fits the byte counts one less in its range. -/
lemma PoolState.Inv.unload (h : s.Inv) {disp : Fin 4 → ℕ}
    (hfits : PoolOp.IndexFits s (.unload disp)) :
    ∃ s', poolStep s (.unload disp) = some s' ∧ s'.Inv := by
  obtain ⟨hshape, hcounts, hloaded, hwrapped⟩ := h
  obtain ⟨r, hsel, ⟨-, heq⟩ | ⟨i, hi, heq⟩⟩ := poolStep_unload_cases hshape.fitsMap disp
  · exact ⟨s, heq, hshape, hcounts, hloaded, hwrapped⟩
  · have hclear : (s.pool.clear i).Shape := hshape.congr rfl rfl rfl
    have hhas : ((s.pool.clear i).ranges r).Has i := hi.1.1
    have hunload := bitpoolPriorUnload_spec hclear hhas
    have hpos : 0 < s.pool.presence r := by
      rw [hcounts r]
      exact BitpoolDesc.setBits_pos_iff.2 ⟨i, hi.1⟩
    have hwraps : presenceWraps (s.pool.clear i) i = false := by
      rw [presenceWraps, hclear.indexToPresence hhas]
      exact decide_eq_false hpos.ne'
    have hbyte : i % 2 ^ 8 = i := Nat.mod_eq_of_lt (hfits r i hsel hi)
    rw [hbyte, hunload, hwraps, hwrapped] at heq
    -- the second call clears a bit that is clear already
    have hmap : ((s.pool.clear i).drain r i).smapDesc.map = syncMapSigoff s.pool.smapDesc.map i :=
      syncMapSigoff_eq_self (by simp [BitpoolDesc.clear])
    refine ⟨_, heq, hshape.congr rfl rfl rfl, fun q => ?_, fun k => ?_, rfl⟩
    · have hranges : ((s.pool.clear i).drain r i).ranges = s.pool.ranges := rfl
      have hsum := BitpoolDesc.setBits_sigoff hshape hranges hmap hi.1 q
      have hlt := hshape.setBits_lt q
      rw [← hcounts q] at hsum hlt
      show Function.update s.pool.presence r ((s.pool.presence r + (2 ^ 32 - 1)) % 2 ^ 32) q =
        ((s.pool.clear i).drain r i).setBits q
      by_cases hq : q = r
      · subst hq
        rw [if_pos rfl] at hsum
        rw [Function.update_self]
        omega
      · rw [if_neg hq] at hsum
        rw [Function.update_of_ne hq, hsum, Nat.add_zero]
    · show syncMapIssig ((s.pool.clear i).drain r i).smapDesc.map k = true ↔
        k ∈ s.loaded.erase i
      rw [hmap, syncMapIssig_sigoff, Bool.and_eq_true, decide_eq_true_eq, hloaded,
        Finset.mem_erase, and_comm]

/-- An unload after which the counters agree found an index that fits the byte. -/
lemma PoolState.Inv.indexFits (h : s.Inv) {op : PoolOp β} (hs : poolStep s op = some s')
    (hagree : CountsAgree s') : op.IndexFits s := by
  obtain ⟨hshape, -, hloaded, -⟩ := h
  cases op with
  | load bucket prior => trivial
  | unload disp =>
    intro r i hsel hi
    by_contra hge
    obtain ⟨q, hq, ⟨hnone, -⟩ | ⟨j, hj, heq⟩⟩ := poolStep_unload_cases hshape.fitsMap disp
    · exact hnone i (hsel.unique hq ▸ hi)
    · obtain rfl := hsel.unique hq
      obtain rfl := hi.unique hj
      rw [hs, eq_comm, Option.map_eq_some_iff] at heq
      obtain ⟨pool, hunload, rfl⟩ := heq
      -- the bucket found is still counted as loaded, but its bit is clear
      have hin : i ∈ s.loaded.erase (i % 2 ^ 8) := by
        refine Finset.mem_erase.2 ⟨by omega, (hloaded i).1 hi.1.2⟩
      have hset := (hagree.2.1 i).2 hin
      have hclear : syncMapIssig pool.smapDesc.map i = false :=
        bitpoolPriorUnload_issig hunload (by simp [BitpoolDesc.clear])
      exact Bool.false_ne_true (hclear ▸ hset)

/-! ## Whole runs -/

/-- **The presence counters agree with the map** after every operation of a run if and only if
every unload of the run finds nothing, or an index below 256. -/
theorem presence_always_iff {round : ℕ → ℕ → ℕ} {mem : ℕ → β} {bucketCount : ℕ}
    {perc : BitpoolPercDesc} {pool : BitpoolDesc β} {ops : List (PoolOp β)}
    (hcreate : bitpoolCreate round mem bucketCount perc = some pool)
    (hcount : bucketCount < 2 ^ 32) (hranges : pool.RangesOk)
    (hops : AllSteps poolStep PoolOp.Allowed (.start pool) ops) :
    Always poolStep CountsAgree (.start pool) ops ↔
      AllSteps poolStep PoolOp.IndexFits (.start pool) ops := by
  obtain ⟨hshape, hpresence, hmap⟩ := bitpoolCreate_spec hcreate hcount hranges
  have hstart : (PoolState.start pool).Inv := by
    refine ⟨hshape, fun r => ?_, fun i => ?_, rfl⟩
    · show pool.presence r = pool.setBits r
      rw [hpresence r, eq_comm, ← Nat.le_zero, ← not_lt, BitpoolDesc.setBits_pos_iff]
      rintro ⟨i, -, hset⟩
      rw [hmap, syncMapIssig_zero] at hset
      exact Bool.false_ne_true hset
    · show syncMapIssig pool.smapDesc.map i = true ↔ i ∈ (∅ : Finset ℕ)
      rw [hmap, syncMapIssig_zero]
      simp
  have hkeep : ∀ s (op : PoolOp β), PoolState.Inv s → op.Allowed s → op.IndexFits s →
      ∃ s', poolStep s op = some s' ∧ s'.Inv := by
    intro s op h hallowed hfits
    cases op with
    | load bucket prior => exact h.load hallowed
    | unload disp => exact h.unload hfits
  refine always_iff_allSteps (fun s h => h.2) (fun s op h hallowed hfits => ?_)
    (fun s op s' h hallowed hfits hs => ?_) (fun s op s' h _ hs => h.indexFits hs) hstart hops
  · obtain ⟨s', hs', -⟩ := hkeep s op h hallowed hfits
    exact ⟨s', hs'⟩
  · obtain ⟨s'', hs'', hinv⟩ := hkeep s op h hallowed hfits
    rw [hs] at hs''
    exact Option.some_injective _ hs'' ▸ hinv

end

/-! ## Two pools -/

/-- The pool of `bitpool_create` with these ranges. -/
def freshPool (bucketCount : ℕ) (ranges : Fin 4 → BitpoolPriorRange) : BitpoolDesc Unit :=
  ⟨fun _ => 0, fun _ => (), bucketCount, ranges, ⟨fun _ => 0, bucketCount / 64⟩⟩

/-- The equivalence for a load into the scheduler's queue and an unload. -/
theorem presence_always_iff_load_unload :
    Always poolStep CountsAgree (.start (freshPool 64 defaultRanges))
        [.load () .priorLow, .unload fun _ => 0] ↔
      AllSteps poolStep PoolOp.IndexFits (.start (freshPool 64 defaultRanges))
        [.load () .priorLow, .unload fun _ => 0] := by
  have hcreate : bitpoolCreate nearestPercent (fun _ => ()) 64 bitpoolPercDefault =
      some (freshPool 64 defaultRanges) :=
    bitpoolCreate_eq (by decide) rfl (by decide +kernel) _
  exact presence_always_iff hcreate (by decide) (BitpoolDesc.rangesOk_default rfl rfl)
    ⟨⟨3, rfl, 0, by decide, by decide⟩, fun _ _ => ⟨trivial, fun _ _ => trivial⟩⟩

/-- The ranges of 512 buckets under `BITPOOL_PERC_DEFAULT`. -/
def largeRanges : Fin 4 → BitpoolPriorRange :=
  ![⟨51, 461, 5⟩, ⟨77, 384, 3⟩, ⟨128, 256, 2⟩, ⟨256, 0, 1⟩]

/-- With 512 buckets the first payload of medium priority is in the bucket 256; its unload counts
down the empty low range, which wraps. -/
theorem largePool_not_always :
    bitpoolCreate nearestPercent (fun _ => ()) 512 bitpoolPercDefault =
        some (freshPool 512 largeRanges) ∧
      (freshPool 512 largeRanges).RangesOk ∧
      AllSteps poolStep PoolOp.Allowed (.start (freshPool 512 largeRanges))
        [.load () .priorMed, .unload fun _ => 0] ∧
      ¬ Always poolStep CountsAgree (.start (freshPool 512 largeRanges))
        [.load () .priorMed, .unload fun _ => 0] := by
  refine ⟨bitpoolCreate_eq (by decide) rfl (by decide +kernel) _,
    BitpoolDesc.rangesOk_of_apart (by decide) (by decide) (by decide),
    ⟨⟨2, rfl, 256, by decide, by decide⟩, fun _ _ => ⟨trivial, fun _ _ => trivial⟩⟩, fun h => ?_⟩
  have hrun : (runs poolStep (.start (freshPool 512 largeRanges))
      [.load () .priorMed, .unload fun _ => 0]).map PoolState.wrapped = some true := by
    decide +kernel
  obtain ⟨t, ht, hwrapped⟩ := Option.map_eq_some_iff.1 hrun
  obtain ⟨u, hu, -, -, hno⟩ := always_last h
  obtain rfl := Option.some_injective _ (ht.symm.trans hu)
  exact Bool.false_ne_true (hno.symm.trans hwrapped)

end AxVirtLayer
