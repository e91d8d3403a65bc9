import AxVirtLayer.Pipe.Bitpool

/-!
# Dispatch selection

What one call of `bitpool_prior_unload_disp` promises `sched_main`, which tries again for ever
when the call fails: that it succeeds whenever a bucket is full.  The range is selected by the
presence counts and the dispositions alone, and the scan of the selected range may find
nothing: the range may be the low one and empty, or its full buckets may all be in a first quad
that is full (`dispatchOk_iff`).
-/

namespace AxVirtLayer

variable {β : Type}

/-- What a dispatch promises.  If a bucket is full it succeeds, the bucket it returns was full
and in the range it returns, and its bit alone is cleared; the range is the first one below low
with full buckets and disposition left, if there is one.  If no bucket is full it fails and
leaves the map as it is. -/
structure DispatchOk (bitpool : BitpoolDesc β) (disp : Fin 4 → ℕ)
    (res : BitpoolPriorUnloadDispRes × BitpoolDesc β × (Fin 4 → ℕ)) : Prop where
  succeeds : (∃ r i, bitpool.FullIn r i) → res.1.succ = true ∧
    ∃ (r : Fin 4) (i : ℕ), res.1.presenceI = r ∧ res.1.bucketI = i ∧ bitpool.FullIn r i ∧
      ∀ j, syncMapIssig res.2.1.smapDesc.map j =
        (syncMapIssig bitpool.smapDesc.map j && decide (j ≠ i))
  chooses : ∀ r : Fin 4, r < 3 → (∃ i, bitpool.FullIn r i) →
    disp r < (bitpool.ranges r).bitDisp →
    (∀ q < r, (∃ i, bitpool.FullIn q i) → ¬ disp q < (bitpool.ranges q).bitDisp) →
    res.1.succ = true ∧ res.1.presenceI = r
  fails : (¬ ∃ r i, bitpool.FullIn r i) → res.1.succ = false ∧
    res.2.1.smapDesc.map = bitpool.smapDesc.map

/-- A pool whose buckets a byte can index: at most 256 of them, ranges that are not empty, disjoint
and inside the map, and exact presence counts. -/
structure BitpoolDesc.SmallPool (bitpool : BitpoolDesc β) : Prop where
  count_le : bitpool.bucketCount ≤ 256
  map_size : 64 * bitpool.smapDesc.size = bitpool.bucketCount
  ranges : bitpool.RangesOk
  counts : bitpool.CountsOk

/-- A priority has disposition left, by the bits of its range. -/
def BitpoolDesc.QuotaLeft (bitpool : BitpoolDesc β) (disp : Fin 4 → ℕ) (r : Fin 4) : Prop :=
  r < 3 ∧ (∃ i, bitpool.FullIn r i) ∧ disp r < (bitpool.ranges r).bitDisp

/-- No bucket is full; or the first priority with disposition left, low if there is none, has a
full bucket, and not only in a first quad that is full from the start of the range on. -/
def BitpoolDesc.Dispatchable (bitpool : BitpoolDesc β) (disp : Fin 4 → ℕ) : Prop :=
  (¬ ∃ r i, bitpool.FullIn r i) ∨
    ∃ r, (bitpool.QuotaLeft disp r ∨ r = 3) ∧ (∀ q < r, ¬ bitpool.QuotaLeft disp q) ∧
      ∃ i, bitpool.FullIn r i ∧ ¬ (i / 64 = (bitpool.ranges r).bitI / 64 ∧
        FirstQuadFull bitpool.smapDesc.map (bitpool.ranges r).bitI)

section

variable {bitpool : BitpoolDesc β} {disp : Fin 4 → ℕ}

lemma BitpoolDesc.SmallPool.fitsMap (h : bitpool.SmallPool) : bitpool.FitsMap := by
  have hcount := h.count_le
  have hsize := h.map_size
  refine ⟨by omega, fun r => ?_⟩
  have hinside := h.ranges.inside r
  omega

/-- In a pool with exact counts the selection goes by the bits. -/
lemma BitpoolDesc.CountsOk.hasQuota_iff (h : bitpool.CountsOk) (r : Fin 4) :
    bitpool.HasQuota disp r ↔ bitpool.QuotaLeft disp r := by
  rw [HasQuota, QuotaLeft, h r, BitpoolDesc.setBits_pos_iff]

lemma BitpoolDesc.CountsOk.selected_iff (h : bitpool.CountsOk) (r : Fin 4) :
    bitpool.Selected disp r ↔
      (bitpool.QuotaLeft disp r ∨ r = 3) ∧ ∀ q < r, ¬ bitpool.QuotaLeft disp q := by
  simp only [BitpoolDesc.Selected, h.hasQuota_iff]

/-- A full bucket outside a full first quad makes the scan find one. -/
lemma BitpoolDesc.exists_finds {r : Fin 4}
    (h : ∃ i, bitpool.FullIn r i ∧ ¬ (i / 64 = (bitpool.ranges r).bitI / 64 ∧
      FirstQuadFull bitpool.smapDesc.map (bitpool.ranges r).bitI)) :
    ∃ i, bitpool.Finds r i := by
  classical
  obtain ⟨hfull, hskip⟩ := Nat.find_spec h
  refine ⟨Nat.find h, hfull, hskip, fun j hj hjfull => ?_⟩
  by_contra hno
  exact Nat.find_min h hj ⟨hjfull, hno⟩

/-- A dispatch of a dispatchable pool keeps its promise. -/
lemma BitpoolDesc.Dispatchable.dispatchOk (hok : bitpool.SmallPool)
    (h : bitpool.Dispatchable disp) :
    DispatchOk bitpool disp (bitpoolPriorUnloadDisp bitpool disp) := by
  obtain ⟨r, disp', hsel, hres⟩ := bitpoolPriorUnloadDisp_cases hok.fitsMap disp
  rcases h with hempty | ⟨s, hs, hbefore, hfind⟩
  · -- there is nothing to find
    have heq : bitpoolPriorUnloadDisp bitpool disp = (⟨false, 0, 0⟩, bitpool, disp') := by
      rcases hres with ⟨i, hi, -⟩ | ⟨-, heq⟩
      · exact absurd ⟨r, i, hi.1⟩ hempty
      · exact heq
    rw [heq]
    refine ⟨fun hex => absurd hex hempty, fun q _ hex => ?_, fun _ => ⟨rfl, rfl⟩⟩
    exact absurd ⟨q, hex⟩ hempty
  · -- the scan of the selected range finds a bucket
    obtain rfl : s = r := ((hok.counts.selected_iff s).2 ⟨hs, hbefore⟩).unique hsel
    obtain ⟨i, hi, heq⟩ : ∃ i, bitpool.Finds s i ∧ bitpoolPriorUnloadDisp bitpool disp =
        (⟨true, s, i % 2 ^ 8⟩, bitpool.clear i, disp') := by
      rcases hres with hfound | ⟨hnone, -⟩
      · exact hfound
      · obtain ⟨i, hi⟩ := BitpoolDesc.exists_finds hfind
        exact absurd hi (hnone i)
    have hlt : i < 2 ^ 8 := by
      have hhas := hi.1.1.2
      have hinside := hok.ranges.inside s
      have hcount := hok.count_le
      omega
    rw [heq, Nat.mod_eq_of_lt hlt]
    refine ⟨fun _ => ⟨rfl, s, i, rfl, rfl, hi.1, fun j => syncMapIssig_sigoff _ _ _⟩,
      fun q hq hex hdisp hfirst => ⟨rfl, ?_⟩, fun hno => absurd ⟨s, i, hi.1⟩ hno⟩
    have hquota : bitpool.Selected disp q := (hok.counts.selected_iff q).2
      ⟨Or.inl ⟨hq, hex, hdisp⟩, fun p hp hquota => hfirst p hp hquota.2.1 hquota.2.2⟩
    rw [hquota.unique hsel]

/-- A pool that is not dispatchable makes the dispatch fail although a bucket is full. -/
lemma not_dispatchOk (hok : bitpool.SmallPool) (h : ¬ bitpool.Dispatchable disp) :
    ¬ DispatchOk bitpool disp (bitpoolPriorUnloadDisp bitpool disp) := by
  intro hdispatch
  obtain ⟨hfull, hnone⟩ := not_or.1 h
  obtain ⟨r, disp', hsel, hres⟩ := bitpoolPriorUnloadDisp_cases hok.fitsMap disp
  have hsucc := (hdispatch.succeeds (not_not.1 hfull)).1
  rcases hres with ⟨i, hi, -⟩ | ⟨-, heq⟩
  · obtain ⟨hs, hbefore⟩ := (hok.counts.selected_iff r).1 hsel
    exact hnone ⟨r, hs, hbefore, i, hi.1, hi.2.1⟩
  · rw [heq] at hsucc
    cases hsucc

/-- **Dispatch selection** keeps its promise exactly in the dispatchable pools. -/
theorem dispatchOk_iff (hok : bitpool.SmallPool) (disp : Fin 4 → ℕ) :
    DispatchOk bitpool disp (bitpoolPriorUnloadDisp bitpool disp) ↔
      bitpool.Dispatchable disp := by
  refine ⟨fun h => ?_, fun h => h.dispatchOk hok⟩
  by_contra hno
  exact not_dispatchOk hok hno h

end

/-- The pool of 64 buckets with the default percentages whose full buckets are those of a
word. -/
def defaultPool (word : BitVec 64) : BitpoolDesc Unit :=
  let bitpool : BitpoolDesc Unit := ⟨fun _ => 0, fun _ => (), 64, defaultRanges, ⟨fun _ => word, 1⟩⟩
  { bitpool with presence := bitpool.setBits }

lemma defaultPool_smallPool (word : BitVec 64) : (defaultPool word).SmallPool where
  count_le := Nat.le_of_ble_eq_true rfl
  map_size := rfl
  ranges := BitpoolDesc.rangesOk_default rfl rfl
  counts _ := rfl

/-- The condition for one full low bucket. -/
theorem dispatchOk_iff_one_low :
    (defaultPool 1).SmallPool ∧
      (DispatchOk (defaultPool 1) (fun _ => 0) (bitpoolPriorUnloadDisp (defaultPool 1) fun _ => 0) ↔
        (defaultPool 1).Dispatchable fun _ => 0) :=
  ⟨defaultPool_smallPool 1, dispatchOk_iff (defaultPool_smallPool 1) _⟩

/-- All buckets of the highest priority are full: their range ends with the quad, which is full
from the start of the range on. -/
theorem fullRealRange_not_dispatchOk :
    (defaultPool 0xFC00000000000000).SmallPool ∧
      ¬ DispatchOk (defaultPool 0xFC00000000000000) (fun _ => 0)
        (bitpoolPriorUnloadDisp (defaultPool 0xFC00000000000000) fun _ => 0) := by
  refine ⟨defaultPool_smallPool _, not_dispatchOk (defaultPool_smallPool _) ?_⟩
  have hset : ∀ i < 64, 58 ≤ i →
      syncMapIssig (defaultPool 0xFC00000000000000).smapDesc.map i = true := by decide +kernel
  have hfull : (defaultPool 0xFC00000000000000).FullIn 0 58 :=
    ⟨by decide, hset 58 (by omega) le_rfl⟩
  have hquota : (defaultPool 0xFC00000000000000).QuotaLeft (fun _ => 0) 0 :=
    ⟨by decide, ⟨58, hfull⟩, by decide⟩
  rintro (hempty | ⟨r, -, hbefore, i, hi, hskip⟩)
  · exact hempty ⟨0, 58, hfull⟩
  · obtain rfl : r = 0 := by
      by_contra hne
      exact hbefore 0 (Fin.pos_iff_ne_zero.2 hne) hquota
    have hlo : 58 ≤ i := hi.1.1
    have hhi : i < 58 + 6 := hi.1.2
    refine hskip ⟨?_, fun j hj hle => ?_⟩
    · show i / 64 = 58 / 64
      omega
    · have hj' : j / 64 = 58 / 64 := hj
      exact hset j (by omega) hle

end AxVirtLayer
