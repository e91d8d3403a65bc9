import AxVirtLayer.Pipe.Pop
import AxVirtLayer.Pipe.Queue
import Mathlib.Data.Set.Card

/-!
# The counters among threads

The counters of the queue in the runs of the scheduler.  A push sets the bit of its bucket first
and counts it last, `sched_main` clears the bit first and uncounts the bucket last, and in between
the bucket may be pushed again: no counter is the number of the set bits of its range while a call
is on its way.

`presence_counts_of_ordered` says what a counter counts at every moment: the buckets of its range
that are full, or in the hand of `sched_main`, and that no call is still filling, and the bucket
that `sched_main` is about to uncount.  So a counter does not wrap, `sched_main` sees every payload
whose push has returned, and the counters are the numbers of set bits when nobody is on the way.
-/

namespace AxVirtLayer

open Lib

/-- The call has set the bit of the bucket and has not counted it. -/
def PushPc.Pending (i : ℕ) : PushPc → Prop
  | .sig (.ret (some index)) | .copy index | .count index => index = i
  | _ => False

lemma PushPc.Pending.eq {pc : PushPc} {i j : ℕ} (hi : pc.Pending i) (hj : pc.Pending j) :
    i = j := by
  cases pc with
  | sig mapPc =>
    cases mapPc with
    | ret index =>
      cases index with
      | none => exact hi.elim
      | some index => exact (Eq.symm hi).trans hj
    | _ => exact hi.elim
  | copy index => exact (Eq.symm hi).trans hj
  | count index => exact (Eq.symm hi).trans hj
  | done succ => exact hi.elim

/-- The payload of the bucket is in the hand of `sched_main`, and not in a bank yet. -/
def HandStage.Held {β : Type} : HandStage β → Prop
  | .unread | .read _ => True
  | _ => False

section

variable {β : Type}

namespace SchedSys

variable (s : SchedSys β)

/-- The call `c` is filling the bucket. -/
def Fills (c i : ℕ) : Prop := ∃ push, s.pushes c = some push ∧ push.pc.Pending i

/-- A call is filling the bucket. -/
def Pending (i : ℕ) : Prop := ∃ c, s.Fills c i

/-- A counter counts the bucket: it is full, or in the hand of `sched_main`. -/
def Counted (i : ℕ) : Prop :=
  (syncMapIssig s.queue.smapDesc.map i = true ∨ s.pc.stage i ≠ .away) ∧ ¬ s.Pending i

/-- The counted buckets of a range. -/
def countedIn (r : Fin 4) : Set ℕ := {i | (s.queue.ranges r).Has i ∧ s.Counted i}

open scoped Classical in
/-- The bucket that `sched_main` has given back and not yet uncounted. -/
noncomputable def leftover (r : Fin 4) : ℕ :=
  if ∃ i, s.pc = .sub i ∧ (s.queue.ranges r).Has i then 1 else 0

/-- **What the counters count.** -/
structure PresenceCounts : Prop where
  counts : ∀ r, s.queue.presence r = (s.countedIn r).ncard + s.leftover r
  /-- No counter wraps. -/
  bound : ∀ r, s.queue.presence r ≤ (s.queue.ranges r).bitN + 1
  /-- `sched_main` does not oversee a payload whose push has returned. -/
  seen : ∀ slot i, s.Returned slot → s.InBucket slot i →
    ∃ r, (s.queue.ranges r).Has i ∧ 0 < s.queue.presence r
  /-- When nobody is on the way, the counters are the numbers of the set bits. -/
  quiet : (∀ i, ¬ s.Pending i) → (∀ i, s.pc.stage i = .away) → (∀ i, s.pc ≠ .sub i) →
    s.queue.CountsOk

end SchedSys

/-! ## The invariant -/

/-- The invariant of the runs whose steps come in order. -/
structure SchedSys.CountInv (s : SchedSys β) : Prop where
  claim : ∀ c push quad sigi, s.pushes c = some push → push.pc = .sig (.claim quad sigi) →
    (s.queue.ranges push.range).Has (sigi + 64 * quad)
  pending : ∀ c push i, s.pushes c = some push → push.pc.Pending i →
    (s.queue.ranges push.range).Has i ∧
      (syncMapIssig s.queue.smapDesc.map i = true ∨ (s.pc.stage i).Held)
  distinct : ∀ c c' i, s.Fills c i → s.Fills c' i → c = c'
  written : ∀ c push i, s.pushes c = some push → push.pc = .count i →
    (s.queue.bucketBase i).call = some c
  counts : ∀ r, s.queue.presence r = (s.countedIn r).ncard + s.leftover r

variable {cfg : SchedConfig β} {s s' : SchedSys β} {c i : ℕ} {r : Fin 4}

lemma finite_countedIn (s : SchedSys β) (r : Fin 4) : (s.countedIn r).Finite :=
  (Set.finite_Ico _ ((s.queue.ranges r).bitI + (s.queue.ranges r).bitN)).subset
    fun _ hi => hi.1

lemma leftover_eq_zero (hpc : ∀ i, s.pc ≠ .sub i) (r : Fin 4) : s.leftover r = 0 :=
  if_neg fun ⟨i, hi, _⟩ => hpc i hi

lemma countInv_start (cfg : SchedConfig β) : (SchedSys.start cfg).CountInv where
  claim := nofun
  pending := nofun
  distinct := fun _ _ _ ⟨_, hpush, _⟩ => by cases hpush
  written := nofun
  counts := by
    intro r
    have hempty : (SchedSys.start cfg).countedIn r = ∅ := by
      rw [Set.eq_empty_iff_forall_notMem]
      rintro i ⟨-, hset | hstage, -⟩
      · have hclear : syncMapIssig (SchedSys.start cfg).queue.smapDesc.map i = false :=
          syncMapIssig_zero i
        rw [hclear] at hset
        cases hset
      · exact hstage rfl
    rw [hempty, Set.ncard_empty, leftover_eq_zero (fun i hpc => by cases hpc)]
    rfl

/-- The counted buckets are those of a state that differs in nothing that is counted. -/
lemma countedIn_congr (hranges : s'.queue.ranges = s.queue.ranges)
    (hcounted : ∀ i, s'.Counted i ↔ s.Counted i) (r : Fin 4) :
    s'.countedIn r = s.countedIn r := by
  ext i
  show (s'.queue.ranges r).Has i ∧ s'.Counted i ↔ _
  rw [hranges, hcounted]
  rfl

lemma leftover_congr (hranges : s'.queue.ranges = s.queue.ranges) (hpc : s'.pc = s.pc)
    (r : Fin 4) : s'.leftover r = s.leftover r := by
  rw [SchedSys.leftover, SchedSys.leftover, hranges, hpc]

/-! ## A step of `sched_push` -/

/-- The calls that are filling a bucket, after a step of the call `c`. -/
lemma fills_update {push : Push β} (hpushes : s'.pushes = Function.update s.pushes c (some push))
    (c' i : ℕ) : s'.Fills c' i ↔ (c' = c ∧ push.pc.Pending i) ∨ (c' ≠ c ∧ s.Fills c' i) := by
  rw [SchedSys.Fills, SchedSys.Fills, hpushes]
  by_cases hc : c' = c
  · subst hc
    rw [Function.update_self]
    constructor
    · rintro ⟨push', heq, hpc⟩
      obtain rfl := Option.some_injective _ heq
      exact Or.inl ⟨rfl, hpc⟩
    · rintro (⟨-, hpc⟩ | ⟨hne, -⟩)
      · exact ⟨push, rfl, hpc⟩
      · exact absurd rfl hne
  · rw [Function.update_of_ne hc]
    constructor
    · exact fun h => Or.inr ⟨hc, h⟩
    · rintro (⟨heq, -⟩ | ⟨-, h⟩)
      · exact absurd heq hc
      · exact h

lemma fills_iff {push : Push β} (hpush : s.pushes c = some push) (i : ℕ) :
    s.Fills c i ↔ push.pc.Pending i := by
  constructor
  · rintro ⟨push', hpush', hpc⟩
    rw [hpush] at hpush'
    rwa [Option.some_injective _ hpush']
  · exact fun hpc => ⟨push, hpush, hpc⟩

/-- A step of a call, but for the counters. -/
lemma SchedSys.CountInv.ofPush (h : s.CountInv) {push' : Push β}
    (hpushes : s'.pushes = Function.update s.pushes c (some push'))
    (hranges : s'.queue.ranges = s.queue.ranges) (hpc : s'.pc = s.pc)
    (hclaim : ∀ quad sigi, push'.pc = .sig (.claim quad sigi) →
      (s.queue.ranges push'.range).Has (sigi + 64 * quad))
    (hgrow : ∀ i, syncMapIssig s.queue.smapDesc.map i = true →
      syncMapIssig s'.queue.smapDesc.map i = true)
    (hpending : ∀ i, push'.pc.Pending i → (s.queue.ranges push'.range).Has i ∧
      (syncMapIssig s'.queue.smapDesc.map i = true ∨ (s.pc.stage i).Held) ∧
      ∀ c', s.Fills c' i → c' = c)
    (hbase : ∀ i, s'.queue.bucketBase i = s.queue.bucketBase i ∨ s.Fills c i)
    (hwritten : ∀ i, push'.pc = .count i → (s'.queue.bucketBase i).call = some c)
    (hcounts : ∀ r, s'.queue.presence r = (s'.countedIn r).ncard + s'.leftover r) :
    s'.CountInv where
  claim := by
    intro c' push'' quad sigi hpush'' hsig
    rw [hranges]
    rw [hpushes] at hpush''
    by_cases hc : c' = c
    · rw [hc, Function.update_self] at hpush''
      obtain rfl := Option.some_injective _ hpush''
      exact hclaim quad sigi hsig
    · rw [Function.update_of_ne hc] at hpush''
      exact h.claim c' push'' quad sigi hpush'' hsig
  pending := by
    intro c' push'' i hpush'' hpend
    rw [hranges, hpc]
    rw [hpushes] at hpush''
    by_cases hc : c' = c
    · rw [hc, Function.update_self] at hpush''
      obtain rfl := Option.some_injective _ hpush''
      exact ⟨(hpending i hpend).1, (hpending i hpend).2.1⟩
    · rw [Function.update_of_ne hc] at hpush''
      exact (h.pending c' push'' i hpush'' hpend).imp_right (Or.imp_left (hgrow i))
  distinct := by
    intro c₁ c₂ i h₁ h₂
    rw [fills_update hpushes] at h₁ h₂
    rcases h₁ with ⟨rfl, hp₁⟩ | ⟨hne₁, hf₁⟩
    · rcases h₂ with ⟨rfl, -⟩ | ⟨-, hf₂⟩
      · rfl
      · exact ((hpending i hp₁).2.2 c₂ hf₂).symm
    · rcases h₂ with ⟨rfl, hp₂⟩ | ⟨-, hf₂⟩
      · exact (hpending i hp₂).2.2 c₁ hf₁
      · exact h.distinct c₁ c₂ i hf₁ hf₂
  written := by
    intro c' push'' i hpush'' hcount
    rw [hpushes] at hpush''
    by_cases hc : c' = c
    · rw [hc, Function.update_self] at hpush''
      obtain rfl := Option.some_injective _ hpush''
      rw [hc]
      exact hwritten i hcount
    · rw [Function.update_of_ne hc] at hpush''
      have hfills : s.Fills c' i := ⟨push'', hpush'', by rw [hcount]; rfl⟩
      rcases hbase i with hsame | hown
      · rw [hsame]
        exact h.written c' push'' i hpush'' hcount
      · exact absurd (h.distinct c' c i hfills hown) hc
  counts := hcounts

/-- A step of a call that fills the same bucket as before, and changes no bit. -/
lemma SchedSys.CountInv.pushSame (h : s.CountInv) {push' : Push β}
    (hpushes : s'.pushes = Function.update s.pushes c (some push'))
    (hranges : s'.queue.ranges = s.queue.ranges) (hpc : s'.pc = s.pc)
    (hmap : s'.queue.smapDesc.map = s.queue.smapDesc.map)
    (hpresence : s'.queue.presence = s.queue.presence)
    (hclaim : ∀ quad sigi, push'.pc = .sig (.claim quad sigi) →
      (s.queue.ranges push'.range).Has (sigi + 64 * quad))
    (hfills : ∀ i, push'.pc.Pending i ↔ s.Fills c i)
    (hrange : ∀ push, s.pushes c = some push → push.range = push'.range)
    (hbase : ∀ i, s'.queue.bucketBase i = s.queue.bucketBase i ∨ s.Fills c i)
    (hwritten : ∀ i, push'.pc = .count i → (s'.queue.bucketBase i).call = some c) :
    s'.CountInv := by
  have hall : ∀ c' i, s'.Fills c' i ↔ s.Fills c' i := by
    intro c' i
    rw [fills_update hpushes, hfills]
    by_cases hc : c' = c
    · simp [hc]
    · simp [hc]
  have hcounted : ∀ i, s'.Counted i ↔ s.Counted i := by
    intro i
    rw [SchedSys.Counted, SchedSys.Counted, hmap, hpc]
    exact and_congr_right' (not_congr (exists_congr fun c' => hall c' i))
  refine h.ofPush hpushes hranges hpc hclaim (fun i => by rw [hmap]; exact id) (fun i hi => ?_)
    hbase hwritten fun r => ?_
  · obtain ⟨push, hpush, hpend⟩ := (hfills i).1 hi
    obtain ⟨hhas, hlive⟩ := h.pending c push i hpush hpend
    rw [hrange push hpush] at hhas
    rw [hmap]
    exact ⟨hhas, hlive, fun c' hc' => h.distinct c' c i hc' ⟨push, hpush, hpend⟩⟩
  · rw [hpresence, countedIn_congr hranges hcounted, leftover_congr hranges hpc]
    exact h.counts r

lemma ncard_countedIn_le (s : SchedSys β) (r : Fin 4) :
    (s.countedIn r).ncard ≤ (s.queue.ranges r).bitN := by
  have hle := Set.ncard_le_ncard (s := s.countedIn r)
    (t := Set.Ico (s.queue.ranges r).bitI ((s.queue.ranges r).bitI + (s.queue.ranges r).bitN))
    (fun _ hi => hi.1) (Set.finite_Ico _ _)
  rwa [← Finset.coe_Ico, Set.ncard_coe_finset, Nat.card_Ico, Nat.add_sub_cancel_left] at hle

lemma leftover_le (s : SchedSys β) (r : Fin 4) : s.leftover r ≤ 1 := by
  rw [SchedSys.leftover]
  split
  · exact le_rfl
  · exact Nat.zero_le 1

/-- The bit that a search in a range of the queue goes on to claim is in the range. -/
lemma has_of_afterLoad (hranges : (schedQueue cfg).RangesOk) {op : MapOp} {size quad quad' sigi : ℕ}
    (hquad : quad < 1) {map : SyncMap}
    (h : (rangeCall op (cfg.ranges r)).afterLoad size quad (map quad) = .claim quad' sigi) :
    sigi < 64 ∧ (cfg.ranges r).Has (sigi + 64 * quad') ∧
      (rangeCall op (cfg.ranges r)).Takes map (sigi + 64 * quad') := by
  obtain ⟨hfrom, -⟩ := rangeCall_bounds hranges op r
  obtain ⟨hlt, hto, htakes⟩ :=
    MapCall.claim_of_afterLoad (hfrom.le.trans (Nat.zero_le quad)) (by omega) h
  have hinside : (cfg.ranges r).bitI + (cfg.ranges r).bitN ≤ 64 := hranges.inside r
  have hmod : (rangeCall op (cfg.ranges r)).toBitIndex =
      (cfg.ranges r).bitI + (cfg.ranges r).bitN := Nat.mod_eq_of_lt (by omega)
  exact ⟨hlt, ⟨htakes.1.1, hto.trans_eq hmod⟩, htakes⟩

/-- The start of a call. -/
lemma SchedSys.CountInv.push (h : s.CountInv) {payload : β} {prior : MtePrior}
    (hs : schedStep cfg s (.push c payload prior) = some s') : s'.CountInv := by
  obtain ⟨push, hnone, hpush, rfl⟩ := schedStep_push hs
  obtain ⟨p, -, rfl⟩ := Option.map_eq_some_iff.1 hpush
  have hfills : ∀ i, ¬ s.Fills c i := by
    rintro i ⟨push, hpush, -⟩
    rw [hnone] at hpush
    cases hpush
  have hpc : ∀ pc, (if (s.queue.ranges p).bitN = 0 then PushPc.done false
      else .sig ((rangeCall .sigFirst (s.queue.ranges p)).start s.queue.smapDesc.size)) = pc →
      (∀ i, ¬ pc.Pending i) ∧ (∀ quad sigi, pc ≠ .sig (.claim quad sigi)) ∧
        ∀ i, pc ≠ .count i := by
    rintro pc rfl
    split
    · exact ⟨fun _ => id, by simp, by simp⟩
    · rcases MapCall.start_cases (rangeCall .sigFirst (s.queue.ranges p)) s.queue.smapDesc.size
        with hstart | hstart
      · rw [hstart]
        exact ⟨fun _ => id, by simp, by simp⟩
      · rw [hstart]
        exact ⟨fun _ => id, by simp, by simp⟩
  obtain ⟨hpending, hclaim, hcount⟩ := hpc _ rfl
  refine h.pushSame rfl rfl rfl rfl rfl (fun quad sigi hsig => absurd hsig (hclaim quad sigi))
    (fun i => iff_of_false (hpending i) (hfills i)) (fun push hpush => ?_)
    (fun i => Or.inl rfl) fun i hi => absurd hi (hcount i)
  rw [hnone] at hpush
  cases hpush

lemma not_pending_afterLoad {call : MapCall} {size quad : ℕ} {val : BitVec 64} (i : ℕ) :
    ¬ (PushPc.sig (call.afterLoad size quad val)).Pending i := by
  rcases call.afterLoad_forms size quad val with ⟨h, -⟩ | ⟨sigi, -, h⟩ | h
  all_goals
    rw [h]
    exact id

/-- The `fetch_or` of a call: the bucket is not counted before the `fetch_add`. -/
lemma SchedSys.CountInv.claimBit (h : s.CountInv) {push push' : Push β}
    (hpush : s.pushes c = some push) (hnot : ∀ j, ¬ push.pc.Pending j)
    (hhas : (s.queue.ranges push'.range).Has i) (hpending : ∀ j, push'.pc.Pending j ↔ i = j)
    (hclaim : ∀ quad sigi, push'.pc ≠ .sig (.claim quad sigi)) (hcount : ∀ j, push'.pc ≠ .count j)
    (hclear : syncMapIssig s.queue.smapDesc.map i = false) (haway : s.pc.stage i = .away)
    (hpushes : s'.pushes = Function.update s.pushes c (some push'))
    (hranges : s'.queue.ranges = s.queue.ranges) (hpc : s'.pc = s.pc)
    (hmap : s'.queue.smapDesc.map = syncMapSigon s.queue.smapDesc.map i)
    (hbase : s'.queue.bucketBase = s.queue.bucketBase)
    (hpresence : s'.queue.presence = s.queue.presence) : s'.CountInv := by
  -- no call was filling the bucket
  have hfree : ∀ c', ¬ s.Fills c' i := by
    rintro c' ⟨push', hpush', hpend⟩
    obtain ⟨-, hset | hheld⟩ := h.pending c' push' i hpush' hpend
    · rw [hclear] at hset
      cases hset
    · rw [haway] at hheld
      exact hheld
  have hbit : ∀ j, syncMapIssig s'.queue.smapDesc.map j =
      (syncMapIssig s.queue.smapDesc.map j || decide (j = i)) := fun j => by
    rw [hmap, syncMapIssig_sigon]
  have hcounted : ∀ j, s'.Counted j ↔ s.Counted j := by
    intro j
    rw [SchedSys.Counted, SchedSys.Counted, hbit, hpc]
    by_cases hj : j = i
    · subst hj
      refine iff_of_false (fun hcounted => hcounted.2 ⟨c, ?_⟩) ?_
      · rw [fills_update hpushes]
        exact Or.inl ⟨rfl, (hpending j).2 rfl⟩
      · rintro ⟨hset | hstage, -⟩
        · rw [hclear] at hset
          cases hset
        · exact hstage haway
    · rw [decide_eq_false hj, Bool.or_false]
      refine and_congr_right' (not_congr (exists_congr fun c' => ?_))
      rw [fills_update hpushes, hpending]
      by_cases hc : c' = c
      · rw [hc, fills_iff hpush]
        simp [Ne.symm hj, hnot]
      · simp [hc]
  refine h.ofPush hpushes hranges hpc (fun quad sigi hsig => absurd hsig (hclaim quad sigi))
    (fun j hj => ?_) (fun j hj => ?_) (fun j => Or.inl (by rw [hbase]))
    (fun j hj => absurd hj (hcount j)) fun r => ?_
  · rw [hbit, hj, Bool.true_or]
  · obtain rfl := (hpending j).1 hj
    refine ⟨hhas, Or.inl ?_, fun c' hc' => absurd hc' (hfree c')⟩
    rw [hbit, decide_eq_true rfl, Bool.or_true]
  · rw [hpresence, countedIn_congr hranges hcounted, leftover_congr hranges hpc]
    exact h.counts r

/-- The `fetch_add` of a call: from now on the bucket is counted. -/
lemma SchedSys.CountInv.countBit (h : s.CountInv) (hshape : s.queue.Shape)
    {push push' : Push β} (hpush : s.pushes c = some push) (hpending : push.pc.Pending i)
    (hnot : ∀ j, ¬ push'.pc.Pending j)
    (hclaim : ∀ quad sigi, push'.pc ≠ .sig (.claim quad sigi)) (hcount : ∀ j, push'.pc ≠ .count j)
    (hpushes : s'.pushes = Function.update s.pushes c (some push'))
    (hranges : s'.queue.ranges = s.queue.ranges) (hpc : s'.pc = s.pc)
    (hmap : s'.queue.smapDesc.map = s.queue.smapDesc.map)
    (hbase : s'.queue.bucketBase = s.queue.bucketBase)
    (hpresence : s'.queue.presence = Function.update s.queue.presence push.range
      ((s.queue.presence push.range + 1) % 2 ^ 32)) : s'.CountInv := by
  obtain ⟨hhas, hlive⟩ := h.pending c push i hpush hpending
  have hfills : s.Fills c i := ⟨push, hpush, hpending⟩
  have hcounted : ∀ j, s'.Counted j ↔ s.Counted j ∨ j = i := by
    intro j
    have hleft : ∀ c', s'.Fills c' j ↔ c' ≠ c ∧ s.Fills c' j := by
      intro c'
      rw [fills_update hpushes]
      simp [hnot]
    rw [SchedSys.Counted, SchedSys.Counted, hmap, hpc]
    by_cases hj : j = i
    · subst hj
      refine iff_of_true ⟨hlive.imp_right fun hheld haway => ?_, ?_⟩ (Or.inr rfl)
      · rw [haway] at hheld
        exact hheld
      · rintro ⟨c', hc'⟩
        obtain ⟨hne, hold⟩ := (hleft c').1 hc'
        exact hne (h.distinct c' c j hold hfills)
    · simp only [hj, or_false]
      refine and_congr_right' (not_congr (exists_congr fun c' => ?_))
      rw [hleft]
      refine and_iff_right_of_imp fun hold hc => hj ?_
      subst hc
      exact ((fills_iff hpush j).1 hold).eq hpending
  refine h.ofPush hpushes hranges hpc (fun quad sigi hsig => absurd hsig (hclaim quad sigi))
    (fun j => by rw [hmap]; exact id) (fun j hj => absurd hj (hnot j))
    (fun j => Or.inl (by rw [hbase])) (fun j hj => absurd hj (hcount j)) fun r => ?_
  have hmem : ∀ j, j ∈ s'.countedIn r ↔ j ∈ s.countedIn r ∨ (s.queue.ranges r).Has j ∧ j = i := by
    intro j
    show (s'.queue.ranges r).Has j ∧ s'.Counted j ↔ _
    rw [hranges, hcounted, and_or_left]
    rfl
  rw [leftover_congr hranges hpc, hpresence]
  by_cases hr : r = push.range
  · have hset : s'.countedIn r = insert i (s.countedIn r) := by
      ext j
      rw [hmem, Set.mem_insert_iff, or_comm]
      refine or_congr_left (and_iff_right_of_imp ?_)
      rintro rfl
      exact hr ▸ hhas
    have hlt := h.counts r
    have hle := ncard_countedIn_le s r
    have hleft := leftover_le s r
    have hinside := hshape.inside r
    have hsize := hshape.size
    have hcount_lt := hshape.count_lt
    rw [hset, Set.ncard_insert_of_notMem (fun hi => hi.2.2 ⟨c, hfills⟩) (finite_countedIn s r), hr,
      Function.update_self, ← hr, Nat.mod_eq_of_lt (by omega), hlt]
    omega
  · have hset : s'.countedIn r = s.countedIn r := by
      ext j
      rw [hmem, or_iff_left_iff_imp]
      rintro ⟨hj, rfl⟩
      exact absurd (hshape.eq_of_has hj hhas) hr
    rw [hset, Function.update_of_ne hr]
    exact h.counts r

/-- **One step of a call of `sched_push`.** -/
lemma SchedSys.CountInv.pushStep (h : s.CountInv) (hranges : (schedQueue cfg).RangesOk)
    (hin : s.InMap cfg) (hbounds : s.Bounds cfg) (hshape : s.queue.Shape)
    (hordered : s.Ordered (.pushStep c)) (hs : schedStep cfg s (.pushStep c) = some s') :
    s'.CountInv := by
  obtain ⟨push, queue, pc, hpush, hstep, rfl⟩ := schedStep_pushStep hs
  have hsame : ∀ push', s.pushes c = some push' → push'.range = push.range := by
    intro push' hpush'
    rw [hpush] at hpush'
    rw [Option.some_injective _ hpush']
  obtain ⟨payload, range, at'⟩ := push
  cases at' with
  | sig mapPc =>
    rcases mapPc with quad | ⟨quad, sigi⟩ | (_ | index)
    · -- the load of the quad
      obtain ⟨rfl, rfl⟩ := Prod.mk.inj (Option.some_injective _ hstep)
      refine h.pushSame rfl rfl rfl rfl rfl (fun quad' sigi hsig => ?_) (fun i => ?_) hsame
        (fun i => Or.inl rfl) (by simp)
      · have hafter := PushPc.sig.inj hsig
        rw [hbounds.ranges] at hafter ⊢
        exact (has_of_afterLoad hranges (hin.push c _ hpush) hafter).2.1
      · rw [fills_iff hpush]
        exact iff_of_false (not_pending_afterLoad i) id
    · obtain ⟨hsigi, hlt⟩ := hbounds.push c _ quad sigi hpush rfl
      have hwrap : sigi + 64 * quad < 2 ^ 32 := hlt.trans (by decide)
      obtain ⟨hclear, haway⟩ := hordered _ quad sigi hpush rfl
      have hhas : (s.queue.ranges range).Has (sigi + 64 * quad) := h.claim c _ quad sigi hpush rfl
      simp only [schedPushStep, MapCall.step_claim_of_lt hsigi hwrap] at hstep
      obtain ⟨rfl, rfl⟩ := Prod.mk.inj (Option.some_injective _ hstep)
      refine h.claimBit hpush (fun _ => id) ?_ ?_ ?_ ?_ hclear haway rfl rfl rfl rfl rfl rfl
      · exact hhas
      · exact fun _ => Iff.rfl
      · simp
      · simp
    · obtain ⟨rfl, rfl⟩ := Prod.mk.inj (Option.some_injective _ hstep)
      have hstart := MapCall.start_cases (rangeCall .sigFirst (s.queue.ranges range))
        s.queue.smapDesc.size
      refine h.pushSame rfl rfl rfl rfl rfl (fun quad sigi hsig => ?_) (fun i => ?_) hsame
        (fun i => Or.inl rfl) (by simp)
      · rcases hstart with hstart | hstart
        all_goals
          rw [hstart] at hsig
          cases hsig
      · rw [fills_iff hpush]
        rcases hstart with hstart | hstart
        · rw [hstart]
        · rw [hstart]
          exact Iff.rfl
    · obtain ⟨rfl, rfl⟩ := Prod.mk.inj (Option.some_injective _ hstep)
      exact h.pushSame rfl rfl rfl rfl rfl (by simp) (fun i => (fills_iff hpush i).symm) hsame
        (fun i => Or.inl rfl) (by simp)
  | copy index =>
    obtain ⟨rfl, rfl⟩ := Prod.mk.inj (Option.some_injective _ hstep)
    refine h.pushSame rfl rfl rfl rfl rfl (by simp) (fun i => (fills_iff hpush i).symm) hsame
      (fun i => ?_) (fun i hi => ?_)
    · by_cases hi : i = index
      · exact Or.inr ((fills_iff hpush i).2 hi.symm)
      · exact Or.inl (Function.update_of_ne hi ..)
    · obtain rfl := PushPc.count.inj hi
      show (Function.update s.queue.bucketBase index ⟨payload, some c⟩ index).call = some c
      rw [Function.update_self]
  | count index =>
    obtain ⟨rfl, rfl⟩ := Prod.mk.inj (Option.some_injective _ hstep)
    refine h.countBit hshape hpush rfl ?_ ?_ ?_ rfl rfl rfl rfl rfl rfl
    · exact fun _ => id
    · simp
    · simp
  | done succ => cases hstep

/-! ## A step of `sched_main` -/

/-- A step of `sched_main`, but for the counters: the payloads in its hand that are not in a bank
yet may get there, if no call is filling their buckets. -/
lemma SchedSys.CountInv.ofMain (h : s.CountInv) (hpushes : s'.pushes = s.pushes)
    (hranges : s'.queue.ranges = s.queue.ranges)
    (hbase : s'.queue.bucketBase = s.queue.bucketBase)
    (hlive : ∀ i, s.Pending i → (syncMapIssig s.queue.smapDesc.map i = true ∨
      (s.pc.stage i).Held) → syncMapIssig s'.queue.smapDesc.map i = true ∨ (s'.pc.stage i).Held)
    (hcounts : ∀ r, s'.queue.presence r = (s'.countedIn r).ncard + s'.leftover r) :
    s'.CountInv where
  claim := by
    rw [hpushes, hranges]
    exact h.claim
  pending := by
    intro c push i hpush hpend
    rw [hpushes] at hpush
    obtain ⟨hhas, hold⟩ := h.pending c push i hpush hpend
    rw [hranges]
    exact ⟨hhas, hlive i ⟨c, push, hpush, hpend⟩ hold⟩
  distinct := by
    intro c c' i hc hc'
    rw [SchedSys.Fills, hpushes] at hc hc'
    exact h.distinct c c' i hc hc'
  written := by
    rw [hpushes, hbase]
    exact h.written
  counts := hcounts

lemma pending_congr (hpushes : s'.pushes = s.pushes) (i : ℕ) : s'.Pending i ↔ s.Pending i := by
  rw [SchedSys.Pending, SchedSys.Pending]
  simp only [SchedSys.Fills, hpushes]

/-- A step of `sched_main` that leaves what is counted. -/
lemma SchedSys.CountInv.keep (h : s.CountInv) (hpushes : s'.pushes = s.pushes)
    (hranges : s'.queue.ranges = s.queue.ranges)
    (hbase : s'.queue.bucketBase = s.queue.bucketBase)
    (hpresence : s'.queue.presence = s.queue.presence)
    (hshown : ∀ i, (syncMapIssig s'.queue.smapDesc.map i = true ∨ s'.pc.stage i ≠ .away) ↔
      (syncMapIssig s.queue.smapDesc.map i = true ∨ s.pc.stage i ≠ .away))
    (hlive : ∀ i, s.Pending i → (syncMapIssig s.queue.smapDesc.map i = true ∨
      (s.pc.stage i).Held) → syncMapIssig s'.queue.smapDesc.map i = true ∨ (s'.pc.stage i).Held)
    (hsub : ∀ i, s.pc ≠ .sub i) (hsub' : ∀ i, s'.pc ≠ .sub i) : s'.CountInv := by
  have hcounted : ∀ i, s'.Counted i ↔ s.Counted i := by
    intro i
    rw [SchedSys.Counted, SchedSys.Counted, hshown, pending_congr hpushes]
  refine h.ofMain hpushes hranges hbase hlive fun r => ?_
  rw [countedIn_congr hranges hcounted, leftover_eq_zero hsub', hpresence, h.counts r,
    leftover_eq_zero hsub]

/-- A step of `sched_main` that takes and frees no bucket. -/
lemma SchedSys.CountInv.goOn (h : s.CountInv) (hpushes : s'.pushes = s.pushes)
    (hranges : s'.queue.ranges = s.queue.ranges)
    (hbase : s'.queue.bucketBase = s.queue.bucketBase)
    (hpresence : s'.queue.presence = s.queue.presence)
    (hmap : s'.queue.smapDesc.map = s.queue.smapDesc.map)
    (hstage : ∀ i, s'.pc.stage i = s.pc.stage i)
    (hsub : ∀ i, s.pc ≠ .sub i) (hsub' : ∀ i, s'.pc ≠ .sub i) : s'.CountInv := by
  refine h.keep hpushes hranges hbase hpresence (fun i => ?_) (fun i _ hold => ?_) hsub hsub'
  · rw [hmap, hstage]
  · rwa [hmap, hstage]

/-- The `fetch_and` of `sched_main`: the bucket goes into its hand. -/
lemma SchedSys.CountInv.take (h : s.CountInv) (hpushes : s'.pushes = s.pushes)
    (hranges : s'.queue.ranges = s.queue.ranges)
    (hbase : s'.queue.bucketBase = s.queue.bucketBase)
    (hpresence : s'.queue.presence = s.queue.presence)
    (hmap : s'.queue.smapDesc.map = syncMapSigoff s.queue.smapDesc.map i)
    (hset : syncMapIssig s.queue.smapDesc.map i = true) (hunread : s'.pc.stage i = .unread)
    (hstage : ∀ j, j ≠ i → s'.pc.stage j = s.pc.stage j)
    (hsub : ∀ j, s.pc ≠ .sub j) (hsub' : ∀ j, s'.pc ≠ .sub j) : s'.CountInv := by
  have hbit : ∀ j, j ≠ i →
      syncMapIssig s'.queue.smapDesc.map j = syncMapIssig s.queue.smapDesc.map j := by
    intro j hj
    rw [hmap, syncMapIssig_sigoff, decide_eq_true hj, Bool.and_true]
  refine h.keep hpushes hranges hbase hpresence (fun j => ?_) (fun j _ hold => ?_) hsub hsub'
  · by_cases hj : j = i
    · subst hj
      rw [hunread]
      exact iff_of_true (Or.inr nofun) (Or.inl hset)
    · rw [hbit j hj, hstage j hj]
  · by_cases hj : j = i
    · subst hj
      rw [hunread]
      exact Or.inr trivial
    · rwa [hbit j hj, hstage j hj]

/-- A step of `sched_main` with one bucket that stays in its hand, and no other. -/
lemma SchedSys.CountInv.handle (h : s.CountInv) (hpushes : s'.pushes = s.pushes)
    (hqueue : s'.queue = s.queue) (hold : s.pc.stage i ≠ .away) (hnew : s'.pc.stage i ≠ .away)
    (hheld : s.Pending i → (s'.pc.stage i).Held)
    (hstage : ∀ j, j ≠ i → s'.pc.stage j = s.pc.stage j)
    (hsub : ∀ j, s.pc ≠ .sub j) (hsub' : ∀ j, s'.pc ≠ .sub j) : s'.CountInv := by
  refine h.keep hpushes (by rw [hqueue]) (by rw [hqueue]) (by rw [hqueue]) (fun j => ?_)
    (fun j hpending hlive => ?_) hsub hsub'
  · rw [hqueue]
    by_cases hj : j = i
    · subst hj
      exact iff_of_true (Or.inr hnew) (Or.inr hold)
    · rw [hstage j hj]
  · rw [hqueue]
    by_cases hj : j = i
    · subst hj
      exact Or.inr (hheld hpending)
    · rwa [hstage j hj]

/-- The second `sync_map_sigoff`: the bucket is not counted any more, but for the counter. -/
lemma SchedSys.CountInv.giveBack (h : s.CountInv)
    (hpushes : s'.pushes = s.pushes) (hranges : s'.queue.ranges = s.queue.ranges)
    (hbase : s'.queue.bucketBase = s.queue.bucketBase)
    (hpresence : s'.queue.presence = s.queue.presence)
    (hmap : s'.queue.smapDesc.map = s.queue.smapDesc.map)
    (hclear : syncMapIssig s.queue.smapDesc.map i = false) (hpc : s.pc = .sigoff i)
    (hpc' : s'.pc = .sub i) : s'.CountInv := by
  have hstored : s.pc.stage i = .stored := by
    rw [hpc]
    exact if_pos rfl
  have hidle : ¬ s.Pending i := by
    rintro ⟨c, push, hpush, hpend⟩
    obtain ⟨-, hset | hheld⟩ := h.pending c push i hpush hpend
    · rw [hclear] at hset
      cases hset
    · rw [hstored] at hheld
      exact hheld
  have haway : ∀ j, s'.pc.stage j = .away := fun j => by
    rw [hpc']
    rfl
  have hstage : ∀ j, j ≠ i → s.pc.stage j = .away := fun j hj => by
    rw [hpc]
    exact if_neg hj.symm
  have hcounted : ∀ j, s'.Counted j ↔ s.Counted j ∧ j ≠ i := by
    intro j
    rw [SchedSys.Counted, SchedSys.Counted, hmap, haway, pending_congr hpushes]
    by_cases hj : j = i
    · subst hj
      simp [hclear]
    · rw [hstage j hj]
      simp [hj]
  have hmem : ∀ r, s'.countedIn r = s.countedIn r \ {i} := by
    intro r
    ext j
    show (s'.queue.ranges r).Has j ∧ s'.Counted j ↔ _
    rw [hranges, hcounted, ← and_assoc]
    rfl
  refine h.ofMain hpushes hranges hbase (fun j hpending hlive => ?_) fun r => ?_
  · have hj : j ≠ i := fun hji => hidle (hji ▸ hpending)
    rw [hstage j hj] at hlive
    rw [hmap]
    exact Or.inl (hlive.resolve_right id)
  · have hcounts := h.counts r
    rw [leftover_eq_zero (fun j hj => by rw [hpc] at hj; cases hj)] at hcounts
    rw [hpresence, hcounts, hmem, SchedSys.leftover, hpc', hranges]
    by_cases hr : (s.queue.ranges r).Has i
    · have hin : i ∈ s.countedIn r := ⟨hr, Or.inr (by rw [hstored]; nofun), hidle⟩
      rw [if_pos ⟨i, rfl, hr⟩, Set.ncard_sdiff_singleton_add_one hin (finite_countedIn s r),
        Nat.add_zero]
    · have hout : i ∉ s.countedIn r := fun hin => hr hin.1
      rw [Set.sdiff_singleton_eq_self hout, if_neg]
      rintro ⟨j, hj, hhas⟩
      obtain rfl := SchedPc.sub.inj hj
      exact hr hhas

/-- The `fetch_sub` of `sched_main`. -/
lemma SchedSys.CountInv.uncount (h : s.CountInv) (hshape : s.queue.Shape)
    (hpushes : s'.pushes = s.pushes) (hranges : s'.queue.ranges = s.queue.ranges)
    (hbase : s'.queue.bucketBase = s.queue.bucketBase)
    (hmap : s'.queue.smapDesc.map = s.queue.smapDesc.map) (hpc : s.pc = .sub i)
    (hpc' : s'.pc = .closed) (hhas : (s.queue.ranges r).Has i)
    (hpresence : s'.queue.presence = Function.update s.queue.presence r
      ((s.queue.presence r + (2 ^ 32 - 1)) % 2 ^ 32)) : s'.CountInv := by
  have hstage : ∀ j, s'.pc.stage j = s.pc.stage j := fun j => by
    rw [hpc, hpc']
    rfl
  have hcounted : ∀ j, s'.Counted j ↔ s.Counted j := by
    intro j
    rw [SchedSys.Counted, SchedSys.Counted, hmap, hstage, pending_congr hpushes]
  refine h.ofMain hpushes hranges hbase (fun j _ hlive => by rwa [hmap, hstage]) fun q => ?_
  have hcounts := h.counts q
  rw [countedIn_congr hranges hcounted, leftover_eq_zero (fun j hj => by rw [hpc'] at hj; cases hj),
    hpresence]
  by_cases hq : q = r
  · subst hq
    have hone : s.leftover q = 1 := if_pos ⟨i, hpc, hhas⟩
    have hle := ncard_countedIn_le s q
    have hinside := hshape.inside q
    have hlt := hshape.count_lt
    rw [Function.update_self, hcounts, hone]
    omega
  · have hzero : s.leftover q = 0 := by
      refine if_neg ?_
      rintro ⟨j, hj, hother⟩
      rw [hpc] at hj
      obtain rfl := SchedPc.sub.inj hj
      exact hq (hshape.eq_of_has hother hhas)
    rw [Function.update_of_ne hq, hcounts, hzero]

/-- When `sched_main` copies a payload into a bank, no call is filling its bucket. -/
lemma SchedSys.CountInv.not_pending (h : s.CountInv) {σ : ℕ → BucketState} (hrel : QueueRel s σ)
    {vrowI : ℕ} {call : Option ℕ} {payload : β} (hordered : s.Ordered .sched)
    (hpc : s.pc = .load vrowI i call (.store payload)) : ¬ s.Pending i := by
  rintro ⟨c, push, hpush, hpend⟩
  have hhand := hrel.hand i
  rw [hpc, SchedPc.stage, if_pos rfl] at hhand
  obtain ⟨c', htaken, hslot⟩ := hhand.of_read
  obtain ⟨-, hcall⟩ := hrel.content i c' (by rw [htaken]; rfl)
  have hdone : ∀ push', s.pushes c' = some push' → push'.pc = .done true := by
    refine hordered.2 vrowI i c' payload ?_
    rw [hpc, ← hcall, ← hslot]
  have hwriter : ¬ push.pc.Writing i := by
    intro hwriting
    have hsome := (hrel.writer i c).2 ⟨push, hpush, hwriting⟩
    rw [htaken] at hsome
    cases hsome
  obtain ⟨arg, range, pc⟩ := push
  cases pc with
  | sig mapPc =>
    cases mapPc with
    | ret index =>
      cases index with
      | none => exact hpend
      | some index => exact hwriter hpend
    | _ => exact hpend
  | copy index => exact hwriter hpend
  | count index =>
    obtain rfl : index = i := hpend
    have hown := h.written c _ index hpush rfl
    rw [hcall] at hown
    obtain rfl := Option.some_injective _ hown
    cases hdone _ hpush
  | done succ => exact hpend

/-- The bucket that `sched_pop` is called for is one of the queue. -/
lemma QueueRel.lt_of_pop {σ : ℕ → BucketState} (h : QueueRel s σ) {vrowI bucketI : ℕ}
    (hpc : s.pc = .pop vrowI bucketI) : bucketI < 64 := by
  refine h.lt_of_stage ?_
  rw [hpc, SchedPc.stage, if_pos rfl]
  simp

/-- The search for a bucket. -/
lemma SchedSys.CountInv.search_bucket (h : s.CountInv) (hqueue : s.QueueInv cfg) {vrowI : ℕ}
    {range : Fin 4} {mapPc : MapPc} (hpc : s.pc = .unsig vrowI range mapPc)
    (hs : schedMainStep cfg s = some s') : s'.CountInv := by
  obtain ⟨hbounds, σ, hrel⟩ := hqueue
  have hsub : ∀ j, s.pc ≠ .sub j := fun j hj => by
    rw [hpc] at hj
    cases hj
  rcases mapPc with quad | ⟨quad, sigi⟩ | (_ | bucketI)
  · simp only [schedMainStep, hpc, MapCall.step] at hs
    obtain rfl := Option.some_injective _ hs
    refine h.goOn rfl rfl rfl rfl rfl (fun j => ?_) hsub (by simp)
    dsimp only
    rw [stage_unsig_afterLoad, hpc]
    rfl
  · obtain ⟨hsigi, hlt, hset⟩ := hbounds.unsig vrowI range quad sigi hpc
    have hwrap : sigi + 64 * quad < 2 ^ 32 := hlt.trans (by decide)
    simp only [schedMainStep, hpc, MapCall.step_claim_of_lt hsigi hwrap] at hs
    obtain rfl := Option.some_injective _ hs
    refine h.take rfl rfl rfl rfl rfl hset (if_pos rfl) (fun j hj => ?_) hsub (by simp)
    rw [hpc]
    exact if_neg hj.symm
  · simp only [schedMainStep, hpc] at hs
    obtain rfl := Option.some_injective _ hs
    exact h.goOn rfl rfl rfl rfl rfl (fun j => by rw [hpc]; rfl) hsub (by simp)
  · simp only [schedMainStep, hpc] at hs
    obtain rfl := Option.some_injective _ hs
    have hlt : bucketI < 64 := hrel.lt_of_stage (by
      rw [hpc, SchedPc.stage, if_pos rfl]
      simp)
    have hmod : bucketI % 2 ^ 8 = bucketI := Nat.mod_eq_of_lt (hlt.trans (by decide))
    refine h.goOn rfl rfl rfl rfl rfl (fun j => ?_) hsub (by simp)
    rw [hpc]
    dsimp only [SchedPc.stage]
    rw [hmod]

/-- `vrow_bank_load`. -/
lemma SchedSys.CountInv.load (h : s.CountInv) {σ : ℕ → BucketState} (hrel : QueueRel s σ)
    (hordered : s.Ordered .sched) {vrowI bucketI : ℕ} {call : Option ℕ} {loadPc : LoadPc β}
    (hpc : s.pc = .load vrowI bucketI call loadPc) (hs : schedMainStep cfg s = some s') :
    s'.CountInv := by
  have hsub : ∀ j, s.pc ≠ .sub j := fun j hj => by
    rw [hpc] at hj
    cases hj
  cases loadPc with
  | wait payload =>
    simp only [schedMainStep, hpc, vrowBankLoadStep] at hs
    obtain rfl := Option.some_injective _ hs
    refine h.goOn rfl rfl rfl rfl rfl (fun i => ?_) hsub (by simp)
    rw [hpc]
    by_cases hfilled : vrowIsFilled (s.vrows vrowI).1 0 = true
    · simp only [hfilled, if_true]
    · simp only [hfilled]
      rfl
  | store payload =>
    have hidle := h.not_pending hrel hordered hpc
    simp only [schedMainStep, hpc, vrowBankLoadStep] at hs
    obtain rfl := Option.some_injective _ hs
    refine h.handle (i := bucketI) rfl rfl ?_ ?_ (fun hpending => absurd hpending hidle)
      (fun j hj => ?_) hsub (by simp)
    · rw [hpc, SchedPc.stage, if_pos rfl]
      simp
    · rw [SchedPc.stage, if_pos rfl]
      simp
    · rw [hpc]
      exact (if_neg hj.symm).trans (if_neg hj.symm).symm
  | fill =>
    simp only [schedMainStep, hpc, vrowBankLoadStep] at hs
    obtain rfl := Option.some_injective _ hs
    refine h.goOn rfl rfl rfl rfl rfl (fun i => ?_) hsub (by simp)
    rw [hpc]
    rfl

/-- **One step of `sched_main`.** -/
lemma SchedSys.CountInv.sched (h : s.CountInv) (hqueue : s.QueueInv cfg) (hvalid : s.Valid)
    (hordered : s.Ordered .sched) (hs : schedMainStep cfg s = some s') : s'.CountInv := by
  cases hpc : s.pc with
  | unsig vrowI range mapPc => exact h.search_bucket hqueue hpc hs
  | load vrowI bucketI call loadPc =>
    obtain ⟨-, σ, hrel⟩ := hqueue
    exact h.load hrel hordered hpc hs
  | pop vrowI bucketI =>
    obtain ⟨hbounds, σ, hrel⟩ := hqueue
    have hlt : bucketI < 64 := hrel.lt_of_pop hpc
    have hvrowI : vrowI < cfg.vrowCount := hbounds.held vrowI (by rw [hpc]; rfl)
    have hcount := hbounds.count
    have hchecks : ¬ (vrowI ≥ cfg.vrowCount ∨ bucketI ≥ s.queue.bucketCount) := by omega
    simp only [schedMainStep, hpc, if_neg hchecks] at hs
    obtain rfl := Option.some_injective _ hs
    refine h.handle (i := bucketI) rfl rfl ?_ ?_ (fun _ => ?_) (fun j hj => ?_) ?_ (by simp)
    · rw [hpc, SchedPc.stage, if_pos rfl]
      simp
    · rw [SchedPc.stage, if_pos rfl]
      simp
    · rw [SchedPc.stage, if_pos rfl]
      trivial
    · rw [hpc]
      exact (if_neg hj.symm).trans (if_neg hj.symm).symm
    · rw [hpc]
      simp
  | sigoff bucketI =>
    obtain ⟨hbounds, σ, hrel⟩ := hqueue
    have hstored : s.pc.stage bucketI = .stored := by
      rw [hpc]
      exact if_pos rfl
    have hbucketI : ¬ s.queue.bucketCount ≤ bucketI := by
      rw [hbounds.count, not_le]
      exact hrel.lt_of_stage (by rw [hstored]; simp)
    have hclear : syncMapIssig s.queue.smapDesc.map bucketI = false := by
      have hhand := hrel.hand bucketI
      rw [hstored] at hhand
      rw [hrel.bit, hhand.eq_stored]
      rfl
    simp only [schedMainStep, hpc, if_neg hbucketI] at hs
    obtain rfl := Option.some_injective _ hs
    exact h.giveBack rfl rfl rfl rfl (syncMapSigoff_eq_self hclear) hclear hpc rfl
  | sub bucketI =>
    simp only [schedMainStep, hpc] at hs
    obtain ⟨p, hp, rfl⟩ := Option.map_eq_some_iff.1 hs
    have hlt : bucketI < s.queue.bucketCount := by
      by_contra hge
      rw [bitpoolIndexToPresence, if_pos (not_lt.1 hge)] at hp
      cases hp
    obtain ⟨r, hr⟩ := hvalid.covered bucketI hlt
    rw [hvalid.shape.indexToPresence hr] at hp
    obtain rfl := Option.some_injective _ hp
    exact h.uncount hvalid.shape rfl rfl rfl rfl hpc rfl hr rfl
  | vrow mapPc =>
    rcases mapPc with quad | ⟨quad, sigi⟩ | (_ | vrowI)
    all_goals
      simp only [schedMainStep, hpc] at hs
      obtain rfl := Option.some_injective _ hs
      exact h.goOn rfl rfl rfl rfl rfl (fun j => by rw [hpc]; rfl) (by rw [hpc]; simp) (by simp)
  | disp vrowI left =>
    have hstart : ∀ (range : Fin 4) (call : MapCall) (size j : ℕ),
        (SchedPc.unsig (β := β) vrowI range (call.start size)).stage j = .away := by
      intro range call size j
      rcases call.start_cases size with hstart | hstart
      · rw [hstart]
        rfl
      · rw [hstart]
        rfl
    simp only [schedMainStep] at hs
    rw [hpc] at hs
    cases left with
    | nil =>
      obtain rfl := Option.some_injective _ hs
      exact h.goOn rfl rfl rfl rfl rfl (fun j => by rw [hpc]; exact hstart ..)
        (by rw [hpc]; simp) (by simp)
    | cons range left =>
      dsimp only at hs
      split_ifs at hs
      · obtain rfl := Option.some_injective _ hs
        exact h.goOn rfl rfl rfl rfl rfl (fun j => by rw [hpc]; exact hstart ..)
          (by rw [hpc]; simp) (by simp)
      · obtain rfl := Option.some_injective _ hs
        exact h.goOn rfl rfl rfl rfl rfl (fun j => by rw [hpc]; rfl) (by rw [hpc]; simp) (by simp)
      · obtain rfl := Option.some_injective _ hs
        exact h.goOn rfl rfl rfl rfl rfl (fun j => by rw [hpc]; rfl) (by rw [hpc]; simp) (by simp)
  | terminated =>
    simp only [schedMainStep, hpc] at hs
    cases hs
  | closed | presence =>
    simp only [schedMainStep, hpc] at hs
    obtain rfl := Option.some_injective _ hs
    split
    · exact h.goOn rfl rfl rfl rfl rfl (fun j => by rw [hpc]; rfl) (by rw [hpc]; simp) (by simp)
    · exact h.goOn rfl rfl rfl rfl rfl (fun j => by rw [hpc]; rfl) (by rw [hpc]; simp) (by simp)
  | back vrowI =>
    simp only [schedMainStep, hpc] at hs
    obtain rfl := Option.some_injective _ hs
    exact h.goOn rfl rfl rfl rfl rfl (fun j => by rw [hpc]; rfl) (by rw [hpc]; simp) (by simp)
  | terminate =>
    simp only [schedMainStep, hpc] at hs
    obtain rfl := Option.some_injective _ hs
    exact h.goOn rfl rfl rfl rfl rfl (fun j => by rw [hpc]; rfl) (by rw [hpc]; simp) (by simp)

/-! ## The runs -/

/-- **One step of the system.** -/
lemma SchedSys.CountInv.step (h : s.CountInv) (hranges : (schedQueue cfg).RangesOk)
    (hin : s.InMap cfg) (hqueue : s.QueueInv cfg) (hvalid : s.Valid) {l : SchedStep β}
    (hordered : s.Ordered l) (hs : schedStep cfg s l = some s') : s'.CountInv := by
  have helse : s'.queue = s.queue → s'.pc = s.pc → s'.pushes = s.pushes → s'.CountInv := by
    intro hq hpc hpushes
    refine h.ofMain hpushes (by rw [hq]) (by rw [hq]) (fun i _ hold => by rwa [hq, hpc]) fun r => ?_
    have hcounted : ∀ i, s'.Counted i ↔ s.Counted i := by
      intro i
      rw [SchedSys.Counted, SchedSys.Counted, hq, hpc, pending_congr hpushes]
    rw [countedIn_congr (by rw [hq]) hcounted, leftover_congr (by rw [hq]) hpc, hq]
    exact h.counts r
  rcases schedStep_cases hs with ⟨c, payload, prior, push, rfl, -⟩ |
    ⟨c, push, queue, pc, rfl, -⟩ | ⟨rfl, -⟩ | ⟨vrowSmap, closed, vrows, -, rfl⟩
  · exact h.push hs
  · exact h.pushStep hranges hin hqueue.1 hvalid.shape hordered hs
  · exact h.sched hqueue hvalid hordered hs
  · exact helse rfl rfl rfl

lemma schedQueue_rangesOk (hranges : cfg.ranges = defaultRanges) : (schedQueue cfg).RangesOk :=
  BitpoolDesc.rangesOk_default hranges rfl

/-- The invariants of the queue in the runs whose steps come in order. -/
lemma countInv_of_runs (hranges : cfg.ranges = defaultRanges) {ls : List (SchedStep β)}
    (hordered : AllSteps (schedStep cfg) SchedSys.Ordered (.start cfg) ls)
    (hs : runs (schedStep cfg) (.start cfg) ls = some s) :
    s.QueueInv cfg ∧ s.Valid ∧ s.CountInv := by
  have hok := schedQueue_rangesOk hranges
  refine (inv_of_allSteps
    (I := fun s : SchedSys β => s.InMap cfg ∧ s.QueueInv cfg ∧ s.Valid ∧ s.CountInv)
    (fun s l s' h hl hs => ?_) ⟨SchedSys.inMap_start cfg, queueInv_start cfg,
      SchedSys.valid_start hranges, countInv_start cfg⟩ hordered hs).2
  obtain ⟨hin, hqueue, hvalid, hcount⟩ := h
  exact ⟨hin.step hs, hqueue.step hok hin hl hs, hvalid.step hs,
    hcount.step hok hin hqueue hvalid hl hs⟩

/-- The full bucket of a push that has returned is counted. -/
lemma SchedSys.CountInv.counted_of_returned (h : s.CountInv) {slot : Slot β}
    (hslot : s.Returned slot) (hin : s.InBucket slot i) : s.Counted i := by
  obtain ⟨c, push, rfl, hpush, hdone⟩ := hslot
  obtain ⟨hset, hwrites, hbase⟩ := hin
  refine ⟨Or.inl hset, ?_⟩
  rintro ⟨c', push', hpush', hpend⟩
  have hcount : push'.pc ≠ .count i := by
    intro hcount
    have hown := h.written c' push' i hpush' hcount
    rw [hbase] at hown
    obtain rfl := Option.some_injective _ hown
    rw [hpush] at hpush'
    obtain rfl := Option.some_injective _ hpush'
    rw [hdone] at hcount
    cases hcount
  have hwriting : ¬ push'.pc.Writing i := fun hw => hwrites c' ⟨push', hpush', hw⟩
  obtain ⟨arg, range, pc⟩ := push'
  cases pc with
  | sig mapPc =>
    cases mapPc with
    | ret index =>
      cases index with
      | none => exact hpend
      | some index => exact hwriting hpend
    | _ => exact hpend
  | copy index => exact hwriting hpend
  | count index =>
    obtain rfl : index = i := hpend
    exact hcount rfl
  | done succ => exact hpend

/-- When nobody is on the way, the counted buckets are the full ones. -/
lemma countedIn_quiet (hpending : ∀ i, ¬ s.Pending i) (hstage : ∀ i, s.pc.stage i = .away)
    (r : Fin 4) : (s.countedIn r).ncard = s.queue.setBits r := by
  have hset : s.countedIn r = ↑(s.queue.fullSet r) := by
    ext i
    rw [Finset.mem_coe, BitpoolDesc.mem_fullSet]
    refine and_congr_right' ?_
    rw [SchedSys.Counted, hstage]
    simp [hpending]
  rw [hset, Set.ncard_coe_finset, BitpoolDesc.setBits_eq]

/-- **What the counters count** in every run whose steps come in order. -/
theorem presence_counts_of_ordered (hranges : cfg.ranges = defaultRanges)
    {ls : List (SchedStep β)}
    (hordered : AllSteps (schedStep cfg) SchedSys.Ordered (.start cfg) ls)
    (hs : runs (schedStep cfg) (.start cfg) ls = some s) : s.PresenceCounts := by
  obtain ⟨⟨hbounds, σ, hrel⟩, hvalid, hcount⟩ := countInv_of_runs hranges hordered hs
  refine ⟨hcount.counts, fun r => ?_, fun slot i hslot hin => ?_, fun hpending hstage hsub r => ?_⟩
  · have hcounts := hcount.counts r
    have hle := ncard_countedIn_le s r
    have hleft := leftover_le s r
    omega
  · have hlt : i < s.queue.bucketCount := by
      rw [hbounds.count]
      refine hrel.inside i fun hfree => ?_
      have hset := hin.1
      rw [hrel.bit, hfree] at hset
      cases hset
    obtain ⟨r, hr⟩ := hvalid.covered i hlt
    have hmem : i ∈ s.countedIn r := ⟨hr, hcount.counted_of_returned hslot hin⟩
    have hpos := (Set.ncard_pos (finite_countedIn s r)).2 ⟨i, hmem⟩
    have hcounts := hcount.counts r
    exact ⟨r, hr, by omega⟩
  · rw [hcount.counts r, leftover_eq_zero hsub, countedIn_quiet hpending hstage, Nat.add_zero]

end

/-- One payload is in the hand of `sched_main` while the call of another one is on its way. -/
def meetingRun : List (SchedStep Bool) :=
  pushRun 0 true ++ (pushRun 1 true).take 4 ++ List.replicate 11 .sched

theorem presence_counts_of_ordered_meetingRun :
    ∃ t, runs (schedStep oneVrowConfig) (.start oneVrowConfig) meetingRun = some t ∧
      t.PresenceCounts := by
  have hrun : (runs (schedStep oneVrowConfig) (.start oneVrowConfig) meetingRun).isSome = true := by
    decide +kernel
  obtain ⟨t, ht⟩ := Option.isSome_iff_exists.1 hrun
  have hordered : AllSteps (schedStep oneVrowConfig) (fun s l => s.orderedBelow 2 l = true)
      (.start oneVrowConfig) meetingRun := by
    decide +kernel
  exact ⟨t, ht, presence_counts_of_ordered rfl (SchedSys.ordered_of_run hordered) ht⟩

/-- The bit that is set is that of bucket 1, and the bucket that is counted is bucket 0. -/
example : (runs (schedStep oneVrowConfig) (.start oneVrowConfig) meetingRun).map
    (fun s => (s.queue.smapDesc.map 0, s.queue.presence 3, s.pc.stage 0)) =
      some (2#64, 1, .unread) := by decide +kernel

/-- Six payloads of the priority real are pushed, as many as its range has buckets. -/
def fullRun : List (SchedStep Bool) :=
  (List.range 6).flatMap fun c => .push c true .priorReal :: List.replicate 5 (.pushStep c)

end AxVirtLayer
