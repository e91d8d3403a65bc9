import AxVirtLayer.Pipe.Open
import Mathlib.Algebra.BigOperators.Group.Finset.Basic
import Mathlib.Algebra.Order.BigOperators.Group.Finset

/-!
# The queue runs empty

`pipe_drains` says that, when the calls of `sched_push` have returned, every payload in the queue
gets into a vrow and every vrow comes to rest, under every fair schedule of `sched_main` and the
threads of the vrows.  It asks that the range of the priority real is not full, for a full one is
never dispatched (`dispatch_fails_iff`).

`sched_main` goes round its loop while there is no vrow for it, and the thread of a vrow while
there is no payload.  The measure counts what is left to do: a payload in the queue is worth more
than the work it makes for a vrow, and the place of `sched_main` counts only while it can get on.
-/

namespace AxVirtLayer

open Lib

section

variable {β : Type}

/-! ## The measure -/

/-- The payload that `sched_main` has taken out of the queue and not given to a vrow yet. -/
def SchedPc.inHand : SchedPc β → ℕ
  | .unsig _ _ (.ret (some _)) | .pop _ _ | .load _ _ _ _ => 1
  | _ => 0

/-- What is left of a place where `sched_main` has no vrow: nothing but the last bucket if the
queue is empty, and no step that counts if there is no vrow. -/
def waitRank (size queued : ℕ) (free : Bool) (idle left : ℕ) : ℕ :=
  if queued = 0 then idle else if free then left else 20 + 2 * size

/-- The steps `sched_main` takes, at most, until it gives a payload to a vrow; `free` tells whether
one of the vrows of a quad and the quads after it is free. -/
def SchedPc.way (size queued : ℕ) (free : ℕ → Bool) : SchedPc β → ℕ
  | .load _ _ _ .fill => 1
  | .load _ _ _ (.store _) => 2
  | .load _ _ _ (.wait _) => 3
  | .pop _ _ => 4
  | .unsig _ _ (.ret none) => 19 + size
  | .unsig _ _ pc => 5 + pc.rank 1
  | .disp _ left => 9 + left.length
  | .vrow (.ret (some _)) => 13
  | .vrow (.claim _ _) => 14
  | .vrow (.load quad) => waitRank size queued (free 0) 0
      (if free quad then 13 + (MapPc.load quad).rank size
        else 18 + size + (MapPc.load quad).rank size)
  | .vrow (.ret none) => waitRank size queued (free 0) 0 (18 + size)
  | .presence => waitRank size queued (free 0) 0 (16 + size)
  | .closed => waitRank size queued (free 0) 0 (17 + size)
  | .sub _ => waitRank size queued (free 0) 1 (18 + size)
  | .sigoff _ => waitRank size queued (free 0) 2 (19 + size)
  | .back _ => 18 + size
  | .terminate | .terminated => 0

/-- `sched_main` can get on. -/
def SchedPc.getsOn (queued : ℕ) (free : Bool) : SchedPc β → Bool
  | .closed | .presence | .vrow (.load _) | .vrow (.ret none) => decide (queued ≠ 0) && free
  | .sigoff _ | .sub _ => decide (queued = 0) || free
  | _ => true

/-- The quads of the map of the vrows. -/
def SchedConfig.quads (cfg : SchedConfig β) : ℕ := cfg.vrowCount / 64 + 1

namespace SchedSys

variable (cfg : SchedConfig β) (s : SchedSys β)

/-- The full buckets of the queue. -/
def queuedSet : Finset ℕ :=
  (Finset.range 64).filter fun i => syncMapIssig s.queue.smapDesc.map i = true

/-- A vrow of the quad or of a quad after it is free. -/
def freeFrom (quad : ℕ) : Bool :=
  decide (∃ i < cfg.vrowCount, quad ≤ i / 64 ∧ syncMapIssig s.vrowSmap.map i = false)

/-- The place of `sched_main`. -/
def way : ℕ := s.pc.way cfg.quads s.queuedSet.card (s.freeFrom cfg)

/-- What is left to do. -/
def drainRank : ℕ :=
  (40 + 2 * cfg.quads) * (s.queuedSet.card + s.pc.inHand) +
    ∑ i ∈ Finset.range cfg.vrowCount, s.work i + s.way cfg

/-- `sched_main` can get on. -/
def mainHelps : Bool := s.pc.getsOn s.queuedSet.card (s.freeFrom cfg 0)

/-- The thread that can get on: `sched_main`, or the first vrow with work. -/
def drainHelper : SchedStep β :=
  if s.mainHelps cfg then .sched
  else .vrow (((List.range cfg.vrowCount).find? fun i => decide (0 < s.work i)).getD 0)

/-- The state of a scheduler that runs empty. -/
structure Draining : Prop where
  flow : s.FlowInv cfg
  inv : s.OpenInv cfg
  isOpen : s.closed = false
  /-- The calls of `sched_push` have returned. -/
  quiet : ∀ c push, s.pushes c = some push → ∃ succ, push.pc = .done succ
  /-- The range of the priority real is not full. -/
  room : ∃ i, (cfg.ranges 0).Has i ∧ syncMapIssig s.queue.smapDesc.map i = false

end SchedSys

variable {cfg : SchedConfig β} {s s' : SchedSys β} {i : ℕ}

lemma SchedSys.freeFrom_iff {quad : ℕ} : s.freeFrom cfg quad = true ↔
    ∃ i < cfg.vrowCount, quad ≤ i / 64 ∧ syncMapIssig s.vrowSmap.map i = false :=
  decide_eq_true_iff

lemma SchedSys.mem_queuedSet : i ∈ s.queuedSet ↔
    i < 64 ∧ syncMapIssig s.queue.smapDesc.map i = true := by
  rw [queuedSet, Finset.mem_filter, Finset.mem_range]

/-! ## The measure of a state -/

lemma waitRank_le {size queued idle left : ℕ} {free : Bool} (hidle : idle ≤ 20 + 2 * size)
    (hleft : left ≤ 20 + 2 * size) : waitRank size queued free idle left ≤ 20 + 2 * size := by
  rw [waitRank]
  split_ifs
  · exact hidle
  · exact hleft
  · exact le_rfl

/-- More free vrows make the way shorter. -/
lemma waitRank_mono {size queued idle left left' : ℕ} {free free' : Bool}
    (hfree : free = true → free' = true) (hleft : left' ≤ left) (hle : left' ≤ 20 + 2 * size) :
    waitRank size queued free' idle left' ≤ waitRank size queued free idle left := by
  rw [waitRank, waitRank]
  by_cases hq : queued = 0
  · rw [if_pos hq, if_pos hq]
  · rw [if_neg hq, if_neg hq]
    by_cases hf : free = true
    · rw [if_pos hf, if_pos (hfree hf)]
      exact hleft
    · rw [if_neg hf]
      split_ifs
      · exact hle
      · exact le_rfl

lemma MapPc.rank_load_le (size quad : ℕ) : (MapPc.load quad).rank size ≤ size + 2 :=
  MapPc.rank_le _ _

lemma SchedPc.way_mono (size queued : ℕ) {free free' : ℕ → Bool} (pc : SchedPc β)
    (hfree : ∀ quad, free quad = true → free' quad = true) :
    pc.way size queued free' ≤ pc.way size queued free := by
  cases pc with
  | vrow mapPc =>
    rcases mapPc with quad | ⟨quad, sigi⟩ | (_ | vrowI)
    · have hrank := MapPc.rank_load_le size quad
      refine waitRank_mono (hfree 0) ?_ ?_
      · by_cases hf : free quad = true
        · rw [if_pos hf, if_pos (hfree quad hf)]
        · rw [if_neg hf]
          split_ifs
          · omega
          · exact le_rfl
      · split_ifs
        · omega
        · omega
    · exact le_rfl
    · exact waitRank_mono (hfree 0) le_rfl (by omega)
    · exact le_rfl
  | closed | presence | sigoff bucketI | sub bucketI =>
    exact waitRank_mono (hfree 0) le_rfl (by omega)
  | unsig vrowI r mapPc =>
    rcases mapPc with quad | ⟨quad, sigi⟩ | (_ | index)
    all_goals exact le_rfl
  | load vrowI bucketI call loadPc =>
    cases loadPc
    all_goals exact le_rfl
  | _ => exact le_rfl

lemma SchedPc.way_le {size queued : ℕ} {free : ℕ → Bool} {pc : SchedPc β}
    (hdisp : ∀ vrowI left, pc = .disp vrowI left → left.length ≤ 3) :
    pc.way size queued free ≤ 20 + 2 * size := by
  cases pc with
  | vrow mapPc =>
    rcases mapPc with quad | ⟨quad, sigi⟩ | (_ | vrowI)
    · have hrank := MapPc.rank_load_le size quad
      refine waitRank_le (Nat.zero_le _) ?_
      split_ifs
      · omega
      · omega
    · show 14 ≤ 20 + 2 * size
      omega
    · exact waitRank_le (Nat.zero_le _) (by omega)
    · show 13 ≤ 20 + 2 * size
      omega
  | closed | presence | sigoff bucketI | sub bucketI => exact waitRank_le (by omega) (by omega)
  | disp vrowI left =>
    have hlen := hdisp vrowI left rfl
    show 9 + left.length ≤ 20 + 2 * size
    omega
  | unsig vrowI r mapPc =>
    have hrank := mapPc.rank_le 1
    rcases mapPc with quad | ⟨quad, sigi⟩ | (_ | index)
    · show 5 + (MapPc.load quad).rank 1 ≤ 20 + 2 * size
      omega
    · show 6 ≤ 20 + 2 * size
      omega
    · show 19 + size ≤ 20 + 2 * size
      omega
    · show 5 ≤ 20 + 2 * size
      omega
  | load vrowI bucketI call loadPc =>
    cases loadPc with
    | wait payload =>
      show 3 ≤ 20 + 2 * size
      omega
    | store payload =>
      show 2 ≤ 20 + 2 * size
      omega
    | fill =>
      show 1 ≤ 20 + 2 * size
      omega
  | pop vrowI bucketI =>
    show 4 ≤ 20 + 2 * size
    omega
  | back vrowI =>
    show 18 + size ≤ 20 + 2 * size
    omega
  | terminate | terminated => exact Nat.zero_le _

namespace SchedSys

/-- A step that counts by the place of `sched_main` alone. -/
lemma drainRank_lt (hqueued : s'.queuedSet.card + s'.pc.inHand = s.queuedSet.card + s.pc.inHand)
    (hwork : ∀ i, s'.work i = s.work i) (hway : s'.way cfg < s.way cfg) :
    s'.drainRank cfg < s.drainRank cfg := by
  have hsum : ∑ i ∈ Finset.range cfg.vrowCount, s'.work i =
      ∑ i ∈ Finset.range cfg.vrowCount, s.work i := Finset.sum_congr rfl fun i _ => hwork i
  rw [drainRank, drainRank, hqueued, hsum]
  exact Nat.add_lt_add_left hway _

lemma work_congr (hvrows : s'.vrows = s.vrows) (i : ℕ) : s'.work i = s.work i := by
  rw [work, work, hvrows]

lemma queuedSet_congr (hmap : s'.queue.smapDesc.map = s.queue.smapDesc.map) :
    s'.queuedSet = s.queuedSet := by
  rw [queuedSet, queuedSet, hmap]

lemma freeFrom_congr (hmap : s'.vrowSmap.map = s.vrowSmap.map) :
    s'.freeFrom cfg = s.freeFrom cfg := by
  funext quad
  rw [freeFrom, freeFrom, hmap]

/-- What a step of `sched_main` does to the measure: it lowers it, or nothing that matters is
changed, for `sched_main` cannot get on. -/
def MainStep (cfg : SchedConfig β) (s s' : SchedSys β) : Prop :=
  s'.drainRank cfg < s.drainRank cfg ∨
    s.mainHelps cfg = false ∧ s'.drainRank cfg = s.drainRank cfg ∧
      s'.drainHelper cfg = s.drainHelper cfg

/-- A step of `sched_main` that changes its place alone. -/
lemma MainStep.walk (hqueue : s'.queue.smapDesc.map = s.queue.smapDesc.map)
    (hvrow : s'.vrowSmap.map = s.vrowSmap.map) (hvrows : s'.vrows = s.vrows)
    (hhand : s'.pc.inHand = s.pc.inHand)
    (hway : s'.pc.way cfg.quads s.queuedSet.card (s.freeFrom cfg) <
      s.pc.way cfg.quads s.queuedSet.card (s.freeFrom cfg)) : MainStep cfg s s' := by
  refine Or.inl (drainRank_lt ?_ (work_congr hvrows) ?_)
  · rw [queuedSet_congr hqueue, hhand]
  · rw [way, queuedSet_congr hqueue, freeFrom_congr hvrow]
    exact hway

/-- A step of `sched_main` that cannot get on. -/
lemma MainStep.turn (hqueue : s'.queue.smapDesc.map = s.queue.smapDesc.map)
    (hvrow : s'.vrowSmap.map = s.vrowSmap.map) (hvrows : s'.vrows = s.vrows)
    (hhand : s'.pc.inHand = s.pc.inHand)
    (hway : s'.pc.way cfg.quads s.queuedSet.card (s.freeFrom cfg) =
      s.pc.way cfg.quads s.queuedSet.card (s.freeFrom cfg))
    (hstuck : s.pc.getsOn s.queuedSet.card (s.freeFrom cfg 0) = false)
    (hstuck' : s'.pc.getsOn s.queuedSet.card (s.freeFrom cfg 0) = false) :
    MainStep cfg s s' := by
  have hhelps : s.mainHelps cfg = false := hstuck
  have hhelps' : s'.mainHelps cfg = false := by
    rw [mainHelps, queuedSet_congr hqueue, freeFrom_congr hvrow]
    exact hstuck'
  refine Or.inr ⟨hhelps, ?_, ?_⟩
  · have hsum : ∑ i ∈ Finset.range cfg.vrowCount, s'.work i =
        ∑ i ∈ Finset.range cfg.vrowCount, s.work i :=
      Finset.sum_congr rfl fun i _ => work_congr hvrows i
    rw [drainRank, drainRank, hsum, hhand, way, queuedSet_congr hqueue, freeFrom_congr hvrow, hway]
    rfl
  · rw [drainHelper, drainHelper, hhelps, hhelps']
    simp only [work_congr hvrows]

lemma waitRank_empty {size queued idle left : ℕ} {free : Bool} (hq : queued = 0) :
    waitRank size queued free idle left = idle := if_pos hq

lemma waitRank_free {size queued idle left : ℕ} {free : Bool} (hq : queued ≠ 0)
    (hf : free = true) : waitRank size queued free idle left = left :=
  (if_neg hq).trans (if_pos hf)

lemma waitRank_stuck {size queued idle left : ℕ} {free : Bool} (hq : queued ≠ 0)
    (hf : free = false) : waitRank size queued free idle left = 20 + 2 * size := by
  rw [waitRank, if_neg hq, hf]
  rfl

/-- A step of `sched_main` that goes on round its loop: it gets on if there is a bucket and a vrow
for it, and also, with the last bucket to give back, if the queue is empty. -/
lemma MainStep.around (idle idle' : ℕ) {left left' : ℕ}
    (hqueue : s'.queue.smapDesc.map = s.queue.smapDesc.map)
    (hvrow : s'.vrowSmap.map = s.vrowSmap.map) (hvrows : s'.vrows = s.vrows)
    (hhand : s'.pc.inHand = s.pc.inHand)
    (hway : s.pc.way cfg.quads s.queuedSet.card (s.freeFrom cfg) =
      waitRank cfg.quads s.queuedSet.card (s.freeFrom cfg 0) idle left)
    (hway' : s'.pc.way cfg.quads s.queuedSet.card (s.freeFrom cfg) =
      waitRank cfg.quads s.queuedSet.card (s.freeFrom cfg 0) idle' left')
    (hempty : s.queuedSet.card = 0 → idle' < idle ∨ idle' = idle ∧
      s.pc.getsOn 0 (s.freeFrom cfg 0) = false ∧ s'.pc.getsOn 0 (s.freeFrom cfg 0) = false)
    (hfree : s.queuedSet.card ≠ 0 → s.freeFrom cfg 0 = true → left' < left)
    (hstuck : ∀ queued, queued ≠ 0 → s.pc.getsOn queued false = false ∧
      s'.pc.getsOn queued false = false) : MainStep cfg s s' := by
  by_cases hq : s.queuedSet.card = 0
  · rcases hempty hq with hlt | ⟨heq, hs, hs'⟩
    · refine .walk hqueue hvrow hvrows hhand ?_
      rwa [hway, hway', waitRank_empty hq, waitRank_empty hq]
    · refine .turn hqueue hvrow hvrows hhand ?_ ?_ ?_
      · rw [hway, hway', waitRank_empty hq, waitRank_empty hq, heq]
      · rwa [hq]
      · rwa [hq]
  by_cases hf : s.freeFrom cfg 0 = true
  · refine .walk hqueue hvrow hvrows hhand ?_
    rw [hway, hway', waitRank_free hq hf, waitRank_free hq hf]
    exact hfree hq hf
  · have hno : s.freeFrom cfg 0 = false := Bool.eq_false_of_not_eq_true hf
    obtain ⟨hs, hs'⟩ := hstuck _ hq
    refine .turn hqueue hvrow hvrows hhand ?_ ?_ ?_
    · rw [hway, hway', waitRank_stuck hq hno, waitRank_stuck hq hno]
    · rwa [hno]
    · rwa [hno]

/-! ## `sched_main` -/

lemma Draining.not_pending (h : s.Draining cfg) (i : ℕ) : ¬ s.Pending i := by
  rintro ⟨c, push, hpush, hpend⟩
  obtain ⟨succ, hdone⟩ := h.quiet c push hpush
  rw [hdone] at hpend
  exact hpend

/-- A range with a positive counter has a bucket in the queue. -/
lemma Draining.queued_of_presence (h : s.Draining cfg) {r : Fin 4} (hr : 0 < s.queue.presence r)
    (hstage : ∀ i, s.pc.stage i = .away) (hsub : ∀ i, s.pc ≠ .sub i) : s.queuedSet.card ≠ 0 := by
  obtain ⟨i, hhas, hset⟩ := h.flow.count.full_of_presence hr hstage hsub
  have hinside := h.flow.valid.shape.inside r
  have hcount := h.flow.queue.1.count
  have hlt := hhas.2
  exact Finset.card_ne_zero_of_mem (mem_queuedSet.2 ⟨by omega, hset⟩)

/-- A bucket in the queue is counted. -/
lemma Draining.presence_of_queued (h : s.Draining cfg) (hq : s.queuedSet.card ≠ 0) :
    ∃ r, s.queue.presence r ≠ 0 := by
  obtain ⟨i, hi⟩ := Finset.card_ne_zero.1 hq
  obtain ⟨hlt, hset⟩ := mem_queuedSet.1 hi
  obtain ⟨r, hr⟩ := h.flow.valid.covered i (hlt.trans_eq h.flow.queue.1.count.symm)
  have hmem : i ∈ s.countedIn r := ⟨hr, Or.inl hset, h.not_pending i⟩
  have hpos := (Set.ncard_pos (finite_countedIn s r)).2 ⟨i, hmem⟩
  have hcounts := h.flow.count.counts r
  exact ⟨r, by omega⟩

/-- `bitpool_presence_any` says whether a bucket is in the queue. -/
lemma Draining.presenceAny_iff (h : s.Draining cfg) (hsees : cfg.SeesAny) (hpc : s.pc = .presence) :
    cfg.presenceAny s.queue.presence = true ↔ s.queuedSet.card ≠ 0 := by
  rw [hsees]
  constructor
  · rintro ⟨r, hr⟩
    exact h.queued_of_presence (Nat.pos_of_ne_zero hr) (fun i => by rw [hpc]; rfl)
      (by rw [hpc]; nofun)
  · exact h.presence_of_queued

/-- While `sched_main` looks for a vrow, a bucket is in the queue. -/
lemma Draining.queued_of_vrow (h : s.Draining cfg) {mapPc : MapPc} (hpc : s.pc = .vrow mapPc) :
    s.queuedSet.card ≠ 0 := by
  have hchosen := h.flow.chosen.chosen
  rw [hpc] at hchosen
  obtain ⟨r, hr⟩ := hchosen
  exact h.queued_of_presence hr (fun i => by rw [hpc]; rfl) (by rw [hpc]; nofun)

/-- The places outside of the calls of the loop. -/
lemma getsOn_stuck {queued : ℕ} (hq : queued ≠ 0) :
    (decide (queued ≠ 0) && false) = false ∧ (decide (queued = 0) || false) = false := by
  rw [Bool.and_false, decide_eq_false hq]
  exact ⟨rfl, rfl⟩

/-- The head of the loop. -/
lemma Draining.main_closed (h : s.Draining cfg) (hpc : s.pc = .closed) :
    ∃ s', schedMainStep cfg s = some s' ∧ MainStep cfg s s' := by
  refine ⟨{ s with pc := .presence }, ?_, ?_⟩
  · rw [schedMainStep, hpc, h.isOpen]
    rfl
  · refine .around 0 0 rfl rfl rfl (by rw [hpc]; rfl) (by rw [hpc]; rfl) rfl
      (fun _ => Or.inr ⟨rfl, by rw [hpc]; rfl, rfl⟩) (fun _ _ => ?_) fun queued hq => ?_
    · omega
    · rw [hpc]
      exact ⟨(getsOn_stuck hq).1, (getsOn_stuck hq).1⟩

/-- The test of the counters. -/
lemma Draining.main_presence (h : s.Draining cfg) (hsees : cfg.SeesAny) (hpc : s.pc = .presence) :
    ∃ s', schedMainStep cfg s = some s' ∧ MainStep cfg s s' := by
  refine ⟨_, by rw [schedMainStep, hpc], ?_⟩
  by_cases hq : s.queuedSet.card = 0
  · rw [if_neg (fun hany => (h.presenceAny_iff hsees hpc).1 hany hq)]
    refine .around 0 0 rfl rfl rfl (by rw [hpc]; rfl) (by rw [hpc]; rfl) rfl
      (fun _ => Or.inr ⟨rfl, by rw [hpc]; rfl, rfl⟩) (fun hne => absurd hq hne) fun queued hq => ?_
    rw [hpc]
    exact ⟨(getsOn_stuck hq).1, (getsOn_stuck hq).1⟩
  · rw [if_pos ((h.presenceAny_iff hsees hpc).2 hq)]
    have hstart : (vrowCall cfg).start s.vrowSmap.size = .load 0 := by
      have hfrom : (vrowCall cfg).fromQuad = 0 := Nat.zero_div 64
      rw [MapCall.start, hfrom, h.inv.calm.inMap.vrow_size]
      exact if_neg (Nat.not_succ_le_zero _)
    rw [hstart]
    refine .around 0 0 rfl rfl rfl (by rw [hpc]; rfl) (by rw [hpc]; rfl) rfl
      (fun hzero => absurd hzero hq) (fun _ hfree => ?_) fun queued hq => ?_
    · have hrank := MapPc.rank_load_le cfg.quads 0
      rw [if_pos hfree]
      omega
    · rw [hpc]
      exact ⟨(getsOn_stuck hq).1, (getsOn_stuck hq).1⟩

lemma freeFrom_zero {quad : ℕ} (h : s.freeFrom cfg quad = true) : s.freeFrom cfg 0 = true := by
  obtain ⟨i, hi, -, hclear⟩ := freeFrom_iff.1 h
  exact freeFrom_iff.2 ⟨i, hi, Nat.zero_le _, hclear⟩

/-- The load of a quad finds a vrow, or there is none in the quad. -/
lemma vrow_afterLoad (hsize : s.vrowSmap.size = cfg.quads) {quad : ℕ} (hlast : quad < cfg.quads) :
    (∃ sigi, s.freeFrom cfg quad = true ∧
      (vrowCall cfg).afterLoad s.vrowSmap.size quad (s.vrowSmap.map quad) = .claim quad sigi) ∨
    (quad + 1 < cfg.quads ∧ s.freeFrom cfg (quad + 1) = s.freeFrom cfg quad ∧
      (vrowCall cfg).afterLoad s.vrowSmap.size quad (s.vrowSmap.map quad) = .load (quad + 1)) ∨
    (s.freeFrom cfg quad = false ∧
      (vrowCall cfg).afterLoad s.vrowSmap.size quad (s.vrowSmap.map quad) = .ret none) := by
  have hquad : (vrowCall cfg).fromQuad ≤ quad := (Nat.zero_div 64).le.trans (Nat.zero_le quad)
  have htakes : ∀ j, (vrowCall cfg).Takes s.vrowSmap.map j ↔
      syncMapIssig s.vrowSmap.map j = false :=
    fun j => (and_iff_left not_skips_sigFirst).trans (and_iff_right (Nat.zero_le j))
  have hbound := cfg.quad_le hlast
  have hto : (vrowCall cfg).toBitIndex = cfg.vrowCount := rfl
  rcases @MapCall.afterLoad_cases (vrowCall cfg) s.vrowSmap.size s.vrowSmap.map quad hquad with
    ⟨sigi, hsigi, hclear, hleast, hafter⟩ | ⟨hnone, hafter⟩
  · rw [hto, MapCall.desi_of_lt (by omega)] at hafter
    split_ifs at hafter with hbeyond
    · refine Or.inr (Or.inr ⟨?_, hafter⟩)
      by_contra hfree
      obtain ⟨j, hj, hle, hfalse⟩ := freeFrom_iff.1 (Bool.eq_true_of_not_eq_false hfree)
      by_cases hsame : j / 64 = quad
      · exact hleast j (by omega) hsame ((htakes j).2 hfalse)
      · omega
    · refine Or.inl ⟨sigi, freeFrom_iff.2 ⟨sigi + 64 * quad, by omega, ?_, (htakes _).1 hclear⟩,
        hafter⟩
      rw [MapCall.quad_eq hsigi]
  · have hnext : s.freeFrom cfg (quad + 1) = s.freeFrom cfg quad := by
      rw [Bool.eq_iff_iff, freeFrom_iff, freeFrom_iff]
      refine exists_congr fun j => and_congr_right fun _ => and_congr_left fun hfalse => ?_
      have hne : j / 64 ≠ quad := fun hsame => hnone j hsame ((htakes j).2 hfalse)
      omega
    split_ifs at hafter with hmore
    · exact Or.inr (Or.inl ⟨hsize ▸ hmore, hnext, hafter⟩)
    · refine Or.inr (Or.inr ⟨?_, hafter⟩)
      rw [← hnext]
      by_contra hfree
      obtain ⟨j, hj, hle, -⟩ := freeFrom_iff.1 (Bool.eq_true_of_not_eq_false hfree)
      have hquads : cfg.quads = cfg.vrowCount / 64 + 1 := rfl
      omega

/-- The search for a vrow. -/
lemma Draining.main_vrow (h : s.Draining cfg) {mapPc : MapPc} (hpc : s.pc = .vrow mapPc) :
    ∃ s', schedMainStep cfg s = some s' ∧ MainStep cfg s s' := by
  have hq := h.queued_of_vrow hpc
  have hsize : s.vrowSmap.size = cfg.quads := h.inv.calm.inMap.vrow_size
  have hmain := h.inv.calm.inMap.main
  rw [hpc] at hmain
  rcases mapPc with quad | ⟨quad, sigi⟩ | (_ | vrowI)
  · refine ⟨{ s with pc := .vrow ((vrowCall cfg).afterLoad s.vrowSmap.size quad
      (s.vrowSmap.map quad)) }, by rw [schedMainStep, hpc]; rfl, ?_⟩
    rcases vrow_afterLoad hsize hmain with ⟨sigi, hfree, hafter⟩ | ⟨hlt, hsame, hafter⟩ |
      ⟨hnone, hafter⟩
    · rw [hafter]
      refine .walk rfl rfl rfl (by rw [hpc]; rfl) ?_
      rw [hpc]
      show 14 < waitRank _ _ _ _ _
      rw [waitRank_free hq (freeFrom_zero hfree), if_pos hfree]
      show 14 < 13 + (cfg.quads - quad + 2)
      omega
    · rw [hafter]
      refine .around 0 0 rfl rfl rfl (by rw [hpc]; rfl) (by rw [hpc]; rfl) rfl
        (fun hzero => absurd hzero hq) (fun _ hfree => ?_) fun queued hq => ?_
      · have hrank : (MapPc.load (quad + 1)).rank cfg.quads < (MapPc.load quad).rank cfg.quads := by
          show cfg.quads - (quad + 1) + 2 < cfg.quads - quad + 2
          omega
        rw [hsame]
        split_ifs
        · omega
        · omega
      · rw [hpc]
        exact ⟨(getsOn_stuck hq).1, (getsOn_stuck hq).1⟩
    · rw [hafter]
      refine .around 0 0 rfl rfl rfl (by rw [hpc]; rfl) (by rw [hpc]; rfl) rfl
        (fun hzero => absurd hzero hq) (fun _ hfree => ?_) fun queued hq => ?_
      · rw [hnone]
        show 18 + cfg.quads < 18 + cfg.quads + (cfg.quads - quad + 2)
        omega
      · rw [hpc]
        exact ⟨(getsOn_stuck hq).1, (getsOn_stuck hq).1⟩
  · obtain ⟨hsigi, -⟩ := h.inv.calm.worker.claim quad sigi hpc
    refine ⟨_, by rw [schedMainStep, hpc], ?_⟩
    refine Or.inl (drainRank_lt ?_ (work_congr rfl) ?_)
    · rw [hpc]
      rfl
    · rw [way, way, hpc]
      exact Nat.lt_succ_self 13
  · refine ⟨{ s with pc := .closed }, by rw [schedMainStep, hpc], ?_⟩
    refine .around 0 0 rfl rfl rfl (by rw [hpc]; rfl) (by rw [hpc]; rfl) rfl
      (fun hzero => absurd hzero hq) (fun _ hfree => ?_) fun queued hq => ?_
    · omega
    · rw [hpc]
      exact ⟨(getsOn_stuck hq).1, (getsOn_stuck hq).1⟩
  · refine ⟨{ s with pc := .disp vrowI [0, 1, 2] }, by rw [schedMainStep, hpc], ?_⟩
    refine .walk rfl rfl rfl (by rw [hpc]; rfl) ?_
    rw [hpc]
    exact Nat.lt_succ_self 12

/-- The search in a range of the queue starts with its quad. -/
lemma Draining.start_load (h : s.Draining cfg) (hranges : cfg.ranges = defaultRanges) (r : Fin 4) :
    (rangeCall .unsigFirst (s.queue.ranges r)).start s.queue.smapDesc.size = .load 0 := by
  rw [h.flow.queue.1.ranges, h.flow.inMap.queue_size]
  exact rangeCall_start (schedQueue_rangesOk hranges) .unsigFirst r

/-- The loop over the priorities. -/
lemma Draining.main_disp (h : s.Draining cfg) (hranges : cfg.ranges = defaultRanges) {vrowI : ℕ}
    {left : List (Fin 4)} (hpc : s.pc = .disp vrowI left) :
    ∃ s', schedMainStep cfg s = some s' ∧ MainStep cfg s s' := by
  cases left with
  | nil =>
    refine ⟨_, by rw [schedMainStep, hpc], ?_⟩
    rw [h.start_load hranges]
    refine .walk rfl rfl rfl (by rw [hpc]; rfl) ?_
    rw [hpc]
    exact Nat.lt_succ_self 8
  | cons r left =>
    simp only [schedMainStep, hpc]
    split_ifs
    · refine ⟨_, rfl, ?_⟩
      rw [h.start_load hranges]
      refine .walk rfl rfl rfl (by rw [hpc]; rfl) ?_
      rw [hpc]
      show 8 < 9 + (left.length + 1)
      omega
    · refine ⟨_, rfl, .walk rfl rfl rfl (by rw [hpc]; rfl) ?_⟩
      rw [hpc]
      exact Nat.lt_succ_self (9 + left.length)
    · refine ⟨_, rfl, .walk rfl rfl rfl (by rw [hpc]; rfl) ?_⟩
      rw [hpc]
      exact Nat.lt_succ_self (9 + left.length)

/-- The `fetch_and` takes one bucket out of the queue. -/
lemma card_queuedSet_sigoff (s' : SchedSys β)
    (hmap : s'.queue.smapDesc.map = syncMapSigoff s.queue.smapDesc.map i) (hi : i < 64)
    (hset : syncMapIssig s.queue.smapDesc.map i = true) :
    s'.queuedSet.card + 1 = s.queuedSet.card := by
  have herase : s'.queuedSet = s.queuedSet.erase i := by
    ext j
    rw [mem_queuedSet, Finset.mem_erase, mem_queuedSet, hmap, syncMapIssig_sigoff,
      Bool.and_eq_true, decide_eq_true_eq]
    tauto
  rw [herase, Finset.card_erase_add_one (mem_queuedSet.2 ⟨hi, hset⟩)]

/-- The search for a bucket: it finds one, for the range is not full. -/
lemma Draining.main_unsig (h : s.Draining cfg) (hranges : cfg.ranges = defaultRanges) {vrowI : ℕ}
    {r : Fin 4} {mapPc : MapPc} (hpc : s.pc = .unsig vrowI r mapPc) :
    ∃ s', schedMainStep cfg s = some s' ∧ MainStep cfg s s' := by
  rcases mapPc with quad | ⟨quad, sigi⟩ | (_ | index)
  · have hok := schedQueue_rangesOk hranges
    have hchosen := h.flow.chosen.chosen
    rw [hpc] at hchosen
    obtain ⟨rfl, hpos⟩ := hchosen
    obtain ⟨i, hhas, hset⟩ := h.flow.count.full_of_presence hpos (fun i => by rw [hpc]; rfl)
      (by rw [hpc]; nofun)
    -- the bucket of the priority real that is not full is one of the quad
    have hfull : ¬ FirstQuadFull s.queue.smapDesc.map (cfg.ranges r).bitI := by
      intro hfull
      obtain ⟨j, hj, hclear⟩ := h.room
      have hall : ∀ r : Fin 4, (defaultRanges r).bitI ≤ (defaultRanges 0).bitI := by decide
      have hle : (cfg.ranges r).bitI ≤ (cfg.ranges 0).bitI := by
        rw [hranges]
        exact hall r
      have hinside : (cfg.ranges 0).bitI + (cfg.ranges 0).bitN ≤ 64 := hok.inside 0
      have hlow := hj.1
      have hhigh := hj.2
      rw [hfull j (by omega) (by omega)] at hclear
      cases hclear
    rw [h.flow.queue.1.ranges] at hhas
    obtain ⟨sigi, hafter⟩ := ((rangeCall_afterLoad hok hhas hset).resolve_left
      fun hyes => hfull hyes.1).2
    refine ⟨{ s with pc := .unsig vrowI r (.claim 0 sigi) }, ?_, ?_⟩
    · rw [schedMainStep, hpc]
      dsimp only [MapCall.step]
      rw [h.flow.queue.1.ranges, h.flow.inMap.queue_size, hafter]
      rfl
    · refine .walk rfl rfl rfl (by rw [hpc]; rfl) ?_
      rw [hpc]
      exact (by decide : 6 < 8)
  · obtain ⟨hsigi, hlt, hset⟩ := h.flow.queue.1.unsig vrowI r quad sigi hpc
    refine ⟨_, by rw [schedMainStep, hpc], ?_⟩
    rw [MapCall.step_claim hsigi]
    refine Or.inl (drainRank_lt ?_ (work_congr rfl) ?_)
    · have hcard := card_queuedSet_sigoff { s with
        queue := s.queue.setMap (syncMapSigoff s.queue.smapDesc.map (sigi + 64 * quad)) }
        rfl hlt hset
      rw [hpc]
      exact hcard
    · rw [way, way, hpc]
      exact Nat.lt_succ_self 5
  · refine ⟨{ s with pc := .back vrowI }, by rw [schedMainStep, hpc], ?_⟩
    refine .walk rfl rfl rfl (by rw [hpc]; rfl) ?_
    rw [hpc]
    show 18 + cfg.quads < 19 + cfg.quads
    omega
  · refine ⟨_, by rw [schedMainStep, hpc], ?_⟩
    refine .walk rfl rfl rfl (by rw [hpc]; rfl) ?_
    rw [hpc]
    exact Nat.lt_succ_self 4

/-- The `sync_map_sigoff` of a vrow: now it is free. -/
lemma Draining.main_back (h : s.Draining cfg) {vrowI : ℕ} (hpc : s.pc = .back vrowI) :
    ∃ s', schedMainStep cfg s = some s' ∧ MainStep cfg s s' := by
  have hvrowI : vrowI < cfg.vrowCount := h.flow.queue.1.held vrowI (by rw [hpc]; rfl)
  refine ⟨{ s with
    vrowSmap := { s.vrowSmap with map := syncMapSigoff s.vrowSmap.map vrowI }, pc := .closed },
    by rw [schedMainStep, hpc], Or.inl (drainRank_lt (by rw [hpc]; rfl) (work_congr rfl) ?_)⟩
  have hfree : freeFrom cfg { s with
      vrowSmap := { s.vrowSmap with map := syncMapSigoff s.vrowSmap.map vrowI }
      pc := .closed } 0 = true := by
    refine freeFrom_iff.2 ⟨vrowI, hvrowI, Nat.zero_le _, ?_⟩
    show syncMapIssig (syncMapSigoff s.vrowSmap.map vrowI) vrowI = false
    rw [syncMapIssig_sigoff, decide_eq_false (not_not.2 rfl), Bool.and_false]
  rw [way, way, hpc]
  show waitRank cfg.quads s.queuedSet.card (freeFrom cfg _ 0) 0 (17 + cfg.quads) < 18 + cfg.quads
  by_cases hq : s.queuedSet.card = 0
  · rw [waitRank_empty hq]
    omega
  · rw [waitRank_free hq hfree]
    omega

/-- `sched_pop`. -/
lemma Draining.main_pop (h : s.Draining cfg) {vrowI bucketI : ℕ} (hpc : s.pc = .pop vrowI bucketI) :
    ∃ s', schedMainStep cfg s = some s' ∧ MainStep cfg s s' := by
  obtain ⟨hbounds, σ, hrel⟩ := h.flow.queue
  have hlt : bucketI < 64 := hrel.lt_of_pop hpc
  have hvrowI : vrowI < cfg.vrowCount := hbounds.held vrowI (by rw [hpc]; rfl)
  have hcount := hbounds.count
  have hchecks : ¬ (vrowI ≥ cfg.vrowCount ∨ bucketI ≥ s.queue.bucketCount) := by omega
  refine ⟨_, by simp only [schedMainStep, hpc, if_neg hchecks]; rfl, ?_⟩
  refine .walk rfl rfl rfl (by rw [hpc]; rfl) ?_
  rw [hpc]
  exact Nat.lt_succ_self 3

/-- The work of a vrow is a matter of its flags. -/
lemma vrowWork_congr {vrow vrow' : Vrow β} (hstates : vrow'.states = vrow.states) (pc : VrowPc) :
    vrowWork vrow' pc = vrowWork vrow pc := by
  have hfilled : vrowIsFilled vrow' 0 = vrowIsFilled vrow 0 := by
    rw [vrowIsFilled, vrowIsFilled, hstates]
  cases pc with
  | loop | filled => rw [vrowWork, vrowWork, hfilled]
  | _ => rfl

/-- A vrow gets work, the others have what they had. -/
lemma sum_work_le {n : ℕ} (hother : ∀ j, j ≠ i → s'.work j = s.work j) {w : ℕ}
    (hown : s'.work i ≤ w) :
    ∑ j ∈ Finset.range n, s'.work j ≤ ∑ j ∈ Finset.range n, s.work j + w := by
  have hle : ∀ j ∈ Finset.range n, s'.work j ≤ s.work j + if j = i then w else 0 := by
    intro j _
    by_cases hj : j = i
    · rw [if_pos hj, hj]
      omega
    · rw [if_neg hj, hother j hj]
      exact le_rfl
  have hone : (∑ j ∈ Finset.range n, if j = i then w else 0) ≤ w := by
    rw [Finset.sum_ite_eq']
    split_ifs
    · exact le_rfl
    · exact Nat.zero_le w
  calc ∑ j ∈ Finset.range n, s'.work j
      ≤ ∑ j ∈ Finset.range n, (s.work j + if j = i then w else 0) := Finset.sum_le_sum hle
    _ = ∑ j ∈ Finset.range n, s.work j + ∑ j ∈ Finset.range n, if j = i then w else 0 :=
        Finset.sum_add_distrib
    _ ≤ ∑ j ∈ Finset.range n, s.work j + w := Nat.add_le_add_left hone _

/-- `vrow_bank_load`: the bank is empty, so it does not wait, and the payload becomes work. -/
lemma Draining.main_load (h : s.Draining cfg) {vrowI bucketI : ℕ} {call : Option ℕ}
    {loadPc : LoadPc β} (hpc : s.pc = .load vrowI bucketI call loadPc) :
    ∃ s', schedMainStep cfg s = some s' ∧ MainStep cfg s s' := by
  obtain ⟨-, hidle, hempty⟩ := (h.inv.calm.worker.vrow vrowI).held (by rw [hpc]; rfl)
  have hwork : ∀ vrow : Vrow β, vrow.states = (s.vrows vrowI).1.states → ∀ j,
      vrowWork (Function.update s.vrows vrowI (vrow, (s.vrows vrowI).2) j).1
        (Function.update s.vrows vrowI (vrow, (s.vrows vrowI).2) j).2 = s.work j := by
    intro vrow hstates j
    by_cases hj : j = vrowI
    · rw [hj, Function.update_self]
      exact vrowWork_congr hstates _
    · rw [Function.update_of_ne hj]
      rfl
  cases loadPc with
  | wait payload =>
    refine ⟨_, by simp only [schedMainStep, hpc, vrowBankLoadStep, hempty]; rfl, ?_⟩
    refine Or.inl (drainRank_lt (by rw [hpc]; rfl) (hwork _ rfl) ?_)
    rw [way, way, hpc]
    exact Nat.lt_succ_self 2
  | store payload =>
    refine ⟨_, by simp only [schedMainStep, hpc, vrowBankLoadStep]; rfl, ?_⟩
    refine Or.inl (drainRank_lt (by rw [hpc]; rfl) (hwork _ rfl) ?_)
    rw [way, way, hpc]
    exact Nat.lt_succ_self 1
  | fill =>
    refine ⟨_, by simp only [schedMainStep, hpc, vrowBankLoadStep]; rfl, Or.inl ?_⟩
    have hsum : ∑ j ∈ Finset.range cfg.vrowCount, SchedSys.work { s with
        vrows := Function.update s.vrows vrowI
          (vrowFillSwitch (s.vrows vrowI).1 0, (s.vrows vrowI).2)
        pc := .sigoff bucketI } j ≤
        ∑ j ∈ Finset.range cfg.vrowCount, s.work j + 18 := by
      refine sum_work_le (i := vrowI) (fun j hj => ?_) ?_
      · rw [work, work]
        dsimp only
        rw [Function.update_of_ne hj]
      · rw [work]
        dsimp only
        rw [Function.update_self]
        exact vrowWork_le _ hidle.leaving
    have hway : SchedPc.way cfg.quads s.queuedSet.card (s.freeFrom cfg)
        (.sigoff bucketI : SchedPc β) ≤ 20 + 2 * cfg.quads :=
      waitRank_le (by omega) (by omega)
    rw [drainRank, drainRank, hpc]
    show _ * s.queuedSet.card + _ + SchedPc.way cfg.quads s.queuedSet.card (s.freeFrom cfg)
      (.sigoff bucketI : SchedPc β) < _ * (s.queuedSet.card + 1) + _ + s.way cfg
    rw [Nat.mul_succ]
    omega

/-- The second `sync_map_sigoff` of a bucket: its bit is off already. -/
lemma Draining.main_sigoff (h : s.Draining cfg) {bucketI : ℕ} (hpc : s.pc = .sigoff bucketI) :
    ∃ s', schedMainStep cfg s = some s' ∧ MainStep cfg s s' := by
  obtain ⟨hbounds, σ, hrel⟩ := h.flow.queue
  have hstored : s.pc.stage bucketI = .stored := by
    rw [hpc]
    exact if_pos rfl
  have hbucketI : ¬ s.queue.bucketCount ≤ bucketI := by
    rw [hbounds.count, not_le]
    exact hrel.lt_of_stage (by rw [hstored]; nofun)
  have hclear : syncMapIssig s.queue.smapDesc.map bucketI = false := by
    have hhand := hrel.hand bucketI
    rw [hstored] at hhand
    rw [hrel.bit, hhand.eq_stored]
    rfl
  refine ⟨_, by simp only [schedMainStep, hpc, if_neg hbucketI]; rfl, ?_⟩
  refine .around 2 1 (syncMapSigoff_eq_self hclear) rfl rfl (by rw [hpc]; rfl) (by rw [hpc]; rfl)
    rfl (fun _ => Or.inl (Nat.lt_succ_self 1)) (fun _ _ => ?_) fun queued hq => ?_
  · omega
  · rw [hpc]
    exact ⟨(getsOn_stuck hq).2, (getsOn_stuck hq).2⟩

/-- The `fetch_sub` of a counter. -/
lemma Draining.main_sub (h : s.Draining cfg) {bucketI : ℕ} (hpc : s.pc = .sub bucketI) :
    ∃ s', schedMainStep cfg s = some s' ∧ MainStep cfg s s' := by
  obtain ⟨r, hr⟩ := h.flow.valid.covered bucketI (h.inv.calm.place.sub bucketI hpc)
  refine ⟨_, by
    simp only [schedMainStep, hpc, h.flow.valid.shape.indexToPresence hr, Option.map_some]; rfl, ?_⟩
  refine .around 1 0 rfl rfl rfl (by rw [hpc]; rfl) (by rw [hpc]; rfl)
    rfl (fun _ => Or.inl Nat.one_pos) (fun _ _ => ?_) fun queued hq => ?_
  · omega
  · rw [hpc]
    exact ⟨(getsOn_stuck hq).2, (getsOn_stuck hq).1⟩

/-- **One step of `sched_main`**: it is never stuck. -/
lemma Draining.main (h : s.Draining cfg) (hranges : cfg.ranges = defaultRanges)
    (hsees : cfg.SeesAny) : ∃ s', schedMainStep cfg s = some s' ∧ MainStep cfg s s' := by
  cases hpc : s.pc with
  | closed => exact h.main_closed hpc
  | presence => exact h.main_presence hsees hpc
  | vrow mapPc => exact h.main_vrow hpc
  | disp vrowI left => exact h.main_disp hranges hpc
  | unsig vrowI r mapPc => exact h.main_unsig hranges hpc
  | back vrowI => exact h.main_back hpc
  | pop vrowI bucketI => exact h.main_pop hpc
  | load vrowI bucketI call loadPc => exact h.main_load hpc
  | sigoff bucketI => exact h.main_sigoff hpc
  | sub bucketI => exact h.main_sub hpc
  | terminate => exact absurd hpc h.inv.running.1
  | terminated => exact absurd hpc h.inv.running.2

/-! ## The threads of the vrows -/

/-- **One step of a thread**: it has less work, or it waits. -/
lemma Draining.thread (h : s.Draining cfg) (hfuncs : cfg.funcs.Succeed)
    (hi : i < cfg.vrowCount) : ∃ s', schedStep cfg s (.vrow i) = some s' ∧
      (s'.drainRank cfg < s.drainRank cfg ∨ s.work i = 0 ∧
        s'.drainRank cfg = s.drainRank cfg ∧ s'.drainHelper cfg = s.drainHelper cfg) := by
  obtain ⟨vrow, signal, pc, hstep, hwork⟩ := h.inv.thread hfuncs hi
  refine ⟨_, hstep, ?_⟩
  have hother : ∀ j, j ≠ i → SchedSys.work { s with
      vrowSmap := { s.vrowSmap with map := signal.apply s.vrowSmap.map i }
      vrows := Function.update s.vrows i (vrow, pc) } j = s.work j := by
    intro j hj
    rw [work, work]
    dsimp only
    rw [Function.update_of_ne hj]
  have hown : SchedSys.work { s with
      vrowSmap := { s.vrowSmap with map := signal.apply s.vrowSmap.map i }
      vrows := Function.update s.vrows i (vrow, pc) } i = vrowWork vrow pc := by
    rw [work]
    dsimp only
    rw [Function.update_self]
  rcases hwork.work with ⟨hlt, -⟩ | ⟨hzero, hzero', -, rfl⟩
  · left
    have hsum : ∑ j ∈ Finset.range cfg.vrowCount, SchedSys.work { s with
        vrowSmap := { s.vrowSmap with map := signal.apply s.vrowSmap.map i }
        vrows := Function.update s.vrows i (vrow, pc) } j <
        ∑ j ∈ Finset.range cfg.vrowCount, s.work j := by
      refine Finset.sum_lt_sum (fun j _ => ?_) ⟨i, Finset.mem_range.2 hi, hown.trans_lt hlt⟩
      by_cases hj : j = i
      · rw [hj]
        exact (hown.trans_lt hlt).le
      · exact (hother j hj).le
    -- a vrow that was free is free now: its thread waits
    have hfree : ∀ quad, s.freeFrom cfg quad = true → SchedSys.freeFrom cfg { s with
        vrowSmap := { s.vrowSmap with map := signal.apply s.vrowSmap.map i }
        vrows := Function.update s.vrows i (vrow, pc) } quad = true := by
      intro quad hquad
      obtain ⟨j, hj, hle, hclear⟩ := freeFrom_iff.1 hquad
      refine freeFrom_iff.2 ⟨j, hj, hle, ?_⟩
      show syncMapIssig (signal.apply s.vrowSmap.map i) j = false
      rw [syncMapIssig_signal, hclear]
      split_ifs with hji
      · have hidle := ((h.inv.calm.worker.vrow i).free (hji ▸ hclear) (h.inv.staying i)).1
        cases signal with
        | keep => rfl
        | on => exact absurd hidle (hwork.on rfl)
        | off => rfl
      · rfl
    have hway := s.pc.way_mono cfg.quads s.queuedSet.card hfree
    rw [drainRank, drainRank]
    exact Nat.add_lt_add_of_lt_of_le (Nat.add_lt_add_left hsum _) hway
  · have hsame : ∀ j, SchedSys.work { s with
        vrowSmap := { s.vrowSmap with map := VrowSignal.keep.apply s.vrowSmap.map i }
        vrows := Function.update s.vrows i (vrow, pc) } j = s.work j := by
      intro j
      by_cases hj : j = i
      · rw [hj, hown, hzero']
        exact hzero.symm
      · exact hother j hj
    refine Or.inr ⟨hzero, ?_, ?_⟩
    · rw [drainRank, drainRank, Finset.sum_congr rfl fun j _ => hsame j]
      rfl
    · rw [drainHelper, drainHelper]
      simp only [hsame]
      rfl

/-! ## The steps keep the state -/

/-- `sched_main` changes the map of the queue where it takes a bucket and where it gives it
back. -/
lemma schedMainStep_map (hbounds : s.Bounds cfg) (hs : schedMainStep cfg s = some s') :
    s'.queue.smapDesc.map = s.queue.smapDesc.map ∨
      (∃ vrowI r quad sigi, s.pc = .unsig vrowI r (.claim quad sigi) ∧
        s'.queue.smapDesc.map = syncMapSigoff s.queue.smapDesc.map (sigi + 64 * quad)) ∨
      ∃ bucketI, s.pc = .sigoff bucketI ∧
        s'.queue.smapDesc.map = syncMapSigoff s.queue.smapDesc.map bucketI := by
  cases hpc : s.pc with
  | unsig vrowI r mapPc =>
    rcases mapPc with quad | ⟨quad, sigi⟩ | (_ | bucketI)
    · simp only [schedMainStep, hpc] at hs
      obtain rfl := Option.some_injective _ hs
      exact Or.inl rfl
    · obtain ⟨hsigi, -⟩ := hbounds.unsig vrowI r quad sigi hpc
      simp only [schedMainStep, hpc, MapCall.step_claim hsigi] at hs
      obtain rfl := Option.some_injective _ hs
      exact Or.inr (Or.inl ⟨vrowI, r, quad, sigi, rfl, rfl⟩)
    all_goals
      simp only [schedMainStep, hpc] at hs
      obtain rfl := Option.some_injective _ hs
      exact Or.inl rfl
  | vrow mapPc =>
    rcases mapPc with quad | ⟨quad, sigi⟩ | (_ | vrowI)
    all_goals
      simp only [schedMainStep, hpc] at hs
      obtain rfl := Option.some_injective _ hs
      exact Or.inl rfl
  | disp vrowI left =>
    cases left with
    | nil =>
      simp only [schedMainStep, hpc] at hs
      obtain rfl := Option.some_injective _ hs
      exact Or.inl rfl
    | cons r left =>
      simp only [schedMainStep, hpc] at hs
      split_ifs at hs
      all_goals
        obtain rfl := Option.some_injective _ hs
        exact Or.inl rfl
  | sigoff bucketI =>
    simp only [schedMainStep, hpc] at hs
    split_ifs at hs
    · obtain rfl := Option.some_injective _ hs
      exact Or.inl rfl
    · obtain rfl := Option.some_injective _ hs
      exact Or.inr (Or.inr ⟨bucketI, rfl, rfl⟩)
  | pop vrowI bucketI =>
    simp only [schedMainStep, hpc] at hs
    split_ifs at hs
    all_goals
      obtain rfl := Option.some_injective _ hs
      exact Or.inl rfl
  | sub bucketI =>
    simp only [schedMainStep, hpc] at hs
    obtain ⟨p, -, rfl⟩ := Option.map_eq_some_iff.1 hs
    exact Or.inl rfl
  | closed | presence | back vrowI | load vrowI bucketI call loadPc | terminate =>
    simp only [schedMainStep, hpc] at hs
    obtain rfl := Option.some_injective _ hs
    exact Or.inl rfl
  | terminated => exact absurd hpc (schedMainStep_ne_terminated hs)

/-- `sched_main` sets no bit of the queue. -/
lemma schedMainStep_clear (hbounds : s.Bounds cfg) (hs : schedMainStep cfg s = some s')
    (hi : syncMapIssig s.queue.smapDesc.map i = false) :
    syncMapIssig s'.queue.smapDesc.map i = false := by
  rcases schedMainStep_map hbounds hs with hmap | ⟨_, _, _, _, -, hmap⟩ | ⟨_, -, hmap⟩
  · rwa [hmap]
  · rw [hmap, syncMapIssig_sigoff, hi, Bool.false_and]
  · rw [hmap, syncMapIssig_sigoff, hi, Bool.false_and]

/-- The steps of a scheduler that runs empty are in order. -/
lemma Draining.ordered (h : s.Draining cfg) : s.Ordered .sched := by
  obtain ⟨-, σ, hrel⟩ := h.flow.queue
  constructor
  · rintro vrowI bucketI - c ⟨push, hpush, hwriting⟩
    obtain ⟨succ, hdone⟩ := h.quiet c push hpush
    rw [hdone] at hwriting
    exact hwriting
  · intro vrowI bucketI c payload hpc push hpush
    have hread : s.pc.stage bucketI = .read ⟨payload, some c⟩ := by
      rw [hpc]
      exact if_pos rfl
    have hhand := hrel.hand bucketI
    rw [hread] at hhand
    obtain ⟨c', hc', hslot⟩ := hhand.of_read
    obtain ⟨⟨c'', push', hpushed, hpush', hwritten⟩, -⟩ :=
      hrel.content bucketI c' (by rw [hc']; rfl)
    rw [← hslot] at hpushed
    obtain rfl : c = c'' := Option.some_injective _ (congrArg Slot.call hpushed)
    rw [hpush] at hpush'
    obtain rfl := Option.some_injective _ hpush'
    obtain ⟨succ, hdone⟩ := h.quiet c push hpush
    rw [hdone] at hwritten ⊢
    cases succ with
    | true => rfl
    | false => exact hwritten.elim

/-- The threads that run the scheduler empty. -/
def drainThreads (cfg : SchedConfig β) : List (SchedStep β) :=
  .sched :: (List.range cfg.vrowCount).map .vrow

lemma mem_drainThreads {a : SchedStep β} :
    a ∈ drainThreads cfg ↔ a = .sched ∨ ∃ i < cfg.vrowCount, a = .vrow i := by
  rw [drainThreads, List.mem_cons, List.mem_map]
  refine or_congr_right (exists_congr fun i => ?_)
  rw [List.mem_range]
  exact and_congr_right fun _ => eq_comm

/-- **One step** of a scheduler that runs empty. -/
lemma Draining.step (h : s.Draining cfg) (hranges : cfg.ranges = defaultRanges)
    (hsees : cfg.SeesAny) (hfuncs : cfg.funcs.Succeed) {a : SchedStep β}
    (ha : a ∈ drainThreads cfg) (hs : schedStep cfg s a = some s') :
    s'.Draining cfg ∧ s'.pushes = s.pushes := by
  rcases mem_drainThreads.1 ha with rfl | ⟨i, hi, rfl⟩
  · have hpushes := schedMainStep_pushes hs
    have hopen : s'.closed = false := (schedMainStep_closed hs).1.trans h.isOpen
    have hflow := h.flow.step hranges hsees h.ordered hs
    refine ⟨⟨hflow, h.inv.step hfuncs h.flow.queue hs hopen, hopen, ?_, ?_⟩, hpushes⟩
    · rw [hpushes]
      exact h.quiet
    · obtain ⟨i, hi, hclear⟩ := h.room
      exact ⟨i, hi, schedMainStep_clear h.flow.queue.1 hs hclear⟩
  · have hordered : s.Ordered (.vrow i) := trivial
    have hflow := h.flow.step hranges hsees hordered hs
    have hinv := h.inv.step hfuncs h.flow.queue hs
    obtain ⟨-, vrow, signal, pc, -, rfl⟩ := schedStep_vrow hs
    exact ⟨⟨hflow, hinv h.isOpen, h.isOpen, h.quiet, h.room⟩, rfl⟩

/-- Where `sched_main` cannot get on it holds no vrow and no payload; the queue is empty, or no
vrow is free. -/
lemma stuck_cases {pc : SchedPc β} {queued : ℕ} {free : ℕ → Bool} (size : ℕ)
    (hstuck : pc.getsOn queued (free 0) = false) : (∀ i, ¬ pc.Holds i) ∧ pc.inHand = 0 ∧
      (queued = 0 ∧ pc.way size queued free = 0 ∨ queued ≠ 0 ∧ free 0 = false) := by
  cases pc with
  | vrow mapPc =>
    rcases mapPc with quad | ⟨quad, sigi⟩ | (_ | vrowI)
    · refine ⟨fun _ => id, rfl, ?_⟩
      rcases Bool.and_eq_false_iff.1 hstuck with hq | hf
      · have hzero := not_not.1 (of_decide_eq_false hq)
        exact Or.inl ⟨hzero, waitRank_empty hzero⟩
      · by_cases hzero : queued = 0
        · exact Or.inl ⟨hzero, waitRank_empty hzero⟩
        · exact Or.inr ⟨hzero, hf⟩
    · cases hstuck
    · refine ⟨fun _ => id, rfl, ?_⟩
      rcases Bool.and_eq_false_iff.1 hstuck with hq | hf
      · have hzero := not_not.1 (of_decide_eq_false hq)
        exact Or.inl ⟨hzero, waitRank_empty hzero⟩
      · by_cases hzero : queued = 0
        · exact Or.inl ⟨hzero, waitRank_empty hzero⟩
        · exact Or.inr ⟨hzero, hf⟩
    · cases hstuck
  | closed | presence =>
    refine ⟨fun _ => id, rfl, ?_⟩
    by_cases hzero : queued = 0
    · exact Or.inl ⟨hzero, waitRank_empty hzero⟩
    · refine Or.inr ⟨hzero, (Bool.and_eq_false_iff.1 hstuck).resolve_left fun hq => ?_⟩
      exact of_decide_eq_false hq hzero
  | sigoff bucketI | sub bucketI =>
    obtain ⟨hq, hf⟩ := Bool.or_eq_false_iff.1 hstuck
    exact ⟨fun _ => id, rfl, Or.inr ⟨of_decide_eq_false hq, hf⟩⟩
  | _ => cases hstuck

/-- While something is left to do, `sched_main` can get on, or a vrow has work. -/
lemma Draining.drainHelper_cases (h : s.Draining cfg) (hcount : 0 < cfg.vrowCount)
    (hrank : s.drainRank cfg ≠ 0) :
    (s.mainHelps cfg = true ∧ s.drainHelper cfg = .sched) ∨
      ∃ i < cfg.vrowCount, 0 < s.work i ∧ s.drainHelper cfg = .vrow i := by
  by_cases hmain : s.mainHelps cfg = true
  · exact Or.inl ⟨hmain, if_pos hmain⟩
  right
  have hwork : ∃ i < cfg.vrowCount, 0 < s.work i := by
    obtain ⟨hnone, hhand, ⟨hzero, hway⟩ | ⟨-, hfree⟩⟩ :=
      stuck_cases cfg.quads (Bool.eq_false_of_not_eq_true hmain)
    · rw [drainRank, hzero, hhand, SchedSys.way, hzero] at hrank
      rw [hzero] at hway
      simp only [hway, Nat.add_zero, Nat.mul_zero, Nat.zero_add] at hrank
      obtain ⟨i, hi, hpos⟩ := Finset.exists_ne_zero_of_sum_ne_zero hrank
      exact ⟨i, Finset.mem_range.1 hi, Nat.pos_of_ne_zero hpos⟩
    · have hset : syncMapIssig s.vrowSmap.map 0 = true := by
        by_contra hclear
        rw [freeFrom_iff.2 ⟨0, hcount, Nat.zero_le _, Bool.eq_false_of_not_eq_true hclear⟩] at hfree
        cases hfree
      exact ⟨0, hcount, (h.inv.engaged 0 hset).resolve_left (hnone 0)⟩
  rw [drainHelper, if_neg hmain]
  cases hfind : (List.range cfg.vrowCount).find? fun i => decide (0 < s.work i) with
  | none =>
    obtain ⟨i, hi, hpos⟩ := hwork
    exact absurd (decide_eq_true hpos) (List.find?_eq_none.1 hfind i (List.mem_range.2 hi))
  | some i =>
    exact ⟨i, List.mem_range.1 (List.mem_of_find?_eq_some hfind),
      of_decide_eq_true (List.find?_some (p := fun i => decide (0 < s.work i)) hfind), rfl⟩

lemma Draining.helper_mem (h : s.Draining cfg) (hcount : 0 < cfg.vrowCount)
    (hrank : s.drainRank cfg ≠ 0) : s.drainHelper cfg ∈ drainThreads cfg := by
  rcases h.drainHelper_cases hcount hrank with ⟨-, hhelper⟩ | ⟨i, hi, -, hhelper⟩
  · rw [hhelper]
    exact mem_drainThreads.2 (Or.inl rfl)
  · rw [hhelper]
    exact mem_drainThreads.2 (Or.inr ⟨i, hi, rfl⟩)

lemma Draining.turn (h : s.Draining cfg) (hranges : cfg.ranges = defaultRanges)
    (hsees : cfg.SeesAny) (hfuncs : cfg.funcs.Succeed) {a : SchedStep β}
    (ha : a ∈ drainThreads cfg) : (turn (schedStep cfg) s a).Draining cfg ∧
      (Lib.turn (schedStep cfg) s a).pushes = s.pushes := by
  rcases turn_cases (schedStep cfg) s a with hsame | hs
  · rw [hsame]
    exact ⟨h, rfl⟩
  · exact h.step hranges hsees hfuncs ha hs

/-- The measure has a helpful thread. -/
lemma helpful_draining (hranges : cfg.ranges = defaultRanges) (hsees : cfg.SeesAny)
    (hfuncs : cfg.funcs.Succeed) (hcount : 0 < cfg.vrowCount) (pushes : ℕ → Option (Push β)) :
    Helpful (schedStep cfg) (fun s => s.Draining cfg ∧ s.pushes = pushes)
      (fun _ a => a ∈ drainThreads cfg) (drainRank cfg) (drainHelper cfg) where
  keep := by
    rintro s a ⟨h, hpushes⟩ ha
    obtain ⟨hkeep, hsame⟩ := h.turn hranges hsees hfuncs ha
    exact ⟨hkeep, hsame.trans hpushes⟩
  other := by
    rintro s a ⟨h, -⟩ ha
    rcases mem_drainThreads.1 ha with rfl | ⟨i, hi, rfl⟩
    · obtain ⟨s', hs', hstep⟩ := h.main hranges hsees
      rw [turn_of_some (show schedStep cfg s .sched = some s' from hs')]
      rcases hstep with hlt | ⟨-, hsame⟩
      · exact Or.inl hlt
      · exact Or.inr hsame
    · obtain ⟨s', hs', hlt | ⟨-, hsame⟩⟩ := h.thread hfuncs hi
      · rw [turn_of_some hs']
        exact Or.inl hlt
      · rw [turn_of_some hs']
        exact Or.inr hsame
  own := by
    rintro s ⟨h, -⟩ hrank -
    rcases h.drainHelper_cases hcount hrank with ⟨hmain, hhelper⟩ | ⟨i, hi, hpos, hhelper⟩
    · rw [hhelper]
      obtain ⟨s', hs', hstep⟩ := h.main hranges hsees
      rw [turn_of_some (show schedStep cfg s .sched = some s' from hs')]
      rcases hstep with hlt | ⟨hstuck, -⟩
      · exact hlt
      · rw [hmain] at hstuck
        cases hstuck
    · rw [hhelper]
      obtain ⟨s', hs', hlt | ⟨hzero, -⟩⟩ := h.thread hfuncs hi
      · rwa [turn_of_some hs']
      · omega

/-! ## The empty scheduler -/

/-- **The scheduler has run empty**, from the state `s` to the state `s'`. -/
structure Drained (cfg : SchedConfig β) (s s' : SchedSys β) : Prop where
  /-- Every payload whose push has returned `true` was copied into a vrow. -/
  loaded : ∀ slot, s.Returned slot → slot ∈ s'.loaded
  queue : ∀ i, syncMapIssig s'.queue.smapDesc.map i = false
  presence : ∀ r, s'.queue.presence r = 0
  /-- Every vrow is free, and its thread waits for a payload. -/
  vrows : ∀ i < cfg.vrowCount, syncMapIssig s'.vrowSmap.map i = false ∧ (s'.vrows i).2.Idle ∧
    vrowIsFilled (s'.vrows i).1 0 = false

/-- Where nothing is left to do, `sched_main` is at the head of its loop. -/
lemma Draining.pc_of_rank (h : s.Draining cfg) (hrank : s.drainRank cfg = 0) :
    s.pc = .closed ∨ s.pc = .presence := by
  obtain ⟨⟨hqueue, -⟩, hway⟩ : (_ ∧ _) ∧ s.way cfg = 0 := by
    rw [drainRank, Nat.add_eq_zero_iff, Nat.add_eq_zero_iff] at hrank
    exact hrank
  have hcards := (Nat.mul_eq_zero.1 hqueue).resolve_left (by omega)
  obtain ⟨hzero, hhand⟩ := Nat.add_eq_zero_iff.1 hcards
  rw [SchedSys.way, hzero] at hway
  cases hpc : s.pc with
  | closed => exact Or.inl rfl
  | presence => exact Or.inr rfl
  | vrow mapPc => exact absurd hzero (h.queued_of_vrow hpc)
  | disp vrowI left =>
    rw [hpc] at hway
    have hpos : 9 + left.length = 0 := hway
    omega
  | unsig vrowI r mapPc =>
    rw [hpc] at hway hhand
    rcases mapPc with quad | ⟨quad, sigi⟩ | (_ | index)
    · cases hway
    · cases hway
    · have hpos : 19 + cfg.quads = 0 := hway
      omega
    · cases hhand
  | back vrowI =>
    rw [hpc] at hway
    have hpos : 18 + cfg.quads = 0 := hway
    omega
  | pop vrowI bucketI | load vrowI bucketI call loadPc =>
    rw [hpc] at hhand
    cases hhand
  | sigoff bucketI | sub bucketI =>
    rw [hpc] at hway
    cases hway
  | terminate => exact absurd hpc h.inv.running.1
  | terminated => exact absurd hpc h.inv.running.2

lemma Draining.drained (h : s.Draining cfg) (hrank : s.drainRank cfg = 0) : s.Drained cfg s := by
  have hpc := h.pc_of_rank hrank
  obtain ⟨-, σ, hrel⟩ := h.flow.queue
  have haway : ∀ i, s.pc.stage i = .away := by
    intro i
    rcases hpc with hpc | hpc
    · rw [hpc]
      rfl
    · rw [hpc]
      rfl
  have hnone : ∀ i, ¬ s.pc.Holds i := by
    intro i
    rcases hpc with hpc | hpc
    · rw [hpc]
      exact id
    · rw [hpc]
      exact id
  have hsub : ∀ i, s.pc ≠ .sub i := by
    intro i hsub
    rcases hpc with hpc | hpc
    · rw [hpc] at hsub
      cases hsub
    · rw [hpc] at hsub
      cases hsub
  rw [drainRank, Nat.add_eq_zero_iff, Nat.add_eq_zero_iff] at hrank
  obtain ⟨⟨hqueue, hsum⟩, -⟩ := hrank
  have hcards := (Nat.mul_eq_zero.1 hqueue).resolve_left (by omega)
  have hempty := Finset.card_eq_zero.1 (Nat.add_eq_zero_iff.1 hcards).1
  have hclear : ∀ i, syncMapIssig s.queue.smapDesc.map i = false := by
    intro i
    by_contra hset
    have hset := Bool.eq_true_of_not_eq_false hset
    have hlt : i < 64 := hrel.inside i fun hfree => by
      rw [hrel.bit, hfree] at hset
      cases hset
    have hmem : i ∈ s.queuedSet := mem_queuedSet.2 ⟨hlt, hset⟩
    rw [hempty] at hmem
    cases hmem
  have hwork : ∀ i < cfg.vrowCount, s.work i = 0 := fun i hi =>
    Finset.sum_eq_zero_iff.1 hsum i (Finset.mem_range.2 hi)
  refine ⟨fun slot hslot => ?_, hclear, fun r => ?_, fun i hi => ?_⟩
  · obtain ⟨c, push, hc, -⟩ := hslot.pushed
    rcases hrel.placed slot c (by rw [hc]) hslot.pushed with ⟨i, hi⟩ | hmem
    · have hhand := hrel.hand i
      have hbit := hrel.bit i
      rw [haway] at hhand
      rw [hclear] at hbit
      cases hσ : σ i with
      | full c' =>
        rw [hσ] at hbit
        cases hbit
      | taken c' =>
        rw [hσ] at hhand
        exact hhand.elim
      | _ =>
        rw [hσ] at hi
        cases hi
    · exact hmem
  · by_contra hr
    obtain ⟨i, -, hset⟩ := h.flow.count.full_of_presence (Nat.pos_of_ne_zero hr) haway hsub
    rw [hclear] at hset
    cases hset
  · have hzero := hwork i hi
    rw [work] at hzero
    have hidle : (s.vrows i).2.Idle := by
      by_contra hbusy
      have hbusyRank := (VrowPc.rank_of_busy hbusy (h.inv.staying i)).1
      rw [vrowWork_of_not_idle _ hbusy] at hzero
      omega
    refine ⟨?_, hidle, ?_⟩
    · by_contra hset
      rcases h.inv.engaged i (Bool.eq_true_of_not_eq_false hset) with hheld | hpos
      · exact hnone i hheld
      · rw [hwork i hi] at hpos
        cases hpos
    · by_contra hfilled
      have hfilled := Bool.eq_true_of_not_eq_false hfilled
      rcases hidle with hidle | hidle
      · rw [hidle, vrowWork, if_pos hfilled] at hzero
        cases hzero
      · rw [hidle, vrowWork, if_pos hfilled] at hzero
        cases hzero

/-- The rounds that run the scheduler empty. -/
def drainRounds (cfg : SchedConfig β) : ℕ :=
  (40 + 2 * cfg.quads) * 65 + 18 * cfg.vrowCount + (20 + 2 * cfg.quads)

lemma Draining.rank_le (h : s.Draining cfg) : s.drainRank cfg ≤ drainRounds cfg := by
  have hqueued : s.queuedSet.card ≤ 64 := by
    have hsub : s.queuedSet ⊆ Finset.range 64 := Finset.filter_subset _ _
    exact (Finset.card_le_card hsub).trans_eq (Finset.card_range 64)
  have hhand : s.pc.inHand ≤ 1 := by
    cases s.pc with
    | unsig vrowI r mapPc =>
      rcases mapPc with quad | ⟨quad, sigi⟩ | (_ | index)
      · exact Nat.zero_le 1
      · exact Nat.zero_le 1
      · exact Nat.zero_le 1
      · exact le_rfl
    | pop vrowI bucketI | load vrowI bucketI call loadPc => exact le_rfl
    | _ => exact Nat.zero_le 1
  have hsum : ∑ i ∈ Finset.range cfg.vrowCount, s.work i ≤ cfg.vrowCount * 18 := by
    refine (Finset.sum_le_card_nsmul _ _ 18 fun i _ => vrowWork_le _ (h.inv.staying i)).trans_eq ?_
    exact congrArg (· * 18) (Finset.card_range cfg.vrowCount)
  have hway : s.way cfg ≤ 20 + 2 * cfg.quads := SchedPc.way_le h.inv.calm.place.disp
  have hmul := Nat.mul_le_mul_left (40 + 2 * cfg.quads)
    (show s.queuedSet.card + s.pc.inHand ≤ 65 by omega)
  rw [drainRank, drainRounds]
  omega

/-- The runs whose steps come in order, while the scheduler is open. -/
lemma openInv_of_runs (hranges : cfg.ranges = defaultRanges) (hsees : cfg.SeesAny)
    (hfuncs : cfg.funcs.Succeed) {ls : List (SchedStep β)}
    (hordered : AllSteps (schedStep cfg) SchedSys.Ordered (.start cfg) ls)
    (hs : runs (schedStep cfg) (.start cfg) ls = some s) :
    s.FlowInv cfg ∧ (s.closed = false → s.OpenInv cfg) := by
  refine inv_of_allSteps (I := fun s => s.FlowInv cfg ∧ (s.closed = false → s.OpenInv cfg))
    (fun s l s' h hl hs => ⟨h.1.step hranges hsees hl hs, fun hopen => ?_⟩)
    ⟨flowInv_start hranges, fun _ => openInv_start hranges⟩ hordered hs
  have hopen' : s.closed = false := by
    by_contra hclosed
    rw [(schedStep_closed hs).1 (Bool.eq_true_of_not_eq_false hclosed)] at hopen
    cases hopen
  exact (h.2 hopen').step hfuncs h.1.queue hs hopen

end SchedSys

open SchedSys

/-- **The queue runs empty** under every fair schedule of `sched_main` and the threads of the
vrows, when the calls of `sched_push` have returned, if the range of the priority real is not
full and the functions of the banks do not fail. -/
theorem pipe_drains (hranges : cfg.ranges = defaultRanges) (hsees : cfg.SeesAny)
    (hfuncs : cfg.funcs.Succeed) (hcount : 0 < cfg.vrowCount) {ls : List (SchedStep β)}
    (hordered : AllSteps (schedStep cfg) SchedSys.Ordered (.start cfg) ls)
    (hs : runs (schedStep cfg) (.start cfg) ls = some s) (hopen : s.closed = false)
    (hquiet : ∀ c push, s.pushes c = some push → ∃ succ, push.pc = .done succ)
    (hroom : ∃ i, (cfg.ranges 0).Has i ∧ syncMapIssig s.queue.smapDesc.map i = false)
    {rs : List (List (SchedStep β))} (hfair : ∀ r ∈ rs, ∀ thread ∈ drainThreads cfg, thread ∈ r)
    (honly : ∀ r ∈ rs, ∀ thread ∈ r, thread ∈ drainThreads cfg)
    (hlen : drainRounds cfg ≤ rs.length) :
    Drained cfg s (turns (schedStep cfg) s rs.flatten) := by
  obtain ⟨hflow, hinv⟩ := openInv_of_runs hranges hsees hfuncs hordered hs
  have hdraining : s.Draining cfg := ⟨hflow, hinv hopen, hopen, hquiet, hroom⟩
  have hturns : AllTurns (schedStep cfg) (fun _ a => a ∈ drainThreads cfg) s rs.flatten := by
    refine allTurns_of_mem fun _ a ha => ?_
    obtain ⟨r, hr, har⟩ := List.mem_flatten.1 ha
    exact honly r hr a har
  obtain ⟨⟨hend, hpushes⟩, hzero⟩ :=
    (helpful_draining hranges hsees hfuncs hcount s.pushes).rounds
      (fun t ht hrank => ht.1.helper_mem hcount hrank) hfair ⟨hdraining, rfl⟩ hturns
      (hdraining.rank_le.trans hlen)
  have hdrained := hend.drained hzero
  refine ⟨fun slot hslot => ?_, hdrained.queue, hdrained.presence, hdrained.vrows⟩
  exact hdrained.loaded slot ((QueueRel.returned_congr hpushes slot).2 hslot)

end

/-- One vrow, for payloads that are all valid. -/
def validConfig : SchedConfig Bool :=
  { oneVrowConfig with funcs := ⟨some fun payload => (fun _ => payload, true), true⟩ }

/-- Three payloads are pushed and the first one is processed. -/
def threeRun : List (SchedStep Bool) :=
  pushRun 0 true ++ pushRun 1 false ++ pushRun 2 true ++ List.replicate 18 .sched ++
    List.replicate 7 (.vrow 0)

/-- The threads take turns. -/
def drainTurns : List (List (SchedStep Bool)) :=
  List.replicate (SchedSys.drainRounds validConfig) (SchedSys.drainThreads validConfig)

theorem pipe_drains_threeRun :
    ∃ t, runs (schedStep validConfig) (.start validConfig) threeRun = some t ∧
      SchedSys.Drained validConfig t (turns (schedStep validConfig) t drainTurns.flatten) := by
  have hrun : ∃ t ∈ runs (schedStep validConfig) (.start validConfig) threeRun,
      t.closed = false ∧
      (∀ c < 3, (t.pushes c).all fun push => decide (push.pc = .done true)) ∧
      syncMapIssig t.queue.smapDesc.map (defaultRanges 0).bitI = false := by
    decide +kernel
  obtain ⟨t, ht, hopen, hdone, hclear⟩ := hrun
  have hordered : AllSteps (schedStep validConfig) (fun s l => s.orderedBelow 3 l = true)
      (.start validConfig) threeRun := by
    decide +kernel
  have hfuncs : validConfig.funcs.Succeed := ⟨⟨_, rfl, fun _ => rfl⟩, rfl⟩
  have hquiet : ∀ c push, t.pushes c = some push → ∃ succ, push.pc = .done succ := by
    intro c push hpush
    by_cases hc : c < 3
    · have hpc := hdone c hc
      rw [hpush] at hpc
      exact ⟨true, of_decide_eq_true hpc⟩
    · have hnone : t.pushes c = none := pushes_of_runs ht fun payload prior hmem => by
        simp only [threeRun, pushRun, List.mem_append, List.mem_cons, List.mem_replicate,
          SchedStep.push.injEq, reduceCtorEq, and_false, or_false] at hmem
        omega
      rw [hnone] at hpush
      cases hpush
  have hturns : ∀ r ∈ drainTurns, r = SchedSys.drainThreads validConfig := fun r hr =>
    List.eq_of_mem_replicate hr
  have hranges : validConfig.ranges = defaultRanges := rfl
  have hsees : validConfig.SeesAny := seesAny_oneVrowConfig
  exact ⟨t, ht, pipe_drains hranges hsees hfuncs Nat.one_pos (SchedSys.ordered_of_run hordered) ht
    hopen hquiet ⟨_, by decide, hclear⟩
    (fun r hr thread hthread => (hturns r hr).symm ▸ hthread)
    (fun r hr thread hthread => hturns r hr ▸ hthread) (List.length_replicate ..).ge⟩

end AxVirtLayer
