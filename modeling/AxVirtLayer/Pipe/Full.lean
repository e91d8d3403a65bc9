import AxVirtLayer.Pipe.Open

/-!
# A full range

The range of the priority real is the last one of the queue.  When all its buckets are full,
`sync_map_unsig_first` passes over them (`dispatch_fails_iff`), and as long as one of them is
counted `bitpool_prior_unload_disp` selects this range before all others.

`full_real_stops` draws the conclusion for the runs: `sched_main` takes nothing out of the queue
any more, whatever the calls of `sched_push` and the threads of the vrows do.
-/

namespace AxVirtLayer

open Lib

section

variable {β : Type}

/-- `sched_main` has no bucket, and goes for none but those of the priority real. -/
def SchedPc.OnlyReal : SchedPc β → Prop
  | .disp _ left => left = [0, 1, 2]
  | .unsig _ r (.load _) => r = 0
  | .unsig _ _ (.claim _ _) | .unsig _ _ (.ret (some _)) => False
  | .pop _ _ | .load _ _ _ _ | .sigoff _ | .sub _ => False
  | _ => True

/-- The range of the priority real is full and counted. -/
structure SchedSys.RealFull (cfg : SchedConfig β) (s : SchedSys β) : Prop where
  full : ∀ i, (cfg.ranges 0).Has i → syncMapIssig s.queue.smapDesc.map i = true
  counted : 0 < s.queue.presence 0
  place : s.pc.OnlyReal

variable {cfg : SchedConfig β} {s s' : SchedSys β} {c : ℕ}

/-- A call of `sched_push` clears no bit. -/
lemma schedPushStep_set (hbounds : s.Bounds cfg) {push : Push β} (hpush : s.pushes c = some push)
    {queue : BitpoolDesc (Slot β)} {pc : PushPc}
    (hstep : schedPushStep s c push = some (queue, pc)) {i : ℕ}
    (hset : syncMapIssig s.queue.smapDesc.map i = true) :
    syncMapIssig queue.smapDesc.map i = true := by
  obtain ⟨payload, range, at'⟩ := push
  cases at' with
  | sig mapPc =>
    rcases mapPc with quad | ⟨quad, sigi⟩ | (_ | index)
    · obtain ⟨rfl, -⟩ := Prod.mk.inj (Option.some_injective _ hstep)
      exact hset
    · obtain ⟨hsigi, -⟩ := hbounds.push c _ quad sigi hpush rfl
      simp only [schedPushStep, MapCall.step_claim hsigi] at hstep
      obtain ⟨rfl, -⟩ := Prod.mk.inj (Option.some_injective _ hstep)
      show syncMapIssig (syncMapSigon s.queue.smapDesc.map (sigi + 64 * quad)) i = true
      rw [syncMapIssig_sigon, hset, Bool.true_or]
    all_goals
      obtain ⟨rfl, -⟩ := Prod.mk.inj (Option.some_injective _ hstep)
      exact hset
  | copy index | count index =>
    obtain ⟨rfl, -⟩ := Prod.mk.inj (Option.some_injective _ hstep)
    exact hset
  | done succ => cases hstep

namespace SchedSys.RealFull

lemma goOn (h : s.RealFull cfg) (hqueue : s'.queue = s.queue) (hplace : s'.pc.OnlyReal) :
    s'.RealFull cfg := by
  refine ⟨?_, ?_, hplace⟩
  · rw [hqueue]
    exact h.full
  · rw [hqueue]
    exact h.counted

/-- The search in the full range finds nothing. -/
lemma afterLoad (h : s.RealFull cfg) (hranges : cfg.ranges = defaultRanges) (hflow : s.FlowInv cfg)
    {vrowI quad : ℕ} (hpc : s.pc = .unsig vrowI 0 (.load quad)) :
    (rangeCall .unsigFirst (s.queue.ranges 0)).afterLoad s.queue.smapDesc.size quad
      (s.queue.smapDesc.map quad) = .ret none := by
  have hchosen := hflow.chosen.chosen
  rw [hpc] at hchosen
  obtain ⟨rfl, -⟩ := hchosen
  have hfirst : (cfg.ranges 0).Has (cfg.ranges 0).bitI := by
    rw [hranges]
    decide
  have hlast : (cfg.ranges 0).bitI + (cfg.ranges 0).bitN = 64 := by
    rw [hranges]
    decide
  have hfull : FirstQuadFull s.queue.smapDesc.map (cfg.ranges 0).bitI := by
    intro i hquad hle
    have hlow := hfirst.2
    exact h.full i ⟨hle, by omega⟩
  rw [hflow.queue.1.ranges, hflow.inMap.queue_size]
  rcases rangeCall_afterLoad (schedQueue_rangesOk hranges) hfirst (h.full _ hfirst) with
    ⟨-, hafter⟩ | ⟨hno, -⟩
  · exact hafter
  · exact absurd hfull hno

/-- **One step of `sched_main`.** -/
lemma sched (h : s.RealFull cfg) (hranges : cfg.ranges = defaultRanges) (hflow : s.FlowInv cfg)
    (hs : schedMainStep cfg s = some s') :
    s'.RealFull cfg ∧ s'.loaded = s.loaded ∧ s'.dispatched = s.dispatched := by
  have hplace := h.place
  cases hpc : s.pc with
  | closed | presence =>
    simp only [schedMainStep, hpc] at hs
    obtain rfl := Option.some_injective _ hs
    refine ⟨h.goOn rfl ?_, rfl, rfl⟩
    dsimp only
    split <;> trivial
  | vrow mapPc =>
    rcases mapPc with quad | ⟨quad, sigi⟩ | (_ | vrowI)
    · simp only [schedMainStep, hpc] at hs
      obtain rfl := Option.some_injective _ hs
      exact ⟨h.goOn rfl trivial, rfl, rfl⟩
    · simp only [schedMainStep, hpc] at hs
      obtain rfl := Option.some_injective _ hs
      exact ⟨h.goOn rfl trivial, rfl, rfl⟩
    · simp only [schedMainStep, hpc] at hs
      obtain rfl := Option.some_injective _ hs
      exact ⟨h.goOn rfl trivial, rfl, rfl⟩
    · simp only [schedMainStep, hpc] at hs
      obtain rfl := Option.some_injective _ hs
      exact ⟨h.goOn rfl rfl, rfl, rfl⟩
  | disp vrowI left =>
    rw [hpc] at hplace
    obtain rfl : left = [0, 1, 2] := hplace
    have hquota : s.disp 0 < (s.queue.ranges 0).bitDisp := by
      rw [hflow.chosen.disp, hflow.queue.1.ranges, hranges]
      decide
    have hstart : (rangeCall .unsigFirst (s.queue.ranges 0)).start s.queue.smapDesc.size =
        .load 0 := by
      rw [hflow.queue.1.ranges, hflow.inMap.queue_size]
      exact rangeCall_start (schedQueue_rangesOk hranges) .unsigFirst 0
    simp only [schedMainStep, hpc, if_pos h.counted, if_pos hquota, hstart] at hs
    obtain rfl := Option.some_injective _ hs
    exact ⟨h.goOn rfl rfl, rfl, rfl⟩
  | unsig vrowI r mapPc =>
    rw [hpc] at hplace
    rcases mapPc with quad | ⟨quad, sigi⟩ | (_ | bucketI)
    · obtain rfl : r = 0 := hplace
      simp only [schedMainStep, hpc, MapCall.step, h.afterLoad hranges hflow hpc] at hs
      obtain rfl := Option.some_injective _ hs
      exact ⟨h.goOn rfl trivial, rfl, rfl⟩
    · exact hplace.elim
    · simp only [schedMainStep, hpc] at hs
      obtain rfl := Option.some_injective _ hs
      exact ⟨h.goOn rfl trivial, rfl, rfl⟩
    · exact hplace.elim
  | back vrowI | terminate =>
    simp only [schedMainStep, hpc] at hs
    obtain rfl := Option.some_injective _ hs
    exact ⟨h.goOn rfl trivial, rfl, rfl⟩
  | pop vrowI bucketI | load vrowI bucketI call loadPc | sigoff bucketI | sub bucketI =>
    rw [hpc] at hplace
    exact hplace.elim
  | terminated => exact absurd hpc (schedMainStep_ne_terminated hs)

/-- **One step** of the scheduler. -/
lemma step (h : s.RealFull cfg) (hranges : cfg.ranges = defaultRanges) (hflow : s.FlowInv cfg)
    {l : SchedStep β} (hs : schedStep cfg s l = some s') :
    s'.RealFull cfg ∧ s'.loaded = s.loaded ∧ s'.dispatched = s.dispatched := by
  rcases schedStep_cases hs with ⟨c, payload, prior, push, -, -, -, rfl⟩ |
    ⟨c, push, queue, pc, -, hpush, hstep, rfl⟩ | ⟨-, hmain⟩ | ⟨vrowSmap, closed, vrows, -, rfl⟩
  · exact ⟨h.goOn rfl h.place, rfl, rfl⟩
  · exact ⟨⟨fun i hi => schedPushStep_set hflow.queue.1 hpush hstep (h.full i hi),
      hflow.count.presence_grow hflow.valid.shape hstep 0 h.counted, h.place⟩, rfl, rfl⟩
  · exact h.sched hranges hflow hmain
  · exact ⟨h.goOn rfl h.place, rfl, rfl⟩

end SchedSys.RealFull

/-- **A full range stops the scheduler** for good: when `sched_main` is at the head of its loop,
and the buckets of the priority real are all full and one of them is counted, then no payload is
taken out of the queue in any run that follows. -/
theorem full_real_stops (hranges : cfg.ranges = defaultRanges) (hsees : cfg.SeesAny)
    {ls ls' : List (SchedStep β)}
    (hordered : AllSteps (schedStep cfg) SchedSys.Ordered (.start cfg) (ls ++ ls'))
    (hs : runs (schedStep cfg) (.start cfg) ls = some s) (hpc : s.pc = .closed)
    (hfull : ∀ i, (cfg.ranges 0).Has i → syncMapIssig s.queue.smapDesc.map i = true)
    (hcounted : 0 < s.queue.presence 0) (hs' : runs (schedStep cfg) s ls' = some s') :
    s'.loaded = s.loaded ∧ s'.dispatched = s.dispatched ∧
      ∀ i, (cfg.ranges 0).Has i → syncMapIssig s'.queue.smapDesc.map i = true := by
  obtain ⟨hbefore, hafter⟩ := hordered.append
  have hplace : s.pc.OnlyReal := by
    rw [hpc]
    trivial
  have hstep : ∀ t l t', (t.FlowInv cfg ∧ t.RealFull cfg ∧ t.loaded = s.loaded ∧
      t.dispatched = s.dispatched) → t.Ordered l → schedStep cfg t l = some t' →
      t'.FlowInv cfg ∧ t'.RealFull cfg ∧ t'.loaded = s.loaded ∧ t'.dispatched = s.dispatched := by
    rintro t l t' ⟨hflow, hreal, hloaded, hdispatched⟩ hl ht
    obtain ⟨hreal', hloaded', hdispatched'⟩ := hreal.step hranges hflow ht
    exact ⟨hflow.step hranges hsees hl ht, hreal', hloaded'.trans hloaded,
      hdispatched'.trans hdispatched⟩
  obtain ⟨-, hreal, hloaded, hdispatched⟩ := inv_of_allSteps hstep
    ⟨flowInv_of_runs hranges hsees hbefore hs, ⟨hfull, hcounted, hplace⟩, rfl, rfl⟩
    (hafter s hs) hs'
  exact ⟨hloaded, hdispatched, hreal.full⟩

end

/-- A payload of the priority low is pushed, and `sched_main` goes round its loop. -/
def roundRun : List (SchedStep Bool) := pushRun 6 true ++ List.replicate 40 .sched

theorem full_real_stops_roundRun :
    ∃ t t', runs (schedStep oneVrowConfig) (.start oneVrowConfig) fullRun = some t ∧
      runs (schedStep oneVrowConfig) t roundRun = some t' ∧ t'.loaded = t.loaded ∧
      t'.dispatched = t.dispatched ∧ ∀ i, (oneVrowConfig.ranges 0).Has i →
        syncMapIssig t'.queue.smapDesc.map i = true := by
  have hrun : ∃ t ∈ runs (schedStep oneVrowConfig) (.start oneVrowConfig) fullRun,
      t.pc = .closed ∧ (∀ i < 64, (oneVrowConfig.ranges 0).Has i →
        syncMapIssig t.queue.smapDesc.map i = true) ∧ 0 < t.queue.presence 0 ∧
      (runs (schedStep oneVrowConfig) t roundRun).isSome = true := by
    decide +kernel
  obtain ⟨t, ht, hpc, hfull, hcounted, hsome⟩ := hrun
  obtain ⟨t', ht'⟩ := Option.isSome_iff_exists.1 hsome
  have hordered : AllSteps (schedStep oneVrowConfig) (fun s l => s.orderedBelow 7 l = true)
      (.start oneVrowConfig) (fullRun ++ roundRun) := by
    decide +kernel
  exact ⟨t, t', ht, ht', full_real_stops rfl seesAny_oneVrowConfig
    (SchedSys.ordered_of_run hordered) ht hpc (fun i hi => hfull i hi.2 hi) hcounted ht'⟩

end AxVirtLayer
