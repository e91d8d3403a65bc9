import AxVirtLayer.Pipe.Open

/-!
# Priority order

In which order `sched_main` serves the ranges of the queue while calls of `sched_push` go on.
The dispositions are meant to mix the ranges, but none is ever counted up (`ChosenInv`), and a
dispatch takes the first range with a positive counter.

`priority_strict` says what this comes to: a payload whose push has returned is overtaken by no
payload of a lower priority whose dispatch begins while it waits.
-/

namespace AxVirtLayer

open Lib

section

variable {β : Type}

/-- A dispatch of `sched_main` has not passed over the range `r`. -/
def SchedPc.Prefers (r : Fin 4) : SchedPc β → Prop
  | .disp _ left => left.Pairwise (· ≤ ·) ∧ (r ∈ left ∨ r = 3)
  | .unsig _ q _ => q ≤ r
  | _ => True

/-- The payload waits in its bucket, a bucket of the range `r`, and no dispatch has passed over
the range. -/
structure SchedSys.Waits (slot : Slot β) (r : Fin 4) (i : ℕ) (s : SchedSys β) : Prop where
  returned : s.Returned slot
  range : (s.queue.ranges r).Has i
  place : s.pc.Prefers r

variable {cfg : SchedConfig β} {s s' : SchedSys β} {c i : ℕ} {r : Fin 4} {slot : Slot β}

/-- The range of a payload that waits is not empty. -/
lemma SchedSys.Waits.presence (h : s.Waits slot r i) (hcount : s.CountInv)
    (hbucket : s.InBucket slot i) : 0 < s.queue.presence r := by
  have hmem : i ∈ s.countedIn r := ⟨h.range, hcount.counted_of_returned h.returned hbucket⟩
  have hpos := (Set.ncard_pos (finite_countedIn s r)).2 ⟨i, hmem⟩
  have hcounts := hcount.counts r
  omega

/-- A push that has returned has returned for good. -/
lemma schedStep_returned {l : SchedStep β} (hs : schedStep cfg s l = some s')
    (h : s.Returned slot) : s'.Returned slot := by
  rcases schedStep_cases hs with ⟨c, payload, prior, push, -, hnone, -, rfl⟩ |
    ⟨c, push, queue, pc, -, hpush, hstep, rfl⟩ | ⟨-, hmain⟩ | ⟨vrowSmap, closed, vrows, -, rfl⟩
  · obtain ⟨c', push', rfl, hpush', hdone⟩ := h
    have hc : c' ≠ c := by
      rintro rfl
      rw [hnone] at hpush'
      cases hpush'
    exact ⟨c', push', rfl, (Function.update_of_ne hc _ _).trans hpush', hdone⟩
  · refine returned_update hpush (fun hdone => ?_) rfl h
    rw [schedPushStep, hdone] at hstep
    cases hstep
  · exact (QueueRel.returned_congr (schedMainStep_pushes hmain) slot).2 h
  · exact h

/-- A step of `sched_main` that goes on. -/
lemma SchedSys.Waits.goOn (h : s.Waits slot r i) (hpushes : s'.pushes = s.pushes)
    (hranges : s'.queue.ranges = s.queue.ranges) (hplace : s'.pc.Prefers r) :
    s'.Waits slot r i where
  returned := (QueueRel.returned_congr hpushes slot).2 h.returned
  range := by
    rw [hranges]
    exact h.range
  place := hplace

/-- **One step of `sched_main`**: what it dispatches is not from a lower range. -/
lemma SchedSys.Waits.sched (h : s.Waits slot r i) (hranges : cfg.ranges = defaultRanges)
    (hflow : s.FlowInv cfg) (hbucket : s.InBucket slot i) (hs : schedMainStep cfg s = some s') :
    s'.Waits slot r i ∧
      (s'.dispatched = s.dispatched ∨ ∃ q ≤ r, s'.dispatched = q :: s.dispatched) := by
  have hpresence := h.presence hflow.count hbucket
  have hplace := h.place
  cases hpc : s.pc with
  | closed | presence =>
    simp only [schedMainStep, hpc] at hs
    obtain rfl := Option.some_injective _ hs
    refine ⟨h.goOn rfl rfl ?_, Or.inl rfl⟩
    dsimp only
    split <;> trivial
  | vrow mapPc =>
    rcases mapPc with quad | ⟨quad, sigi⟩ | (_ | vrowI)
    · simp only [schedMainStep, hpc] at hs
      obtain rfl := Option.some_injective _ hs
      exact ⟨h.goOn rfl rfl trivial, Or.inl rfl⟩
    · simp only [schedMainStep, hpc] at hs
      obtain rfl := Option.some_injective _ hs
      exact ⟨h.goOn rfl rfl trivial, Or.inl rfl⟩
    · simp only [schedMainStep, hpc] at hs
      obtain rfl := Option.some_injective _ hs
      exact ⟨h.goOn rfl rfl trivial, Or.inl rfl⟩
    · simp only [schedMainStep, hpc] at hs
      obtain rfl := Option.some_injective _ hs
      have hall : ∀ r : Fin 4, r ∈ [0, 1, 2] ∨ r = 3 := by decide
      exact ⟨h.goOn rfl rfl ⟨by decide, hall r⟩, Or.inl rfl⟩
  | disp vrowI left =>
    rw [hpc] at hplace
    obtain ⟨hsorted, hmem⟩ := hplace
    cases left with
    | nil =>
      simp only [schedMainStep, hpc] at hs
      obtain rfl := Option.some_injective _ hs
      obtain rfl := hmem.resolve_left List.not_mem_nil
      exact ⟨h.goOn rfl rfl le_rfl, Or.inl rfl⟩
    | cons q left =>
      have hquota : s.disp q < (s.queue.ranges q).bitDisp := by
        have hbitDisp : ∀ q, 0 < (defaultRanges q).bitDisp := by decide
        rw [hflow.chosen.disp, hflow.queue.1.ranges, hranges]
        exact hbitDisp q
      have hle : q ≤ r := by
        rcases hmem with hmem | rfl
        · rcases List.mem_cons.1 hmem with rfl | hmem
          · exact le_rfl
          · exact (List.pairwise_cons.1 hsorted).1 r hmem
        · exact Fin.le_last q
      by_cases hq : 0 < s.queue.presence q
      · simp only [schedMainStep, hpc, if_pos hq, if_pos hquota] at hs
        obtain rfl := Option.some_injective _ hs
        exact ⟨h.goOn rfl rfl hle, Or.inl rfl⟩
      · simp only [schedMainStep, hpc, if_neg hq] at hs
        obtain rfl := Option.some_injective _ hs
        -- the range of the payload is not the one that was passed over
        have hne : r ≠ q := by
          rintro rfl
          exact hq hpresence
        refine ⟨h.goOn rfl rfl ⟨(List.pairwise_cons.1 hsorted).2, ?_⟩, Or.inl rfl⟩
        exact hmem.imp_left fun hmem => (List.mem_cons.1 hmem).resolve_left hne
  | unsig vrowI q mapPc =>
    rw [hpc] at hplace
    rcases mapPc with quad | ⟨quad, sigi⟩ | (_ | bucketI)
    · simp only [schedMainStep, hpc] at hs
      obtain rfl := Option.some_injective _ hs
      exact ⟨h.goOn rfl rfl hplace, Or.inl rfl⟩
    · simp only [schedMainStep, hpc] at hs
      obtain rfl := Option.some_injective _ hs
      exact ⟨h.goOn rfl rfl hplace, Or.inl rfl⟩
    · simp only [schedMainStep, hpc] at hs
      obtain rfl := Option.some_injective _ hs
      exact ⟨h.goOn rfl rfl trivial, Or.inl rfl⟩
    · simp only [schedMainStep, hpc] at hs
      obtain rfl := Option.some_injective _ hs
      exact ⟨h.goOn rfl rfl trivial, Or.inr ⟨q, hplace, rfl⟩⟩
  | back vrowI | terminate =>
    simp only [schedMainStep, hpc] at hs
    obtain rfl := Option.some_injective _ hs
    exact ⟨h.goOn rfl rfl trivial, Or.inl rfl⟩
  | pop vrowI bucketI | sigoff bucketI =>
    simp only [schedMainStep, hpc] at hs
    split_ifs at hs
    all_goals
      obtain rfl := Option.some_injective _ hs
      exact ⟨h.goOn rfl rfl trivial, Or.inl rfl⟩
  | load vrowI bucketI call loadPc =>
    simp only [schedMainStep, hpc] at hs
    obtain rfl := Option.some_injective _ hs
    refine ⟨h.goOn rfl rfl ?_, Or.inl rfl⟩
    dsimp only
    split <;> trivial
  | sub bucketI =>
    simp only [schedMainStep, hpc] at hs
    obtain ⟨p, -, rfl⟩ := Option.map_eq_some_iff.1 hs
    exact ⟨h.goOn rfl rfl trivial, Or.inl rfl⟩
  | terminated => exact absurd hpc (schedMainStep_ne_terminated hs)

/-- **One step** of the scheduler. -/
lemma SchedSys.Waits.step (h : s.Waits slot r i) (hranges : cfg.ranges = defaultRanges)
    (hflow : s.FlowInv cfg) (hbucket : s.InBucket slot i) {l : SchedStep β}
    (hs : schedStep cfg s l = some s') : s'.Waits slot r i ∧
      (s'.dispatched = s.dispatched ∨ ∃ q ≤ r, s'.dispatched = q :: s.dispatched) := by
  by_cases hl : l = .sched
  · subst hl
    exact h.sched hranges hflow hbucket hs
  obtain ⟨hpc, -, hdispatched, -, hsame, -⟩ := schedStep_frame hs hl
  refine ⟨⟨schedStep_returned hs h.returned, ?_, ?_⟩, Or.inl hdispatched⟩
  · rw [hsame]
    exact h.range
  · rw [hpc]
    exact h.place

/-- **Priorities are strict.**  From a state in which `sched_main` is at the head of its loop, as
long as a payload whose push has returned waits in a bucket of the range `r`, what is dispatched
is from `r` or a range of a higher priority. -/
theorem priority_strict (hranges : cfg.ranges = defaultRanges) (hsees : cfg.SeesAny)
    {ls ls' : List (SchedStep β)}
    (hordered : AllSteps (schedStep cfg) SchedSys.Ordered (.start cfg) (ls ++ ls'))
    (hs : runs (schedStep cfg) (.start cfg) ls = some s) (hpc : s.pc = .closed)
    (hreturned : s.Returned slot) (hrange : (cfg.ranges r).Has i)
    (hwaits : AllSteps (schedStep cfg) (fun t _ => t.InBucket slot i) s ls')
    (hs' : runs (schedStep cfg) s ls' = some s') :
    ∃ new, s'.dispatched = new ++ s.dispatched ∧ ∀ q ∈ new, q ≤ r := by
  obtain ⟨hbefore, hafter⟩ := hordered.append
  have hflow := flowInv_of_runs hranges hsees hbefore hs
  have hstart : s.Waits slot r i := by
    refine ⟨hreturned, ?_, ?_⟩
    · rw [hflow.queue.1.ranges]
      exact hrange
    · rw [hpc]
      trivial
  have hstep : ∀ t l t', (t.FlowInv cfg ∧ t.Waits slot r i ∧
      ∃ new, t.dispatched = new ++ s.dispatched ∧ ∀ q ∈ new, q ≤ r) →
      t.Ordered l ∧ t.InBucket slot i → schedStep cfg t l = some t' →
      t'.FlowInv cfg ∧ t'.Waits slot r i ∧
        ∃ new, t'.dispatched = new ++ s.dispatched ∧ ∀ q ∈ new, q ≤ r := by
    rintro t l t' ⟨hflow, hwait, new, hnew, hle⟩ ⟨hl, hbucket⟩ ht
    obtain ⟨hwait', hsame | ⟨q, hq, hcons⟩⟩ := hwait.step hranges hflow hbucket ht
    · exact ⟨hflow.step hranges hsees hl ht, hwait', new, hsame.trans hnew, hle⟩
    · refine ⟨hflow.step hranges hsees hl ht, hwait', q :: new, ?_, ?_⟩
      · rw [hcons, hnew, List.cons_append]
      · exact List.forall_mem_cons.2 ⟨hq, hle⟩
  exact (inv_of_allSteps hstep ⟨hflow, hstart, [], rfl, nofun⟩
    (allSteps_and (hafter s hs) hwaits) hs').2.2

end

/-- One payload of the priority low and two of the priority high are pushed. -/
def threePushes : List (SchedStep Bool) :=
  pushRun 0 true ++ [1, 2].flatMap fun c =>
    .push c true .priorHigh :: List.replicate 5 (.pushStep c)

/-- The bucket of the second payload of the priority high, which waits while the first one is
loaded. -/
def secondBucket : ℕ := (defaultRanges 1).bitI + 1

theorem priority_strict_threePushes :
    ∃ t t', runs (schedStep oneVrowConfig) (.start oneVrowConfig) threePushes = some t ∧
      runs (schedStep oneVrowConfig) t (List.replicate 18 .sched) = some t' ∧
      ∃ new, t'.dispatched = new ++ t.dispatched ∧ ∀ q ∈ new, q ≤ 1 := by
  have hrun : ∃ t ∈ runs (schedStep oneVrowConfig) (.start oneVrowConfig) threePushes,
      t.pc = .closed ∧
      (∀ c < 3, ∃ push ∈ t.pushes c, push.payload = true ∧ push.pc = .done true) ∧
      AllSteps (schedStep oneVrowConfig) (fun u _ =>
        syncMapIssig u.queue.smapDesc.map secondBucket = true ∧
          u.queue.bucketBase secondBucket = ⟨true, some 2⟩) t (List.replicate 18 .sched) ∧
      (runs (schedStep oneVrowConfig) t (List.replicate 18 .sched)).isSome = true := by
    decide +kernel
  obtain ⟨t, ht, hpc, hdone, hbucket, hsome⟩ := hrun
  obtain ⟨t', ht'⟩ := Option.isSome_iff_exists.1 hsome
  have hordered : AllSteps (schedStep oneVrowConfig) (fun s l => s.orderedBelow 3 l = true)
      (.start oneVrowConfig) (threePushes ++ List.replicate 18 .sched) := by
    decide +kernel
  obtain ⟨push, hpush, hpayload, hpushed⟩ := hdone 2 (by decide)
  have hreturned : t.Returned ⟨true, some 2⟩ := ⟨2, push, by rw [hpayload], hpush, hpushed⟩
  have hwaits : AllSteps (schedStep oneVrowConfig)
      (fun u _ => u.InBucket ⟨true, some 2⟩ secondBucket) t (List.replicate 18 .sched) := by
    refine AllSteps.mono_of_inv (I := fun u => u.pushes = t.pushes) (V := fun _ l => l = .sched)
      (fun u l u' hsame hl hu => ?_) (fun u l hsame _ hset => ⟨hset.1, fun c hc => ?_, hset.2⟩) rfl
      (allSteps_of_forall fun l hl _ => List.eq_of_mem_replicate hl) hbucket
    · rw [hl] at hu
      exact (schedMainStep_pushes hu).trans hsame
    · obtain ⟨push, hpush, hwriting⟩ := hc
      rw [hsame] at hpush
      by_cases hc : c < 3
      · obtain ⟨push', hpush', -, hdone'⟩ := hdone c hc
        obtain rfl := Option.some_injective _ (hpush'.symm.trans hpush)
        rw [hdone'] at hwriting
        exact hwriting
      · rw [pushes_of_runs ht fun payload prior hmem => ?_] at hpush
        · cases hpush
        · simp only [threePushes, pushRun, List.flatMap_cons, List.flatMap_nil, List.mem_append,
            List.mem_cons, List.mem_replicate, SchedStep.push.injEq, reduceCtorEq, and_false,
            or_false, List.not_mem_nil] at hmem
          omega
  exact ⟨t, t', ht, ht', priority_strict rfl seesAny_oneVrowConfig
    (SchedSys.ordered_of_run hordered) ht hpc hreturned (by decide) hwaits ht'⟩

/-- It is the first payload of the priority high that is dispatched. -/
example : (runs (schedStep oneVrowConfig) (.start oneVrowConfig)
    (threePushes ++ List.replicate 18 .sched)).map (fun s => s.dispatched) = some [1] := by
  decide +kernel

end AxVirtLayer
