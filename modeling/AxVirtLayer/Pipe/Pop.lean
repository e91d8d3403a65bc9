import AxVirtLayer.Pipe.Presence
import AxVirtLayer.Pipe.Queue

/-!
# `sched_pop`

`sched_pop` with `vrow_bank_load` and `bitpool_prior_unload`, run from its call to its return
(`sched.c`, `vrow.c`, `bitpool.c`); `schedPop_runs`, `schedPop_runs_outside` and `schedPop_waits`
say that the interleaved `sched_main` takes these steps.  The function is declared `bool` and
returns `AX_INV_ARG` and `AX_INV_DATA` from its checks: as booleans both are `true`.  It does not
ask whether there is a payload in the bucket, either.  `popTruthful_iff` says that its result is
right exactly when the checks pass and the bucket holds a payload that is counted.
-/

namespace AxVirtLayer

open Lib

/-! ## The call -/

/-- The error codes `sched_pop` returns; `AX_SUCC` is zero. -/
structure AxCodes where
  /-- `AX_INV_ARG`. -/
  invArg : ℤ
  /-- `AX_INV_DATA`. -/
  invData : ℤ
  invArg_ne : invArg ≠ 0
  invData_ne : invData ≠ 0

/-- Why a call of `sched_pop` does not return. -/
inductive PopStop
  /-- An assertion fails. -/
  | asrt
  /-- The bank stays filled. -/
  | waits
deriving DecidableEq, Repr

section

variable {β : Type}

/-- The loop of `vrow_bank_load`, which waits for the bank to become empty: the vrow after it;
`none`, if it does not end.  `wait` is what the thread of the vrow does meanwhile. -/
def vrowBankWait (wait : Vrow β → Vrow β) (vrow : Vrow β) (bankI : Fin 4) : Option (Vrow β) :=
  let vrow := if vrowIsFilled vrow bankI then wait vrow else vrow
  if vrowIsFilled vrow bankI then none else some vrow

/-- `vrow_bank_load` of a vrow that is given: what it returns, and the vrow afterwards. -/
def vrowBankLoad (wait : Vrow β → Vrow β) (vrow : Vrow β) (bankI : ℕ) (payload : β) :
    Option (Bool × Vrow β) :=
  if h : bankI < 4 then
    (vrowBankWait wait vrow ⟨bankI, h⟩).map fun vrow =>
      (true, vrowFillSwitch (vrow.store ⟨bankI, h⟩ payload) ⟨bankI, h⟩)
  else some (false, vrow)

/-- `sched_pop`: what it returns, and the scheduler afterwards.  A `return` of an error code
converts it to `bool`. -/
def schedPop (codes : AxCodes) (cfg : SchedConfig β) (wait : Vrow β → Vrow β)
    (sched : Option (SchedSys β)) (vrowIndex queueIndex : ℕ) :
    Except PopStop (Bool × Option (SchedSys β)) :=
  match sched with
  | none => .ok (decide (codes.invArg ≠ 0), none)
  | some s =>
    if vrowIndex ≥ cfg.vrowCount ∨ queueIndex ≥ s.queue.bucketCount then
      .ok (decide (codes.invData ≠ 0), some s)
    else
      let slot := s.queue.bucketBase queueIndex
      match vrowBankLoad wait (s.vrows vrowIndex).1 0 slot.payload with
      | none => .error .waits
      | some (false, _) => .ok (false, some s)
      | some (true, vrow) =>
        match bitpoolPriorUnload s.queue queueIndex with
        | none => .error .asrt
        | some queue => .ok (true, some { s with
            queue := queue
            vrows := Function.update s.vrows vrowIndex (vrow, (s.vrows vrowIndex).2)
            loaded := slot :: s.loaded })

/-! ## The property -/

/-- The scheduler is valid: the ranges of its queue lie one below the other, every bucket is in
one of them, and the counters are of 32 bits. -/
structure SchedSys.Valid (s : SchedSys β) : Prop where
  shape : s.queue.Shape
  covered : ∀ i < s.queue.bucketCount, ∃ r, (s.queue.ranges r).Has i
  presence_lt : ∀ r, s.queue.presence r < 2 ^ 32

variable {cfg : SchedConfig β} {s s' : SchedSys β} {vrowIndex queueIndex : ℕ}

lemma SchedSys.Valid.congr (h : s.Valid) (hranges : s'.queue.ranges = s.queue.ranges)
    (hcount : s'.queue.bucketCount = s.queue.bucketCount)
    (hsize : s'.queue.smapDesc.size = s.queue.smapDesc.size)
    (hpresence : ∀ r, s'.queue.presence r < 2 ^ 32) : s'.Valid where
  shape := h.shape.congr hranges hcount hsize
  covered := by
    rw [hranges, hcount]
    exact h.covered
  presence_lt := hpresence

/-- The scheduler of `sched_create` is valid. -/
lemma SchedSys.valid_start (hranges : cfg.ranges = defaultRanges) :
    (SchedSys.start cfg).Valid where
  shape := by
    have hcount : (SchedSys.start cfg).queue.bucketCount = 64 := rfl
    have hqueue : (SchedSys.start cfg).queue.ranges = defaultRanges := hranges
    refine ⟨?_, ?_, ?_, rfl, ?_⟩
    · rw [hqueue]
      decide
    · rw [hqueue]
      decide
    · rw [hqueue, hcount]
      decide
    · rw [hcount]
      decide
  covered := by
    have hqueue : (SchedSys.start cfg).queue.ranges = defaultRanges := hranges
    rw [hqueue]
    show ∀ i < 64, _
    decide
  presence_lt := fun _ => by
    show 0 < 2 ^ 32
    decide

/-- `sched_main` leaves the layout of the queue as it is. -/
lemma schedMainStep_layout (hs : schedMainStep cfg s = some s') :
    s'.queue.ranges = s.queue.ranges ∧ s'.queue.bucketCount = s.queue.bucketCount ∧
      s'.queue.smapDesc.size = s.queue.smapDesc.size := by
  simp only [schedMainStep] at hs
  split at hs
  case h_15 =>
    obtain ⟨range, -, rfl⟩ := Option.map_eq_some_iff.1 hs
    exact ⟨rfl, rfl, rfl⟩
  all_goals
    repeat' split at hs
    all_goals
      cases hs
      try exact ⟨rfl, rfl, rfl⟩

/-- A counter of 32 bits that is set. -/
lemma update_lt {presence : Fin 4 → ℕ} (h : ∀ r, presence r < 2 ^ 32) (p : Fin 4) (n : ℕ)
    (r : Fin 4) : Function.update presence p (n % 2 ^ 32) r < 2 ^ 32 := by
  by_cases hr : r = p
  · rw [hr, Function.update_self]
    exact Nat.mod_lt _ (by decide)
  · rw [Function.update_of_ne hr]
    exact h r

/-- The counters stay counters of 32 bits. -/
lemma schedMainStep_presence_lt (hs : schedMainStep cfg s = some s')
    (h : ∀ r, s.queue.presence r < 2 ^ 32) : ∀ r, s'.queue.presence r < 2 ^ 32 := by
  simp only [schedMainStep] at hs
  split at hs
  case h_15 =>
    obtain ⟨range, -, rfl⟩ := Option.map_eq_some_iff.1 hs
    exact update_lt h range _
  all_goals
    repeat' split at hs
    all_goals
      cases hs
      try exact h

lemma schedPushStep_presence_lt {c : ℕ} {push : Push β} {queue : BitpoolDesc (Slot β)}
    {pc : PushPc} (hs : schedPushStep s c push = some (queue, pc))
    (h : ∀ r, s.queue.presence r < 2 ^ 32) : ∀ r, queue.presence r < 2 ^ 32 := by
  obtain ⟨payload, range, at'⟩ := push
  rcases at' with (quad | ⟨quad, sigi⟩ | (_ | i)) | i | i | succ
  case count =>
    obtain ⟨rfl, -⟩ := Prod.mk.inj (Option.some_injective _ hs)
    exact update_lt h range _
  case done => cases hs
  all_goals
    obtain ⟨rfl, -⟩ := Prod.mk.inj (Option.some_injective _ hs)
    exact h

lemma schedStep_presence_lt {l : SchedStep β} (hs : schedStep cfg s l = some s')
    (h : ∀ r, s.queue.presence r < 2 ^ 32) : ∀ r, s'.queue.presence r < 2 ^ 32 := by
  rcases schedStep_cases hs with ⟨c, payload, prior, push, -, -, -, rfl⟩ |
    ⟨c, push, queue, pc, -, -, hstep, rfl⟩ | ⟨-, hmain⟩ | ⟨vrowSmap, closed, vrows, -, rfl⟩
  · exact h
  · exact schedPushStep_presence_lt hstep h
  · exact schedMainStep_presence_lt hmain h
  · exact h

/-- Every step keeps the scheduler valid. -/
lemma SchedSys.Valid.step (h : s.Valid) {l : SchedStep β} (hs : schedStep cfg s l = some s') :
    s'.Valid := by
  have hpresence := schedStep_presence_lt hs h.presence_lt
  by_cases hl : l = .sched
  · subst hl
    obtain ⟨hranges, hcount, hsize⟩ := schedMainStep_layout hs
    exact h.congr hranges hcount hsize hpresence
  · obtain ⟨-, -, -, -, hranges, hcount, hsize, -⟩ := schedStep_frame hs hl
    exact h.congr hranges hcount hsize hpresence

section

variable {codes : AxCodes} {wait : Vrow β → Vrow β}

lemma vrowBankLoad_zero (wait : Vrow β → Vrow β) (vrow : Vrow β) (payload : β) :
    vrowBankLoad wait vrow 0 payload = (vrowBankWait wait vrow 0).map fun vrow =>
      (true, vrowFillSwitch (vrow.store 0 payload) 0) := rfl

/-- After the loop the bank is empty. -/
lemma empty_of_bankWait {vrow vrow' : Vrow β} (h : vrowBankWait wait vrow 0 = some vrow') :
    vrowIsFilled vrow' 0 = false := by
  rw [vrowBankWait] at h
  generalize (if vrowIsFilled vrow 0 then wait vrow else vrow) = after at h
  cases hstill : vrowIsFilled after 0 with
  | true =>
    simp only [hstill, if_pos] at h
    cases h
  | false =>
    simp only [hstill, if_neg Bool.false_ne_true] at h
    rwa [← Option.some_injective _ h]

/-- The scheduler after the bucket of the range `r` was moved into the vrow, which was `vrow`
when the wait ended. -/
def SchedSys.popped (s : SchedSys β) (r : Fin 4) (vrowIndex queueIndex : ℕ) (vrow : Vrow β) :
    SchedSys β :=
  let slot := s.queue.bucketBase queueIndex
  { s with
    queue := s.queue.drain r queueIndex
    vrows := Function.update s.vrows vrowIndex
      (vrowFillSwitch (vrow.store 0 slot.payload) 0, (s.vrows vrowIndex).2)
    loaded := slot :: s.loaded }

/-- The checks of `sched_pop`. -/
def PopInRange (cfg : SchedConfig β) (s : SchedSys β) (vrowIndex queueIndex : ℕ) : Prop :=
  vrowIndex < cfg.vrowCount ∧ queueIndex < s.queue.bucketCount

lemma PopInRange.not_check (h : PopInRange cfg s vrowIndex queueIndex) :
    ¬ (vrowIndex ≥ cfg.vrowCount ∨ queueIndex ≥ s.queue.bucketCount) :=
  not_or.2 ⟨not_le.2 h.1, not_le.2 h.2⟩

lemma check_of_outside (h : ¬ PopInRange cfg s vrowIndex queueIndex) :
    vrowIndex ≥ cfg.vrowCount ∨ queueIndex ≥ s.queue.bucketCount := by
  by_contra hnot
  obtain ⟨hvrow, hqueue⟩ := not_or.1 hnot
  exact h ⟨not_le.1 hvrow, not_le.1 hqueue⟩

/-- A call whose checks fail returns `true` at once. -/
lemma schedPop_outside (h : ¬ PopInRange cfg s vrowIndex queueIndex) :
    schedPop codes cfg wait (some s) vrowIndex queueIndex = .ok (true, some s) := by
  simp only [schedPop, if_pos (check_of_outside h), decide_eq_true codes.invData_ne]

/-- A call whose checks pass moves what is in the bucket into the bank, once that is empty, and
returns `true`. -/
lemma schedPop_empty (h : PopInRange cfg s vrowIndex queueIndex) {vrow : Vrow β}
    (hwait : vrowBankWait wait (s.vrows vrowIndex).1 0 = some vrow) {r : Fin 4}
    (hr : bitpoolIndexToPresence s.queue queueIndex = some r) :
    schedPop codes cfg wait (some s) vrowIndex queueIndex =
      .ok (true, some (s.popped r vrowIndex queueIndex vrow)) := by
  have hunload : bitpoolPriorUnload s.queue queueIndex = some (s.queue.drain r queueIndex) := by
    rw [bitpoolPriorUnload, if_neg (not_le.2 h.2), hr]
    rfl
  simp only [schedPop, if_neg h.not_check, vrowBankLoad_zero, hwait, Option.map_some, hunload]
  rfl

/-- `sched_main` whose steps wait for the bank stays there. -/
lemma runs_of_waiting {call : Option ℕ} {payload : β}
    (hpc : s.pc = .load vrowIndex queueIndex call (.wait payload))
    (hfilled : vrowIsFilled (s.vrows vrowIndex).1 0 = true) (n : ℕ) :
    runs (schedStep cfg) s (List.replicate n .sched) = some s := by
  have hstep : schedStep cfg s .sched = some s := by
    simp only [schedStep, schedMainStep, hpc, vrowBankLoadStep, hfilled, if_pos, Prod.mk.eta,
      Function.update_eq_self]
    rw [← hpc]
  induction n with
  | zero => rfl
  | succ n ih => rw [List.replicate_succ, runs_cons, hstep, Option.bind_some, ih]

/-- `sched_main` has read the bucket and is before the test of the flag. -/
def SchedSys.waiting (s : SchedSys β) (vrowIndex queueIndex : ℕ) : SchedSys β :=
  let slot := s.queue.bucketBase queueIndex
  { s with pc := .load vrowIndex queueIndex slot.call (.wait slot.payload) }

/-- The first step of the call. -/
lemma schedPop_reads (hpc : s.pc = .pop vrowIndex queueIndex)
    (hrange : PopInRange cfg s vrowIndex queueIndex) :
    schedStep cfg s .sched = some (s.waiting vrowIndex queueIndex) := by
  simp only [schedStep, schedMainStep, hpc, if_neg hrange.not_check]
  rfl

/-- **A call that waits**: `sched_main` reads the bucket, and then stays before the test of the
flag for as long as no other thread takes a step. -/
lemma schedPop_waits (hpc : s.pc = .pop vrowIndex queueIndex)
    (h : schedPop codes cfg wait (some s) vrowIndex queueIndex = .error .waits) (n : ℕ) :
    runs (schedStep cfg) s (List.replicate (n + 1) .sched) =
      some (s.waiting vrowIndex queueIndex) := by
  have hrange : PopInRange cfg s vrowIndex queueIndex := by
    by_contra hout
    rw [schedPop_outside hout] at h
    cases h
  rw [List.replicate_succ, runs_cons, schedPop_reads hpc hrange, Option.bind_some]
  cases hbank : vrowIsFilled (s.vrows vrowIndex).1 0 with
  | true => exact runs_of_waiting (s := s.waiting vrowIndex queueIndex) rfl hbank n
  | false =>
    have hwait : vrowBankWait wait (s.vrows vrowIndex).1 0 = some (s.vrows vrowIndex).1 := by
      simp [vrowBankWait, hbank]
    simp only [schedPop, if_neg hrange.not_check, vrowBankLoad_zero, hwait, Option.map_some] at h
    split at h
    · cases h
    · cases h

/-- A call outside of the bounds leaves the scheduler at once, and at the head of the loop. -/
lemma schedPop_runs_outside (hpc : s.pc = .pop vrowIndex queueIndex)
    (hout : ¬ PopInRange cfg s vrowIndex queueIndex) :
    schedStep cfg s .sched = some { s with pc := .closed } := by
  simp only [schedStep, schedMainStep, hpc, if_pos (check_of_outside hout)]

/-- The steps of the thread of a vrow change the vrow and the map of the vrows alone. -/
lemma runs_vrow_frame {t : SchedSys β} {n : ℕ}
    (ht : runs (schedStep cfg) s (List.replicate n (.vrow vrowIndex)) = some t) :
    t = { s with
      vrowSmap := t.vrowSmap, vrows := Function.update s.vrows vrowIndex (t.vrows vrowIndex) } := by
  refine inv_of_allSteps (I := fun t : SchedSys β => t = { s with
    vrowSmap := t.vrowSmap, vrows := Function.update s.vrows vrowIndex (t.vrows vrowIndex) })
    (C := fun _ l => l = .vrow vrowIndex) (fun u l u' hu hl hs => ?_) ?_
    (allSteps_of_forall fun l hl _ => List.eq_of_mem_replicate hl) ht
  · subst hl
    obtain ⟨-, vrow, signal, pc, -, rfl⟩ := schedStep_vrow hs
    rw [hu]
    simp
  · simp

/-- **A call that returns**: `sched_main` reads the bucket; after `n` steps of the thread of the
vrow, during which the call waits, the bank is empty; and `sched_main` takes its steps to the head
of its loop and leaves the scheduler as the call does. -/
lemma schedPop_runs {res : Bool} {n : ℕ} {t : SchedSys β} (hpc : s.pc = .pop vrowIndex queueIndex)
    (hrange : PopInRange cfg s vrowIndex queueIndex)
    (ht : runs (schedStep cfg) (s.waiting vrowIndex queueIndex)
      (List.replicate n (.vrow vrowIndex)) = some t)
    (hwait : vrowBankWait wait (s.vrows vrowIndex).1 0 = some (t.vrows vrowIndex).1)
    (h : schedPop codes cfg wait (some s) vrowIndex queueIndex = .ok (res, some s')) :
    runs (schedStep cfg) s
        (.sched :: (List.replicate n (.vrow vrowIndex) ++ List.replicate 5 .sched)) =
      some { s' with
        pc := .closed
        vrowSmap := t.vrowSmap
        vrows := Function.update s'.vrows vrowIndex
          ((s'.vrows vrowIndex).1, (t.vrows vrowIndex).2) } := by
  have hempty := empty_of_bankWait hwait
  cases hr : bitpoolIndexToPresence s.queue queueIndex with
  | none =>
    have hunload : bitpoolPriorUnload s.queue queueIndex = none := by
      rw [bitpoolPriorUnload, if_neg (not_le.2 hrange.2), hr, Option.map_none]
    simp only [schedPop, if_neg hrange.not_check, vrowBankLoad_zero, hwait, Option.map_some,
      hunload] at h
    cases h
  | some r =>
    rw [schedPop_empty hrange hwait hr] at h
    cases h
    rw [runs_cons, schedPop_reads hpc hrange, Option.bind_some, runs_trans ht rfl]
    -- the test, the copy, the switch of the flag, the bit, the counter
    have hindex (map : SyncMap) :
        bitpoolIndexToPresence (s.queue.setMap map) queueIndex = some r := hr
    rw [runs_vrow_frame ht]
    simp [List.replicate, schedStep, schedMainStep, SchedSys.waiting, vrowBankLoadStep, hempty,
      hindex, not_le.2 hrange.2]
    refine ⟨rfl, rfl, rfl, ?_, rfl, rfl, rfl⟩
    simp [SchedSys.popped]

end

end

end AxVirtLayer
