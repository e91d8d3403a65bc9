import AxVirtLayer.Lib.Run
import AxVirtLayer.Pipe.Bitpool
import AxVirtLayer.Pipe.Vrow

/-!
# The scheduler

`sched_push`, `sched_main` with `sched_pop`, and the threads of the vrows, interleaved by their
single loads, atomic operations and copies of a payload (`sched.c`, with `bitpool_prior_load`,
`bitpool_prior_unload` and `bitpool_prior_unload_disp` as they run among other threads).  The
memory order of the operations is not modelled: the steps are interleaved one after another.

The state keeps a history that no step reads: a payload in a bucket carries the number of the
call that pushed it, and the scheduler lists its dispatches and its copies into vrow banks.
`sched_delete` closes the vrows one after another; here it closes them in any order, and does not
wait for one before it closes the next.
-/

namespace AxVirtLayer

open Lib

/-! ## The state -/

/-- What a bucket holds, and the call of `sched_push` that copied it there. -/
structure Slot (β : Type) where
  payload : β
  call : Option ℕ
deriving DecidableEq, Repr

/-- What `sched_create` is given, and what the program takes from its environment. -/
structure SchedConfig (β : Type) where
  /-- `vrow_count`, a byte. -/
  vrowCount : ℕ
  /-- The ranges of the queue. -/
  ranges : Fin 4 → BitpoolPriorRange
  /-- `bitpool_presence_any`. -/
  presenceAny : (Fin 4 → ℕ) → Bool
  funcs : BankFuncs β
  /-- What zeroed memory holds. -/
  zero : β
  vrowCount_lt : vrowCount < 2 ^ 8

/-- Where a call of `sched_push` stands. -/
inductive PushPc
  /-- In `sync_map_sig_first`. -/
  | sig (pc : MapPc)
  /-- Before the copy into its bucket. -/
  | copy (index : ℕ)
  /-- Before the `fetch_add` of the presence. -/
  | count (index : ℕ)
  /-- Returned. -/
  | done (succ : Bool)
deriving DecidableEq, Repr

/-- A call of `sched_push`. -/
structure Push (β : Type) where
  payload : β
  /-- The range of its priority. -/
  range : Fin 4
  pc : PushPc

/-- Where `sched_main` stands. -/
inductive SchedPc (β : Type)
  /-- `sched_is_closed`, at the head of the loop. -/
  | closed
  /-- `bitpool_presence_any`. -/
  | presence
  /-- In `sync_map_sig_first`, for a vrow. -/
  | vrow (pc : MapPc)
  /-- In the loop of `bitpool_prior_unload_disp`, over the priorities left. -/
  | disp (vrowI : ℕ) (left : List (Fin 4))
  /-- In `sync_map_unsig_first`, for a bucket of the range. -/
  | unsig (vrowI : ℕ) (range : Fin 4) (pc : MapPc)
  /-- Before the `sync_map_sigoff` of a vrow for which there is no bucket. -/
  | back (vrowI : ℕ)
  /-- In `sched_pop`, before its copy of the bucket. -/
  | pop (vrowI bucketI : ℕ)
  /-- In `vrow_bank_load`, with the call that pushed the payload. -/
  | load (vrowI bucketI : ℕ) (call : Option ℕ) (pc : LoadPc β)
  /-- In `bitpool_prior_unload`, before the `sync_map_sigoff` and the `fetch_sub`. -/
  | sigoff (bucketI : ℕ)
  | sub (bucketI : ℕ)
  /-- Before `sched_terminate`. -/
  | terminate
  | terminated
deriving DecidableEq, Repr

/-- The scheduler, its vrows with their threads, and the calls of `sched_push` by number. -/
structure SchedSys (β : Type) where
  queue : BitpoolDesc (Slot β)
  vrowSmap : SyncMapDesc
  closed : Bool
  pc : SchedPc β
  /-- `disp_presence`. -/
  disp : Fin 4 → ℕ
  vrows : ℕ → Vrow β × VrowPc
  pushes : ℕ → Option (Push β)
  /-- The ranges of the dispatches so far, the last one first. -/
  dispatched : List (Fin 4)
  /-- The payloads copied into bank 0 of a vrow so far, the last one first. -/
  loaded : List (Slot β)

/-- The steps: a call of `sched_push` begins or goes on, `sched_main` goes on, the thread of a
vrow goes on, `sched_delete` closes the scheduler or, after its end, a vrow. -/
inductive SchedStep (β : Type)
  | push (c : ℕ) (payload : β) (prior : MtePrior)
  | pushStep (c : ℕ)
  | sched
  | vrow (i : ℕ)
  | close
  | closeVrow (i : ℕ)
deriving DecidableEq, Repr

section

variable {β : Type}

/-- The queue of `sched_create`. -/
def schedQueue (cfg : SchedConfig β) : BitpoolDesc (Slot β) :=
  ⟨fun _ => 0, fun _ => ⟨cfg.zero, none⟩, 64, cfg.ranges, ⟨fun _ => 0, 1⟩⟩

/-- The scheduler of `sched_create`. -/
def SchedSys.start (cfg : SchedConfig β) : SchedSys β where
  queue := schedQueue cfg
  vrowSmap := ⟨fun _ => 0, cfg.vrowCount / 64 + 1⟩
  closed := false
  pc := .closed
  disp := fun _ => 0
  vrows := fun _ => (vrowCreate cfg.zero, .loop)
  pushes := fun _ => none
  dispatched := []
  loaded := []

/-! ## The calls on the maps -/

/-- The call for a bit of a range of the queue. -/
def rangeCall (op : MapOp) (range : BitpoolPriorRange) : MapCall :=
  ⟨op, range.bitI, (range.bitI + range.bitN) % 2 ^ 32⟩

/-- The call for a vrow. -/
def vrowCall (cfg : SchedConfig β) : MapCall := ⟨.sigFirst, 0, cfg.vrowCount⟩

/-- The queue with another map. -/
def BitpoolDesc.setMap {γ : Type} (bitpool : BitpoolDesc γ) (map : SyncMap) : BitpoolDesc γ :=
  { bitpool with smapDesc := { bitpool.smapDesc with map := map } }

/-! ## `sched_push` -/

/-- The start of `sched_push`; `none` where the priority is not valid and an assertion fails. -/
def schedPush (s : SchedSys β) (payload : β) (prior : MtePrior) : Option (Push β) :=
  (bitpoolPriorToPresence prior).map fun p =>
    ⟨payload, p, if (s.queue.ranges p).bitN = 0 then .done false
      else .sig ((rangeCall .sigFirst (s.queue.ranges p)).start s.queue.smapDesc.size)⟩

/-- The next operation of the call `c` of `sched_push`. -/
def schedPushStep (s : SchedSys β) (c : ℕ) (push : Push β) :
    Option (BitpoolDesc (Slot β) × PushPc) :=
  let call := rangeCall .sigFirst (s.queue.ranges push.range)
  match push.pc with
  | .sig (.ret none) => some (s.queue, .sig (call.start s.queue.smapDesc.size))
  | .sig (.ret (some i)) => some (s.queue, .copy i)
  | .sig pc =>
    let (map, pc) := call.step s.queue.smapDesc.size s.queue.smapDesc.map pc
    some (s.queue.setMap map, .sig pc)
  | .copy i => some ({ s.queue with
      bucketBase := Function.update s.queue.bucketBase i ⟨push.payload, some c⟩ }, .count i)
  | .count _ => some ({ s.queue with
      presence := Function.update s.queue.presence push.range
        ((s.queue.presence push.range + 1) % 2 ^ 32) }, .done true)
  | .done _ => none

/-! ## `sched_main` -/

/-- The next operation of `sched_main`; `none` where it has ended, or where an assertion
fails. -/
def schedMainStep (cfg : SchedConfig β) (s : SchedSys β) : Option (SchedSys β) :=
  match s.pc with
  | .closed => some { s with pc := if s.closed then .terminate else .presence }
  | .presence => some { s with
      pc := if cfg.presenceAny s.queue.presence then .vrow ((vrowCall cfg).start s.vrowSmap.size)
        else .closed }
  | .vrow (.ret none) => some { s with pc := .closed }
  | .vrow (.ret (some vrowI)) => some { s with pc := .disp vrowI [0, 1, 2] }
  | .vrow pc =>
    let (map, pc) := (vrowCall cfg).step s.vrowSmap.size s.vrowSmap.map pc
    some { s with vrowSmap := { s.vrowSmap with map }, pc := .vrow pc }
  | .disp vrowI [] => some { s with
      pc := .unsig vrowI 3
        ((rangeCall .unsigFirst (s.queue.ranges 3)).start s.queue.smapDesc.size) }
  | .disp vrowI (i :: left) =>
    if s.queue.presence i > 0 then
      if s.disp i < (s.queue.ranges i).bitDisp then some { s with
        pc := .unsig vrowI i
          ((rangeCall .unsigFirst (s.queue.ranges i)).start s.queue.smapDesc.size) }
      else some { s with disp := Function.update s.disp i 0, pc := .disp vrowI left }
    else some { s with pc := .disp vrowI left }
  | .unsig vrowI _ (.ret none) => some { s with pc := .back vrowI }
  | .unsig vrowI range (.ret (some i)) => some { s with
      pc := .pop vrowI (i % 2 ^ 8), dispatched := range :: s.dispatched }
  | .unsig vrowI range pc =>
    let (map, pc) := (rangeCall .unsigFirst (s.queue.ranges range)).step
      s.queue.smapDesc.size s.queue.smapDesc.map pc
    some { s with queue := s.queue.setMap map, pc := .unsig vrowI range pc }
  | .back vrowI => some { s with
      vrowSmap := { s.vrowSmap with map := syncMapSigoff s.vrowSmap.map vrowI }, pc := .closed }
  | .pop vrowI bucketI =>
    if vrowI ≥ cfg.vrowCount ∨ bucketI ≥ s.queue.bucketCount then some { s with pc := .closed }
    else
      let slot := s.queue.bucketBase bucketI
      some { s with pc := .load vrowI bucketI slot.call (.wait slot.payload) }
  | .load vrowI bucketI call pc =>
    let (vrow, next) := vrowBankLoadStep (s.vrows vrowI).1 0 pc
    some { s with
      vrows := Function.update s.vrows vrowI (vrow, (s.vrows vrowI).2)
      pc := match next with
        | some pc => .load vrowI bucketI call pc
        | none => .sigoff bucketI
      loaded := match pc with
        | .store payload => ⟨payload, call⟩ :: s.loaded
        | _ => s.loaded }
  | .sigoff bucketI =>
    if s.queue.bucketCount ≤ bucketI then some { s with pc := .closed }
    else some { s with
      queue := s.queue.setMap (syncMapSigoff s.queue.smapDesc.map bucketI), pc := .sub bucketI }
  | .sub bucketI => (bitpoolIndexToPresence s.queue bucketI).map fun p => { s with
      queue := { s.queue with
        presence := Function.update s.queue.presence p
          ((s.queue.presence p + (2 ^ 32 - 1)) % 2 ^ 32) }
      pc := .closed }
  | .terminate => some { s with pc := .terminated }
  | .terminated => none

/-! ## The system -/

/-- The map of the vrows after the signal of a vrow. -/
def VrowSignal.apply (signal : VrowSignal) (map : SyncMap) (i : ℕ) : SyncMap :=
  match signal with
  | .keep => map
  | .on => syncMapSigon map i
  | .off => syncMapSigoff map i

/-- One step of the system. -/
def schedStep (cfg : SchedConfig β) (s : SchedSys β) : SchedStep β → Option (SchedSys β)
  | .push c payload prior =>
    match s.pushes c with
    | some _ => none
    | none => (schedPush s payload prior).map fun push =>
        { s with pushes := Function.update s.pushes c (some push) }
  | .pushStep c =>
    match s.pushes c with
    | none => none
    | some push => (schedPushStep s c push).map fun (queue, pc) =>
        { s with
          queue := queue
          pushes := Function.update s.pushes c (some { push with pc := pc }) }
  | .sched => schedMainStep cfg s
  | .vrow i =>
    if i < cfg.vrowCount then
      (vrowThreadStep cfg.funcs cfg.zero (s.vrows i).1 (s.vrows i).2).map
        fun (vrow, signal, pc) => { s with
          vrowSmap := { s.vrowSmap with map := signal.apply s.vrowSmap.map i }
          vrows := Function.update s.vrows i (vrow, pc) }
    else none
  | .close => some { s with closed := true }
  | .closeVrow i =>
    match s.pc with
    | .terminated => some { s with
        vrows := Function.update s.vrows i ({ (s.vrows i).1 with closed := true }, (s.vrows i).2) }
    | _ => none

/-- The queue of the scheduler is a pool of `bitpool_create` with 64 buckets. -/
lemma bitpoolCreate_eq_schedQueue {round : ℕ → ℕ → ℕ} {perc : BitpoolPercDesc}
    {cfg : SchedConfig β} {bitpool : BitpoolDesc (Slot β)}
    (h : bitpoolCreate round (fun _ => ⟨cfg.zero, none⟩) 64 perc = some bitpool)
    (hranges : cfg.ranges = bitpool.ranges) : bitpool = schedQueue cfg := by
  rw [bitpoolCreate, if_neg (by decide)] at h
  obtain ⟨smapDesc, hinit, hrest⟩ := Option.bind_eq_some_iff.1 h
  obtain ⟨ranges, -, hpool⟩ := Option.bind_eq_some_iff.1 hrest
  obtain rfl := Option.some_injective _ hpool
  obtain rfl := Option.some_injective _ hinit
  rw [schedQueue, hranges]

/-- `sched_main` has claimed the vrow and has not loaded a payload into it yet. -/
def SchedPc.Holds (i : ℕ) : SchedPc β → Prop
  | .vrow (.ret (some vrowI)) => vrowI = i
  | .disp vrowI _ | .unsig vrowI _ _ | .back vrowI | .pop vrowI _ | .load vrowI _ _ _ => vrowI = i
  | _ => False

/-- `sched_main` is before the `fetch_or` of a vrow. -/
def SchedPc.ClaimsVrow : SchedPc β → Prop
  | .vrow (.claim _ _) => True
  | _ => False

/-- `sched_main` is before the `fetch_and` of a bucket. -/
def SchedPc.ClaimsBucket : SchedPc β → Prop
  | .unsig _ _ (.claim _ _) => True
  | _ => False

/-- `sched_main` holds no vrow before the claim. -/
lemma SchedPc.not_holds_afterLoad (call : MapCall) (size quad : ℕ) (val : BitVec 64) (i : ℕ) :
    ¬ (SchedPc.vrow (β := β) (call.afterLoad size quad val)).Holds i := by
  rcases call.afterLoad_forms size quad val with ⟨h, -⟩ | ⟨sigi, -, h⟩ | h
  all_goals
    rw [h]
    exact id

/-! ## What a step can do -/

variable {cfg : SchedConfig β} {s s' : SchedSys β} {c i : ℕ}

/-- A call of `sched_push` begins. -/
lemma schedStep_push {payload : β} {prior : MtePrior}
    (hs : schedStep cfg s (.push c payload prior) = some s') :
    ∃ push, s.pushes c = none ∧ schedPush s payload prior = some push ∧
      s' = { s with pushes := Function.update s.pushes c (some push) } := by
  simp only [schedStep] at hs
  split at hs
  · cases hs
  · rename_i hnone
    obtain ⟨push, hpush, rfl⟩ := Option.map_eq_some_iff.1 hs
    exact ⟨push, hnone, hpush, rfl⟩

/-- A call of `sched_push` goes on. -/
lemma schedStep_pushStep (hs : schedStep cfg s (.pushStep c) = some s') :
    ∃ push queue pc, s.pushes c = some push ∧ schedPushStep s c push = some (queue, pc) ∧
      s' = { s with
        queue := queue
        pushes := Function.update s.pushes c (some { push with pc := pc }) } := by
  simp only [schedStep] at hs
  split at hs
  · cases hs
  · rename_i push hpush
    obtain ⟨⟨queue, pc⟩, hstep, rfl⟩ := Option.map_eq_some_iff.1 hs
    exact ⟨push, queue, pc, hpush, hstep, rfl⟩

/-- The thread of a vrow goes on. -/
lemma schedStep_vrow (hs : schedStep cfg s (.vrow i) = some s') :
    i < cfg.vrowCount ∧ ∃ vrow signal pc,
      vrowThreadStep cfg.funcs cfg.zero (s.vrows i).1 (s.vrows i).2 = some (vrow, signal, pc) ∧
      s' = { s with
        vrowSmap := { s.vrowSmap with map := signal.apply s.vrowSmap.map i }
        vrows := Function.update s.vrows i (vrow, pc) } := by
  simp only [schedStep] at hs
  split at hs
  · rename_i hi
    obtain ⟨⟨vrow, signal, pc⟩, hthread, rfl⟩ := Option.map_eq_some_iff.1 hs
    exact ⟨hi, vrow, signal, pc, hthread, rfl⟩
  · cases hs

/-- A vrow is closed once `sched_main` has ended. -/
lemma schedStep_closeVrow (hs : schedStep cfg s (.closeVrow i) = some s') :
    s.pc = .terminated ∧ s' = { s with
      vrows := Function.update s.vrows i
        ({ (s.vrows i).1 with closed := true }, (s.vrows i).2) } := by
  simp only [schedStep] at hs
  split at hs
  · rename_i hpc
    exact ⟨hpc, (Option.some_injective _ hs).symm⟩
  · cases hs

/-- **What one step can do**: it begins a call of `sched_push` or goes on with one, it is a step
of `sched_main`, or it changes what belongs to the vrows and to the close alone. -/
lemma schedStep_cases {l : SchedStep β} (hs : schedStep cfg s l = some s') :
    (∃ c payload prior push, l = .push c payload prior ∧ s.pushes c = none ∧
      schedPush s payload prior = some push ∧
      s' = { s with pushes := Function.update s.pushes c (some push) }) ∨
    (∃ c push queue pc, l = .pushStep c ∧ s.pushes c = some push ∧
      schedPushStep s c push = some (queue, pc) ∧
      s' = { s with
        queue := queue
        pushes := Function.update s.pushes c (some { push with pc := pc }) }) ∨
    (l = .sched ∧ schedMainStep cfg s = some s') ∨
    (∃ vrowSmap closed vrows, vrowSmap.size = s.vrowSmap.size ∧
      s' = { s with vrowSmap := vrowSmap, closed := closed, vrows := vrows }) := by
  cases l with
  | push c payload prior =>
    obtain ⟨push, hnone, hpush, rfl⟩ := schedStep_push hs
    exact Or.inl ⟨c, payload, prior, push, rfl, hnone, hpush, rfl⟩
  | pushStep c =>
    obtain ⟨push, queue, pc, hpush, hstep, rfl⟩ := schedStep_pushStep hs
    exact Or.inr (Or.inl ⟨c, push, queue, pc, rfl, hpush, hstep, rfl⟩)
  | sched => exact Or.inr (Or.inr (Or.inl ⟨rfl, hs⟩))
  | vrow i =>
    obtain ⟨-, vrow, signal, pc, -, rfl⟩ := schedStep_vrow hs
    exact Or.inr (Or.inr (Or.inr ⟨⟨signal.apply s.vrowSmap.map i, s.vrowSmap.size⟩, _, _,
      rfl, rfl⟩))
  | close =>
    obtain rfl := Option.some_injective _ hs
    exact Or.inr (Or.inr (Or.inr ⟨_, _, _, rfl, rfl⟩))
  | closeVrow i =>
    obtain ⟨-, rfl⟩ := schedStep_closeVrow hs
    exact Or.inr (Or.inr (Or.inr ⟨_, _, _, rfl, rfl⟩))

/-! ## What a step leaves -/

lemma schedMainStep_ne_terminated (hs : schedMainStep cfg s = some s') : s.pc ≠ .terminated := by
  intro hpc
  simp only [schedMainStep, hpc] at hs
  cases hs

/-- `sched_push` changes the map, the buckets and the counters of the queue alone. -/
lemma schedPushStep_frame {c : ℕ} {push : Push β} {queue : BitpoolDesc (Slot β)} {pc : PushPc}
    (h : schedPushStep s c push = some (queue, pc)) :
    queue.ranges = s.queue.ranges ∧ queue.bucketCount = s.queue.bucketCount ∧
      queue.smapDesc.size = s.queue.smapDesc.size := by
  obtain ⟨payload, range, at'⟩ := push
  cases at' with
  | sig mapPc =>
    cases mapPc with
    | load quad =>
      obtain ⟨rfl, -⟩ := Prod.mk.inj (Option.some_injective _ h)
      exact ⟨rfl, rfl, rfl⟩
    | claim quad sigi =>
      obtain ⟨rfl, -⟩ := Prod.mk.inj (Option.some_injective _ h)
      exact ⟨rfl, rfl, rfl⟩
    | ret index =>
      cases index with
      | none =>
        obtain ⟨rfl, -⟩ := Prod.mk.inj (Option.some_injective _ h)
        exact ⟨rfl, rfl, rfl⟩
      | some i =>
        obtain ⟨rfl, -⟩ := Prod.mk.inj (Option.some_injective _ h)
        exact ⟨rfl, rfl, rfl⟩
  | copy i =>
    obtain ⟨rfl, -⟩ := Prod.mk.inj (Option.some_injective _ h)
    exact ⟨rfl, rfl, rfl⟩
  | count i =>
    obtain ⟨rfl, -⟩ := Prod.mk.inj (Option.some_injective _ h)
    exact ⟨rfl, rfl, rfl⟩
  | done succ => cases h

/-- The steps other than those of `sched_main` do not touch its variables. -/
lemma schedStep_frame {l : SchedStep β} (hs : schedStep cfg s l = some s') (hl : l ≠ .sched) :
    s'.pc = s.pc ∧ s'.disp = s.disp ∧ s'.dispatched = s.dispatched ∧ s'.loaded = s.loaded ∧
      s'.queue.ranges = s.queue.ranges ∧ s'.queue.bucketCount = s.queue.bucketCount ∧
      s'.queue.smapDesc.size = s.queue.smapDesc.size ∧ s'.vrowSmap.size = s.vrowSmap.size := by
  rcases schedStep_cases hs with ⟨c, payload, prior, push, -, -, -, rfl⟩ |
    ⟨c, push, queue, pc, -, -, hstep, rfl⟩ | ⟨heq, -⟩ | ⟨vrowSmap, closed, vrows, hsize, rfl⟩
  · exact ⟨rfl, rfl, rfl, rfl, rfl, rfl, rfl, rfl⟩
  · obtain ⟨hranges, hcount, hsize⟩ := schedPushStep_frame hstep
    exact ⟨rfl, rfl, rfl, rfl, hranges, hcount, hsize, rfl⟩
  · exact absurd heq hl
  · exact ⟨rfl, rfl, rfl, rfl, rfl, rfl, rfl, hsize⟩

/-- `sched_main` touches no call of `sched_push`. -/
lemma schedMainStep_pushes (hs : schedMainStep cfg s = some s') : s'.pushes = s.pushes := by
  simp only [schedMainStep] at hs
  split at hs
  case h_15 =>
    obtain ⟨range, -, rfl⟩ := Option.map_eq_some_iff.1 hs
    rfl
  all_goals
    repeat' split at hs
    all_goals
      cases hs
      try rfl

/-- A call of `sched_push` stands in the map of the queue, which has one quad. -/
def PushPc.InMap : PushPc → Prop
  | .sig pc => pc.InMap 1
  | _ => True

/-- `sched_main` stands in the map that it searches, of `quads` quads where it searches for a
vrow. -/
def SchedPc.InMap (quads : ℕ) : SchedPc β → Prop
  | .vrow pc => pc.InMap quads
  | .unsig _ _ pc => pc.InMap 1
  | _ => True

/-- The calls on the maps stand in them, and the maps keep their sizes. -/
structure SchedSys.InMap (cfg : SchedConfig β) (s : SchedSys β) : Prop where
  queue_size : s.queue.smapDesc.size = 1
  vrow_size : s.vrowSmap.size = cfg.vrowCount / 64 + 1
  push : ∀ c push, s.pushes c = some push → push.pc.InMap
  main : s.pc.InMap (cfg.vrowCount / 64 + 1)

lemma SchedSys.inMap_start (cfg : SchedConfig β) : (SchedSys.start cfg).InMap cfg :=
  ⟨rfl, rfl, nofun, trivial⟩

lemma schedPushStep_inMap (h : s.InMap cfg) {c : ℕ} {push : Push β} (hpush : push.pc.InMap)
    {queue : BitpoolDesc (Slot β)} {pc : PushPc}
    (hs : schedPushStep s c push = some (queue, pc)) : pc.InMap := by
  obtain ⟨payload, range, at'⟩ := push
  cases at' with
  | sig mapPc =>
    have hnext : ((rangeCall .sigFirst (s.queue.ranges range)).step 1 s.queue.smapDesc.map
        mapPc).2.InMap 1 := MapCall.inMap_step hpush
    rw [← h.queue_size] at hnext
    rcases mapPc with quad | ⟨quad, sigi⟩ | (_ | i)
    · obtain ⟨-, rfl⟩ := Prod.mk.inj (Option.some_injective _ hs)
      exact h.queue_size ▸ hnext
    · obtain ⟨-, rfl⟩ := Prod.mk.inj (Option.some_injective _ hs)
      exact trivial
    · obtain ⟨-, rfl⟩ := Prod.mk.inj (Option.some_injective _ hs)
      exact h.queue_size ▸ MapCall.inMap_start _ _
    · obtain ⟨-, rfl⟩ := Prod.mk.inj (Option.some_injective _ hs)
      exact trivial
  | copy i =>
    obtain ⟨-, rfl⟩ := Prod.mk.inj (Option.some_injective _ hs)
    exact trivial
  | count i =>
    obtain ⟨-, rfl⟩ := Prod.mk.inj (Option.some_injective _ hs)
    exact trivial
  | done succ => cases hs

/-- A step of `sched_main` that leaves the sizes of the maps. -/
lemma SchedSys.InMap.goOn (h : s.InMap cfg)
    (hqueue : s'.queue.smapDesc.size = s.queue.smapDesc.size)
    (hvrow : s'.vrowSmap.size = s.vrowSmap.size) (hpushes : s'.pushes = s.pushes)
    (hmain : s'.pc.InMap (cfg.vrowCount / 64 + 1)) : s'.InMap cfg :=
  ⟨hqueue.trans h.queue_size, hvrow.trans h.vrow_size, hpushes ▸ h.push, hmain⟩

lemma SchedSys.InMap.sched (h : s.InMap cfg) (hs : schedMainStep cfg s = some s') :
    s'.InMap cfg := by
  have hmain := h.main
  have hunsig : ∀ range, ((rangeCall .unsigFirst (s.queue.ranges range)).start
      s.queue.smapDesc.size).InMap 1 := by
    intro range
    rw [h.queue_size]
    exact MapCall.inMap_start _ _
  cases hpc : s.pc with
  | closed =>
    simp only [schedMainStep, hpc] at hs
    split at hs
    all_goals
      obtain rfl := Option.some_injective _ hs
      exact h.goOn rfl rfl rfl trivial
  | presence =>
    simp only [schedMainStep, hpc] at hs
    split at hs
    · obtain rfl := Option.some_injective _ hs
      refine h.goOn rfl rfl rfl ?_
      show ((vrowCall cfg).start s.vrowSmap.size).InMap _
      rw [h.vrow_size]
      exact MapCall.inMap_start _ _
    · obtain rfl := Option.some_injective _ hs
      exact h.goOn rfl rfl rfl trivial
  | vrow mapPc =>
    rw [hpc] at hmain
    rcases mapPc with quad | ⟨quad, sigi⟩ | (_ | vrowI)
    all_goals
      simp only [schedMainStep, hpc] at hs
      obtain rfl := Option.some_injective _ hs
      refine h.goOn rfl rfl rfl ?_
    · show ((vrowCall cfg).step s.vrowSmap.size s.vrowSmap.map (.load quad)).2.InMap _
      rw [h.vrow_size]
      exact MapCall.inMap_step hmain
    all_goals trivial
  | disp vrowI left =>
    cases left with
    | nil =>
      simp only [schedMainStep, hpc] at hs
      obtain rfl := Option.some_injective _ hs
      exact h.goOn rfl rfl rfl (hunsig 3)
    | cons range left =>
      simp only [schedMainStep, hpc] at hs
      split at hs
      · split at hs
        · obtain rfl := Option.some_injective _ hs
          exact h.goOn rfl rfl rfl (hunsig range)
        · obtain rfl := Option.some_injective _ hs
          exact h.goOn rfl rfl rfl trivial
      · obtain rfl := Option.some_injective _ hs
        exact h.goOn rfl rfl rfl trivial
  | unsig vrowI range mapPc =>
    rw [hpc] at hmain
    rcases mapPc with quad | ⟨quad, sigi⟩ | (_ | bucketI)
    all_goals
      simp only [schedMainStep, hpc] at hs
      obtain rfl := Option.some_injective _ hs
      refine h.goOn rfl rfl rfl ?_
    · show ((rangeCall .unsigFirst (s.queue.ranges range)).step s.queue.smapDesc.size
        s.queue.smapDesc.map (.load quad)).2.InMap 1
      rw [h.queue_size]
      exact MapCall.inMap_step hmain
    all_goals trivial
  | sub bucketI =>
    simp only [schedMainStep, hpc] at hs
    obtain ⟨range, -, rfl⟩ := Option.map_eq_some_iff.1 hs
    exact h.goOn rfl rfl rfl trivial
  | terminated =>
    simp only [schedMainStep, hpc] at hs
    cases hs
  | pop vrowI bucketI =>
    simp only [schedMainStep, hpc] at hs
    split at hs
    all_goals
      obtain rfl := Option.some_injective _ hs
      exact h.goOn rfl rfl rfl trivial
  | sigoff bucketI =>
    simp only [schedMainStep, hpc] at hs
    split at hs
    all_goals
      obtain rfl := Option.some_injective _ hs
      exact h.goOn rfl rfl rfl trivial
  | load vrowI bucketI call loadPc =>
    cases loadPc with
    | wait payload =>
      simp only [schedMainStep, hpc, vrowBankLoadStep] at hs
      obtain rfl := Option.some_injective _ hs
      refine h.goOn rfl rfl rfl ?_
      dsimp only
      split
      · exact trivial
      · exact trivial
    | store payload =>
      simp only [schedMainStep, hpc, vrowBankLoadStep] at hs
      obtain rfl := Option.some_injective _ hs
      exact h.goOn rfl rfl rfl trivial
    | fill =>
      simp only [schedMainStep, hpc, vrowBankLoadStep] at hs
      obtain rfl := Option.some_injective _ hs
      exact h.goOn rfl rfl rfl trivial
  | back vrowI =>
    simp only [schedMainStep, hpc] at hs
    obtain rfl := Option.some_injective _ hs
    exact h.goOn rfl rfl rfl trivial
  | terminate =>
    simp only [schedMainStep, hpc] at hs
    obtain rfl := Option.some_injective _ hs
    exact h.goOn rfl rfl rfl trivial

/-- A call that begins stands in the map. -/
lemma schedPush_inMap (h : s.InMap cfg) {payload : β} {prior : MtePrior} {push : Push β}
    (hpush : schedPush s payload prior = some push) : push.pc.InMap := by
  obtain ⟨p, -, rfl⟩ := Option.map_eq_some_iff.1 hpush
  dsimp only
  split
  · trivial
  · rw [h.queue_size]
    exact MapCall.inMap_start _ _

/-- **The calls on the maps stay in them**, in every step. -/
lemma SchedSys.InMap.step (h : s.InMap cfg) {l : SchedStep β} (hs : schedStep cfg s l = some s') :
    s'.InMap cfg := by
  -- the one call that a step changes
  have hupdate : ∀ {c' : ℕ} {push' : Push β}, push'.pc.InMap → ∀ c push,
      Function.update s.pushes c' (some push') c = some push → push.pc.InMap := by
    intro c' push' hpush' c push hpush
    by_cases hc : c = c'
    · rw [hc, Function.update_self] at hpush
      exact Option.some_injective _ hpush ▸ hpush'
    · rw [Function.update_of_ne hc] at hpush
      exact h.push c push hpush
  rcases schedStep_cases hs with ⟨c, payload, prior, push, -, -, hpush, rfl⟩ |
    ⟨c, push, queue, pc, -, hpush, hstep, rfl⟩ | ⟨-, hmain⟩ | ⟨vrowSmap, closed, vrows, hsize, rfl⟩
  · exact ⟨h.queue_size, h.vrow_size, hupdate (schedPush_inMap h hpush), h.main⟩
  · exact ⟨(schedPushStep_frame hstep).2.2.trans h.queue_size, h.vrow_size,
      hupdate (schedPushStep_inMap h (h.push c push hpush) hstep), h.main⟩
  · exact h.sched hmain
  · exact ⟨h.queue_size, hsize.trans h.vrow_size, h.push, h.main⟩

/-- No index of a bit of the map of the vrows wraps. -/
lemma SchedConfig.quad_le (cfg : SchedConfig β) {quad : ℕ} (h : quad < cfg.vrowCount / 64 + 1) :
    64 * (quad + 1) ≤ 2 ^ 32 := by
  have hcount := cfg.vrowCount_lt
  omega

/-- A call begins where it is pushed. -/
lemma schedStep_pushes_none {c : ℕ} {l : SchedStep β} (hs : schedStep cfg s l = some s')
    (hnone : s.pushes c = none) (hl : ∀ payload prior, l ≠ .push c payload prior) :
    s'.pushes c = none := by
  rcases schedStep_cases hs with ⟨c', payload, prior, push, rfl, -, -, rfl⟩ |
    ⟨c', push, queue, pc, -, hpush, -, rfl⟩ | ⟨-, hmain⟩ | ⟨vrowSmap, closed, vrows, -, rfl⟩
  · have hc : c ≠ c' := fun h => hl payload prior (h ▸ rfl)
    exact (Function.update_of_ne hc _ _).trans hnone
  · have hc : c ≠ c' := by
      rintro rfl
      rw [hnone] at hpush
      cases hpush
    exact (Function.update_of_ne hc _ _).trans hnone
  · rw [schedMainStep_pushes hmain, hnone]
  · exact hnone

/-- There are no calls but those of the run. -/
lemma pushes_of_runs {ls : List (SchedStep β)} {c : ℕ}
    (hs : runs (schedStep cfg) (.start cfg) ls = some s)
    (hls : ∀ payload prior, .push c payload prior ∉ ls) : s.pushes c = none := by
  refine inv_of_allSteps (I := fun s : SchedSys β => s.pushes c = none)
    (C := fun _ l => ∀ payload prior, l ≠ .push c payload prior)
    (fun s l s' hnone hl hs => schedStep_pushes_none hs hnone hl) rfl
    (allSteps_of_forall fun l hl _ payload prior heq => ?_) hs
  rw [heq] at hl
  exact hls payload prior hl

end

end AxVirtLayer
