import AxVirtLayer.Pipe.Sched

/-!
# Creation and deletion of a scheduler

`sched_create`, its failure paths and `sched_delete` by their calls (`sched.c`), interleaved with
the threads that are started on the way.  `sched_main` is started last; every failure path before
it goes through `sched_delete`, which waits for `sched_main` to terminate.  `not_cleansUp` says
that no failure path returns, `delete_returns` that the same function is right for a scheduler
whose creation succeeded.

Memory is zeroed when it is handed out: a pointer of `vrow_base` that was not written is null,
and `vrow_delete` of it returns.  What the freed memory holds is not modelled.
-/

namespace AxVirtLayer

open Lib

/-! ## The machine -/

/-- The calls of `sched_create` that can fail. -/
inductive CreateCall
  | syncMapInit
  | vrowCreate (k : ℕ)
  | bitpoolCreate
deriving DecidableEq, Repr

/-- Where the thread stands that creates the scheduler, and later deletes it. -/
inductive CreatePc
  /-- The checks of the arguments. -/
  | check
  | syncMapInit
  /-- In the loop over the vrows. -/
  | vrowCreate (k : ℕ)
  | bitpoolCreate
  | pthreadCreate
  /-- `sched_create` has returned `AX_SUCC`. -/
  | created
  /-- `sched_close`, at the start of `sched_delete`. -/
  | close
  /-- `sched_is_terminated`. -/
  | wait
  /-- In the loop of `sched_delete`, before `vrow_delete`, and in its loop. -/
  | vrowDelete (i : ℕ)
  | vrowWait (i : ℕ)
  /-- `axfree` of `vrow_base`. -/
  | freeBase
  | bitpoolDelete
  | syncMapDisp
  /-- `axfree` of the context. -/
  | free
  /-- Returned, from `sched_create` with an error or from `sched_delete`. -/
  | returned
deriving DecidableEq, Repr

/-- The scheduler that is created, and what there is of it. -/
structure CreateSys (β : Type) where
  pc : CreatePc
  sched : SchedSys β
  /-- The thread of `sched_main` was started. -/
  started : Bool
  /-- The pointers written to `vrow_base`, from the first one on. -/
  created : ℕ
  /-- The vrows `vrow_delete` was called for, the last one first. -/
  deleted : List ℕ
  /-- What is allocated: `vrow_base`, the queue, the map of the vrows, the context. -/
  base : Bool
  queue : Bool
  smap : Bool
  context : Bool

/-- The steps: of the thread that creates the scheduler, its call of `sched_delete` after a
success, of `sched_main`, of the thread of a vrow. -/
inductive CreateStep
  | creator
  | delete
  | main
  | vrow (i : ℕ)
deriving DecidableEq, Repr

section

variable {β : Type}

/-- Before the call of `sched_create`. -/
def CreateSys.start (cfg : SchedConfig β) : CreateSys β where
  pc := .check
  sched := SchedSys.start cfg
  started := false
  created := 0
  deleted := []
  base := false
  queue := false
  smap := false
  context := false

/-- `sched_is_terminated`. -/
def schedIsTerminated (s : SchedSys β) : Bool :=
  match s.pc with
  | .terminated => true
  | _ => false

/-- `vrow_close` of a vrow. -/
def SchedSys.closeVrow (s : SchedSys β) (i : ℕ) : SchedSys β :=
  { s with
    vrows := Function.update s.vrows i ({ (s.vrows i).1 with closed := true }, (s.vrows i).2) }

/-- The next call of `sched_create` or `sched_delete`; `fault` is the call that fails. -/
def creatorStep (cfg : SchedConfig β) (fault : Option CreateCall) (s : CreateSys β) :
    Option (CreateSys β) :=
  match s.pc with
  | .check => some (if cfg.vrowCount = 0 then { s with pc := .returned }
      else { s with base := true, context := true, pc := .syncMapInit })
  | .syncMapInit => some (if fault = some .syncMapInit then { s with pc := .close }
      else { s with smap := true, pc := .vrowCreate 0 })
  | .vrowCreate k => some (
      if k < cfg.vrowCount then
        if fault = some (.vrowCreate k) then { s with pc := .close }
        else { s with created := k + 1, pc := .vrowCreate (k + 1) }
      else { s with pc := .bitpoolCreate })
  | .bitpoolCreate => some (if fault = some .bitpoolCreate then { s with pc := .close }
      else { s with queue := true, pc := .pthreadCreate })
  | .pthreadCreate => some { s with started := true, pc := .created }
  | .created => none
  | .close => some { s with sched := { s.sched with closed := true }, pc := .wait }
  | .wait => some (if schedIsTerminated s.sched then { s with pc := .vrowDelete 0 } else s)
  | .vrowDelete i => some (
      if i < cfg.vrowCount then
        -- a null pointer is not deleted
        if i < s.created then
          { s with sched := s.sched.closeVrow i, deleted := i :: s.deleted, pc := .vrowWait i }
        else { s with pc := .vrowDelete (i + 1) }
      else { s with pc := .freeBase })
  | .vrowWait i => some (if (s.sched.vrows i).1.states = vrowStateEmpty
      then { s with pc := .vrowDelete (i + 1) } else s)
  | .freeBase => some { s with base := false, pc := .bitpoolDelete }
  | .bitpoolDelete => some { s with queue := false, pc := .syncMapDisp }
  | .syncMapDisp => some { s with smap := false, pc := .free }
  | .free => some { s with context := false, pc := .returned }
  | .returned => none

/-- One step of the threads. -/
def createStep (cfg : SchedConfig β) (fault : Option CreateCall) (s : CreateSys β) :
    CreateStep → Option (CreateSys β)
  | .creator => creatorStep cfg fault s
  | .delete => if s.pc = .created then some { s with pc := .close } else none
  | .main =>
    if s.started then (schedMainStep cfg s.sched).map fun sched => { s with sched := sched }
    else none
  | .vrow i =>
    if i < s.created then
      (schedStep cfg s.sched (.vrow i)).map fun sched => { s with sched := sched }
    else none

/-! ## The property -/

/-- The call is one of those that `sched_create` makes. -/
def CreateCall.Valid (vrowCount : ℕ) : CreateCall → Prop
  | .vrowCreate k => k < vrowCount
  | _ => True

/-- **A failed creation cleans up and returns**: from every state it can get to the return, where
`vrow_delete` was called once for each vrow created and for nothing else, and the map and the
context are released; it waits for no thread that was not started. -/
structure CleansUp (cfg : SchedConfig β) (fault : CreateCall) : Prop where
  returns : ∀ ls s, runs (createStep cfg (some fault)) (CreateSys.start cfg) ls = some s →
    ∃ ls' t, runs (createStep cfg (some fault)) s ls' = some t ∧ t.pc = .returned
  deletes : ∀ ls s, runs (createStep cfg (some fault)) (CreateSys.start cfg) ls = some s →
    s.pc = .returned → s.deleted.Nodup ∧ ∀ i, i ∈ s.deleted ↔ i < s.created
  releases : ∀ ls s, runs (createStep cfg (some fault)) (CreateSys.start cfg) ls = some s →
    s.pc = .returned → s.smap = false ∧ s.context = false
  waits : ∀ ls s, runs (createStep cfg (some fault)) (CreateSys.start cfg) ls = some s →
    s.pc = .wait → s.started = true

/-! ## A failed creation -/

variable {cfg : SchedConfig β} {fault : CreateCall} {s s' : CreateSys β}

/-- The places of a creation that fails: those up to the call, and the wait. -/
def CreatePc.BeforeFault (cfg : SchedConfig β) (fault : CreateCall) : CreatePc → Prop
  | .check | .syncMapInit | .close | .wait => True
  | .vrowCreate k =>
    (∃ j, fault = .vrowCreate j ∧ k ≤ j ∧ j < cfg.vrowCount) ∨ fault = .bitpoolCreate
  | .bitpoolCreate => fault = .bitpoolCreate
  | _ => False

/-- The invariant of a creation that fails: `sched_main` is not started and has not terminated. -/
structure CreateSys.Failing (cfg : SchedConfig β) (fault : CreateCall) (s : CreateSys β) :
    Prop where
  started : s.started = false
  terminated : schedIsTerminated s.sched = false
  place : s.pc.BeforeFault cfg fault

lemma CreateSys.failing_start : (CreateSys.start cfg).Failing cfg fault := ⟨rfl, rfl, trivial⟩

/-- The thread that creates the scheduler does not get past the wait. -/
lemma CreateSys.Failing.creator (h : s.Failing cfg fault) (hcount : 0 < cfg.vrowCount)
    (hfault : fault.Valid cfg.vrowCount) (hs : creatorStep cfg (some fault) s = some s') :
    s'.Failing cfg fault := by
  obtain ⟨hstarted, hterm, hplace⟩ := h
  cases hpc : s.pc with
  | check =>
    simp only [creatorStep, hpc, if_neg hcount.ne'] at hs
    cases hs
    exact ⟨hstarted, hterm, trivial⟩
  | syncMapInit =>
    simp only [creatorStep, hpc] at hs
    split at hs
    · cases hs
      exact ⟨hstarted, hterm, trivial⟩
    · rename_i hne
      cases hs
      refine ⟨hstarted, hterm, ?_⟩
      cases fault with
      | syncMapInit => exact absurd rfl hne
      | vrowCreate j => exact Or.inl ⟨j, rfl, Nat.zero_le j, hfault⟩
      | bitpoolCreate => exact Or.inr rfl
  | vrowCreate k =>
    rw [hpc] at hplace
    simp only [creatorStep, hpc] at hs
    split at hs
    · split at hs
      · cases hs
        exact ⟨hstarted, hterm, trivial⟩
      · rename_i hne
        cases hs
        refine ⟨hstarted, hterm, ?_⟩
        rcases hplace with ⟨j, rfl, hle, hlt⟩ | hqueue
        · have hkj : k ≠ j := fun heq => hne (heq ▸ rfl)
          exact Or.inl ⟨j, rfl, by omega, hlt⟩
        · exact Or.inr hqueue
    · cases hs
      refine ⟨hstarted, hterm, ?_⟩
      rcases hplace with ⟨j, rfl, hle, hlt⟩ | hqueue
      · omega
      · exact hqueue
  | bitpoolCreate =>
    rw [hpc] at hplace
    obtain rfl : fault = .bitpoolCreate := hplace
    simp only [creatorStep, hpc, if_pos] at hs
    cases hs
    exact ⟨hstarted, hterm, trivial⟩
  | close =>
    simp only [creatorStep, hpc] at hs
    cases hs
    exact ⟨hstarted, hterm, trivial⟩
  | wait =>
    simp only [creatorStep, hpc, hterm, if_neg Bool.false_ne_true] at hs
    cases hs
    exact ⟨hstarted, hterm, hplace⟩
  | _ =>
    rw [hpc] at hplace
    exact absurd hplace id

/-- Only `sched_main` terminates itself. -/
lemma schedIsTerminated_vrow {sched sched' : SchedSys β} {i : ℕ}
    (hs : schedStep cfg sched (.vrow i) = some sched') :
    schedIsTerminated sched' = schedIsTerminated sched := by
  obtain ⟨hpc, -⟩ := schedStep_frame hs (by simp)
  rw [schedIsTerminated, schedIsTerminated, hpc]

/-- Every step of a creation that fails keeps the invariant. -/
lemma CreateSys.Failing.step (h : s.Failing cfg fault) (hcount : 0 < cfg.vrowCount)
    (hfault : fault.Valid cfg.vrowCount) {l : CreateStep}
    (hs : createStep cfg (some fault) s l = some s') : s'.Failing cfg fault := by
  cases l with
  | creator => exact h.creator hcount hfault hs
  | delete =>
    -- no scheduler is returned that could be deleted
    have hnot : s.pc ≠ .created := by
      intro hpc
      have hplace := h.place
      rw [hpc] at hplace
      exact hplace
    rw [createStep, if_neg hnot] at hs
    cases hs
  | main =>
    rw [createStep, h.started, if_neg Bool.false_ne_true] at hs
    cases hs
  | vrow i =>
    rw [createStep] at hs
    split at hs
    · obtain ⟨sched, hsched, rfl⟩ := Option.map_eq_some_iff.1 hs
      exact ⟨h.started, (schedIsTerminated_vrow hsched).trans h.terminated, h.place⟩
    · cases hs

/-- A creation that fails never returns. -/
lemma failing_not_returned (hcount : 0 < cfg.vrowCount) (hfault : fault.Valid cfg.vrowCount)
    {ls : List CreateStep}
    (hs : runs (createStep cfg (some fault)) (CreateSys.start cfg) ls = some s) :
    s.pc ≠ .returned := by
  intro hpc
  have h : s.Failing cfg fault :=
    inv_of_runs (I := CreateSys.Failing cfg fault)
      (fun _ _ _ h hstep => h.step hcount hfault hstep) CreateSys.failing_start hs
  have hplace := h.place
  rw [hpc] at hplace
  exact hplace

/-- Before the loop over the vrows. -/
def CreateSys.allocated (cfg : SchedConfig β) : CreateSys β :=
  { CreateSys.start cfg with base := true, context := true, smap := true, pc := .vrowCreate 0 }

lemma runs_allocated {fault : Option CreateCall} (hcount : 0 < cfg.vrowCount)
    (hok : fault ≠ some .syncMapInit) :
    runs (createStep cfg fault) (CreateSys.start cfg) [.creator, .creator] =
      some (CreateSys.allocated cfg) := by
  have hcheck : createStep cfg fault (CreateSys.start cfg) .creator = some
      { CreateSys.start cfg with base := true, context := true, pc := .syncMapInit } := by
    rw [createStep, creatorStep]
    exact congrArg some (if_neg hcount.ne')
  rw [runs_cons, hcheck, Option.bind_some, runs_cons, createStep, creatorStep]
  simp only [if_neg hok, Option.bind_some]
  rfl

/-- The loop over the vrows, as long as no call fails. -/
lemma runs_vrowCreate (fault : Option CreateCall) (n k : ℕ) (hpc : s.pc = .vrowCreate k)
    (hcreated : s.created = k) (hto : k + n ≤ cfg.vrowCount)
    (hok : ∀ j, k ≤ j → j < k + n → fault ≠ some (.vrowCreate j)) :
    runs (createStep cfg fault) s (List.replicate n .creator) =
      some { s with created := k + n, pc := .vrowCreate (k + n) } := by
  induction n generalizing s k with
  | zero =>
    obtain ⟨pc, sched, started, created, deleted, base, queue, smap, context⟩ := s
    subst hpc
    obtain rfl : created = k := hcreated
    rfl
  | succ n ih =>
    have hstep : createStep cfg fault s .creator =
        some { s with created := k + 1, pc := .vrowCreate (k + 1) } := by
      simp only [createStep, creatorStep, hpc]
      rw [if_pos (by omega), if_neg (hok k le_rfl (by omega))]
    rw [List.replicate_succ, runs_cons, hstep, Option.bind_some,
      ih (k + 1) rfl rfl (by omega) fun j hle hlt => hok j (by omega) (by omega)]
    simp only [Nat.add_assoc, Nat.add_comm 1 n]

/-- A call that fails leads to the wait, past `sched_close`. -/
lemma waits_of_fails {ls : List CreateStep}
    (hs : runs (createStep cfg (some fault)) (CreateSys.start cfg) ls = some s)
    (hfails : creatorStep cfg (some fault) s = some { s with pc := .close })
    (hstarted : s.started = false) :
    ∃ ls t, runs (createStep cfg (some fault)) (CreateSys.start cfg) ls = some t ∧
      t.pc = .wait ∧ t.started = false := by
  refine ⟨ls ++ [.creator, .creator],
    { s with sched := { s.sched with closed := true }, pc := .wait }, runs_trans hs ?_, rfl,
    hstarted⟩
  rw [runs_cons, createStep, hfails]
  rfl

/-- **A failed creation gets to the wait** for a thread that was not started. -/
lemma failing_waits (hcount : 0 < cfg.vrowCount) (hfault : fault.Valid cfg.vrowCount) :
    ∃ ls s, runs (createStep cfg (some fault)) (CreateSys.start cfg) ls = some s ∧
      s.pc = .wait ∧ s.started = false := by
  cases fault with
  | syncMapInit =>
    have hcheck : runs (createStep cfg (some .syncMapInit)) (CreateSys.start cfg) [.creator] =
        some { CreateSys.start cfg with base := true, context := true, pc := .syncMapInit } :=
      congrArg some (if_neg hcount.ne')
    exact waits_of_fails hcheck rfl rfl
  | vrowCreate k =>
    have hlt : k < cfg.vrowCount := hfault
    have hloop := runs_vrowCreate (s := CreateSys.allocated cfg) (some (.vrowCreate k))
      k 0 rfl rfl ((Nat.zero_add k).trans_le hlt.le) fun j _ hj heq => by
        cases heq
        omega
    have hs : runs (createStep cfg (some (.vrowCreate k))) (CreateSys.start cfg)
        ([.creator, .creator] ++ List.replicate k .creator) =
          some { CreateSys.allocated cfg with created := 0 + k, pc := .vrowCreate (0 + k) } :=
      runs_trans (runs_allocated hcount (by simp)) hloop
    refine waits_of_fails hs ?_ rfl
    simp only [creatorStep, Nat.zero_add, if_pos hlt, if_true]
  | bitpoolCreate =>
    have hloop := runs_vrowCreate (s := CreateSys.allocated cfg) (some .bitpoolCreate)
      cfg.vrowCount 0 rfl rfl (Nat.zero_add _).le fun j _ _ => by simp
    have hs : runs (createStep cfg (some .bitpoolCreate)) (CreateSys.start cfg)
        ([.creator, .creator] ++ (List.replicate cfg.vrowCount .creator ++ [.creator])) =
          some { CreateSys.allocated cfg with
            created := 0 + cfg.vrowCount, pc := .bitpoolCreate } := by
      refine runs_trans (runs_allocated hcount (by simp)) (runs_trans hloop ?_)
      simp only [runs_cons, createStep, creatorStep, Nat.zero_add, lt_irrefl, if_false,
        Option.bind_some, runs_nil]
    exact waits_of_fails hs rfl rfl

/-- **No failed creation cleans up and returns**: in no run does it get past the wait. -/
theorem not_cleansUp (hcount : 0 < cfg.vrowCount) (hfault : fault.Valid cfg.vrowCount) :
    ¬ CleansUp cfg fault ∧
      ∀ ls s, runs (createStep cfg (some fault)) (CreateSys.start cfg) ls = some s →
        s.pc ≠ .returned := by
  refine ⟨fun h => ?_, fun ls s hs => failing_not_returned hcount hfault hs⟩
  obtain ⟨n, s, hs, hpc, hstarted⟩ := failing_waits hcount hfault
  have hwaits := h.waits _ _ hs hpc
  rw [hstarted] at hwaits
  cases hwaits

/-- Vrows without functions. -/
def plainSched (vrowCount : ℕ) (vrowCount_lt : vrowCount < 2 ^ 8) : SchedConfig ℕ :=
  ⟨vrowCount, defaultRanges, fun _ => false, ⟨none, false⟩, 0, vrowCount_lt⟩

theorem not_cleansUp_twoVrows : ¬ CleansUp (plainSched 2 (by decide)) (.vrowCreate 1) ∧
    ∀ ls s, runs (createStep (plainSched 2 (by decide)) (some (.vrowCreate 1)))
      (CreateSys.start (plainSched 2 (by decide))) ls = some s → s.pc ≠ .returned :=
  not_cleansUp (by decide) (by decide : 1 < 2)

/-- One vrow, and no memory for the queue. -/
theorem plainSched_not_cleansUp : ¬ CleansUp (plainSched 1 (by decide)) .bitpoolCreate := by
  intro h
  have hwaits := h.waits [.creator, .creator, .creator, .creator, .creator, .creator] _ rfl rfl
  exact Bool.false_ne_true hwaits

/-! ## A creation that succeeds -/

/-- The thread of a vrow that was not given a payload leaves its loop and empties the flags when
the vrow is closed. -/
lemma runs_vrowExit (fault : Option CreateCall) {i : ℕ} (hi : i < s.created)
    (hcount : i < cfg.vrowCount) (hclosed : (s.sched.vrows i).1.closed = true)
    (hloop : (s.sched.vrows i).2 = .loop) :
    ∃ sched, runs (createStep cfg fault) s [.vrow i, .vrow i, .vrow i] =
        some { s with sched := sched } ∧ sched.pc = s.sched.pc ∧
      (sched.vrows i).1.states = vrowStateEmpty ∧
      ∀ j, j ≠ i → sched.vrows j = s.sched.vrows j := by
  refine ⟨{ s.sched with
    vrows := Function.update s.sched.vrows i (⟨fun _ => cfg.zero, vrowStateEmpty, true⟩, .exited) },
    ?_, rfl, by simp, fun j hj => Function.update_of_ne hj _ _⟩
  obtain ⟨vrow, hvrow⟩ : ∃ vrow, s.sched.vrows i = (vrow, .loop) :=
    ⟨(s.sched.vrows i).1, by rw [← hloop]⟩
  have hclosed' : vrow.closed = true := by rwa [hvrow] at hclosed
  simp [runs_cons, createStep, hi, schedStep, hcount, hvrow, vrowThreadStep, VrowSignal.apply,
    hclosed']

/-- The loop of `sched_delete` over vrows that wait for payloads. -/
lemma runs_vrowDelete (fault : Option CreateCall) (n i : ℕ) (hpc : s.pc = .vrowDelete i)
    (hto : i + n = cfg.vrowCount) (hcreated : s.created = cfg.vrowCount)
    (hloop : ∀ j, i ≤ j → (s.sched.vrows j).2 = .loop) :
    ∃ ls t, runs (createStep cfg fault) s ls = some t ∧ t.pc = .vrowDelete cfg.vrowCount ∧
      t.created = cfg.vrowCount ∧ t.deleted = (List.range' i n).reverse ++ s.deleted := by
  induction n generalizing s i with
  | zero =>
    refine ⟨[], s, rfl, ?_, hcreated, rfl⟩
    rw [hpc, ← hto, Nat.add_zero]
  | succ n ih =>
    have hi : i < cfg.vrowCount := by omega
    -- `vrow_close`, the three steps of the thread, the test of the flags
    let closing : CreateSys β :=
      { s with sched := s.sched.closeVrow i, deleted := i :: s.deleted, pc := .vrowWait i }
    have hclose : createStep cfg fault s .creator = some closing := by
      simp only [createStep, creatorStep, hpc, if_pos hi, if_pos (hcreated.symm ▸ hi)]
      rfl
    have hclosing : closing.sched.vrows i =
        ({ (s.sched.vrows i).1 with closed := true }, (s.sched.vrows i).2) :=
      Function.update_self i _ _
    obtain ⟨sched, hexit, -, hempty, hothers⟩ := runs_vrowExit (s := closing) fault
      (hcreated.symm ▸ hi) hi (by rw [hclosing]) (by rw [hclosing]; exact hloop i le_rfl)
    have htest : createStep cfg fault { closing with sched := sched } .creator =
        some { closing with sched := sched, pc := .vrowDelete (i + 1) } := by
      simp only [createStep, creatorStep, closing, hempty, if_true]
    obtain ⟨ls, t, hls, hpc', hcreated', hdeleted⟩ := ih
      (s := { closing with sched := sched, pc := .vrowDelete (i + 1) }) (i + 1) rfl (by omega)
      hcreated fun j hj => by
        have hne : j ≠ i := by omega
        show (sched.vrows j).2 = .loop
        rw [hothers j hne]
        show (Function.update s.sched.vrows i _ j).2 = .loop
        rw [Function.update_of_ne hne]
        exact hloop j (by omega)
    refine ⟨.creator :: ([.vrow i, .vrow i, .vrow i] ++ .creator :: ls), t, ?_, hpc', hcreated', ?_⟩
    · rw [runs_cons, hclose, Option.bind_some, runs_append, hexit, Option.bind_some, runs_cons,
        htest, Option.bind_some, hls]
    · rw [hdeleted, List.range'_succ, List.reverse_cons, List.append_assoc]
      rfl

/-- Nothing of the scheduler is left: `vrow_delete` was called once for each vrow. -/
structure CreateSys.Gone (cfg : SchedConfig β) (s : CreateSys β) : Prop where
  returned : s.pc = .returned
  created : s.created = cfg.vrowCount
  deleted : s.deleted = (List.range cfg.vrowCount).reverse
  base : s.base = false
  queue : s.queue = false
  smap : s.smap = false
  context : s.context = false

/-- What `sched_delete` frees after the vrows. -/
lemma runs_free (fault : Option CreateCall) (hpc : s.pc = .vrowDelete cfg.vrowCount)
    (hcreated : s.created = cfg.vrowCount)
    (hdeleted : s.deleted = (List.range cfg.vrowCount).reverse) :
    ∃ t, runs (createStep cfg fault) s (List.replicate 5 .creator) = some t ∧ t.Gone cfg := by
  refine ⟨{ s with
    base := false, queue := false, smap := false, context := false, pc := .returned },
    ?_, rfl, hcreated, hdeleted, rfl, rfl, rfl, rfl⟩
  simp only [List.replicate, runs_cons, runs_nil, createStep, creatorStep, hpc, lt_irrefl,
    if_false, Option.bind_some]

/-- **`sched_delete` of a scheduler that was created** can return, and then everything was
deleted: `sched_main` was started, and terminates when it is closed. -/
lemma delete_returns (hcount : 0 < cfg.vrowCount) :
    ∃ ls t, runs (createStep cfg none) (CreateSys.start cfg) ls = some t ∧ t.Gone cfg := by
  have hloop := runs_vrowCreate (s := CreateSys.allocated cfg) none
    cfg.vrowCount 0 rfl rfl (Nat.zero_add _).le fun j _ _ => by simp
  rw [Nat.zero_add] at hloop
  -- the creation, the close, the end of `sched_main`
  let deleting : CreateSys β := { CreateSys.allocated cfg with
    created := cfg.vrowCount, queue := true, started := true,
    sched := { SchedSys.start cfg with closed := true, pc := .terminated }, pc := .vrowDelete 0 }
  have hclosed : runs (createStep cfg none) { CreateSys.allocated cfg with
      created := cfg.vrowCount, pc := .vrowCreate cfg.vrowCount }
      [.creator, .creator, .creator, .delete, .creator, .main, .main, .creator] =
        some deleting := by
    rw [runs_cons, createStep, creatorStep]
    simp only [lt_irrefl, if_false, Option.bind_some]
    rfl
  obtain ⟨ls, t, hls, hpc, hcreated, hdeleted⟩ := runs_vrowDelete (s := deleting) none
    cfg.vrowCount 0 rfl (Nat.zero_add _) rfl fun _ _ => rfl
  rw [← List.range_eq_range'] at hdeleted
  obtain ⟨u, hu, hgone⟩ := runs_free none hpc hcreated
    (hdeleted.trans (List.append_nil _))
  have hrun := runs_trans hclosed (runs_trans hls hu)
  exact ⟨_, u, runs_trans (runs_allocated hcount (by simp)) (runs_trans hloop hrun), hgone⟩

end

end AxVirtLayer
