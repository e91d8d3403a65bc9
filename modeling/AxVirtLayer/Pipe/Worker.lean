import AxVirtLayer.Pipe.Sched

/-!
# A worker that stops

`sched_main` and the threads of the vrows: whether a thread that has decided to leave its loop
gets another payload.  A thread that fails gives its bit in the map of the vrows back before it
flushes its banks, and `sched_main` may claim the bit at once.  `noLateWork_of_claimsStaying` says
that this claim is all that can go wrong.
-/

namespace AxVirtLayer

open Lib

/-! ## The property -/

/-- The thread has decided to leave its loop. -/
def VrowPc.leaving : VrowPc → Bool
  | .sigoff true | .zero | .empty | .exited => true
  | _ => false

section

variable {β : Type}

/-- **No work for a worker that stops**: `sched_main` loads no payload into a vrow whose thread
has decided to leave, and after the flush the flags of the vrow are empty. -/
def NoLateWork (s : SchedSys β) : Prop :=
  ∀ i, (s.vrows i).2.leaving = true →
    (∀ bucketI call pc, s.pc ≠ .load i bucketI call pc) ∧
      ((s.vrows i).2 = .exited → (s.vrows i).1.states = vrowStateEmpty)

/-- The `fetch_or` of `sched_main` for a vrow finds a thread that has not decided to leave. -/
def ClaimsStaying (s : SchedSys β) : SchedStep β → Prop
  | .sched =>
    match s.pc with
    | .vrow (.claim quad sigi) => (s.vrows (sigi + 64 * quad)).2.leaving = false
    | _ => True
  | _ => True

instance (s : SchedSys β) (l : SchedStep β) : Decidable (ClaimsStaying s l) := by
  unfold ClaimsStaying
  split
  · split <;> infer_instance
  · infer_instance

/-! ## One vrow -/

/-- The thread waits for a payload. -/
def VrowPc.Idle (pc : VrowPc) : Prop := pc = .loop ∨ pc = .filled

/-- The thread is done with bank 0 and not yet back at the head of the loop. -/
def VrowPc.Drained : VrowPc → Prop
  | .proc 1 | .proc 2 | .activeTo .oneTwo | .activeFrom .oneTwo | .fillTo .oneTwo
  | .move .oneTwo | .fillFrom .oneTwo | .sigoff false => True
  | _ => False

/-- The bit of a vrow in the map after its signal. -/
def VrowSignal.bit (signal : VrowSignal) (bit : Bool) : Bool :=
  match signal with
  | .keep => bit
  | .on => true
  | .off => false

/-- What holds of a vrow with its bit in the map; `held` is that `sched_main` has the bit and
has not loaded a payload yet. -/
structure WorkerOk (bit : Bool) (held terminated : Prop) (vrow : Vrow β) (pc : VrowPc) :
    Prop where
  free : bit = false → pc.leaving = false → pc.Idle ∧ vrowIsFilled vrow 0 = false
  held : held → bit = true ∧ pc.Idle ∧ vrowIsFilled vrow 0 = false
  entered : pc.HoldsZero → vrowIsFilled vrow 0 = true
  drained : pc.Drained → vrowIsFilled vrow 0 = false
  closed : vrow.closed = true → terminated
  exited : pc = .exited → vrow.states = vrowStateEmpty

variable {bit : Bool} {held terminated : Prop} {vrow vrow' : Vrow β} {pc pc' : VrowPc}

lemma VrowPc.Idle.leaving (h : pc.Idle) : pc.leaving = false := by
  rcases h with rfl | rfl
  · rfl
  · rfl

/-- A place that is neither idle nor on the way out has the bit set. -/
lemma WorkerOk.busy (h : WorkerOk bit held terminated vrow pc) (hpc : ¬ pc.Idle)
    (hleaving : pc.leaving = false) : bit = true ∧ ¬ held := by
  refine ⟨?_, fun hheld => hpc (h.held hheld).2.1⟩
  by_contra hbit
  exact hpc (h.free (Bool.eq_false_of_not_eq_true hbit) hleaving).1

lemma WorkerOk.not_held (h : WorkerOk bit held terminated vrow pc) (hpc : pc.leaving = true) :
    ¬ held := by
  intro hheld
  rw [(h.held hheld).2.1.leaving] at hpc
  cases hpc

/-- A step to a place inside the loop, past the test of bank 0, with the bit set. -/
lemma WorkerOk.inside (h : WorkerOk bit held terminated vrow pc) (hheld : ¬ held)
    (hclosed : vrow'.closed = vrow.closed) (hentered : pc'.HoldsZero → vrowIsFilled vrow' 0 = true)
    (hdrained : pc'.Drained → vrowIsFilled vrow' 0 = false) (hstays : pc'.leaving = false) :
    WorkerOk true held terminated vrow' pc' where
  free := by
    intro hclear
    cases hclear
  held := fun h => absurd h hheld
  entered := hentered
  drained := hdrained
  closed := fun hc => h.closed (hclosed ▸ hc)
  exited := by
    rintro rfl
    cases hstays

/-- A step inside the loop that leaves the `F` bit of bank 0 as it is. -/
lemma WorkerOk.sameFlag (h : WorkerOk bit held terminated vrow pc) (hheld : ¬ held)
    (hfilled : vrowIsFilled vrow' 0 = vrowIsFilled vrow 0) (hclosed : vrow'.closed = vrow.closed)
    (hzero : pc'.HoldsZero → pc.HoldsZero) (hdrained : pc'.Drained → pc.Drained)
    (hstays : pc'.leaving = false) : WorkerOk true held terminated vrow' pc' :=
  h.inside hheld hclosed (fun hpc => hfilled.trans (h.entered (hzero hpc)))
    (fun hpc => hfilled.trans (h.drained (hdrained hpc))) hstays

lemma VrowPc.leaving_cases (h : pc.leaving = true) :
    pc = .sigoff true ∨ pc = .zero ∨ pc = .empty ∨ pc = .exited := by
  cases pc with
  | sigoff leave =>
    cases leave with
    | false => cases h
    | true => exact Or.inl rfl
  | zero => exact Or.inr (Or.inl rfl)
  | empty => exact Or.inr (Or.inr (Or.inl rfl))
  | exited => exact Or.inr (Or.inr (Or.inr rfl))
  | _ => cases h

/-- A step on the way out. -/
lemma WorkerOk.outside (h : WorkerOk bit held terminated vrow pc) (hheld : ¬ held)
    (hclosed : vrow'.closed = vrow.closed) (hleaving : pc'.leaving = true)
    (hexited : pc' = .exited → vrow'.states = vrowStateEmpty) (bit' : Bool) :
    WorkerOk bit' held terminated vrow' pc' where
  free := by
    intro _ hno
    rw [hleaving] at hno
    cases hno
  held := fun h => absurd h hheld
  entered := by
    rcases VrowPc.leaving_cases hleaving with rfl | rfl | rfl | rfl
    all_goals exact False.elim
  drained := by
    rcases VrowPc.leaving_cases hleaving with rfl | rfl | rfl | rfl
    all_goals exact False.elim
  closed := fun hc => h.closed (hclosed ▸ hc)
  exited := hexited

/-- A step of a thread that goes on waiting. -/
lemma WorkerOk.idle (h : WorkerOk bit held terminated vrow pc) (hpc : pc.Idle) (hpc' : pc'.Idle) :
    WorkerOk bit held terminated vrow pc' where
  free := fun hbit _ => ⟨hpc', (h.free hbit hpc.leaving).2⟩
  held := fun hheld => ⟨(h.held hheld).1, hpc', (h.held hheld).2.2⟩
  entered := by
    rcases hpc' with rfl | rfl
    all_goals exact False.elim
  drained := by
    rcases hpc' with rfl | rfl
    all_goals exact False.elim
  closed := h.closed
  exited := by
    intro hexited
    rcases hpc' with rfl | rfl
    all_goals cases hexited

/-- **One step of a thread.** -/
lemma WorkerOk.thread {funcs : BankFuncs β} {zero : β} {signal : VrowSignal}
    (h : WorkerOk bit held terminated vrow pc) (hterminated : terminated → ¬ held)
    (hs : vrowThreadStep funcs zero vrow pc = some (vrow', signal, pc')) :
    WorkerOk (signal.bit bit) held terminated vrow' pc' := by
  cases pc with
  | loop =>
    obtain ⟨rfl, rfl, rfl⟩ := Option.some_injective _ hs
    by_cases hclosed : vrow.closed = true
    · rw [if_pos hclosed]
      have hleaving : VrowPc.zero.leaving = true := rfl
      exact h.outside (hterminated (h.closed hclosed)) rfl hleaving
        (fun hexited => by cases hexited) _
    · rw [if_neg hclosed]
      exact h.idle (Or.inl rfl) (Or.inr rfl)
  | filled =>
    obtain ⟨rfl, rfl, rfl⟩ := Option.some_injective _ hs
    by_cases hfilled : vrowIsFilled vrow 0 = true
    · -- the payload was loaded by `sched_main`, which holds the bit no more
      rw [if_pos hfilled]
      have hheld : ¬ held := fun hheld => by
        rw [(h.held hheld).2.2] at hfilled
        cases hfilled
      have hbit : bit = true := by
        by_contra hbit
        rw [(h.free (Bool.eq_false_of_not_eq_true hbit) rfl).2] at hfilled
        cases hfilled
      rw [hbit] at h ⊢
      exact h.inside hheld rfl (fun _ => hfilled) False.elim rfl
    · rw [if_neg hfilled]
      exact h.idle (Or.inr rfl) (Or.inl rfl)
  | enter =>
    obtain ⟨rfl, rfl, rfl⟩ := Option.some_injective _ hs
    obtain ⟨rfl, hheld⟩ := h.busy (by rintro (h | h) <;> cases h) rfl
    exact h.sameFlag hheld (vrowIsFilled_activeSwitch _ _ _) rfl (fun _ => trivial) False.elim rfl
  | sigon =>
    obtain ⟨rfl, rfl, rfl⟩ := Option.some_injective _ hs
    obtain ⟨rfl, hheld⟩ := h.busy (by rintro (h | h) <;> cases h) rfl
    exact h.sameFlag hheld rfl rfl (fun _ => trivial) False.elim rfl
  | proc k =>
    simp only [vrowThreadStep, Option.some.injEq, Prod.mk.injEq] at hs
    obtain ⟨rfl, rfl, rfl⟩ := hs
    obtain ⟨rfl, hheld⟩ := h.busy (by rintro (h | h) <;> cases h) rfl
    obtain ⟨hstates, hclosed⟩ := vrowBankProc_frame funcs vrow k
    have hfilled : vrowIsFilled (vrowBankProc funcs vrow k).1 0 = vrowIsFilled vrow 0 := by
      rw [vrowIsFilled, vrowIsFilled, hstates]
    generalize (vrowBankProc funcs vrow k).2 = succ
    cases succ with
    | false =>
      have hleaving : (VrowPc.sigoff true).leaving = true := rfl
      exact h.outside hheld hclosed hleaving (fun hexited => by cases hexited) _
    | true =>
      rcases proc_cases k with rfl | rfl | rfl
      all_goals exact h.sameFlag hheld hfilled hclosed id id rfl
  | activeTo swap =>
    obtain ⟨rfl, rfl, rfl⟩ := Option.some_injective _ hs
    obtain ⟨rfl, hheld⟩ := h.busy (by rintro (h | h) <;> cases h) rfl
    cases swap
    all_goals exact h.sameFlag hheld (vrowIsFilled_activeSwitch _ _ _) rfl id id rfl
  | activeFrom swap =>
    obtain ⟨rfl, rfl, rfl⟩ := Option.some_injective _ hs
    obtain ⟨rfl, hheld⟩ := h.busy (by rintro (h | h) <;> cases h) rfl
    cases swap
    all_goals exact h.sameFlag hheld (vrowIsFilled_activeSwitch _ _ _) rfl id id rfl
  | fillTo swap =>
    obtain ⟨rfl, rfl, rfl⟩ := Option.some_injective _ hs
    obtain ⟨rfl, hheld⟩ := h.busy (by rintro (h | h) <;> cases h) rfl
    have hfilled : vrowIsFilled (vrowFillSwitch vrow swap.toI) 0 = vrowIsFilled vrow 0 := by
      rw [vrowIsFilled_fillSwitch]
      cases swap <;> exact Bool.xor_false _
    cases swap
    all_goals exact h.sameFlag hheld hfilled rfl id id rfl
  | move swap =>
    obtain ⟨rfl, rfl, rfl⟩ := Option.some_injective _ hs
    obtain ⟨rfl, hheld⟩ := h.busy (by rintro (h | h) <;> cases h) rfl
    cases swap
    all_goals exact h.sameFlag hheld rfl rfl id id rfl
  | fillFrom swap =>
    obtain ⟨rfl, rfl, rfl⟩ := Option.some_injective _ hs
    obtain ⟨rfl, hheld⟩ := h.busy (by rintro (h | h) <;> cases h) rfl
    cases swap with
    | zeroOne =>
      -- the payload has left bank 0
      refine h.inside hheld rfl False.elim (fun _ => ?_) rfl
      rw [vrowIsFilled_fillSwitch, h.entered trivial]
      rfl
    | oneTwo =>
      have hfilled : vrowIsFilled (vrowFillSwitch vrow BankSwap.oneTwo.fromI) 0 =
          vrowIsFilled vrow 0 := by
        rw [vrowIsFilled_fillSwitch]
        exact Bool.xor_false _
      exact h.sameFlag hheld hfilled rfl id id rfl
  | sigoff leave =>
    obtain ⟨rfl, rfl, rfl⟩ := Option.some_injective _ hs
    cases leave with
    | false =>
      have hheld := (h.busy (by rintro (h | h) <;> cases h) rfl).2
      exact ⟨fun _ _ => ⟨Or.inl rfl, h.drained trivial⟩, fun hh => absurd hh hheld, False.elim,
        False.elim, h.closed, fun hexited => by cases hexited⟩
    | true =>
      have hleaving : VrowPc.zero.leaving = true := rfl
      exact h.outside (h.not_held rfl) rfl hleaving (fun hexited => by cases hexited) _
  | zero =>
    obtain ⟨rfl, rfl, rfl⟩ := Option.some_injective _ hs
    have hleaving : VrowPc.empty.leaving = true := rfl
    refine h.outside (h.not_held rfl) ?_ hleaving (fun hexited => by cases hexited) _
    rfl
  | empty =>
    obtain ⟨rfl, rfl, rfl⟩ := Option.some_injective _ hs
    have hleaving : VrowPc.exited.leaving = true := rfl
    refine h.outside (h.not_held rfl) ?_ hleaving (fun _ => ?_) _
    · rfl
    · rfl
  | exited => cases hs

/-- A thread that leaves goes on leaving. -/
lemma vrowThreadStep_leaving {funcs : BankFuncs β} {zero : β} {signal : VrowSignal}
    (hpc : pc.leaving = true)
    (hs : vrowThreadStep funcs zero vrow pc = some (vrow', signal, pc')) : pc'.leaving = true := by
  rcases VrowPc.leaving_cases hpc with rfl | rfl | rfl | rfl
  · obtain ⟨-, -, rfl⟩ := Option.some_injective _ hs
    rfl
  · obtain ⟨-, -, rfl⟩ := Option.some_injective _ hs
    rfl
  · obtain ⟨-, -, rfl⟩ := Option.some_injective _ hs
    rfl
  · cases hs

/-- A clear bit stays clear, unless the thread leaves. -/
lemma WorkerOk.thread_clear {funcs : BankFuncs β} {zero : β} {signal : VrowSignal}
    (h : WorkerOk bit held terminated vrow pc) (hclear : pc.leaving = true ∨ bit = false)
    (hs : vrowThreadStep funcs zero vrow pc = some (vrow', signal, pc')) :
    pc'.leaving = true ∨ signal.bit bit = false := by
  rcases hclear with hleaving | hbit
  · exact Or.inl (vrowThreadStep_leaving hleaving hs)
  · by_cases hleaving : pc.leaving = true
    · exact Or.inl (vrowThreadStep_leaving hleaving hs)
    · right
      rcases (h.free hbit (Bool.eq_false_of_not_eq_true hleaving)).1 with rfl | rfl
      · obtain ⟨-, rfl, -⟩ := Option.some_injective _ hs
        exact hbit
      · obtain ⟨-, rfl, -⟩ := Option.some_injective _ hs
        exact hbit

/-- `sched_main` goes on and holds no bit that it did not hold. -/
lemma WorkerOk.move {held' terminated' : Prop} (h : WorkerOk bit held terminated vrow pc)
    (hheld : held' → held) (hterminated : ¬ terminated) :
    WorkerOk bit held' terminated' vrow pc where
  free := h.free
  held := fun hh => h.held (hheld hh)
  entered := h.entered
  drained := h.drained
  closed := fun hc => absurd (h.closed hc) hterminated
  exited := h.exited

/-! ## The system -/

/-- The invariant of the runs whose claims find threads that stay. -/
structure SchedSys.WorkerInv (s : SchedSys β) : Prop where
  vrow : ∀ i, WorkerOk (syncMapIssig s.vrowSmap.map i) (s.pc.Holds i) (s.pc = .terminated)
    (s.vrows i).1 (s.vrows i).2
  claim : ∀ quad sigi, s.pc = .vrow (.claim quad sigi) → sigi < 64 ∧
    ((s.vrows (sigi + 64 * quad)).2.leaving = true ∨
      syncMapIssig s.vrowSmap.map (sigi + 64 * quad) = false)

variable {cfg : SchedConfig β} {s s' : SchedSys β}

lemma syncMapIssig_signal (signal : VrowSignal) (map : SyncMap) (i j : ℕ) :
    syncMapIssig (signal.apply map i) j =
      if j = i then signal.bit (syncMapIssig map j) else syncMapIssig map j := by
  cases signal
  · simp [VrowSignal.apply, VrowSignal.bit]
  · by_cases hj : j = i <;> simp [VrowSignal.apply, VrowSignal.bit, hj]
  · by_cases hj : j = i <;> simp [VrowSignal.apply, VrowSignal.bit, hj]

lemma workerInv_start (cfg : SchedConfig β) : (SchedSys.start cfg).WorkerInv where
  vrow := by
    intro i
    refine ⟨fun _ _ => ⟨Or.inl rfl, ?_⟩, False.elim, False.elim, False.elim,
      fun hclosed => Bool.noConfusion hclosed, fun hexited => by cases hexited⟩
    show decide ((0 ^^^ vrowActiveBit 0) &&& vrowFillBit 0 ≠ 0) = false
    decide
  claim := by
    intro quad sigi hpc
    cases hpc

/-- A step of a thread. -/
lemma SchedSys.WorkerInv.thread (h : s.WorkerInv) {i : ℕ}
    (hs : schedStep cfg s (.vrow i) = some s') : s'.WorkerInv := by
  obtain ⟨-, vrow, signal, pc, hthread, rfl⟩ := schedStep_vrow hs
  refine ⟨fun j => ?_, fun quad sigi hpc => ?_⟩
  · dsimp only
    rw [syncMapIssig_signal]
    by_cases hj : j = i
    · rw [hj, if_pos rfl, Function.update_self]
      exact (h.vrow i).thread (fun hpc => by rw [hpc]; exact id) hthread
    · rw [if_neg hj, Function.update_of_ne hj]
      exact h.vrow j
  · obtain ⟨hsigi, hclear⟩ := h.claim quad sigi hpc
    refine ⟨hsigi, ?_⟩
    dsimp only
    rw [syncMapIssig_signal]
    by_cases hj : sigi + 64 * quad = i
    · rw [hj] at hclear
      rw [hj, if_pos rfl, Function.update_self]
      exact (h.vrow i).thread_clear hclear hthread
    · rw [if_neg hj, Function.update_of_ne hj]
      exact hclear

/-- A step of `sched_main` that claims, frees and loads nothing. -/
lemma SchedSys.WorkerInv.goOn (h : s.WorkerInv) (hmap : s'.vrowSmap.map = s.vrowSmap.map)
    (hvrows : s'.vrows = s.vrows) (hheld : ∀ i, s'.pc.Holds i → s.pc.Holds i)
    (hpc : s.pc ≠ .terminated) (hclaim : ¬ s'.pc.ClaimsVrow) : s'.WorkerInv := by
  refine ⟨fun i => ?_, fun quad sigi hpc' => ?_⟩
  · rw [hmap, hvrows]
    exact (h.vrow i).move (hheld i) hpc
  · rw [hpc'] at hclaim
    exact absurd trivial hclaim

/-- The load of a quad of the map of the vrows: the bit it finds is clear. -/
lemma SchedSys.WorkerInv.load_quad (h : s.WorkerInv) (hin : s.InMap cfg) {quad : ℕ}
    (hpc : s.pc = .vrow (.load quad)) (hs : schedMainStep cfg s = some s') : s'.WorkerInv := by
  have hrun := schedMainStep_ne_terminated hs
  have hmain := hin.main
  rw [hpc] at hmain
  simp only [schedMainStep, hpc, MapCall.step] at hs
  obtain rfl := Option.some_injective _ hs
  have hquad : (vrowCall cfg).fromQuad ≤ quad :=
    (Nat.zero_div 64).le.trans (Nat.zero_le quad)
  refine ⟨fun i => (h.vrow i).move (fun hi => absurd hi (SchedPc.not_holds_afterLoad _ _ _ _ _))
    hrun, fun quad' sigi hclaim => ?_⟩
  obtain ⟨hlt, -, htakes⟩ :=
    MapCall.claim_of_afterLoad hquad (cfg.quad_le hmain) (SchedPc.vrow.inj hclaim)
  exact ⟨hlt, Or.inr htakes.1.2⟩

/-- The `fetch_or`: a thread that stays, and whose bit was clear, waits for a payload. -/
lemma SchedSys.WorkerInv.fetch_or (h : s.WorkerInv) (hin : s.InMap cfg) {quad sigi : ℕ}
    (hpc : s.pc = .vrow (.claim quad sigi)) (hclaims : ClaimsStaying s .sched)
    (hs : schedMainStep cfg s = some s') : s'.WorkerInv := by
  have hrun := schedMainStep_ne_terminated hs
  obtain ⟨hsigi, hclear⟩ := h.claim quad sigi hpc
  have hmain := hin.main
  rw [hpc] at hmain
  have hquad := cfg.quad_le hmain.1
  have hlt : sigi + 64 * quad < 2 ^ 32 := by omega
  simp only [ClaimsStaying, hpc] at hclaims
  simp only [schedMainStep, hpc, MapCall.step_claim_of_lt hsigi hlt] at hs
  obtain rfl := Option.some_injective _ hs
  refine ⟨fun i => ?_, fun _ _ hclaim => by cases hclaim⟩
  have hi := h.vrow i
  show WorkerOk (syncMapIssig (syncMapSigon s.vrowSmap.map (sigi + 64 * quad)) i)
    (sigi + 64 * quad = i) _ _ _
  rw [syncMapIssig_sigon]
  by_cases hij : i = sigi + 64 * quad
  · have hbit : syncMapIssig s.vrowSmap.map i = false := by
      rw [← hij] at hclear hclaims
      rcases hclear with hleaving | hbit
      · rw [hclaims] at hleaving
        cases hleaving
      · exact hbit
    have hfree := hi.free hbit (by rw [hij]; exact hclaims)
    rw [decide_eq_true hij, Bool.or_true]
    exact ⟨fun hclear => Bool.noConfusion hclear, fun _ => ⟨rfl, hfree⟩, hi.entered, hi.drained,
      fun hc => absurd (hi.closed hc) hrun, hi.exited⟩
  · rw [decide_eq_false hij, Bool.or_false]
    exact hi.move (fun hij' => absurd hij'.symm hij) hrun

/-- A step of `vrow_bank_load`: the thread waits for the payload. -/
lemma SchedSys.WorkerInv.load_bank (h : s.WorkerInv) {vrowI bucketI : ℕ} {call : Option ℕ}
    {loadPc : LoadPc β} (hpc : s.pc = .load vrowI bucketI call loadPc)
    (hs : schedMainStep cfg s = some s') : s'.WorkerInv := by
  have hholds : ∀ i, vrowI = i → s.pc.Holds i := fun i hi => by
    rw [hpc]
    exact hi
  have hmove := schedMainStep_ne_terminated hs
  cases loadPc with
  | wait payload =>
    simp only [schedMainStep, hpc, vrowBankLoadStep] at hs
    obtain rfl := Option.some_injective _ hs
    refine h.goOn rfl ?_ hholds hmove id
    exact Function.update_eq_self vrowI s.vrows
  | store payload =>
    simp only [schedMainStep, hpc, vrowBankLoadStep] at hs
    obtain rfl := Option.some_injective _ hs
    refine ⟨fun i => ?_, fun _ _ hclaim => by cases hclaim⟩
    dsimp only
    by_cases hi : i = vrowI
    · -- the copy leaves the flags
      rw [hi, Function.update_self]
      obtain ⟨hfree, hheld, hentered, hdrained, hclosed, hexited⟩ :=
        (h.vrow vrowI).move (hholds vrowI) hmove
      exact ⟨hfree, hheld, hentered, hdrained, hclosed, hexited⟩
    · rw [Function.update_of_ne hi]
      exact (h.vrow i).move (hholds i) hmove
  | fill =>
    simp only [schedMainStep, hpc, vrowBankLoadStep] at hs
    obtain rfl := Option.some_injective _ hs
    refine ⟨fun i => ?_, fun _ _ hclaim => by cases hclaim⟩
    dsimp only
    by_cases hi : i = vrowI
    · -- the bit stays set until the thread is done with the payload
      obtain ⟨hbit, hidle, -⟩ := (h.vrow vrowI).held (hholds vrowI rfl)
      rw [hi, Function.update_self, hbit]
      refine ⟨fun hclear => Bool.noConfusion hclear, False.elim, fun hpc' => ?_,
        fun hpc' => ?_, fun hc => absurd ((h.vrow vrowI).closed hc) hmove, fun hpc' => ?_⟩
      all_goals
        rcases hidle with hidle | hidle
        all_goals
          rw [hidle] at hpc'
          cases hpc'
    · rw [Function.update_of_ne hi]
      exact (h.vrow i).move False.elim hmove

/-- The `sync_map_sigoff` of a vrow for which there is no bucket: its thread waits. -/
lemma SchedSys.WorkerInv.give_back (h : s.WorkerInv) {vrowI : ℕ} (hpc : s.pc = .back vrowI)
    (hs : schedMainStep cfg s = some s') : s'.WorkerInv := by
  have hrun := schedMainStep_ne_terminated hs
  simp only [schedMainStep, hpc] at hs
  obtain rfl := Option.some_injective _ hs
  refine ⟨fun i => ?_, fun _ _ hclaim => by cases hclaim⟩
  have hi := h.vrow i
  dsimp only
  rw [syncMapIssig_sigoff]
  by_cases hij : i = vrowI
  · have hheld := hi.held (by rw [hpc]; exact hij.symm)
    rw [decide_eq_false (not_not.2 hij), Bool.and_false]
    exact ⟨fun _ _ => hheld.2, False.elim, hi.entered, hi.drained,
      fun hc => absurd (hi.closed hc) hrun, hi.exited⟩
  · rw [decide_eq_true hij, Bool.and_true]
    exact hi.move False.elim hrun

/-- **One step of `sched_main`.** -/
lemma SchedSys.WorkerInv.sched (h : s.WorkerInv) (hin : s.InMap cfg)
    (hclaims : ClaimsStaying s .sched) (hs : schedMainStep cfg s = some s') : s'.WorkerInv := by
  have hrun := schedMainStep_ne_terminated hs
  cases hpc : s.pc with
  | closed =>
    simp only [schedMainStep, hpc] at hs
    obtain rfl := Option.some_injective _ hs
    refine h.goOn rfl rfl (fun i => ?_) hrun ?_
    all_goals dsimp only; split <;> exact False.elim
  | presence =>
    simp only [schedMainStep, hpc] at hs
    obtain rfl := Option.some_injective _ hs
    refine h.goOn rfl rfl (fun i => ?_) hrun ?_
    all_goals
      dsimp only
      rw [MapCall.start]
      split
      · split <;> exact False.elim
      · exact False.elim
  | vrow mapPc =>
    rcases mapPc with quad | ⟨quad, sigi⟩ | (_ | vrowI)
    · exact h.load_quad hin hpc hs
    · exact h.fetch_or hin hpc hclaims hs
    · simp only [schedMainStep, hpc] at hs
      obtain rfl := Option.some_injective _ hs
      exact h.goOn rfl rfl (fun _ => False.elim) hrun id
    · simp only [schedMainStep, hpc] at hs
      obtain rfl := Option.some_injective _ hs
      exact h.goOn rfl rfl (fun i hi => by rw [hpc]; exact hi) hrun id
  | disp vrowI left =>
    have hheld : ∀ i, vrowI = i → s.pc.Holds i := fun i hi => by rw [hpc]; exact hi
    cases left with
    | nil =>
      simp only [schedMainStep, hpc] at hs
      obtain rfl := Option.some_injective _ hs
      exact h.goOn rfl rfl hheld hrun id
    | cons i left =>
      simp only [schedMainStep, hpc] at hs
      split at hs
      · split at hs
        · obtain rfl := Option.some_injective _ hs
          exact h.goOn rfl rfl hheld hrun id
        · obtain rfl := Option.some_injective _ hs
          exact h.goOn rfl rfl hheld hrun id
      · obtain rfl := Option.some_injective _ hs
        exact h.goOn rfl rfl hheld hrun id
  | unsig vrowI range mapPc =>
    have hheld : ∀ i, vrowI = i → s.pc.Holds i := fun i hi => by rw [hpc]; exact hi
    rcases mapPc with quad | ⟨quad, sigi⟩ | (_ | i)
    all_goals
      simp only [schedMainStep, hpc] at hs
      obtain rfl := Option.some_injective _ hs
      exact h.goOn rfl rfl hheld hrun id
  | back vrowI => exact h.give_back hpc hs
  | pop vrowI bucketI =>
    simp only [schedMainStep, hpc] at hs
    split at hs
    · obtain rfl := Option.some_injective _ hs
      exact h.goOn rfl rfl (fun _ => False.elim) hrun id
    · obtain rfl := Option.some_injective _ hs
      exact h.goOn rfl rfl (fun i hi => by rw [hpc]; exact hi) hrun id
  | load vrowI bucketI call loadPc => exact h.load_bank hpc hs
  | sigoff bucketI =>
    simp only [schedMainStep, hpc] at hs
    split at hs
    all_goals
      obtain rfl := Option.some_injective _ hs
      exact h.goOn rfl rfl (fun _ => False.elim) hrun id
  | sub bucketI =>
    simp only [schedMainStep, hpc] at hs
    obtain ⟨p, -, rfl⟩ := Option.map_eq_some_iff.1 hs
    exact h.goOn rfl rfl (fun _ => False.elim) hrun id
  | terminate =>
    simp only [schedMainStep, hpc] at hs
    obtain rfl := Option.some_injective _ hs
    exact h.goOn rfl rfl (fun _ => False.elim) hrun id
  | terminated =>
    simp only [schedMainStep, hpc] at hs
    cases hs

/-- **One step** of the system. -/
lemma SchedSys.WorkerInv.step (h : s.WorkerInv) (hin : s.InMap cfg) {l : SchedStep β}
    (hclaims : ClaimsStaying s l) (hs : schedStep cfg s l = some s') : s'.WorkerInv := by
  cases l with
  | push c payload prior =>
    obtain ⟨push, -, -, rfl⟩ := schedStep_push hs
    exact ⟨h.vrow, h.claim⟩
  | pushStep c =>
    obtain ⟨push, queue, pc, -, -, rfl⟩ := schedStep_pushStep hs
    exact ⟨h.vrow, h.claim⟩
  | sched => exact h.sched hin hclaims hs
  | vrow i => exact h.thread hs
  | close =>
    obtain rfl := Option.some_injective _ hs
    exact ⟨h.vrow, h.claim⟩
  | closeVrow i =>
    obtain ⟨hpc, rfl⟩ := schedStep_closeVrow hs
    refine ⟨fun j => ?_, fun quad sigi hclaim => ?_⟩
    · dsimp only
      by_cases hj : j = i
      · obtain ⟨hfree, hheld, hentered, hdrained, -, hexited⟩ := h.vrow i
        rw [hj, Function.update_self]
        exact ⟨hfree, hheld, hentered, hdrained, fun _ => hpc, hexited⟩
      · rw [Function.update_of_ne hj]
        exact h.vrow j
    · rw [hpc] at hclaim
      cases hclaim

/-- **A worker that stops gets no more work**, in every run whose claims find threads that
stay. -/
theorem noLateWork_of_claimsStaying {ls : List (SchedStep β)} {t : SchedSys β}
    (ht : runs (schedStep cfg) (.start cfg) ls = some t)
    (hclaims : AllSteps (schedStep cfg) ClaimsStaying (.start cfg) ls) : NoLateWork t := by
  obtain ⟨-, hinv⟩ : t.InMap cfg ∧ t.WorkerInv :=
    inv_of_allSteps (I := fun s : SchedSys β => s.InMap cfg ∧ s.WorkerInv)
      (fun s l s' h hC hs => ⟨h.1.step hs, h.2.step h.1 hC hs⟩)
      ⟨SchedSys.inMap_start cfg, workerInv_start cfg⟩ hclaims ht
  intro i hleaving
  refine ⟨fun bucketI call pc hpc => ?_, (hinv.vrow i).exited⟩
  refine (hinv.vrow i).not_held hleaving ?_
  rw [hpc]
  rfl

end

/-! ## Three runs -/

/-- One vrow, for payloads that say themselves whether they are valid. -/
def oneVrowConfig : SchedConfig Bool :=
  ⟨1, defaultRanges, fun presence => decide (presence ≠ fun _ => 0),
    ⟨some fun payload => (fun _ => payload, payload), true⟩, false, by decide⟩

/-- A payload is pushed. -/
def pushRun (c : ℕ) (payload : Bool) : List (SchedStep Bool) :=
  .push c payload .priorLow :: List.replicate 5 (.pushStep c)

/-- A valid payload is pushed, dispatched and processed. -/
def validRun : List (SchedStep Bool) :=
  pushRun 0 true ++ List.replicate 18 .sched ++ List.replicate 18 (.vrow 0)

/-- A payload that is not valid is pushed and dispatched; its thread leaves the loop, flushes its
banks and ends. -/
def exitRun : List (SchedStep Bool) :=
  pushRun 0 false ++ List.replicate 18 .sched ++ List.replicate 8 (.vrow 0)

theorem noLateWork_of_claimsStaying_exitRun :
    ∃ t, runs (schedStep oneVrowConfig) (.start oneVrowConfig) exitRun = some t ∧
      (t.vrows 0).2 = .exited ∧ NoLateWork t := by
  have hrun : (runs (schedStep oneVrowConfig) (.start oneVrowConfig) exitRun).map
      (fun t => (t.vrows 0).2) = some .exited := by
    decide +kernel
  obtain ⟨t, ht, hexited⟩ := Option.map_eq_some_iff.1 hrun
  exact ⟨t, ht, hexited, noLateWork_of_claimsStaying ht (by decide +kernel)⟩

/-- Two payloads are pushed and the first one, which is not valid, is dispatched; its thread
leaves the loop and gives its bit back, and `sched_main` dispatches the second payload; the thread
flushes its banks, and `sched_main` loads the payload. -/
def failedRun : List (SchedStep Bool) :=
  pushRun 0 false ++ pushRun 1 true ++ List.replicate 18 .sched ++ List.replicate 6 (.vrow 0) ++
    List.replicate 13 .sched ++ List.replicate 2 (.vrow 0) ++ List.replicate 3 .sched

/-- The flags of the vrow are not empty after the end of its thread. -/
theorem failedRun_not_noLateWork :
    ¬ ∀ ls t, runs (schedStep oneVrowConfig) (.start oneVrowConfig) ls = some t →
      NoLateWork t := by
  intro h
  have hrun : (runs (schedStep oneVrowConfig) (.start oneVrowConfig) failedRun).map
      (fun t => ((t.vrows 0).2, (t.vrows 0).1.states)) = some (.exited, 1) := by
    decide +kernel
  obtain ⟨t, ht, heq⟩ := Option.map_eq_some_iff.1 hrun
  obtain ⟨hexited, hstates⟩ := Prod.mk.inj heq
  have hempty := (h failedRun t ht 0 (by rw [hexited]; rfl)).2 hexited
  rw [hstates] at hempty
  exact absurd hempty (by decide)

end AxVirtLayer
