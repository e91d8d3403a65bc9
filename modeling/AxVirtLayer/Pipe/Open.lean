import AxVirtLayer.Pipe.Counts
import AxVirtLayer.Pipe.Shutdown

/-!
# An open scheduler

What holds of a scheduler that is not closed and whose payloads are all valid: no thread of a vrow
leaves its loop, a vrow whose bit is set is held by `sched_main` or has work, and `sched_main` goes
for a bucket where it has seen one.

`dispatch_fails_iff` says when `bitpool_prior_unload_disp` finds nothing among the threads: never
because of them, but because the range it selected is full, with all the buckets above it.
-/

namespace AxVirtLayer

open Lib

section

variable {β : Type}

/-- The functions of the banks do not fail. -/
structure BankFuncs.Succeed (funcs : BankFuncs β) : Prop where
  valid : ∃ func, funcs.guestToIr = some func ∧ ∀ payload, (func payload).2 = true
  host : funcs.irToHost = true

lemma BankFuncs.Succeed.proc {funcs : BankFuncs β} (h : funcs.Succeed) (vrow : Vrow β)
    (k : Fin 3) : (vrowBankProc funcs vrow k).2 = true := by
  obtain ⟨func, hfunc, hvalid⟩ := h.valid
  rcases proc_cases k with rfl | rfl | rfl
  · rw [vrowBankProc, vrowBank0Proc, hfunc]
    exact hvalid _
  · rfl
  · exact h.host

/-! ## The work of a vrow -/

/-- The steps a thread takes until it waits again, at most. -/
def vrowWork (vrow : Vrow β) : VrowPc → ℕ
  | .loop => if vrowIsFilled vrow 0 then 18 else 0
  | .filled => if vrowIsFilled vrow 0 then 17 else 0
  | pc => pc.rank - 3

instance VrowPc.decidableIdle (pc : VrowPc) : Decidable pc.Idle :=
  inferInstanceAs (Decidable (_ ∨ _))

/-- The work of a thread that does not wait is that of its place. -/
lemma vrowWork_of_not_idle (vrow : Vrow β) {pc : VrowPc} (hpc : ¬ pc.Idle) :
    vrowWork vrow pc = pc.rank - 3 := by
  cases pc with
  | loop => exact absurd (Or.inl rfl) hpc
  | filled => exact absurd (Or.inr rfl) hpc
  | _ => rfl

lemma VrowPc.rank_of_busy {pc : VrowPc} (hpc : ¬ pc.Idle) (hstays : pc.leaving = false) :
    3 < pc.rank ∧ pc.rank ≤ 19 := by
  cases pc with
  | proc k =>
    rcases proc_cases k with rfl | rfl | rfl
    all_goals decide
  | activeTo swap | activeFrom swap | fillTo swap | move swap | fillFrom swap =>
    cases swap
    all_goals decide
  | sigoff leave =>
    cases leave with
    | false => decide
    | true => cases hstays
  | zero | empty | exited => cases hstays
  | loop | filled => exact absurd (by decide) hpc
  | _ => decide

lemma vrowWork_le (vrow : Vrow β) {pc : VrowPc} (hstays : pc.leaving = false) :
    vrowWork vrow pc ≤ 18 := by
  by_cases hpc : pc.Idle
  · rcases hpc with rfl | rfl
    · rw [vrowWork]
      split
      · exact le_rfl
      · exact Nat.zero_le _
    · rw [vrowWork]
      split
      · exact Nat.le_succ 17
      · exact Nat.zero_le _
  · have hrank := VrowPc.rank_of_busy hpc hstays
    rw [vrowWork_of_not_idle vrow hpc]
    omega

/-- What a step of a thread does to its work: there is less of it, and the bit of the vrow is given
back with the last of it; or the thread waits. -/
structure WorkStep (vrow : Vrow β) (pc : VrowPc) (vrow' : Vrow β) (signal : VrowSignal)
    (pc' : VrowPc) : Prop where
  closed : vrow'.closed = vrow.closed
  stays : pc'.leaving = false
  work : vrowWork vrow' pc' < vrowWork vrow pc ∧ (signal = .off ∨ 0 < vrowWork vrow' pc') ∨
    vrowWork vrow pc = 0 ∧ vrowWork vrow' pc' = 0 ∧ vrow' = vrow ∧ signal = .keep
  /-- The bit is set only where it was set. -/
  on : signal = .on → ¬ pc.Idle

/-- A step to a later place of the loop. -/
lemma WorkStep.busy {vrow vrow' : Vrow β} {pc pc' : VrowPc} {signal : VrowSignal}
    (hclosed : vrow'.closed = vrow.closed) (hpc : ¬ pc.Idle) (hpc' : ¬ pc'.Idle)
    (hstays : pc'.leaving = false) (hrank : pc'.rank < pc.rank) :
    WorkStep vrow pc vrow' signal pc' := by
  have hbusy := (VrowPc.rank_of_busy hpc' hstays).1
  refine ⟨hclosed, hstays, Or.inl ?_, fun _ => hpc⟩
  rw [vrowWork_of_not_idle vrow hpc, vrowWork_of_not_idle vrow' hpc']
  omega

/-- **One step of a thread** of an open vrow. -/
lemma vrowThreadStep_work {funcs : BankFuncs β} (zero : β) {vrow : Vrow β} {pc : VrowPc}
    (hfuncs : funcs.Succeed) (hclosed : vrow.closed = false) (hstays : pc.leaving = false)
    (hdrained : pc.Drained → vrowIsFilled vrow 0 = false) :
    ∃ vrow' signal pc', vrowThreadStep funcs zero vrow pc = some (vrow', signal, pc') ∧
      WorkStep vrow pc vrow' signal pc' := by
  cases pc with
  | loop =>
    refine ⟨_, _, _, rfl, ?_⟩
    rw [hclosed]
    refine ⟨rfl, rfl, ?_, nofun⟩
    by_cases hfilled : vrowIsFilled vrow 0 = true
    · have hbefore : vrowWork vrow .loop = 18 := if_pos hfilled
      have hafter : vrowWork vrow .filled = 17 := if_pos hfilled
      left
      show vrowWork vrow .filled < vrowWork vrow .loop ∧ (_ ∨ 0 < vrowWork vrow .filled)
      omega
    · exact Or.inr ⟨if_neg hfilled, if_neg hfilled, rfl, rfl⟩
  | filled =>
    refine ⟨_, _, _, rfl, ?_⟩
    by_cases hfilled : vrowIsFilled vrow 0 = true
    · rw [if_pos hfilled]
      have hbefore : vrowWork vrow .filled = 17 := if_pos hfilled
      refine ⟨rfl, rfl, Or.inl ⟨?_, Or.inr (Nat.succ_pos 15)⟩, nofun⟩
      rw [hbefore]
      exact Nat.lt_succ_self 16
    · rw [if_neg hfilled]
      exact ⟨rfl, rfl, Or.inr ⟨if_neg hfilled, if_neg hfilled, rfl, rfl⟩, nofun⟩
  | enter => exact ⟨_, _, _, rfl, .busy rfl (by decide) (by decide) rfl (by decide)⟩
  | sigon => exact ⟨_, _, _, rfl, .busy rfl (by decide) (by decide) rfl (by decide)⟩
  | proc k =>
    obtain ⟨-, hsame⟩ := vrowBankProc_frame funcs vrow k
    refine ⟨_, _, _, congrArg (fun succ => some (_, _, VrowPc.afterProc k succ))
      (hfuncs.proc vrow k), ?_⟩
    rcases proc_cases k with rfl | rfl | rfl
    all_goals exact .busy hsame (by decide) (by decide) rfl (by decide)
  | activeTo swap | activeFrom swap | fillTo swap | move swap | fillFrom swap =>
    refine ⟨_, _, _, rfl, ?_⟩
    cases swap
    all_goals exact .busy rfl (by decide) (by decide) rfl (by decide)
  | sigoff leave =>
    cases leave with
    | true => cases hstays
    | false =>
      refine ⟨_, _, _, rfl, rfl, rfl, Or.inl ⟨?_, Or.inl rfl⟩, nofun⟩
      show vrowWork vrow .loop < 1
      rw [vrowWork, hdrained trivial]
      exact Nat.one_pos
  | zero | empty | exited => cases hstays

/-! ## The vrows whose bit is set -/

variable {cfg : SchedConfig β} {s s' : SchedSys β} {i : ℕ}

/-- The work of a vrow of the scheduler. -/
def SchedSys.work (s : SchedSys β) (i : ℕ) : ℕ := vrowWork (s.vrows i).1 (s.vrows i).2

/-- A vrow whose bit is set is held by `sched_main`, or has work. -/
def SchedSys.Engaged (s : SchedSys β) : Prop :=
  ∀ i, syncMapIssig s.vrowSmap.map i = true → s.pc.Holds i ∨ 0 < s.work i

/-- What holds of an open scheduler whose payloads are valid. -/
structure SchedSys.OpenInv (cfg : SchedConfig β) (s : SchedSys β) : Prop where
  calm : s.Calm cfg
  staying : ∀ i, (s.vrows i).2.leaving = false
  running : s.pc ≠ .terminate ∧ s.pc ≠ .terminated
  engaged : s.Engaged

lemma SchedSys.OpenInv.vrow_closed (h : s.OpenInv cfg) (i : ℕ) :
    (s.vrows i).1.closed = false := by
  by_contra hclosed
  exact h.running.2 ((h.calm.worker.vrow i).closed (Bool.eq_true_of_not_eq_false hclosed))

lemma SchedSys.openInv_start (hranges : cfg.ranges = defaultRanges) :
    (SchedSys.start cfg).OpenInv cfg where
  calm := SchedSys.calm_start hranges
  staying := fun _ => rfl
  running := ⟨nofun, nofun⟩
  engaged := by
    intro i hset
    have hclear : syncMapIssig (SchedSys.start cfg).vrowSmap.map i = false := syncMapIssig_zero i
    rw [hclear] at hset
    cases hset

lemma SchedSys.OpenInv.claims (h : s.OpenInv cfg) (l : SchedStep β) : ClaimsStaying s l := by
  cases l with
  | sched =>
    rw [ClaimsStaying]
    split
    · exact h.staying _
    · trivial
  | _ => trivial

/-- A step of `sched_main` that claims and frees no vrow. -/
lemma SchedSys.Engaged.goOn (h : s.Engaged) (hmap : s'.vrowSmap.map = s.vrowSmap.map)
    (hvrows : s'.vrows = s.vrows) (hheld : ∀ i, s.pc.Holds i → s'.pc.Holds i) : s'.Engaged := by
  intro i hset
  rw [hmap] at hset
  rw [SchedSys.work, hvrows]
  exact (h i hset).imp_left (hheld i)

/-- A step of `vrow_bank_load`: the payload is work for the vrow. -/
lemma SchedSys.Engaged.load_bank (h : s.Engaged) (hworker : s.WorkerInv) {vrowI bucketI : ℕ}
    {call : Option ℕ} {loadPc : LoadPc β} (hpc : s.pc = .load vrowI bucketI call loadPc)
    (hs : schedMainStep cfg s = some s') : s'.Engaged := by
  have hother : ∀ i, i ≠ vrowI → syncMapIssig s.vrowSmap.map i = true → 0 < s.work i := by
    intro i hi hset
    refine (h i hset).resolve_left fun hheld => ?_
    rw [hpc] at hheld
    exact hi (Eq.symm hheld)
  have hheld := (hworker.vrow vrowI).held (by rw [hpc]; rfl)
  simp only [schedMainStep, hpc] at hs
  obtain rfl := Option.some_injective _ hs
  intro i hset
  by_cases hi : i = vrowI
  · subst hi
    cases loadPc with
    | wait payload => exact Or.inl rfl
    | store payload => exact Or.inl rfl
    | fill =>
      right
      obtain ⟨-, hidle, hempty⟩ := hheld
      have hfilled : vrowIsFilled (vrowFillSwitch (s.vrows i).1 0) 0 = true := by
        rw [vrowIsFilled_fillSwitch, hempty]
        rfl
      rw [SchedSys.work]
      dsimp only [vrowBankLoadStep]
      rw [Function.update_self]
      rcases hidle with hidle | hidle
      · rw [hidle, vrowWork, if_pos hfilled]
        exact Nat.succ_pos 17
      · rw [hidle, vrowWork, if_pos hfilled]
        exact Nat.succ_pos 16
  · right
    rw [SchedSys.work]
    dsimp only
    rw [Function.update_of_ne hi]
    exact hother i hi hset

/-- **One step of `sched_main`.** -/
lemma SchedSys.Engaged.sched (h : s.Engaged) (hworker : s.WorkerInv) (hqueue : s.QueueInv cfg)
    (hs : schedMainStep cfg s = some s') : s'.Engaged := by
  have hfree : (∀ i, ¬ s.pc.Holds i) → s'.vrowSmap.map = s.vrowSmap.map →
      s'.vrows = s.vrows → s'.Engaged :=
    fun hnone hmap hvrows => h.goOn hmap hvrows fun i hi => absurd hi (hnone i)
  cases hpc : s.pc with
  | closed | presence =>
    rw [hpc] at hfree
    simp only [schedMainStep, hpc] at hs
    obtain rfl := Option.some_injective _ hs
    exact hfree (fun _ => id) rfl rfl
  | vrow mapPc =>
    rw [hpc] at hfree
    rcases mapPc with quad | ⟨quad, sigi⟩ | (_ | vrowI)
    · simp only [schedMainStep, hpc] at hs
      obtain rfl := Option.some_injective _ hs
      exact hfree (fun _ => id) rfl rfl
    · obtain ⟨hsigi, hlt⟩ := hqueue.1.vrow quad sigi hpc
      have hwrap : sigi + 64 * quad < 2 ^ 32 := hlt.trans (cfg.vrowCount_lt.trans (by decide))
      simp only [schedMainStep, hpc, MapCall.step_claim_of_lt hsigi hwrap] at hs
      obtain rfl := Option.some_injective _ hs
      intro i hset
      by_cases hi : i = sigi + 64 * quad
      · exact Or.inl hi.symm
      · right
        have hold : syncMapIssig s.vrowSmap.map i = true := by
          have hbit : syncMapIssig (syncMapSigon s.vrowSmap.map (sigi + 64 * quad)) i = true := hset
          rwa [syncMapIssig_sigon, decide_eq_false hi, Bool.or_false] at hbit
        refine (h i hold).resolve_left fun hheld => ?_
        rw [hpc] at hheld
        exact hheld
    · simp only [schedMainStep, hpc] at hs
      obtain rfl := Option.some_injective _ hs
      exact hfree (fun _ => id) rfl rfl
    · simp only [schedMainStep, hpc] at hs
      obtain rfl := Option.some_injective _ hs
      exact h.goOn rfl rfl fun i hi => by rw [hpc] at hi; exact hi
  | disp vrowI left =>
    have hheld : ∀ i, s.pc.Holds i → vrowI = i := fun i hi => by rw [hpc] at hi; exact hi
    cases left with
    | nil =>
      simp only [schedMainStep, hpc] at hs
      obtain rfl := Option.some_injective _ hs
      exact h.goOn rfl rfl hheld
    | cons r left =>
      simp only [schedMainStep, hpc] at hs
      split_ifs at hs
      all_goals
        obtain rfl := Option.some_injective _ hs
        exact h.goOn rfl rfl hheld
  | unsig vrowI range mapPc =>
    have hheld : ∀ i, s.pc.Holds i → vrowI = i := fun i hi => by rw [hpc] at hi; exact hi
    rcases mapPc with quad | ⟨quad, sigi⟩ | (_ | bucketI)
    all_goals
      simp only [schedMainStep, hpc] at hs
      obtain rfl := Option.some_injective _ hs
      exact h.goOn rfl rfl hheld
  | back vrowI =>
    simp only [schedMainStep, hpc] at hs
    obtain rfl := Option.some_injective _ hs
    intro i hset
    have hbit : syncMapIssig (syncMapSigoff s.vrowSmap.map vrowI) i = true := hset
    rw [syncMapIssig_sigoff, Bool.and_eq_true, decide_eq_true_eq] at hbit
    refine Or.inr ((h i hbit.1).resolve_left fun hheld => ?_)
    rw [hpc] at hheld
    exact hbit.2 hheld.symm
  | pop vrowI bucketI =>
    obtain ⟨hbounds, σ, hrel⟩ := hqueue
    have hlt : bucketI < 64 := hrel.lt_of_pop hpc
    have hvrowI : vrowI < cfg.vrowCount := hbounds.held vrowI (by rw [hpc]; rfl)
    have hcount := hbounds.count
    have hchecks : ¬ (vrowI ≥ cfg.vrowCount ∨ bucketI ≥ s.queue.bucketCount) := by omega
    simp only [schedMainStep, hpc, if_neg hchecks] at hs
    obtain rfl := Option.some_injective _ hs
    exact h.goOn rfl rfl fun i hi => by rw [hpc] at hi; exact hi
  | load vrowI bucketI call loadPc => exact h.load_bank hworker hpc hs
  | sigoff bucketI =>
    rw [hpc] at hfree
    simp only [schedMainStep, hpc] at hs
    split_ifs at hs
    all_goals
      obtain rfl := Option.some_injective _ hs
      exact hfree (fun _ => id) rfl rfl
  | sub bucketI =>
    rw [hpc] at hfree
    simp only [schedMainStep, hpc] at hs
    obtain ⟨p, -, rfl⟩ := Option.map_eq_some_iff.1 hs
    exact hfree (fun _ => id) rfl rfl
  | terminate =>
    rw [hpc] at hfree
    simp only [schedMainStep, hpc] at hs
    obtain rfl := Option.some_injective _ hs
    exact hfree (fun _ => id) rfl rfl
  | terminated => exact absurd hpc (schedMainStep_ne_terminated hs)

/-- The step of a thread in an open scheduler. -/
lemma SchedSys.OpenInv.thread (h : s.OpenInv cfg) (hfuncs : cfg.funcs.Succeed)
    (hi : i < cfg.vrowCount) : ∃ vrow signal pc,
      schedStep cfg s (.vrow i) = some { s with
        vrowSmap := { s.vrowSmap with map := signal.apply s.vrowSmap.map i }
        vrows := Function.update s.vrows i (vrow, pc) } ∧
      WorkStep (s.vrows i).1 (s.vrows i).2 vrow signal pc := by
  obtain ⟨vrow, signal, pc, hstep, hwork⟩ := vrowThreadStep_work cfg.zero hfuncs
    (h.vrow_closed i) (h.staying i) (h.calm.worker.vrow i).drained
  refine ⟨vrow, signal, pc, ?_, hwork⟩
  rw [schedStep, if_pos hi, hstep]
  rfl

/-- A step of a thread keeps a vrow with its bit set at work. -/
lemma SchedSys.Engaged.thread (h : s.Engaged) {vrow : Vrow β} {signal : VrowSignal} {pc : VrowPc}
    (hwork : WorkStep (s.vrows i).1 (s.vrows i).2 vrow signal pc)
    (hmap : s'.vrowSmap.map = signal.apply s.vrowSmap.map i)
    (hvrows : s'.vrows = Function.update s.vrows i (vrow, pc)) (hpc : s'.pc = s.pc) :
    s'.Engaged := by
  intro j hset
  rw [hmap, syncMapIssig_signal] at hset
  rw [hpc, SchedSys.work, hvrows]
  by_cases hj : j = i
  · subst hj
    rw [if_pos rfl] at hset
    rw [Function.update_self]
    rcases hwork.work with ⟨-, rfl | hpos⟩ | ⟨hzero, -, -, rfl⟩
    · cases hset
    · exact Or.inr hpos
    · refine (h j hset).imp_right fun hpos => ?_
      rw [SchedSys.work, hzero] at hpos
      exact absurd hpos (lt_irrefl 0)
  · rw [if_neg hj] at hset
    rw [Function.update_of_ne hj]
    exact h j hset

lemma schedMainStep_running (hopen : s.closed = false) (hs : schedMainStep cfg s = some s')
    (hrun : s.pc ≠ .terminate) : s'.pc ≠ .terminate ∧ s'.pc ≠ .terminated := by
  simp only [schedMainStep] at hs
  split at hs
  case h_1 =>
    rw [hopen] at hs
    obtain rfl := Option.some_injective _ hs
    exact ⟨by simp, by simp⟩
  case h_15 =>
    obtain ⟨range, -, rfl⟩ := Option.map_eq_some_iff.1 hs
    exact ⟨by simp, by simp⟩
  case h_16 =>
    rename_i hpc
    exact absurd hpc hrun
  all_goals
    repeat' split at hs
    all_goals
      cases hs
  all_goals
    constructor
    · intro hpc
      dsimp only at hpc
      try split at hpc
      all_goals cases hpc
    · intro hpc
      dsimp only at hpc
      try split at hpc
      all_goals cases hpc

/-- **One step** of a scheduler that stays open. -/
lemma SchedSys.OpenInv.step (h : s.OpenInv cfg) (hfuncs : cfg.funcs.Succeed)
    (hqueue : s.QueueInv cfg) {l : SchedStep β} (hs : schedStep cfg s l = some s')
    (hopen : s'.closed = false) : s'.OpenInv cfg := by
  have hcalm := h.calm.step (h.claims l) hs
  have hsame : s'.vrows = s.vrows → s'.pc = s.pc → s'.vrowSmap.map = s.vrowSmap.map →
      s'.OpenInv cfg := by
    intro hvrows hpc hmap
    refine ⟨hcalm, fun i => ?_, ?_, h.engaged.goOn hmap hvrows fun i => ?_⟩
    · rw [hvrows]
      exact h.staying i
    · rw [hpc]
      exact h.running
    · rw [hpc]
      exact id
  cases l with
  | push c payload prior =>
    obtain ⟨push, -, -, rfl⟩ := schedStep_push hs
    exact hsame rfl rfl rfl
  | pushStep c =>
    obtain ⟨push, queue, pc, -, -, rfl⟩ := schedStep_pushStep hs
    exact hsame rfl rfl rfl
  | sched =>
    have hclosed : s.closed = false := by
      rw [← (schedMainStep_closed hs).1]
      exact hopen
    refine ⟨hcalm, fun i => ?_, schedMainStep_running hclosed hs h.running.1,
      h.engaged.sched h.calm.worker hqueue hs⟩
    have hpc : (s'.vrows i).2 = (s.vrows i).2 := by
      rcases schedMainStep_vrows hs with ⟨_, _, -, -, hvrows, -⟩ | ⟨vrowI, _, _, _, -, hvrows, -⟩ |
        ⟨-, -, hvrows, -⟩
      · rw [hvrows]
      · rw [hvrows]
        by_cases hi : i = vrowI
        · rw [hi, Function.update_self]
        · rw [Function.update_of_ne hi]
      · rw [hvrows]
    rw [hpc]
    exact h.staying i
  | vrow i =>
    obtain ⟨hi, -⟩ := schedStep_vrow hs
    obtain ⟨vrow, signal, pc, hstep, hwork⟩ := h.thread hfuncs hi
    obtain rfl := Option.some_injective _ (hstep.symm.trans hs)
    refine ⟨hcalm, fun j => ?_, h.running, h.engaged.thread hwork rfl rfl rfl⟩
    dsimp only
    by_cases hj : j = i
    · rw [hj, Function.update_self]
      exact hwork.stays
    · rw [Function.update_of_ne hj]
      exact h.staying j
  | close =>
    obtain rfl := Option.some_injective _ hs
    cases hopen
  | closeVrow i => exact absurd (schedStep_closeVrow hs).1 h.running.2

/-! ## The bucket that `sched_main` goes for -/

/-- `bitpool_presence_any` is what its name says. -/
def SchedConfig.SeesAny (cfg : SchedConfig β) : Prop :=
  ∀ presence, cfg.presenceAny presence = true ↔ ∃ r, presence r ≠ 0

/-- What `sched_main` has seen in the counters, at its place. -/
def SchedPc.Chosen (presence : Fin 4 → ℕ) : SchedPc β → Prop
  | .vrow _ => ∃ r, 0 < presence r
  | .disp _ left => ∃ r, (r ∈ left ∨ r = 3) ∧ 0 < presence r
  | .unsig _ r (.load quad) => quad = 0 ∧ 0 < presence r
  | _ => True

/-- The invariant of the dispatches: `disp_presence` is never counted up, so every range has its
disposition left. -/
structure SchedSys.ChosenInv (s : SchedSys β) : Prop where
  disp : ∀ r, s.disp r = 0
  chosen : s.pc.Chosen s.queue.presence

lemma chosenInv_start (cfg : SchedConfig β) : (SchedSys.start cfg).ChosenInv where
  disp := fun _ => rfl
  chosen := trivial

/-- The counters of the ranges that are not empty stay positive. -/
lemma SchedPc.Chosen.grow {presence presence' : Fin 4 → ℕ} {pc : SchedPc β}
    (h : pc.Chosen presence) (hgrow : ∀ r, 0 < presence r → 0 < presence' r) :
    pc.Chosen presence' := by
  cases pc with
  | vrow mapPc =>
    obtain ⟨r, hr⟩ := h
    exact ⟨r, hgrow r hr⟩
  | disp vrowI left =>
    obtain ⟨r, hmem, hr⟩ := h
    exact ⟨r, hmem, hgrow r hr⟩
  | unsig vrowI r mapPc =>
    cases mapPc with
    | load quad => exact ⟨h.1, hgrow r h.2⟩
    | claim quad sigi => trivial
    | ret index => trivial
  | _ => trivial

/-- Where a search in a range of the queue starts. -/
lemma rangeCall_start (hranges : (schedQueue cfg).RangesOk) (op : MapOp) (r : Fin 4) :
    (rangeCall op (cfg.ranges r)).start 1 = .load 0 := by
  have hfrom := (rangeCall_bounds hranges op r).1
  rw [MapCall.start, hfrom]
  rfl

lemma SchedSys.ChosenInv.goOn (h : s.ChosenInv) (hdisp : s'.disp = s.disp)
    (hchosen : s'.pc.Chosen s'.queue.presence) : s'.ChosenInv where
  disp := by
    rw [hdisp]
    exact h.disp
  chosen := hchosen

/-- **One step of `sched_main`.** -/
lemma SchedSys.ChosenInv.sched (h : s.ChosenInv) (hranges : cfg.ranges = defaultRanges)
    (hsees : cfg.SeesAny) (hsame : s.queue.ranges = cfg.ranges)
    (hsize : s.queue.smapDesc.size = 1) (hs : schedMainStep cfg s = some s') :
    s'.ChosenInv := by
  have hok := schedQueue_rangesOk hranges
  have hbitDisp : ∀ r, 0 < (s.queue.ranges r).bitDisp := by
    rw [hsame, hranges]
    decide
  have hstart : ∀ r, (rangeCall .unsigFirst (s.queue.ranges r)).start s.queue.smapDesc.size =
      .load 0 := by
    intro r
    rw [hsame, hsize]
    exact rangeCall_start hok .unsigFirst r
  have hchosen := h.chosen
  cases hpc : s.pc with
  | closed =>
    simp only [schedMainStep, hpc] at hs
    obtain rfl := Option.some_injective _ hs
    refine h.goOn rfl ?_
    dsimp only
    split <;> trivial
  | presence =>
    simp only [schedMainStep, hpc] at hs
    obtain rfl := Option.some_injective _ hs
    refine h.goOn rfl ?_
    by_cases hany : cfg.presenceAny s.queue.presence = true
    · obtain ⟨r, hr⟩ := (hsees _).1 hany
      dsimp only
      rw [if_pos hany]
      exact ⟨r, Nat.pos_of_ne_zero hr⟩
    · dsimp only
      rw [if_neg hany]
      trivial
  | vrow mapPc =>
    rw [hpc] at hchosen
    rcases mapPc with quad | ⟨quad, sigi⟩ | (_ | vrowI)
    · simp only [schedMainStep, hpc] at hs
      obtain rfl := Option.some_injective _ hs
      exact h.goOn rfl hchosen
    · simp only [schedMainStep, hpc] at hs
      obtain rfl := Option.some_injective _ hs
      exact h.goOn rfl hchosen
    · simp only [schedMainStep, hpc] at hs
      obtain rfl := Option.some_injective _ hs
      exact h.goOn rfl trivial
    · simp only [schedMainStep, hpc] at hs
      obtain rfl := Option.some_injective _ hs
      obtain ⟨r, hr⟩ := hchosen
      have hall : ∀ r : Fin 4, r ∈ [0, 1, 2] ∨ r = 3 := by decide
      exact h.goOn rfl ⟨r, hall r, hr⟩
  | disp vrowI left =>
    rw [hpc] at hchosen
    obtain ⟨r, hmem, hr⟩ := hchosen
    cases left with
    | nil =>
      simp only [schedMainStep, hpc] at hs
      obtain rfl := Option.some_injective _ hs
      obtain rfl := hmem.resolve_left List.not_mem_nil
      refine h.goOn rfl ?_
      dsimp only
      rw [hstart]
      exact ⟨rfl, hr⟩
    | cons i left =>
      simp only [schedMainStep, hpc] at hs
      split_ifs at hs with hpos hquota
      · obtain rfl := Option.some_injective _ hs
        refine h.goOn rfl ?_
        dsimp only
        rw [hstart]
        exact ⟨rfl, hpos⟩
      · rw [h.disp i] at hquota
        exact absurd (hbitDisp i) hquota
      · obtain rfl := Option.some_injective _ hs
        refine h.goOn rfl ⟨r, ?_, hr⟩
        have hne : r ≠ i := fun heq => hpos (heq ▸ hr)
        rcases hmem with hmem | hlow
        · exact Or.inl ((List.mem_cons.1 hmem).resolve_left hne)
        · exact Or.inr hlow
  | unsig vrowI range mapPc =>
    rcases mapPc with quad | ⟨quad, sigi⟩ | (_ | bucketI)
    · simp only [schedMainStep, hpc, MapCall.step] at hs
      obtain rfl := Option.some_injective _ hs
      refine h.goOn rfl ?_
      dsimp only
      rw [hsize, MapCall.afterLoad]
      dsimp only
      split_ifs with hbits hto hnext
      · trivial
      · trivial
      · exact absurd hnext (by omega)
      · trivial
    all_goals
      simp only [schedMainStep, hpc] at hs
      obtain rfl := Option.some_injective _ hs
      exact h.goOn rfl trivial
  | back vrowI | terminate =>
    simp only [schedMainStep, hpc] at hs
    obtain rfl := Option.some_injective _ hs
    exact h.goOn rfl trivial
  | pop vrowI bucketI | sigoff bucketI =>
    simp only [schedMainStep, hpc] at hs
    split_ifs at hs
    all_goals
      obtain rfl := Option.some_injective _ hs
      exact h.goOn rfl trivial
  | load vrowI bucketI call loadPc =>
    simp only [schedMainStep, hpc] at hs
    obtain rfl := Option.some_injective _ hs
    refine h.goOn rfl ?_
    dsimp only
    split <;> trivial
  | sub bucketI =>
    simp only [schedMainStep, hpc] at hs
    obtain ⟨p, -, rfl⟩ := Option.map_eq_some_iff.1 hs
    exact h.goOn rfl trivial
  | terminated => exact absurd hpc (schedMainStep_ne_terminated hs)

/-- A step of a call lowers no counter. -/
lemma SchedSys.CountInv.presence_grow (h : s.CountInv) (hshape : s.queue.Shape) {c : ℕ}
    {push : Push β} {queue : BitpoolDesc (Slot β)} {pc : PushPc}
    (hstep : schedPushStep s c push = some (queue, pc)) (r : Fin 4)
    (hr : 0 < s.queue.presence r) : 0 < queue.presence r := by
  obtain ⟨payload, range, at'⟩ := push
  cases at' with
  | sig mapPc =>
    rcases mapPc with quad | ⟨quad, sigi⟩ | (_ | index)
    all_goals
      obtain ⟨rfl, -⟩ := Prod.mk.inj (Option.some_injective _ hstep)
      exact hr
  | copy index =>
    obtain ⟨rfl, -⟩ := Prod.mk.inj (Option.some_injective _ hstep)
    exact hr
  | count index =>
    obtain ⟨rfl, -⟩ := Prod.mk.inj (Option.some_injective _ hstep)
    show 0 < Function.update s.queue.presence range ((s.queue.presence range + 1) % 2 ^ 32) r
    by_cases hrange : r = range
    · have hcounts := h.counts range
      have hle := ncard_countedIn_le s range
      have hleft := leftover_le s range
      have hinside := hshape.inside range
      have hsize := hshape.size
      have hlt := hshape.count_lt
      rw [hrange, Function.update_self]
      omega
    · rw [Function.update_of_ne hrange]
      exact hr
  | done succ => cases hstep

/-- **One step** of the scheduler. -/
lemma SchedSys.ChosenInv.step (h : s.ChosenInv) (hranges : cfg.ranges = defaultRanges)
    (hsees : cfg.SeesAny) (hsame : s.queue.ranges = cfg.ranges)
    (hsize : s.queue.smapDesc.size = 1) (hshape : s.queue.Shape) (hcount : s.CountInv)
    {l : SchedStep β} (hs : schedStep cfg s l = some s') : s'.ChosenInv := by
  rcases schedStep_cases hs with ⟨c, payload, prior, push, -, -, -, rfl⟩ |
    ⟨c, push, queue, pc, -, -, hstep, rfl⟩ | ⟨-, hmain⟩ | ⟨vrowSmap, closed, vrows, -, rfl⟩
  · exact h.goOn rfl h.chosen
  · exact h.goOn rfl (h.chosen.grow (hcount.presence_grow hshape hstep))
  · exact h.sched hranges hsees hsame hsize hmain
  · exact h.goOn rfl h.chosen

/-- A range with a positive counter has a full bucket, while `sched_main` has none in its hand. -/
lemma SchedSys.CountInv.full_of_presence (h : s.CountInv) {r : Fin 4}
    (hr : 0 < s.queue.presence r) (hstage : ∀ i, s.pc.stage i = .away)
    (hsub : ∀ i, s.pc ≠ .sub i) : ∃ i, s.queue.FullIn r i := by
  have hcounts := h.counts r
  rw [leftover_eq_zero hsub] at hcounts
  obtain ⟨i, hhas, hset | hheld, -⟩ := (Set.ncard_pos (finite_countedIn s r)).1 (by omega)
  · exact ⟨i, hhas, hset⟩
  · exact absurd (hstage i) hheld

/-- The invariants of the dispatches in the runs whose steps come in order. -/
structure SchedSys.FlowInv (cfg : SchedConfig β) (s : SchedSys β) : Prop where
  inMap : s.InMap cfg
  queue : s.QueueInv cfg
  valid : s.Valid
  count : s.CountInv
  chosen : s.ChosenInv

lemma SchedSys.FlowInv.step (h : s.FlowInv cfg) (hranges : cfg.ranges = defaultRanges)
    (hsees : cfg.SeesAny) {l : SchedStep β} (hordered : s.Ordered l)
    (hs : schedStep cfg s l = some s') : s'.FlowInv cfg := by
  have hok := schedQueue_rangesOk hranges
  exact ⟨h.inMap.step hs, h.queue.step hok h.inMap hordered hs, h.valid.step hs,
    h.count.step hok h.inMap h.queue h.valid hordered hs,
    h.chosen.step hranges hsees h.queue.1.ranges h.inMap.queue_size h.valid.shape h.count hs⟩

lemma SchedSys.flowInv_start (hranges : cfg.ranges = defaultRanges) :
    (SchedSys.start cfg).FlowInv cfg where
  inMap := SchedSys.inMap_start cfg
  queue := queueInv_start cfg
  valid := SchedSys.valid_start hranges
  count := countInv_start cfg
  chosen := chosenInv_start cfg

lemma flowInv_of_runs (hranges : cfg.ranges = defaultRanges) (hsees : cfg.SeesAny)
    {ls : List (SchedStep β)}
    (hordered : AllSteps (schedStep cfg) SchedSys.Ordered (.start cfg) ls)
    (hs : runs (schedStep cfg) (.start cfg) ls = some s) : s.FlowInv cfg :=
  inv_of_allSteps (I := SchedSys.FlowInv cfg) (fun _ _ _ h hl hs => h.step hranges hsees hl hs)
    (SchedSys.flowInv_start hranges) hordered hs

/-- What the search in a range that has a full bucket finds. -/
lemma rangeCall_afterLoad (hranges : (schedQueue cfg).RangesOk) {map : SyncMap} {r : Fin 4}
    (hhas : (cfg.ranges r).Has i) (hset : syncMapIssig map i = true) :
    (FirstQuadFull map (cfg.ranges r).bitI ∧
      (rangeCall .unsigFirst (cfg.ranges r)).afterLoad 1 0 (map 0) = .ret none) ∨
    (¬ FirstQuadFull map (cfg.ranges r).bitI ∧
      ∃ sigi, (rangeCall .unsigFirst (cfg.ranges r)).afterLoad 1 0 (map 0) = .claim 0 sigi) := by
  have hfrom := (rangeCall_bounds hranges .unsigFirst r).1
  have hinside : (cfg.ranges r).bitI + (cfg.ranges r).bitN ≤ 64 := hranges.inside r
  have hto : (rangeCall .unsigFirst (cfg.ranges r)).toBitIndex =
      (cfg.ranges r).bitI + (cfg.ranges r).bitN := Nat.mod_eq_of_lt (by omega)
  have hlt : i < 64 := hhas.2.trans_le hinside
  have hbit : (cfg.ranges r).bitI < 64 := hhas.1.trans_lt hlt
  by_cases hfull : FirstQuadFull map (cfg.ranges r).bitI
  · refine Or.inl ⟨hfull, ?_⟩
    rcases @MapCall.afterLoad_cases (rangeCall .unsigFirst (cfg.ranges r)) 1 map 0 hfrom.le with
      ⟨sigi, hsigi, htakes, -⟩ | ⟨-, hafter⟩
    · refine absurd ⟨rfl, ?_, hfull⟩ htakes.2
      show (sigi + 64 * 0) / 64 = (cfg.ranges r).bitI / 64
      omega
    · exact hafter
  · refine Or.inr ⟨hfull, ?_⟩
    have htakes : (rangeCall .unsigFirst (cfg.ranges r)).Takes map i :=
      ⟨⟨hhas.1, hset⟩, fun h => hfull h.2.2⟩
    rcases @MapCall.afterLoad_cases (rangeCall .unsigFirst (cfg.ranges r)) 1 map 0 hfrom.le with
      ⟨sigi, -, -, hleast, hafter⟩ | ⟨hnone, -⟩
    · have hle : sigi + 64 * 0 ≤ i := by
        by_contra hgt
        exact hleast i (Nat.lt_of_not_le hgt) (by omega) htakes
      have hbelow := hhas.2
      rw [hto, MapCall.desi_of_lt (by omega), if_neg (by omega)] at hafter
      exact ⟨sigi, hafter⟩
    · exact absurd htakes (hnone i (by omega))

/-- **A dispatch among threads** fails exactly if the buckets of the range it selected are full,
with all those above it: every range that `sched_main` selects has a full bucket. -/
theorem dispatch_fails_iff (hranges : cfg.ranges = defaultRanges) (hsees : cfg.SeesAny)
    {ls : List (SchedStep β)}
    (hordered : AllSteps (schedStep cfg) SchedSys.Ordered (.start cfg) ls)
    (hs : runs (schedStep cfg) (.start cfg) ls = some s) {vrowI quad : ℕ} {r : Fin 4}
    (hpc : s.pc = .unsig vrowI r (.load quad)) (hstep : schedStep cfg s .sched = some s') :
    (∃ i, s.queue.FullIn r i) ∧
      (s'.pc = .unsig vrowI r (.ret none) ↔ ∀ i, (s.queue.ranges r).bitI ≤ i → i < 64 →
        syncMapIssig s.queue.smapDesc.map i = true) := by
  have h := flowInv_of_runs hranges hsees hordered hs
  have hok := schedQueue_rangesOk hranges
  have hchosen := h.chosen.chosen
  rw [hpc] at hchosen
  obtain ⟨rfl, hpos⟩ := hchosen
  obtain ⟨i, hhas, hset⟩ := h.count.full_of_presence hpos (fun i => by rw [hpc]; rfl)
    (by rw [hpc]; simp)
  refine ⟨⟨i, hhas, hset⟩, ?_⟩
  change schedMainStep cfg s = some s' at hstep
  simp only [schedMainStep, hpc, MapCall.step] at hstep
  obtain rfl := Option.some_injective _ hstep
  have hsame := h.queue.1.ranges
  have hinside : (cfg.ranges r).bitI + (cfg.ranges r).bitN ≤ 64 := hok.inside r
  rw [hsame] at hhas ⊢
  have hlow := hhas.1
  have hhigh := hhas.2
  have hfull : FirstQuadFull s.queue.smapDesc.map (cfg.ranges r).bitI ↔
      ∀ i, (cfg.ranges r).bitI ≤ i → i < 64 → syncMapIssig s.queue.smapDesc.map i = true := by
    constructor
    · exact fun hall i hle hlt => hall i (by omega) hle
    · exact fun hall i hquad hle => hall i hle (by omega)
  rw [h.inMap.queue_size, ← hfull]
  rcases rangeCall_afterLoad hok hhas hset with ⟨hyes, hafter⟩ | ⟨hno, sigi, hafter⟩
  · rw [hafter]
    exact iff_of_true rfl hyes
  · rw [hafter]
    exact iff_of_false (by simp) hno

end

lemma seesAny_oneVrowConfig : oneVrowConfig.SeesAny := by
  intro presence
  rw [← Function.ne_iff]
  exact decide_eq_true_iff

/-- The range of the priority real is full, and `sched_main` goes for one of its payloads. -/
def realRun : List (SchedStep Bool) := fullRun ++ List.replicate 6 .sched

theorem dispatch_fails_iff_realRun :
    ∃ t t', runs (schedStep oneVrowConfig) (.start oneVrowConfig) realRun = some t ∧
      schedStep oneVrowConfig t .sched = some t' ∧
      (∃ i, t.queue.FullIn 0 i) ∧
      (t'.pc = .unsig 0 0 (.ret none) ↔ ∀ i, (t.queue.ranges 0).bitI ≤ i → i < 64 →
        syncMapIssig t.queue.smapDesc.map i = true) := by
  have hrun : ∃ t ∈ runs (schedStep oneVrowConfig) (.start oneVrowConfig) realRun,
      t.pc = .unsig 0 0 (.load 0) ∧ (schedStep oneVrowConfig t .sched).isSome = true := by
    decide +kernel
  obtain ⟨t, ht, hpc, hstep⟩ := hrun
  obtain ⟨t', ht'⟩ := Option.isSome_iff_exists.1 hstep
  have hordered : AllSteps (schedStep oneVrowConfig) (fun s l => s.orderedBelow 6 l = true)
      (.start oneVrowConfig) realRun := by
    decide +kernel
  exact ⟨t, t', ht, ht', dispatch_fails_iff rfl seesAny_oneVrowConfig
    (SchedSys.ordered_of_run hordered) ht hpc ht'⟩

/-- The range is full, and the dispatch fails. -/
example : (runs (schedStep oneVrowConfig) (.start oneVrowConfig) (realRun ++ [.sched])).map
    (fun s => s.pc) = some (.unsig 0 0 (.ret none)) := by decide +kernel

end AxVirtLayer
