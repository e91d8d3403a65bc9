import AxVirtLayer.Lib.Fair
import AxVirtLayer.Pipe.Delete
import AxVirtLayer.Pipe.Pop

/-!
# The end of a scheduler

`sched_delete` waits for `sched_main` and then for one thread of a vrow after the other.
`life_deletes` says that it returns under every fair schedule, after a number of rounds that
depends on the number of vrows alone, if `sched_main` claims no vrow whose thread has decided to
leave: then the bank it loads into is empty, and it waits for nobody.

A thread of a vrow that is not closed goes round its loop meanwhile, and so does a call of
`sched_push` that finds no bucket, so what is bounded is not the number of steps but the number of
rounds.
-/

namespace AxVirtLayer

open Lib

/-! ## The measures -/

/-- The operations a call has left, at most. -/
def MapPc.rank (size : ℕ) : MapPc → ℕ
  | .load quad => size - quad + 2
  | .claim _ _ => 1
  | .ret _ => 0

section

variable {β : Type}

/-- The steps `sched_main` has left after `sched_close`, at most; `q` and `v` are the sizes of the
two maps. -/
def SchedPc.rank (q v : ℕ) : SchedPc β → ℕ
  | .terminated => 0
  | .terminate => 1
  | .closed => 2
  | .sub _ => 3
  | .back _ => 3
  | .sigoff _ => 4
  | .load _ _ _ .fill => 5
  | .load _ _ _ (.store _) => 6
  | .load _ _ _ (.wait _) => 7
  | .pop _ _ => 8
  | .unsig _ _ pc => 9 + pc.rank q
  | .disp _ left => 12 + q + left.length
  | .vrow pc => 16 + q + pc.rank v
  | .presence => 19 + q + v

/-- The steps the thread of a closed vrow has left. -/
def VrowPc.rank : VrowPc → ℕ
  | .exited => 0
  | .empty => 1
  | .zero => 2
  | .sigoff true => 3
  | .loop => 3
  | .sigoff false => 4
  | .proc 2 => 5
  | .fillFrom .oneTwo => 6
  | .move .oneTwo => 7
  | .fillTo .oneTwo => 8
  | .activeFrom .oneTwo => 9
  | .activeTo .oneTwo => 10
  | .proc 1 => 11
  | .fillFrom .zeroOne => 12
  | .move .zeroOne => 13
  | .fillTo .zeroOne => 14
  | .activeFrom .zeroOne => 15
  | .activeTo .zeroOne => 16
  | .proc 0 => 17
  | .sigon => 18
  | .enter => 19
  | .filled => 20

/-- The measure of a deletion: the vrows left, and what the thread it waits for has left. -/
def CreateSys.rank (cfg : SchedConfig β) (s : CreateSys β) : ℕ :=
  match s.pc with
  | .close => 23 * cfg.vrowCount + cfg.vrowCount / 64 + 28
  | .wait => 23 * cfg.vrowCount + 6 + s.sched.pc.rank 1 (cfg.vrowCount / 64 + 1)
  | .vrowDelete i => 23 * (cfg.vrowCount - i) + 5
  | .vrowWait i => 23 * (cfg.vrowCount - (i + 1)) + 6 + (s.sched.vrows i).2.rank
  | .freeBase => 4
  | .bitpoolDelete => 3
  | .syncMapDisp => 2
  | .free => 1
  | _ => 0

/-- The thread whose turn the deletion waits for. -/
def CreateSys.helper (s : CreateSys β) : LifeStep β :=
  match s.pc with
  | .wait => if schedIsTerminated s.sched then .life .creator else .life .main
  | .vrowWait i =>
    if (s.sched.vrows i).1.states = vrowStateEmpty then .life .creator else .life (.vrow i)
  | _ => .life .creator

/-! ## `sched_main` after `sched_close` -/

variable {cfg : SchedConfig β} {s s' : SchedSys β}

/-- A call that has not returned comes closer to its return. -/
lemma MapCall.rank_step (call : MapCall) (size : ℕ) (m : SyncMap) {pc : MapPc}
    (hpc : ∀ r, pc ≠ .ret r) : (call.step size m pc).2.rank size < pc.rank size := by
  cases pc with
  | load quad =>
    show (call.afterLoad size quad (m quad)).rank size < size - quad + 2
    rw [MapCall.afterLoad]
    dsimp only
    split
    · split
      · exact Nat.succ_pos _
      · exact Nat.lt_add_left _ Nat.one_lt_two
    · split
      · rename_i hnext
        show size - (quad + 1) + 2 < size - quad + 2
        omega
      · exact Nat.succ_pos _
  | claim quad sigi => exact Nat.one_pos
  | ret r => exact absurd rfl (hpc r)

/-- The bucket that is released is one of the queue, and no more than three priorities are left
to a dispatch. -/
structure SchedSys.PlaceOk (s : SchedSys β) : Prop where
  sub : ∀ bucketI, s.pc = .sub bucketI → bucketI < s.queue.bucketCount
  disp : ∀ vrowI left, s.pc = .disp vrowI left → left.length ≤ 3

lemma MapPc.rank_le (pc : MapPc) (size : ℕ) : pc.rank size ≤ size + 2 := by
  cases pc with
  | load quad =>
    show size - quad + 2 ≤ size + 2
    omega
  | claim quad sigi => exact Nat.succ_le_succ (Nat.zero_le _)
  | ret r => exact Nat.zero_le _

lemma SchedSys.PlaceOk.rank_le (h : s.PlaceOk) (q v : ℕ) : s.pc.rank q v ≤ 19 + q + v := by
  cases hpc : s.pc with
  | vrow pc =>
    have hle := pc.rank_le v
    show 16 + q + pc.rank v ≤ 19 + q + v
    omega
  | disp vrowI left =>
    have hle := h.disp vrowI left hpc
    show 12 + q + left.length ≤ 19 + q + v
    omega
  | unsig vrowI range pc =>
    have hle := pc.rank_le q
    show 9 + pc.rank q ≤ 19 + q + v
    omega
  | presence => exact le_rfl
  | load vrowI bucketI call pc =>
    cases pc with
    | _ =>
      rw [SchedPc.rank]
      omega
  | _ =>
    rw [SchedPc.rank]
    omega

/-- **Every step of `sched_main` after `sched_close`** brings it closer to its end. -/
lemma schedMainStep_rank (cfg : SchedConfig β) (hclosed : s.closed = true) (hvalid : s.Valid)
    (hplace : s.PlaceOk) (hempty : ∀ i, s.pc.Holds i → vrowIsFilled (s.vrows i).1 0 = false)
    (hrun : s.pc ≠ .terminated) :
    ∃ s', schedMainStep cfg s = some s' ∧
      s'.pc.rank s.queue.smapDesc.size s.vrowSmap.size <
        s.pc.rank s.queue.smapDesc.size s.vrowSmap.size := by
  cases hpc : s.pc with
  | closed =>
    refine ⟨_, by rw [schedMainStep, hpc], ?_⟩
    rw [if_pos hclosed]
    exact Nat.one_lt_two
  | presence =>
    refine ⟨_, by rw [schedMainStep, hpc], ?_⟩
    have hstart := ((vrowCall cfg).start s.vrowSmap.size).rank_le s.vrowSmap.size
    dsimp only
    split
    · show 16 + s.queue.smapDesc.size + _ < 19 + s.queue.smapDesc.size + s.vrowSmap.size
      omega
    · show 2 < 19 + s.queue.smapDesc.size + s.vrowSmap.size
      omega
  | vrow pc =>
    by_cases hret : ∀ r, pc ≠ .ret r
    · have hrank := (vrowCall cfg).rank_step s.vrowSmap.size s.vrowSmap.map hret
      cases pc with
      | load quad =>
        refine ⟨_, by rw [schedMainStep, hpc], ?_⟩
        exact Nat.add_lt_add_left hrank _
      | claim quad sigi =>
        refine ⟨_, by rw [schedMainStep, hpc], ?_⟩
        exact Nat.add_lt_add_left hrank _
      | ret r => exact absurd rfl (hret r)
    · push Not at hret
      obtain ⟨r, rfl⟩ := hret
      cases r with
      | none =>
        refine ⟨_, by rw [schedMainStep, hpc], ?_⟩
        show 2 < 16 + s.queue.smapDesc.size + 0
        omega
      | some vrowI =>
        refine ⟨_, by rw [schedMainStep, hpc], ?_⟩
        show 12 + s.queue.smapDesc.size + 3 < 16 + s.queue.smapDesc.size + 0
        omega
  | disp vrowI left =>
    have hstart : ∀ range, ((rangeCall .unsigFirst (s.queue.ranges range)).start
        s.queue.smapDesc.size).rank s.queue.smapDesc.size ≤ s.queue.smapDesc.size + 2 :=
      fun range => MapPc.rank_le _ _
    cases left with
    | nil =>
      refine ⟨_, by rw [schedMainStep, hpc], ?_⟩
      have hthree := hstart 3
      show 9 + _ < 12 + s.queue.smapDesc.size + 0
      omega
    | cons i left =>
      have hi := hstart i
      simp only [schedMainStep, hpc]
      split
      · split
        · refine ⟨_, rfl, ?_⟩
          show 9 + _ < 12 + s.queue.smapDesc.size + (left.length + 1)
          omega
        · exact ⟨_, rfl, Nat.lt_succ_self _⟩
      · exact ⟨_, rfl, Nat.lt_succ_self _⟩
  | unsig vrowI range pc =>
    by_cases hret : ∀ r, pc ≠ .ret r
    · have hrank := (rangeCall .unsigFirst (s.queue.ranges range)).rank_step
        s.queue.smapDesc.size s.queue.smapDesc.map hret
      cases pc with
      | load quad =>
        refine ⟨_, by rw [schedMainStep, hpc], ?_⟩
        exact Nat.add_lt_add_left hrank _
      | claim quad sigi =>
        refine ⟨_, by rw [schedMainStep, hpc], ?_⟩
        exact Nat.add_lt_add_left hrank _
      | ret r => exact absurd rfl (hret r)
    · push Not at hret
      obtain ⟨r, rfl⟩ := hret
      cases r with
      | none =>
        refine ⟨_, by rw [schedMainStep, hpc], ?_⟩
        show 3 < 9 + 0
        omega
      | some i =>
        refine ⟨_, by rw [schedMainStep, hpc], ?_⟩
        show 8 < 9 + 0
        omega
  | back vrowI =>
    refine ⟨_, by rw [schedMainStep, hpc], ?_⟩
    show 2 < 3
    omega
  | pop vrowI bucketI =>
    simp only [schedMainStep, hpc]
    split
    · refine ⟨_, rfl, ?_⟩
      show 2 < 8
      omega
    · refine ⟨_, rfl, ?_⟩
      show 7 < 8
      omega
  | load vrowI bucketI call pc =>
    refine ⟨_, by rw [schedMainStep, hpc], ?_⟩
    cases pc with
    | wait payload =>
      -- the bank is empty: `vrow_bank_load` does not wait
      have hbank := hempty vrowI (by rw [hpc]; rfl)
      simp only [vrowBankLoadStep, hbank, Bool.false_eq_true, if_false]
      show 6 < 7
      omega
    | store payload =>
      show 5 < 6
      omega
    | fill =>
      show 4 < 5
      omega
  | sigoff bucketI =>
    simp only [schedMainStep, hpc]
    split
    · refine ⟨_, rfl, ?_⟩
      show 2 < 4
      omega
    · refine ⟨_, rfl, ?_⟩
      show 3 < 4
      omega
  | sub bucketI =>
    -- every bucket has a range, so the assertion holds
    obtain ⟨r, hr⟩ := hvalid.covered bucketI (hplace.sub bucketI hpc)
    refine ⟨_, by
      rw [schedMainStep, hpc]; dsimp only; rw [hvalid.shape.indexToPresence hr]; rfl, ?_⟩
    show 2 < 3
    omega
  | terminate =>
    refine ⟨_, by rw [schedMainStep, hpc], ?_⟩
    show 0 < 1
    omega
  | terminated => exact absurd hpc hrun

/-! ## The thread of a closed vrow -/

lemma VrowPc.afterProc_rank (k : Fin 3) (succ : Bool) :
    (VrowPc.afterProc k succ).rank < (VrowPc.proc k).rank := by
  revert k succ
  decide

/-- **Every step of the thread of a closed vrow** brings it closer to its end. -/
lemma vrowThreadStep_rank (funcs : BankFuncs β) (zero : β) {vrow : Vrow β} {pc : VrowPc}
    (hclosed : vrow.closed = true) (hpc : pc ≠ .exited) :
    ∃ vrow' signal pc', vrowThreadStep funcs zero vrow pc = some (vrow', signal, pc') ∧
      vrow'.closed = true ∧ pc'.rank < pc.rank := by
  cases pc with
  | loop =>
    refine ⟨_, _, _, rfl, hclosed, ?_⟩
    rw [if_pos hclosed]
    decide
  | filled =>
    refine ⟨_, _, _, rfl, hclosed, ?_⟩
    split
    · decide
    · decide
  | enter => exact ⟨_, _, _, rfl, hclosed, by decide⟩
  | sigon => exact ⟨_, _, _, rfl, hclosed, by decide⟩
  | proc k =>
    obtain ⟨-, hsame⟩ := vrowBankProc_frame funcs vrow k
    refine ⟨_, _, _, rfl, hsame.trans hclosed, ?_⟩
    exact VrowPc.afterProc_rank k _
  | activeTo swap =>
    refine ⟨_, _, _, rfl, hclosed, ?_⟩
    cases swap
    · decide
    · decide
  | activeFrom swap =>
    refine ⟨_, _, _, rfl, hclosed, ?_⟩
    cases swap
    · decide
    · decide
  | fillTo swap =>
    refine ⟨_, _, _, rfl, hclosed, ?_⟩
    cases swap
    · decide
    · decide
  | move swap =>
    refine ⟨_, _, _, rfl, hclosed, ?_⟩
    cases swap
    · decide
    · decide
  | fillFrom swap =>
    refine ⟨_, _, _, rfl, hclosed, ?_⟩
    cases swap
    · decide
    · decide
  | sigoff leave =>
    refine ⟨_, _, _, rfl, hclosed, ?_⟩
    revert leave
    decide
  | zero => exact ⟨_, _, _, rfl, hclosed, by decide⟩
  | empty => exact ⟨_, _, _, rfl, hclosed, by decide⟩
  | exited => exact absurd rfl hpc

lemma VrowPc.rank_le (pc : VrowPc) : pc.rank ≤ 20 := by
  cases pc with
  | proc k =>
    revert k
    decide
  | activeTo swap | activeFrom swap | fillTo swap | move swap | fillFrom swap =>
    cases swap
    · decide
    · decide
  | sigoff leave =>
    revert leave
    decide
  | _ => decide

/-! ## The scheduler under a deletion -/

/-- What the end of `sched_main` relies on. -/
structure SchedSys.Calm (cfg : SchedConfig β) (s : SchedSys β) : Prop where
  inMap : s.InMap cfg
  worker : s.WorkerInv
  valid : s.Valid
  place : s.PlaceOk

lemma SchedSys.calm_start (hranges : cfg.ranges = defaultRanges) :
    (SchedSys.start cfg).Calm cfg where
  inMap := SchedSys.inMap_start cfg
  worker := workerInv_start cfg
  valid := SchedSys.valid_start hranges
  place := ⟨nofun, nofun⟩

/-- `sched_main` comes to the release of a bucket of the queue alone. -/
lemma schedMainStep_place (h : s.PlaceOk) (hs : schedMainStep cfg s = some s') :
    s'.PlaceOk := by
  simp only [schedMainStep] at hs
  split at hs
  case h_7 =>
    rename_i vrowI i left hpc
    have hlen := h.disp vrowI (i :: left) hpc
    rw [List.length_cons] at hlen
    repeat' split at hs
    all_goals
      cases hs
      refine ⟨by simp, fun vrowI left' hleft => ?_⟩
      cases hleft
    all_goals omega
  case h_15 =>
    obtain ⟨range, -, rfl⟩ := Option.map_eq_some_iff.1 hs
    exact ⟨by simp, by simp⟩
  all_goals
    repeat' split at hs
    all_goals
      cases hs
    all_goals
      refine ⟨fun bucketI hpc => ?_, fun vrowI left hpc => ?_⟩
  all_goals
    dsimp only at hpc
    try split at hpc
  all_goals
    try cases hpc
  · exact le_rfl
  · rename_i hlt
    exact Nat.lt_of_not_le hlt

/-- The threads leave the requests to close as they are. -/
lemma vrowBankLoadStep_closed (vrow : Vrow β) (bankI : Fin 4) (pc : LoadPc β) :
    (vrowBankLoadStep vrow bankI pc).1.closed = vrow.closed := by
  cases pc with
  | wait payload => rfl
  | store payload => rfl
  | fill => rfl

lemma schedMainStep_closed (hs : schedMainStep cfg s = some s') :
    s'.closed = s.closed ∧ ∀ i, (s'.vrows i).1.closed = (s.vrows i).1.closed := by
  constructor
  · simp only [schedMainStep] at hs
    split at hs
    case h_15 =>
      obtain ⟨range, -, rfl⟩ := Option.map_eq_some_iff.1 hs
      rfl
    all_goals
      repeat' split at hs
      all_goals
        cases hs
        try rfl
  · intro i
    rcases schedMainStep_vrows hs with ⟨_, _, -, -, hvrows, -⟩ | ⟨vrowI, _, _, pc, -, hvrows, -⟩ |
      ⟨-, -, hvrows, -⟩
    · rw [hvrows]
    · rw [hvrows]
      by_cases hi : i = vrowI
      · rw [hi, Function.update_self]
        exact vrowBankLoadStep_closed _ _ _
      · rw [Function.update_of_ne hi]
    · rw [hvrows]

/-- `sched_close` and `vrow_close` are not taken back. -/
lemma schedStep_closed {l : SchedStep β} (hs : schedStep cfg s l = some s') :
    (s.closed = true → s'.closed = true) ∧
      ∀ i, (s.vrows i).1.closed = true → (s'.vrows i).1.closed = true := by
  cases l with
  | push c payload prior =>
    obtain ⟨push, -, -, rfl⟩ := schedStep_push hs
    exact ⟨id, fun _ => id⟩
  | pushStep c =>
    obtain ⟨push, queue, pc, -, -, rfl⟩ := schedStep_pushStep hs
    exact ⟨id, fun _ => id⟩
  | sched =>
    obtain ⟨hclosed, hvrows⟩ := schedMainStep_closed hs
    refine ⟨fun h => hclosed.trans h, fun i hi => (hvrows i).trans hi⟩
  | vrow i =>
    obtain ⟨-, vrow, signal, pc, hv, rfl⟩ := schedStep_vrow hs
    refine ⟨id, fun j hj => ?_⟩
    dsimp only
    by_cases hji : j = i
    · rw [hji] at hj
      have hpc : (s.vrows i).2 ≠ .exited := by
        intro hexited
        rw [hexited] at hv
        cases hv
      obtain ⟨vrow', _, _, hv', hclosed, -⟩ :=
        vrowThreadStep_rank cfg.funcs cfg.zero hj hpc
      obtain ⟨rfl, -⟩ := Prod.mk.inj (Option.some_injective _ (hv'.symm.trans hv))
      rw [hji, Function.update_self]
      exact hclosed
    · rw [Function.update_of_ne hji]
      exact hj
  | close =>
    obtain rfl := Option.some_injective _ hs
    exact ⟨fun _ => rfl, fun _ => id⟩
  | closeVrow i =>
    obtain ⟨-, rfl⟩ := schedStep_closeVrow hs
    refine ⟨id, fun j hj => ?_⟩
    dsimp only
    by_cases hji : j = i
    · rw [hji, Function.update_self]
    · rw [Function.update_of_ne hji]
      exact hj

/-- After the end of `sched_main` a vrow is left to its thread. -/
lemma schedStep_vrow_of_terminated {l : SchedStep β} {i : ℕ} (hterm : s.pc = .terminated)
    (hs : schedStep cfg s l = some s') (hl : l ≠ .vrow i) :
    (s'.vrows i).2 = (s.vrows i).2 ∧ (s'.vrows i).1.states = (s.vrows i).1.states := by
  cases l with
  | push c payload prior =>
    obtain ⟨push, -, -, rfl⟩ := schedStep_push hs
    exact ⟨rfl, rfl⟩
  | pushStep c =>
    obtain ⟨push, queue, pc, -, -, rfl⟩ := schedStep_pushStep hs
    exact ⟨rfl, rfl⟩
  | sched => exact absurd hterm (schedMainStep_ne_terminated hs)
  | vrow j =>
    have hji : i ≠ j := fun heq => hl (heq ▸ rfl)
    obtain ⟨-, vrow, signal, pc, -, rfl⟩ := schedStep_vrow hs
    dsimp only
    rw [Function.update_of_ne hji]
    exact ⟨rfl, rfl⟩
  | close =>
    obtain rfl := Option.some_injective _ hs
    exact ⟨rfl, rfl⟩
  | closeVrow j =>
    obtain ⟨-, rfl⟩ := schedStep_closeVrow hs
    dsimp only
    by_cases hji : i = j
    · rw [hji, Function.update_self]
      exact ⟨rfl, rfl⟩
    · rw [Function.update_of_ne hji]
      exact ⟨rfl, rfl⟩

/-- **One step** of the scheduler. -/
lemma SchedSys.Calm.step (h : s.Calm cfg) {l : SchedStep β} (hclaims : ClaimsStaying s l)
    (hs : schedStep cfg s l = some s') : s'.Calm cfg := by
  have hplace : s'.PlaceOk := by
    by_cases hl : l = .sched
    · subst hl
      exact schedMainStep_place h.place hs
    · obtain ⟨hpc, -, -, -, -, hcount, -⟩ := schedStep_frame hs hl
      exact ⟨fun bucketI hsub => (h.place.sub bucketI (hpc ▸ hsub)).trans_eq hcount.symm,
        fun vrowI left hdisp => h.place.disp vrowI left (hpc ▸ hdisp)⟩
  exact ⟨h.inMap.step hs, h.worker.step h.inMap hclaims hs, h.valid.step hs, hplace⟩

end

/-! ## The deletion -/

section

variable {β : Type} {cfg : SchedConfig β} {s s' : CreateSys β} {l : LifeStep β}

/-- The `fetch_or` of `sched_main` for a vrow finds a thread that has not decided to leave. -/
def LifeClaimsStaying (s : CreateSys β) : LifeStep β → Prop
  | .life .main => ClaimsStaying s.sched .sched
  | _ => True

instance (s : CreateSys β) (l : LifeStep β) : Decidable (LifeClaimsStaying s l) := by
  unfold LifeClaimsStaying
  split <;> infer_instance

/-- The requests to close that the deletion has made, at its place. -/
def CreateSys.Closing (s : CreateSys β) : Prop :=
  match s.pc with
  | .wait => s.sched.closed = true
  | .vrowWait i => (s.sched.vrows i).1.closed = true
  | .close | .vrowDelete _ | .freeBase | .bitpoolDelete | .syncMapDisp | .free | .returned => True
  | _ => False

/-- The invariant of a deletion. -/
structure CreateSys.Deleting (cfg : SchedConfig β) (s : CreateSys β) : Prop where
  life : s.LifeInv cfg
  calm : s.sched.Calm cfg
  closing : s.Closing

/-- One step keeps what the end of `sched_main` relies on. -/
lemma CreateSys.calm_step (hlife : s.LifeInv cfg) (hcalm : s.sched.Calm cfg)
    (hclaims : LifeClaimsStaying s l) (hs : lifeStep cfg s l = some s') : s'.sched.Calm cfg := by
  rcases lifeStep_sched hlife.stage hs with hsame | ⟨l', hl', hmain⟩
  · rwa [hsame]
  · refine hcalm.step ?_ hl'
    cases l' with
    | sched =>
      obtain rfl := hmain rfl
      exact hclaims
    | _ => trivial

/-- The next operation of a deletion moves on, unless it waits. -/
lemma CreateSys.Deleting.creator (h : s.Deleting cfg) :
    (∃ s', creatorStep cfg none s = some s' ∧ s'.Closing ∧ s'.rank cfg < s.rank cfg) ∨
      turn (lifeStep cfg) s (.life .creator) = s ∧
        (s.rank cfg ≠ 0 → s.helper ≠ .life .creator) := by
  obtain ⟨⟨-, hstage⟩, hcalm, hclosing⟩ := h
  obtain ⟨pc, sched, started, created, deleted, base, queue, smap, context⟩ := s
  cases pc with
  | check | syncMapInit | vrowCreate | bitpoolCreate | pthreadCreate | created =>
    exact hclosing.elim
  | close =>
    left
    refine ⟨_, rfl, rfl, ?_⟩
    have hrank := hcalm.place.rank_le 1 (cfg.vrowCount / 64 + 1)
    show 23 * cfg.vrowCount + 6 + sched.pc.rank 1 (cfg.vrowCount / 64 + 1) <
      23 * cfg.vrowCount + cfg.vrowCount / 64 + 28
    dsimp only at hrank
    omega
  | wait =>
    by_cases hterm : schedIsTerminated sched = true
    · left
      refine ⟨_, congrArg some (if_pos hterm), ?_, ?_⟩
      · trivial
      · show 23 * (cfg.vrowCount - 0) + 5 < 23 * cfg.vrowCount + 6 + _
        omega
    · right
      refine ⟨turn_of_some (congrArg some (if_neg hterm)), fun _ hhelper => ?_⟩
      rw [CreateSys.helper] at hhelper
      cases (if_neg hterm).symm.trans hhelper
  | vrowDelete i =>
    left
    obtain ⟨-, hcreated, -, -, -, -, hi⟩ := hstage
    dsimp only at hcreated
    subst hcreated
    by_cases hlt : i < cfg.vrowCount
    · refine ⟨_, congrArg some ((if_pos hlt).trans (if_pos hlt)), ?_, ?_⟩
      · show ((sched.closeVrow i).vrows i).1.closed = true
        have hself : (sched.closeVrow i).vrows i = ({ (sched.vrows i).1 with closed := true }, _) :=
          Function.update_self ..
        rw [hself]
      · have hrank := VrowPc.rank_le ((sched.closeVrow i).vrows i).2
        show 23 * (cfg.vrowCount - (i + 1)) + 6 + ((sched.closeVrow i).vrows i).2.rank <
          23 * (cfg.vrowCount - i) + 5
        omega
    · refine ⟨_, congrArg some (if_neg hlt), ?_, ?_⟩
      · trivial
      · show 4 < 23 * (cfg.vrowCount - i) + 5
        omega
  | vrowWait i =>
    by_cases hempty : (sched.vrows i).1.states = vrowStateEmpty
    · left
      refine ⟨_, congrArg some (if_pos hempty), ?_, ?_⟩
      · trivial
      · show 23 * (cfg.vrowCount - (i + 1)) + 5 < 23 * (cfg.vrowCount - (i + 1)) + 6 + _
        omega
    · right
      refine ⟨turn_of_some (congrArg some (if_neg hempty)), fun _ hhelper => ?_⟩
      rw [CreateSys.helper] at hhelper
      cases (if_neg hempty).symm.trans hhelper
  | freeBase => exact Or.inl ⟨_, rfl, trivial, Nat.lt_succ_self 3⟩
  | bitpoolDelete => exact Or.inl ⟨_, rfl, trivial, Nat.lt_succ_self 2⟩
  | syncMapDisp => exact Or.inl ⟨_, rfl, trivial, Nat.lt_succ_self 1⟩
  | free => exact Or.inl ⟨_, rfl, trivial, Nat.lt_succ_self 0⟩
  | returned => exact Or.inr ⟨rfl, fun hrank => absurd rfl hrank⟩

/-- The turn of `sched_main` while the deletion waits for it. -/
lemma CreateSys.Deleting.main (h : s.Deleting cfg) (hpc : s.pc = .wait)
    (hrun : s.sched.pc ≠ .terminated) :
    ∃ s', lifeStep cfg s (.life .main) = some s' ∧ s'.rank cfg < s.rank cfg := by
  obtain ⟨⟨-, hstage⟩, hcalm, hclosing⟩ := h
  obtain ⟨pc, sched, started, created, deleted, base, queue, smap, context⟩ := s
  obtain rfl : pc = .wait := hpc
  obtain ⟨-, -, -, hstarted⟩ := hstage
  dsimp only at hstarted
  subst hstarted
  obtain ⟨u, hu, hrank⟩ := schedMainStep_rank cfg hclosing hcalm.valid hcalm.place
    (fun i hi => ((hcalm.worker.vrow i).held hi).2.2) hrun
  dsimp only at hu hrank
  rw [hcalm.inMap.queue_size, hcalm.inMap.vrow_size] at hrank
  refine ⟨⟨.wait, u, true, created, deleted, base, queue, smap, context⟩, ?_,
    Nat.add_lt_add_left hrank (23 * cfg.vrowCount + 6)⟩
  rw [lifeStep, createStep, if_pos rfl, hu]
  rfl

/-- The turn of the thread of a vrow while the deletion waits for it. -/
lemma CreateSys.Deleting.vrow (h : s.Deleting cfg) {i : ℕ} (hpc : s.pc = .vrowWait i)
    (hbusy : (s.sched.vrows i).1.states ≠ vrowStateEmpty) :
    ∃ s', lifeStep cfg s (.life (.vrow i)) = some s' ∧ s'.rank cfg < s.rank cfg := by
  obtain ⟨⟨-, hstage⟩, hcalm, hclosing⟩ := h
  obtain ⟨pc, sched, started, created, deleted, base, queue, smap, context⟩ := s
  obtain rfl : pc = .vrowWait i := hpc
  obtain ⟨-, hcreated, -, -, -, -, hi⟩ := hstage
  dsimp only at hcreated
  subst hcreated
  have hexited : (sched.vrows i).2 ≠ .exited := by
    intro hexited
    exact hbusy ((hcalm.worker.vrow i).exited hexited)
  obtain ⟨vrow, signal, pc, hstep, -, hrank⟩ :=
    vrowThreadStep_rank cfg.funcs cfg.zero hclosing hexited
  let u : SchedSys β := { sched with
    vrowSmap := { sched.vrowSmap with map := signal.apply sched.vrowSmap.map i }
    vrows := Function.update sched.vrows i (vrow, pc) }
  refine ⟨⟨.vrowWait i, u, started, cfg.vrowCount, deleted, base, queue, smap, context⟩, ?_, ?_⟩
  · rw [lifeStep, createStep, if_pos hi, schedStep, if_pos hi, hstep]
    rfl
  · show 23 * (cfg.vrowCount - (i + 1)) + 6 +
        (Function.update sched.vrows i (vrow, pc) i).2.rank <
      23 * (cfg.vrowCount - (i + 1)) + 6 + (sched.vrows i).2.rank
    rw [Function.update_self]
    exact Nat.add_lt_add_left hrank _

/-- A step of a thread that the deletion does not wait for. -/
lemma CreateSys.Deleting.others (h : s.Deleting cfg) {u : SchedSys β} {l' : SchedStep β}
    (hs : schedStep cfg s.sched l' = some u) (hmain : s.pc = .wait → l' ≠ .sched)
    (hvrow : ∀ i, s.pc = .vrowWait i → l' ≠ .vrow i) :
    ({ s with sched := u } : CreateSys β).rank cfg = s.rank cfg ∧
      ({ s with sched := u } : CreateSys β).helper = s.helper := by
  obtain ⟨⟨-, hstage⟩, -, -⟩ := h
  obtain ⟨pc, sched, started, created, deleted, base, queue, smap, context⟩ := s
  cases pc with
  | wait =>
    obtain ⟨hpc, -⟩ := schedStep_frame hs (hmain rfl)
    dsimp only at hpc
    constructor
    · show _ + u.pc.rank 1 _ = _ + sched.pc.rank 1 _
      rw [hpc]
    · have hsame : schedIsTerminated u = schedIsTerminated sched := by
        rw [schedIsTerminated, schedIsTerminated, hpc]
      rw [CreateSys.helper, CreateSys.helper]
      simp only [hsame]
  | vrowWait i =>
    obtain ⟨-, -, hterm, -⟩ := hstage
    obtain ⟨hplace, hstates⟩ := schedStep_vrow_of_terminated hterm hs (hvrow i rfl)
    dsimp only at hplace hstates
    constructor
    · show _ + (u.vrows i).2.rank = _ + (sched.vrows i).2.rank
      rw [hplace]
    · rw [CreateSys.helper, CreateSys.helper]
      simp only [hstates]
  | _ => exact ⟨rfl, rfl⟩

/-- A step of a thread keeps the requests to close. -/
lemma CreateSys.Closing.sched (h : s.Closing) {u : SchedSys β} {l' : SchedStep β}
    (hs : schedStep cfg s.sched l' = some u) : ({ s with sched := u } : CreateSys β).Closing := by
  obtain ⟨hmain, hvrow⟩ := schedStep_closed hs
  obtain ⟨pc, sched, started, created, deleted, base, queue, smap, context⟩ := s
  cases pc with
  | wait => exact hmain h
  | vrowWait i => exact hvrow i h
  | _ => exact h

/-- **One turn** keeps the invariant. -/
lemma CreateSys.Deleting.turn (h : s.Deleting cfg) (hclaims : LifeClaimsStaying s l) :
    (turn (lifeStep cfg) s l).Deleting cfg := by
  rcases turn_cases (lifeStep cfg) s l with hsame | hs
  · rwa [hsame]
  refine ⟨h.life.step hs, CreateSys.calm_step h.life h.calm hclaims hs, ?_⟩
  by_cases hcreator : l = .life .creator
  · subst hcreator
    rcases h.creator with ⟨s', hs', hclosing, -⟩ | ⟨hsame, -⟩
    · rw [turn_of_some hs']
      exact hclosing
    · rw [hsame]
      exact h.closing
  by_cases hdelete : l = .life .delete
  · subst hdelete
    have hclosing := h.closing
    rw [CreateSys.Closing, (lifeStep_delete hs).1] at hclosing
    exact hclosing.elim
  · obtain ⟨l', u, -, hu, hs'⟩ := lifeStep_thread hs hcreator hdelete
    rw [hs']
    exact h.closing.sched hu

/-- The thread the deletion waits for. -/
lemma CreateSys.helper_cases (s : CreateSys β) : s.helper = .life .creator ∨
    (s.pc = .wait ∧ s.sched.pc ≠ .terminated ∧ s.helper = .life .main) ∨
    ∃ i, s.pc = .vrowWait i ∧ (s.sched.vrows i).1.states ≠ vrowStateEmpty ∧
      s.helper = .life (.vrow i) := by
  obtain ⟨pc, sched, started, created, deleted, base, queue, smap, context⟩ := s
  cases pc with
  | wait =>
    by_cases hterm : schedIsTerminated sched = true
    · exact Or.inl (if_pos hterm)
    · exact Or.inr (Or.inl ⟨rfl, fun hpc => hterm (schedIsTerminated_iff.2 hpc), if_neg hterm⟩)
  | vrowWait i =>
    by_cases hempty : (sched.vrows i).1.states = vrowStateEmpty
    · exact Or.inl (if_pos hempty)
    · exact Or.inr (Or.inr ⟨i, rfl, hempty, if_neg hempty⟩)
  | _ => exact Or.inl rfl

/-- A turn of a thread brings the deletion closer to its return, or it is not the thread the
deletion waits for. -/
lemma CreateSys.Deleting.thread (h : s.Deleting cfg) (hs : lifeStep cfg s l = some s')
    (hcreator : l ≠ .life .creator) (hdelete : l ≠ .life .delete) :
    s'.rank cfg < s.rank cfg ∨ s'.rank cfg = s.rank cfg ∧ s'.helper = s.helper := by
  obtain ⟨l', u, hl', hu, rfl⟩ := lifeStep_thread hs hcreator hdelete
  by_cases hmain : s.pc = .wait ∧ l' = .sched
  · obtain ⟨hpc, rfl⟩ := hmain
    obtain rfl := LifeStep.of_toSched_sched hl'
    obtain ⟨s'', hs'', hlt⟩ := h.main hpc (schedMainStep_ne_terminated hu)
    obtain rfl := Option.some_injective _ (hs''.symm.trans hs)
    exact Or.inl hlt
  by_cases hvrow : ∃ i, s.pc = .vrowWait i ∧ l' = .vrow i
  · obtain ⟨i, hpc, rfl⟩ := hvrow
    obtain rfl := LifeStep.of_toSched_vrow hl'
    have hbusy : (s.sched.vrows i).1.states ≠ vrowStateEmpty := by
      intro hempty
      obtain ⟨-, vrow, signal, pc, hthread, -⟩ := schedStep_vrow hu
      rw [h.life.exited hempty] at hthread
      cases hthread
    obtain ⟨s'', hs'', hlt⟩ := h.vrow hpc hbusy
    obtain rfl := Option.some_injective _ (hs''.symm.trans hs)
    exact Or.inl hlt
  · exact Or.inr (h.others hu (fun hpc hsched => hmain ⟨hpc, hsched⟩)
      fun i hpc hl => hvrow ⟨i, hpc, hl⟩)

/-- **The turns of a deletion**: the thread it waits for brings it closer to its return, and so
does every other turn or it changes nothing that matters. -/
lemma helpful_deleting (cfg : SchedConfig β) : Helpful (lifeStep cfg) (CreateSys.Deleting cfg)
    LifeClaimsStaying (CreateSys.rank cfg) CreateSys.helper where
  keep s l h hclaims := h.turn hclaims
  own s h hrank hclaims := by
    rcases s.helper_cases with hcreator | ⟨hpc, hrun, hmain⟩ | ⟨i, hpc, hbusy, hvrow⟩
    · rcases h.creator with ⟨s', hs', -, hlt⟩ | ⟨-, hwaits⟩
      · rw [hcreator, turn_of_some hs']
        exact hlt
      · exact absurd hcreator (hwaits hrank)
    · obtain ⟨s', hs', hlt⟩ := h.main hpc hrun
      rw [hmain, turn_of_some hs']
      exact hlt
    · obtain ⟨s', hs', hlt⟩ := h.vrow hpc hbusy
      rw [hvrow, turn_of_some hs']
      exact hlt
  other s l h hclaims := by
    rcases turn_cases (lifeStep cfg) s l with hsame | hs
    · rw [hsame]
      exact Or.inr ⟨rfl, rfl⟩
    by_cases hcreator : l = .life .creator
    · subst hcreator
      rcases h.creator with ⟨s', hs', -, hlt⟩ | ⟨hsame, -⟩
      · rw [turn_of_some hs']
        exact Or.inl hlt
      · rw [hsame]
        exact Or.inr ⟨rfl, rfl⟩
    by_cases hdelete : l = .life .delete
    · subst hdelete
      have hclosing := h.closing
      rw [CreateSys.Closing, (lifeStep_delete hs).1] at hclosing
      exact hclosing.elim
    · exact h.thread hs hcreator hdelete

/-! ## The theorem -/

/-- The threads of a scheduler: the one that deletes it, `sched_main`, those of the vrows. -/
def lifeThreads (cfg : SchedConfig β) : List (LifeStep β) :=
  .life .creator :: .life .main :: (List.range cfg.vrowCount).map fun i => .life (.vrow i)

/-- The rounds after which a deletion has returned. -/
def deleteRounds (cfg : SchedConfig β) : ℕ := 23 * cfg.vrowCount + cfg.vrowCount / 64 + 28

/-- The thread the deletion waits for is one of them. -/
lemma CreateSys.Deleting.helper_mem (h : s.Deleting cfg) : s.helper ∈ lifeThreads cfg := by
  rcases s.helper_cases with hcreator | ⟨-, -, hmain⟩ | ⟨i, hpc, -, hvrow⟩
  · rw [hcreator]
    exact List.mem_cons_self
  · rw [hmain]
    exact List.mem_cons_of_mem _ List.mem_cons_self
  · have hstage := h.life.stage
    rw [CreateSys.Stage, hpc] at hstage
    obtain ⟨-, -, -, -, -, -, hi⟩ := hstage
    rw [hvrow]
    exact List.mem_cons_of_mem _ (List.mem_cons_of_mem _
      (List.mem_map.2 ⟨i, List.mem_range.2 hi, rfl⟩))

/-- Only the return has nothing left. -/
lemma CreateSys.returned_of_rank (hclosing : s.Closing) (hrank : s.rank cfg = 0) :
    s.pc = .returned := by
  obtain ⟨pc, sched, started, created, deleted, base, queue, smap, context⟩ := s
  cases pc with
  | check | syncMapInit | vrowCreate | bitpoolCreate | pthreadCreate | created =>
    exact hclosing.elim
  | returned => rfl
  | _ =>
    simp [CreateSys.rank] at hrank

lemma CreateSys.calm_of_runs (hranges : cfg.ranges = defaultRanges) {ls : List (LifeStep β)}
    (hrun : runs (lifeStep cfg) (.start cfg) ls = some s)
    (hclaims : AllSteps (lifeStep cfg) LifeClaimsStaying (.start cfg) ls) :
    s.LifeInv cfg ∧ s.sched.Calm cfg :=
  inv_of_allSteps (I := fun s => s.LifeInv cfg ∧ s.sched.Calm cfg)
    (fun _ _ _ h hC hs => ⟨h.1.step hs, CreateSys.calm_step h.1 h.2 hC hs⟩)
    ⟨CreateSys.lifeInv_start cfg, SchedSys.calm_start hranges⟩ hclaims hrun

/-- **`sched_delete` returns** under every fair schedule, from every state in which it is called,
if `sched_main` claims no vrow whose thread has decided to leave. -/
theorem life_deletes (hranges : cfg.ranges = defaultRanges) {ls : List (LifeStep β)}
    (hrun : runs (lifeStep cfg) (.start cfg) ls = some s)
    (hclaims : AllSteps (lifeStep cfg) LifeClaimsStaying (.start cfg) ls) (hpc : s.pc = .close)
    {rs : List (List (LifeStep β))} (hfair : ∀ r ∈ rs, ∀ thread ∈ lifeThreads cfg, thread ∈ r)
    (hlen : deleteRounds cfg ≤ rs.length)
    (hturns : AllTurns (lifeStep cfg) LifeClaimsStaying s rs.flatten) :
    (turns (lifeStep cfg) s rs.flatten).pc = .returned := by
  obtain ⟨hlife, hcalm⟩ := CreateSys.calm_of_runs hranges hrun hclaims
  have hdeleting : s.Deleting cfg := by
    refine ⟨hlife, hcalm, ?_⟩
    rw [CreateSys.Closing, hpc]
    trivial
  have hrank : s.rank cfg = deleteRounds cfg := by rw [CreateSys.rank, hpc, deleteRounds]
  obtain ⟨⟨-, -, hclosing⟩, hzero⟩ := (helpful_deleting cfg).rounds
    (fun _ h _ => h.helper_mem) hfair hdeleting hturns (hrank.trans_le hlen)
  exact CreateSys.returned_of_rank hclosing hzero

end

/-- The deletion of a scheduler is called while the thread of its vrow processes a payload and
another payload is pushed. -/
def deleteRun : List (LifeStep Bool) :=
  List.replicate 6 (.life .creator) ++ .push 0 true .priorLow :: List.replicate 5 (.pushStep 0) ++
    List.replicate 18 (.life .main) ++ List.replicate 9 (.life (.vrow 0)) ++
    [.push 1 true .priorLow, .life .delete]

/-- The threads and the push take turns. -/
def deleteTurns : List (List (LifeStep Bool)) :=
  List.replicate (deleteRounds oneVrowConfig) (.pushStep 1 :: lifeThreads oneVrowConfig)

theorem life_deletes_deleteRun :
    ∃ t, runs (lifeStep oneVrowConfig) (.start oneVrowConfig) deleteRun = some t ∧
      (turns (lifeStep oneVrowConfig) t deleteTurns.flatten).pc = .returned := by
  have hrun : ∃ t ∈ runs (lifeStep oneVrowConfig) (.start oneVrowConfig) deleteRun,
      t.pc = .close ∧ AllTurns (lifeStep oneVrowConfig) LifeClaimsStaying t
        deleteTurns.flatten := by
    decide +kernel
  obtain ⟨t, ht, hpc, hturns⟩ := hrun
  have hfair : ∀ r ∈ deleteTurns, ∀ thread ∈ lifeThreads oneVrowConfig, thread ∈ r := by
    intro r hr thread hthread
    rw [List.eq_of_mem_replicate hr]
    exact List.mem_cons_of_mem _ hthread
  exact ⟨t, ht, life_deletes rfl ht (by decide +kernel) hpc hfair
    (List.length_replicate ..).ge hturns⟩

end AxVirtLayer
