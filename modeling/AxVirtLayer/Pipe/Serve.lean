import AxVirtLayer.Lib.Server
import AxVirtLayer.Pipe.Flags
import AxVirtLayer.Pipe.Worker

/-!
# A vrow serves its payloads in order

The flags of the banks do not tell where the payloads are, but the payloads themselves are safe:
a vrow with its thread and its loader is a server that holds at most two payloads and passes them
on in order, up to the end of bank 2 (`vrow_servesInOrder`).  A payload that is not valid does not
come through, and none comes through twice.  Each comes through as it was loaded: the result of
`guest_to_ir` lies in bank 1, and the move of the payload from bank 0 overwrites it.

The flags are good enough for the one reader that waits for them, too: when `vrow_delete` sees
empty flags, the thread has exited (`exited_of_states_empty`).
-/

namespace AxVirtLayer

open Lib

section

variable {β : Type}

/-! ## What is seen of a vrow -/

/-- What comes through the banks: the payload itself, `none` where `vrow_bank_0_proc` fails. -/
def bankPasses (funcs : BankFuncs β) (payload : β) : Option β :=
  if funcs.valid payload then some payload else none

/-- What is seen of a step: a payload is stored into bank 0, bank 2 is processed, or the thread
decides to leave its loop. -/
def vrowSeen (funcs : BankFuncs β) (s : VrowSys β) : VrowStep β → List (ServerEvent β β)
  | .thread =>
    match s.pc with
    | .loop => if s.vrow.closed then [.stop] else []
    | .proc k =>
      if (vrowBankProc funcs s.vrow k).2 then if k.val = 2 then [.answer (s.vrow.base 2)] else []
      else [.stop]
    | _ => []
  | .loader =>
    match s.loader with
    | some (.store payload) => [.accept payload]
    | _ => []
  | _ => []

/-! ## Where the payloads are -/

/-- The bank with the payload for which `guest_to_ir` has run. -/
def VrowPc.late : VrowPc → Option (Fin 4)
  | .activeTo .zeroOne | .activeFrom .zeroOne | .fillTo .zeroOne | .move .zeroOne => some 0
  | .fillFrom .zeroOne | .proc 1 | .activeTo .oneTwo | .activeFrom .oneTwo | .fillTo .oneTwo
  | .move .oneTwo => some 1
  | .fillFrom .oneTwo | .proc 2 => some 2
  | _ => none

/-- The payload of bank 0 has been processed. -/
def VrowPc.zeroDone : VrowPc → Bool
  | .activeTo .zeroOne | .activeFrom .zeroOne | .fillTo .zeroOne | .move .zeroOne
  | .fillFrom .zeroOne => true
  | _ => false

/-- The call is before its switch. -/
def LoadPc.isFill : LoadPc β → Bool
  | .fill => true
  | _ => false

/-- Bank 0 holds a payload: its flag is set, or the loader is about to switch it. -/
def VrowSys.zeroTaken (s : VrowSys β) : Bool :=
  vrowIsFilled s.vrow 0 || s.loader.any LoadPc.isFill

/-- The payload in bank 0 that waits for its function. -/
def VrowSys.waiting (s : VrowSys β) : List β :=
  if s.zeroTaken && !s.pc.zeroDone then [s.vrow.base 0] else []

/-- The payload that is past the function of bank 0. -/
def VrowSys.latePayload (s : VrowSys β) : Option β := s.pc.late.map s.vrow.base

/-- The payloads in the banks: the one that is past the function of bank 0, which is valid, and
the one that waits in bank 0. -/
def VrowSys.InBanks (funcs : BankFuncs β) (s : VrowSys β) (due : List β) : Prop :=
  match s.latePayload with
  | none => due = s.waiting
  | some payload => funcs.valid payload = true ∧ due = payload :: s.waiting

/-- The server that a vrow is: it holds what is in the banks, and has stopped when the thread
leaves. -/
def VrowSys.ServedBy (funcs : BankFuncs β) (s : VrowSys β) (w : Server β) : Prop :=
  if s.pc.leaving then w = ⟨[], true⟩ else w.stopped = false ∧ s.InBanks funcs w.due

/-- The vrow and the server it is. -/
def Serves (funcs : BankFuncs β) (s : VrowSys β) (w : Server β) : Prop :=
  s.Inv ∧ s.ServedBy funcs w

lemma VrowSys.servedBy_iff {funcs : BankFuncs β} {s : VrowSys β} {w : Server β}
    (hstays : s.pc.leaving = false) :
    s.ServedBy funcs w ↔ w.stopped = false ∧ s.InBanks funcs w.due := by
  rw [ServedBy, hstays, if_neg Bool.false_ne_true]

lemma VrowSys.servedBy_leaving {funcs : BankFuncs β} {s : VrowSys β} {w : Server β}
    (hleaves : s.pc.leaving = true) : s.ServedBy funcs w ↔ w = ⟨[], true⟩ := by
  rw [ServedBy, hleaves, if_pos rfl]

lemma serves_start (funcs : BankFuncs β) (zero : β) :
    Serves funcs (VrowSys.start zero) .start := by
  refine ⟨VrowSys.inv_start zero, rfl, ?_⟩
  have hempty : decide ((0 ^^^ vrowActiveBit 0) &&& vrowFillBit 0 ≠ 0) = false := by decide
  show [] = VrowSys.waiting (VrowSys.start zero)
  rw [VrowSys.waiting, VrowSys.zeroTaken]
  show [] = if (decide ((0 ^^^ vrowActiveBit 0) &&& vrowFillBit 0 ≠ 0) || false) && true then
    [zero] else []
  rw [hempty]
  rfl

lemma VrowPc.holdsZero_of_zeroDone {pc : VrowPc} (h : pc.zeroDone = true) : pc.HoldsZero := by
  cases pc with
  | activeTo swap | activeFrom swap | fillTo swap | move swap | fillFrom swap =>
    cases swap with
    | zeroOne => trivial
    | oneTwo => cases h
  | _ => cases h

lemma VrowPc.holdsZero_of_late {pc : VrowPc} (h : pc.late = some 0) : pc.HoldsZero := by
  cases pc with
  | activeTo swap | activeFrom swap | fillTo swap | move swap =>
    cases swap with
    | zeroOne => trivial
    | oneTwo => cases h
  | fillFrom swap =>
    cases swap
    all_goals cases h
  | proc k =>
    rcases proc_cases k with rfl | rfl | rfl
    all_goals cases h
  | _ => cases h

/-! ## One step -/

variable {funcs : BankFuncs β} {zero : β} {s s' : VrowSys β} {w : Server β} {due : List β}

/-- A step that leaves the payloads where they are. -/
lemma VrowSys.InBanks.congr (h : s.InBanks funcs due) (hlate : s'.latePayload = s.latePayload)
    (hwaiting : s'.waiting = s.waiting) : s'.InBanks funcs due := by
  rw [InBanks, hlate, hwaiting]
  exact h

/-- The payload in bank 0 waits while its place, its flag and the loader stay. -/
lemma VrowSys.waiting_congr (hbase : s'.vrow.base 0 = s.vrow.base 0)
    (hfilled : vrowIsFilled s'.vrow 0 = vrowIsFilled s.vrow 0) (hloader : s'.loader = s.loader)
    (hpc : s'.pc.zeroDone = s.pc.zeroDone) : s'.waiting = s.waiting := by
  rw [waiting, waiting, zeroTaken, zeroTaken, hbase, hfilled, hloader, hpc]

lemma VrowSys.waiting_of_zeroDone (h : s.pc.zeroDone = true) : s.waiting = [] := by
  rw [waiting, h, Bool.not_true, Bool.and_false, if_neg Bool.false_ne_true]

lemma VrowSys.waiting_of_taken (htaken : s.zeroTaken = true) (hpc : s.pc.zeroDone = false) :
    s.waiting = [s.vrow.base 0] := by
  rw [waiting, htaken, hpc]
  rfl

/-- A step that is none of the thread and moves no payload. -/
lemma VrowSys.ServedBy.congr (h : s.ServedBy funcs w) (hpc : s'.pc = s.pc)
    (hbase : s'.vrow.base = s.vrow.base) (hwaiting : s'.waiting = s.waiting) :
    s'.ServedBy funcs w := by
  have hlate : s'.latePayload = s.latePayload := by
    rw [latePayload, latePayload, hpc, hbase]
  rw [ServedBy, hpc]
  rw [ServedBy] at h
  split_ifs at h ⊢
  · exact h
  · exact ⟨h.1, h.2.congr hlate hwaiting⟩

/-- A step of a thread that stays and of which nothing is seen. -/
lemma Serves.quiet (h : w.stopped = false ∧ s.InBanks funcs w.due)
    (hseen : vrowSeen funcs s .thread = []) (hlate : s'.latePayload = s.latePayload)
    (hwaiting : s'.waiting = s.waiting) (hstays : s'.pc.leaving = false) :
    ∃ w', runs (serverStep (bankPasses funcs) 2) w (vrowSeen funcs s .thread) = some w' ∧
      s'.ServedBy funcs w' := by
  refine ⟨w, by rw [hseen]; rfl, ?_⟩
  rw [VrowSys.servedBy_iff hstays]
  exact ⟨h.1, h.2.congr hlate hwaiting⟩

/-- A step with which the thread decides to leave. -/
lemma Serves.leave (hseen : vrowSeen funcs s .thread = [.stop]) (hleaves : s'.pc.leaving = true) :
    ∃ w', runs (serverStep (bankPasses funcs) 2) w (vrowSeen funcs s .thread) = some w' ∧
      s'.ServedBy funcs w' := by
  refine ⟨⟨[], true⟩, by rw [hseen]; rfl, ?_⟩
  rw [VrowSys.servedBy_leaving hleaves]

@[simp] lemma Vrow.store_base_self (vrow : Vrow β) (bankI : Fin 4) (payload : β) :
    (vrow.store bankI payload).base bankI = payload := Function.update_self _ _ _

lemma Vrow.store_base_of_ne (vrow : Vrow β) {bankI bankJ : Fin 4} (h : bankJ ≠ bankI)
    (payload : β) : (vrow.store bankI payload).base bankJ = vrow.base bankJ :=
  Function.update_of_ne h _ _

/-- The function of bank 0 leaves the payload that waits in it, for the move to bank 1. -/
lemma Serves.pass (h : w.stopped = false ∧ s.InBanks funcs w.due) (hpc : s.pc = .proc 0)
    (hfilled : vrowIsFilled s.vrow 0 = true) (hsucc : (vrowBankProc funcs s.vrow 0).2 = true)
    (hvrow : s'.vrow = (vrowBankProc funcs s.vrow 0).1) (hpc' : s'.pc = .activeTo .zeroOne) :
    s'.ServedBy funcs w := by
  have hwaiting : s.waiting = [s.vrow.base 0] := by
    refine VrowSys.waiting_of_taken ?_ (by rw [hpc]; rfl)
    rw [VrowSys.zeroTaken, hfilled, Bool.true_or]
  have hnone : s.latePayload = none := by
    rw [VrowSys.latePayload, hpc]
    rfl
  have hdue := h.2
  rw [VrowSys.InBanks, hnone, hwaiting] at hdue
  obtain ⟨hbase, hvalid⟩ := vrowBank0Proc_eq funcs s.vrow
  have hlate : s'.latePayload = some (s.vrow.base 0) := by
    rw [VrowSys.latePayload, hpc', hvrow]
    exact congrArg some hbase
  have hempty : s'.waiting = [] := VrowSys.waiting_of_zeroDone (by rw [hpc']; rfl)
  rw [VrowSys.servedBy_iff (by rw [hpc']; rfl), VrowSys.InBanks, hlate, hempty]
  exact ⟨h.1, hvalid.symm.trans hsucc, hdue⟩

/-- The function of bank 2 answers with what is in the bank. -/
lemma Serves.answer (h : w.stopped = false ∧ s.InBanks funcs w.due) (hpc : s.pc = .proc 2)
    (hwaiting : s'.waiting = s.waiting) (hpc' : s'.pc = .sigoff false) :
    ∃ w', runs (serverStep (bankPasses funcs) 2) w [.answer (s.vrow.base 2)] = some w' ∧
      s'.ServedBy funcs w' := by
  have hlate : s.latePayload = some (s.vrow.base 2) := by
    rw [VrowSys.latePayload, hpc]
    rfl
  have hnone : s'.latePayload = none := by
    rw [VrowSys.latePayload, hpc']
    rfl
  obtain ⟨due, stopped⟩ := w
  obtain ⟨rfl, hdue⟩ := h
  rw [VrowSys.InBanks, hlate] at hdue
  obtain ⟨hvalid, rfl⟩ := hdue
  have hpasses : bankPasses funcs (s.vrow.base 2) = some (s.vrow.base 2) := if_pos hvalid
  refine ⟨⟨s.waiting, false⟩, ?_, ?_⟩
  · rw [runs_cons, serverStep, if_pos hpasses]
    rfl
  · rw [VrowSys.servedBy_iff (by rw [hpc']; rfl), VrowSys.InBanks, hnone]
    exact ⟨rfl, hwaiting.symm⟩

/-- The loader is not before its switch while bank 0 is filled. -/
lemma VrowSys.Inv.not_fill (hinv : s.Inv) (hfilled : vrowIsFilled s.vrow 0 = true) :
    s.loader.any LoadPc.isFill = false := by
  by_contra hfill
  rw [Bool.not_eq_false, Option.any_eq_true] at hfill
  obtain ⟨load, hload, hfill⟩ := hfill
  cases load with
  | fill =>
    have hclear := hinv.loader _ hload trivial
    rw [hfilled] at hclear
    cases hclear
  | wait payload => cases hfill
  | store payload => cases hfill

/-- **A step of the thread.** -/
lemma Serves.thread (hinv : s.Inv) (h : w.stopped = false ∧ s.InBanks funcs w.due)
    (hstays : s.pc.leaving = false) (hs : vrowSysStep funcs zero s .thread = some s') :
    ∃ w', runs (serverStep (bankPasses funcs) 2) w (vrowSeen funcs s .thread) = some w' ∧
      s'.ServedBy funcs w' := by
  have hzero := hinv.thread
  have hnoFill := hinv.not_fill
  obtain ⟨⟨vrow, signal, pc⟩, hthread, rfl⟩ := Option.map_eq_some_iff.1 hs
  obtain ⟨v, at', loader, moved, count⟩ := s
  dsimp only at hzero hnoFill hthread hstays
  cases at' with
  | loop =>
    obtain ⟨rfl, -, rfl⟩ := Option.some_injective _ hthread
    by_cases hclosed : vrow.closed = true
    · exact Serves.leave (if_pos hclosed) (by rw [if_pos hclosed]; rfl)
    · rw [if_neg hclosed]
      exact Serves.quiet h (if_neg hclosed) rfl rfl rfl
  | filled =>
    obtain ⟨rfl, -, rfl⟩ := Option.some_injective _ hthread
    by_cases hfilled : vrowIsFilled vrow 0 = true
    · rw [if_pos hfilled]
      exact Serves.quiet h rfl rfl rfl rfl
    · rw [if_neg hfilled]
      exact Serves.quiet h rfl rfl rfl rfl
  | enter =>
    obtain ⟨rfl, -, rfl⟩ := Option.some_injective _ hthread
    exact Serves.quiet h rfl rfl
      (VrowSys.waiting_congr rfl (vrowIsFilled_activeSwitch _ _ _) rfl rfl) rfl
  | sigon =>
    obtain ⟨rfl, -, rfl⟩ := Option.some_injective _ hthread
    exact Serves.quiet h rfl rfl rfl rfl
  | proc k =>
    simp only [vrowThreadStep, Option.some.injEq, Prod.mk.injEq] at hthread
    obtain ⟨rfl, -, rfl⟩ := hthread
    by_cases hsucc : (vrowBankProc funcs v k).2 = true
    · rcases proc_cases k with rfl | rfl | rfl
      · refine ⟨w, by simp only [vrowSeen, hsucc]; rfl, ?_⟩
        exact Serves.pass h rfl (hzero trivial) hsucc rfl (by rw [hsucc]; rfl)
      · rw [hsucc]
        exact Serves.quiet h (by simp only [vrowSeen, hsucc]; rfl) rfl rfl rfl
      · have hseen : vrowSeen funcs ⟨v, .proc 2, loader, moved, count⟩ .thread =
            [.answer (v.base 2)] := by
          simp only [vrowSeen, hsucc, if_true]
          rfl
        rw [hseen]
        exact Serves.answer h rfl (by rw [hsucc]; rfl) (by rw [hsucc]; rfl)
    · rw [Bool.not_eq_true] at hsucc
      refine Serves.leave ?_ ?_
      · simp only [vrowSeen, hsucc]
        rfl
      · rw [hsucc]
        rfl
  | activeTo swap =>
    obtain ⟨rfl, -, rfl⟩ := Option.some_injective _ hthread
    refine Serves.quiet h rfl ?_
      (VrowSys.waiting_congr rfl (vrowIsFilled_activeSwitch _ _ _) rfl ?_) ?_
    all_goals cases swap <;> rfl
  | activeFrom swap =>
    obtain ⟨rfl, -, rfl⟩ := Option.some_injective _ hthread
    refine Serves.quiet h rfl ?_
      (VrowSys.waiting_congr rfl (vrowIsFilled_activeSwitch _ _ _) rfl ?_) ?_
    all_goals cases swap <;> rfl
  | fillTo swap =>
    obtain ⟨rfl, -, rfl⟩ := Option.some_injective _ hthread
    have hfilled : vrowIsFilled (vrowFillSwitch v swap.toI) 0 = vrowIsFilled v 0 := by
      rw [vrowIsFilled_fillSwitch]
      cases swap <;> exact Bool.xor_false _
    refine Serves.quiet h rfl ?_ (VrowSys.waiting_congr rfl hfilled rfl ?_) ?_
    all_goals cases swap <;> rfl
  | move swap =>
    obtain ⟨rfl, -, rfl⟩ := Option.some_injective _ hthread
    refine Serves.quiet h rfl ?_ (VrowSys.waiting_congr ?_ rfl rfl ?_) ?_
    all_goals cases swap <;> rfl
  | fillFrom swap =>
    obtain ⟨rfl, -, rfl⟩ := Option.some_injective _ hthread
    cases swap with
    | zeroOne =>
      -- bank 0 is empty now, and the loader has not seen that yet
      have hfilled : vrowIsFilled v 0 = true := hzero trivial
      have hclear : vrowIsFilled (vrowFillSwitch v BankSwap.zeroOne.fromI) 0 = false := by
        rw [vrowIsFilled_fillSwitch, hfilled]
        rfl
      refine Serves.quiet h rfl rfl ?_ rfl
      rw [VrowSys.waiting, VrowSys.zeroTaken, hclear, hnoFill hfilled, Bool.or_false,
        Bool.false_and, if_neg Bool.false_ne_true]
      exact (VrowSys.waiting_of_zeroDone rfl).symm
    | oneTwo =>
      have hfilled :
          vrowIsFilled (vrowFillSwitch v BankSwap.oneTwo.fromI) 0 = vrowIsFilled v 0 := by
        rw [vrowIsFilled_fillSwitch]
        exact Bool.xor_false _
      exact Serves.quiet h rfl rfl (VrowSys.waiting_congr rfl hfilled rfl rfl) rfl
  | sigoff leave =>
    obtain ⟨rfl, -, rfl⟩ := Option.some_injective _ hthread
    cases leave with
    | false => exact Serves.quiet h rfl rfl rfl rfl
    | true => cases hstays
  | zero => cases hstays
  | empty => cases hstays
  | exited => cases hstays

/-- A payload that is stored into a free bank 0 waits behind the one that is processed. -/
lemma VrowSys.InBanks.accept (h : s.InBanks funcs due) (hnone : s.waiting = [])
    (hlate : s'.latePayload = s.latePayload) {payload : β} (hwaiting : s'.waiting = [payload]) :
    due.length < 2 ∧ s'.InBanks funcs (due ++ [payload]) := by
  rw [InBanks, hnone] at h
  rw [InBanks, hlate, hwaiting]
  cases hlate : s.latePayload with
  | none =>
    rw [hlate] at h
    obtain rfl : due = [] := h
    exact ⟨Nat.zero_lt_two, rfl⟩
  | some first =>
    rw [hlate] at h
    obtain ⟨hvalid, rfl⟩ := h
    exact ⟨Nat.one_lt_two, hvalid, rfl⟩

/-- **A step of the loader.** -/
lemma Serves.loader (hinv : s.Inv) (h : s.ServedBy funcs w)
    (hs : vrowSysStep funcs zero s .loader = some s') :
    ∃ w', runs (serverStep (bankPasses funcs) 2) w (vrowSeen funcs s .loader) = some w' ∧
      s'.ServedBy funcs w' := by
  simp only [vrowSysStep] at hs
  split at hs
  · cases hs
  · rename_i load hload
    obtain rfl := Option.some_injective _ hs
    have hclear := hinv.loader _ hload
    have hzero := hinv.thread
    obtain ⟨v, pc, loader, moved, count⟩ := s
    dsimp only at hload hclear hzero h ⊢
    subst hload
    cases load with
    | wait payload =>
      refine ⟨w, rfl, h.congr rfl rfl ?_⟩
      simp only [VrowSys.waiting, VrowSys.zeroTaken, vrowBankLoadStep]
      split
      · rfl
      · rfl
    | store payload =>
      by_cases hleaves : pc.leaving = true
      · rw [VrowSys.servedBy_leaving hleaves] at h
        subst h
        exact ⟨⟨[], true⟩, rfl, (VrowSys.servedBy_leaving hleaves).2 rfl⟩
      · rw [Bool.not_eq_true] at hleaves
        rw [VrowSys.servedBy_iff hleaves] at h
        -- bank 0 is free: no payload waits in it, and none is processed in it
        have hfilled : vrowIsFilled v 0 = false := hclear trivial
        have hdone : pc.zeroDone = false := by
          by_contra hdone
          rw [Bool.not_eq_false] at hdone
          rw [hzero (VrowPc.holdsZero_of_zeroDone hdone)] at hfilled
          cases hfilled
        have hlate : pc.late ≠ some 0 := by
          intro hlate
          rw [hzero (VrowPc.holdsZero_of_late hlate)] at hfilled
          cases hfilled
        have hsame : pc.late.map (v.store 0 payload).base = pc.late.map v.base := by
          refine Option.map_congr fun bankI hbank => Vrow.store_base_of_ne v ?_ payload
          rintro rfl
          exact hlate hbank
        obtain ⟨hroom, hbanks⟩ : w.due.length < 2 ∧ VrowSys.InBanks funcs
            ⟨v.store 0 payload, pc, some .fill, moved, count⟩ (w.due ++ [payload]) := by
          refine h.2.accept ?_ ?_ ?_
          · rw [VrowSys.waiting, VrowSys.zeroTaken, hfilled]
            rfl
          · exact hsame
          · refine (VrowSys.waiting_of_taken ?_ hdone).trans ?_
            · exact Bool.or_true _
            · rw [Vrow.store_base_self]
        have hrun : ¬ w.stopped = true := by
          rw [h.1]
          exact Bool.false_ne_true
        exact ⟨⟨w.due ++ [payload], w.stopped⟩,
          Option.bind_eq_some_iff.2 ⟨_, (if_neg hrun).trans (if_pos hroom), rfl⟩,
          (VrowSys.servedBy_iff hleaves).2 ⟨h.1, hbanks⟩⟩
    | fill =>
      refine ⟨w, rfl, h.congr rfl rfl ?_⟩
      have hfilled : vrowIsFilled v 0 = false := hclear trivial
      rw [VrowSys.waiting, VrowSys.zeroTaken, VrowSys.waiting, VrowSys.zeroTaken]
      simp only [vrowBankLoadStep, vrowIsFilled_fillSwitch, hfilled]
      rfl

/-- **A vrow is a server**: every step of the system is matched by the server. -/
lemma serves_simulation (funcs : BankFuncs β) (zero : β) :
    Simulation (vrowSysStep funcs zero) (vrowSeen funcs) (serverStep (bankPasses funcs) 2)
      (Serves funcs) where
  step := by
    rintro s w l s' ⟨hinv, hserved⟩ hs
    have hinv' : s'.Inv := hinv.step hs
    suffices hmatch : ∃ w', runs (serverStep (bankPasses funcs) 2) w (vrowSeen funcs s l) =
        some w' ∧ s'.ServedBy funcs w' by
      obtain ⟨w', hrun, hserved'⟩ := hmatch
      exact ⟨w', hrun, hinv', hserved'⟩
    cases l with
    | thread =>
      by_cases hleaves : s.pc.leaving = true
      · -- nothing is seen of a thread on its way out
        obtain ⟨⟨vrow, signal, pc⟩, hthread, rfl⟩ := Option.map_eq_some_iff.1 hs
        have hgoes : pc.leaving = true := vrowThreadStep_leaving hleaves hthread
        have hseen : vrowSeen funcs s .thread = [] := by
          rw [vrowSeen]
          rcases VrowPc.leaving_cases hleaves with hpc | hpc | hpc | hpc
          all_goals rw [hpc]
        rw [VrowSys.servedBy_leaving hleaves] at hserved
        exact ⟨w, by rw [hseen]; rfl, (VrowSys.servedBy_leaving hgoes).2 hserved⟩
      · rw [Bool.not_eq_true] at hleaves
        exact Serves.thread hinv ((VrowSys.servedBy_iff hleaves).1 hserved) hleaves hs
    | load payload =>
      simp only [vrowSysStep] at hs
      split at hs
      · rename_i hnone
        obtain rfl := Option.some_injective _ hs
        refine ⟨w, rfl, hserved.congr rfl rfl ?_⟩
        rw [VrowSys.waiting, VrowSys.waiting, VrowSys.zeroTaken, VrowSys.zeroTaken, hnone]
        rfl
      · cases hs
    | loader => exact Serves.loader hinv hserved hs
    | close =>
      obtain rfl := Option.some_injective _ hs
      exact ⟨w, rfl, hserved⟩

/-- What comes through the banks is what was loaded, and valid. -/
lemma eq_of_bankPasses {done out : List β} (h : done.map (bankPasses funcs) = out.map some) :
    done = out ∧ ∀ payload ∈ out, funcs.valid payload = true := by
  induction done generalizing out with
  | nil =>
    obtain rfl := List.map_eq_nil_iff.1 h.symm
    exact ⟨rfl, nofun⟩
  | cons payload done ih =>
    obtain _ | ⟨first, out⟩ := out
    · cases h
    · obtain ⟨hfirst, hrest⟩ := List.cons_eq_cons.1 h
      obtain ⟨rfl, hout⟩ := ih hrest
      rw [bankPasses] at hfirst
      split_ifs at hfirst with hvalid
      obtain rfl := Option.some_injective _ hfirst
      exact ⟨rfl, List.forall_mem_cons.2 ⟨hvalid, hout⟩⟩

/-- **A vrow serves its payloads in order.**  In every run of the thread, the loader and the close
request, what reaches the end of bank 2 are the first payloads loaded, as they were loaded, each
valid and each once; until the thread decides to leave, all other payloads loaded, at most two,
are in the banks. -/
theorem vrow_servesInOrder {ls : List (VrowStep β)} {t : VrowSys β}
    (ht : runs (vrowSysStep funcs zero) (.start zero) ls = some t) :
    outputs (trace (vrowSysStep funcs zero) (vrowSeen funcs) (.start zero) ls) <+:
        inputs (trace (vrowSysStep funcs zero) (vrowSeen funcs) (.start zero) ls) ∧
      (∀ payload ∈ outputs (trace (vrowSysStep funcs zero) (vrowSeen funcs) (.start zero) ls),
        funcs.valid payload = true) ∧
      (t.pc.leaving = false → ∃ due, t.InBanks funcs due ∧ due.length ≤ 2 ∧
        inputs (trace (vrowSysStep funcs zero) (vrowSeen funcs) (.start zero) ls) =
          outputs (trace (vrowSysStep funcs zero) (vrowSeen funcs) (.start zero) ls) ++ due) := by
  obtain ⟨w, hrun, -, hserved⟩ := (serves_simulation funcs zero).runs (serves_start funcs zero) ht
  obtain ⟨done, hanswers, hfirst, hroom, hdue⟩ := inOrder_of_runs hrun
  obtain ⟨rfl, hvalid⟩ := eq_of_bankPasses hanswers
  refine ⟨hfirst, hvalid, fun hstays => ?_⟩
  obtain ⟨hrunning, hbanks⟩ := (VrowSys.servedBy_iff hstays).1 hserved
  exact ⟨w.due, hbanks, hroom, hdue hrunning⟩

/-! ## When the flags are empty -/

/-- Away from bank 0 the flags of an even or odd number of payloads are not empty. -/
lemma VrowPc.evenFlags_ne {pc : VrowPc} {flags : BitVec 8} (h : pc.evenFlags = some flags)
    (hzero : ¬ pc.HoldsZero) (hpc : pc ≠ .exited) (count : ℕ) : flags ≠ oddFlags count := by
  suffices hne : flags ≠ 0 ∧ flags ≠ 0b00110000 by
    rw [oddFlags]
    split
    · exact hne.2
    · exact hne.1
  cases pc with
  | loop | filled =>
    obtain rfl := Option.some_injective _ h
    decide
  | enter | sigon => exact absurd trivial hzero
  | proc k =>
    rcases proc_cases k with rfl | rfl | rfl
    · exact absurd trivial hzero
    · obtain rfl := Option.some_injective _ h
      decide
    · obtain rfl := Option.some_injective _ h
      decide
  | activeTo swap | activeFrom swap | fillTo swap | move swap | fillFrom swap =>
    cases swap with
    | zeroOne => exact absurd trivial hzero
    | oneTwo =>
      obtain rfl := Option.some_injective _ h
      decide
  | sigoff leave =>
    cases leave with
    | false =>
      obtain rfl := Option.some_injective _ h
      decide
    | true => cases h
  | zero | empty => cases h
  | exited => exact absurd rfl hpc

/-- Inside the loop some flag is set: the active bits, or the filled bit of bank 0 while the
thread is on its way through that bank. -/
lemma VrowSys.Inv.states_ne (h : s.Inv) (hflags : s.pc.evenFlags ≠ none) (hpc : s.pc ≠ .exited) :
    s.vrow.states ≠ vrowStateEmpty := by
  intro hempty
  have hother : otherFlags s.vrow = 0 := by
    rw [otherFlags, hempty]
    rfl
  have hclear : vrowIsFilled s.vrow 0 = false := by
    rw [vrowIsFilled, hempty]
    decide
  obtain ⟨flags, heq⟩ := Option.ne_none_iff_exists'.1 hflags
  have hodd : flags = oddFlags s.count := by
    have hxor := h.flags flags heq
    rw [hother] at hxor
    exact (BitVec.xor_eq_zero_iff).1 hxor.symm
  have hzero : ¬ s.pc.HoldsZero := fun hzero => by
    rw [h.thread hzero] at hclear
    cases hclear
  exact VrowPc.evenFlags_ne heq hzero hpc s.count hodd

/-- The invariant of the wait of `vrow_delete`: the flags are not empty before the thread has
exited. -/
structure VrowSys.Guarded (s : VrowSys β) : Prop where
  inv : s.Inv
  states : s.pc ≠ .exited → s.vrow.states ≠ vrowStateEmpty

lemma VrowSys.guarded_start (zero : β) : (VrowSys.start zero).Guarded where
  inv := VrowSys.inv_start zero
  states := fun hpc => (VrowSys.inv_start zero).states_ne nofun hpc

/-- On its way out the thread leaves the flags as they are, up to the store that empties them. -/
lemma VrowSys.Guarded.thread (h : s.Guarded) (hs : vrowSysStep funcs zero s .thread = some s') :
    s'.Guarded := by
  have hinv : s'.Inv := h.inv.step hs
  refine ⟨hinv, fun hpc => ?_⟩
  by_cases hnone : s'.pc.evenFlags = none
  · obtain ⟨⟨vrow, signal, pc⟩, hthread, rfl⟩ := Option.map_eq_some_iff.1 hs
    have hstates : s.pc ≠ .exited ∧ vrow.states = s.vrow.states := by
      obtain ⟨v, at', loader, moved, count⟩ := s
      dsimp only at hthread hnone hpc ⊢
      cases at' with
      | loop =>
        obtain ⟨rfl, -, -⟩ := Option.some_injective _ hthread
        exact ⟨by simp, rfl⟩
      | filled =>
        obtain ⟨rfl, -, -⟩ := Option.some_injective _ hthread
        exact ⟨by simp, rfl⟩
      | proc k =>
        simp only [vrowThreadStep, Option.some.injEq, Prod.mk.injEq] at hthread
        obtain ⟨rfl, -, -⟩ := hthread
        exact ⟨by simp, (vrowBankProc_frame funcs v k).1⟩
      | sigoff leave =>
        obtain ⟨rfl, -, -⟩ := Option.some_injective _ hthread
        exact ⟨by simp, rfl⟩
      | zero =>
        obtain ⟨rfl, -, -⟩ := Option.some_injective _ hthread
        exact ⟨by simp, rfl⟩
      | empty =>
        obtain ⟨-, -, rfl⟩ := Option.some_injective _ hthread
        exact absurd rfl hpc
      | enter | sigon =>
        obtain ⟨-, -, rfl⟩ := Option.some_injective _ hthread
        cases hnone
      | activeTo swap | activeFrom swap | fillTo swap | move swap | fillFrom swap =>
        obtain ⟨-, -, rfl⟩ := Option.some_injective _ hthread
        cases swap
        all_goals cases hnone
      | exited => cases hthread
    rw [hstates.2]
    exact h.states hstates.1
  · exact hinv.states_ne hnone hpc

/-- **One step** keeps the flags from being empty too early. -/
lemma VrowSys.Guarded.step (h : s.Guarded) {l : VrowStep β}
    (hs : vrowSysStep funcs zero s l = some s') : s'.Guarded := by
  cases l with
  | thread => exact h.thread hs
  | load payload =>
    have hinv : s'.Inv := h.inv.step hs
    simp only [vrowSysStep] at hs
    split at hs
    · obtain rfl := Option.some_injective _ hs
      exact ⟨hinv, h.states⟩
    · cases hs
  | loader =>
    have hinv : s'.Inv := h.inv.step hs
    refine ⟨hinv, fun hpc hempty => ?_⟩
    simp only [vrowSysStep] at hs
    split at hs
    · cases hs
    · rename_i load hload
      obtain rfl := Option.some_injective _ hs
      cases load with
      | wait payload => exact h.states hpc hempty
      | store payload => exact h.states hpc hempty
      | fill =>
        -- the switch of the loader sets the filled bit
        have hfilled := vrowIsFilled_fillSwitch s.vrow 0 0
        rw [h.inv.loader _ hload trivial, vrowIsFilled] at hfilled
        have hset : vrowStateEmpty &&& vrowFillBit 0 ≠ 0 := by
          rw [← hempty]
          exact of_decide_eq_true hfilled
        exact absurd hset (by decide)
  | close =>
    have hinv : s'.Inv := h.inv.step hs
    obtain rfl := Option.some_injective _ hs
    exact ⟨hinv, h.states⟩

/-- **Empty flags mean an exited thread**: in every run, when the flags of a vrow are empty its
thread has returned, so that `vrow_delete` can free the vrow. -/
lemma exited_of_states_empty {ls : List (VrowStep β)} {t : VrowSys β}
    (ht : runs (vrowSysStep funcs zero) (.start zero) ls = some t)
    (hempty : t.vrow.states = vrowStateEmpty) : t.pc = .exited := by
  have hguarded : t.Guarded := inv_of_runs (fun s l s' h hs => h.step hs)
    (VrowSys.guarded_start zero) ht
  by_contra hpc
  exact hguarded.states hpc hempty

end

/-! ## A run -/

/-- Functions that write the next number into bank 1, and refuse zero. -/
def countFuncs : BankFuncs ℕ := ⟨some fun n => (fun _ => n + 1, decide (n ≠ 0)), true⟩

/-- A payload is loaded and goes through the banks, and another one is loaded. -/
def loadTwo : List (VrowStep ℕ) :=
  [.load 7, .loader, .loader, .loader] ++ .replicate 20 .thread ++
    [.load 0, .loader, .loader, .loader]

theorem vrow_servesInOrder_loadTwo :
    ∃ t, runs (vrowSysStep countFuncs 0) (.start 0) loadTwo = some t ∧ t.pc = .loop ∧
      outputs (trace (vrowSysStep countFuncs 0) (vrowSeen countFuncs) (.start 0) loadTwo) <+:
        inputs (trace (vrowSysStep countFuncs 0) (vrowSeen countFuncs) (.start 0) loadTwo) ∧
      (∀ payload ∈ outputs (trace (vrowSysStep countFuncs 0) (vrowSeen countFuncs) (.start 0)
        loadTwo), countFuncs.valid payload = true) ∧
      (t.pc.leaving = false → ∃ due, t.InBanks countFuncs due ∧ due.length ≤ 2 ∧
        inputs (trace (vrowSysStep countFuncs 0) (vrowSeen countFuncs) (.start 0) loadTwo) =
          outputs (trace (vrowSysStep countFuncs 0) (vrowSeen countFuncs) (.start 0) loadTwo) ++
            due) :=
  ⟨_, rfl, rfl, vrow_servesInOrder rfl⟩

/-- The result of the payload, 8, does not come through. -/
example : outputs (trace (vrowSysStep countFuncs 0) (vrowSeen countFuncs) (.start 0) loadTwo) =
    [7] := by decide +kernel

end AxVirtLayer
