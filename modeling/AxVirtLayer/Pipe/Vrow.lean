import AxVirtLayer.Lib.Bits
import Mathlib.Logic.Function.Basic
import Mathlib.Data.Fin.Basic

/-!
# A vrow and its thread

The four banks of a worker with their flags (`vrow.h`, `vrow.c`), and `vrow_thread_main` by its
single loads, switches and copies.  A bank holds a `β`; what a payload is made of is left to the
functions of the banks.

A payload with its result (`vrow_b0_payload`) is longer than a bank: the instruction alone takes 64
bytes behind the 16 of the control block, so that the result of `vrow_bank_0_proc` lies in bank 1.
-/

namespace AxVirtLayer

/-! ## The flags -/

/-- `vrow_desc` with banks that hold a `β`. -/
structure Vrow (β : Type) where
  base : Fin 4 → β
  /-- Two bits for each bank: an active thread (`A`), a payload (`F`). -/
  states : BitVec 8
  closed : Bool

/-- `VROW_STATE_EMPTY`. -/
def vrowStateEmpty : BitVec 8 := 0

/-- The `F` bit of a bank. -/
def vrowFillBit (bankI : Fin 4) : BitVec 8 := 0b01#8 <<< (bankI.val <<< 1)

/-- The `A` bit of a bank. -/
def vrowActiveBit (bankI : Fin 4) : BitVec 8 := 0b10#8 <<< (bankI.val <<< 1)

section

variable {β : Type}

/-- `vrow_is_filled`. -/
def vrowIsFilled (vrow : Vrow β) (bankI : Fin 4) : Bool :=
  decide (vrow.states &&& vrowFillBit bankI ≠ 0)

/-- `vrow_fill_switch`. -/
def vrowFillSwitch (vrow : Vrow β) (bankI : Fin 4) : Vrow β :=
  { vrow with states := vrow.states ^^^ vrowFillBit bankI }

/-- `vrow_is_active`. -/
def vrowIsActive (vrow : Vrow β) (bankI : Fin 4) : Bool :=
  decide (vrow.states &&& vrowActiveBit bankI ≠ 0)

/-- `vrow_active_switch`. -/
def vrowActiveSwitch (vrow : Vrow β) (bankI : Fin 4) : Vrow β :=
  { vrow with states := vrow.states ^^^ vrowActiveBit bankI }

/-- A copy into a bank. -/
def Vrow.store (vrow : Vrow β) (bankI : Fin 4) (payload : β) : Vrow β :=
  { vrow with base := Function.update vrow.base bankI payload }

/-- `vrow_create`: the flags are empty, then `vrow_thread_init` switches the active bit of bank 0
on. -/
def vrowCreate (zero : β) : Vrow β :=
  vrowActiveSwitch ⟨fun _ => zero, vrowStateEmpty, false⟩ 0

lemma vrowIsFilled_eq (vrow : Vrow β) (bankI : Fin 4) :
    vrowIsFilled vrow bankI = vrow.states.getLsbD (bankI.val <<< 1) := by
  rw [vrowIsFilled, Bool.eq_iff_iff, decide_eq_true_eq]
  exact Lib.and_one_shiftLeft_ne_zero _ _

lemma vrowActiveBit_eq (bankI : Fin 4) : vrowActiveBit bankI = 1#8 <<< (bankI.val <<< 1 + 1) := by
  revert bankI
  decide

lemma vrowIsActive_eq (vrow : Vrow β) (bankI : Fin 4) :
    vrowIsActive vrow bankI = vrow.states.getLsbD (bankI.val <<< 1 + 1) := by
  rw [vrowIsActive, vrowActiveBit_eq, Bool.eq_iff_iff, decide_eq_true_eq]
  exact Lib.and_one_shiftLeft_ne_zero _ _

/-- A switch of the `F` bit of a bank changes that bit alone. -/
@[simp] lemma vrowIsFilled_fillSwitch (vrow : Vrow β) (bankI bankJ : Fin 4) :
    vrowIsFilled (vrowFillSwitch vrow bankJ) bankI =
      (vrowIsFilled vrow bankI ^^ decide (bankI = bankJ)) := by
  have hbit : ∀ bankI bankJ, (vrowFillBit bankJ).getLsbD (bankI.val <<< 1) =
      decide (bankI = bankJ) := by decide
  rw [vrowIsFilled_eq, vrowIsFilled_eq, vrowFillSwitch, BitVec.getLsbD_xor, hbit]

/-- A switch of the `A` bit of a bank changes no `F` bit. -/
@[simp] lemma vrowIsFilled_activeSwitch (vrow : Vrow β) (bankI bankJ : Fin 4) :
    vrowIsFilled (vrowActiveSwitch vrow bankJ) bankI = vrowIsFilled vrow bankI := by
  have hbit : ∀ bankI bankJ : Fin 4, (vrowActiveBit bankJ).getLsbD (bankI.val <<< 1) = false := by
    decide
  rw [vrowIsFilled_eq, vrowIsFilled_eq, vrowActiveSwitch, BitVec.getLsbD_xor, hbit, Bool.xor_false]

/-! ## `vrow_bank_load` -/

/-- Where a call of `vrow_bank_load` stands: before its test of the flag, its copy, its switch. -/
inductive LoadPc (β : Type)
  | wait (payload : β)
  | store (payload : β)
  | fill
deriving DecidableEq, Repr

/-- The next operation of `vrow_bank_load`; without a place to stand at it has returned. -/
def vrowBankLoadStep (vrow : Vrow β) (bankI : Fin 4) : LoadPc β → Vrow β × Option (LoadPc β)
  | .wait payload => (vrow, some (if vrowIsFilled vrow bankI then .wait payload
      else .store payload))
  | .store payload => (vrow.store bankI payload, some .fill)
  | .fill => (vrowFillSwitch vrow bankI, none)

/-! ## The banks -/

/-- What the functions of the context do. -/
structure BankFuncs (β : Type) where
  /-- `guest_to_ir` on the payload of bank 0: what its result does to bank 1, and whether its
  opcode is valid. -/
  guestToIr : Option (β → (β → β) × Bool)
  /-- `ir_to_host` is given. -/
  irToHost : Bool

/-- `vrow_bank_0_proc`. -/
def vrowBank0Proc (funcs : BankFuncs β) (vrow : Vrow β) : Vrow β × Bool :=
  match funcs.guestToIr with
  | none => (vrow, false)
  | some func =>
    let (write, valid) := func (vrow.base 0)
    (vrow.store 1 (write (vrow.base 1)), valid)

/-- `vrow_bank_1_proc`. -/
def vrowBank1Proc (vrow : Vrow β) : Vrow β × Bool := (vrow, true)

/-- `vrow_bank_2_proc`. -/
def vrowBank2Proc (funcs : BankFuncs β) (vrow : Vrow β) : Vrow β × Bool := (vrow, funcs.irToHost)

/-! ## `vrow_thread_main` -/

/-- The calls of `vrow_bank_swap`: from bank 0 to bank 1, from bank 1 to bank 2. -/
inductive BankSwap
  | zeroOne
  | oneTwo
deriving DecidableEq, Repr

def BankSwap.fromI : BankSwap → Fin 4
  | .zeroOne => 0
  | .oneTwo => 1

def BankSwap.toI : BankSwap → Fin 4
  | .zeroOne => 1
  | .oneTwo => 2

/-- Where the thread stands: before the operation named. -/
inductive VrowPc
  /-- `vrow_is_closed`, at the head of the loop. -/
  | loop
  /-- `vrow_is_filled` of bank 0. -/
  | filled
  /-- `vrow_active_switch` of bank 0. -/
  | enter
  | sigon
  /-- `vrow_bank_0_proc`, `vrow_bank_1_proc`, `vrow_bank_2_proc`. -/
  | proc (k : Fin 3)
  /-- `vrow_active_switch` of the next bank, then of the bank left. -/
  | activeTo (swap : BankSwap)
  | activeFrom (swap : BankSwap)
  /-- `vrow_bank_swap`: the switch of the next bank, the copy, the switch of the bank left. -/
  | fillTo (swap : BankSwap)
  | move (swap : BankSwap)
  | fillFrom (swap : BankSwap)
  /-- `sync_map_ref_sigoff`, at the end of the loop or before it is left. -/
  | sigoff (leave : Bool)
  /-- `_vrow_force_flush`: the zeroing of the banks, the store of the flags. -/
  | zero
  | empty
  | exited
deriving DecidableEq, Repr

/-- The thread is between its test of the `F` bit of bank 0 and its switch. -/
def VrowPc.HoldsZero : VrowPc → Prop
  | .enter | .sigon | .proc 0 | .activeTo .zeroOne | .activeFrom .zeroOne | .fillTo .zeroOne
  | .move .zeroOne | .fillFrom .zeroOne => True
  | _ => False

/-- What an operation does to the bit of the vrow in the map of the scheduler. -/
inductive VrowSignal
  | keep
  | on
  | off
deriving DecidableEq, Repr

/-- The function of a bank. -/
def vrowBankProc (funcs : BankFuncs β) (vrow : Vrow β) (k : Fin 3) : Vrow β × Bool :=
  match k with
  | 0 => vrowBank0Proc funcs vrow
  | 1 => vrowBank1Proc vrow
  | 2 => vrowBank2Proc funcs vrow

/-- Where the thread stands after the function of a bank: before the next bank, at the end of
the loop, or, if the function failed, on its way out. -/
def VrowPc.afterProc (k : Fin 3) (succ : Bool) : VrowPc :=
  if succ then
    match k with
    | 0 => .activeTo .zeroOne
    | 1 => .activeTo .oneTwo
    | 2 => .sigoff false
  else .sigoff true

/-- The function of a bank that is entered after a swap. -/
def BankSwap.next : BankSwap → VrowPc
  | .zeroOne => .proc 1
  | .oneTwo => .proc 2

/-- The next operation of `vrow_thread_main`: the vrow, its signal, and where the thread stands
afterwards. -/
def vrowThreadStep (funcs : BankFuncs β) (zero : β) (vrow : Vrow β) :
    VrowPc → Option (Vrow β × VrowSignal × VrowPc)
  | .loop => some (vrow, .keep, if vrow.closed then .zero else .filled)
  | .filled => some (vrow, .keep, if vrowIsFilled vrow 0 then .enter else .loop)
  | .enter => some (vrowActiveSwitch vrow 0, .keep, .sigon)
  | .sigon => some (vrow, .on, .proc 0)
  | .proc k =>
    let (vrow, succ) := vrowBankProc funcs vrow k
    some (vrow, .keep, .afterProc k succ)
  | .activeTo swap => some (vrowActiveSwitch vrow swap.toI, .keep, .activeFrom swap)
  | .activeFrom swap => some (vrowActiveSwitch vrow swap.fromI, .keep, .fillTo swap)
  | .fillTo swap => some (vrowFillSwitch vrow swap.toI, .keep, .move swap)
  | .move swap => some (vrow.store swap.toI (vrow.base swap.fromI), .keep, .fillFrom swap)
  | .fillFrom swap => some (vrowFillSwitch vrow swap.fromI, .keep, swap.next)
  | .sigoff leave => some (vrow, .off, if leave then .zero else .loop)
  | .zero => some ({ vrow with base := fun _ => zero }, .keep, .empty)
  | .empty => some ({ vrow with states := vrowStateEmpty }, .keep, .exited)
  | .exited => none

/-- The payload of bank 0 is valid. -/
def BankFuncs.valid (funcs : BankFuncs β) (payload : β) : Bool :=
  funcs.guestToIr.any fun func => (func payload).2

/-- The functions of the banks are those of bank 0, 1 and 2. -/
lemma proc_cases (k : Fin 3) : k = 0 ∨ k = 1 ∨ k = 2 := by
  revert k
  decide

/-- The function of a bank leaves the flags and the close request as they are. -/
lemma vrowBankProc_frame (funcs : BankFuncs β) (vrow : Vrow β) (k : Fin 3) :
    (vrowBankProc funcs vrow k).1.states = vrow.states ∧
      (vrowBankProc funcs vrow k).1.closed = vrow.closed := by
  rcases proc_cases k with rfl | rfl | rfl
  · rw [vrowBankProc, vrowBank0Proc]
    split
    · exact ⟨rfl, rfl⟩
    · exact ⟨rfl, rfl⟩
  · exact ⟨rfl, rfl⟩
  · exact ⟨rfl, rfl⟩

/-- The function of bank 0 leaves the payload as it is, and succeeds if it is valid. -/
lemma vrowBank0Proc_eq (funcs : BankFuncs β) (vrow : Vrow β) :
    (vrowBankProc funcs vrow 0).1.base 0 = vrow.base 0 ∧
      (vrowBankProc funcs vrow 0).2 = funcs.valid (vrow.base 0) := by
  rw [vrowBankProc, vrowBank0Proc, BankFuncs.valid]
  cases funcs.guestToIr with
  | none => exact ⟨rfl, rfl⟩
  | some func => exact ⟨rfl, rfl⟩

end

end AxVirtLayer
