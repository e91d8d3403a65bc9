import Mathlib.Data.BitVec
import Mathlib.Logic.Function.Basic

/-!
# The intermediate representation

Opcodes (`ir_opcode.h`), operands (`ir_operand.h`) and instructions (`ir_instr.h`),
and the meaning of the instructions on a register file, which the comments of
`ir_opcode.h` give: `op[0] = op[1] o op[2]`, and `op[0] = mov op[1]`.
-/

namespace AxVirtLayer

/-! ## Opcodes -/

/-- `ir_opcode`, an enumeration of 16-bit values. -/
abbrev IrOpcode := BitVec 16

/-- `_IR_OPI`: return bit, operand width and group of an opcode. -/
def irOpi (ret wid grp : BitVec 16) : IrOpcode :=
  ((ret &&& 1) <<< 15) ||| ((wid &&& 3) <<< 13) ||| (grp &&& 0x1fff)

/-- `IR_DEST_NEQ_SRC`: the destination does not equal the source. -/
def irDestNeqSrc : BitVec 16 := 1 <<< 2

/-- The widths `IR_8BIT` to `IR_64BIT`. -/
def ir8Bit : BitVec 16 := 0
@[inherit_doc ir8Bit] def ir16Bit : BitVec 16 := 1
@[inherit_doc ir8Bit] def ir32Bit : BitVec 16 := 2
@[inherit_doc ir8Bit] def ir64Bit : BitVec 16 := 3

/-- The groups of `enum ir_opcode_group`. -/
def irGroupInvalid : BitVec 16 := 0
@[inherit_doc irGroupInvalid] def irGroupAdd : BitVec 16 := 1
@[inherit_doc irGroupInvalid] def irGroupOr : BitVec 16 := 2
@[inherit_doc irGroupInvalid] def irGroupAnd : BitVec 16 := 3
@[inherit_doc irGroupInvalid] def irGroupSub : BitVec 16 := 4
@[inherit_doc irGroupInvalid] def irGroupAlloc : BitVec 16 :=
  (irDestNeqSrc <<< 10) ||| (irGroupSub + 1)
@[inherit_doc irGroupInvalid] def irGroupDealloc : BitVec 16 :=
  (irDestNeqSrc <<< 10) ||| (irGroupAlloc + 1)
@[inherit_doc irGroupInvalid] def irGroupMov : BitVec 16 :=
  (irDestNeqSrc <<< 10) ||| (irGroupDealloc + 1)

/-- `IR_INVALID_OPCODE`. -/
def irInvalidOpcode : IrOpcode := 0

/-- The opcodes the MIPS32 front end produces. -/
def irAddI32 : IrOpcode := irOpi 1 ir32Bit irGroupAdd
@[inherit_doc irAddI32] def irOrI32 : IrOpcode := irOpi 1 ir32Bit irGroupOr
@[inherit_doc irAddI32] def irAndI32 : IrOpcode := irOpi 1 ir32Bit irGroupAnd
@[inherit_doc irAddI32] def irSubI32 : IrOpcode := irOpi 1 ir32Bit irGroupSub

/-- `IR_OPCODE_WIDTH`. -/
def irOpcodeWidth (opcode : IrOpcode) : BitVec 16 := (opcode >>> 13) &&& 3

/-- `IR_OPCODE_FLAGS`. -/
def irOpcodeFlags (opcode : IrOpcode) : BitVec 16 := (opcode >>> 10) &&& 7

/-- `IR_OPCODE_GROUP`. -/
def irOpcodeGroup (opcode : IrOpcode) : BitVec 16 := opcode &&& 0x3ff

/-- `ir_opcode_swap_group`. -/
def irOpcodeSwapGroup (opcode : IrOpcode) (group : BitVec 16) : IrOpcode :=
  (opcode &&& ~~~0x1fff) ||| group

/-- Swapping the group of an opcode sets its group. -/
lemma irOpcodeGroup_swapGroup (opcode : IrOpcode) (group : BitVec 16) :
    irOpcodeGroup (irOpcodeSwapGroup opcode group) = irOpcodeGroup group := by
  have hand : opcode &&& ~~~0x1fff#16 &&& 0x3ff#16 = 0#16 := by
    rw [BitVec.and_assoc, show ~~~0x1fff#16 &&& 0x3ff#16 = 0#16 by decide, BitVec.and_zero]
  refine BitVec.eq_of_getLsbD_eq fun i hi => ?_
  have hbit := congrArg (fun x : BitVec 16 => x.getLsbD i) hand
  simp only [BitVec.getLsbD_and, BitVec.getLsbD_zero] at hbit
  simp only [irOpcodeGroup, irOpcodeSwapGroup, BitVec.getLsbD_and, BitVec.getLsbD_or]
  grind

/-! ## Operands and instructions -/

/-- `enum ir_operand_kind`. -/
inductive IrOperandKind
  | irOpReg
  | irOpMem
  | irOpImm
deriving DecidableEq, Repr, Inhabited

/-- `ir_operand`; for `irOpReg` the id is the architecture specific register id. -/
structure IrOperand where
  kind : IrOperandKind
  id : ℕ
deriving DecidableEq, Repr, Inhabited

/-- The register operand with an id. -/
def IrOperand.reg (id : ℕ) : IrOperand := ⟨.irOpReg, id⟩

@[simp] lemma IrOperand.reg_id (id : ℕ) : (IrOperand.reg id).id = id := rfl

@[simp] lemma IrOperand.reg_kind (id : ℕ) : (IrOperand.reg id).kind = .irOpReg := rfl

/-- `ir_operand_set`: six operands, of which the first `opsCount` are used. -/
structure IrOperandSet where
  ops : Vector IrOperand 6
  opsCount : ℕ
deriving DecidableEq, Repr

/-- The operand with an index. -/
def IrOperandSet.op (set : IrOperandSet) (i : ℕ) : IrOperand := set.ops.toList.getD i (.reg 0)

/-- The zeroed operand set. -/
def IrOperandSet.zero : IrOperandSet := ⟨#v[.reg 0, .reg 0, .reg 0, .reg 0, .reg 0, .reg 0], 0⟩

/-- The operand set with the two operands `a`, `b`. -/
def IrOperandSet.two (a b : IrOperand) : IrOperandSet :=
  ⟨#v[a, b, .reg 0, .reg 0, .reg 0, .reg 0], 2⟩

/-- The operand set with the three operands `a`, `b`, `c`. -/
def IrOperandSet.three (a b c : IrOperand) : IrOperandSet :=
  ⟨#v[a, b, c, .reg 0, .reg 0, .reg 0], 3⟩

@[simp] lemma IrOperandSet.op_two_zero (a b : IrOperand) : (IrOperandSet.two a b).op 0 = a := rfl

@[simp] lemma IrOperandSet.op_two_one (a b : IrOperand) : (IrOperandSet.two a b).op 1 = b := rfl

@[simp] lemma IrOperandSet.op_three_zero (a b c : IrOperand) :
    (IrOperandSet.three a b c).op 0 = a := rfl

@[simp] lemma IrOperandSet.op_three_one (a b c : IrOperand) :
    (IrOperandSet.three a b c).op 1 = b := rfl

@[simp] lemma IrOperandSet.op_three_two (a b c : IrOperand) :
    (IrOperandSet.three a b c).op 2 = c := rfl

/-- The operands in use, in order. -/
def IrOperandSet.used (set : IrOperandSet) : List IrOperand := set.ops.toList.take set.opsCount

@[simp] lemma IrOperandSet.used_zero : IrOperandSet.zero.used = [] := rfl

@[simp] lemma IrOperandSet.used_three (a b c : IrOperand) :
    (IrOperandSet.three a b c).used = [a, b, c] := rfl

/-- `ir_raw_instr`. -/
structure IrRawInstr where
  opcode : IrOpcode
  set : IrOperandSet
deriving DecidableEq, Repr

/-- `sizeof(ir_raw_instr)`: two bytes of opcode, six operands of two bytes and the
count, padded to the alignment of the opcode. -/
def sizeofIrRawInstr : ℕ := 16

/-! ## The meaning of an instruction -/

section Exec

variable {w : ℕ}

/-- The value `a o b` of the binary groups. -/
def irBinop (group : BitVec 16) (a b : BitVec w) : Option (BitVec w) :=
  if group = irOpcodeGroup irGroupAdd then some (a + b)
  else if group = irOpcodeGroup irGroupOr then some (a ||| b)
  else if group = irOpcodeGroup irGroupAnd then some (a &&& b)
  else if group = irOpcodeGroup irGroupSub then some (a - b)
  else none

/-- The effect of an instruction on a file of `w`-bit registers indexed by operand id.
Instructions of the other groups do not name registers and leave the file alone. -/
def irExec (ρ : ℕ → BitVec w) (i : IrRawInstr) : ℕ → BitVec w :=
  let a := ρ (i.set.op 1).id
  let b := ρ (i.set.op 2).id
  if irOpcodeGroup i.opcode = irOpcodeGroup irGroupMov then
    Function.update ρ (i.set.op 0).id a
  else match irBinop (irOpcodeGroup i.opcode) a b with
    | some v => Function.update ρ (i.set.op 0).id v
    | none => ρ

/-- The effect of a list of instructions, in order. -/
def irExecAll (ρ : ℕ → BitVec w) (is : List IrRawInstr) : ℕ → BitVec w := is.foldl irExec ρ

@[simp] lemma irExecAll_nil (ρ : ℕ → BitVec w) : irExecAll ρ [] = ρ := rfl

@[simp] lemma irExecAll_cons (ρ : ℕ → BitVec w) (i : IrRawInstr) (is : List IrRawInstr) :
    irExecAll ρ (i :: is) = irExecAll (irExec ρ i) is := rfl

lemma irExec_mov {opcode : IrOpcode} (h : irOpcodeGroup opcode = irOpcodeGroup irGroupMov)
    (ρ : ℕ → BitVec w) (set : IrOperandSet) :
    irExec ρ ⟨opcode, set⟩ = Function.update ρ (set.op 0).id (ρ (set.op 1).id) := by
  simp [irExec, h]

lemma irGroup_ne_mov {group : BitVec 16} {a b v : BitVec w} (h : irBinop group a b = some v) :
    group ≠ irOpcodeGroup irGroupMov := by
  rintro rfl
  revert h
  simp [irBinop, show irOpcodeGroup irGroupMov ≠ irOpcodeGroup irGroupAdd by decide,
    show irOpcodeGroup irGroupMov ≠ irOpcodeGroup irGroupOr by decide,
    show irOpcodeGroup irGroupMov ≠ irOpcodeGroup irGroupAnd by decide,
    show irOpcodeGroup irGroupMov ≠ irOpcodeGroup irGroupSub by decide]

lemma irExec_binop {opcode : IrOpcode} {ρ : ℕ → BitVec w} {set : IrOperandSet} {v : BitVec w}
    (h : irBinop (irOpcodeGroup opcode) (ρ (set.op 1).id) (ρ (set.op 2).id) = some v) :
    irExec ρ ⟨opcode, set⟩ = Function.update ρ (set.op 0).id v := by
  simp [irExec, irGroup_ne_mov h, h]

end Exec

end AxVirtLayer
