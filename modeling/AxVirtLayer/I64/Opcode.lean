import Mathlib.Data.BitVec

/-!
# Operands and opcodes of the Intel 64 emitter

The operands (`i64_operand.h`, `i64_op_tables.c`) and the opcodes with their descriptions
(`i64_opcode.h`, `i64_opcode.c`).  The enumerations are bytes, as in the source: the
emitter works on their bits, and a zeroed structure holds values no enumerator has.
-/

namespace AxVirtLayer

/-! ## Operands -/

/-- `enum i64_operand_type`. -/
abbrev I64OperandType := BitVec 8

/-- The values of `enum i64_operand_type`. -/
def i64Mem : I64OperandType := 0x01
@[inherit_doc i64Mem] def i64Reg : I64OperandType := 0x02
@[inherit_doc i64Mem] def i64Imm : I64OperandType := 0x04
@[inherit_doc i64Mem] def i64Sib : I64OperandType := i64Mem ||| 0x10
@[inherit_doc i64Mem] def i64Disp8 : I64OperandType := i64Mem ||| 0x40
@[inherit_doc i64Mem] def i64Disp32 : I64OperandType := i64Mem ||| 0x80

/-- `enum i64_operand_width`: the binary logarithm of the width. -/
abbrev I64OperandWidth := BitVec 8

/-- The values of `enum i64_operand_width`. -/
def i64W8 : I64OperandWidth := 3
@[inherit_doc i64W8] def i64W16 : I64OperandWidth := 4
@[inherit_doc i64W8] def i64W32 : I64OperandWidth := 5
@[inherit_doc i64W8] def i64W64 : I64OperandWidth := 6

/-- `I64_OP_EXT`, the flag of the extended registers. -/
def i64OpExt : BitVec 8 := 0b100 <<< 5

/-- `I64_OP_SIB_SCALE`. -/
def i64OpSibScale : BitVec 8 := 0b001 <<< 5

/-- `I64_REG_TO_OPERAND`, the identifiers of the registers; `none` is a read outside the
table. -/
def i64RegToOperand (reg : ℕ) : Option (BitVec 8) :=
  [0x00, 0x01, 0x02, 0x03, 0x04, 0x05, 0x06, 0x07,
    0x88, 0x89, 0x8a, 0x8b, 0x8c, 0x8d, 0x8e, 0x8f][reg]?

/-- The identifier of a register, `I64_rAX` to `I64_r15`. -/
def i64RegId (reg : ℕ) : BitVec 8 := (i64RegToOperand reg).getD 0

/-- The identifiers `I64_SIB_1` to `I64_SIB_8`, by the logarithm of the scale. -/
def i64SibScale (scale : ℕ) : BitVec 8 := i64OpSibScale ||| 0x10 ||| BitVec.ofNat 8 scale

/-- `i64_operand_desc`. -/
structure I64OperandDesc where
  type : I64OperandType
  width : I64OperandWidth
deriving DecidableEq, Repr

/-- `i64_operand`. -/
structure I64Operand where
  desc : I64OperandDesc
  id : BitVec 8
  value : BitVec 64
deriving DecidableEq, Repr

/-- The zeroed description. -/
def I64OperandDesc.zero : I64OperandDesc := ⟨0, 0⟩

/-- The zeroed operand. -/
def I64Operand.zero : I64Operand := ⟨.zero, 0, 0⟩

/-- `struct i64_operand_mem`. -/
structure I64OperandMem where
  scaleId : BitVec 8
  indexId : BitVec 8
  indexWidth : I64OperandWidth
  disp : BitVec 32
deriving DecidableEq, Repr

/-- The value of an operand read as a `struct i64_operand_mem`: three bytes, one byte of
padding and the displacement. -/
def I64OperandMem.ofValue (value : BitVec 64) : I64OperandMem :=
  ⟨value.extractLsb' 0 8, value.extractLsb' 8 8, value.extractLsb' 16 8,
    value.extractLsb' 32 32⟩

/-- `I64_MAX_OP_COUNT` operands. -/
abbrev I64Operands := Vector I64Operand 4

/-! ## Opcodes -/

/-- `enum i64_opcode`. -/
abbrev I64Opcode := BitVec 64

/-- `_I64_OPI`. -/
def i64Opi (len type val : BitVec 64) : I64Opcode :=
  ((len &&& 0xf) <<< 60) ||| ((type &&& 0xf) <<< 56) ||| (val &&& 0xffffffffffffff)

/-- A generic opcode, `I64_OP_GENERIC`. -/
def i64Generic (val : BitVec 64) : I64Opcode := i64Opi 0 1 val

/-- A specific opcode of one byte, `I64_OP_INSTR`. -/
def i64Instr (val : BitVec 8) : I64Opcode := i64Opi 1 2 (val.setWidth 64)

/-- `I64_INVALID_OPCODE`. -/
def i64InvalidOpcode : I64Opcode := i64Opi 0 0 0

/-- `I64_OPCODE_VALUE`, the lower 32 bits. -/
def i64OpcodeValue (opcode : I64Opcode) : ℕ := (opcode &&& 0xffffffff).toNat

/-- `I64_OPCODE_LEN`. -/
def i64OpcodeLen (opcode : I64Opcode) : BitVec 64 := (opcode >>> 60) &&& 0xf

/-- `enum i64_opcode_form`. -/
abbrev I64OpcodeForm := BitVec 8

/-- `_I64_FORM_I`. -/
def i64FormI (f i : BitVec 8) : I64OpcodeForm := ((f &&& 1) <<< 3) ||| (i &&& 0xf)

/-- The values of `enum i64_opcode_form`. -/
def formRmR : I64OpcodeForm := i64FormI 1 0
@[inherit_doc formRmR] def formRRm : I64OpcodeForm := i64FormI 0 1
@[inherit_doc formRmR] def formRmImm : I64OpcodeForm := i64FormI 1 2
@[inherit_doc formRmR] def formRaxImm : I64OpcodeForm := i64FormI 0 3
@[inherit_doc formRmR] def formR : I64OpcodeForm := i64FormI 0 4
@[inherit_doc formRmR] def formUnk : I64OpcodeForm := i64FormI 0 0

/-- `enum i64_opcode_flags`. -/
abbrev I64OpcodeFlags := BitVec 8

/-- The values of `enum i64_opcode_flags`. -/
def i64FlagRex : I64OpcodeFlags := 0x01
@[inherit_doc i64FlagRex] def i64FlagModrm : I64OpcodeFlags := 0x02
@[inherit_doc i64FlagRex] def i64FlagLegacy : I64OpcodeFlags := 0x04

/-- `i64_opcode_desc`.  The mandatory prefix is not read by the emitter and left out. -/
structure I64OpcodeDesc where
  ops : Vector I64OperandDesc 4
  opsCount : ℕ
  flags : I64OpcodeFlags
  form : I64OpcodeForm
deriving DecidableEq, Repr

/-- The zeroed description. -/
def I64OpcodeDesc.zero : I64OpcodeDesc := ⟨.replicate 4 .zero, 0, 0, 0⟩

/-- A description with two operands. -/
def I64OpcodeDesc.two (op₀ op₁ : I64OperandDesc) (flags : I64OpcodeFlags)
    (form : I64OpcodeForm) : I64OpcodeDesc :=
  ⟨#v[op₀, op₁, .zero, .zero], 2, flags, form⟩

/-- The entries `r/m, r` of a width. -/
def descRmR (width : I64OperandWidth) (flags : I64OpcodeFlags) : I64OpcodeDesc :=
  .two ⟨i64Reg ||| i64Mem, width⟩ ⟨i64Reg, width⟩ flags formRmR

/-- The entries `r, r/m` of a width. -/
def descRRm (width : I64OperandWidth) (flags : I64OpcodeFlags) : I64OpcodeDesc :=
  .two ⟨i64Reg, width⟩ ⟨i64Reg ||| i64Mem, width⟩ flags formRRm

/-- The entries `rAX, imm` of a width. -/
def descRaxImm (width : I64OperandWidth) : I64OpcodeDesc :=
  .two ⟨i64Reg, width⟩ ⟨i64Imm, width⟩ 0 formRaxImm

/-- The six entries of one of the groups `ADD`, `OR`, `AND`, `SUB`, by the offset in the
group. -/
def aluGroup : ℕ → I64OpcodeDesc
  | 0 => descRmR i64W8 (i64FlagModrm ||| i64FlagLegacy)
  | 1 => descRmR i64W64 (i64FlagRex ||| i64FlagModrm ||| i64FlagLegacy)
  | 2 => descRRm i64W8 i64FlagModrm
  | 3 => descRRm i64W64 (i64FlagRex ||| i64FlagModrm)
  | 4 => descRaxImm i64W8
  | 5 => descRaxImm i64W32
  | _ => .zero

/-- The four entries of the group `MOV`, by the offset in the group. -/
def movGroup : ℕ → I64OpcodeDesc
  | 0 => descRmR i64W8 i64FlagModrm
  | 1 => descRmR i64W64 (i64FlagRex ||| i64FlagModrm)
  | 2 => descRRm i64W8 i64FlagModrm
  | 3 => descRRm i64W64 (i64FlagRex ||| i64FlagModrm)
  | _ => .zero

/-- `L1_OPCODE_META_TABLE`. -/
def l1OpcodeMetaTable (opcode : ℕ) : I64OpcodeDesc :=
  if opcode ≤ 0x05 then aluGroup opcode
  else if 0x08 ≤ opcode ∧ opcode ≤ 0x0d then aluGroup (opcode - 0x08)
  else if 0x20 ≤ opcode ∧ opcode ≤ 0x25 then aluGroup (opcode - 0x20)
  else if 0x28 ≤ opcode ∧ opcode ≤ 0x2d then aluGroup (opcode - 0x28)
  else if opcode = 0x50 then ⟨#v[⟨i64Reg, i64W64⟩, .zero, .zero, .zero], 1, 0, formR⟩
  else if 0x88 ≤ opcode ∧ opcode ≤ 0x8b then movGroup (opcode - 0x88)
  else .zero

/-- `_i64_lookup_opcode_meta`. -/
def i64LookupOpcodeMeta (opcode : I64Opcode) : I64OpcodeDesc :=
  if i64OpcodeLen opcode = 1 then l1OpcodeMetaTable (opcode &&& 0xff).toNat else .zero

lemma i64LookupOpcodeMeta_instr (b : BitVec 8) :
    i64LookupOpcodeMeta (i64Instr b) = l1OpcodeMetaTable b.toNat := by
  revert b
  decide +kernel

/-! ## Register identifiers -/

/-- Whether a register needs an extension bit. -/
def regExt (reg : ℕ) : Bool := decide (8 ≤ reg)

lemma i64RegToOperand_eq_none {reg : ℕ} (h : 16 ≤ reg) : i64RegToOperand reg = none :=
  List.getElem?_eq_none h

lemma i64RegToOperand_eq {reg : ℕ} (h : reg < 16) : i64RegToOperand reg = some (i64RegId reg) := by
  revert reg
  decide

lemma i64RegId_and_ext {reg : ℕ} (h : reg < 16) :
    i64RegId reg &&& i64OpExt = if regExt reg then i64OpExt else 0 := by
  revert reg
  decide

lemma i64RegId_and_seven {reg : ℕ} (h : reg < 16) :
    i64RegId reg &&& 7 = BitVec.ofNat 8 (reg % 8) := by
  revert reg
  decide

end AxVirtLayer
