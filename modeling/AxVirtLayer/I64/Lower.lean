import AxVirtLayer.Tblock.Pass
import AxVirtLayer.I64.Modrm

/-!
# Lowering the intermediate representation

The tables (`i64_ir_tables.c`) and functions (`i64_ir.h`, `i64_ir.c`) that turn an IR
instruction into an Intel 64 one, and the pass `tblock_ir_to_raw` (`tblock_pass.c`).

The second part says which bytes the pass writes for the instructions `asm_expand_instr`
leaves to a host with two operands, and which instructions the bytes decode to.
-/

namespace AxVirtLayer

open Lib.Intel64

/-- Why the program ends inside the lowering. -/
inductive Stop
  /-- An assertion fails, or an invalid call exits. -/
  | asrt
  /-- A table is read outside its bounds. -/
  | outOfTable
deriving DecidableEq, Repr

/-! ## Tables -/

/-- A row of `I64_IR_GROUP_TO_GENERIC`: the generic of the 8-bit column and of the wider
ones; the last four of the eight columns are zero. -/
def genericRow (g8 g64 : I64Opcode) (width : ℕ) : I64Opcode :=
  if width = 0 then g8 else if width ≤ 3 then g64 else 0

/-- `I64_IR_GROUP_TO_GENERIC`. -/
def i64IrGroupToGeneric (group width : ℕ) : Except Stop I64Opcode :=
  if group = 1 then .ok (genericRow (i64Generic 0x00) (i64Generic 0x01) width)
  else if group = 2 then .ok (genericRow (i64Generic 0x08) (i64Generic 0x09) width)
  else if group = 3 then .ok (genericRow (i64Generic 0x20) (i64Generic 0x21) width)
  else if group = 4 then .ok (genericRow (i64Generic 0x28) (i64Generic 0x2d) width)
  else if group = 7 then .ok (genericRow (i64Generic 0x88) (i64Generic 0x89) width)
  else if group < 7 then .ok 0
  else .error .outOfTable

/-- A row of `I64_IR_GENERIC_TO_SPECIFIC`, by its four entries. -/
def specificRow (rmR rRm rmImm raxImm : I64Opcode) (form : I64OpcodeForm) : I64Opcode :=
  if form = formRmR then rmR
  else if form = formRRm then rRm
  else if form = formRmImm then rmImm
  else if form = formRaxImm then raxImm
  else 0

/-- `I64_IR_GENERIC_TO_SPECIFIC`, by the value of the generic. -/
def i64IrGenericToSpecific (value : ℕ) (form : I64OpcodeForm) : Except Stop I64Opcode :=
  let invalid := i64InvalidOpcode
  if value = 0x00 then .ok (specificRow (i64Instr 0x00) (i64Instr 0x02) invalid invalid form)
  else if value = 0x01 then
    .ok (specificRow (i64Instr 0x01) (i64Instr 0x03) (i64Instr 0x04) (i64Instr 0x05) form)
  else if value = 0x08 then .ok (specificRow (i64Instr 0x08) (i64Instr 0x0a) invalid invalid form)
  else if value = 0x09 then
    .ok (specificRow (i64Instr 0x09) (i64Instr 0x0b) (i64Instr 0x0c) (i64Instr 0x0d) form)
  else if value = 0x20 then .ok (specificRow (i64Instr 0x20) (i64Instr 0x22) invalid invalid form)
  else if value = 0x21 then
    .ok (specificRow (i64Instr 0x21) (i64Instr 0x23) (i64Instr 0x24) (i64Instr 0x25) form)
  else if value = 0x28 then .ok (specificRow (i64Instr 0x28) (i64Instr 0x2a) invalid invalid form)
  else if value = 0x2d then
    .ok (specificRow (i64Instr 0x29) (i64Instr 0x2b) (i64Instr 0x2c) (i64Instr 0x2d) form)
  else if value = 0x88 then .ok (specificRow invalid invalid invalid invalid form)
  else if value = 0x89 then
    .ok (specificRow (i64Instr 0x89) (i64Instr 0x8b) invalid invalid form)
  else if value < 0x89 then .ok 0
  else .error .outOfTable

/-- `I64_IR_FORM_MAP`. -/
def i64IrFormMap : IrOperandKind → IrOperandKind → I64OpcodeForm
  | .irOpReg, .irOpReg => formRmR
  | .irOpReg, .irOpMem => formRRm
  | .irOpReg, .irOpImm => formRmImm
  | .irOpMem, .irOpReg => formRmR
  | .irOpMem, .irOpMem => formUnk
  | .irOpMem, .irOpImm => formRmImm
  | .irOpImm, _ => formUnk

/-! ## Conversion of an instruction -/

/-- `_i64_ir_opcode_form_res`. -/
def i64IrOpcodeFormRes (dest src₁ : IrOperand) : I64OpcodeForm := i64IrFormMap dest.kind src₁.kind

/-- `_i64_ir_opcode_trans`. -/
def i64IrOpcodeTrans (irOpGroup irOpWidth : ℕ) (dest src₁ : IrOperand) : Except Stop I64Opcode := do
  let i64OpGen ← i64IrGroupToGeneric irOpGroup irOpWidth
  i64IrGenericToSpecific (i64OpcodeValue i64OpGen) (i64IrOpcodeFormRes dest src₁)

/-- `_i64_ir_operand_trans`, which leaves memory and immediate operands as they are. -/
def i64IrOperandTrans (irOp : IrOperand) (desc : I64OperandDesc) (operand : I64Operand) :
    Except Stop I64Operand :=
  match irOp.kind with
  | .irOpReg =>
    match i64RegToOperand irOp.id with
    | some id => .ok ⟨⟨desc.type &&& i64Reg, desc.width⟩, id, 0⟩
    | none => .error .outOfTable
  | .irOpMem => .ok operand
  | .irOpImm => .ok operand

/-- `i64_ir_opcode_conv`: the opcode and the operands, from zeroed ones. -/
def i64IrOpcodeConv (irInstr : IrRawInstr) : Except Stop (I64Opcode × I64Operands) := do
  let set := irInstr.set
  let irOpWidth := (irOpcodeWidth irInstr.opcode).toNat
  -- the group is kept in a byte
  let irOpGroup := (irOpcodeGroup irInstr.opcode).toNat % 2 ^ 8
  let destSrc := if (set.op 0).id = (set.op 1).id then 1 else 0
  let opcode ← i64IrOpcodeTrans irOpGroup irOpWidth (set.op destSrc) (set.op (destSrc + 1))
  let form := i64IrOpcodeFormRes (set.op destSrc) (set.op (destSrc + 1))
  let desc := i64LookupOpcodeMeta opcode
  if form ≠ desc.form then .error .asrt
  else
    let operands ← (List.range (set.opsCount - destSrc)).foldlM (fun buf i => do
      let operand ← i64IrOperandTrans (set.op (i + destSrc)) (desc.ops.toList.getD i .zero)
        (buf.toList.getD i .zero)
      pure (buf.setIfInBounds i operand)) (.replicate 4 .zero)
    .ok (opcode, operands)

/-- `i64_ir_to_raw`: the payload and the length.  The length is left as it was if there are
too many operands. -/
def i64IrToRaw (irInstr : IrRawInstr) (len : ℕ) : Except Stop ((ℕ → BitVec 8) × ℕ) :=
  let set := irInstr.set
  if 4 < set.opsCount then .ok (fun _ => 0, len)
  else if (set.op 0).id = (set.op 1).id ∧ irOpcodeFlags irInstr.opcode &&& irDestNeqSrc ≠ 0 then
    .error .asrt
  else do
    let (opcode, operands) ← i64IrOpcodeConv irInstr
    .ok (i64Emit64 opcode operands fun _ => 0)

/-! ## The pass -/

/-- `desc->call.ir_to_host`; an architecture without one ends the program. -/
def IrContext.irToHost (ir : IrContext) (irInstr : IrRawInstr) (len : ℕ) :
    Except Stop ((ℕ → BitVec 8) × ℕ) :=
  match ir.hostArch with
  | .intel64 => i64IrToRaw irInstr len
  | .mips32 => .error .asrt

/-- The local variables of `tblock_ir_to_raw`: `host_len`, and the bytes written behind
`host_ptr`. -/
structure IrToRaw where
  hostLen : ℕ
  out : List Byte

/-- The conversion of one instruction and the copy to `host_ptr`. -/
def irToRawEmit (ir : IrContext) (s : IrToRaw) (irInstr : IrRawInstr) : Except Stop IrToRaw := do
  let host ← ir.irToHost irInstr s.hostLen
  .ok ⟨host.2, s.out ++ i64Bytes host⟩

/-- The body of the loop over the instructions of the block. -/
def irToRawBody (ir : IrContext) (s : IrToRaw) (irInstr : IrRawInstr) : Except Stop IrToRaw :=
  if irInstr.opcode = irInvalidOpcode then .error .asrt else irToRawEmit ir s irInstr

/-- The instruction of the prologue, an `IR_ALLOC`. -/
def irToRawAlloc (ir : IrContext) : IrRawInstr :=
  ⟨irOpi 1 ir32Bit irGroupAlloc,
    ⟨#v[⟨.irOpImm, ir.hostMap.regWidth⟩, .reg 0, .reg 0, .reg 0, .reg 0, .reg 0], 1⟩⟩

/-- `tblock_ir_to_raw`: the block, the bytes written and the count.  The prologue follows the
reset of the spill counter. -/
def tblockIrToRaw (ir : IrContext) (block : Tblock) : Except Stop (Tblock × List Byte × ℕ) := do
  let block := { block with tables := { block.tables with spillCnt := 0 } }
  let s ← (List.replicate block.tables.spillCnt (irToRawAlloc ir)).foldlM (irToRawEmit ir) ⟨0, []⟩
  let s ← block.ir.foldlM (irToRawBody ir) s
  .ok (block, s.out, block.irCnt + block.tables.spillCnt)

/-- The pass is its loop: the prologue and the epilogue have no round. -/
lemma tblockIrToRaw_eq (ir : IrContext) (block : Tblock) :
    tblockIrToRaw ir block = (block.ir.foldlM (irToRawBody ir) ⟨0, []⟩).map fun s =>
      ({ block with tables := { block.tables with spillCnt := 0 } }, s.out, block.irCnt + 0) := by
  rw [tblockIrToRaw]
  simp only [List.replicate_zero, List.foldlM_nil, pure_bind]
  show (Tblock.ir block).foldlM (irToRawBody ir) ⟨0, []⟩ >>= _ = _
  cases (Tblock.ir block).foldlM (irToRawBody ir) ⟨0, []⟩ <;> rfl

/-! ## Two operands -/

/-- The width of an IR instruction. -/
def OpWidth.ir : OpWidth → BitVec 16
  | .w8 => ir8Bit
  | .w16 => ir16Bit
  | .w32 => ir32Bit
  | .w64 => ir64Bit

/-- The bits of a width. -/
def OpWidth.bits : OpWidth → ℕ
  | .w8 => 8
  | .w16 => 16
  | .w32 => 32
  | .w64 => 64

/-- The IR group of an operation. -/
def irGroupOf : Op → BitVec 16
  | .add => irGroupAdd
  | .or => irGroupOr
  | .and => irGroupAnd
  | .sub => irGroupSub
  | .mov => irGroupMov

/-- An instruction of the shapes `asm_expand_instr` produces for a host with two operands:
`d = d o s`, or `d = s` with two different registers. -/
structure TwoOp where
  op : Op
  d : Fin 16
  s : Fin 16
  mov_ne : op = .mov → d ≠ s
deriving DecidableEq

namespace TwoOp

/-- The IR instruction of a width. -/
def ir (w : OpWidth) (i : TwoOp) : IrRawInstr :=
  ⟨irOpi 1 w.ir (irGroupOf i.op),
    if i.op = .mov then .two (.reg i.d) (.reg i.s) else .three (.reg i.d) (.reg i.d) (.reg i.s)⟩

/-- There is no opcode for the instruction: the entries of the 8-bit `MOV` are invalid. -/
def NoOpcode (w : OpWidth) (i : TwoOp) : Prop := w = .w8 ∧ i.op = .mov

instance (w : OpWidth) (i : TwoOp) : Decidable (i.NoOpcode w) := by
  unfold NoOpcode
  infer_instance

end TwoOp

/-- The opcode `r/m, r` of an operation. -/
def rmROpcode (op : Op) (wide : Bool) : ModrmOpcode :=
  match op, wide with
  | .add, false => ⟨0x00, by decide⟩
  | .add, true => ⟨0x01, by decide⟩
  | .or, false => ⟨0x08, by decide⟩
  | .or, true => ⟨0x09, by decide⟩
  | .and, false => ⟨0x20, by decide⟩
  | .and, true => ⟨0x21, by decide⟩
  | .sub, false => ⟨0x28, by decide⟩
  | .sub, true => ⟨0x29, by decide⟩
  | .mov, false => ⟨0x88, by decide⟩
  | .mov, true => ⟨0x89, by decide⟩

lemma rmROpcode_spec (op : Op) (wide : Bool) :
    (rmROpcode op wide).op = op ∧ (rmROpcode op wide).toReg = false ∧
      (rmROpcode op wide).wide = wide := by
  cases op <;> cases wide <;> decide

/-- The operands of a `r/m, r` instruction between registers. -/
def regOperands (wide : Bool) (d s : ℕ) : I64Operands :=
  #v[regOperand (regWidth wide) d, regOperand (regWidth wide) s, .zero, .zero]

lemma i64IrOpcodeTrans_reg (op : Op) (w : OpWidth) (d s : ℕ) :
    i64IrOpcodeTrans ((irOpcodeGroup (irOpi 1 w.ir (irGroupOf op))).toNat % 2 ^ 8)
        (irOpcodeWidth (irOpi 1 w.ir (irGroupOf op))).toNat (.reg d) (.reg s) =
      .ok (if w = .w8 ∧ op = .mov then 0 else i64Instr (rmROpcode op (decide (w ≠ .w8))).1) := by
  cases op <;> cases w <;> rfl

lemma rmROpcode_desc (op : Op) (wide : Bool) :
    i64LookupOpcodeMeta (i64Instr (rmROpcode op wide).1) = (rmROpcode op wide).desc ∧
      (rmROpcode op wide).desc.form = formRmR ∧
      (rmROpcode op wide).desc.ops.toList.getD 0 .zero = ⟨i64Reg ||| i64Mem, regWidth wide⟩ ∧
      (rmROpcode op wide).desc.ops.toList.getD 1 .zero = ⟨i64Reg, regWidth wide⟩ := by
  refine ⟨i64LookupOpcodeMeta_instr _, ?_⟩
  cases op <;> cases wide <;> decide

lemma i64IrOperandTrans_reg {reg : ℕ} (h : reg < 16) (desc : I64OperandDesc)
    (operand : I64Operand) :
    i64IrOperandTrans (.reg reg) desc operand =
      .ok ⟨⟨desc.type &&& i64Reg, desc.width⟩, i64RegId reg, 0⟩ := by
  simp only [i64IrOperandTrans, IrOperand.reg, i64RegToOperand_eq h]

/-- The place of the destination among the operands. -/
lemma ir_destSrc (w : OpWidth) (i : TwoOp) :
    ∃ k, (if ((i.ir w).set.op 0).id = ((i.ir w).set.op 1).id then 1 else 0) = k ∧
      (i.ir w).set.op k = .reg i.d ∧ (i.ir w).set.op (k + 1) = .reg i.s ∧
      (i.ir w).set.opsCount - k = 2 := by
  by_cases hmov : i.op = .mov
  · refine ⟨0, ?_, ?_⟩
    · have hne : i.d.val ≠ i.s.val := fun h => i.mov_ne hmov (Fin.ext h)
      simp [TwoOp.ir, hmov, IrOperandSet.op, IrOperandSet.two, hne]
    · simp [TwoOp.ir, hmov, IrOperandSet.op, IrOperandSet.two]
  · refine ⟨1, ?_, ?_⟩
    · simp [TwoOp.ir, hmov, IrOperandSet.op, IrOperandSet.three]
    · simp [TwoOp.ir, hmov, IrOperandSet.op, IrOperandSet.three]

/-- **The conversion of an instruction.** -/
lemma i64IrOpcodeConv_ir (w : OpWidth) (i : TwoOp) :
    i64IrOpcodeConv (i.ir w) = if i.NoOpcode w then .error .asrt
      else .ok (i64Instr (rmROpcode i.op (decide (w ≠ .w8))).1,
        regOperands (decide (w ≠ .w8)) i.d i.s) := by
  obtain ⟨k, hk, hd, hs, hcount⟩ := ir_destSrc w i
  obtain ⟨hmeta, hform, h0, h1⟩ := rmROpcode_desc i.op (decide (w ≠ .w8))
  have htrans := i64IrOpcodeTrans_reg i.op w i.d i.s
  have hform' : i64IrOpcodeFormRes (.reg i.d) (.reg i.s) = formRmR := rfl
  rw [i64IrOpcodeConv]
  simp only [hk, hd, hs, hcount, hform']
  rw [show (i.ir w).opcode = irOpi 1 w.ir (irGroupOf i.op) from rfl, htrans]
  by_cases hno : w = .w8 ∧ i.op = .mov
  · rw [if_pos hno, if_pos (show i.NoOpcode w from hno)]
    rfl
  · rw [if_neg hno, if_neg (show ¬ i.NoOpcode w from hno)]
    simp only [bind, Except.bind, hmeta, hform, ne_eq, not_true_eq_false, if_false,
      List.range_succ, List.range_zero, List.nil_append, List.cons_append, List.foldlM_cons,
      List.foldlM_nil, Nat.zero_add, Nat.add_comm 1 k, hd, hs, i64IrOperandTrans_reg i.d.2,
      i64IrOperandTrans_reg i.s.2]
    simp only [ne_eq] at h0 h1
    have hset : ∀ a b : I64Operand, ((Vector.replicate 4 I64Operand.zero).setIfInBounds 0
        a).setIfInBounds 1 b = #v[a, b, .zero, .zero] := fun _ _ => rfl
    have hreg : (i64Reg ||| i64Mem) &&& i64Reg = i64Reg ∧ i64Reg &&& i64Reg = i64Reg := by decide
    rw [h0, h1]
    simp only [pure, Except.pure, hset, hreg.1, hreg.2]
    rfl

/-! ## The bytes of an instruction -/

namespace TwoOp

variable (w : OpWidth) (i : TwoOp)

/-- The opcode has operands of 64 bits. -/
def wide : Bool := decide (w ≠ .w8)

/-- The bytes of the instruction. -/
def bytes : List Byte :=
  i64Bytes (i64Emit64 (i64Instr (rmROpcode i.op (wide w)).1) (regOperands (wide w) i.d i.s)
    fun _ => 0)

/-- The bits of the REX prefix of a wide instruction: `REX.R` extends the source and `REX.B` the
destination, but they are set from the other operand. -/
def rex : Rex := ⟨true, regExt i.d, false, regExt i.s⟩

/-- A register field of the instruction, as it is decoded. -/
def decoded (ext : Bool) (reg : ℕ) : Reg :=
  if wide w then .low (extend ext (reg % 8)) else regOf .b8 none (reg % 8)

/-- The instruction the bytes decode to. -/
def insn : Insn :=
  ⟨i.op, sizeOfWide (wide w), false, decoded w (regExt i.d) i.s,
    .reg (decoded w (regExt i.s) i.d)⟩

lemma regOf_decoded (ext : Bool) (reg : ℕ) (bit : Rex → Bool) (hbit : bit i.rex = ext)
    (hzero : bit ⟨false, false, false, false⟩ = false) :
    regOf (sizeOfWide (wide w)) (if wide w then some i.rex else none)
        (extend (bit (rexBits (if wide w then some i.rex else none))) (reg % 8)) =
      decoded w ext reg := by
  rw [decoded]
  by_cases h : wide w = true
  · rw [h, if_pos rfl, if_pos rfl, rexBits, Option.getD_some, hbit]
    rfl
  · rw [Bool.not_eq_true] at h
    rw [h, if_neg Bool.false_ne_true, if_neg Bool.false_ne_true, rexBits, Option.getD_none, hzero]
    rfl

end TwoOp

/-- The summary of two register operands. -/
lemma regOperands_sum (op : Op) (wide : Bool) {d s : ℕ} (hd : d < 16) (hs : s < 16) :
    (i64SumCalc (rmROpcode op wide).desc (regOperands wide d s)).Has
      ⟨true, false, false, .none, 0, rexOrZero ⟨wide, regExt d, false, regExt s⟩⟩ := by
  have hcount : (rmROpcode op wide).desc.opsCount = 2 := (rmROpcode op wide).2.1
  have hform : (rmROpcode op wide).desc.form = formRmR := (rmROpcode_desc op wide).2.1
  rw [regOperands, regOperand, regOperand, i64SumCalc_two hcount _ _ hd hs, hform]
  exact sumTwo_reg_reg wide (regExt d) (regExt s)

/-- **What the bytes of an instruction decode to.** -/
lemma decode_bytes (w : OpWidth) (i : TwoOp) (tail : List Byte) :
    decode (i.bytes w ++ tail) = some (i.insn w, tail) := by
  obtain ⟨hop, htoReg, hwide⟩ := rmROpcode_spec i.op (TwoOp.wide w)
  obtain ⟨hrow, -⟩ := modrmOpcode_spec (rmROpcode i.op (TwoOp.wide w))
  have hbits := regOperands_sum i.op (TwoOp.wide w) i.d.2 i.s.2
  have hd8 : i.d.val % 8 < 8 := Nat.mod_lt _ (by decide)
  have hs8 : i.s.val % 8 < 8 := Nat.mod_lt _ (by decide)
  have hmodrm : i64ModrmResolve (regOperands (TwoOp.wide w) i.d i.s)[0].id
      (regOperands (TwoOp.wide w) i.d i.s)[1].id
      (i64SumCalc (rmROpcode i.op (TwoOp.wide w)).desc (regOperands (TwoOp.wide w) i.d i.s)) =
      fieldsByte 3 (i.s.val % 8) (i.d.val % 8) :=
    i64ModrmResolve_eq hbits (fun _ => ⟨rfl, rfl⟩) i.d.2 i.s.2
  have hne : fieldsByte 3 (i.s.val % 8) (i.d.val % 8) ≠ 0#8 := by
    intro h
    obtain ⟨h3, -⟩ := (fieldsByte_eq_zero (by decide) hs8 hd8).1 h
    cases h3
  have hrex := emittedRex_spec i.rex rfl (TwoOp.wide w)
  have hrexEq : (if TwoOp.wide w then rexOrZero ⟨TwoOp.wide w, regExt i.d, false, regExt i.s⟩
      else 0) = if TwoOp.wide w then rexOrZero i.rex else 0#8 := by
    by_cases h : TwoOp.wide w = true
    · rw [if_pos h, if_pos h, h]
      rfl
    · rw [if_neg h, if_neg h]
      rfl
  rw [TwoOp.bytes, i64Bytes_modrm _ _ _ hbits, hmodrm, i64SibResolve_none hbits rfl, htoReg, hop,
    hwide, hrexEq, nz_of_ne hne, nz_zero]
  rw [hop, htoReg, hwide] at hrow
  have hleg : 0#8 = 0#8 ∨ 0#8 = 0x66#8 ∨ 0#8 = 0x67#8 := Or.inl rfl
  have hdecode := decode_nz hleg hrex.1 hrow
    (fieldsByte 3 (i.s.val % 8) (i.d.val % 8) :: tail)
  obtain ⟨htop, hmid, hlow⟩ := fields_fieldsByte (show 3 < 4 by decide) hs8 hd8
  rw [hrex.2, takeOperands, takeRM, htop, hmid, hlow, if_pos rfl,
    sizeOf_emitted _ _ _ _ (show i.rex.w = true from rfl)] at hdecode
  have hreg := TwoOp.regOf_decoded w i (regExt i.d) i.s Rex.r rfl rfl
  have hrm := TwoOp.regOf_decoded w i (regExt i.s) i.d Rex.b rfl rfl
  simp only [rexBits] at hreg hrm
  rw [hreg, hrm] at hdecode
  simpa [TwoOp.insn, dispBytes] using hdecode

/-! ## The bytes of a block -/

lemma i64IrToRaw_ir (w : OpWidth) (i : TwoOp) (len : ℕ) :
    i64IrToRaw (i.ir w) len = if i.NoOpcode w then .error .asrt
      else .ok (i64Emit64 (i64Instr (rmROpcode i.op (TwoOp.wide w)).1)
        (regOperands (TwoOp.wide w) i.d i.s) fun _ => 0) := by
  have hcount : ¬ 4 < (i.ir w).set.opsCount := by
    rw [TwoOp.ir]
    by_cases hmov : i.op = .mov
    · simp [hmov, IrOperandSet.two]
    · simp [hmov, IrOperandSet.three]
  have horder : ¬ (((i.ir w).set.op 0).id = ((i.ir w).set.op 1).id ∧
      irOpcodeFlags (i.ir w).opcode &&& irDestNeqSrc ≠ 0) := by
    rintro ⟨hid, hflags⟩
    by_cases hmov : i.op = .mov
    · refine i.mov_ne hmov (Fin.ext ?_)
      simpa [TwoOp.ir, hmov, IrOperandSet.op, IrOperandSet.two] using hid
    · refine hflags ?_
      show irOpcodeFlags (irOpi 1 w.ir (irGroupOf i.op)) &&& irDestNeqSrc = 0
      revert hmov
      cases i.op <;> cases w <;> decide
  rw [i64IrToRaw, if_neg hcount, if_neg horder, i64IrOpcodeConv_ir]
  by_cases hno : i.NoOpcode w
  · rw [if_pos hno, if_pos hno]
    rfl
  · rw [if_neg hno, if_neg hno]
    rfl

/-- The instructions are no invalid ones. -/
lemma ir_opcode_ne (w : OpWidth) (i : TwoOp) : (i.ir w).opcode ≠ irInvalidOpcode := by
  show irOpi 1 w.ir (irGroupOf i.op) ≠ irInvalidOpcode
  cases i.op <;> cases w <;> decide

section Pass

variable (guest : MteArch) (w : OpWidth)

lemma irToRawBody_ir (s : IrToRaw) (i : TwoOp) :
    irToRawBody ⟨guest, .intel64⟩ s (i.ir w) = if i.NoOpcode w then .error .asrt
      else .ok ⟨(i64Emit64 (i64Instr (rmROpcode i.op (TwoOp.wide w)).1)
        (regOperands (TwoOp.wide w) i.d i.s) fun _ => 0).2, s.out ++ i.bytes w⟩ := by
  have hhost : (⟨guest, .intel64⟩ : IrContext).irToHost (i.ir w) s.hostLen =
      i64IrToRaw (i.ir w) s.hostLen := rfl
  rw [irToRawBody, if_neg (ir_opcode_ne w i), irToRawEmit, hhost, i64IrToRaw_ir]
  by_cases hno : i.NoOpcode w
  · rw [if_pos hno, if_pos hno]
    rfl
  · rw [if_neg hno, if_neg hno]
    rfl

/-- The loop over instructions with an opcode writes the bytes of each. -/
lemma foldlM_irToRawBody {is : List TwoOp} (h : ∀ i ∈ is, ¬ i.NoOpcode w) (s : IrToRaw) :
    ∃ hostLen, (is.map (TwoOp.ir w)).foldlM (irToRawBody ⟨guest, .intel64⟩) s =
      .ok ⟨hostLen, s.out ++ is.flatMap (TwoOp.bytes w)⟩ := by
  induction is generalizing s with
  | nil => exact ⟨s.hostLen, by simp [pure, Except.pure]⟩
  | cons i is ih =>
    obtain ⟨hostLen, hrest⟩ := ih (fun j hj => h j (List.mem_cons_of_mem _ hj))
      ⟨(i64Emit64 (i64Instr (rmROpcode i.op (TwoOp.wide w)).1)
        (regOperands (TwoOp.wide w) i.d i.s) fun _ => 0).2, s.out ++ i.bytes w⟩
    refine ⟨hostLen, ?_⟩
    rw [List.map_cons, List.foldlM_cons, irToRawBody_ir, if_neg (h i List.mem_cons_self),
      List.flatMap_cons, ← List.append_assoc]
    exact hrest

/-- **The bytes of a block.** -/
lemma tblockIrToRaw_map {is : List TwoOp} (h : ∀ i ∈ is, ¬ i.NoOpcode w) {block : Tblock}
    (hblock : block.ir = is.map (TwoOp.ir w)) :
    ∃ block' count, tblockIrToRaw ⟨guest, .intel64⟩ block =
      .ok (block', is.flatMap (TwoOp.bytes w), count) := by
  obtain ⟨hostLen, hloop⟩ := foldlM_irToRawBody guest w h ⟨0, []⟩
  refine ⟨{ block with tables := { block.tables with spillCnt := 0 } }, block.irCnt + 0, ?_⟩
  rw [tblockIrToRaw_eq, hblock, hloop]
  rfl

end Pass

end AxVirtLayer
