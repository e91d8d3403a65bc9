import AxVirtLayer.I64.Memory
import AxVirtLayer.Lib.Bits

/-!
# Memory operands with an index

For a two-operand opcode with a ModRM byte, a register and a memory operand
`[base + index * scale + disp]`, the bytes of the emitter decode to the instruction that was
asked for exactly under the conditions of `EncodesSib`: `sibOperand_decodes_iff`.
-/

namespace AxVirtLayer

open Lib.Intel64

/-! ## The SIB byte -/

/-- A SIB byte and its displacement: a base of `101` without a displacement is no base. -/
lemma takeSib_dispBytes (addr32 : Bool) (rex : Rex) (kind : DispKind) {scale index base : ℕ}
    (hs : scale < 4) (hi : index < 8) (hb : base < 8) {disp : BitVec 32}
    (h : DispInRange kind disp) :
    takeSib addr32 rex kind.mode.toNat (fieldsByte scale index base :: dispBytes kind disp) =
      if base = 5 ∧ kind = .none then none
      else some (⟨addr32, .reg (extend rex.b base),
        if extend rex.x index = 4 then none else some (extend rex.x index, scale),
        dispOf kind disp⟩, []) := by
  obtain ⟨htop, hmid, hlow⟩ := fields_fieldsByte hs hi hb
  rw [takeSib, htop, hmid, hlow]
  by_cases h5 : base = 5 ∧ kind = .none
  · obtain ⟨rfl, rfl⟩ := h5
    rfl
  · have hmode : ¬ (base = 5 ∧ kind.mode.toNat = 0) := by
      rintro ⟨hbase, hzero⟩
      refine h5 ⟨hbase, ?_⟩
      cases kind
      · rfl
      · cases hzero
      · cases hzero
    rw [if_neg h5]
    simp only [if_neg hmode, takeDisp_dispBytes h]
    rfl

/-- A memory operand `[base + index * scale]`, with or without a displacement; `value` is the
whole value of the operand, and `scale` the logarithm of the scale. -/
structure SibRef where
  base : Fin 16
  index : Fin 16
  scale : Fin 4
  kind : DispKind
  width : OpWidth
  value : BitVec 64
  index_ne : index ≠ 4
  index_eq : (I64OperandMem.ofValue value).indexId = i64RegId index
  scale_eq : (I64OperandMem.ofValue value).scaleId = i64SibScale scale
  inRange : DispInRange kind (I64OperandMem.ofValue value).disp

namespace SibRef

variable (mem : SibRef) (opcode : ModrmOpcode) (reg : Fin 16)

/-- The displacement of the operand. -/
def disp : BitVec 32 := (I64OperandMem.ofValue mem.value).disp

/-- The operands of the emitter. -/
def operands : I64Operands :=
  memOperands opcode true mem.kind mem.width reg mem.base mem.value

/-- The instruction that is asked for. -/
def insn (addr32 : Bool) : Insn :=
  ⟨opcode.op, sizeOfWide opcode.wide, opcode.toReg, .low reg,
    .mem ⟨addr32, .reg mem.base, some (mem.index, mem.scale), dispOf mem.kind mem.disp⟩⟩

end SibRef

lemma i64SibScale_and_three : ∀ scale < 4, i64SibScale scale &&& 3 = BitVec.ofNat 8 scale := by
  decide

/-- The operand whose fields the SIB byte of the emitter holds, the first one: as base, index
and scale. -/
def sibFields (opcode : ModrmOpcode) (reg : Fin 16) (mem : SibRef) : ℕ × ℕ × ℕ :=
  if opcode.toReg then (reg, 0, 0) else (mem.base, mem.index, mem.scale)

/-- The SIB byte of the emitter. -/
lemma sibResolve_eq (opcode : ModrmOpcode) (reg : Fin 16) (mem : SibRef) :
    i64SibResolve (I64Operands.first (mem.operands opcode reg)).id
        (.ofValue (I64Operands.first (mem.operands opcode reg)).value)
        (i64SumCalc opcode.desc (mem.operands opcode reg)) =
      fieldsByte (sibFields opcode reg mem).2.2 ((sibFields opcode reg mem).2.1 % 8)
        ((sibFields opcode reg mem).1 % 8) := by
  have hbits := memOperands_sum opcode true mem.kind mem.width mem.value reg.2 mem.base.2
  by_cases h : opcode.toReg = true
  · have hfirst : I64Operands.first (mem.operands opcode reg) =
        regOperand (regWidth opcode.wide) reg := by
      simp [SibRef.operands, memOperands, h]
    rw [hfirst, sibFields, if_pos h]
    have hzero : (I64OperandMem.ofValue 0).indexId = i64RegId 0 ∧
        (I64OperandMem.ofValue 0).scaleId &&& 3 = BitVec.ofNat 8 0 := by
      decide
    exact i64SibResolve_eq hbits rfl reg.2 (show 0 < 16 by decide) (show 0 < 4 by decide)
      hzero.1 hzero.2
  · have hfirst : I64Operands.first (mem.operands opcode reg) =
        memOperand true mem.kind mem.width mem.base mem.value := by
      simp [SibRef.operands, memOperands, h]
    rw [hfirst, sibFields, if_neg h]
    refine i64SibResolve_eq hbits rfl mem.base.2 mem.index.2 mem.scale.2 mem.index_eq ?_
    exact (congrArg (· &&& 3) mem.scale_eq).trans (i64SibScale_and_three _ mem.scale.2)

/-- When the emitter encodes a memory operand with an index. -/
structure EncodesSib (opcode : ModrmOpcode) (reg : Fin 16) (mem : SibRef) : Prop where
  /-- `rBP` and `r13` need a displacement. -/
  base_ne_five : mem.kind = .none → mem.base.val % 8 ≠ 5
  /-- A SIB byte that is zero is squeezed out. -/
  sib_ne_zero : ¬ (mem.scale = 0 ∧ mem.index.val % 8 = 0 ∧ mem.base.val % 8 = 0)
  /-- The fields of the SIB byte and the displacement are taken from the first operand. -/
  first_operand : opcode.toReg = true → reg.val % 8 = mem.base.val % 8 ∧
    mem.index.val % 8 = 0 ∧ mem.scale = 0 ∧ (mem.kind ≠ .none → mem.disp = 0)
  /-- `REX.X` is the extension of the base. -/
  index_ext : if opcode.wide then regExt mem.index = regExt mem.base else mem.index.val < 8
  rex : RexFits opcode reg mem.base

/-- The memory part of an instruction whose ModRM byte asks for a SIB byte. -/
lemma takeMem_sib (addr32 : Bool) (rex : Rex) {mod mid : ℕ} (ht : mod < 4) (hm : mid < 8)
    (bs : List Byte) :
    takeMem addr32 rex (fieldsByte mod mid 4) bs = takeSib addr32 rex mod bs := by
  obtain ⟨htop, -, hlow⟩ := fields_fieldsByte ht hm (show 4 < 8 by decide)
  rw [takeMem, htop, hlow, if_pos rfl]

/-- The fields taken from the first operand are those of the memory operand. -/
lemma sibFields_iff (opcode : ModrmOpcode) (reg : Fin 16) (mem : SibRef) :
    ((sibFields opcode reg mem).1 % 8 = mem.base.val % 8 ∧
      (sibFields opcode reg mem).2.1 % 8 = mem.index.val % 8 ∧
      (sibFields opcode reg mem).2.2 = mem.scale.val ∧
      (opcode.toReg = true → mem.kind ≠ .none → mem.disp = 0)) ↔
    (opcode.toReg = true → reg.val % 8 = mem.base.val % 8 ∧ mem.index.val % 8 = 0 ∧
      mem.scale = 0 ∧ (mem.kind ≠ .none → mem.disp = 0)) := by
  rw [sibFields]
  cases opcode.toReg
  · simp
  · rw [if_pos rfl]
    constructor
    · rintro ⟨hbase, hindex, hscale, hdisp⟩ -
      exact ⟨hbase, hindex.symm, Fin.ext hscale.symm, hdisp rfl⟩
    · intro h
      obtain ⟨hbase, hindex, hscale, hdisp⟩ := h rfl
      exact ⟨hbase, hindex.symm, (congrArg Fin.val hscale).symm, fun _ => hdisp⟩

/-- An index field that is not `100` is an index. -/
lemma index_eq_iff {idx index s scale : ℕ} (hne : index ≠ 4) :
    (if idx = 4 then none else some (idx, s)) = some (index, scale) ↔ idx = index ∧ s = scale := by
  constructor
  · intro h
    split at h
    · cases h
    · cases h
      exact ⟨rfl, rfl⟩
  · rintro ⟨rfl, rfl⟩
    rw [if_neg hne]

/-- The extension of the index is the one of the base. -/
lemma memRex_x_iff (opcode : ModrmOpcode) (reg base index : ℕ) :
    (if opcode.wide then (memRex opcode true reg base).x = regExt index else index < 8) ↔
      if opcode.wide then regExt index = regExt base else index < 8 := by
  have hx : (memRex opcode true reg base).x = regExt base := by
    rw [memRex]
    split
    · rfl
    · rfl
  rw [hx]
  cases opcode.wide
  · rfl
  · exact eq_comm

/-- **Memory operands with an index.**  The bytes of the emitter decode to the instruction asked
for, with nothing left over, exactly if the operand is one of those `EncodesSib`
describes. -/
theorem sibOperand_decodes_iff (opcode : ModrmOpcode) (reg : Fin 16) (mem : SibRef)
    (buf : ℕ → BitVec 8) :
    (∃ addr32, decode (i64Bytes (i64Emit64 (i64Instr opcode.1) (mem.operands opcode reg) buf)) =
      some (mem.insn opcode reg addr32, [])) ↔ EncodesSib opcode reg mem := by
  have hr : reg.val % 8 < 8 := Nat.mod_lt _ (by decide)
  have ht : mem.kind.mode.toNat < 3 := by cases mem.kind <;> decide
  have hfields : (sibFields opcode reg mem).2.2 < 4 ∧ (sibFields opcode reg mem).2.1 % 8 < 8 ∧
      (sibFields opcode reg mem).1 % 8 < 8 := by
    refine ⟨?_, Nat.mod_lt _ (by decide), Nat.mod_lt _ (by decide)⟩
    rw [sibFields]
    split
    · exact show 0 < 4 by decide
    · exact mem.scale.2
  obtain ⟨hs, hi, hb⟩ := hfields
  have hmodrm : fieldsByte mem.kind.mode.toNat (reg.val % 8) 4 ≠ 0#8 := by
    intro h
    obtain ⟨-, -, h4⟩ := (fieldsByte_eq_zero (ht.trans (by decide)) hr (by decide)).1 h
    cases h4
  have hfit := sibFields_iff opcode reg mem
  have hsib := sibResolve_eq opcode reg mem
  rw [SibRef.operands] at hsib ⊢
  rw [decode_memOperands opcode true mem.kind mem.width mem.value reg.2 mem.base.2 buf, hsib,
    memOperands_disp, if_pos rfl, ← SibRef.disp, nz_of_ne hmodrm, List.singleton_append,
    takeOperands_mem _ _ _ ht hr (show 4 < 8 by decide), takeMem_sib _ _ (ht.trans (by decide)) hr]
  by_cases hz : (sibFields opcode reg mem).2.2 = 0 ∧ (sibFields opcode reg mem).2.1 % 8 = 0 ∧
      (sibFields opcode reg mem).1 % 8 = 0
  · rw [(fieldsByte_eq_zero hs hi hb).2 hz, nz_zero, List.nil_append, takeSib_dispBytes_none]
    constructor
    · rintro ⟨addr32, h⟩
      cases h
    · intro h
      obtain ⟨hs0, hi0, hb0⟩ := hz
      obtain ⟨hbase, hindex, hscale, -⟩ := hfit.2 h.first_operand
      exact absurd ⟨Fin.ext (hscale.symm.trans hs0), hindex.symm.trans hi0, hbase.symm.trans hb0⟩
        h.sib_ne_zero
  have hrange : DispInRange mem.kind (if opcode.toReg then 0 else mem.disp) := by
    split
    · exact dispInRange_zero _
    · exact mem.inRange
  rw [nz_of_ne (mt (fieldsByte_eq_zero hs hi hb).1 hz), List.singleton_append,
    takeSib_dispBytes _ _ _ hs hi hb hrange]
  by_cases h5 : (sibFields opcode reg mem).1 % 8 = 5 ∧ mem.kind = .none
  · rw [if_pos h5]
    constructor
    · rintro ⟨addr32, h⟩
      cases h
    · intro h
      obtain ⟨hbase, -⟩ := hfit.2 h.first_operand
      exact absurd (hbase.symm.trans h5.1) (h.base_ne_five h5.2)
  rw [if_neg h5, emittedRex, Option.map_some, sizeOf_emitted _ _ _ _ (memRex_w _ _ _ _)]
  simp only [SibRef.insn, Option.some.injEq, Prod.mk.injEq, Insn.mk.injEq, RM.mem.injEq,
    Mem.mk.injEq, Base.reg.injEq, true_and, and_true, regOf_emitted_iff reg.2,
    extend_emitted_iff Rex.b hb mem.base.2 _ _ rfl, dispOf_first_iff,
    index_eq_iff (fun h => mem.index_ne (Fin.ext h)),
    extend_emitted_iff Rex.x hi mem.index.2 _ _ rfl, memRex_x_iff]
  constructor
  · rintro ⟨-, hreg, -, ⟨hbase, hbaseExt⟩, ⟨⟨hindex, hindexExt⟩, hscale⟩, hdisp⟩
    refine ⟨fun hk hmem => h5 ⟨hbase.trans hmem, hk⟩, ?_, hfit.1 ⟨hbase, hindex, hscale, hdisp⟩,
      hindexExt, (rexFits_iff opcode true reg mem.base).1 ⟨hreg, hbaseExt⟩⟩
    rintro ⟨hs0, hi0, hb0⟩
    exact hz ⟨hscale.trans (congrArg Fin.val hs0), hindex.trans hi0, hbase.trans hb0⟩
  · intro h
    obtain ⟨hbase, hindex, hscale, hdisp⟩ := hfit.2 h.first_operand
    obtain ⟨hreg, hbaseExt⟩ := (rexFits_iff opcode true reg mem.base).2 h.rex
    exact ⟨_, hreg, rfl, ⟨hbase, hbaseExt⟩, ⟨⟨hindex, h.index_ext⟩, hscale⟩, hdisp⟩

/-- `ADD [rBX + r9 * 2], rAX` is emitted with the extension bit of its base for its index. -/
theorem sibOperand_not_always : ¬ ∀ (opcode : ModrmOpcode) (reg : Fin 16) (mem : SibRef)
    (buf : ℕ → BitVec 8), ∃ addr32,
    decode (i64Bytes (i64Emit64 (i64Instr opcode.1) (mem.operands opcode reg) buf)) =
      some (mem.insn opcode reg addr32, []) := by
  intro h
  obtain ⟨addr32, hadd⟩ := h ⟨0x01, by decide⟩ 0
    ⟨3, 9, 1, .none, .w64, 0x8931, by decide, by decide, by decide, nofun⟩ fun _ => 0
  revert addr32
  decide +kernel

end AxVirtLayer
