import AxVirtLayer.I64.Modrm

/-!
# Memory operands without an index

For a two-operand opcode with a ModRM byte, a register and a memory operand `[base + disp]`,
the bytes of the emitter decode to the instruction that was asked for exactly under the
conditions of `EncodesMem`: `memoryOperand_decodes_iff`.
-/

namespace AxVirtLayer

open Lib.Intel64

/-! ## The displacement -/

/-- The displacement the instruction adds to an address. -/
def dispOf (kind : DispKind) (disp : BitVec 32) : BitVec 64 :=
  match kind with
  | .none => 0
  | _ => disp.signExtend 64

/-- The displacement fits its encoding. -/
def DispInRange (kind : DispKind) (disp : BitVec 32) : Prop :=
  kind = .disp8 → -128 ≤ disp.toInt ∧ disp.toInt < 128

lemma dispInRange_zero (kind : DispKind) : DispInRange kind 0 := by
  intro _
  decide

/-- A byte of the displacement. -/
lemma and_setWidth_eq_extractLsb (disp : BitVec 32) (k : ℕ) :
    ((disp >>> k) &&& 0xff#32).setWidth 8 = disp.extractLsb' k 8 := by
  apply BitVec.eq_of_toNat_eq
  simp only [BitVec.toNat_setWidth, BitVec.toNat_and, BitVec.toNat_ushiftRight,
    BitVec.extractLsb'_toNat]
  rw [show (0xff#32).toNat = 2 ^ 8 - 1 from rfl, Nat.and_two_pow_sub_one_eq_mod, Nat.mod_mod]

/-- The four displacement bytes put together again. -/
lemma append_bytes (disp : BitVec 32) :
    ((disp >>> 24) &&& 0xff#32).setWidth 8 ++ ((disp >>> 16) &&& 0xff#32).setWidth 8 ++
      ((disp >>> 8) &&& 0xff#32).setWidth 8 ++ (disp &&& 0xff#32).setWidth 8 = disp := by
  have hlow : (disp &&& 0xff#32).setWidth 8 = disp.extractLsb' 0 8 :=
    and_setWidth_eq_extractLsb disp 0
  rw [and_setWidth_eq_extractLsb, and_setWidth_eq_extractLsb, and_setWidth_eq_extractLsb, hlow,
    BitVec.extractLsb'_append_extractLsb'_eq_extractLsb' (by decide),
    BitVec.extractLsb'_append_extractLsb'_eq_extractLsb' (by decide),
    BitVec.extractLsb'_append_extractLsb'_eq_extractLsb' (by decide)]
  simp

/-- A displacement in the range of a byte is its low byte, sign extended. -/
lemma low_byte_signExtend {disp : BitVec 32} (h : -128 ≤ disp.toInt ∧ disp.toInt < 128) :
    ((disp &&& 0xff#32).setWidth 8).signExtend 64 = disp.signExtend 64 := by
  have hnat : ((disp &&& 0xff#32).setWidth 8).toNat = disp.toNat % 256 := by
    rw [BitVec.toNat_setWidth, BitVec.toNat_and, show (0xff#32).toNat = 2 ^ 8 - 1 from rfl,
      Nat.and_two_pow_sub_one_eq_mod, Nat.mod_mod]
  have hlow : ((disp &&& 0xff#32).setWidth 8).toInt = disp.toInt := by
    rw [BitVec.toInt_eq_toNat_cond, hnat]
    rw [BitVec.toInt_eq_toNat_cond] at h ⊢
    have := disp.isLt
    split <;> split at h <;> split <;> omega
  apply BitVec.eq_of_toInt_eq
  rw [BitVec.toInt_signExtend_of_le (by decide), BitVec.toInt_signExtend_of_le (by decide)]
  exact hlow

/-- The displacement bytes of the emitter decode to the displacement. -/
lemma takeDisp_dispBytes {kind : DispKind} {disp : BitVec 32} (h : DispInRange kind disp) :
    takeDisp kind.mode.toNat (dispBytes kind disp) = some (dispOf kind disp, []) := by
  cases kind
  case none => rfl
  case disp8 =>
    show some (((disp &&& 0xff#32).setWidth 8).signExtend 64, []) = some (disp.signExtend 64, [])
    rw [low_byte_signExtend (h rfl)]
  case disp32 =>
    exact congrArg (fun d : BitVec 32 => some (d.signExtend 64, [])) (append_bytes disp)

/-- Two displacements of the same kind are equal where they are added to an address. -/
lemma dispOf_eq_zero_iff {kind : DispKind} {disp : BitVec 32} :
    dispOf kind 0 = dispOf kind disp ↔ (kind ≠ .none → disp = 0) := by
  have hne : (0 : BitVec 32).signExtend 64 = disp.signExtend 64 ↔ disp = 0 := by
    constructor
    · intro h
      have heq := congrArg BitVec.toInt h
      rw [BitVec.toInt_signExtend_of_le (by decide), BitVec.toInt_signExtend_of_le (by decide)]
        at heq
      exact (BitVec.eq_of_toInt_eq heq).symm
    · rintro rfl
      rfl
  cases kind
  case none => simp [dispOf]
  case disp8 => simpa [dispOf] using hne
  case disp32 => simpa [dispOf] using hne

/-! ## The memory operand -/

/-- Displacement bytes alone are never a SIB byte with its displacement. -/
lemma takeSib_dispBytes_none (addr32 : Bool) (rex : Rex) (kind : DispKind) (disp : BitVec 32) :
    takeSib addr32 rex kind.mode.toNat (dispBytes kind disp) = none := by
  cases kind
  case none => rfl
  case disp8 => simp [dispBytes, takeSib, DispKind.mode, takeDisp, takeDisp8]
  case disp32 => simp [dispBytes, takeSib, DispKind.mode, takeDisp, takeDisp32]

/-- The memory part of an instruction with a base but no index: a base of `100` asks for a SIB
byte, and a base of `101` without a displacement is `RIP`. -/
lemma takeMem_dispBytes (addr32 : Bool) (rex : Rex) (kind : DispKind) {mid low : ℕ}
    (hm : mid < 8) (hl : low < 8) {disp : BitVec 32} (h : DispInRange kind disp) :
    takeMem addr32 rex (fieldsByte kind.mode.toNat mid low) (dispBytes kind disp) =
      if low = 4 ∨ (low = 5 ∧ kind = .none) then none
      else some (⟨addr32, .reg (extend rex.b low), none, dispOf kind disp⟩, []) := by
  have ht : kind.mode.toNat < 4 := by cases kind <;> decide
  obtain ⟨htop, -, hlow⟩ := fields_fieldsByte ht hm hl
  rw [takeMem, htop, hlow]
  by_cases h4 : low = 4
  · rw [if_pos h4, if_pos (Or.inl h4), takeSib_dispBytes_none]
  rw [if_neg h4]
  by_cases h5 : low = 5 ∧ kind = .none
  · obtain ⟨rfl, rfl⟩ := h5
    rfl
  · have hmode : ¬ (low = 5 ∧ kind.mode.toNat = 0) := by
      rintro ⟨hlow5, hzero⟩
      refine h5 ⟨hlow5, ?_⟩
      cases kind
      · rfl
      · cases hzero
      · cases hzero
    rw [if_neg hmode, if_neg (not_or.2 ⟨h4, h5⟩), takeDisp_dispBytes h]
    rfl

/-- The part of an instruction after its opcode, with a memory operand. -/
lemma takeOperands_mem (p : Prefixes) (rex : Option Rex) (row : Row) {mod mid low : ℕ}
    (ht : mod < 3) (hm : mid < 8) (hl : low < 8) (bs : List Byte) :
    takeOperands p rex row (fieldsByte mod mid low :: bs) =
      (takeMem p.addrSize (rexBits rex) (fieldsByte mod mid low) bs).map fun (mem, rest) =>
        (⟨row.op, Lib.Intel64.sizeOf p rex row, row.toReg,
          regOf (Lib.Intel64.sizeOf p rex row) rex (extend (rexBits rex).r mid), .mem mem⟩,
          rest) := by
  obtain ⟨htop, hmid, -⟩ := fields_fieldsByte (ht.trans (by decide)) hm hl
  rw [takeOperands, takeRM, htop, hmid, if_neg (by omega), Option.map_map]
  rfl

/-- A memory operand `[base]`, `[base + disp8]` or `[base + disp32]` with 32-bit or 64-bit
addresses; `value` is the whole value of the operand. -/
structure MemRef where
  base : Fin 16
  kind : DispKind
  value : BitVec 64
  addr32 : Bool
  inRange : DispInRange kind (I64OperandMem.ofValue value).disp

namespace MemRef

variable (mem : MemRef) (opcode : ModrmOpcode) (reg : Fin 16)

/-- The displacement of the operand. -/
def disp : BitVec 32 := (I64OperandMem.ofValue mem.value).disp

/-- The width of the addresses. -/
def width : OpWidth := if mem.addr32 then .w32 else .w64

/-- The operands of the emitter. -/
def operands : I64Operands :=
  memOperands opcode false mem.kind mem.width reg mem.base mem.value

/-- The instruction that is asked for. -/
def insn : Insn :=
  ⟨opcode.op, sizeOfWide opcode.wide, opcode.toReg, .low reg,
    .mem ⟨mem.addr32, .reg mem.base, none, dispOf mem.kind mem.disp⟩⟩

end MemRef

/-- The register operands of an opcode and a memory operand that the prefixes of the emitter
name: without a REX prefix the first four registers and the first eight bases, with one the
operands of the same half, or any two if the memory operand comes second. -/
def RexFits (opcode : ModrmOpcode) (reg base : ℕ) : Prop :=
  if opcode.wide then opcode.toReg = false → regExt reg = regExt base
  else reg < 4 ∧ base < 8

/-- When the emitter encodes a memory operand without an index. -/
structure EncodesMem (opcode : ModrmOpcode) (reg : Fin 16) (mem : MemRef) : Prop where
  /-- `rSP` and `r12` need a SIB byte. -/
  base_ne_four : mem.base.val % 8 ≠ 4
  /-- `rBP` and `r13` need a displacement. -/
  base_ne_five : mem.kind = .none → mem.base.val % 8 ≠ 5
  /-- A ModRM byte that is zero is squeezed out. -/
  modrm_ne_zero : ¬ (mem.kind = .none ∧ reg.val % 8 = 0 ∧ mem.base.val % 8 = 0)
  /-- Only the forms `r/m, r` other than `MOV` have the flag of the legacy prefixes. -/
  address_size : mem.addr32 = true → opcode.toReg = false ∧ opcode.op ≠ .mov
  /-- The displacement is taken from the first operand. -/
  displacement : opcode.toReg = true → mem.kind ≠ .none → mem.disp = 0
  rex : RexFits opcode reg mem.base

/-- The prefixes of the emitter name the register and the base exactly if they fit. -/
lemma rexFits_iff (opcode : ModrmOpcode) (sib : Bool) (reg base : ℕ) :
    ((if opcode.wide then (memRex opcode sib reg base).r = regExt reg else reg < 4) ∧
      (if opcode.wide then (memRex opcode sib reg base).b = regExt base else base < 8)) ↔
      RexFits opcode reg base := by
  rw [RexFits, memRex]
  cases opcode.wide
  · rfl
  · cases opcode.toReg
    · constructor
      · rintro ⟨-, hb⟩ -
        exact hb
      · intro h
        exact ⟨(h rfl).symm, h rfl⟩
    · exact ⟨fun _ h => (Bool.noConfusion h), fun _ => ⟨rfl, rfl⟩⟩

/-- The displacement the emitter writes is that of the first operand. -/
lemma memOperands_disp (opcode : ModrmOpcode) (sib : Bool) (kind : DispKind) (width : OpWidth)
    (reg base : ℕ) (value : BitVec 64) :
    (I64OperandMem.ofValue (I64Operands.first
      (memOperands opcode sib kind width reg base value)).value).disp =
      if opcode.toReg then 0 else (I64OperandMem.ofValue value).disp := by
  rw [memOperands]
  by_cases h : opcode.toReg = true
  · rw [if_pos h, if_pos h]
    show (I64OperandMem.ofValue 0).disp = 0
    decide
  · rw [if_neg h, if_neg h]
    rfl

/-- The displacement is kept if it is taken from the memory operand, or is zero. -/
lemma dispOf_first_iff (toReg : Bool) (kind : DispKind) (disp : BitVec 32) :
    dispOf kind (if toReg then 0 else disp) = dispOf kind disp ↔
      (toReg = true → kind ≠ .none → disp = 0) := by
  cases toReg
  · simp
  · simpa using dispOf_eq_zero_iff

/-- The address size prefix is written if it is asked for and the opcode has the flag. -/
lemma addrSize_iff (mem : MemRef) (opcode : ModrmOpcode) :
    decide (emittedLeg opcode mem.width = 0x67#8) = mem.addr32 ↔
      (mem.addr32 = true → opcode.toReg = false ∧ opcode.op ≠ .mov) := by
  rw [emittedLeg, MemRef.width]
  cases mem.addr32
  · cases opcode.toReg <;> simp [legOf]
  · cases opcode.toReg <;> by_cases h : opcode.op = .mov <;> simp [h, legOf]

/-- **Memory operands without an index.**  The bytes of the emitter decode to the instruction
asked for, with nothing left over, exactly if the operand is one of those `EncodesMem`
describes. -/
theorem memoryOperand_decodes_iff (opcode : ModrmOpcode) (reg : Fin 16) (mem : MemRef)
    (buf : ℕ → BitVec 8) :
    decode (i64Bytes (i64Emit64 (i64Instr opcode.1) (mem.operands opcode reg) buf)) =
      some (mem.insn opcode reg, []) ↔ EncodesMem opcode reg mem := by
  have hbits := memOperands_sum opcode false mem.kind mem.width mem.value reg.2 mem.base.2
  have hr : reg.val % 8 < 8 := Nat.mod_lt _ (by decide)
  have hb : mem.base.val % 8 < 8 := Nat.mod_lt _ (by decide)
  have ht : mem.kind.mode.toNat < 3 := by cases mem.kind <;> decide
  rw [MemRef.operands, decode_memOperands opcode false mem.kind mem.width mem.value reg.2
    mem.base.2 buf, i64SibResolve_none hbits rfl, nz_zero, List.nil_append, memOperands_disp,
    if_neg Bool.false_ne_true, ← MemRef.disp]
  by_cases hz : mem.kind = .none ∧ reg.val % 8 = 0 ∧ mem.base.val % 8 = 0
  · obtain ⟨hk, hr0, hb0⟩ := hz
    rw [hk, hr0, hb0]
    constructor
    · intro h
      cases h
    · intro h
      exact absurd ⟨hk, hr0, hb0⟩ h.modrm_ne_zero
  have hne : fieldsByte mem.kind.mode.toNat (reg.val % 8) (mem.base.val % 8) ≠ 0#8 := by
    intro h
    obtain ⟨h₁, h₂, h₃⟩ := (fieldsByte_eq_zero (ht.trans (by decide)) hr hb).1 h
    refine hz ⟨?_, h₂, h₃⟩
    revert h₁
    cases mem.kind <;> simp [DispKind.mode]
  have hrange : DispInRange mem.kind (if opcode.toReg then 0 else mem.disp) := by
    split
    · exact dispInRange_zero _
    · exact mem.inRange
  rw [nz_of_ne hne, List.singleton_append, takeOperands_mem _ _ _ ht hr hb,
    takeMem_dispBytes _ _ _ hr hb hrange]
  by_cases h45 : mem.base.val % 8 = 4 ∨ (mem.base.val % 8 = 5 ∧ mem.kind = .none)
  · rw [if_pos h45]
    constructor
    · intro h
      cases h
    · intro h
      rcases h45 with h4 | ⟨h5, hk⟩
      · exact absurd h4 h.base_ne_four
      · exact absurd h5 (h.base_ne_five hk)
  rw [if_neg h45, emittedRex, Option.map_some, sizeOf_emitted _ _ _ _ (memRex_w _ _ _ _)]
  simp only [MemRef.insn, Option.some.injEq, Prod.mk.injEq, Insn.mk.injEq, RM.mem.injEq,
    Mem.mk.injEq, Base.reg.injEq, true_and, and_true, regOf_emitted_iff reg.2,
    extend_emitted_iff Rex.b hb mem.base.2 _ _ rfl, dispOf_first_iff, addrSize_iff]
  constructor
  · rintro ⟨hreg, haddr, hbase, hdisp⟩
    exact ⟨fun h4 => h45 (Or.inl h4), fun hk h5 => h45 (Or.inr ⟨h5, hk⟩), hz, haddr, hdisp,
      (rexFits_iff opcode false reg mem.base).1 ⟨hreg, hbase⟩⟩
  · intro h
    obtain ⟨hreg, hbase⟩ := (rexFits_iff opcode false reg mem.base).2 h.rex
    exact ⟨hreg, h.address_size, hbase, h.displacement⟩

/-- `ADD [rAX], rAX` is emitted without its ModRM byte, which is zero. -/
theorem memoryOperand_not_always : ¬ ∀ (opcode : ModrmOpcode) (reg : Fin 16) (mem : MemRef)
    (buf : ℕ → BitVec 8),
    decode (i64Bytes (i64Emit64 (i64Instr opcode.1) (mem.operands opcode reg) buf)) =
      some (mem.insn opcode reg, []) := by
  intro h
  have haddRax := h ⟨0x01, by decide⟩ 0 ⟨0, .none, 0, false, dispInRange_zero _⟩ fun _ => 0
  revert haddRax
  decide +kernel

end AxVirtLayer
