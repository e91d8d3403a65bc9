import AxVirtLayer.Ir

/-!
# The MIPS32 guest

The decoder (`mips32_instr.h`), the translation of one word to the intermediate
representation and the register fetch (`mips32_ir.c`), and, as the reference to compare
the translation with, what a guest word means on the registers of the guest machine.

`asrt(0, ..)` ends the program; a function that can reach one returns `none` there.
-/

namespace AxVirtLayer

/-! ## Fields of a word -/

/-- `enum mips32_instr_type`. -/
inductive Mips32InstrType
  | R
  | I
  | J
deriving DecidableEq, Repr

/-- `_mips32_funct`. -/
def mips32Funct (instr : BitVec 32) : BitVec 32 := instr &&& 0x3f

/-- `_mips32_rd`. -/
def mips32Rd (instr : BitVec 32) : ℕ := ((instr >>> 11) &&& 0x1f).toNat

/-- `_mips32_rt`. -/
def mips32Rt (instr : BitVec 32) : ℕ := ((instr >>> 16) &&& 0x1f).toNat

/-- `_mips32_rs`. -/
def mips32Rs (instr : BitVec 32) : ℕ := ((instr >>> 21) &&& 0x1f).toNat

/-- `_mips32_opcode`. -/
def mips32Opcode (instr : BitVec 32) : BitVec 32 := (instr >>> 26) &&& 0x3f

/-- `_mips32_get_instr_type`. -/
def mips32GetInstrType (instr : BitVec 32) : Mips32InstrType :=
  if mips32Opcode instr = 0 then .R
  else if mips32Opcode instr ≠ 2 ∧ mips32Opcode instr ≠ 3 then .I
  else .J

lemma mips32_field_lt (x : BitVec 32) : (x &&& 0x1f).toNat < 32 := by
  rw [BitVec.toNat_and]
  exact Nat.lt_of_le_of_lt Nat.and_le_right (by decide)

lemma mips32Rd_lt (instr : BitVec 32) : mips32Rd instr < 32 := mips32_field_lt _

lemma mips32Rt_lt (instr : BitVec 32) : mips32Rt instr < 32 := mips32_field_lt _

lemma mips32Rs_lt (instr : BitVec 32) : mips32Rs instr < 32 := mips32_field_lt _

/-! ## Translation of a word -/

/-- `MIPS32_TO_IR_TABLE`: the opcode for a function code. -/
def mips32ToIrTable (funct : BitVec 32) : IrOpcode :=
  if funct = 0b100000 then irAddI32
  else if funct = 0b100101 then irOrI32
  else if funct = 0b100100 then irAndI32
  else if funct = 0b100010 then irSubI32
  else irInvalidOpcode

/-- The operands `rd`, `rs`, `rt` of an R-type word. -/
def mips32Operands (instr : BitVec 32) : IrOperandSet :=
  .three (.reg (mips32Rd instr)) (.reg (mips32Rs instr)) (.reg (mips32Rt instr))

/-- `mips32_raw_to_ir`. -/
def mips32RawToIr (instr : BitVec 32) : Option IrRawInstr :=
  match mips32GetInstrType instr with
  | .R => some ⟨mips32ToIrTable (mips32Funct instr), mips32Operands instr⟩
  | .I => none
  | .J => none

/-- `mips32_to_ir`: the instruction and the length of the word in bytes. -/
def mips32ToIr (instr : BitVec 32) : Option (IrRawInstr × ℕ) :=
  (mips32RawToIr instr).map fun buf => (buf, 4)

/-- `mips32_reg_fetch`: the registers a word names and its length in bytes. -/
def mips32RegFetch (instr : BitVec 32) : IrOperandSet × ℕ :=
  match mips32GetInstrType instr with
  | .R => if mips32Funct instr = 0 then (.zero, 4) else (mips32Operands instr, 4)
  | .I => (.zero, 4)
  | .J => (.zero, 4)

/-! ## The words of a block -/

/-- The function codes of `add`, `or`, `and` and `sub`. -/
def IsArithFunct (funct : BitVec 32) : Prop :=
  funct = 0b100000 ∨ funct = 0b100101 ∨ funct = 0b100100 ∨ funct = 0b100010

instance (funct : BitVec 32) : Decidable (IsArithFunct funct) :=
  inferInstanceAs (Decidable (_ ∨ _))

/-- An R-type word with one of the function codes `add`, `or`, `and`, `sub`. -/
def IsArith (instr : BitVec 32) : Prop :=
  mips32Opcode instr = 0 ∧ IsArithFunct (mips32Funct instr)

instance (instr : BitVec 32) : Decidable (IsArith instr) :=
  inferInstanceAs (Decidable (_ ∧ _))

/-- An R-type word. -/
def IsRType (instr : BitVec 32) : Prop := mips32Opcode instr = 0

instance (instr : BitVec 32) : Decidable (IsRType instr) :=
  inferInstanceAs (Decidable (_ = _))

/-- The word `NOP`. -/
def IsNop (instr : BitVec 32) : Prop := instr = 0

instance (instr : BitVec 32) : Decidable (IsNop instr) :=
  inferInstanceAs (Decidable (_ = _))

lemma IsArith.getInstrType {instr : BitVec 32} (h : IsArith instr) :
    mips32GetInstrType instr = .R := by
  simp [mips32GetInstrType, h.1]

lemma isRType_of_arith_or_nop {instr : BitVec 32} (h : IsArith instr ∨ IsNop instr) :
    IsRType instr := by
  rcases h with h | rfl
  · exact h.1
  · decide

lemma IsArith.funct_ne_zero {instr : BitVec 32} (h : IsArith instr) :
    mips32Funct instr ≠ 0 := by
  rcases h.2 with h | h | h | h <;> rw [h] <;> decide

lemma IsArith.not_isNop {instr : BitVec 32} (h : IsArith instr) : ¬ IsNop instr := by
  rintro rfl
  exact absurd h.funct_ne_zero (by decide)

/-- The other R-type words, `NOP` among them, have no entry in the table. -/
lemma mips32ToIr_skip {instr : BitVec 32} (h : IsRType instr) (harith : ¬ IsArith instr) :
    mips32ToIr instr = some (⟨irInvalidOpcode, mips32Operands instr⟩, 4) := by
  have htype : mips32GetInstrType instr = .R := if_pos h
  have hfunct : ¬ IsArithFunct (mips32Funct instr) := fun hfunct => harith ⟨h, hfunct⟩
  obtain ⟨hadd, hor, hand, hsub⟩ : _ ∧ _ ∧ _ ∧ _ := by
    simpa only [IsArithFunct, not_or] using hfunct
  have htable : mips32ToIrTable (mips32Funct instr) = irInvalidOpcode := by
    rw [mips32ToIrTable, if_neg hadd, if_neg hor, if_neg hand, if_neg hsub]
  rw [mips32ToIr, mips32RawToIr, htype, htable]
  rfl

lemma IsArith.toIr {instr : BitVec 32} (h : IsArith instr) :
    mips32ToIr instr =
      some (⟨mips32ToIrTable (mips32Funct instr), mips32Operands instr⟩, 4) := by
  simp [mips32ToIr, mips32RawToIr, h.getInstrType]

lemma IsArith.table_ne_invalid {instr : BitVec 32} (h : IsArith instr) :
    mips32ToIrTable (mips32Funct instr) ≠ irInvalidOpcode := by
  rcases h.2 with h | h | h | h <;> rw [h] <;> decide

/-! ## The guest machine -/

/-- The registers of the guest machine. -/
abbrev GuestFile := ℕ → BitVec 32

/-- The value a guest instruction reads: register 0 reads as zero. -/
def guestRead (ρ : GuestFile) (r : ℕ) : BitVec 32 := if r = 0 then 0 else ρ r

/-- The register file after a write: register 0 ignores writes. -/
def guestWrite (ρ : GuestFile) (r : ℕ) (v : BitVec 32) : GuestFile :=
  if r = 0 then ρ else Function.update ρ r v

/-- The result of an arithmetic word on its two operands, modulo `2 ^ 32`. -/
def guestAlu (funct a b : BitVec 32) : Option (BitVec 32) :=
  if funct = 0b100000 then some (a + b)
  else if funct = 0b100101 then some (a ||| b)
  else if funct = 0b100100 then some (a &&& b)
  else if funct = 0b100010 then some (a - b)
  else none

/-- The effect of a word on the guest registers. -/
def guestExec (ρ : GuestFile) (instr : BitVec 32) : GuestFile :=
  if mips32Opcode instr = 0 then
    match guestAlu (mips32Funct instr) (guestRead ρ (mips32Rs instr))
        (guestRead ρ (mips32Rt instr)) with
    | some v => guestWrite ρ (mips32Rd instr) v
    | none => ρ
  else ρ

lemma guestExec_nop (ρ : GuestFile) : guestExec ρ 0 = ρ := by
  simp [guestExec, guestAlu, mips32Funct]

lemma guestRead_write_self {ρ : GuestFile} {r : ℕ} (hr : r ≠ 0) (v : BitVec 32) :
    guestRead (guestWrite ρ r v) r = v := by
  simp [guestRead, guestWrite, hr]

lemma guestRead_write_of_ne {ρ : GuestFile} {r s : ℕ} (h : s ≠ r) (v : BitVec 32) :
    guestRead (guestWrite ρ r v) s = guestRead ρ s := by
  by_cases hr : r = 0 <;> simp [guestRead, guestWrite, hr, h]

/-- The translation of a function code computes what the guest computes. -/
lemma irBinop_table {funct a b v : BitVec 32} (h : guestAlu funct a b = some v) :
    irBinop (irOpcodeGroup (mips32ToIrTable funct)) a b = some v := by
  simp only [guestAlu] at h
  split_ifs at h with h₁ h₂ h₃ h₄ <;> subst funct <;> exact h

lemma IsArithFunct.alu {funct : BitVec 32} (h : IsArithFunct funct) (a b : BitVec 32) :
    ∃ v, guestAlu funct a b = some v := by
  rcases h with rfl | rfl | rfl | rfl <;> exact ⟨_, rfl⟩

lemma IsArith.exec {instr : BitVec 32} (h : IsArith instr) (ρ : GuestFile) :
    ∃ v, guestAlu (mips32Funct instr) (guestRead ρ (mips32Rs instr))
        (guestRead ρ (mips32Rt instr)) = some v ∧
      guestExec ρ instr = guestWrite ρ (mips32Rd instr) v := by
  obtain ⟨v, hv⟩ := h.2.alu (guestRead ρ (mips32Rs instr)) (guestRead ρ (mips32Rt instr))
  exact ⟨v, hv, by simp [guestExec, h.1, hv]⟩

end AxVirtLayer
