import AxVirtLayer.I64.Emit

/-!
# The opcodes with a ModRM byte

What `i64_emit_64` writes for two operands as a function of their extension bits, types and
widths, and that the bytes decode to the fields they were made of.
-/

namespace AxVirtLayer

open Lib.Intel64

/-! ## Two operands -/

/-- The type of a memory operand. -/
def memType (sib : Bool) (kind : DispKind) : I64OperandType :=
  (if sib then i64Sib else i64Mem) ||| kind.flag

/-- The widths of an operand. -/
inductive OpWidth
  | w8
  | w16
  | w32
  | w64
deriving DecidableEq, Repr

instance : Fintype OpWidth where
  elems := {.w8, .w16, .w32, .w64}
  complete w := by cases w <;> decide

/-- The enumerator of a width. -/
def OpWidth.val : OpWidth → I64OperandWidth
  | .w8 => i64W8
  | .w16 => i64W16
  | .w32 => i64W32
  | .w64 => i64W64

/-! ## The opcodes with a ModRM byte -/

/-- The two-operand opcodes of `L1_OPCODE_META_TABLE` with a ModRM byte. -/
abbrev ModrmOpcode :=
  {b : BitVec 8 // (l1OpcodeMetaTable b.toNat).opsCount = 2 ∧
    (l1OpcodeMetaTable b.toNat).flags &&& i64FlagModrm ≠ 0}

namespace ModrmOpcode

variable (opcode : ModrmOpcode)

/-- The description of the opcode. -/
def desc : I64OpcodeDesc := l1OpcodeMetaTable opcode.1.toNat

/-- The operation of the group the opcode is listed in. -/
def op : Op :=
  if opcode.1.toNat ≤ 0x05 then .add
  else if opcode.1.toNat ≤ 0x0d then .or
  else if opcode.1.toNat ≤ 0x25 then .and
  else if opcode.1.toNat ≤ 0x2d then .sub
  else .mov

/-- The register operand of the opcode comes first. -/
def toReg : Bool := decide (opcode.desc.form = formRRm)

/-- The operands of the opcode have 64 bits, not 8. -/
def wide : Bool := decide (opcode.desc.ops[0].width = i64W64)

end ModrmOpcode

/-- **The metadata table**: the opcode bytes mean what the groups, forms and widths of the
table say, only the wide opcodes may have a REX prefix, and only the forms `r/m, r` other
than `MOV` may have a legacy prefix. -/
lemma modrmOpcode_spec : ∀ opcode : ModrmOpcode,
    rowOf opcode.1 = some ⟨opcode.op, opcode.toReg, opcode.wide⟩ ∧
      opcode.desc.form = (if opcode.toReg then formRRm else formRmR) ∧
      opcode.desc.ops[0].width = (if opcode.wide then i64W64 else i64W8) ∧
      decide (opcode.desc.flags &&& i64FlagRex ≠ 0) = opcode.wide ∧
      decide (opcode.desc.flags &&& i64FlagLegacy ≠ 0) =
        (!opcode.toReg && !decide (opcode.op = .mov)) := by
  rintro ⟨b, h⟩
  revert b
  decide +kernel

/-! ## What the emitter makes of two operands -/

/-- A register operand. -/
def regOperand (width : I64OperandWidth) (reg : ℕ) : I64Operand :=
  ⟨⟨i64Reg, width⟩, i64RegId reg, 0⟩

/-- A memory operand. -/
def memOperand (sib : Bool) (kind : DispKind) (width : OpWidth) (base : ℕ)
    (value : BitVec 64) : I64Operand :=
  ⟨⟨memType sib kind, width.val⟩, i64RegId base, value⟩

/-- The width of the register operands of an opcode. -/
def regWidth (wide : Bool) : I64OperandWidth := if wide then i64W64 else i64W8

/-- What the emitter reads off the summary of the operands. -/
structure SumBits where
  flip : Bool
  sib : Bool
  mem : Bool
  kind : DispKind
  leg : BitVec 8
  rex : BitVec 8
deriving DecidableEq

/-- The bits of a summary. -/
structure I64OperandSum.Has (sum : I64OperandSum) (bits : SumBits) : Prop where
  sibI_eq : sum.sibI = 0
  mode_eq : (sum.width >>> 5) &&& 3 = bits.kind.mode
  disp32_eq : decide (sum.width &&& 0x40 ≠ 0) = decide (bits.kind = .disp32)
  disp8_eq : decide (sum.width &&& 0x20 ≠ 0) = decide (bits.kind = .disp8)
  sib_eq : decide (sum.operand &&& 0x10 ≠ 0) = bits.sib
  mem_eq : decide (sum.operand &&& 0x40 ≠ 0) = bits.mem
  flip_eq : decide (sum.operand &&& 0x80 ≠ 0) = bits.flip
  leg_eq : i64LegResolve sum = bits.leg
  rex_eq : i64RexResolve sum = bits.rex

instance (sum : I64OperandSum) (bits : SumBits) : Decidable (sum.Has bits) :=
  decidable_of_iff (sum.sibI = 0 ∧ (sum.width >>> 5) &&& 3 = bits.kind.mode ∧
      decide (sum.width &&& 0x40 ≠ 0) = decide (bits.kind = .disp32) ∧
      decide (sum.width &&& 0x20 ≠ 0) = decide (bits.kind = .disp8) ∧
      decide (sum.operand &&& 0x10 ≠ 0) = bits.sib ∧
      decide (sum.operand &&& 0x40 ≠ 0) = bits.mem ∧
      decide (sum.operand &&& 0x80 ≠ 0) = bits.flip ∧
      i64LegResolve sum = bits.leg ∧ i64RexResolve sum = bits.rex)
    ⟨fun ⟨h₁, h₂, h₃, h₄, h₅, h₆, h₇, h₈, h₉⟩ => ⟨h₁, h₂, h₃, h₄, h₅, h₆, h₇, h₈, h₉⟩,
      fun ⟨h₁, h₂, h₃, h₄, h₅, h₆, h₇, h₈, h₉⟩ => ⟨h₁, h₂, h₃, h₄, h₅, h₆, h₇, h₈, h₉⟩⟩

/-- The summary of two operands. -/
def sumTwo (form : I64OpcodeForm) (a b : I64Operand) : I64OperandSum :=
  i64SumCalc ⟨.replicate 4 .zero, 2, 0, form⟩ #v[a, b, .zero, .zero]

/-- An operand with nothing left of its identifier but the extension flag. -/
def extOnly (desc : I64OperandDesc) (ext : Bool) : I64Operand :=
  ⟨desc, if ext then i64OpExt else 0, 0⟩

lemma extOnly_and_ext (desc : I64OperandDesc) (ext : Bool) :
    (extOnly desc ext).id &&& i64OpExt = if ext then i64OpExt else 0 := by
  cases ext <;> simp [extOnly]

/-- The operands in order. -/
lemma toList_operands (a b c d : I64Operand) :
    (#v[a, b, c, d] : I64Operands).toList = [a, b, c, d] :=
  rfl

lemma i64OperandEm_extOnly (desc : I64OperandDesc) {reg : ℕ} (h : reg < 16) (value : BitVec 64) :
    i64OperandEm ⟨desc, i64RegId reg, value⟩ = i64OperandEm (extOnly desc (regExt reg)) := by
  simp only [i64OperandEm, extOnly_and_ext, i64RegId_and_ext h]
  rfl

lemma i64SumLoop_extOnly (s : I64SumLoop) (desc : I64OperandDesc) {reg : ℕ} (h : reg < 16)
    (value : BitVec 64) (i : ℕ) :
    i64SumLoop s ⟨desc, i64RegId reg, value⟩ i = i64SumLoop s (extOnly desc (regExt reg)) i := by
  simp only [i64SumLoop, hasType, extOnly_and_ext, i64RegId_and_ext h]
  rfl

/-- The summary only sees the extension flags of the identifiers. -/
lemma i64SumCalc_two {desc : I64OpcodeDesc} (hcount : desc.opsCount = 2)
    (da db : I64OperandDesc) {ra rb : ℕ} (ha : ra < 16) (hb : rb < 16) (va vb : BitVec 64) :
    i64SumCalc desc #v[⟨da, i64RegId ra, va⟩, ⟨db, i64RegId rb, vb⟩, .zero, .zero] =
      sumTwo desc.form (extOnly da (regExt ra)) (extOnly db (regExt rb)) := by
  simp only [i64SumCalc, sumTwo, hcount, toList_operands, Vector.getElem_mk, List.getElem_toArray,
    List.getElem_cons_zero, List.getElem_cons_succ, i64OperandEm_extOnly da ha,
    i64OperandEm_extOnly db hb, List.take_succ_cons, List.take_zero, List.zipIdx_cons,
    List.zipIdx_nil, List.foldl_cons, List.foldl_nil, i64SumLoop_extOnly _ da ha,
    i64SumLoop_extOnly _ db hb]
  rfl

/-- The REX byte the emitter resolves: none when no bit is set. -/
def rexOrZero (rex : Rex) : BitVec 8 :=
  if rexByte rex = 0x40#8 then 0 else rexByte rex

/-- The legacy prefix a memory operand of a width asks for. -/
def legOf : OpWidth → BitVec 8
  | .w8 => 0
  | .w16 => 0x66
  | .w32 => 0x67
  | .w64 => 0

/-- The description of a register operand. -/
def regDesc (wide : Bool) : I64OperandDesc := ⟨i64Reg, regWidth wide⟩

/-- The description of a memory operand. -/
def memDesc (sib : Bool) (kind : DispKind) (width : OpWidth) : I64OperandDesc :=
  ⟨memType sib kind, width.val⟩

/-- Two registers.  The extension of the first operand, the operand of the field `rm`, goes
to `REX.R`, and the one of the second to `REX.B`. -/
lemma sumTwo_reg_reg (wide ea eb : Bool) :
    (sumTwo formRmR (extOnly (regDesc wide) ea) (extOnly (regDesc wide) eb)).Has
      ⟨true, false, false, .none, 0, rexOrZero ⟨wide, ea, false, eb⟩⟩ := by
  revert wide ea eb
  decide +kernel

/-- A memory operand first.  The extension of the base goes to `REX.R` and, for SIB
addressing, to `REX.X`; the extension of the register goes to `REX.B`. -/
lemma sumTwo_mem_reg (sib wide ea eb : Bool) (kind : DispKind) (width : OpWidth) :
    (sumTwo formRmR (extOnly (memDesc sib kind width) ea) (extOnly (regDesc wide) eb)).Has
      ⟨true, sib, true, kind, legOf width, rexOrZero ⟨wide, ea, sib && ea, eb⟩⟩ := by
  revert sib wide ea eb kind width
  decide +kernel

/-- A memory operand second.  The extension of the base goes to `REX.B` and, for SIB
addressing, to `REX.X`. -/
lemma sumTwo_reg_mem (sib wide ea eb : Bool) (kind : DispKind) (width : OpWidth) :
    (sumTwo formRRm (extOnly (regDesc wide) ea) (extOnly (memDesc sib kind width) eb)).Has
      ⟨false, sib, true, kind, legOf width, rexOrZero ⟨wide, ea, sib && eb, eb⟩⟩ := by
  revert sib wide ea eb kind width
  decide +kernel

/-- The field `mod` of the ModRM byte. -/
def modOf (mem : Bool) (kind : DispKind) : ℕ := if mem then kind.mode.toNat else 3

lemma modOf_lt (mem : Bool) (kind : DispKind) : modOf mem kind < 4 := by
  cases mem <;> cases kind <;> decide

/-- The field `mod` as the code looks it up. -/
lemma modMagic_eq (mem sib : Bool) (kind : DispKind)
    (hkind : mem = false → kind = .none ∧ sib = false) :
    (((0x00884403#32 >>> (((bit8 (decide (kind = .disp32)) <<< 3) |||
      (bit8 (decide (kind = .disp8)) <<< 2) ||| (bit8 sib <<< 1) ||| bit8 mem) <<< 1).toNat) &&&
      3#32).setWidth 8) = BitVec.ofNat 8 (modOf mem kind) := by
  revert mem sib kind
  decide +kernel

/-- The three fields of a ModRM or SIB byte put together. -/
lemma or_fields_eq {top mid low : ℕ} (ht : top < 4) (hm : mid < 8) (hl : low < 8) :
    (BitVec.ofNat 8 top <<< 6) ||| (BitVec.ofNat 8 mid <<< 3) ||| BitVec.ofNat 8 low =
      fieldsByte top mid low := by
  have hall : ∀ top < 4, ∀ mid < 8, ∀ low < 8,
      (BitVec.ofNat 8 top <<< 6) ||| (BitVec.ofNat 8 mid <<< 3) ||| BitVec.ofNat 8 low =
        fieldsByte top mid low := by
    decide +kernel
  exact hall top ht mid hm low hl

/-- The ModRM byte of two operands. -/
lemma i64ModrmResolve_eq {sum : I64OperandSum} {bits : SumBits} (h : sum.Has bits)
    (hkind : bits.mem = false → bits.kind = .none ∧ bits.sib = false) {dest src : ℕ}
    (hd : dest < 16) (hs : src < 16) :
    i64ModrmResolve (i64RegId dest) (i64RegId src) sum =
      fieldsByte (modOf bits.mem bits.kind) ((if bits.flip then src else dest) % 8)
        (if bits.sib then 4 else (if bits.flip then dest else src) % 8) := by
  have hmod := modMagic_eq bits.mem bits.sib bits.kind hkind
  have hbit : ∀ a b c : Bool, (((bit8 a <<< 3) ||| (bit8 b <<< 2) ||| (bit8 bits.sib <<< 1) |||
      bit8 c) &&& 2 ≠ 0) = (bits.sib = true) := by
    cases bits.sib <;> decide
  have hid : ∀ f : Bool, (if f = true then i64RegId src else i64RegId dest) &&& 7 =
      BitVec.ofNat 8 ((if f = true then src else dest) % 8) := by
    intro f
    cases f
    · exact i64RegId_and_seven hd
    · exact i64RegId_and_seven hs
  have hid' : ∀ f : Bool, (if f = true then i64RegId dest else i64RegId src) &&& 7 =
      BitVec.ofNat 8 ((if f = true then dest else src) % 8) := by
    intro f
    cases f
    · exact i64RegId_and_seven hs
    · exact i64RegId_and_seven hd
  simp only [i64ModrmResolve, h.disp32_eq, h.disp8_eq, h.sib_eq, h.mem_eq, h.flip_eq, hmod, hbit,
    hid, hid']
  have hlt := modOf_lt bits.mem bits.kind
  cases bits.sib
  · exact or_fields_eq hlt (Nat.mod_lt _ (by decide)) (Nat.mod_lt _ (by decide))
  · exact or_fields_eq hlt (Nat.mod_lt _ (by decide)) (by decide)

/-- The scale of a SIB byte as the code looks it up. -/
lemma sibMagic_eq {scale : ℕ} (h : scale < 4) :
    (0xe4#8 >>> (BitVec.ofNat 8 scale <<< 1).toNat) <<< 6 = BitVec.ofNat 8 scale <<< 6 := by
  revert scale
  decide

/-- The SIB byte. -/
lemma i64SibResolve_eq {sum : I64OperandSum} {bits : SumBits} (h : sum.Has bits)
    (hsib : bits.sib = true) {base index scale : ℕ} (hb : base < 16) (hi : index < 16)
    (hs : scale < 4) {mem : I64OperandMem} (hindex : mem.indexId = i64RegId index)
    (hscale : mem.scaleId &&& 3 = BitVec.ofNat 8 scale) :
    i64SibResolve (i64RegId base) mem sum = fieldsByte scale (index % 8) (base % 8) := by
  have hne : ¬ sum.operand &&& 0x10 = 0 := by
    have := h.sib_eq
    rw [hsib] at this
    simpa using this
  simp only [i64SibResolve, hne, if_false, hindex, hscale, i64RegId_and_seven hb,
    i64RegId_and_seven hi, sibMagic_eq hs]
  rw [BitVec.or_comm, ← BitVec.or_assoc]
  exact or_fields_eq hs (Nat.mod_lt _ (by decide)) (Nat.mod_lt _ (by decide))

lemma i64SibResolve_none {sum : I64OperandSum} {bits : SumBits} (h : sum.Has bits)
    (hsib : bits.sib = false) (id : BitVec 8) (mem : I64OperandMem) :
    i64SibResolve id mem sum = 0#8 := by
  have heq := h.sib_eq
  rw [hsib] at heq
  exact if_pos (by simpa using heq)

lemma and_mask8 (x : BitVec 8) (c : Bool) : x &&& mask8 c = if c then x else 0 := by
  cases c
  · simp [mask8]
  · exact BitVec.and_allOnes

/-- **What `i64_emit_64` writes** for an opcode with a ModRM byte, by the bits of the summary.
The SIB byte and the displacement come from the first operand. -/
lemma i64Bytes_modrm (opcode : ModrmOpcode) (ops : I64Operands) (buf : ℕ → BitVec 8)
    {bits : SumBits} (h : (i64SumCalc opcode.desc ops).Has bits) :
    i64Bytes (i64Emit64 (i64Instr opcode.1) ops buf) =
      nz (if !opcode.toReg && !decide (opcode.op = .mov) then bits.leg else 0) ++
      (nz (if opcode.wide then bits.rex else 0) ++
      opcode.1 :: (nz (i64ModrmResolve ops[0].id ops[1].id (i64SumCalc opcode.desc ops)) ++
      (nz (i64SibResolve ops[0].id (.ofValue ops[0].value) (i64SumCalc opcode.desc ops)) ++
        dispBytes bits.kind (I64OperandMem.ofValue ops[0].value).disp))) := by
  obtain ⟨-, -, -, hrex, hleg⟩ := modrmOpcode_spec opcode
  have hmodrm : decide (opcode.desc.flags &&& i64FlagModrm ≠ 0) = true := decide_eq_true opcode.2.2
  have hop : ops.toList.getD (i64SumCalc opcode.desc ops).sibI .zero = ops[0] := by
    rw [h.sibI_eq]
    simp
  have hbytes := i64Bytes_emit opcode.1 ops buf rfl hop h.mode_eq
  simp only [← ModrmOpcode.desc.eq_1, hrex, hleg, hmodrm, and_mask8, h.leg_eq, h.rex_eq,
    if_true] at hbytes
  exact hbytes

/-! ## Fields of the decoded instruction -/

/-- An extended three-bit field names a register by its number and its extension bit. -/
lemma extend_eq_iff {n reg : ℕ} (hn : n < 8) (h : reg < 16) (ext : Bool) :
    extend ext n = reg ↔ n = reg % 8 ∧ ext = regExt reg := by
  have hall : ∀ n < 8, ∀ reg < 16, ∀ ext : Bool,
      extend ext n = reg ↔ n = reg % 8 ∧ ext = regExt reg := by
    decide
  exact hall n hn reg h ext

/-- The operand size of an opcode. -/
def sizeOfWide (wide : Bool) : Size := if wide then .b64 else .b8

/-- The bits of the REX prefix, none of them set without a prefix. -/
def rexBits (rex : Option Rex) : Rex := rex.getD ⟨false, false, false, false⟩

lemma sizeOf_emitted (p : Prefixes) (op : Op) (toReg wide : Bool) {rex : Rex} (hw : rex.w = true) :
    Lib.Intel64.sizeOf p (if wide then some rex else none) ⟨op, toReg, wide⟩ = sizeOfWide wide := by
  cases wide
  · rfl
  · simp [Lib.Intel64.sizeOf, sizeOfWide, hw]

/-- An extended field of an address names a register: with a REX prefix if the prefix has the
extension bit of the register, without one if it is one of the first eight. -/
lemma extend_emitted_iff (bit : Rex → Bool) {n reg : ℕ} (hn : n < 8) (h : reg < 16) (wide : Bool)
    (rex : Rex) (hbit : bit ⟨false, false, false, false⟩ = false) :
    extend (bit (rexBits (if wide then some rex else none))) n = reg ↔
      n = reg % 8 ∧ if wide then bit rex = regExt reg else reg < 8 := by
  rw [extend_eq_iff hn h]
  cases wide
  · rw [if_neg Bool.false_ne_true, if_neg Bool.false_ne_true, rexBits, Option.getD_none, hbit,
      regExt]
    simp
  · rfl

/-- The register field names the register: with a REX prefix if `REX.R` is its extension
bit, without one if it is one of the first four. -/
lemma regOf_emitted_iff {reg : ℕ} (h : reg < 16) (wide : Bool) (rex : Rex) :
    regOf (sizeOfWide wide) (if wide then some rex else none)
        (extend (rexBits (if wide then some rex else none)).r (reg % 8)) = .low reg ↔
      if wide then rex.r = regExt reg else reg < 4 := by
  cases wide
  · have hall : ∀ reg < 16, regOf .b8 none (extend false (reg % 8)) = .low reg ↔ reg < 4 := by
      decide
    exact hall reg h
  · simp [regOf, sizeOfWide, rexBits, extend_eq_iff (Nat.mod_lt _ _) h]

/-! ## Emission and decoding of a memory operand -/

section Memory

variable (opcode : ModrmOpcode) (sib : Bool) (kind : DispKind) (width : OpWidth)
  (reg base : ℕ) (value : BitVec 64)

/-- A register and a memory operand in the order of the opcode. -/
def memOperands : I64Operands :=
  if opcode.toReg then
    #v[regOperand (regWidth opcode.wide) reg, memOperand sib kind width base value, .zero, .zero]
  else
    #v[memOperand sib kind width base value, regOperand (regWidth opcode.wide) reg, .zero, .zero]

/-- The legacy prefix the emitter writes. -/
def emittedLeg : BitVec 8 :=
  if !opcode.toReg && !decide (opcode.op = .mov) then legOf width else 0

/-- The bits of the REX prefix of a wide opcode. -/
def memRex : Rex :=
  if opcode.toReg then ⟨true, regExt reg, sib && regExt base, regExt base⟩
  else ⟨true, regExt base, sib && regExt base, regExt reg⟩

/-- The REX prefix the emitter writes. -/
def emittedRex : Option Rex := if opcode.wide then some (memRex opcode sib reg base) else none

/-- The bits of the summary. -/
def emittedBits : SumBits :=
  ⟨!opcode.toReg, sib, true, kind, legOf width,
    rexOrZero { memRex opcode sib reg base with w := opcode.wide }⟩

variable {reg base}

lemma memRex_w (reg base : ℕ) : (memRex opcode sib reg base).w = true := by
  rw [memRex]
  split
  · rfl
  · rfl

lemma memOperands_sum (hr : reg < 16) (hb : base < 16) :
    (i64SumCalc opcode.desc (memOperands opcode sib kind width reg base value)).Has
      (emittedBits opcode sib kind width reg base) := by
  obtain ⟨-, hform, -⟩ := modrmOpcode_spec opcode
  have hcount : opcode.desc.opsCount = 2 := opcode.2.1
  rw [memOperands, emittedBits, memRex]
  cases htoReg : opcode.toReg
  · rw [htoReg] at hform
    rw [if_neg Bool.false_ne_true, memOperand, regOperand, i64SumCalc_two hcount _ _ hb hr, hform]
    exact sumTwo_mem_reg sib opcode.wide (regExt base) (regExt reg) kind width
  · rw [htoReg] at hform
    rw [if_pos rfl, memOperand, regOperand, i64SumCalc_two hcount _ _ hr hb, hform]
    exact sumTwo_reg_mem sib opcode.wide (regExt reg) (regExt base) kind width

lemma emittedLeg_cases :
    emittedLeg opcode width = 0#8 ∨ emittedLeg opcode width = 0x66#8 ∨
      emittedLeg opcode width = 0x67#8 := by
  have hcases : legOf width = 0#8 ∨ legOf width = 0x66#8 ∨ legOf width = 0x67#8 := by
    cases width <;> decide
  rw [emittedLeg]
  split
  · exact hcases
  · exact Or.inl rfl

/-- The REX prefix the emitter writes, as the decoder sees it. -/
lemma emittedRex_spec (rex : Rex) (hw : rex.w = true) (wide : Bool) :
    ((if wide then rexOrZero rex else 0#8) = 0#8 ∨
        isRex (if wide then rexOrZero rex else 0#8) = true) ∧
      (if (if wide then rexOrZero rex else 0#8) = 0#8 then none
        else some (rexOf (if wide then rexOrZero rex else 0#8))) =
        if wide then some rex else none := by
  obtain ⟨w, r, x, b⟩ := rex
  revert w r x b wide
  decide

/-- The ModRM byte of a register and a memory operand. -/
lemma memOperands_modrm (hr : reg < 16) (hb : base < 16) :
    i64ModrmResolve (memOperands opcode sib kind width reg base value)[0].id
        (memOperands opcode sib kind width reg base value)[1].id
        (i64SumCalc opcode.desc (memOperands opcode sib kind width reg base value)) =
      fieldsByte kind.mode.toNat (reg % 8) (if sib then 4 else base % 8) := by
  have hbits := memOperands_sum opcode sib kind width value hr hb
  have hids : (memOperands opcode sib kind width reg base value)[0].id =
        i64RegId (if opcode.toReg then reg else base) ∧
      (memOperands opcode sib kind width reg base value)[1].id =
        i64RegId (if opcode.toReg then base else reg) := by
    rw [memOperands]
    split
    · exact ⟨rfl, rfl⟩
    · exact ⟨rfl, rfl⟩
  rw [hids.1, hids.2, i64ModrmResolve_eq hbits (by simp [emittedBits])
    (by split <;> assumption) (by split <;> assumption)]
  by_cases h : opcode.toReg = true
  · simp [emittedBits, modOf, h]
  · simp [emittedBits, modOf, h]

/-- **Decoding a memory operand.**  What is left of decoding the bytes of the emitter after
the prefixes and the opcode. -/
lemma decode_memOperands (hr : reg < 16) (hb : base < 16) (buf : ℕ → BitVec 8) :
    decode (i64Bytes (i64Emit64 (i64Instr opcode.1)
        (memOperands opcode sib kind width reg base value) buf)) =
      takeOperands ⟨decide (emittedLeg opcode width = 0x66#8),
          decide (emittedLeg opcode width = 0x67#8)⟩
        (emittedRex opcode sib reg base) ⟨opcode.op, opcode.toReg, opcode.wide⟩
        (nz (fieldsByte kind.mode.toNat (reg % 8) (if sib then 4 else base % 8)) ++
          (nz (i64SibResolve (memOperands opcode sib kind width reg base value)[0].id
            (.ofValue (memOperands opcode sib kind width reg base value)[0].value)
            (i64SumCalc opcode.desc (memOperands opcode sib kind width reg base value))) ++
          dispBytes kind (I64OperandMem.ofValue
            (memOperands opcode sib kind width reg base value)[0].value).disp)) := by
  obtain ⟨hrow, -⟩ := modrmOpcode_spec opcode
  have hbits := memOperands_sum opcode sib kind width value hr hb
  rw [i64Bytes_modrm opcode _ buf hbits, memOperands_modrm opcode sib kind width value hr hb]
  have hrex := emittedRex_spec (memRex opcode sib reg base) (memRex_w ..) opcode.wide
  have hrexEq : (if opcode.wide then (emittedBits opcode sib kind width reg base).rex else 0) =
      if opcode.wide then rexOrZero (memRex opcode sib reg base) else 0#8 := by
    by_cases hw : opcode.wide = true
    · have hsame : { memRex opcode sib reg base with w := opcode.wide } =
          memRex opcode sib reg base := by
        rw [hw, ← memRex_w opcode sib reg base]
      rw [if_pos hw, if_pos hw, emittedBits, hsame]
    · rw [if_neg hw, if_neg hw]
      rfl
  rw [hrexEq]
  exact (decode_nz (emittedLeg_cases opcode width) hrex.1 hrow _).trans (by rw [hrex.2]; rfl)

end Memory

end AxVirtLayer
