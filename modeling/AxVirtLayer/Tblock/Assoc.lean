import AxVirtLayer.Lib.Bits
import AxVirtLayer.Cpu
import AxVirtLayer.Mips
import Mathlib.Tactic.Set

/-!
# Register association

The tables that tie guest registers to host locations (`asm_types.h`), the register
allocator (`asm_alloc.c`) and the four operations on the tables and on the operands of
an instruction (`asm_instr_fix.c`).

A table of 256 entries is a function on the index.  The first part of the file is the
translation of the code; the second part says once, for each operation, what it does.
-/

namespace AxVirtLayer

open Lib

/-! ## Tables -/

/-- `asm_reg_assoc`: the flags `000000US` (used, spilled) and the host register or spill
index. -/
structure AsmRegAssoc where
  flags : BitVec 8
  id : ℕ
deriving DecidableEq, Repr

/-- `_ir_reg_assoc_used`. -/
def irRegAssocUsed (assoc : AsmRegAssoc) : Bool := decide (assoc.flags &&& 1#8 <<< 1 ≠ 0#8)

/-- `_ir_reg_assoc_spilled`. -/
def irRegAssocSpilled (assoc : AsmRegAssoc) : Bool := decide (assoc.flags &&& 1#8 <<< 0 ≠ 0#8)

/-- `_ir_reg_assoc_flags`. -/
def irRegAssocFlags (used spill : Bool) : BitVec 8 :=
  ((BitVec.ofBool used).setWidth 8 <<< 1) ||| (BitVec.ofBool spill).setWidth 8

/-- `asm_reg_state`. -/
inductive AsmRegState
  | regFree
  | regOccupied
deriving DecidableEq, Repr

/-- `asm_reg_assoc [IR_REG_LIMIT]`. -/
abbrev AssocTable := ℕ → AsmRegAssoc

/-- `asm_reg_state [IR_REG_LIMIT]`. -/
abbrev StateTable := ℕ → AsmRegState

/-- `asm_reg_liveness [IR_REG_LIMIT]`, one byte for each register. -/
abbrev LivenessTable := ℕ → BitVec 8

/-- The tables of a block that the register allocation works on. -/
structure AsmTables where
  assoc : AssocTable
  state : StateTable
  /-- A counter of 16 bits. -/
  spillCnt : ℕ

/-- The cleared entry of the association table. -/
def AsmRegAssoc.zero : AsmRegAssoc := ⟨0, 0⟩

/-- The tables `tblock_alloc` sets up. -/
def AsmTables.fresh : AsmTables := ⟨fun _ => .zero, fun _ => .regFree, 0⟩

/-- The guest register has a used association. -/
def AsmTables.used (t : AsmTables) (r : ℕ) : Bool := irRegAssocUsed (t.assoc r)

/-- The association of the guest register is a spill slot. -/
def AsmTables.spilled (t : AsmTables) (r : ℕ) : Bool := irRegAssocSpilled (t.assoc r)

@[simp] lemma irRegAssocUsed_zero : irRegAssocUsed .zero = false := by decide

@[simp] lemma irRegAssocUsed_flags (used spill : Bool) (id : ℕ) :
    irRegAssocUsed ⟨irRegAssocFlags used spill, id⟩ = used := by
  cases used <;> cases spill <;> simp [irRegAssocUsed, irRegAssocFlags]

@[simp] lemma irRegAssocSpilled_flags (used spill : Bool) (id : ℕ) :
    irRegAssocSpilled ⟨irRegAssocFlags used spill, id⟩ = spill := by
  cases used <;> cases spill <;> simp [irRegAssocSpilled, irRegAssocFlags]

/-! ## The allocator -/

/-- The loop of `asm_alloc_space`: with at most `k` registers left to look at, take the
lowest bit of the mask, and drop it when its register is occupied. -/
def asmAllocScan (stateMap : StateTable) : ℕ → BitVec 64 → Option ℕ
  | 0, _ => none
  | k + 1, mask =>
    -- `__builtin_ctz` takes the low 32 bits of the mask
    let idx := ((mask.setWidth 32).ctz &&& 0x0f#32).toNat
    if stateMap idx ≠ .regFree then asmAllocScan stateMap k (mask &&& ~~~(1#64 <<< idx))
    else some idx

/-- `asm_alloc_space`: the id of the register taken, or the spill bit `1 << 8`, and the
state table after the call. -/
def asmAllocSpace (regMap : CpuRegMap) (role : CpuRegRole) (stateMap : StateTable) :
    ℕ × StateTable :=
  let mask := regMap.roleMap role 0
  match asmAllocScan stateMap mask.cpop.toNat mask with
  | none => (1 <<< 8, stateMap)
  | some idx => ((regMap.reg idx).id, Function.update stateMap idx .regOccupied)

/-! ## Association, rewriting, expansion, flushing -/

/-- The part of `ir_context` the passes read: the architectures, from which `ir_create`
takes the register maps and the conversion calls. -/
structure IrContext where
  guestArch : MteArch
  hostArch : MteArch

/-- `_arch_to_map`. -/
def archToMap : MteArch → CpuRegMap
  | .mips32 => mips32CpuRegMap
  | .intel64 => i64CpuRegMap

/-- `ir->desc.guest_map`. -/
def IrContext.guestMap (ir : IrContext) : CpuRegMap := archToMap ir.guestArch

/-- `ir->desc.host_map`. -/
def IrContext.hostMap (ir : IrContext) : CpuRegMap := archToMap ir.hostArch

/-- The context of `main`: guest MIPS32, host INTEL64. -/
def mipsToI64 : IrContext := ⟨.mips32, .intel64⟩

/-- The body of the loop of `asm_fill_assoc` for an operand without an association. -/
def asmFillOne (ir : IrContext) (t : AsmTables) (id : ℕ) : AsmTables :=
  let guestRole := (ir.guestMap.reg id).role
  let (alloc, state) := asmAllocSpace ir.hostMap guestRole t.state
  let allocId := alloc &&& 0xff
  let isSpill := decide (alloc >>> 8 ≠ 0)
  { assoc := Function.update t.assoc id
      ⟨irRegAssocFlags true isSpill, if isSpill then t.spillCnt else allocId⟩
    state := state
    spillCnt := if isSpill then (t.spillCnt + 1) % 2 ^ 16 else t.spillCnt }

/-- The loop of `asm_fill_assoc` over the operands that are left. -/
def asmFillLoop (ir : IrContext) (t : AsmTables) : List IrOperand → AsmTables
  | [] => t
  | op :: ops =>
    -- "Reuse the register": the loop is left here, not continued
    if t.used op.id then t
    else asmFillLoop ir (asmFillOne ir t op.id) ops

/-- `asm_fill_assoc`. -/
def asmFillAssoc (ir : IrContext) (instr : IrRawInstr) (t : AsmTables) : AsmTables :=
  let idx := if (instr.set.op 0).id = (instr.set.op 1).id then 1 else 0
  asmFillLoop ir t (instr.set.used.drop idx)

/-- The operand `asm_fix_instr` writes: the id of the association as a `u8`. -/
def asmFixOperand (assoc : AssocTable) (op : IrOperand) : IrOperand :=
  ⟨op.kind, (assoc op.id).id % 2 ^ 8⟩

/-- `asm_fix_instr`. -/
def asmFixInstr (assoc : AssocTable) (instr : IrRawInstr) : IrRawInstr :=
  ⟨instr.opcode,
   ⟨Vector.ofFn fun i =>
      if (i : ℕ) < instr.set.opsCount then asmFixOperand assoc (instr.set.op i)
      else instr.set.op i,
    instr.set.opsCount⟩⟩

/-- `asm_expand_instr`: the returned count and the instructions written to the buffer,
`none` when an assertion stops the program. -/
def asmExpandInstr (ir : IrContext) (instr : IrRawInstr) (bufLen : ℕ) :
    Option (ℕ × List IrRawInstr) :=
  if bufLen = 0 then some (0, [])
  else if mteArchIsaForm ir.guestArch = mteArchIsaForm ir.hostArch then some (1, [instr])
  else if mteArchIsaForm ir.hostArch = mteIsaTwoOp then
    if bufLen ≤ 1 then none
    else
      let set := instr.set
      let (count, buf) :=
        if (set.op 0).id ≠ (set.op 1).id ∧
            irOpcodeFlags instr.opcode &&& irDestNeqSrc = 0 then
          (1, [⟨irOpcodeSwapGroup instr.opcode irGroupMov, .two (set.op 0) (set.op 1)⟩])
        else (0, [])
      let fixInstr : IrRawInstr :=
        ⟨instr.opcode,
         ⟨#v[set.op 0, set.op 0, set.op 2, set.op 3, set.op 4, set.op 5],
          set.opsCount⟩⟩
      some (count + 1, buf ++ [fixInstr])
  else none

/-- The register is alive in a fragment, as `asm_flush_by_liveness` tests it: the byte of
the liveness table against a 16-bit fragment bit. -/
def asmAlive (liveness : LivenessTable) (livenessBlockIdx i : ℕ) : Bool :=
  decide ((liveness i).setWidth 16 &&& 1#16 <<< livenessBlockIdx ≠ 0#16)

/-- The body of the loop of `asm_flush_by_liveness`. -/
def asmFlushOne (ir : IrContext) (livenessBlockIdx : ℕ) (liveness : LivenessTable)
    (t : AsmTables) (i : ℕ) : AsmTables :=
  if asmAlive liveness livenessBlockIdx i then t
  else
    let regId := (ir.guestMap.reg i).id
    { t with
      assoc := Function.update t.assoc regId .zero
      state := Function.update t.state regId .regFree }

/-- `asm_flush_by_liveness`. -/
def asmFlushByLiveness (ir : IrContext) (livenessBlockIdx : ℕ) (liveness : LivenessTable)
    (t : AsmTables) : AsmTables :=
  (List.range ir.guestMap.regCount).foldl (asmFlushOne ir livenessBlockIdx liveness) t

/-! ## What the allocator does

The loop looks at the registers of the mask from the lowest one up, as long as they are below
16.  The bits of a mask that are left to look at are counted along with it, so the loop neither
stops before they are dropped nor goes on behind them. -/

/-- `c` is the lowest bit of the mask. -/
def LowestBit (mask : BitVec 64) (c : ℕ) : Prop :=
  mask.getLsbD c = true ∧ ∀ j < c, mask.getLsbD j = false

lemma exists_lowestBit {mask : BitVec 64} {j : ℕ} (hj : mask.getLsbD j = true) :
    ∃ c ≤ j, LowestBit mask c := by
  classical
  have hex : ∃ c, mask.getLsbD c = true := ⟨j, hj⟩
  refine ⟨Nat.find hex, Nat.find_min' hex hj, Nat.find_spec hex, fun i hi => ?_⟩
  exact Bool.eq_false_iff.2 (Nat.find_min hex hi)

/-- The loop of `asm_alloc_space` never asks `__builtin_ctz` for the zeros of a zero word. -/
def asmAllocDefined (stateMap : StateTable) : ℕ → BitVec 64 → Prop
  | 0, _ => True
  | k + 1, mask =>
    mask.setWidth 32 ≠ 0#32 ∧
      (stateMap ((mask.setWidth 32).ctz &&& 0x0f#32).toNat ≠ .regFree →
        asmAllocDefined stateMap k
          (mask &&& ~~~(1#64 <<< ((mask.setWidth 32).ctz &&& 0x0f#32).toNat)))

namespace LowestBit

variable {mask : BitVec 64} {c : ℕ}

lemma setWidth_ne (h : LowestBit mask c) (hc : c < 32) : mask.setWidth 32 ≠ 0#32 := by
  intro h0
  have hbit := congrArg (fun x => x.getLsbD c) h0
  simp [h.1, hc] at hbit

lemma setWidth_eq (h : LowestBit mask c) (hc : 32 ≤ c) : mask.setWidth 32 = 0#32 := by
  refine BitVec.eq_of_getLsbD_eq fun i hi => ?_
  simp [hi, h.2 i (by omega)]

/-- The index the loop computes from the mask. -/
lemma idx_eq (h : LowestBit mask c) (hc : c < 32) :
    ((mask.setWidth 32).ctz &&& 0x0f#32).toNat = c % 16 := by
  have hctz : (mask.setWidth 32).ctz.toNat = c := by
    refine (ctz_eq_iff (h.setWidth_ne hc)).2 ⟨by simp [h.1, hc], fun j hj => ?_⟩
    simp [h.2 j hj]
  rw [BitVec.toNat_and, hctz, show (0x0f#32).toNat = 2 ^ 4 - 1 from rfl,
    Nat.and_two_pow_sub_one_eq_mod]

lemma scan_eq (h : LowestBit mask c) (hc : c < 32) (st : StateTable) (k : ℕ) :
    asmAllocScan st (k + 1) mask = if st (c % 16) ≠ .regFree then
      asmAllocScan st k (mask &&& ~~~(1#64 <<< (c % 16))) else some (c % 16) := by
  rw [asmAllocScan, h.idx_eq hc]

lemma defined_iff (h : LowestBit mask c) (hc : c < 32) (st : StateTable) (k : ℕ) :
    asmAllocDefined st (k + 1) mask ↔ (st (c % 16) ≠ .regFree →
      asmAllocDefined st k (mask &&& ~~~(1#64 <<< (c % 16)))) := by
  rw [asmAllocDefined, h.idx_eq hc, and_iff_right (h.setWidth_ne hc)]

end LowestBit

/-- The bits of a mask below 16. -/
def lowBits (mask : BitVec 64) : Finset ℕ := (bitSet mask).filter (· < 16)

lemma mem_lowBits {mask : BitVec 64} {j : ℕ} :
    j ∈ lowBits mask ↔ mask.getLsbD j = true ∧ j < 16 := by
  rw [lowBits, Finset.mem_filter, mem_bitSet]

/-- The mask without a bit. -/
lemma getLsbD_clear_iff {mask : BitVec 64} {c i : ℕ} :
    (mask &&& ~~~(1#64 <<< c)).getLsbD i = true ↔ mask.getLsbD i = true ∧ i ≠ c := by
  rw [getLsbD_clearBit, Bool.and_eq_true, decide_eq_true_eq]

lemma lowBits_clear (mask : BitVec 64) (c : ℕ) :
    lowBits (mask &&& ~~~(1#64 <<< c)) = (lowBits mask).erase c := by
  ext i
  rw [mem_lowBits, getLsbD_clear_iff, Finset.mem_erase, mem_lowBits]
  tauto

/-- **The rounds for the registers below 16**: the loop takes the lowest free one, or is left
with the bits from 16 on. -/
lemma asmAllocScan_low (st : StateTable) (k : ℕ) :
    ∀ (l : ℕ) (mask : BitVec 64), l = (lowBits mask).card →
      (∃ idx < 16, mask.getLsbD idx = true ∧ st idx = .regFree ∧
        (∀ j < idx, mask.getLsbD j = true → st j ≠ .regFree) ∧
        asmAllocScan st (l + k) mask = some idx ∧ asmAllocDefined st (l + k) mask) ∨
      (∀ j < 16, mask.getLsbD j = true → st j ≠ .regFree) ∧
        ∃ high, (∀ j, high.getLsbD j = true ↔ mask.getLsbD j = true ∧ 16 ≤ j) ∧
          asmAllocScan st (l + k) mask = asmAllocScan st k high ∧
          (asmAllocDefined st (l + k) mask ↔ asmAllocDefined st k high) := by
  intro l
  induction l with
  | zero =>
    intro mask hl
    have hnone : ∀ j < 16, mask.getLsbD j ≠ true := by
      intro j hj hbit
      have hmem : j ∈ lowBits mask := mem_lowBits.2 ⟨hbit, hj⟩
      rw [Finset.card_eq_zero.1 hl.symm] at hmem
      exact absurd hmem (Finset.notMem_empty j)
    refine .inr ⟨fun j hj hbit => absurd hbit (hnone j hj), mask, fun j => ?_, ?_, ?_⟩
    · refine ⟨fun hbit => ⟨hbit, ?_⟩, And.left⟩
      exact not_lt.1 fun hj => hnone j hj hbit
    · rw [Nat.zero_add]
    · rw [Nat.zero_add]
  | succ l ih =>
    intro mask hl
    -- the lowest bit of the mask is below 16, so the index is not cut
    obtain ⟨j, hj⟩ : (lowBits mask).Nonempty := Finset.card_pos.1 (by omega)
    obtain ⟨hbit, hj16⟩ := mem_lowBits.1 hj
    obtain ⟨c, hcj, hc⟩ := exists_lowestBit hbit
    have hc16 : c < 16 := by omega
    have hscan := hc.scan_eq (by omega) st (l + k)
    have hdef := hc.defined_iff (by omega) st (l + k)
    rw [Nat.mod_eq_of_lt hc16] at hscan hdef
    rw [show l + 1 + k = l + k + 1 by omega]
    by_cases hfree : st c = .regFree
    · rw [if_neg (not_not.2 hfree)] at hscan
      refine .inl ⟨c, hc16, hc.1, hfree, fun i hi hi' => ?_, hscan, ?_⟩
      · rw [hc.2 i hi] at hi'
        cases hi'
      · exact hdef.2 fun hno => absurd hfree hno
    · rw [if_pos hfree] at hscan
      have hdef' : asmAllocDefined st (l + k + 1) mask ↔
          asmAllocDefined st (l + k) (mask &&& ~~~(1#64 <<< c)) :=
        hdef.trans ⟨fun h => h hfree, fun h _ => h⟩
      have hcard : l = (lowBits (mask &&& ~~~(1#64 <<< c))).card := by
        rw [lowBits_clear, Finset.card_erase_of_mem (mem_lowBits.2 ⟨hc.1, hc16⟩)]
        omega
      rw [hscan]
      rcases ih (mask &&& ~~~(1#64 <<< c)) hcard with
        ⟨idx, hidx, hbit, hst, hmin, hres, hok⟩ | ⟨hocc, high, hhigh, hres, hok⟩
      · refine .inl ⟨idx, hidx, (getLsbD_clear_iff.1 hbit).1, hst, fun i hi hi' => ?_, hres,
          hdef'.2 hok⟩
        by_cases hic : i = c
        · exact hic ▸ hfree
        · exact hmin i hi (getLsbD_clear_iff.2 ⟨hi', hic⟩)
      · refine .inr ⟨fun i hi hi' => ?_, high, fun i => ?_, hres, hdef'.trans hok⟩
        · by_cases hic : i = c
          · exact hic ▸ hfree
          · exact hocc i hi (getLsbD_clear_iff.2 ⟨hi', hic⟩)
        · rw [hhigh, getLsbD_clear_iff]
          constructor
          · rintro ⟨⟨hi', -⟩, hi16⟩
            exact ⟨hi', hi16⟩
          · rintro ⟨hi', hi16⟩
            exact ⟨⟨hi', by omega⟩, hi16⟩

/-- The loop of the allocator on a mask that only names the first 16 registers: it
returns the lowest free register of the mask, and nothing when there is none. -/
lemma asmAllocScan_spec (st : StateTable) (k : ℕ) (mask : BitVec 64)
    (hlow : ∀ i, mask.getLsbD i = true → i < 16) (hk : k = (bitSet mask).card) :
    match asmAllocScan st k mask with
    | some idx => mask.getLsbD idx = true ∧ st idx = .regFree ∧
        ∀ j < idx, mask.getLsbD j = true → st j ≠ .regFree
    | none => ∀ j, mask.getLsbD j = true → st j ≠ .regFree := by
  have hcard : k = (lowBits mask).card := by
    rw [hk, lowBits, Finset.filter_true_of_mem fun i hi => hlow i (mem_bitSet.1 hi)]
  rcases asmAllocScan_low st 0 k mask hcard with
    ⟨idx, -, hbit, hst, hmin, hres, -⟩ | ⟨hocc, high, -, hres, -⟩
  · rw [Nat.add_zero] at hres
    rw [hres]
    exact ⟨hbit, hst, hmin⟩
  · rw [Nat.add_zero] at hres
    rw [hres]
    exact fun j hj => hocc j (hlow j hj) hj

/-- The host register `h` has the role. -/
def HasHostRole (role : CpuRegRole) (h : ℕ) : Prop :=
  (i64CpuRegRoleMap role 0).getLsbD h = true

instance (role : CpuRegRole) (h : ℕ) : Decidable (HasHostRole role h) :=
  inferInstanceAs (Decidable (_ = _))

lemma HasHostRole.lt {role : CpuRegRole} {h : ℕ} (hh : HasHostRole role h) : h < 16 := by
  have h64 : h < 64 := BitVec.lt_of_getLsbD hh
  by_contra hge
  revert hh
  simp only [HasHostRole]
  cases role <;> interval_cases h <;> decide

/-- No register of the role is free: the allocator spills. -/
def NoFreeReg (st : StateTable) (role : CpuRegRole) : Prop :=
  ∀ h, HasHostRole role h → st h ≠ .regFree

instance (st : StateTable) (role : CpuRegRole) : Decidable (NoFreeReg st role) :=
  decidable_of_iff (∀ h < 16, HasHostRole role h → st h ≠ .regFree)
    ⟨fun hall h hh => hall h hh.lt hh, fun hall h _ hh => hall h hh⟩

/-- `h` is the lowest free register of the role: the allocator takes it. -/
def LowestFree (st : StateTable) (role : CpuRegRole) (h : ℕ) : Prop :=
  HasHostRole role h ∧ st h = .regFree ∧ ∀ j < h, HasHostRole role j → st j ≠ .regFree

instance (st : StateTable) (role : CpuRegRole) (h : ℕ) : Decidable (LowestFree st role h) :=
  inferInstanceAs (Decidable (_ ∧ _ ∧ _))

lemma LowestFree.not_noFreeReg {st : StateTable} {role : CpuRegRole} {h : ℕ}
    (hh : LowestFree st role h) : ¬ NoFreeReg st role :=
  fun hn => hn h hh.1 hh.2.1

/-- `asm_alloc_space` on the Intel 64 map. -/
lemma asmAllocSpace_i64 (role : CpuRegRole) (st : StateTable) :
    (∃ h, LowestFree st role h ∧
        asmAllocSpace i64CpuRegMap role st = (h, Function.update st h .regOccupied)) ∨
      (NoFreeReg st role ∧ asmAllocSpace i64CpuRegMap role st = (256, st)) := by
  have hspec := asmAllocScan_spec st (i64CpuRegRoleMap role 0).cpop.toNat
    (i64CpuRegRoleMap role 0) (fun i hi => HasHostRole.lt hi) (toNat_cpop_eq_card _)
  rw [asmAllocSpace, show i64CpuRegMap.roleMap = i64CpuRegRoleMap from rfl]
  split at hspec
  · next idx hscan =>
    refine Or.inl ⟨idx, hspec, ?_⟩
    simp only [hscan, i64CpuRegMap_reg_id (HasHostRole.lt hspec.1)]
  · next hscan =>
    refine Or.inr ⟨hspec, ?_⟩
    simp only [hscan]
    rfl

/-! ## What association does -/

/-- The role of a guest register. -/
def guestRole (r : ℕ) : CpuRegRole := (mips32CpuRegMap.reg r).role

/-- The tables after a guest register has been tied to the host register `h`. -/
def AsmTables.take (t : AsmTables) (r h : ℕ) : AsmTables :=
  { t with
    assoc := Function.update t.assoc r ⟨irRegAssocFlags true false, h⟩
    state := Function.update t.state h .regOccupied }

/-- The tables after a guest register has been spilled. -/
def AsmTables.spill (t : AsmTables) (r : ℕ) : AsmTables :=
  { t with
    assoc := Function.update t.assoc r ⟨irRegAssocFlags true true, t.spillCnt⟩
    spillCnt := (t.spillCnt + 1) % 2 ^ 16 }

/-- The body of the loop of `asm_fill_assoc` takes the lowest free host register of the
guest register's role, or spills when there is none. -/
lemma asmFillOne_cases (t : AsmTables) (r : ℕ) :
    (∃ h, LowestFree t.state (guestRole r) h ∧ asmFillOne mipsToI64 t r = t.take r h) ∨
      (NoFreeReg t.state (guestRole r) ∧ asmFillOne mipsToI64 t r = t.spill r) := by
  rcases asmAllocSpace_i64 (guestRole r) t.state with ⟨h, hfree, heq⟩ | ⟨hno, heq⟩
  · refine Or.inl ⟨h, hfree, ?_⟩
    have hh : h < 16 := hfree.1.lt
    have hand : h &&& 0xff = h := by
      rw [show 0xff = 2 ^ 8 - 1 from rfl, Nat.and_two_pow_sub_one_eq_mod]
      omega
    have hshift : h >>> 8 = 0 := by
      rw [Nat.shiftRight_eq_div_pow]
      omega
    rw [guestRole] at heq
    simp only [asmFillOne, show mipsToI64.guestMap = mips32CpuRegMap from rfl,
      show mipsToI64.hostMap = i64CpuRegMap from rfl, heq, hand, hshift]
    rfl
  · refine Or.inr ⟨hno, ?_⟩
    rw [guestRole] at heq
    simp only [asmFillOne, show mipsToI64.guestMap = mips32CpuRegMap from rfl,
      show mipsToI64.hostMap = i64CpuRegMap from rfl, heq]
    rfl

section Tables

variable (t : AsmTables) (r h : ℕ)

@[simp] lemma AsmTables.take_state :
    (t.take r h).state = Function.update t.state h .regOccupied := rfl

@[simp] lemma AsmTables.spill_state : (t.spill r).state = t.state := rfl

lemma AsmTables.take_assoc_self :
    (t.take r h).assoc r = ⟨irRegAssocFlags true false, h⟩ := by simp [AsmTables.take]

lemma AsmTables.spill_assoc_self :
    (t.spill r).assoc r = ⟨irRegAssocFlags true true, t.spillCnt⟩ := by simp [AsmTables.spill]

variable {r}

lemma AsmTables.take_assoc_of_ne {s : ℕ} (hs : s ≠ r) : (t.take r h).assoc s = t.assoc s := by
  simp [AsmTables.take, hs]

lemma AsmTables.spill_assoc_of_ne {s : ℕ} (hs : s ≠ r) : (t.spill r).assoc s = t.assoc s := by
  simp [AsmTables.spill, hs]

variable {t}

lemma asmFillOne_assoc_of_ne {ir : IrContext} {s : ℕ} (hs : s ≠ r) :
    (asmFillOne ir t r).assoc s = t.assoc s := by
  simp only [asmFillOne, Function.update_of_ne hs]

lemma asmFillOne_used_self {ir : IrContext} : (asmFillOne ir t r).used r = true := by
  simp only [asmFillOne, AsmTables.used, Function.update_self, irRegAssocUsed_flags]

lemma asmFillOne_used_of_ne {ir : IrContext} {s : ℕ} (hs : s ≠ r) :
    (asmFillOne ir t r).used s = t.used s := by
  rw [AsmTables.used, asmFillOne_assoc_of_ne hs, AsmTables.used]

/-- One more guest register has a used association. -/
lemma asmFillOne_used (ir : IrContext) (t : AsmTables) (r s : ℕ) :
    (asmFillOne ir t r).used s = (decide (s = r) || t.used s) := by
  by_cases hs : s = r
  · subst hs
    simp [asmFillOne_used_self]
  · simp [asmFillOne_used_of_ne hs, hs]

end Tables

/-- The loop leaves the associations that exist alone. -/
lemma asmFillLoop_assoc_of_used (ir : IrContext) {t : AsmTables} (ops : List IrOperand) {g : ℕ}
    (hg : t.used g = true) : (asmFillLoop ir t ops).assoc g = t.assoc g := by
  induction ops generalizing t with
  | nil => rfl
  | cons op ops ih =>
    rw [asmFillLoop]
    by_cases hused : t.used op.id = true
    · rw [if_pos hused]
    · rw [if_neg hused]
      have hne : g ≠ op.id := fun h => hused (h ▸ hg)
      rw [ih (by rw [asmFillOne_used_of_ne hne, hg]), asmFillOne_assoc_of_ne hne]

/-- The operands the loop of `asm_fill_assoc` goes through. -/
def fillOperands (a b c : ℕ) : List IrOperand :=
  if a = b then [.reg b, .reg c] else [.reg a, .reg b, .reg c]

/-- The instruction over three guest registers. -/
def threeRegInstr (opcode : IrOpcode) (a b c : ℕ) : IrRawInstr :=
  ⟨opcode, .three (.reg a) (.reg b) (.reg c)⟩

lemma asmFillAssoc_three (ir : IrContext) (opcode : IrOpcode) (a b c : ℕ) (t : AsmTables) :
    asmFillAssoc ir (threeRegInstr opcode a b c) t =
      asmFillLoop ir t (fillOperands a b c) := by
  by_cases hab : a = b
  · simp [asmFillAssoc, threeRegInstr, fillOperands, hab]
  · simp [asmFillAssoc, threeRegInstr, fillOperands, hab]

/-- The operands `asm_fill_assoc` gets to: it stops at the first one that is associated. -/
def fillReached (t : AsmTables) (a b c : ℕ) : List IrOperand :=
  (fillOperands a b c).takeWhile fun op => !t.used op.id

/-- After `asm_fill_assoc` the associated registers are those that were associated and
those the loop got to. -/
lemma asmFillLoop_used_iff (ir : IrContext) (t : AsmTables) (a b c r : ℕ) :
    (asmFillLoop ir t (fillOperands a b c)).used r = true ↔
      t.used r = true ∨ ∃ op ∈ fillReached t a b c, op.id = r := by
  rw [fillReached]
  by_cases hab : a = b
  · cases hb : t.used b <;> cases hc : t.used c <;>
      simp [fillOperands, hab, asmFillLoop, asmFillOne_used, hb, hc] <;>
        grind [asmFillOne_used]
  · cases ha : t.used a <;> cases hb : t.used b <;> cases hc : t.used c <;>
      simp [fillOperands, hab, Ne.symm hab, asmFillLoop, asmFillOne_used, ha, hb, hc] <;>
        grind [asmFillOne_used]

/-! ## What flushing does -/

/-- A fragment bit can only be found in the byte of a register for the fragments 0 to 7. -/
lemma asmAlive_iff {liveness : LivenessTable} {b i : ℕ} :
    asmAlive liveness b i = true ↔ b < 8 ∧ (liveness i).getLsbD b = true := by
  rw [asmAlive, decide_eq_true_eq, and_one_shiftLeft_ne_zero, BitVec.getLsbD_setWidth]
  constructor
  · intro h
    rw [Bool.and_eq_true] at h
    exact ⟨BitVec.lt_of_getLsbD h.2, h.2⟩
  · rintro ⟨hb, hbit⟩
    simp [hbit, show b < 16 by omega]

lemma asmFlush_foldl (b : ℕ) (liveness : LivenessTable) (t : AsmTables) (n : ℕ) (hn : n ≤ 32) :
    (List.range n).foldl (asmFlushOne mipsToI64 b liveness) t =
      { t with
        assoc := fun r => if r < n ∧ asmAlive liveness b r = false then .zero else t.assoc r
        state := fun h =>
          if h < n ∧ asmAlive liveness b h = false then .regFree else t.state h } := by
  induction n with
  | zero => simp
  | succ n ih =>
    rw [List.range_succ, List.foldl_append, ih (by omega), List.foldl_cons, List.foldl_nil,
      asmFlushOne, show mipsToI64.guestMap = mips32CpuRegMap from rfl,
      mips32CpuRegMap_reg_id (show n < 32 by omega)]
    by_cases halive : asmAlive liveness b n = true
    · rw [if_pos halive]
      simp only [AsmTables.mk.injEq, and_true]
      constructor <;> funext r <;> by_cases hr : r = n <;> grind
    · rw [if_neg halive]
      simp only [AsmTables.mk.injEq, and_true]
      constructor <;> funext r <;> by_cases hr : r = n <;> grind [Function.update_apply]

/-- `asm_flush_by_liveness` clears, for every guest register that is not alive, the
association of the register and the state of the host register *of the same number*. -/
lemma asmFlushByLiveness_eq (b : ℕ) (liveness : LivenessTable) (t : AsmTables) :
    asmFlushByLiveness mipsToI64 b liveness t =
      { t with
        assoc := fun r => if r < 32 ∧ asmAlive liveness b r = false then .zero else t.assoc r
        state := fun h =>
          if h < 32 ∧ asmAlive liveness b h = false then .regFree else t.state h } :=
  asmFlush_foldl b liveness t 32 le_rfl

lemma asmFlushByLiveness_used {b : ℕ} {liveness : LivenessTable} {t : AsmTables} {r : ℕ}
    (hr : r < 32) :
    (asmFlushByLiveness mipsToI64 b liveness t).used r = true ↔
      t.used r = true ∧ asmAlive liveness b r = true := by
  rw [AsmTables.used, asmFlushByLiveness_eq]
  cases halive : asmAlive liveness b r <;> simp [hr, halive, AsmTables.used]

/-! ## What rewriting and expansion do -/

/-- Rewriting a three-register instruction. -/
lemma asmFixInstr_three (assoc : AssocTable) (opcode : IrOpcode) (a b c : IrOperand) :
    asmFixInstr assoc ⟨opcode, .three a b c⟩ =
      ⟨opcode, .three (asmFixOperand assoc a) (asmFixOperand assoc b)
        (asmFixOperand assoc c)⟩ := rfl

/-- Expansion for a two-operand host of an instruction whose opcode needs the destination
as its first source. -/
lemma asmExpandInstr_three {opcode : IrOpcode}
    (hflag : irOpcodeFlags opcode &&& irDestNeqSrc = 0) (a b c : IrOperand) {bufLen : ℕ}
    (hlen : 2 ≤ bufLen) :
    asmExpandInstr mipsToI64 ⟨opcode, .three a b c⟩ bufLen =
      if a.id ≠ b.id then
        some (2, [⟨irOpcodeSwapGroup opcode irGroupMov, .two a b⟩, ⟨opcode, .three a a c⟩])
      else some (1, [⟨opcode, .three a a c⟩]) := by
  rw [asmExpandInstr, if_neg (by omega), if_neg (by decide), if_pos (by decide),
    if_neg (by omega)]
  by_cases hab : a.id = b.id
  · simp [IrOperandSet.op, IrOperandSet.three, hab]
  · simp [IrOperandSet.op, IrOperandSet.three, hab, hflag]

end AxVirtLayer
