import AxVirtLayer.Lib.Intel64
import AxVirtLayer.I64.Opcode

/-!
# The Intel 64 emitter

`i64_emit_64` with the summary of its operands (`i64_emit.c`) and the four helpers that
resolve the prefixes, the ModRM byte and the SIB byte (`i64_leg.h`, `i64_rex.h`,
`i64_modrm.h`, `i64_sib.h`).

The last part says what is left of the sixteen slots after the walk that drops the absent
bytes: the bytes of the instruction in order, at most eleven of them.
-/

namespace AxVirtLayer

open Lib.Intel64

/-! ## The summary of the operands -/

/-- `struct i64_operand_sum`. -/
structure I64OperandSum where
  sibI : ℕ
  width : BitVec 8
  operand : BitVec 8
deriving DecidableEq, Repr

/-- `!!c` as a byte. -/
def bit8 (c : Bool) : BitVec 8 := if c then 1 else 0

/-- `-c` as a byte: all ones or zero. -/
def mask8 (c : Bool) : BitVec 8 := if c then 0xff else 0

/-- The loop variables of `i64_sum_calc`. -/
structure I64SumLoop where
  w0 : BitVec 8
  w1 : BitVec 8
  w2 : BitVec 8
  o0 : BitVec 8
  sibI : ℕ
deriving DecidableEq, Repr

/-- The operand has the flags of a type. -/
def hasType (op : I64Operand) (type : I64OperandType) : Bool :=
  decide (op.desc.type &&& type = type)

/-- The loop body of `i64_sum_calc` for the operand with the index `i`. -/
def i64SumLoop (s : I64SumLoop) (op : I64Operand) (i : ℕ) : I64SumLoop :=
  let w0 := s.w0 &&& (~~~0x08#8 |||
    (bit8 (decide (op.desc.width = i64W64) || decide (op.desc.type &&& i64Mem ≠ 0)) <<< 3))
  let o0 := s.o0 ||| (mask8 (hasType op i64Sib) &&& 0x10)
  let w1 := s.w1 ||| bit8 (decide (op.desc.width = i64W16))
  -- the identifier is the base of the address, not the index
  let o0 := o0 ||| (mask8 (hasType op i64Sib) &&&
    mask8 (decide (op.id &&& i64OpExt = i64OpExt)) &&& 0x20)
  let w2 := s.w2 ||| (mask8 (hasType op i64Mem) &&&
    mask8 (decide (op.desc.width = i64W32)) &&& 0x10)
  let w0 := w0 ||| (mask8 (hasType op i64Disp32) &&& 0x40)
  let o0 := o0 ||| (mask8 (hasType op i64Mem) &&& 0x40)
  let w0 := w0 ||| (mask8 (hasType op i64Disp8) &&& 0x20)
  ⟨w0, w1, w2, o0, if o0 &&& 0x10 ≠ 0 then i else s.sibI⟩

/-- `op[0]`. -/
abbrev I64Operands.first (ops : I64Operands) : I64Operand := ops[0]

/-- The bits `000000EM` of an operand. -/
def i64OperandEm (op : I64Operand) : BitVec 8 :=
  (bit8 (decide (op.id &&& i64OpExt ≠ 0)) <<< 1) ||| (op.desc.type &&& i64Mem)

/-- `i64_sum_calc`. -/
def i64SumCalc (desc : I64OpcodeDesc) (ops : I64Operands) : I64OperandSum :=
  let t0em := i64OperandEm ops[0]
  let t1em := i64OperandEm ops[1]
  let o0 := (desc.form &&& 8) <<< 4
  let dest := if desc.form &&& 8 ≠ 0 then t1em else t0em
  let src := if desc.form &&& 8 ≠ 0 then t0em else t1em
  let l := ((ops.toList.take desc.opsCount).zipIdx).foldl (fun s (op, i) => i64SumLoop s op i)
    ⟨0x08#8, 0, 0, o0, 0⟩
  let destMem := decide (dest &&& 1 ≠ 0)
  let srcMem := decide (src &&& 1 ≠ 0)
  let destExt := decide (dest &&& 2 ≠ 0)
  let srcExt := decide (src &&& 2 ≠ 0)
  let o1 := (bit8 (destExt && !destMem) <<< 3) ||| (bit8 (destExt && destMem) <<< 2)
  let o2 := (bit8 (srcExt && !srcMem) <<< 1) ||| bit8 (srcExt && srcMem)
  -- the index found by the loop is overwritten by the local variable, which is zero
  ⟨0, l.w0 ||| l.w1 ||| l.w2, l.o0 ||| o1 ||| o2⟩

/-! ## Prefixes, ModRM and SIB -/

/-- `_i64_leg_resolve`. -/
def i64LegResolve (sum : I64OperandSum) : BitVec 8 :=
  let mask := (bit8 (decide (sum.width &&& 0x10 ≠ 0)) <<< 1) |||
    bit8 (decide (sum.width &&& 0x01 ≠ 0))
  if mask = 0b10 then 0x67
  else if mask = 0b01 then 0x66
  else 0

/-- `_i64_rex_resolve`. -/
def i64RexResolve (sum : I64OperandSum) : BitVec 8 :=
  let flip := decide (sum.operand &&& 0x80 ≠ 0)
  let dest := bit8 (decide (sum.operand &&& 0x08 ≠ 0) || decide (sum.operand &&& 0x04 ≠ 0))
  let src := bit8 (decide (sum.operand &&& 0x02 ≠ 0) || decide (sum.operand &&& 0x01 ≠ 0))
  let is64bit := bit8 (decide (sum.width &&& 0x08 ≠ 0)) <<< 3
  let srcR := (if flip then src else dest) <<< 2
  let sibExt := bit8 (decide (sum.operand &&& 0x20 ≠ 0)) <<< 1
  let destRm := if flip then dest else src
  let rex := (0b0100 <<< 4) ||| is64bit ||| srcR ||| sibExt ||| destRm
  if rex = 0x40 then 0 else rex

/-- `_i64_modrm_resolve`. -/
def i64ModrmResolve (dest src : BitVec 8) (sum : I64OperandSum) : BitVec 8 :=
  let modI := (bit8 (decide (sum.width &&& 0x40 ≠ 0)) <<< 3) |||
    (bit8 (decide (sum.width &&& 0x20 ≠ 0)) <<< 2) |||
    (bit8 (decide (sum.operand &&& 0x10 ≠ 0)) <<< 1) |||
    bit8 (decide (sum.operand &&& 0x40 ≠ 0))
  let flip := decide (sum.operand &&& 0x80 ≠ 0)
  let destFlip := if flip then dest else src
  let srcFlip := if flip then src else dest
  let modMagic := 0x00884403#32
  let mod := ((modMagic >>> (modI <<< 1).toNat) &&& 3#32).setWidth 8
  let rm := if modI &&& 2 ≠ 0 then 0b100 else destFlip &&& 7
  (mod <<< 6) ||| ((srcFlip &&& 7) <<< 3) ||| rm

/-- `_i64_sib_resolve`. -/
def i64SibResolve (baseId : BitVec 8) (mem : I64OperandMem) (sum : I64OperandSum) : BitVec 8 :=
  if sum.operand &&& 0x10 = 0 then 0
  else
    let sibIndex := (mem.indexId &&& 7) <<< 3
    let sibBase := baseId &&& 7
    let sibMagic := 0xe4#8
    let sibScale := (sibMagic >>> ((mem.scaleId &&& 3) <<< 1).toNat) <<< 6
    sibIndex ||| sibBase ||| sibScale

/-! ## Emission -/

/-- The walk over `hold` and `present`, from index 15 down: the buffer and the count of
bytes written. -/
def i64Squeeze (slots : List (Bool × BitVec 8)) (buf : ℕ → BitVec 8) : (ℕ → BitVec 8) × ℕ :=
  slots.foldl (fun (buf, i0n) (present, hold) =>
    (Function.update buf i0n (if present then hold else 0),
      if present then i0n + 1 else i0n)) (buf, 0)

/-- The arrays `present` and `hold` of `i64_emit_64`, from index 15 down. -/
def i64Slots (opcode : I64Opcode) (ops : I64Operands) : List (Bool × BitVec 8) :=
  let desc := i64LookupOpcodeMeta opcode
  let sum := i64SumCalc desc ops
  let p0 := ((opcode >>> 16) &&& 0xff).setWidth 8
  let p1 := ((opcode >>> 8) &&& 0xff).setWidth 8
  let p2 := (opcode &&& 0xff).setWidth 8
  let rex := i64RexResolve sum &&& mask8 (decide (desc.flags &&& i64FlagRex ≠ 0))
  let sibOp := ops.toList.getD sum.sibI .zero
  let sibMem := I64OperandMem.ofValue sibOp.value
  let leg := i64LegResolve sum &&& mask8 (decide (desc.flags &&& i64FlagLegacy ≠ 0))
  let modrm := i64ModrmResolve ops[0].id ops[1].id sum &&&
    mask8 (decide (desc.flags &&& i64FlagModrm ≠ 0))
  let sib := i64SibResolve sibOp.id sibMem sum
  let dispMode := (sum.width >>> 5) &&& 3
  let disp8 := decide (dispMode &&& 3 ≠ 0)
  let disp32 := decide (dispMode &&& 2 ≠ 0)
  [(false, 0), (false, 0), (false, 0), (false, 0), (false, 0),
    (decide (leg ≠ 0), leg), (decide (rex ≠ 0), rex),
    (decide (p0 ≠ 0), p0), (decide (p1 ≠ 0), p1), (true, p2),
    (decide (modrm ≠ 0), modrm), (decide (sib ≠ 0), sib),
    (disp8, (sibMem.disp &&& 0xff).setWidth 8),
    (disp32, ((sibMem.disp >>> 8) &&& 0xff).setWidth 8),
    (disp32, ((sibMem.disp >>> 16) &&& 0xff).setWidth 8),
    (disp32, ((sibMem.disp >>> 24) &&& 0xff).setWidth 8)]

/-- `i64_emit_64`: the buffer and the length. -/
def i64Emit64 (opcode : I64Opcode) (ops : I64Operands) (buf : ℕ → BitVec 8) :
    (ℕ → BitVec 8) × ℕ := i64Squeeze (i64Slots opcode ops) buf

/-- The bytes `i64_emit_64` reports, `buf[0]` to `buf[*buf_len - 1]`. -/
def i64Bytes (out : (ℕ → BitVec 8) × ℕ) : List (BitVec 8) := (List.range out.2).map out.1

/-! ## Squeezing -/

/-- The bytes of the slots that are present. -/
def presentBytes (slots : List (Bool × BitVec 8)) : List (BitVec 8) :=
  (slots.filter Prod.fst).map Prod.snd

lemma i64Squeeze_concat (slots : List (Bool × BitVec 8)) (present : Bool) (hold : BitVec 8)
    (buf : ℕ → BitVec 8) :
    i64Squeeze (slots ++ [(present, hold)]) buf =
      (Function.update (i64Squeeze slots buf).1 (i64Squeeze slots buf).2
        (if present then hold else 0),
        if present then (i64Squeeze slots buf).2 + 1 else (i64Squeeze slots buf).2) := by
  rw [i64Squeeze, List.foldl_append]
  rfl

/-- The walk writes the present bytes in order, whatever the buffer held. -/
lemma i64Bytes_squeeze (slots : List (Bool × BitVec 8)) (buf : ℕ → BitVec 8) :
    i64Bytes (i64Squeeze slots buf) = presentBytes slots := by
  induction slots using List.reverseRecOn with
  | nil => rfl
  | append_singleton slots slot ih =>
    obtain ⟨present, hold⟩ := slot
    rw [i64Squeeze_concat, presentBytes, List.filter_append, List.map_append, ← presentBytes,
      ← ih]
    have hlow : ∀ x, (List.range (i64Squeeze slots buf).2).map
        (Function.update (i64Squeeze slots buf).1 (i64Squeeze slots buf).2 x) =
        (List.range (i64Squeeze slots buf).2).map (i64Squeeze slots buf).1 := by
      intro x
      refine List.map_congr_left fun i hi => Function.update_of_ne ?_ _ _
      exact (List.mem_range.1 hi).ne
    cases present
    · simp only [i64Bytes, Bool.false_eq_true, if_false, hlow]
      simp
    · simp only [i64Bytes, if_true, List.range_succ, List.map_append, hlow]
      simp

lemma presentBytes_cons (present : Bool) (hold : BitVec 8) (slots : List (Bool × BitVec 8)) :
    presentBytes ((present, hold) :: slots) =
      if present then hold :: presentBytes slots else presentBytes slots := by
  cases present <;> simp [presentBytes]

lemma presentBytes_nz (b : BitVec 8) (slots : List (Bool × BitVec 8)) :
    presentBytes ((decide (b ≠ 0), b) :: slots) = nz b ++ presentBytes slots := by
  rw [presentBytes_cons]
  by_cases h : b = 0#8
  · subst h
    rfl
  · have hne : decide (b ≠ 0) = true := decide_eq_true h
    rw [nz_of_ne h, hne, if_pos rfl, List.singleton_append]

/-- The walk never writes past its final position. -/
lemma i64Squeeze_of_lt (slots : List (Bool × BitVec 8)) (buf : ℕ → BitVec 8) {i : ℕ}
    (hi : (i64Squeeze slots buf).2 < i) : (i64Squeeze slots buf).1 i = buf i := by
  induction slots using List.reverseRecOn with
  | nil => rfl
  | append_singleton slots slot ih =>
    obtain ⟨present, hold⟩ := slot
    rw [i64Squeeze_concat] at hi ⊢
    dsimp only at hi ⊢
    -- the position only grows, and this slot is written where it stood before
    have hlt : (i64Squeeze slots buf).2 < i := by
      cases present
      · exact hi
      · exact (Nat.lt_succ_self _).trans hi
    rw [Function.update_of_ne hlt.ne', ih hlt]

/-! ## Compaction -/

/-- The displacement flags of a memory operand. -/
inductive DispKind
  | none
  | disp8
  | disp32
deriving DecidableEq, Repr

instance : Fintype DispKind where
  elems := {.none, .disp8, .disp32}
  complete kind := by cases kind <;> decide

/-- The type flags of the displacement. -/
def DispKind.flag : DispKind → I64OperandType
  | .none => 0
  | .disp8 => i64Disp8
  | .disp32 => i64Disp32

/-- The displacement bits of the summary; they are the field `mod` of the ModRM byte. -/
def DispKind.mode : DispKind → BitVec 8
  | .none => 0
  | .disp8 => 1
  | .disp32 => 2

/-- The displacement bytes of `i64_emit_64`. -/
def dispBytes (kind : DispKind) (disp : BitVec 32) : List (BitVec 8) :=
  match kind with
  | .none => []
  | .disp8 => [(disp &&& 0xff).setWidth 8]
  | .disp32 => [(disp &&& 0xff).setWidth 8, ((disp >>> 8) &&& 0xff).setWidth 8,
      ((disp >>> 16) &&& 0xff).setWidth 8, ((disp >>> 24) &&& 0xff).setWidth 8]

/-- The displacement a summary asks for. -/
def I64OperandSum.dispKind (sum : I64OperandSum) : DispKind :=
  if sum.width &&& 0x40 ≠ 0 then .disp32
  else if sum.width &&& 0x20 ≠ 0 then .disp8
  else .none

/-- The two presence bits of the displacement. -/
lemma I64OperandSum.dispMode_ne (sum : I64OperandSum) :
    decide ((sum.width >>> 5) &&& 3 &&& 3 ≠ 0) = decide (sum.dispKind ≠ .none) ∧
      decide ((sum.width >>> 5) &&& 3 &&& 2 ≠ 0) = decide (sum.dispKind = .disp32) := by
  unfold dispKind
  generalize sum.width = width
  revert width
  decide +kernel

lemma I64OperandSum.dispKind_eq {sum : I64OperandSum} {kind : DispKind}
    (h : (sum.width >>> 5) &&& 3 = kind.mode) : sum.dispKind = kind := by
  unfold dispKind
  generalize sum.width = width at h ⊢
  revert width kind
  decide +kernel

/-- The bytes of an instruction in order: the prefixes, the opcode, the ModRM byte and the
SIB byte as far as they are not zero, and the displacement. -/
def compactBytes (opcode : I64Opcode) (ops : I64Operands) : List (BitVec 8) :=
  let desc := i64LookupOpcodeMeta opcode
  let sum := i64SumCalc desc ops
  let sibOp := ops.toList.getD sum.sibI .zero
  let sibMem := I64OperandMem.ofValue sibOp.value
  nz (i64LegResolve sum &&& mask8 (decide (desc.flags &&& i64FlagLegacy ≠ 0))) ++
    (nz (i64RexResolve sum &&& mask8 (decide (desc.flags &&& i64FlagRex ≠ 0))) ++
    (nz (((opcode >>> 16) &&& 0xff).setWidth 8) ++ (nz (((opcode >>> 8) &&& 0xff).setWidth 8) ++
    (opcode &&& 0xff).setWidth 8 ::
    (nz (i64ModrmResolve ops[0].id ops[1].id sum &&&
      mask8 (decide (desc.flags &&& i64FlagModrm ≠ 0))) ++
    (nz (i64SibResolve sibOp.id sibMem sum) ++ dispBytes sum.dispKind sibMem.disp)))))

/-- The slots that are present hold the bytes of the instruction. -/
lemma presentBytes_i64Slots (opcode : I64Opcode) (ops : I64Operands) :
    presentBytes (i64Slots opcode ops) = compactBytes opcode ops := by
  rw [i64Slots, compactBytes]
  -- the slots from index 15 down
  iterate 5 rw [presentBytes_cons, if_neg Bool.false_ne_true]
  rw [presentBytes_nz, presentBytes_nz, presentBytes_nz, presentBytes_nz, presentBytes_cons,
    if_pos rfl, presentBytes_nz, presentBytes_nz]
  obtain ⟨h8, h32⟩ := (i64SumCalc (i64LookupOpcodeMeta opcode) ops).dispMode_ne
  simp only [h8, h32]
  cases (i64SumCalc (i64LookupOpcodeMeta opcode) ops).dispKind <;> rfl

/-- What `i64_emit_64` writes, whatever the buffer held. -/
lemma i64Bytes_emit64 (opcode : I64Opcode) (ops : I64Operands) (buf : ℕ → BitVec 8) :
    i64Bytes (i64Emit64 opcode ops buf) = compactBytes opcode ops := by
  rw [i64Emit64, i64Bytes_squeeze, presentBytes_i64Slots]

/-- The length `i64_emit_64` reports. -/
lemma i64Emit64_len (opcode : I64Opcode) (ops : I64Operands) (buf : ℕ → BitVec 8) :
    (i64Emit64 opcode ops buf).2 = (compactBytes opcode ops).length := by
  rw [← i64Bytes_emit64 opcode ops buf, i64Bytes, List.length_map, List.length_range]

lemma nz_length_le (b : BitVec 8) : (nz b).length ≤ 1 := by
  rw [nz]
  split <;> simp

lemma dispBytes_length_le (kind : DispKind) (disp : BitVec 32) :
    (dispBytes kind disp).length ≤ 4 := by
  cases kind <;> simp [dispBytes]

/-- Six bytes may be missing, the low opcode byte never is. -/
lemma compactBytes_length (opcode : I64Opcode) (ops : I64Operands) :
    1 ≤ (compactBytes opcode ops).length ∧ (compactBytes opcode ops).length ≤ 11 := by
  have hnz := nz_length_le
  simp only [compactBytes, List.length_append, List.length_cons]
  constructor
  · omega
  · -- the two prefixes, the opcode, the ModRM and the SIB byte, the displacement
    change _ ≤ 1 + (1 + (1 + (1 + ((1 + (1 + 4)) + 1))))
    refine Nat.add_le_add (hnz _) (Nat.add_le_add (hnz _) ?_)
    refine Nat.add_le_add (hnz _) (Nat.add_le_add (hnz _) (Nat.succ_le_succ ?_))
    exact Nat.add_le_add (hnz _) (Nat.add_le_add (hnz _) (dispBytes_length_le _ _))

/-- An opcode whose low byte has an entry in `L1_OPCODE_META_TABLE`. -/
abbrev TableOpcode := {opcode : I64Opcode // (opcode &&& 0xff).toNat < 0xff}

/-- The call of `i64_emit_64` stays in the first twelve bytes of the buffer and fills its
first bytes with the bytes of the instruction. -/
structure EmitsCompact (opcode : I64Opcode) (ops : I64Operands) (buf : ℕ → BitVec 8) : Prop where
  frame : ∀ i, 12 ≤ i → (i64Emit64 opcode ops buf).1 i = buf i
  pos : 1 ≤ (i64Emit64 opcode ops buf).2
  le : (i64Emit64 opcode ops buf).2 ≤ 11
  bytes : i64Bytes (i64Emit64 opcode ops buf) = compactBytes opcode ops

/-- **Compaction.**  Whatever the operands are and the buffer held, `i64_emit_64` leaves
exactly the bytes of the instruction. -/
theorem i64Emit64_compact (opcode : TableOpcode) (ops : I64Operands) (buf : ℕ → BitVec 8) :
    EmitsCompact opcode.1 ops buf := by
  obtain ⟨hpos, hle⟩ := compactBytes_length opcode.1 ops
  rw [← i64Emit64_len opcode.1 ops buf] at hpos hle
  refine ⟨fun i hi => ?_, hpos, hle, i64Bytes_emit64 opcode.1 ops buf⟩
  exact i64Squeeze_of_lt _ buf (hle.trans_lt hi)

/-! ## Opcodes of one byte -/

lemma i64Instr_bytes (b : BitVec 8) :
    ((i64Instr b >>> 16) &&& 0xff).setWidth 8 = 0#8 ∧
      ((i64Instr b >>> 8) &&& 0xff).setWidth 8 = 0#8 ∧ (i64Instr b &&& 0xff).setWidth 8 = b := by
  revert b
  decide +kernel

/-- What `i64_emit_64` writes for an opcode of one byte. -/
lemma i64Bytes_emit (b : BitVec 8) (ops : I64Operands) (buf : ℕ → BitVec 8)
    {sum : I64OperandSum} (hsum : i64SumCalc (l1OpcodeMetaTable b.toNat) ops = sum)
    {op : I64Operand} (hop : ops.toList.getD sum.sibI .zero = op) {kind : DispKind}
    (hkind : (sum.width >>> 5) &&& 3 = kind.mode) :
    i64Bytes (i64Emit64 (i64Instr b) ops buf) =
      nz (i64LegResolve sum &&& mask8 (decide
        ((l1OpcodeMetaTable b.toNat).flags &&& i64FlagLegacy ≠ 0))) ++
      (nz (i64RexResolve sum &&& mask8 (decide
        ((l1OpcodeMetaTable b.toNat).flags &&& i64FlagRex ≠ 0))) ++
      b :: (nz (i64ModrmResolve ops[0].id ops[1].id sum &&& mask8 (decide
        ((l1OpcodeMetaTable b.toNat).flags &&& i64FlagModrm ≠ 0))) ++
      (nz (i64SibResolve op.id (.ofValue op.value) sum) ++
        dispBytes kind (I64OperandMem.ofValue op.value).disp))) := by
  obtain ⟨h0, h1, h2⟩ := i64Instr_bytes b
  rw [i64Bytes_emit64, compactBytes]
  simp only [i64LookupOpcodeMeta_instr, hsum, hop, h0, h1, h2, I64OperandSum.dispKind_eq hkind]
  rw [nz_zero, List.nil_append, List.nil_append]

end AxVirtLayer
