import AxVirtLayer.Lib.Run
import AxVirtLayer.Tblock.Assoc

/-!
# The two passes over the guest code

The translation block (`tblock.h`, `tblock.c`) and the passes `tblock_liveness_scan` and
`tblock_raw_to_ir` (`tblock_pass.c`) with the loop macro they share (`tblock_pass.h`).

The first part of the file is the translation of the code.  The second part reads a pass
as a run of a step function over the words of the block, and gives for each pass what one
word does.  A pass returns `none` where an assertion or an invalid call ends the program.
-/

namespace AxVirtLayer

open Lib

/-! ## The block -/

/-- `enum tblock_type`. -/
inductive TblockType
  | tblockBig
  | tblockSmall
deriving DecidableEq, Repr

/-- The value of a block type, the shift of the block size. -/
def TblockType.val : TblockType → ℕ
  | tblockBig => 3
  | tblockSmall => 1

/-- `TBLOCK_SIZE`. -/
def tblockSize : ℕ := 64

/-- The bytes of guest code a block covers, `TBLOCK_SIZE << type`. -/
def tblockBytes (type : TblockType) : ℕ := tblockSize <<< type.val

/-- `_tblock_frag_calc` and `_TBLOCK_FRAG`. -/
def tblockFragCalc (type : TblockType) : ℕ := tblockBytes type / sizeofIrRawInstr

/-- `TBLOCK_IR_BUFFER_SIZE`. -/
def tblockIrBufferSize : ℕ := 4 * 1024

/-- `struct _tblock`. -/
structure Tblock where
  type : TblockType
  /-- A counter of 16 bits. -/
  irCnt : ℕ
  /-- `ir_buf.base`, indexed by instruction. -/
  irBuf : ℕ → IrRawInstr
  /-- `ir_buf.capacity`. -/
  irCapacity : ℕ
  liveness : LivenessTable
  /-- `assoc`, `state` and `spill_cnt`. -/
  tables : AsmTables

/-- The instructions a block holds. -/
def Tblock.ir (block : Tblock) : List IrRawInstr := (List.range block.irCnt).map block.irBuf

/-- `tblock_alloc`; `heap` is what the memory of the buffer holds when it is handed out. -/
def tblockAlloc (heap : ℕ → IrRawInstr) (type : TblockType) : Tblock where
  type := type
  irCnt := 0
  irBuf := heap
  irCapacity := tblockIrBufferSize / sizeofIrRawInstr
  liveness := fun _ => 0
  tables := .fresh

/-- A buffer of zeros. -/
def zeroHeap : ℕ → IrRawInstr := fun _ => ⟨irInvalidOpcode, .zero⟩

/-! ## The guest code and the loop over it -/

/-- The guest code: the byte at each offset from `guest_ptr`. -/
abbrev GuestCode := ℕ → BitVec 8

/-- The load of a little endian word, `*(u32*)`. -/
def loadU32 (code : GuestCode) (ptr : ℕ) : BitVec 32 :=
  code (ptr + 3) ++ code (ptr + 2) ++ code (ptr + 1) ++ code ptr

/-- `desc->call.guest_reg_fetch`; an architecture without one ends the program. -/
def IrContext.guestRegFetch (ir : IrContext) (instr : BitVec 32) : Option (IrOperandSet × ℕ) :=
  match ir.guestArch with
  | .mips32 => some (mips32RegFetch instr)
  | .intel64 => none

/-- `desc->call.guest_to_ir`; an architecture without one ends the program. -/
def IrContext.guestToIr (ir : IrContext) (instr : BitVec 32) : Option (IrRawInstr × ℕ) :=
  match ir.guestArch with
  | .mips32 => mips32ToIr instr
  | .intel64 => none

/-- `__TBLOCK_PASS_LOOP`: the state after the loop and the count of iterations. -/
def tblockPassLoop {σ : Type} (code : GuestCode) (body : BitVec 32 → σ → Option (σ × ℕ))
    (ceil ptr idx : ℕ) (s : σ) : Option (σ × ℕ) :=
  if _h : ptr < ceil then
    match body (loadU32 code ptr) s with
    | none => none
    | some (s', passLen) =>
      -- the assertion at the end of the loop body
      if _hlen : passLen = 0 then none
      else tblockPassLoop code body ceil (ptr + passLen) (idx + 1) s'
  else some (s, idx)
termination_by ceil - ptr

/-- The local variables of a pass, with the block it works on. -/
structure PassState where
  block : Tblock
  /-- `blk_i`, the fragment of the next word. -/
  blkI : ℕ
  /-- `bytes`, the bytes already passed. -/
  bytes : ℕ

/-- The state in which a pass enters its loop. -/
def PassState.init (block : Tblock) : PassState := ⟨block, 0, 0⟩

/-! ## `tblock_liveness_scan` -/

/-- One operand of the loop of `tblock_liveness_scan`: the bit of the fragment, cut to the
byte of the register. -/
def markLive (blkI : ℕ) (liveness : LivenessTable) (op : IrOperand) : LivenessTable :=
  if op.kind ≠ .irOpReg then liveness
  else Function.update liveness op.id (liveness op.id ||| (1#16 <<< blkI).setWidth 8)

/-- The body of the loop of `tblock_liveness_scan`. -/
def livenessWord (ir : IrContext) (instr : BitVec 32) (s : PassState) :
    Option (PassState × ℕ) :=
  (ir.guestRegFetch instr).map fun (set, guestLen) =>
    let bytes := (s.bytes + guestLen) % 2 ^ 32
    (⟨{ s.block with liveness := set.used.foldl (markLive s.blkI) s.block.liveness },
      (bytes / tblockFragCalc s.block.type) % 2 ^ 8, bytes⟩, guestLen)

/-- `tblock_liveness_scan`: the block after the pass and the count of words. -/
def tblockLivenessScan (ir : IrContext) (code : GuestCode) (block : Tblock) :
    Option (Tblock × ℕ) :=
  (tblockPassLoop code (livenessWord ir) (tblockBytes block.type) 0 0 (.init block)).map
    fun (s, idx) => (s.block, idx % 2 ^ 16)

/-! ## `tblock_raw_to_ir` -/

/-- The buffer after a list of instructions has been written from an index on. -/
def writeIr (buf : ℕ → IrRawInstr) (idx : ℕ) (instrs : List IrRawInstr) : ℕ → IrRawInstr :=
  fun i => if idx ≤ i then (instrs[i - idx]?).getD (buf i) else buf i

/-- The part of the loop body between the conversion of a word and the label `skip`:
associate, rewrite, expand and save. -/
def rawToIrInstr (ir : IrContext) (irInstr : IrRawInstr) (block : Tblock) : Option Tblock :=
  let tables := asmFillAssoc ir irInstr block.tables
  let fixed := asmFixInstr tables.assoc irInstr
  (asmExpandInstr ir fixed ((block.irCapacity + 2 ^ 32 - block.irCnt) % 2 ^ 32)).map
    fun (expanded, out) =>
      { block with
        tables := tables
        irBuf := writeIr block.irBuf block.irCnt out
        irCnt := (block.irCnt + expanded) % 2 ^ 16 }

/-- The part of the loop body up to the label `skip`. -/
def rawToIrTranslate (ir : IrContext) (instr : BitVec 32) (block : Tblock) :
    Option (Tblock × ℕ) :=
  (ir.guestToIr instr).bind fun (irInstr, guestLen) =>
    (if irInstr.opcode = irInvalidOpcode then some block
      else rawToIrInstr ir irInstr block).map fun block => (block, guestLen)

/-- The part of the loop body from the label `skip` on: crossing to the next fragment. -/
def rawToIrCross (ir : IrContext) (guestLen : ℕ) (s : PassState) : PassState :=
  let bytes := (s.bytes + guestLen) % 2 ^ 32
  let nextBlkI := (bytes / tblockFragCalc s.block.type) % 2 ^ 8
  if nextBlkI ≠ s.blkI then
    ⟨{ s.block with
       tables := asmFlushByLiveness ir s.blkI s.block.liveness s.block.tables },
      nextBlkI, bytes⟩
  else ⟨s.block, s.blkI, bytes⟩

/-- The body of the loop of `tblock_raw_to_ir`. -/
def rawToIrWord (ir : IrContext) (instr : BitVec 32) (s : PassState) :
    Option (PassState × ℕ) :=
  (rawToIrTranslate ir instr s.block).map fun (block, guestLen) =>
    (rawToIrCross ir guestLen { s with block := block }, guestLen)

/-- `tblock_raw_to_ir`: the block after the pass and the count of its instructions. -/
def tblockRawToIr (ir : IrContext) (code : GuestCode) (block : Tblock) :
    Option (Tblock × ℕ) :=
  (tblockPassLoop code (rawToIrWord ir) (tblockBytes block.type) 0 0 (.init block)).map
    fun (s, _) => (s.block, s.block.irCnt)

/-! ## A pass is a run over the words of the block -/

/-- The `n` words from an offset on. -/
def codeWords (code : GuestCode) (ptr : ℕ) : ℕ → List (BitVec 32)
  | 0 => []
  | n + 1 => loadU32 code ptr :: codeWords code (ptr + 4) n

/-- The words of a block of the type. -/
def blockWords (type : TblockType) (code : GuestCode) : List (BitVec 32) :=
  codeWords code 0 (tblockBytes type / 4)

@[simp] lemma codeWords_length (code : GuestCode) (ptr n : ℕ) :
    (codeWords code ptr n).length = n := by
  induction n generalizing ptr with
  | zero => rfl
  | succ n ih => rw [codeWords, List.length_cons, ih]

lemma blockWords_length (type : TblockType) (code : GuestCode) :
    (blockWords type code).length = tblockBytes type / 4 := codeWords_length code 0 _

/-- The words in a fragment. -/
def fragWords (type : TblockType) : ℕ := tblockFragCalc type / 4

/-- The fragment the word with the number `k` starts in. -/
def fragOf (type : TblockType) (k : ℕ) : ℕ := k / fragWords type

lemma fragWords_pos (type : TblockType) : 0 < fragWords type := by cases type <;> decide

lemma blockWords_length_eq (type : TblockType) (code : GuestCode) :
    (blockWords type code).length = 16 * fragWords type := by
  rw [blockWords_length]
  cases type <;> decide

/-- The fragment index the code computes from the count of bytes. -/
lemma fragOf_eq (type : TblockType) (k : ℕ) : 4 * k / tblockFragCalc type = fragOf type k := by
  rw [fragOf, show tblockFragCalc type = 4 * fragWords type by cases type <;> decide,
    Nat.mul_div_mul_left _ _ (by omega)]

/-- The guest code that holds a list of words, followed by zeros. -/
def codeOf (words : List (BitVec 32)) : GuestCode :=
  fun ptr => (words.getD (ptr / 4) 0).extractLsb' (8 * (ptr % 4)) 8

lemma loadU32_codeOf (words : List (BitVec 32)) (k : ℕ) :
    loadU32 (codeOf words) (4 * k) = words.getD k 0 := by
  have hbyte : ∀ i < 4, codeOf words (4 * k + i) = (words.getD k 0).extractLsb' (8 * i) 8 := by
    intro i hi
    rw [codeOf, show (4 * k + i) / 4 = k by omega, show (4 * k + i) % 4 = i by omega]
  rw [loadU32, hbyte 3 (by omega), hbyte 2 (by omega), hbyte 1 (by omega),
    show 4 * k = 4 * k + 0 from rfl, hbyte 0 (by omega)]
  refine BitVec.eq_of_getLsbD_eq fun j hj => ?_
  simp only [BitVec.getLsbD_append, BitVec.getLsbD_extractLsb']
  grind

lemma codeWords_codeOf (words : List (BitVec 32)) (k n : ℕ) :
    codeWords (codeOf words) (4 * k) n = (List.range' k n).map fun i => words.getD i 0 := by
  induction n generalizing k with
  | zero => rfl
  | succ n ih =>
    rw [codeWords, loadU32_codeOf, show 4 * k + 4 = 4 * (k + 1) by omega, ih (k + 1),
      List.range'_succ, List.map_cons]

/-- The words of a block over given code. -/
lemma blockWords_codeOf (type : TblockType) (words : List (BitVec 32)) :
    blockWords type (codeOf words) =
      (List.range' 0 (tblockBytes type / 4)).map fun i => words.getD i 0 :=
  codeWords_codeOf words 0 _

/-- The block of one word. -/
lemma blockWords_codeOf_singleton (instr : BitVec 32) :
    blockWords .tblockSmall (codeOf [instr]) = instr :: List.replicate 31 0 := by
  rw [blockWords_codeOf]
  rfl

lemma getElem?_blockWords_codeOf {type : TblockType} (words : List (BitVec 32)) {k : ℕ}
    (hk : k < tblockBytes type / 4) :
    (blockWords type (codeOf words))[k]? = some (words.getD k 0) := by
  rw [blockWords_codeOf, List.getElem?_map, List.getElem?_range' hk, Option.map_some, Nat.zero_add,
    Nat.one_mul]

lemma forall_mem_blockWords_codeOf {P : BitVec 32 → Prop} (type : TblockType)
    {words : List (BitVec 32)} (h : ∀ k < tblockBytes type / 4, P (words.getD k 0)) :
    ∀ instr ∈ blockWords type (codeOf words), P instr := by
  intro instr hinstr
  rw [blockWords_codeOf, List.mem_map] at hinstr
  obtain ⟨k, hk, rfl⟩ := hinstr
  rw [List.mem_range'_1] at hk
  exact h k (by omega)

/-- A loop whose body always passes four bytes is a run over the words. -/
lemma tblockPassLoop_eq_runs {σ : Type} (code : GuestCode)
    {body : BitVec 32 → σ → Option (σ × ℕ)} {step : σ → BitVec 32 → Option σ}
    (hbody : ∀ w s, body w s = (step s w).map fun s' => (s', 4)) (n ptr idx : ℕ) (s : σ) :
    tblockPassLoop code body (ptr + 4 * n) ptr idx s =
      (runs step s (codeWords code ptr n)).map fun s' => (s', idx + n) := by
  induction n generalizing ptr idx s with
  | zero => simp [tblockPassLoop, codeWords]
  | succ n ih =>
    rw [tblockPassLoop, dif_pos (by omega), hbody, codeWords, runs_cons]
    cases step s (loadU32 code ptr) with
    | none => rfl
    | some s' =>
      have hrec := ih (ptr + 4) (idx + 1) s'
      rw [show ptr + 4 + 4 * n = ptr + 4 * (n + 1) by omega] at hrec
      simp only [Option.map_some, Option.bind_some, OfNat.ofNat_ne_zero, ↓reduceDIte, hrec]
      congr 1
      funext s''
      rw [Nat.add_assoc, Nat.add_comm 1 n]

/-- One word of `tblock_liveness_scan` as a step. -/
def livenessStep (s : PassState) (instr : BitVec 32) : Option PassState :=
  (livenessWord mipsToI64 instr s).map Prod.fst

/-- One word of `tblock_raw_to_ir` as a step. -/
def rawToIrStep (s : PassState) (instr : BitVec 32) : Option PassState :=
  (rawToIrWord mipsToI64 instr s).map Prod.fst

lemma mips32RegFetch_len (instr : BitVec 32) : (mips32RegFetch instr).2 = 4 := by
  rw [mips32RegFetch]
  split
  · split <;> rfl
  · rfl
  · rfl

lemma tblockLivenessScan_eq_runs (code : GuestCode) (block : Tblock) :
    tblockLivenessScan mipsToI64 code block =
      (runs livenessStep (.init block) (blockWords block.type code)).map
        fun s => (s.block, tblockBytes block.type / 4) := by
  have hbody : ∀ w s, livenessWord mipsToI64 w s = (livenessStep s w).map fun s' => (s', 4) := by
    intro w s
    simp [livenessStep, livenessWord, IrContext.guestRegFetch, mipsToI64, mips32RegFetch_len]
  have hloop := tblockPassLoop_eq_runs code hbody
    (tblockBytes block.type / 4) 0 0 (.init block)
  rw [show 0 + 4 * (tblockBytes block.type / 4) = tblockBytes block.type by
    cases block.type <;> decide] at hloop
  rw [tblockLivenessScan, hloop, Option.map_map, blockWords]
  congr 1
  funext s
  simp only [Function.comp_apply, Nat.zero_add, Prod.mk.injEq, true_and]
  cases block.type <;> decide

/-- The loop of `tblock_raw_to_ir` has one round for each word. -/
lemma rawToIr_loop_eq_runs (code : GuestCode) (block : Tblock) :
    tblockPassLoop code (rawToIrWord mipsToI64) (tblockBytes block.type) 0 0 (.init block) =
      (runs rawToIrStep (.init block) (blockWords block.type code)).map fun s =>
        (s, tblockBytes block.type / 4) := by
  have hbody : ∀ w s, rawToIrWord mipsToI64 w s = (rawToIrStep s w).map fun s' => (s', 4) := by
    intro w s
    simp only [rawToIrStep, rawToIrWord, rawToIrTranslate, IrContext.guestToIr, mipsToI64,
      mips32ToIr, Option.bind_map, Option.map_bind]
    cases mips32RawToIr w <;> simp [Function.comp_def]
  have hloop := tblockPassLoop_eq_runs code hbody
    (tblockBytes block.type / 4) 0 0 (.init block)
  rw [show 0 + 4 * (tblockBytes block.type / 4) = tblockBytes block.type by
    cases block.type <;> decide, Nat.zero_add] at hloop
  exact hloop

lemma tblockRawToIr_eq_runs (code : GuestCode) (block : Tblock) :
    tblockRawToIr mipsToI64 code block =
      (runs rawToIrStep (.init block) (blockWords block.type code)).map
        fun s => (s.block, s.block.irCnt) := by
  rw [tblockRawToIr, rawToIr_loop_eq_runs, Option.map_map]
  rfl

/-! ## Where a pass stands -/

/-- The pass has gone through `k` words of a block of the type. -/
structure PassState.At (s : PassState) (type : TblockType) (k : ℕ) : Prop where
  type_eq : s.block.type = type
  bytes_eq : s.bytes = 4 * k
  blkI_eq : s.blkI = fragOf type k

section Cursor

variable {type : TblockType} {k : ℕ}

lemma PassState.init_at (block : Tblock) : (PassState.init block).At block.type 0 :=
  ⟨rfl, rfl, by simp [PassState.init, fragOf]⟩

/-- The fragment index fits its byte. -/
lemma fragOf_le (hk : k ≤ 16 * fragWords type) : fragOf type k ≤ 16 :=
  (Nat.div_le_div_right hk).trans_eq (Nat.mul_div_cancel _ (fragWords_pos type))

lemma fragOf_lt (hk : k < 16 * fragWords type) : fragOf type k < 16 :=
  (Nat.div_lt_iff_lt_mul (fragWords_pos type)).2 hk

lemma fragOf_mono (type : TblockType) {i j : ℕ} (h : i ≤ j) : fragOf type i ≤ fragOf type j :=
  Nat.div_le_div_right h

variable {s : PassState}

lemma PassState.At.next_bytes (h : s.At type k) (hk : k < 16 * fragWords type) :
    (s.bytes + 4) % 2 ^ 32 = 4 * (k + 1) := by
  have hle : fragWords type ≤ 8 := by cases type <;> decide
  rw [h.bytes_eq]
  omega

lemma PassState.At.next_blkI (h : s.At type k) (hk : k < 16 * fragWords type) :
    ((s.bytes + 4) % 2 ^ 32 / tblockFragCalc s.block.type) % 2 ^ 8 = fragOf type (k + 1) := by
  have hle : fragOf type (k + 1) ≤ 16 := fragOf_le (by omega)
  rw [h.next_bytes hk, h.type_eq, fragOf_eq]
  omega

end Cursor

/-! ## What one word of `tblock_raw_to_ir` does -/

/-- The block after the words of the loop body up to the label `skip`. -/
def rawToIrMid (block : Tblock) (instr : BitVec 32) : Option Tblock :=
  (rawToIrTranslate mipsToI64 instr block).map Prod.fst

lemma rawToIrStep_eq (s : PassState) (instr : BitVec 32) :
    rawToIrStep s instr = (rawToIrMid s.block instr).map fun block =>
      rawToIrCross mipsToI64 4 { s with block := block } := by
  simp only [rawToIrStep, rawToIrWord, rawToIrMid, rawToIrTranslate, IrContext.guestToIr,
    mipsToI64, mips32ToIr, Option.bind_map, Option.map_bind]
  cases mips32RawToIr instr <;> simp [Function.comp_def]

/-- Crossing flushes the tables exactly when the next word starts a fragment. -/
lemma rawToIrCross_at {s : PassState} {type : TblockType} {k : ℕ} (h : s.At type k)
    (hk : k < 16 * fragWords type) :
    rawToIrCross mipsToI64 4 s =
      ⟨if fragOf type (k + 1) ≠ fragOf type k then
          { s.block with
            tables := asmFlushByLiveness mipsToI64 (fragOf type k) s.block.liveness
              s.block.tables }
        else s.block,
        fragOf type (k + 1), 4 * (k + 1)⟩ := by
  rw [rawToIrCross, h.next_blkI hk, h.next_bytes hk, h.blkI_eq]
  by_cases hc : fragOf type (k + 1) = fragOf type k
  · simp [hc]
  · simp [hc]

/-- An R-type word without a translation leaves the block alone. -/
lemma rawToIrMid_skip {instr : BitVec 32} (h : IsRType instr) (harith : ¬ IsArith instr)
    (block : Tblock) : rawToIrMid block instr = some block := by
  simp only [rawToIrMid, rawToIrTranslate, IrContext.guestToIr, mipsToI64,
    mips32ToIr_skip h harith, Option.bind_some, if_true, Option.map_some]

/-- The operand id the association of a guest register gives to its uses: the host
register the operands name. -/
def opLoc (t : AsmTables) (r : ℕ) : ℕ := (t.assoc r).id % 2 ^ 8

/-- The instructions `asm_expand_instr` makes of `d = s o t`. -/
def twoOpForm (opcode : IrOpcode) (d s t : ℕ) : List IrRawInstr :=
  if d ≠ s then
    [⟨irOpcodeSwapGroup opcode irGroupMov, .two (.reg d) (.reg s)⟩,
      ⟨opcode, .three (.reg d) (.reg d) (.reg t)⟩]
  else [⟨opcode, .three (.reg d) (.reg d) (.reg t)⟩]

lemma asmFixOperand_reg (t : AsmTables) (r : ℕ) :
    asmFixOperand t.assoc (.reg r) = .reg (opLoc t r) := rfl

lemma asmExpandInstr_reg {opcode : IrOpcode}
    (hflag : irOpcodeFlags opcode &&& irDestNeqSrc = 0) (d s t : ℕ) {bufLen : ℕ}
    (hlen : 2 ≤ bufLen) :
    asmExpandInstr mipsToI64 ⟨opcode, .three (.reg d) (.reg s) (.reg t)⟩ bufLen =
      some ((twoOpForm opcode d s t).length, twoOpForm opcode d s t) := by
  rw [asmExpandInstr_three hflag _ _ _ hlen, twoOpForm]
  by_cases hds : d = s
  · simp [hds]
  · simp [hds]

lemma twoOpForm_length_le (opcode : IrOpcode) (d s t : ℕ) :
    (twoOpForm opcode d s t).length ≤ 2 := by
  rw [twoOpForm]
  split <;> simp

lemma IsArith.table_flags {instr : BitVec 32} (h : IsArith instr) :
    irOpcodeFlags (mips32ToIrTable (mips32Funct instr)) &&& irDestNeqSrc = 0 := by
  rcases h.2 with h | h | h | h <;> rw [h] <;> decide

/-- The tables after the association of an arithmetic word. -/
def arithTables (t : AsmTables) (instr : BitVec 32) : AsmTables :=
  asmFillLoop mipsToI64 t (fillOperands (mips32Rd instr) (mips32Rs instr) (mips32Rt instr))

/-- After the word `instr` the register has a location: it had one before, or
`asm_fill_assoc` gets to it. -/
def GetsLocation (t : AsmTables) (instr : BitVec 32) (r : ℕ) : Prop :=
  t.used r = true ∨
    ∃ op ∈ fillReached t (mips32Rd instr) (mips32Rs instr) (mips32Rt instr), op.id = r

instance (t : AsmTables) (instr : BitVec 32) (r : ℕ) : Decidable (GetsLocation t instr r) :=
  inferInstanceAs (Decidable (_ ∨ _))

lemma arithTables_used_iff {instr : BitVec 32} (t : AsmTables) (r : ℕ) :
    (arithTables t instr).used r = true ↔ GetsLocation t instr r :=
  asmFillLoop_used_iff mipsToI64 t _ _ _ r

/-- The instructions an arithmetic word is translated to under the given tables. -/
def arithOut (t : AsmTables) (instr : BitVec 32) : List IrRawInstr :=
  twoOpForm (mips32ToIrTable (mips32Funct instr)) (opLoc t (mips32Rd instr))
    (opLoc t (mips32Rs instr)) (opLoc t (mips32Rt instr))

/-- **The translation of an arithmetic word**, as long as the buffer has room for two
instructions. -/
lemma IsArith.rawToIrMid {instr : BitVec 32} (h : IsArith instr) {block : Tblock}
    (hcap : block.irCapacity = 256) (hcnt : block.irCnt ≤ 254) :
    rawToIrMid block instr = some
      { block with
        tables := arithTables block.tables instr
        irBuf := writeIr block.irBuf block.irCnt
          (arithOut (arithTables block.tables instr) instr)
        irCnt := block.irCnt + (arithOut (arithTables block.tables instr) instr).length } := by
  have hfill := asmFillAssoc_three mipsToI64 (mips32ToIrTable (mips32Funct instr)) (mips32Rd instr)
    (mips32Rs instr) (mips32Rt instr) block.tables
  have hlen : 2 ≤ (block.irCapacity + 2 ^ 32 - block.irCnt) % 2 ^ 32 := by omega
  have hle := twoOpForm_length_le (mips32ToIrTable (mips32Funct instr))
    (opLoc (arithTables block.tables instr) (mips32Rd instr))
    (opLoc (arithTables block.tables instr) (mips32Rs instr))
    (opLoc (arithTables block.tables instr) (mips32Rt instr))
  have hcount : ∀ n ≤ 2, (block.irCnt + n) % 2 ^ 16 = block.irCnt + n := fun n hn => by omega
  simp only [AxVirtLayer.rawToIrMid, rawToIrTranslate, IrContext.guestToIr,
    show mipsToI64.guestArch = .mips32 from rfl, h.toIr, Option.bind_some, h.table_ne_invalid,
    if_false, rawToIrInstr, mips32Operands, Option.map_map]
  rw [threeRegInstr] at hfill
  rw [hfill, ← arithTables, asmFixInstr_three, asmFixOperand_reg, asmFixOperand_reg,
    asmFixOperand_reg, asmExpandInstr_reg h.table_flags _ _ _ hlen]
  simp only [Option.map_some, Function.comp_apply, hcount _ hle]
  rfl

lemma Tblock.ir_append (block : Tblock) (out : List IrRawInstr) :
    Tblock.ir { block with
      irBuf := writeIr block.irBuf block.irCnt out
      irCnt := block.irCnt + out.length } = block.ir ++ out := by
  refine List.ext_getElem (by simp [Tblock.ir]) fun i hi hi' => ?_
  by_cases hlt : i < block.irCnt
  · have hnot : ¬ block.irCnt ≤ i := by omega
    simp [Tblock.ir, writeIr, hlt, hnot]
  · have hle : block.irCnt ≤ i := by omega
    have hlen : i - block.irCnt < out.length := by
      simp [Tblock.ir] at hi
      omega
    simp [Tblock.ir, writeIr, hle, hlen]

/-! ## A run of `tblock_raw_to_ir` -/

/-- The tables after the part of the loop body before the label `skip`. -/
def wordTables (t : AsmTables) (instr : BitVec 32) : AsmTables :=
  if IsNop instr then t else arithTables t instr

@[simp] lemma wordTables_nop (t : AsmTables) : wordTables t 0 = t := if_pos rfl

lemma IsArith.wordTables {instr : BitVec 32} (h : IsArith instr) (t : AsmTables) :
    wordTables t instr = arithTables t instr := if_neg h.not_isNop

/-- The tables after the part of the loop body before the label `skip`, for any R-type word. -/
def rTypeTables (t : AsmTables) (instr : BitVec 32) : AsmTables :=
  if IsArith instr then arithTables t instr else t

/-- The IR of an R-type word: one without a translation is skipped. -/
def rTypeOut (t : AsmTables) (instr : BitVec 32) : List IrRawInstr :=
  if IsArith instr then arithOut (arithTables t instr) instr else []

lemma rTypeTables_eq {instr : BitVec 32} (h : IsArith instr ∨ IsNop instr) (t : AsmTables) :
    rTypeTables t instr = wordTables t instr := by
  rcases h with h | rfl
  · rw [rTypeTables, if_pos h, h.wordTables]
  · rfl

/-- The pass is before the word `k` of a block with the given liveness table, and the
buffer holds at most two instructions for each word before it. -/
structure RawAt (liveness : LivenessTable) (type : TblockType) (k : ℕ) (s : PassState) :
    Prop extends s.At type k where
  capacity_eq : s.block.irCapacity = 256
  irCnt_le : s.block.irCnt ≤ 2 * k
  liveness_eq : s.block.liveness = liveness

/-- The tables after the word `k`: crossing to another fragment flushes them. -/
def tablesAfter (liveness : LivenessTable) (type : TblockType) (k : ℕ) (t : AsmTables) :
    AsmTables :=
  if fragOf type (k + 1) ≠ fragOf type k then
    asmFlushByLiveness mipsToI64 (fragOf type k) liveness t
  else t

section Run

variable {liveness : LivenessTable} {type : TblockType} {k : ℕ} {s : PassState}

lemma RawAt.cross (h : RawAt liveness type k s) (hk : k < 16 * fragWords type)
    (mid : Tblock) (hmid : mid.type = type) (hcap : mid.irCapacity = 256)
    (hcnt : mid.irCnt ≤ 2 * (k + 1)) (hlive : mid.liveness = liveness) :
    RawAt liveness type (k + 1) (rawToIrCross mipsToI64 4 { s with block := mid }) ∧
      (rawToIrCross mipsToI64 4 { s with block := mid }).block.tables =
        tablesAfter liveness type k mid.tables ∧
      (rawToIrCross mipsToI64 4 { s with block := mid }).block.irCnt = mid.irCnt ∧
      (rawToIrCross mipsToI64 4 { s with block := mid }).block.irBuf = mid.irBuf := by
  rw [rawToIrCross_at (s := { s with block := mid }) ⟨hmid, h.bytes_eq, h.blkI_eq⟩ hk,
    tablesAfter]
  split_ifs
  · exact ⟨⟨⟨hmid, rfl, rfl⟩, hcap, hcnt, hlive⟩, by rw [hlive], rfl, rfl⟩
  · exact ⟨⟨⟨hmid, rfl, rfl⟩, hcap, hcnt, hlive⟩, rfl, rfl, rfl⟩

/-- **One word of the pass**, any R-type word: the assertions hold, the tables are those of the
association, flushed at the end of a fragment, and the instructions of the word are added to
the IR list. -/
lemma RawAt.rTypeStep (h : RawAt liveness type k s) (hk : k < 16 * fragWords type)
    {instr : BitVec 32} (hinstr : IsRType instr) :
    ∃ mid s', rawToIrMid s.block instr = some mid ∧
      mid.tables = rTypeTables s.block.tables instr ∧
      s' = rawToIrCross mipsToI64 4 { s with block := mid } ∧
      rawToIrStep s instr = some s' ∧ RawAt liveness type (k + 1) s' ∧
      s'.block.tables = tablesAfter liveness type k mid.tables ∧
      s'.block.ir = s.block.ir ++ rTypeOut s.block.tables instr := by
  have hcap := h.capacity_eq
  have hcnt := h.irCnt_le
  obtain ⟨mid, hmid, htab, htype, hcap', hcnt', hlive, hir⟩ : ∃ mid,
      rawToIrMid s.block instr = some mid ∧ mid.tables = rTypeTables s.block.tables instr ∧
        mid.type = type ∧ mid.irCapacity = 256 ∧ mid.irCnt ≤ 2 * (k + 1) ∧
        mid.liveness = liveness ∧ mid.ir = s.block.ir ++ rTypeOut s.block.tables instr := by
    by_cases harith : IsArith instr
    · have hle : fragWords type ≤ 8 := by cases type <;> decide
      have hlen : (arithOut (arithTables s.block.tables instr) instr).length ≤ 2 :=
        twoOpForm_length_le _ _ _ _
      rw [rTypeTables, rTypeOut, if_pos harith, if_pos harith]
      refine ⟨_, harith.rawToIrMid hcap (by omega), rfl, h.type_eq, hcap, by dsimp only; omega,
        h.liveness_eq, ?_⟩
      exact Tblock.ir_append { s.block with tables := arithTables s.block.tables instr } _
    · rw [rTypeTables, rTypeOut, if_neg harith, if_neg harith, List.append_nil]
      exact ⟨s.block, rawToIrMid_skip hinstr harith _, rfl, h.type_eq, hcap, by omega,
        h.liveness_eq, rfl⟩
  obtain ⟨hat, htables, hirCnt, hirBuf⟩ := h.cross hk mid htype hcap' hcnt' hlive
  refine ⟨mid, _, hmid, htab, rfl, by rw [rawToIrStep_eq, hmid]; rfl, hat, htables, ?_⟩
  -- crossing to another fragment leaves the IR list alone
  rw [← hir, Tblock.ir, hirCnt, hirBuf]
  rfl

/-- **One word of the pass**, an arithmetic word or a `NOP`. -/
lemma RawAt.step (h : RawAt liveness type k s) (hk : k < 16 * fragWords type)
    {instr : BitVec 32} (hinstr : IsArith instr ∨ IsNop instr) :
    ∃ mid s', rawToIrMid s.block instr = some mid ∧
      mid.tables = wordTables s.block.tables instr ∧
      s' = rawToIrCross mipsToI64 4 { s with block := mid } ∧
      rawToIrStep s instr = some s' ∧ RawAt liveness type (k + 1) s' ∧
      s'.block.tables = tablesAfter liveness type k mid.tables := by
  obtain ⟨mid, s', hmid, htab, hs', hstep, hat, htables, -⟩ :=
    h.rTypeStep hk (isRType_of_arith_or_nop hinstr)
  exact ⟨mid, s', hmid, htab.trans (rTypeTables_eq hinstr _), hs', hstep, hat, htables⟩

/-- **The pass goes through.**  On a block of R-type words no assertion fails, and the state
before each word is where it should be. -/
lemma exists_rawToIr_trace (words : List (BitVec 32)) (block : Tblock)
    (hcap : block.irCapacity = 256) (hcnt : block.irCnt = 0)
    (hlen : words.length ≤ 16 * fragWords block.type)
    (hwords : ∀ instr ∈ words, IsRType instr) :
    ∃ st : ℕ → PassState, st 0 = .init block ∧ ∀ k ≤ words.length,
      runs rawToIrStep (.init block) (words.take k) = some (st k) ∧
        RawAt block.liveness block.type k (st k) := by
  have hex : ∀ k ≤ words.length, ∃ s, runs rawToIrStep (.init block) (words.take k) = some s ∧
      RawAt block.liveness block.type k s := by
    intro k hk
    induction k with
    | zero =>
      exact ⟨_, rfl, ⟨PassState.init_at block, hcap, by simp [PassState.init, hcnt], rfl⟩⟩
    | succ k ih =>
      obtain ⟨s, hrun, hat⟩ := ih (by omega)
      obtain ⟨mid, s', -, -, -, hstep, hat', -⟩ := hat.rTypeStep (by omega)
        (hwords _ (List.getElem_mem (show k < words.length by omega)))
      refine ⟨s', ?_, hat'⟩
      rw [← List.take_concat_get' _ _ (show k < words.length by omega), runs_concat, hrun]
      exact hstep
  choose st hst using hex
  refine ⟨fun k => if h : k ≤ words.length then st k h else .init block, ?_, fun k hk => ?_⟩
  · have h0 := (hst 0 (Nat.zero_le _)).1
    simpa using h0.symm
  · simp only [hk, dif_pos]
    exact hst k hk

end Run

end AxVirtLayer
