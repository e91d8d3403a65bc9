import AxVirtLayer.I64.Lower

/-!
# Lowering and the meaning of the instructions

The bytes `tblock_ir_to_raw` writes for a list of two-operand instructions, decoded and
executed, have the effect of the IR instructions exactly if each instruction is one of those
`TwoOp.Encodes` describes: `loweringAgrees_iff`.
-/

namespace AxVirtLayer

open Lib.Intel64

/-- The lowering of the instructions keeps their meaning: each of them has an opcode, and the
bytes of a block that holds them decode to a program that agrees, modulo the width and in all
16 registers, with the instructions. -/
def LoweringAgrees (w : OpWidth) (is : List TwoOp) : Prop :=
  (∀ i ∈ is, ∃ opcode operands, i64IrOpcodeConv (i.ir w) = .ok (opcode, operands)) ∧
    ∀ (guest : MteArch) (block : Tblock), block.ir = is.map (TwoOp.ir w) →
      ∃ block' out count insns, tblockIrToRaw ⟨guest, .intel64⟩ block = .ok (block', out, count) ∧
        decodeAll out = some insns ∧ ∀ ρ : RegFile, ∃ ρ', execAll ρ insns = some ρ' ∧
          ∀ r < 16, (ρ' r).setWidth w.bits =
            irExecAll (fun n => (ρ n).setWidth w.bits) (is.map (TwoOp.ir w)) r

/-- When an instruction keeps its meaning: the wide opcodes swap the extension bits of the two
operands, and the 8-bit ones have no REX prefix at all. -/
def TwoOp.Encodes (w : OpWidth) (i : TwoOp) : Prop :=
  if w = .w8 then i.op ≠ .mov ∧
    ((i.d < 4 ∧ i.s < 4) ∨ (i.d = i.s ∧ (i.op = .or ∨ i.op = .and)))
  else regExt i.d = regExt i.s

/-! ## Instructions that keep their meaning -/

lemma irOpcodeGroup_irOpi (w : OpWidth) (op : Op) :
    irOpcodeGroup (irOpi 1 w.ir (irGroupOf op)) = irOpcodeGroup (irGroupOf op) := by
  cases op <;> cases w <;> decide

lemma irBinop_irGroupOf {n : ℕ} {op : Op} (h : op ≠ .mov) (a b : BitVec n) :
    irBinop (irOpcodeGroup (irGroupOf op)) a b = some (op.eval a b) := by
  cases op
  case mov => exact absurd rfl h
  all_goals rfl

/-- The effect of an IR instruction of two operands. -/
lemma irExec_ir {n : ℕ} (w : OpWidth) (i : TwoOp) (σ : ℕ → BitVec n) :
    irExec σ (i.ir w) = Function.update σ i.d (i.op.eval (σ i.d) (σ i.s)) := by
  by_cases hmov : i.op = .mov
  · rw [TwoOp.ir, if_pos hmov, irExec_mov (by rw [irOpcodeGroup_irOpi, hmov]; rfl), hmov]
    rfl
  · rw [TwoOp.ir, if_neg hmov]
    refine irExec_binop ?_
    rw [irOpcodeGroup_irOpi]
    exact irBinop_irGroupOf hmov _ _

/-- A register file modulo the width. -/
def modWidth (w : OpWidth) (ρ : RegFile) : ℕ → BitVec w.bits := fun n => (ρ n).setWidth w.bits

lemma modWidth_update (w : OpWidth) (ρ : RegFile) (n : ℕ) (v : BitVec 64) :
    modWidth w (Function.update ρ n v) =
      Function.update (modWidth w ρ) n (v.setWidth w.bits) := by
  funext r
  by_cases h : r = n
  · subst h
    simp [modWidth]
  · simp [modWidth, h]

/-- The effect of the decoded instruction. -/
lemma exec_insn (w : OpWidth) (i : TwoOp) (ρ : RegFile) :
    exec ρ (i.insn w) = some (execReg ρ i.op (sizeOfWide (TwoOp.wide w))
      (TwoOp.decoded w (regExt i.s) i.d) (TwoOp.decoded w (regExt i.d) i.s)) := rfl

/-- A wide instruction with both operands in one half. -/
lemma execReg_wide (op : Op) (w : OpWidth) (ρ : RegFile) (d s : ℕ) :
    modWidth w (execReg ρ op .b64 (.low d) (.low s)) =
      Function.update (modWidth w ρ) d (op.eval (modWidth w ρ d) (modWidth w ρ s)) := by
  have hle : w.bits ≤ 64 := by cases w <;> decide
  have hval : mergeLow .b64 (ρ d) (op.eval (readReg ρ .b64 (.low d)) (readReg ρ .b64 (.low s))) =
      op.eval (ρ d) (ρ s) := by
    simp [mergeLow, readReg, Size.bits]
  rw [execReg, writeReg, hval, modWidth_update, Op.eval_setWidth hle]
  rfl

/-- An instruction on the low bytes of registers. -/
lemma execReg_byte (op : Op) (ρ : RegFile) (d s : ℕ) :
    modWidth .w8 (execReg ρ op .b8 (.low d) (.low s)) =
      Function.update (modWidth .w8 ρ) d (op.eval (modWidth .w8 ρ d) (modWidth .w8 ρ s)) := by
  rw [execReg, writeReg, modWidth_update]
  exact congrArg (Function.update (modWidth .w8 ρ) d) (mergeLow_b8_setWidth (ρ d) _)

/-- `OR` and `AND` of a value with itself. -/
lemma eval_self {n : ℕ} {op : Op} (h : op = .or ∨ op = .and) (a : BitVec n) : op.eval a a = a := by
  rcases h with rfl | rfl
  · exact BitVec.or_self
  · exact BitVec.and_self

lemma regOf_low : ∀ n < 4, regOf .b8 none (n % 8) = .low n := by
  decide

/-- **One instruction.**  An instruction that meets the condition has its effect. -/
lemma exec_agrees {w : OpWidth} {i : TwoOp} (h : i.Encodes w) (ρ : RegFile) :
    ∃ ρ', exec ρ (i.insn w) = some ρ' ∧ modWidth w ρ' = irExec (modWidth w ρ) (i.ir w) := by
  refine ⟨_, exec_insn w i ρ, ?_⟩
  rw [irExec_ir]
  rw [TwoOp.Encodes] at h
  by_cases hw : w = .w8
  · subst hw
    rw [if_pos rfl] at h
    obtain ⟨-, ⟨hd, hs⟩ | ⟨hds, hop⟩⟩ := h
    · have hdest : TwoOp.decoded .w8 (regExt i.s) i.d = .low i.d := regOf_low _ hd
      have hsrc : TwoOp.decoded .w8 (regExt i.d) i.s = .low i.s := regOf_low _ hs
      rw [hdest, hsrc]
      exact execReg_byte i.op ρ i.d i.s
    · have hsame : TwoOp.decoded .w8 (regExt i.d) i.s = TwoOp.decoded .w8 (regExt i.s) i.d := by
        rw [hds]
      rw [hsame, execReg, eval_self hop, hds, eval_self hop, Function.update_eq_self]
      exact congrArg (modWidth .w8) (writeReg_readReg_b8 ρ _)
  · rw [if_neg hw] at h
    have hwide : TwoOp.wide w = true := decide_eq_true hw
    have hdest : TwoOp.decoded w (regExt i.s) i.d = .low i.d := by
      rw [TwoOp.decoded, if_pos hwide, ← h,
        (extend_eq_iff (Nat.mod_lt _ (by decide)) i.d.2 _).2 ⟨rfl, rfl⟩]
    have hsrc : TwoOp.decoded w (regExt i.d) i.s = .low i.s := by
      rw [TwoOp.decoded, if_pos hwide, h,
        (extend_eq_iff (Nat.mod_lt _ (by decide)) i.s.2 _).2 ⟨rfl, rfl⟩]
    rw [hdest, hsrc, hwide]
    exact execReg_wide i.op w ρ i.d i.s

/-- **A list of instructions**, by induction over the list. -/
lemma execAll_agrees {w : OpWidth} {is : List TwoOp} (h : ∀ i ∈ is, i.Encodes w) (ρ : RegFile) :
    ∃ ρ', execAll ρ (is.map (TwoOp.insn w)) = some ρ' ∧
      modWidth w ρ' = irExecAll (modWidth w ρ) (is.map (TwoOp.ir w)) := by
  induction is generalizing ρ with
  | nil => exact ⟨ρ, rfl, rfl⟩
  | cons i is ih =>
    obtain ⟨ρ₁, hexec, hagree⟩ := exec_agrees (h i List.mem_cons_self) ρ
    obtain ⟨ρ₂, hrest, hagreeRest⟩ := ih (fun j hj => h j (List.mem_cons_of_mem _ hj)) ρ₁
    refine ⟨ρ₂, ?_, ?_⟩
    · rw [List.map_cons, execAll, List.foldlM_cons, hexec]
      exact hrest
    · rw [hagreeRest, hagree]
      rfl

/-- An instruction that meets the condition has an opcode. -/
lemma not_noOpcode {w : OpWidth} {i : TwoOp} (h : i.Encodes w) : ¬ i.NoOpcode w := by
  rintro ⟨hw, hmov⟩
  rw [TwoOp.Encodes, if_pos hw] at h
  exact h.1 hmov

lemma decodeAll_bytes (w : OpWidth) (is : List TwoOp) :
    decodeAll (is.flatMap (TwoOp.bytes w)) = some (is.map (TwoOp.insn w)) :=
  decodeAll_flatMap fun i _ tail => decode_bytes w i tail

/-- Instructions that meet the condition keep their meaning. -/
lemma loweringAgrees_of_encodes {w : OpWidth} {is : List TwoOp} (h : ∀ i ∈ is, i.Encodes w) :
    LoweringAgrees w is := by
  have hopcode : ∀ i ∈ is, ¬ i.NoOpcode w := fun i hi => not_noOpcode (h i hi)
  refine ⟨fun i hi => ?_, fun guest block hblock => ?_⟩
  · rw [i64IrOpcodeConv_ir, if_neg (hopcode i hi)]
    exact ⟨_, _, rfl⟩
  · obtain ⟨block', count, hpass⟩ := tblockIrToRaw_map guest w hopcode hblock
    refine ⟨block', _, count, _, hpass, decodeAll_bytes w is, fun ρ => ?_⟩
    obtain ⟨ρ', hexec, hagree⟩ := execAll_agrees h ρ
    exact ⟨ρ', hexec, fun r _ => congrFun hagree r⟩

/-! ## Instructions that do not -/

/-- The value of the source in the register file that tells an instruction from another. -/
def probeAt (op : Op) : BitVec 64 := if op = .and then 0 else 1

/-- The value of the other registers. -/
def probeElse (op : Op) : BitVec 64 := if op = .and then 0x101 else 0

/-- The register file that tells an instruction with the source `s` from another. -/
def probe (op : Op) (s : ℕ) : RegFile := fun r => if r = s then probeAt op else probeElse op

/-- The operation changes the destination of the register file. -/
lemma eval_probe_ne (w : OpWidth) (op : Op) (same : Bool)
    (h : same = true → op = .add ∨ op = .sub) :
    (if same then probeAt op else probeElse op).setWidth w.bits ≠
      op.eval ((if same then probeAt op else probeElse op).setWidth w.bits)
        ((probeAt op).setWidth w.bits) := by
  cases same
  · clear h
    cases op <;> cases w <;> decide
  · rcases h rfl with rfl | rfl
    · cases w <;> decide
    · cases w <;> decide

/-- With another byte than the one of the source the operation computes another value. -/
lemma eval_probe_byte_ne {op : Op} (hop : op ≠ .mov) (reg : Reg) {s : ℕ} (h : reg.num ≠ s) :
    op.eval ((probeElse op).setWidth 8) (readReg (probe op s) .b8 reg) ≠
      op.eval ((probeElse op).setWidth 8) ((probeAt op).setWidth 8) := by
  have hread : probe op s reg.num = probeElse op := if_neg h
  cases reg with
  | low n =>
    have hbyte : readReg (probe op s) .b8 (.low n) = (probeElse op).setWidth 8 :=
      congrArg (BitVec.setWidth 8) hread
    rw [hbyte]
    revert hop
    cases op <;> decide
  | high n =>
    have hbyte : readReg (probe op s) .b8 (.high n) = (probeElse op >>> 8).setWidth 8 :=
      congrArg (fun x : BitVec 64 => (x >>> 8).setWidth 8) hread
    rw [hbyte]
    revert hop
    cases op <;> decide

lemma regOf_num_ne : ∀ n < 16, 4 ≤ n → (regOf .b8 none (n % 8)).num ≠ n := by
  decide

lemma extend_ne : ∀ d < 16, ∀ ext : Bool, ext ≠ regExt d → extend ext (d % 8) ≠ d := by
  decide

/-- An instruction whose decoded destination is another register loses its effect. -/
lemma not_agree_of_dest_ne {w : OpWidth} {i : TwoOp}
    (hdest : (TwoOp.decoded w (regExt i.s) i.d).num ≠ i.d)
    (hsame : i.d = i.s → i.op = .add ∨ i.op = .sub) :
    ∃ ρ ρ', exec ρ (i.insn w) = some ρ' ∧
      modWidth w ρ' i.d ≠ irExec (modWidth w ρ) (i.ir w) i.d := by
  refine ⟨probe i.op i.s, _, exec_insn w i _, ?_⟩
  have hold : modWidth w (execReg (probe i.op i.s) i.op (sizeOfWide (TwoOp.wide w))
      (TwoOp.decoded w (regExt i.s) i.d) (TwoOp.decoded w (regExt i.d) i.s)) i.d =
      modWidth w (probe i.op i.s) i.d :=
    congrArg (BitVec.setWidth w.bits) (writeReg_of_ne _ _ _ hdest)
  have hs : probe i.op i.s i.s = probeAt i.op := if_pos rfl
  have hd : probe i.op i.s i.d = if decide (i.d = i.s) then probeAt i.op else probeElse i.op := by
    simp [probe, Fin.ext_iff]
  have hne := eval_probe_ne w i.op (decide (i.d = i.s)) (fun h => hsame (of_decide_eq_true h))
  rw [hold, irExec_ir, Function.update_self]
  simpa only [modWidth, hs, hd] using hne

/-- A byte instruction whose decoded source is another register computes another value. -/
lemma not_agree_of_src_ne {i : TwoOp} (hop : i.op ≠ .mov) (hd : i.d < 4) (hs : ¬ i.s < 4) :
    ∃ ρ ρ', exec ρ (i.insn .w8) = some ρ' ∧
      modWidth .w8 ρ' i.d ≠ irExec (modWidth .w8 ρ) (i.ir .w8) i.d := by
  refine ⟨probe i.op i.s, _, exec_insn .w8 i _, ?_⟩
  have hdest : TwoOp.decoded .w8 (regExt i.s) i.d = .low i.d := regOf_low _ hd
  have hnum : (TwoOp.decoded .w8 (regExt i.d) i.s).num ≠ i.s :=
    regOf_num_ne i.s i.s.2 (Nat.not_lt.1 hs)
  have hne : i.d.val ≠ i.s.val := fun h => hs (Fin.ext h ▸ hd)
  have hvalue : probe i.op i.s i.d = probeElse i.op := if_neg hne
  have hsource : probe i.op i.s i.s = probeAt i.op := if_pos rfl
  have hbyte := eval_probe_byte_ne hop _ hnum
  rw [hdest, irExec_ir, Function.update_self, execReg, writeReg, modWidth_update,
    Function.update_self]
  have hmerge : ∀ v : BitVec 8,
      (mergeLow .b8 (probe i.op i.s i.d) v).setWidth 8 = v := mergeLow_b8_setWidth _
  have hread : readReg (probe i.op i.s) .b8 (.low i.d) = (probeElse i.op).setWidth 8 :=
    congrArg (BitVec.setWidth 8) hvalue
  refine fun heq => hbyte ?_
  rw [← hread]
  refine (hmerge _).symm.trans (heq.trans ?_)
  rw [modWidth, modWidth, hsource]
  rfl

/-- The instruction of a block of its own keeps its meaning only if it meets the condition. -/
lemma encodes_of_loweringAgrees {w : OpWidth} {i : TwoOp} (h : LoweringAgrees w [i]) :
    i.Encodes w := by
  obtain ⟨hconv, hpass⟩ := h
  have hopcode : ¬ i.NoOpcode w := by
    intro hno
    obtain ⟨opcode, operands, heq⟩ := hconv i List.mem_cons_self
    rw [i64IrOpcodeConv_ir, if_pos hno] at heq
    cases heq
  have hagree : ∀ ρ ρ', exec ρ (i.insn w) = some ρ' →
      modWidth w ρ' i.d = irExec (modWidth w ρ) (i.ir w) i.d := by
    intro ρ ρ' hexec
    let block : Tblock := { tblockAlloc (fun _ => i.ir w) .tblockSmall with irCnt := 1 }
    obtain ⟨block', out, count, insns, hrun, hdecode, heffect⟩ := hpass .mips32 block rfl
    have hblock : block.ir = [i].map (TwoOp.ir w) := rfl
    obtain ⟨block'', count', hrun'⟩ := tblockIrToRaw_map .mips32 w
      (fun j hj => by rw [List.mem_singleton.1 hj]; exact hopcode) hblock
    rw [hrun'] at hrun
    cases hrun
    rw [decodeAll_bytes] at hdecode
    cases hdecode
    obtain ⟨ρ'', hexecAll, heq⟩ := heffect ρ
    have hlast : execAll ρ ([i].map (TwoOp.insn w)) = some ρ' := by
      rw [List.map_singleton, execAll, List.foldlM_cons, hexec]
      rfl
    rw [hlast] at hexecAll
    cases hexecAll
    exact heq i.d i.d.2
  by_contra hnot
  have hbad : ∃ ρ ρ', exec ρ (i.insn w) = some ρ' ∧
      modWidth w ρ' i.d ≠ irExec (modWidth w ρ) (i.ir w) i.d := by
    rw [TwoOp.Encodes] at hnot
    by_cases hw : w = .w8
    · subst hw
      rw [if_pos rfl] at hnot
      have hop : i.op ≠ .mov := fun hmov => hopcode ⟨rfl, hmov⟩
      by_cases hd : i.d < 4
      · exact not_agree_of_src_ne hop hd fun hs => hnot ⟨hop, Or.inl ⟨hd, hs⟩⟩
      · refine not_agree_of_dest_ne (regOf_num_ne i.d i.d.2 (Nat.not_lt.1 hd)) fun hds => ?_
        have hor : i.op ≠ .or := fun hor => hnot ⟨hop, Or.inr ⟨hds, Or.inl hor⟩⟩
        have hand : i.op ≠ .and := fun hand => hnot ⟨hop, Or.inr ⟨hds, Or.inr hand⟩⟩
        revert hop hor hand
        cases i.op <;> decide
    · rw [if_neg hw] at hnot
      refine not_agree_of_dest_ne ?_ fun hds => absurd (by rw [hds]) hnot
      rw [TwoOp.decoded, if_pos (show TwoOp.wide w = true from decide_eq_true hw)]
      exact extend_ne i.d i.d.2 _ (Ne.symm hnot)
  obtain ⟨ρ, ρ', hexec, hne⟩ := hbad
  exact hne (hagree ρ ρ' hexec)

/-- **Lowering.**  The instructions of a list keep their meaning, in every list made of them,
exactly if each of them meets the condition. -/
theorem loweringAgrees_iff (w : OpWidth) (is : List TwoOp) :
    (∀ js, js ⊆ is → LoweringAgrees w js) ↔ ∀ i ∈ is, i.Encodes w := by
  constructor
  · intro h i hi
    exact encodes_of_loweringAgrees (h [i] (List.cons_subset.2 ⟨hi, List.nil_subset _⟩))
  · intro h js hjs
    exact loweringAgrees_of_encodes fun j hj => h j (hjs hj)

/-- `ADD_I64` with the operands 0, 0, 8 becomes `ADD r8, rAX`. -/
theorem lowering_swaps_extensions :
    ¬ ∀ (w : OpWidth) (is : List TwoOp), LoweringAgrees w is := by
  intro h
  have hencodes := encodes_of_loweringAgrees (h .w64 [⟨.add, 0, 8, nofun⟩])
  rw [TwoOp.Encodes, if_neg (by decide)] at hencodes
  exact absurd hencodes (by decide)

end AxVirtLayer
