import AxVirtLayer.Tblock.Meaning
import AxVirtLayer.I64.Agrees

/-!
# The expansion for a host with two operands

`asm_expand_instr` turns `d = s o t` into `d = s; d = d o t`.  The `mov` overwrites the
destination before the second source is read, which is wrong if they are one register and the
first source is another.  A `mov` itself needs no expansion, but it runs through the same
rewriting of its first source, which turns it into `d = d`.
-/

namespace AxVirtLayer

open Lib.Intel64

/-- An instruction over register ids: `d = s o t`, or `d = s` for a `mov`. -/
structure ThreeOp where
  op : Op
  d : ℕ
  s : ℕ
  t : ℕ
deriving DecidableEq, Repr

namespace ThreeOp

/-- The IR instruction of a width. -/
def ir (w : OpWidth) (i : ThreeOp) : IrRawInstr :=
  ⟨irOpi 1 w.ir (irGroupOf i.op),
    if i.op = .mov then .two (.reg i.d) (.reg i.s)
    else .three (.reg i.d) (.reg i.s) (.reg i.t)⟩

/-- **Expansion preserves the meaning** of an instruction of a width: with room for two
instructions the call returns the number of instructions it writes, and these compute what the
instruction computes, on every register file. -/
def ExpansionPreserves (w : OpWidth) (i : ThreeOp) : Prop :=
  ∀ bufLen ≥ 2, ∃ count out, asmExpandInstr mipsToI64 (i.ir w) bufLen = some (count, out) ∧
    count = out.length ∧ ∀ ρ : ℕ → BitVec w.bits, irExecAll ρ out = irExec ρ (i.ir w)

/-- The rewriting loses no source: the destination of a `mov` is its source, and the
destination of another instruction is its second source only if it is its first one, too. -/
def KeepsSources (i : ThreeOp) : Prop :=
  if i.op = .mov then i.d = i.s else i.d = i.t → i.d = i.s

instance (i : ThreeOp) : Decidable i.KeepsSources := by
  unfold KeepsSources
  infer_instance

variable {w : OpWidth} {i : ThreeOp}

/-! ## What the call writes -/

/-- The instructions the call writes. -/
def expanded (w : OpWidth) (i : ThreeOp) : List IrRawInstr :=
  if i.op = .mov then [⟨irOpi 1 w.ir irGroupMov, .two (.reg i.d) (.reg i.d)⟩]
  else twoOpForm (irOpi 1 w.ir (irGroupOf i.op)) i.d i.s i.t

/-- Of the groups in question only the moves have the flag `IR_DEST_NEQ_SRC`. -/
lemma irOpcodeFlags_irOpi (w : OpWidth) (op : Op) :
    irOpcodeFlags (irOpi 1 w.ir (irGroupOf op)) &&& irDestNeqSrc = 0 ↔ op ≠ .mov := by
  cases op <;> cases w <;> decide

/-- An instruction with the flag gets no `mov` before it, and its first source is replaced by
its destination all the same. -/
lemma asmExpandInstr_two {opcode : IrOpcode}
    (hflag : ¬ irOpcodeFlags opcode &&& irDestNeqSrc = 0) (a b : IrOperand) {bufLen : ℕ}
    (hlen : 2 ≤ bufLen) :
    asmExpandInstr mipsToI64 ⟨opcode, .two a b⟩ bufLen = some (1, [⟨opcode, .two a a⟩]) := by
  rw [asmExpandInstr, if_neg (by omega), if_neg (by decide), if_pos (by decide),
    if_neg (by omega)]
  simp only [hflag, and_false, if_false]
  rfl

lemma asmExpandInstr_ir {bufLen : ℕ} (hlen : 2 ≤ bufLen) :
    asmExpandInstr mipsToI64 (i.ir w) bufLen =
      some ((i.expanded w).length, i.expanded w) := by
  by_cases hmov : i.op = .mov
  · simp only [ir, expanded, hmov, if_true]
    exact asmExpandInstr_two (fun h => (irOpcodeFlags_irOpi w .mov).1 h rfl) _ _ hlen
  · have hflag := (irOpcodeFlags_irOpi w i.op).2 hmov
    simp only [ir, expanded, if_neg hmov]
    exact asmExpandInstr_reg hflag i.d i.s i.t hlen

/-! ## What the instructions compute -/

/-- The value an instruction computes. -/
def value (i : ThreeOp) {n : ℕ} (ρ : ℕ → BitVec n) : BitVec n :=
  if i.op = .mov then ρ i.s else i.op.eval (ρ i.s) (ρ i.t)

lemma irExec_ir {n : ℕ} (w : OpWidth) (i : ThreeOp) (ρ : ℕ → BitVec n) :
    irExec ρ (i.ir w) = Function.update ρ i.d (i.value ρ) := by
  by_cases hmov : i.op = .mov
  · simp only [ir, value, hmov, if_true]
    exact irExec_mov (irOpcodeGroup_irOpi w .mov) ρ _
  · simp only [ir, value, if_neg hmov]
    refine irExec_binop ?_
    rw [irOpcodeGroup_irOpi]
    exact irBinop_irGroupOf hmov _ _

lemma irExecAll_expanded {n : ℕ} (h : i.KeepsSources) (ρ : ℕ → BitVec n) :
    irExecAll ρ (i.expanded w) = Function.update ρ i.d (i.value ρ) := by
  rw [KeepsSources] at h
  by_cases hmov : i.op = .mov
  · rw [if_pos hmov] at h
    simp only [expanded, value, if_pos hmov, h]
    exact irExec_mov (irOpcodeGroup_irOpi w .mov) ρ _
  · rw [if_neg hmov] at h
    simp only [expanded, value, if_neg hmov]
    refine irExecAll_twoOpForm ?_ h
    rw [irOpcodeGroup_irOpi]
    exact irBinop_irGroupOf hmov _ _

/-! ## Where the meaning is lost -/

/-- An expanded move leaves every register as it is. -/
lemma irExecAll_expanded_mov {n : ℕ} (hmov : i.op = .mov) (ρ : ℕ → BitVec n) :
    irExecAll ρ (i.expanded w) = ρ := by
  have hexec : irExec ρ ⟨irOpi 1 w.ir irGroupMov, .two (.reg i.d) (.reg i.d)⟩ =
      Function.update ρ i.d (ρ i.d) := irExec_mov (irOpcodeGroup_irOpi w .mov) ρ _
  rw [expanded, if_pos hmov, irExecAll_cons, irExecAll_nil, hexec, Function.update_eq_self]

/-- With the destination as its second source the instruction computes from the first source
alone. -/
lemma irExecAll_expanded_clobber {n : ℕ} (hop : i.op ≠ .mov) (hdt : i.d = i.t)
    (hds : i.d ≠ i.s) (ρ : ℕ → BitVec n) :
    irExecAll ρ (i.expanded w) i.d = i.op.eval (ρ i.s) (ρ i.s) := by
  have hmov := irExec_mov (irOpcodeGroup_swapGroup (irOpi 1 w.ir (irGroupOf i.op)) irGroupMov) ρ
    (.two (.reg i.d) (.reg i.s))
  have hbin : irExec (Function.update ρ i.d (ρ i.s))
      ⟨irOpi 1 w.ir (irGroupOf i.op), .three (.reg i.d) (.reg i.d) (.reg i.d)⟩ =
        Function.update (Function.update ρ i.d (ρ i.s)) i.d (i.op.eval (ρ i.s) (ρ i.s)) := by
    refine irExec_binop ?_
    rw [irOpcodeGroup_irOpi, irBinop_irGroupOf hop]
    simp
  rw [expanded, if_neg hop, twoOpForm, if_pos hds, ← hdt]
  simp only [irExecAll_cons, irExecAll_nil, hmov]
  exact (congrFun hbin i.d).trans (Function.update_self ..)

/-- Values of the sources on which the operation depends on the second one. -/
def probeSources (op : Op) : ℕ × ℕ := if op = .or then (0, 1) else (1, 0)

lemma eval_probeSources_ne (w : OpWidth) (op : Op) :
    op.eval (BitVec.ofNat w.bits (probeSources op).1) (BitVec.ofNat w.bits (probeSources op).1) ≠
      op.eval (BitVec.ofNat w.bits (probeSources op).1)
        (BitVec.ofNat w.bits (probeSources op).2) := by
  cases op <;> cases w <;> decide

/-- An instruction that loses a source computes something else on some register file. -/
lemma not_preserves_of_not_keeps (h : ¬ i.KeepsSources) : ¬ i.ExpansionPreserves w := by
  intro hpres
  obtain ⟨count, out, hcall, -, hagree⟩ := hpres 2 le_rfl
  rw [asmExpandInstr_ir le_rfl] at hcall
  obtain ⟨-, rfl⟩ := Prod.mk.inj (Option.some_injective _ hcall)
  have hne := eval_probeSources_ne w i.op
  rw [KeepsSources] at h
  generalize BitVec.ofNat w.bits (probeSources i.op).1 = x at hne
  generalize BitVec.ofNat w.bits (probeSources i.op).2 = y at hne
  have hd := congrFun (hagree (Function.update (fun _ => y) i.s x)) i.d
  rw [irExec_ir, Function.update_self, value] at hd
  by_cases hmov : i.op = .mov
  · rw [if_pos hmov] at h hd
    rw [irExecAll_expanded_mov hmov, Function.update_of_ne h, Function.update_self] at hd
    rw [hmov] at hne
    exact hne hd.symm
  · rw [if_neg hmov] at h hd
    obtain ⟨hdt, hds⟩ := Classical.not_imp.1 h
    rw [irExecAll_expanded_clobber hmov hdt hds, Function.update_self, ← hdt,
      Function.update_of_ne hds] at hd
    exact hne hd

/-- **Operand expansion preserves the meaning** of exactly the instructions that lose no
source in the rewriting. -/
theorem expansionPreserves_iff (w : OpWidth) (i : ThreeOp) :
    i.ExpansionPreserves w ↔ i.KeepsSources := by
  constructor
  · intro h
    by_contra hlost
    exact not_preserves_of_not_keeps hlost h
  · intro h bufLen hlen
    refine ⟨_, _, asmExpandInstr_ir hlen, rfl, fun ρ => ?_⟩
    rw [irExecAll_expanded h, irExec_ir]

/-- `r0 = r1 - r0` becomes `r0 = r1; r0 = r0 - r0`, and `r0 = r1` becomes `r0 = r0`. -/
theorem expansion_loses_sources :
    ¬ ExpansionPreserves .w32 ⟨.sub, 0, 1, 0⟩ ∧ ¬ ExpansionPreserves .w32 ⟨.mov, 0, 1, 0⟩ :=
  ⟨not_preserves_of_not_keeps (by decide), not_preserves_of_not_keeps (by decide)⟩

end ThreeOp

end AxVirtLayer
