import AxVirtLayer.I64.Agrees
import AxVirtLayer.Tblock.Reuse

/-!
# The code of a block

`tblock_emit` from the guest words to the host bytes.  As long as the pass finds every register
of a word where a placement puts it, all of them in one half of the host registers, the bytes
`tblock_emit` writes are one program for the whole block: decoded and executed, they leave in the
placed registers what the guest machine computes.  `emissions_execute` says so of every emission
through one block; the loop of `main` is an instance.

The condition is on the pass alone: it does not depend on the values in the registers.
-/

namespace AxVirtLayer

open Lib Lib.Intel64

/-- The effect of a list of words on the guest registers. -/
def guestExecAll (ρ : GuestFile) (words : List (BitVec 32)) : GuestFile := words.foldl guestExec ρ

/-- A host register for each guest register of a block: no two share one, and they are all in
one half, since the lowering swaps the extension bits of two operands. -/
structure Placement where
  regs : List ℕ
  loc : ℕ → Fin 16
  injective : ∀ r ∈ regs, ∀ r' ∈ regs, loc r = loc r' → r = r'
  one_half : ∀ r ∈ regs, ∀ r' ∈ regs, regExt (loc r) = regExt (loc r')

namespace Placement

variable (p : Placement)

/-- The host registers hold the placed registers in their low halves. -/
def Loaded (ρ : RegFile) (guest : GuestFile) : Prop :=
  ∀ r ∈ p.regs, (ρ (p.loc r)).setWidth 32 = guestRead guest r

/-- The pass translates the arithmetic word under the placement. -/
structure ArithAt (t : AsmTables) (instr : BitVec 32) : Prop where
  named : ∀ r ∈ wordRegs instr, r ∈ p.regs
  placed : ∀ r ∈ wordRegs instr, opLoc (arithTables t instr) r = p.loc r
  /-- Register 0 is translated like every other register. -/
  rd_ne_zero : mips32Rd instr ≠ 0
  /-- The `mov` to the destination comes before the second source is read. -/
  not_clobbered : mips32Rd instr = mips32Rt instr → mips32Rd instr = mips32Rs instr

instance (t : AsmTables) (instr : BitVec 32) : Decidable (p.ArithAt t instr) :=
  decidable_of_iff ((∀ r ∈ wordRegs instr, r ∈ p.regs) ∧
      (∀ r ∈ wordRegs instr, opLoc (arithTables t instr) r = p.loc r) ∧ mips32Rd instr ≠ 0 ∧
      (mips32Rd instr = mips32Rt instr → mips32Rd instr = mips32Rs instr))
    ⟨fun ⟨hnamed, hplaced, hrd, hclob⟩ => ⟨hnamed, hplaced, hrd, hclob⟩,
      fun ⟨hnamed, hplaced, hrd, hclob⟩ => ⟨hnamed, hplaced, hrd, hclob⟩⟩

/-- The condition on a word and on the pass before it. -/
def WordAt (s : PassState) (instr : BitVec 32) : Prop :=
  IsNop instr ∨ p.ArithAt s.block.tables instr

instance (s : PassState) (instr : BitVec 32) : Decidable (p.WordAt s instr) :=
  inferInstanceAs (Decidable (_ ∨ _))

/-! ## Host code for guest words -/

/-- The host instructions do for the placed registers what the words do. -/
structure Implements (is : List TwoOp) (words : List (BitVec 32)) : Prop where
  encodes : ∀ i ∈ is, i.Encodes .w32
  /-- Only host registers of the placement are written. -/
  dest : ∀ i ∈ is, ∃ r ∈ p.regs, i.d = p.loc r
  agrees : ∀ (σ : ℕ → BitVec 32) (guest : GuestFile),
    (∀ r ∈ p.regs, σ (p.loc r) = guestRead guest r) →
      ∀ r ∈ p.regs, irExecAll σ (is.map (TwoOp.ir .w32)) (p.loc r) =
        guestRead (guestExecAll guest words) r

variable {p}

lemma Implements.nil : p.Implements [] [] where
  encodes := nofun
  dest := nofun
  agrees _ _ h := h

/-- Code after code. -/
lemma Implements.append {is is' : List TwoOp} {words words' : List (BitVec 32)}
    (h : p.Implements is words) (h' : p.Implements is' words') :
    p.Implements (is ++ is') (words ++ words') where
  encodes i hi := (List.mem_append.1 hi).elim (h.encodes i) (h'.encodes i)
  dest i hi := (List.mem_append.1 hi).elim (h.dest i) (h'.dest i)
  agrees σ guest hσ r hr := by
    rw [List.map_append, irExecAll, List.foldl_append, guestExecAll, List.foldl_append]
    exact h'.agrees _ _ (h.agrees σ guest hσ) r hr

/-- A `NOP` needs no code. -/
lemma implements_nop : p.Implements [] [0] where
  encodes := nofun
  dest := nofun
  agrees σ guest hσ r hr := by
    rw [guestExecAll, List.foldl_cons, guestExec_nop]
    exact hσ r hr

/-- The opcode of an arithmetic word. -/
lemma exists_op_of_isArith {instr : BitVec 32} (h : IsArith instr) :
    ∃ op ≠ Op.mov, mips32ToIrTable (mips32Funct instr) = irOpi 1 OpWidth.w32.ir (irGroupOf op) := by
  rcases h.2 with h | h | h | h
  · exact ⟨.add, by decide, by rw [h]; rfl⟩
  · exact ⟨.or, by decide, by rw [h]; rfl⟩
  · exact ⟨.and, by decide, by rw [h]; rfl⟩
  · exact ⟨.sub, by decide, by rw [h]; rfl⟩

/-- The code of the two-operand form, for host registers of one half. -/
lemma exists_twoOps {op : Op} (hop : op ≠ .mov) {d s t : Fin 16} (hs : regExt d = regExt s)
    (ht : regExt d = regExt t) :
    ∃ is : List TwoOp, twoOpForm (irOpi 1 OpWidth.w32.ir (irGroupOf op)) d s t =
        is.map (TwoOp.ir .w32) ∧ ∀ i ∈ is, i.Encodes .w32 ∧ i.d = d := by
  have hthree : (⟨irOpi 1 OpWidth.w32.ir (irGroupOf op), .three (.reg d) (.reg d) (.reg t)⟩ :
      IrRawInstr) = TwoOp.ir .w32 ⟨op, d, t, fun h => absurd h hop⟩ := by
    rw [TwoOp.ir, if_neg hop]
  by_cases hds : d = s
  · refine ⟨[⟨op, d, t, fun h => absurd h hop⟩], ?_, ?_⟩
    · rw [twoOpForm, if_neg (by simp [hds]), hthree]
      rfl
    · intro i hi
      obtain rfl := List.mem_singleton.1 hi
      exact ⟨ht, rfl⟩
  · have hswap : irOpcodeSwapGroup (irOpi 1 OpWidth.w32.ir (irGroupOf op)) irGroupMov =
        irOpi 1 OpWidth.w32.ir (irGroupOf .mov) := by
      cases op <;> decide
    refine ⟨[⟨.mov, d, s, fun _ => hds⟩, ⟨op, d, t, fun h => absurd h hop⟩], ?_, ?_⟩
    · rw [twoOpForm, if_pos fun h => hds (Fin.ext h), hthree, hswap]
      rfl
    · intro i hi
      rcases List.mem_pair.1 hi with rfl | rfl
      · exact ⟨hs, rfl⟩
      · exact ⟨ht, rfl⟩

/-- **The code of an arithmetic word.** -/
lemma ArithAt.implements {t : AsmTables} {instr : BitVec 32} (h : p.ArithAt t instr)
    (harith : IsArith instr) : ∃ is : List TwoOp,
      arithOut (arithTables t instr) instr = is.map (TwoOp.ir .w32) ∧ p.Implements is [instr] := by
  obtain ⟨op, hop, htable⟩ := exists_op_of_isArith harith
  have hmem : mips32Rd instr ∈ wordRegs instr ∧ mips32Rs instr ∈ wordRegs instr ∧
      mips32Rt instr ∈ wordRegs instr := by simp [wordRegs]
  obtain ⟨hd, hs, ht⟩ := hmem
  obtain ⟨is, hform, his⟩ := exists_twoOps hop
    (p.one_half _ (h.named _ hd) _ (h.named _ hs)) (p.one_half _ (h.named _ hd) _ (h.named _ ht))
  have hout : arithOut (arithTables t instr) instr = is.map (TwoOp.ir .w32) := by
    rw [arithOut, h.placed _ hd, h.placed _ hs, h.placed _ ht, htable, hform]
  refine ⟨is, hout, fun i hi => (his i hi).1, fun i hi => ⟨_, h.named _ hd, (his i hi).2⟩, ?_⟩
  intro σ guest hσ r hr
  obtain ⟨v, hv, hexec⟩ := harith.exec guest
  have hbin := irBinop_table hv
  rw [← hσ _ (h.named _ hs), ← hσ _ (h.named _ ht)] at hbin
  rw [← hform, ← htable, irExecAll_twoOpForm hbin, guestExecAll, List.foldl_cons, List.foldl_nil,
    hexec]
  · by_cases hrd : r = mips32Rd instr
    · rw [hrd, Function.update_self, guestRead_write_self h.rd_ne_zero]
    · have hne : (p.loc r).val ≠ p.loc (mips32Rd instr) := fun heq =>
        hrd (p.injective r hr _ (h.named _ hd) (Fin.ext heq))
      rw [Function.update_of_ne hne, guestRead_write_of_ne hrd]
      exact hσ r hr
  · -- the `mov` overwrites the second source only if the registers are the same
    intro heq
    have hreg := p.injective _ (h.named _ hd) _ (h.named _ ht) (Fin.ext heq)
    rw [h.not_clobbered hreg]

end Placement

/-! ## The second pass -/

section Pass

variable {liveness : LivenessTable} {type : TblockType} {p : Placement}

/-- **The IR of a run of the second pass** implements the words it has gone through, by induction
over the words. -/
lemma Placement.ir_of_runs {words : List (BitVec 32)} {k : ℕ} {s t : PassState}
    (h : RawAt liveness type k s) (hlen : k + words.length ≤ 16 * fragWords type)
    (hwords : ∀ instr ∈ words, IsArith instr ∨ IsNop instr)
    (hplaced : AllSteps rawToIrStep p.WordAt s words) (hrun : runs rawToIrStep s words = some t) :
    ∃ is : List TwoOp, t.block.ir = s.block.ir ++ is.map (TwoOp.ir .w32) ∧
      p.Implements is words := by
  induction words generalizing k s with
  | nil =>
    obtain rfl := Option.some_injective _ hrun
    exact ⟨[], (List.append_nil _).symm, .nil⟩
  | cons instr words ih =>
    rw [List.length_cons] at hlen
    have hinstr := hwords instr List.mem_cons_self
    obtain ⟨mid, s', -, -, -, hstep, hat, -⟩ := h.step (by omega) hinstr
    obtain ⟨-, hir, -⟩ := h.step_eq (by omega) hinstr hstep
    rw [runs_cons, hstep] at hrun
    obtain ⟨hword, hrest⟩ := hplaced
    obtain ⟨is, hirRest, himpl⟩ := ih hat (by omega)
      (fun i hi => hwords i (List.mem_cons_of_mem _ hi)) (hrest s' hstep) hrun
    obtain ⟨is₀, hout, himpl₀⟩ : ∃ is₀ : List TwoOp,
        wordOut s.block.tables instr = is₀.map (TwoOp.ir .w32) ∧ p.Implements is₀ [instr] := by
      rcases hinstr with harith | rfl
      · have hat₀ := hword.resolve_left harith.not_isNop
        rw [wordOut, if_neg harith.not_isNop]
        exact hat₀.implements harith
      · exact ⟨[], if_pos rfl, Placement.implements_nop⟩
    refine ⟨is₀ ++ is, ?_, himpl₀.append himpl⟩
    rw [hirRest, hir, hout, List.map_append, List.append_assoc]

end Pass

/-! ## The bytes -/

/-- An instruction writes its destination only. -/
lemma exec_frame {i : TwoOp} (h : i.Encodes .w32) {ρ ρ' : RegFile}
    (hexec : exec ρ (i.insn .w32) = some ρ') {n : ℕ} (hn : n ≠ i.d) : ρ' n = ρ n := by
  have hdest : TwoOp.decoded .w32 (regExt i.s) i.d = .low i.d := by
    rw [TwoOp.Encodes, if_neg (by decide)] at h
    have hwide : TwoOp.wide .w32 = true := rfl
    rw [TwoOp.decoded, if_pos hwide, ← h,
      (extend_eq_iff (Nat.mod_lt _ (by decide)) i.d.2 _).2 ⟨rfl, rfl⟩]
  rw [exec_insn, hdest] at hexec
  obtain rfl := Option.some_injective _ hexec
  exact Function.update_of_ne hn _ _

lemma execAll_frame {is : List TwoOp} (h : ∀ i ∈ is, i.Encodes .w32) {ρ ρ' : RegFile}
    (hexec : execAll ρ (is.map (TwoOp.insn .w32)) = some ρ') {n : ℕ}
    (hn : ∀ i ∈ is, n ≠ i.d) : ρ' n = ρ n := by
  induction is generalizing ρ with
  | nil =>
    obtain rfl := Option.some_injective _ hexec
    rfl
  | cons i is ih =>
    rw [List.map_cons, execAll, List.foldlM_cons] at hexec
    obtain ⟨ρ₁, hfirst, hrest⟩ := Option.bind_eq_some_iff.1 hexec
    rw [ih (fun j hj => h j (List.mem_cons_of_mem _ hj)) hrest
      fun j hj => hn j (List.mem_cons_of_mem _ hj)]
    exact exec_frame (h i List.mem_cons_self) hfirst (hn i List.mem_cons_self)

/-- **The code of a block computes what the block computes.**  The emission succeeds, and the
bytes it writes decode to instructions that take the placed registers from their values before
the block to those after it; they touch no host register outside the placement. -/
def Placement.Executes (p : Placement) (code : GuestCode) (block : Tblock) : Prop :=
  ∃ ir out insns, emitted code block = some (ir, .ok out) ∧ decodeAll out = some insns ∧
    ∀ ρ guest, p.Loaded ρ guest → ∃ ρ', execAll ρ insns = some ρ' ∧
      p.Loaded ρ' (guestExecAll guest (blockWords block.type code)) ∧
      ∀ n : ℕ, (∀ r ∈ p.regs, n ≠ (p.loc r).val) → ρ' n = ρ n

/-- The second pass of an emission translates every word under the placement. -/
def Placement.Places (p : Placement) (code : GuestCode) (block : Tblock) : Prop :=
  ∀ scanned cnt, tblockLivenessScan mipsToI64 code block = some (scanned, cnt) →
    AllSteps rawToIrStep p.WordAt (.init scanned) (blockWords block.type code)

/-- **One emission** under a placement. -/
lemma Placement.executes_of_places {type : TblockType} {block : Tblock} {code : GuestCode}
    (p : Placement) (hblock : Reusable type block) (hcode : ArithCode type code)
    (hplaced : p.Places code block) : p.Executes code block := by
  obtain ⟨liveness, scanCnt, st, final, hscan, -, htrace, rfl, hemit⟩ := hblock.passes hcode
  obtain ⟨rfl, hcnt, hcap, -⟩ := hblock
  have hrun := htrace.run _ le_rfl
  rw [List.take_length] at hrun
  have hat := htrace.rawAt 0 (Nat.zero_le _)
  rw [htrace.start] at hat
  obtain ⟨is, hir, himpl⟩ := p.ir_of_runs hat
    (by rw [blockWords_length_eq, Nat.zero_add]) hcode (hplaced _ _ hscan) hrun
  have hempty : (PassState.init { block with liveness := liveness }).block.ir = [] := by
    rw [PassState.init, Tblock.ir, hcnt]
    rfl
  rw [hempty, List.nil_append] at hir
  obtain ⟨written, cnt, hraw⟩ := tblockIrToRaw_map .mips32 .w32
    (fun i hi => not_noOpcode (himpl.encodes i hi)) hir
  have hout : emitted code block = some ((st (blockWords block.type code).length).block.ir,
      .ok (is.flatMap (TwoOp.bytes .w32))) := by
    rw [emitted, hemit, Option.map_some, show mipsToI64 = ⟨.mips32, .intel64⟩ from rfl, hraw]
    rfl
  refine ⟨_, _, _, hout, decodeAll_bytes .w32 is, fun ρ guest hloaded => ?_⟩
  obtain ⟨ρ', hexec, hagree⟩ := execAll_agrees himpl.encodes ρ
  refine ⟨ρ', hexec, ?_, ?_⟩
  · intro r hr
    have hval : modWidth .w32 ρ' (p.loc r) =
        guestRead (guestExecAll guest (blockWords block.type code)) r := by
      rw [hagree]
      exact himpl.agrees (modWidth .w32 ρ) guest hloaded r hr
    exact hval
  · intro n hn
    refine execAll_frame himpl.encodes hexec fun i hi => ?_
    obtain ⟨r, hr, hd⟩ := himpl.dest i hi
    rw [hd]
    exact hn r hr

/-- **Every emission through a block computes what its guest block computes**, for every sequence
of guest blocks that a fresh block translates under placements and in which no stale liveness
bit does harm. -/
theorem emissions_execute (heap : ℕ → IrRawInstr) (type : TblockType) (codes : List GuestCode)
    (p : GuestCode → Placement) (hcodes : ∀ code ∈ codes, ArithCode type code)
    (hplaced : ∀ code ∈ codes, (p code).Places code (tblockAlloc heap type))
    (hstale : AllSteps emitStep StaleHarmless (tblockAlloc heap type) codes) :
    AllSteps emitStep (fun block code => (p code).Executes code block) (tblockAlloc heap type)
      codes := by
  refine AllSteps.mono_of_inv (I := Reusable type) (V := fun _ code => code ∈ codes)
    ?_ ?_ (reusable_alloc heap type) (allSteps_of_forall fun code hcode _ => hcode) hstale
  · intro block code next hblock hcode hstep
    exact hblock.emitStep (hcodes code hcode) hstep
  · intro block code hblock hcode hharmless
    have hfresh := hblock.emitsAsFresh (hcodes code hcode) hharmless heap
    rw [EmitsAsFresh, hblock.type_eq] at hfresh
    rw [Placement.Executes, hfresh, hblock.type_eq]
    exact (p code).executes_of_places (reusable_alloc heap type) (hcodes code hcode)
      (hplaced code hcode)

/-- The guest code `main` writes. -/
def mainWords : List (BitVec 32) :=
  [0x012a4820, 0x01495020, 0x012a4822, 0x01495022, 0x012a4825, 0x01495025, 0x012a4824,
    0x01495024, 0x014a4820]

/-- The placement of its two registers. -/
def mainPlacement : Placement where
  regs := [9, 10]
  loc r := if r = 9 then ⟨10, by decide⟩ else ⟨11, by decide⟩
  injective := by decide
  one_half := by decide

lemma mainPlacement_places :
    mainPlacement.Places (codeOf mainWords) (tblockAlloc zeroHeap .tblockBig) := by
  intro scanned cnt hscan
  have hall : ((runs livenessStep (.init (tblockAlloc zeroHeap .tblockBig))
      (blockWords .tblockBig (codeOf mainWords))).map fun s =>
        decide (AllSteps rawToIrStep mainPlacement.WordAt (.init s.block)
          (blockWords .tblockBig (codeOf mainWords)))) = some true := by
    decide +kernel
  rw [tblockLivenessScan_eq_runs] at hscan
  obtain ⟨s, hs, heq⟩ := Option.map_eq_some_iff.1 hscan
  obtain ⟨rfl, -⟩ := Prod.mk.inj heq
  rw [show (tblockAlloc zeroHeap .tblockBig).type = .tblockBig from rfl] at hs
  rw [hs, Option.map_some] at hall
  exact of_decide_eq_true (Option.some_injective _ hall)

/-- The loop of `main`. -/
theorem emissions_execute_main :
    AllSteps emitStep (fun block code => mainPlacement.Executes code block)
      (tblockAlloc zeroHeap .tblockBig) (List.replicate 10000 (codeOf mainWords)) := by
  have hcode : ArithCode .tblockBig (codeOf mainWords) :=
    forall_mem_blockWords_codeOf _ (by decide +kernel)
  refine emissions_execute zeroHeap .tblockBig _ (fun _ => mainPlacement) ?_ ?_
    (staleHarmless_replicate zeroHeap hcode 10000)
  · intro code hmem
    rw [List.eq_of_mem_replicate hmem]
    exact hcode
  · intro code hmem
    rw [List.eq_of_mem_replicate hmem]
    exact mainPlacement_places

/-- The bytes `main` expects. -/
example : (passedBlock (codeOf mainWords) (tblockAlloc zeroHeap .tblockBig)).map
    (fun block => (tblockIrToRaw mipsToI64 block).toOption.map fun (_, out, _) => out) =
      some (some [0x4d, 0x01, 0xda, 0x4d, 0x01, 0xd3, 0x4d, 0x29, 0xda, 0x4d, 0x29, 0xd3,
        0x4d, 0x09, 0xda, 0x4d, 0x09, 0xd3, 0x4d, 0x21, 0xda, 0x4d, 0x21, 0xd3,
        0x4d, 0x89, 0xda, 0x4d, 0x01, 0xda]) := by decide +kernel

end AxVirtLayer
