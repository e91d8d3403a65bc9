import AxVirtLayer.Tblock.Reuse
import AxVirtLayer.I64.Reject

/-!
# The frame of the spilled registers

`tblock_ir_to_raw` (`tblock_pass.c`) is meant to put an allocation for each spilled register
before the instructions of a block and a deallocation behind them.  It clears
`block->spill_cnt` before it reads it, and its epilogue only counts down, so what it writes
has no frame.
-/

namespace AxVirtLayer

open Lib.Intel64

/-- The code of a block has a balanced frame: an allocation for each register spilled, the
encodings of the instructions in order, and a deallocation for each register spilled; the count
is that of the instructions and the spills.  Which bytes allocate and deallocate is left open,
only that there are some. -/
def FrameBalanced (guest : MteArch) (block : Tblock) : Prop :=
  ∃ block' out count, tblockIrToRaw ⟨guest, .intel64⟩ block = .ok (block', out, count) ∧
    (∃ alloc dealloc : List Byte, alloc ≠ [] ∧ dealloc ≠ [] ∧
      out = (List.replicate block.tables.spillCnt alloc).flatten ++
        block.ir.flatMap i64Encoding ++ (List.replicate block.tables.spillCnt dealloc).flatten) ∧
    count = block.irCnt + block.tables.spillCnt

/-- The instruction has more operands than an Intel 64 one. -/
def TooMany (i : IrRawInstr) : Prop := 4 < i.set.opsCount

lemma leading_of_forall {p : IrRawInstr → Prop} {is : List IrRawInstr}
    (h : ∀ j ∈ is, TooMany j) : Leading p is := by
  rintro pre i post rfl - j hj
  rw [← List.singleton_append, ← List.append_assoc] at h
  exact h j (List.mem_append_left _ hj)

/-- An instruction of another kind at the end changes nothing. -/
lemma leading_concat_of_not {p : IrRawInstr → Prop} {is : List IrRawInstr} {i : IrRawInstr}
    (hi : ¬ p i) : Leading p (is ++ [i]) ↔ Leading p is := by
  constructor
  · rintro h pre j post rfl hj
    exact h pre j (post ++ [i]) (by simp) hj
  · intro h pre j post heq hj
    rcases List.eq_nil_or_concat post with rfl | ⟨post, k, rfl⟩
    · obtain ⟨-, heq⟩ := List.append_inj' heq rfl
      obtain rfl : i = j := List.singleton_injective heq
      exact absurd hj hi
    · rw [List.concat_eq_append, ← List.cons_append, ← List.append_assoc] at heq
      exact h pre j post (List.append_inj_left' heq rfl) hj

/-- A last instruction with too many operands wants all to have too many. -/
lemma leading_concat_of_tooMany {is : List IrRawInstr} {i : IrRawInstr} (hi : TooMany i) :
    Leading TooMany (is ++ [i]) ↔ ∀ j ∈ is, TooMany j := by
  constructor
  · intro h j hj
    exact h is i [] rfl hi j (List.mem_append_left _ hj)
  · intro h
    exact leading_of_forall (List.forall_mem_append.2 ⟨h, List.forall_mem_singleton.2 hi⟩)

/-- The loop never writes less than the encodings. -/
lemma flatMap_i64Encoding_le (is : List IrRawInstr) :
    (is.flatMap i64Encoding).length ≤ (is.foldl rawStep ⟨0, []⟩).out.length := by
  induction is using List.reverseRecOn with
  | nil => exact le_rfl
  | append_singleton is i ih =>
    rw [List.flatMap_append, List.flatMap_singleton, List.foldl_append, List.foldl_cons,
      List.foldl_nil, rawStep, List.length_append]
    by_cases hmany : 4 < i.set.opsCount
    · rw [if_pos hmany, i64Encoding_many hmany, List.length_nil, List.length_append]
      exact ih.trans (Nat.le_add_right _ _)
    · rw [if_neg hmany, List.length_append]
      exact Nat.add_le_add_right ih _

/-- The loop writes the encodings and nothing else if and only if the instructions with too
many operands, for which it repeats the last length, come first. -/
lemma out_foldl_rawStep {is : List IrRawInstr} (h : ∀ i ∈ is, Converts i) :
    (is.foldl rawStep ⟨0, []⟩).out = is.flatMap i64Encoding ↔ Leading TooMany is := by
  induction is using List.reverseRecOn with
  | nil => exact iff_of_true rfl fun pre i post heq => absurd heq.symm (by simp)
  | append_singleton is i ih =>
    obtain ⟨hinit, -⟩ := List.forall_mem_append.1 h
    have hlen := hostLen_foldl_rawStep hinit
    rw [List.flatMap_append, List.flatMap_singleton, List.foldl_append, List.foldl_cons,
      List.foldl_nil, rawStep]
    by_cases hmany : 4 < i.set.opsCount
    · rw [if_pos hmany, i64Encoding_many hmany, List.append_nil,
        leading_concat_of_tooMany (i := i) hmany, show (∀ j ∈ is, TooMany j) ↔ _ from hlen.symm]
      constructor
      · intro heq
        have hle := flatMap_i64Encoding_le is
        rw [← heq, List.length_append, List.length_replicate] at hle
        omega
      · intro hzero
        rw [hzero, List.replicate_zero, List.append_nil, ih hinit]
        exact leading_of_forall (hlen.1 hzero)
    · rw [if_neg hmany, leading_concat_of_not (i := i) hmany, List.append_left_inj, ih hinit]

section Block

variable {guest : MteArch} {block : Tblock}

/-- A block with a balanced frame is converted as a whole. -/
lemma FrameBalanced.converts (h : FrameBalanced guest block) : ∀ i ∈ block.ir, Converts i := by
  obtain ⟨block', out, count, hres, -⟩ := h
  rcases tblockIrToRaw_cases guest block with hconv | hstop | hout
  · exact hconv
  · rw [tblockIrToRaw_asrt_of_stopsFirst guest block hstop] at hres
    cases hres
  · rw [hout] at hres
    cases hres

/-- The count leaves no room for a spilled register. -/
lemma FrameBalanced.spillCnt_eq (h : FrameBalanced guest block) : block.tables.spillCnt = 0 := by
  have hconv := h.converts
  obtain ⟨block', out, count, hres, -, hcount⟩ := h
  rw [tblockIrToRaw_of_converts guest block hconv] at hres
  cases hres
  exact (Nat.left_eq_add.1 hcount)

/-- **The frame.**  The code of a block has a balanced frame if and only if the pass converts
every instruction, no register is spilled, and the instructions with too many operands, if
there are any, come first. -/
theorem frameBalanced_iff : FrameBalanced guest block ↔
    (∀ i ∈ block.ir, Converts i) ∧ block.tables.spillCnt = 0 ∧ Leading TooMany block.ir := by
  constructor
  · intro h
    have hconv := h.converts
    have hspill := h.spillCnt_eq
    obtain ⟨block', out, count, hres, ⟨alloc, dealloc, -, -, hout⟩, -⟩ := h
    rw [tblockIrToRaw_of_converts guest block hconv] at hres
    cases hres
    rw [hspill, List.replicate_zero, List.replicate_zero, List.flatten_nil, List.nil_append,
      List.append_nil] at hout
    exact ⟨hconv, hspill, (out_foldl_rawStep hconv).1 hout⟩
  · rintro ⟨hconv, hspill, hlead⟩
    refine ⟨_, _, _, tblockIrToRaw_of_converts guest block hconv, ⟨[0], [0], by simp, by simp, ?_⟩,
      by rw [hspill]; rfl⟩
    rw [hspill, List.replicate_zero, List.flatten_nil, List.nil_append, List.append_nil]
    exact (out_foldl_rawStep hconv).2 hlead

end Block

/-- The block of one `add r9, r10, r11`: the third register is spilled, for there are two host
registers of the role, and the code of the block has no frame. -/
theorem oneAdd_without_frame : ∃ mid raw,
    tblockEmit mipsToI64 (codeOf [0x014b4820]) (tblockAlloc zeroHeap .tblockSmall) =
      some (mid, raw) ∧ mid.tables.spillCnt = 1 ∧ ¬ FrameBalanced .mips32 mid := by
  have hpassed : (passedBlock (codeOf [0x014b4820]) (tblockAlloc zeroHeap .tblockSmall)).map
      (fun mid => mid.tables.spillCnt) = some 1 := by
    decide +kernel
  obtain ⟨mid, hmid, hspill⟩ := Option.map_eq_some_iff.1 hpassed
  refine ⟨mid, tblockIrToRaw mipsToI64 mid, ?_, hspill, fun h => ?_⟩
  · rw [tblockEmit_eq_passedBlock, hmid]
    rfl
  · rw [h.spillCnt_eq] at hspill
    exact absurd hspill (by decide)

end AxVirtLayer
