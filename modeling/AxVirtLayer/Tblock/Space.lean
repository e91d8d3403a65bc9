import AxVirtLayer.Tblock.Pass

/-!
# The space in the IR buffer

Every word of a block makes at most two IR instructions (`asm_expand_instr`), and the buffer
of `tblock_alloc` has room for exactly twice the 128 words of the larger block type.  The
counter never gets ahead of twice the words passed, so two slots are free before each.
-/

namespace AxVirtLayer

open Lib

/-- The length `tblock_raw_to_ir` hands to `asm_expand_instr`. -/
def freeSlots (block : Tblock) : ℕ := (block.irCapacity + 2 ^ 32 - block.irCnt) % 2 ^ 32

/-- What holds before a word: the call of `asm_expand_instr` has two free slots, and the
fragment a flush behind the word is for is one of the sixteen. -/
structure HasRoom (s : PassState) : Prop where
  free : 2 ≤ freeSlots s.block
  irCnt_le : s.block.irCnt ≤ s.block.irCapacity
  blkI_le : s.blkI ≤ 15

/-- What a word does to the IR list: nothing is dropped, and only an arithmetic word adds
something. -/
def Appends (s s' : PassState) (instr : BitVec 32) : Prop :=
  ∃ out, s'.block.ir = s.block.ir ++ out ∧ (out ≠ [] ↔ IsArith instr)

/-- The pass over a block goes through: every word finds room, the counter stays within the
capacity, and the loop has one round for each word. -/
def SpaceSuffices (code : GuestCode) (block : Tblock) : Prop :=
  ∃ st : ℕ → PassState, st 0 = .init block ∧
    (∀ k instr, (blockWords block.type code)[k]? = some instr →
      HasRoom (st k) ∧ rawToIrStep (st k) instr = some (st (k + 1)) ∧
        Appends (st k) (st (k + 1)) instr) ∧
    (st (tblockBytes block.type / 4)).block.irCnt ≤ block.irCapacity ∧
    tblockPassLoop code (rawToIrWord mipsToI64) (tblockBytes block.type) 0 0 (.init block) =
      some (st (tblockBytes block.type / 4), tblockBytes block.type / 4)

section Word

variable {liveness : LivenessTable} {type : TblockType} {k : ℕ} {s s' : PassState}

lemma RawAt.hasRoom (h : RawAt liveness type k s) (hk : k < 16 * fragWords type) : HasRoom s := by
  have hle : fragWords type ≤ 8 := by cases type <;> decide
  have hcap := h.capacity_eq
  have hcnt := h.irCnt_le
  refine ⟨?_, by omega, ?_⟩
  · rw [freeSlots]
    omega
  · rw [h.blkI_eq]
    exact Nat.le_of_lt_succ (fragOf_lt hk)

lemma twoOpForm_ne_nil (opcode : IrOpcode) (d s t : ℕ) : twoOpForm opcode d s t ≠ [] := by
  rw [twoOpForm]
  split <;> simp

lemma RawAt.appends (h : RawAt liveness type k s) (hk : k < 16 * fragWords type)
    {instr : BitVec 32} (hinstr : IsRType instr) (hstep : rawToIrStep s instr = some s') :
    Appends s s' instr := by
  obtain ⟨mid, t, -, -, -, hstep', -, -, hir⟩ := h.rTypeStep hk hinstr
  obtain rfl : t = s' := Option.some_injective _ (hstep'.symm.trans hstep)
  refine ⟨_, hir, ?_⟩
  by_cases harith : IsArith instr
  · rw [rTypeOut, if_pos harith]
    exact iff_of_true (twoOpForm_ne_nil _ _ _ _) harith
  · rw [rTypeOut, if_neg harith]
    exact iff_of_false (not_not.2 rfl) harith

end Word

/-- **The IR buffer suffices** for every block of R-type words, whatever the tables hold. -/
theorem irBuf_suffices (code : GuestCode) (block : Tblock) (hcnt : block.irCnt = 0)
    (hcap : block.irCapacity = tblockIrBufferSize / sizeofIrRawInstr)
    (hwords : ∀ instr ∈ blockWords block.type code, IsRType instr) :
    SpaceSuffices code block := by
  have hcap' : block.irCapacity = 256 := hcap
  have hlen := blockWords_length_eq block.type code
  obtain ⟨st, hstart, hst⟩ := exists_rawToIr_trace _ block hcap' hcnt hlen.le hwords
  have hlast := hst _ le_rfl
  rw [List.take_length, blockWords_length] at hlast
  refine ⟨st, hstart, fun k instr hk => ?_, ?_, ?_⟩
  · obtain ⟨hklt, rfl⟩ := List.getElem?_eq_some_iff.1 hk
    have hstep := step_of_runs_take hklt (hst k hklt.le).1 (hst (k + 1) hklt).1
    have hat := (hst k hklt.le).2
    rw [hlen] at hklt
    exact ⟨hat.hasRoom hklt, hstep, hat.appends hklt (hwords _ (List.mem_of_getElem? hk)) hstep⟩
  · have hle := hlast.2.irCnt_le
    have hbytes : tblockBytes block.type / 4 ≤ 128 := by cases block.type <;> decide
    omega
  · rw [rawToIr_loop_eq_runs, hlast.1]
    rfl

/-- A block of an `add`, a `mult`, which is skipped, and `NOP`s. -/
theorem irBuf_suffices_add_mult :
    SpaceSuffices (codeOf [0x014b4820, 0x012a0018]) (tblockAlloc zeroHeap .tblockSmall) :=
  irBuf_suffices _ _ rfl rfl (forall_mem_blockWords_codeOf _ (by decide +kernel))

end AxVirtLayer
