import AxVirtLayer.Tblock.Pass

/-!
# What the liveness pass records

`tblock_liveness_scan` marks, for every word, the registers the word names in the
fragment the word starts in.  The byte of a register has a bit for the fragments 0 to 7
only; `runs_livenessStep` says exactly which bits the pass sets.
-/

namespace AxVirtLayer

open Lib

/-! ## The registers a word names, reads and writes -/

/-- The word is an R-type word other than a `NOP`: it names registers. -/
def NamesRegs (instr : BitVec 32) : Prop :=
  mips32GetInstrType instr = .R ∧ mips32Funct instr ≠ 0

instance (instr : BitVec 32) : Decidable (NamesRegs instr) := inferInstanceAs (Decidable (_ ∧ _))

/-- The word reads the register, as `rs` or `rt`. -/
def Reads (instr : BitVec 32) (r : ℕ) : Prop :=
  NamesRegs instr ∧ (r = mips32Rs instr ∨ r = mips32Rt instr)

instance (instr : BitVec 32) (r : ℕ) : Decidable (Reads instr r) :=
  inferInstanceAs (Decidable (_ ∧ _))

/-- The word writes the register, as `rd`. -/
def Writes (instr : BitVec 32) (r : ℕ) : Prop := NamesRegs instr ∧ r = mips32Rd instr

instance (instr : BitVec 32) (r : ℕ) : Decidable (Writes instr r) :=
  inferInstanceAs (Decidable (_ ∧ _))

/-- The word names the register. -/
def Names (instr : BitVec 32) (r : ℕ) : Prop := Writes instr r ∨ Reads instr r

instance (instr : BitVec 32) (r : ℕ) : Decidable (Names instr r) :=
  inferInstanceAs (Decidable (_ ∨ _))

lemma IsArith.namesRegs {instr : BitVec 32} (h : IsArith instr) : NamesRegs instr :=
  ⟨h.getInstrType, h.funct_ne_zero⟩

lemma not_names_nop (r : ℕ) : ¬ Names 0 r := by
  rintro (⟨h, -⟩ | ⟨h, -⟩) <;> exact absurd h (by decide)

lemma IsArith.names_iff {instr : BitVec 32} (h : IsArith instr) {r : ℕ} :
    Names instr r ↔ r = mips32Rd instr ∨ r = mips32Rs instr ∨ r = mips32Rt instr := by
  simp only [Names, Writes, Reads, h.namesRegs, true_and]

lemma Names.lt {instr : BitVec 32} {r : ℕ} (h : Names instr r) : r < 32 := by
  rcases h with ⟨-, rfl⟩ | ⟨-, rfl | rfl⟩
  · exact mips32Rd_lt instr
  · exact mips32Rs_lt instr
  · exact mips32Rt_lt instr

/-- The operands `mips32_reg_fetch` reports are the registers the word names. -/
lemma mem_regFetch_iff {instr : BitVec 32} {r : ℕ} :
    (∃ op ∈ (mips32RegFetch instr).1.used, op.kind = .irOpReg ∧ op.id = r) ↔
      Names instr r := by
  rw [mips32RegFetch]
  split
  · next htype =>
    split
    · next hfunct => simp [Names, Reads, Writes, NamesRegs, hfunct]
    · next hfunct =>
      simp only [mips32Operands, IrOperandSet.used_three, List.mem_cons, List.not_mem_nil,
        or_false, Names, Reads, Writes, NamesRegs, htype, hfunct, ne_eq, not_false_eq_true,
        true_and, exists_eq_or_imp, IrOperand.reg_kind, IrOperand.reg_id, exists_eq_left]
      grind
  · next htype => simp [Names, Reads, Writes, NamesRegs, htype]
  · next htype => simp [Names, Reads, Writes, NamesRegs, htype]

/-! ## Marking -/

lemma getLsbD_blkShift (blkI b : ℕ) :
    ((1#16 <<< blkI).setWidth 8).getLsbD b = (decide (b < 8) && decide (b = blkI)) := by
  rw [BitVec.getLsbD_setWidth, getLsbD_one_shiftLeft]
  grind

lemma getLsbD_markLive (blkI : ℕ) (liveness : LivenessTable) (op : IrOperand) (r b : ℕ) :
    (markLive blkI liveness op r).getLsbD b = true ↔
      (liveness r).getLsbD b = true ∨
        b < 8 ∧ b = blkI ∧ op.kind = .irOpReg ∧ op.id = r := by
  rw [markLive]
  by_cases hkind : op.kind = .irOpReg
  · by_cases hid : op.id = r
    · subst hid
      simp only [hkind, ne_eq, not_true_eq_false, if_false, Function.update_self,
        BitVec.getLsbD_or, getLsbD_blkShift, Bool.or_eq_true, Bool.and_eq_true,
        decide_eq_true_eq, and_true]
    · simp [hkind, hid, Function.update_of_ne (Ne.symm hid)]
  · simp [hkind]

lemma getLsbD_foldl_markLive (blkI : ℕ) (ops : List IrOperand) (liveness : LivenessTable)
    (r b : ℕ) :
    (ops.foldl (markLive blkI) liveness r).getLsbD b = true ↔
      (liveness r).getLsbD b = true ∨
        b < 8 ∧ b = blkI ∧ ∃ op ∈ ops, op.kind = .irOpReg ∧ op.id = r := by
  induction ops generalizing liveness with
  | nil => simp
  | cons op ops ih =>
    rw [List.foldl_cons, ih, getLsbD_markLive]
    simp only [List.mem_cons, exists_eq_or_imp]
    tauto

/-! ## The pass -/

/-- The fragment bit `b` of register `r` after a pass over words from a table: the bit
was set, or there is a place for it and a word in the fragment names the register. -/
def RecordsLiveness (type : TblockType) (before after : LivenessTable)
    (words : List (BitVec 32)) : Prop :=
  ∀ r b, (after r).getLsbD b = true ↔
    (before r).getLsbD b = true ∨
      b < 8 ∧ ∃ k instr, words[k]? = some instr ∧ fragOf type k = b ∧ Names instr r

/-- One word of the pass. -/
lemma livenessStep_at {s : PassState} {type : TblockType} {k : ℕ} (h : s.At type k)
    (hk : k < 16 * fragWords type) (instr : BitVec 32) :
    livenessStep s instr = some
      ⟨{ s.block with
          liveness := (mips32RegFetch instr).1.used.foldl (markLive (fragOf type k))
            s.block.liveness },
        fragOf type (k + 1), 4 * (k + 1)⟩ := by
  have hbytes := h.next_bytes hk
  have hblk := h.next_blkI hk
  rw [hbytes] at hblk
  simp only [livenessStep, livenessWord, IrContext.guestRegFetch,
    show mipsToI64.guestArch = .mips32 from rfl, Option.map_some, mips32RegFetch_len, hbytes,
    hblk, h.blkI_eq]

/-- **The liveness pass.**  It never stops early, it leaves everything but the liveness
table alone, and it records the words it went through. -/
lemma runs_livenessStep (block : Tblock) (words : List (BitVec 32))
    (hlen : words.length ≤ 16 * fragWords block.type) :
    ∃ s, runs livenessStep (.init block) words = some s ∧ s.At block.type words.length ∧
      s.block = { block with liveness := s.block.liveness } ∧
      RecordsLiveness block.type block.liveness s.block.liveness words := by
  induction words using List.reverseRecOn with
  | nil => exact ⟨_, rfl, PassState.init_at block, rfl, by simp [RecordsLiveness, PassState.init]⟩
  | append_singleton words instr ih =>
    rw [List.length_append, List.length_singleton] at hlen
    obtain ⟨s, hrun, hat, hblock, hrec⟩ := ih (by omega)
    obtain ⟨s', hs', hstep⟩ : ∃ s', _ = s' ∧ livenessStep s instr = some s' :=
      ⟨_, rfl, livenessStep_at hat (by omega) instr⟩
    have hat' : s'.At block.type (words.length + 1) := by
      subst hs'
      exact ⟨hat.type_eq, rfl, rfl⟩
    refine ⟨s', by rw [runs_concat, hrun]; exact hstep, by simpa using hat', ?_, ?_⟩
    · subst hs'
      rw [hblock]
    subst hs'
    intro r b
    rw [getLsbD_foldl_markLive, hrec r b, mem_regFetch_iff]
    constructor
    · rintro ((hbit | ⟨hb, k, i, hk, hfrag, hn⟩) | ⟨hb, hfrag, hn⟩)
      · exact Or.inl hbit
      · exact Or.inr ⟨hb, k, i, by rw [List.getElem?_append_left
          (List.getElem?_eq_some_iff.1 hk).1, hk], hfrag, hn⟩
      · exact Or.inr ⟨hb, words.length, instr, by simp, hfrag.symm, hn⟩
    · rintro (hbit | ⟨hb, k, i, hk, hfrag, hn⟩)
      · exact Or.inl (Or.inl hbit)
      · rcases lt_or_ge k words.length with hlt | hge
        · rw [List.getElem?_append_left hlt] at hk
          exact Or.inl (Or.inr ⟨hb, k, i, hk, hfrag, hn⟩)
        · have hkeq : k = words.length := by
            have := (List.getElem?_eq_some_iff.1 hk).1
            rw [List.length_append, List.length_singleton] at this
            omega
          subst hkeq
          obtain rfl : instr = i := by simpa using hk
          exact Or.inr ⟨hb, hfrag.symm, hn⟩

/-- `tblock_liveness_scan` over the words of a block. -/
lemma tblockLivenessScan_spec (code : GuestCode) (block : Tblock) :
    ∃ liveness, tblockLivenessScan mipsToI64 code block =
        some ({ block with liveness := liveness }, tblockBytes block.type / 4) ∧
      RecordsLiveness block.type block.liveness liveness (blockWords block.type code) := by
  obtain ⟨s, hrun, -, hblock, hrec⟩ := runs_livenessStep block (blockWords block.type code)
    (blockWords_length_eq block.type code).le
  refine ⟨s.block.liveness, ?_, hrec⟩
  rw [tblockLivenessScan_eq_runs, hrun, Option.map_some, ← hblock]

/-! ## Exactness -/

/-- Bit `b` of register `r` of the table says that a word starting in fragment `b` names `r`,
for the guest registers and the 16 fragments; and every register operand of every instruction
`mips32_to_ir` accepts is recorded. -/
structure LivenessExact (type : TblockType) (code : GuestCode) (liveness : LivenessTable) :
    Prop where
  named : ∀ r < 32, ∀ b < 16, (liveness r).getLsbD b = true ↔
    ∃ k instr, (blockWords type code)[k]? = some instr ∧ fragOf type k = b ∧ Names instr r
  accepted : ∀ (k : ℕ) instr irInstr len, (blockWords type code)[k]? = some instr →
    mips32ToIr instr = some (irInstr, len) → irInstr.opcode ≠ irInvalidOpcode →
    ∀ op ∈ irInstr.set.used, op.kind = .irOpReg →
      (liveness op.id).getLsbD (fragOf type k) = true

/-- **Liveness is exact** for a block: the pass on a fresh block goes through and leaves an
exact table. -/
def LivenessScanExact (heap : ℕ → IrRawInstr) (type : TblockType) (code : GuestCode) : Prop :=
  ∃ block cnt, tblockLivenessScan mipsToI64 code (tblockAlloc heap type) = some (block, cnt) ∧
    LivenessExact type code block.liveness

/-- No word in the fragments 8 to 15 names a register. -/
def LateFragsNameless (type : TblockType) (code : GuestCode) : Prop :=
  ∀ (k : ℕ) instr, (blockWords type code)[k]? = some instr → 8 ≤ fragOf type k →
    ¬ NamesRegs instr

/-- The two decoders agree: the operands of an accepted instruction are registers the word
names. -/
lemma names_of_accepted {instr : BitVec 32} {irInstr : IrRawInstr} {len : ℕ}
    (h : mips32ToIr instr = some (irInstr, len)) (hvalid : irInstr.opcode ≠ irInvalidOpcode)
    {op : IrOperand} (hop : op ∈ irInstr.set.used) : Names instr op.id := by
  rw [mips32ToIr, Option.map_eq_some_iff] at h
  obtain ⟨buf, hraw, hbuf⟩ := h
  obtain ⟨rfl, -⟩ := Prod.mk.inj hbuf
  rw [mips32RawToIr] at hraw
  cases htype : mips32GetInstrType instr with
  | I | J =>
    rw [htype] at hraw
    cases hraw
  | R =>
    rw [htype] at hraw
    obtain rfl := Option.some.inj hraw
    have hfunct : mips32Funct instr ≠ 0 := fun h0 => hvalid (by rw [h0]; rfl)
    simp only [mips32Operands, IrOperandSet.used_three, List.mem_cons, List.not_mem_nil,
      or_false] at hop
    simp only [Names, Writes, Reads, NamesRegs, htype, ne_eq, hfunct, not_false_eq_true, true_and]
    rcases hop with rfl | rfl | rfl
    · exact Or.inl rfl
    · exact Or.inr (Or.inl rfl)
    · exact Or.inr (Or.inr rfl)

lemma NamesRegs.names_rd {instr : BitVec 32} (h : NamesRegs instr) :
    Names instr (mips32Rd instr) := Or.inl ⟨h, rfl⟩

lemma Names.namesRegs {instr : BitVec 32} {r : ℕ} (h : Names instr r) : NamesRegs instr :=
  h.elim And.left And.left

/-- A word of the block lies in one of the 16 fragments. -/
lemma fragOf_lt_of_getElem? {type : TblockType} {code : GuestCode} {k : ℕ} {instr : BitVec 32}
    (hk : (blockWords type code)[k]? = some instr) : fragOf type k < 16 := by
  have hlt := (List.getElem?_eq_some_iff.1 hk).1
  rw [blockWords_length_eq] at hlt
  exact fragOf_lt hlt

/-- The byte of a register has no bit for a word of the fragments 8 to 15. -/
lemma not_livenessScanExact {heap : ℕ → IrRawInstr} {type : TblockType} {code : GuestCode}
    {k : ℕ} {instr : BitVec 32} (hk : (blockWords type code)[k]? = some instr)
    (hlate : 8 ≤ fragOf type k) (hnames : NamesRegs instr) :
    ¬ LivenessScanExact heap type code := by
  rintro ⟨block, cnt, -, hexact⟩
  have hbit := (hexact.named (mips32Rd instr) (mips32Rd_lt instr) (fragOf type k)
    (fragOf_lt_of_getElem? hk)).2 ⟨k, instr, hk, rfl, hnames.names_rd⟩
  have hlt := BitVec.lt_of_getLsbD hbit
  omega

/-- **The liveness table is exact** if and only if only the fragments 0 to 7 name registers.
The words of the block are arbitrary here. -/
theorem livenessScanExact_iff (heap : ℕ → IrRawInstr) (type : TblockType) (code : GuestCode) :
    LivenessScanExact heap type code ↔ LateFragsNameless type code := by
  constructor
  · intro h k instr hk hlate hnames
    exact not_livenessScanExact hk hlate hnames h
  · intro hearly
    obtain ⟨liveness, hscan, hrec⟩ := tblockLivenessScan_spec code (tblockAlloc heap type)
    have hfrag : ∀ k instr r, (blockWords type code)[k]? = some instr → Names instr r →
        fragOf type k < 8 := by
      intro k instr r hk hn
      by_contra hlate
      exact hearly k instr hk (by omega) hn.namesRegs
    have hfresh : ∀ r b, ((tblockAlloc heap type).liveness r).getLsbD b = false :=
      fun _ _ => BitVec.getLsbD_zero
    refine ⟨_, _, hscan, ⟨fun r _ b _ => ?_, fun k instr irInstr len hk hir hvalid op hop _ => ?_⟩⟩
    · rw [hrec r b, hfresh]
      constructor
      · rintro (hset | ⟨-, hword⟩)
        · cases hset
        · exact hword
      · rintro ⟨k, instr, hk, rfl, hn⟩
        exact Or.inr ⟨hfrag k instr r hk hn, k, instr, hk, rfl, hn⟩
    · have hn := names_of_accepted hir hvalid hop
      exact (hrec _ _).2 (Or.inr ⟨hfrag k instr _ hk hn, k, instr, hk, rfl, hn⟩)

/-- `add r9, r10, r11` as the first word of fragment 8 of a small block. -/
def lateAdd : List (BitVec 32) := List.replicate 16 0 ++ [0x014b4820]

theorem lateAdd_not_exact : ¬ LivenessScanExact zeroHeap .tblockSmall (codeOf lateAdd) :=
  not_livenessScanExact (k := 16) (getElem?_blockWords_codeOf lateAdd (by decide))
    (by decide) (by decide +kernel)

end AxVirtLayer
