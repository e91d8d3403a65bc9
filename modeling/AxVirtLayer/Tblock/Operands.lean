import AxVirtLayer.Tblock.Assoc
import AxVirtLayer.I64.Lower

/-!
# The operands of one instruction

What `asm_fill_assoc` and `asm_fix_instr` do to the operands of an instruction.

`asm_fill_assoc` leaves its loop at the first operand that is associated already, so that it
ties every operand to a location only if no operand without one comes after
(`asmFillAssoc_fillsAll_iff`).  `asm_fix_instr` writes the id of the association into the
operand, whether the id is a host register or a spill slot (`asmFixInstr_keepsApart_iff`).
-/

namespace AxVirtLayer

/-! ## `asm_fill_assoc` -/

/-- What is promised of an association of the operands `a`, `b`, `c`: each has a used
association afterwards, the used associations are unchanged, and no other guest register
gains one. -/
structure FillsAll (before after : AsmTables) (a b c : ℕ) : Prop where
  operands : after.used a = true ∧ after.used b = true ∧ after.used c = true
  kept : ∀ r, before.used r = true → after.assoc r = before.assoc r
  others : ∀ r, r ≠ a → r ≠ b → r ≠ c → after.used r = true → before.used r = true

/-- No operand without an association comes after one that has one: the first operand is
associated only if the others are, and the second only if the third is or is the first. -/
def NoGapAfterUsed (t : AsmTables) (a b c : ℕ) : Prop :=
  (t.used a = true → t.used b = true ∧ t.used c = true) ∧
    (t.used b = true → t.used c = true ∨ c = a)

instance (t : AsmTables) (a b c : ℕ) : Decidable (NoGapAfterUsed t a b c) :=
  inferInstanceAs (Decidable (_ ∧ _))

/-- The registers the loop gets to are operands. -/
lemma mem_of_fillReached {t : AsmTables} {a b c : ℕ} {op : IrOperand}
    (h : op ∈ fillReached t a b c) : op.id = a ∨ op.id = b ∨ op.id = c := by
  have hmem := (List.takeWhile_sublist _).subset h
  simp only [fillOperands] at hmem
  split_ifs at hmem <;> simp only [List.mem_cons, List.not_mem_nil, or_false] at hmem <;>
    rcases hmem with rfl | rfl | rfl <;> simp

/-- The operands are all associated or reached if and only if none is missed. -/
lemma reached_iff_noGap (t : AsmTables) (a b c : ℕ) :
    (∀ r, r = a ∨ r = b ∨ r = c → t.used r = true ∨ ∃ op ∈ fillReached t a b c, op.id = r) ↔
      NoGapAfterUsed t a b c := by
  rw [NoGapAfterUsed, fillReached]
  by_cases hab : a = b
  · -- the loop starts at the second operand
    subst hab
    cases ha : t.used a <;> cases hc : t.used c <;> simp [fillOperands, ha, hc]
  · cases ha : t.used a <;> cases hb : t.used b <;> cases hc : t.used c <;>
      simp [fillOperands, hab, ha, hb, hc]
    all_goals grind

/-- **`asm_fill_assoc` associates every operand** if and only if no operand without an
association comes after one with an association. -/
theorem asmFillAssoc_fillsAll_iff (ir : IrContext) (opcode : IrOpcode) (a b c : ℕ)
    (t : AsmTables) :
    FillsAll t (asmFillAssoc ir (threeRegInstr opcode a b c) t) a b c ↔
      NoGapAfterUsed t a b c := by
  rw [asmFillAssoc_three, ← reached_iff_noGap]
  have hused := asmFillLoop_used_iff ir t a b c
  constructor
  · rintro ⟨⟨ha, hb, hc⟩, -, -⟩ r (rfl | rfl | rfl)
    · exact (hused r).1 ha
    · exact (hused r).1 hb
    · exact (hused r).1 hc
  · intro h
    refine ⟨⟨(hused a).2 (h a (Or.inl rfl)), (hused b).2 (h b (Or.inr (Or.inl rfl))),
      (hused c).2 (h c (Or.inr (Or.inr rfl)))⟩,
      fun r hr => asmFillLoop_assoc_of_used ir _ hr, fun r ha hb hc hr => ?_⟩
    rcases (hused r).1 hr with hold | ⟨op, hop, rfl⟩
    · exact hold
    · rcases mem_of_fillReached hop with h | h | h
      · exact absurd h ha
      · exact absurd h hb
      · exact absurd h hc

/-- `add r8, r9, r9` and then `add r8, r10, r11`: the loop finds register 8 associated and
never gets to the registers 10 and 11. -/
theorem asmFillAssoc_misses_sources :
    ¬ FillsAll (asmFillAssoc mipsToI64 (threeRegInstr irAddI32 8 9 9) .fresh)
      (asmFillAssoc mipsToI64 (threeRegInstr irAddI32 8 10 11)
        (asmFillAssoc mipsToI64 (threeRegInstr irAddI32 8 9 9) .fresh)) 8 10 11 := by
  rintro ⟨⟨-, hsource, -⟩, -, -⟩
  revert hsource
  decide +kernel

/-! ## `asm_fix_instr` -/

/-- The tables reached from those of a fresh block by calls of `asm_fill_assoc` on
instructions over guest registers. -/
inductive FillReachable : AsmTables → Prop
  | fresh : FillReachable .fresh
  | fill {t : AsmTables} (instr : IrRawInstr) (hreach : FillReachable t)
      (hregs : ∀ op ∈ instr.set.used, op.id < 32) : FillReachable (asmFillAssoc mipsToI64 instr t)

/-- An association that is not spilled is to one of the 16 host registers. -/
def HostIdsInTable (t : AsmTables) : Prop :=
  ∀ r, t.used r = true → t.spilled r = false → (t.assoc r).id < 16

lemma HostIdsInTable.fillOne {t : AsmTables} (h : HostIdsInTable t) (r : ℕ) :
    HostIdsInTable (asmFillOne mipsToI64 t r) := by
  intro s hused hspill
  rcases asmFillOne_cases t r with ⟨reg, hfree, heq⟩ | ⟨-, heq⟩ <;> rw [heq] at hused hspill ⊢
  · by_cases hs : s = r
    · subst hs
      rw [AsmTables.take_assoc_self]
      exact hfree.1.lt
    · simp only [AsmTables.used, AsmTables.spilled, AsmTables.take_assoc_of_ne _ _ hs]
        at hused hspill ⊢
      exact h s hused hspill
  · by_cases hs : s = r
    · subst hs
      simp [AsmTables.spilled, AsmTables.spill_assoc_self] at hspill
    · simp only [AsmTables.used, AsmTables.spilled, AsmTables.spill_assoc_of_ne _ hs]
        at hused hspill ⊢
      exact h s hused hspill

lemma HostIdsInTable.fillLoop {t : AsmTables} (h : HostIdsInTable t) (ops : List IrOperand) :
    HostIdsInTable (asmFillLoop mipsToI64 t ops) := by
  induction ops generalizing t with
  | nil => exact h
  | cons op ops ih =>
    rw [asmFillLoop]
    split_ifs
    · exact h
    · exact ih (h.fillOne op.id)

lemma FillReachable.hostIdsInTable {t : AsmTables} (h : FillReachable t) : HostIdsInTable t := by
  induction h with
  | fresh => exact fun r hused _ => absurd hused (by simp [AsmTables.used, AsmTables.fresh])
  | fill instr _ _ ih => exact ih.fillLoop _

/-- The guest register of a register operand in use. -/
def RegOperand (instr : IrRawInstr) (i : Fin 6) (r : ℕ) : Prop :=
  (i : ℕ) < instr.set.opsCount ∧ instr.set.op i = .reg r

lemma asmFixInstr_get {instr : IrRawInstr} {i : Fin 6} {r : ℕ} (h : RegOperand instr i r)
    (assoc : AssocTable) :
    (asmFixInstr assoc instr).set.op i = .reg ((assoc r).id % 2 ^ 8) := by
  have hlen : (i : ℕ) < (asmFixInstr assoc instr).set.ops.toList.length := by simp
  rw [IrOperandSet.op, List.getD_eq_getElem?_getD, List.getElem?_eq_getElem hlen,
    Option.getD_some]
  simp only [asmFixInstr, Vector.toList_ofFn, List.getElem_ofFn, h.1, if_true, h.2]
  rfl

/-- **Rewritten operands keep locations apart.**  Two equal operands were one guest register or
have one association; an operand whose association is not spilled is the associated host
register; a spilled one is no physical register; and no id is outside the register table. -/
structure KeepsApart (t : AsmTables) (instr : IrRawInstr) : Prop where
  apart : ∀ i j r s, RegOperand instr i r → RegOperand instr j s →
    (asmFixInstr t.assoc instr).set.op i = (asmFixInstr t.assoc instr).set.op j →
    r = s ∨ t.spilled r = t.spilled s ∧ (t.assoc r).id = (t.assoc s).id
  host : ∀ i r, RegOperand instr i r → t.spilled r = false →
    (asmFixInstr t.assoc instr).set.op i = .reg (t.assoc r).id
  spilled : ∀ i r, RegOperand instr i r → t.spilled r = true →
    ∀ h < 16, (asmFixInstr t.assoc instr).set.op i ≠ .reg h
  inTable : ∀ i r, RegOperand instr i r →
    i64RegToOperand ((asmFixInstr t.assoc instr).set.op i).id ≠ none

/-- A spill slot written into an operand is a physical register or outside the table. -/
lemma not_keepsApart_of_spilled {t : AsmTables} {instr : IrRawInstr} {i : Fin 6} {r : ℕ}
    (hop : RegOperand instr i r) (hspill : t.spilled r = true) : ¬ KeepsApart t instr := by
  intro h
  have hfix := asmFixInstr_get hop t.assoc
  rcases Nat.lt_or_ge ((t.assoc r).id % 2 ^ 8) 16 with hlt | hge
  · exact h.spilled i r hop hspill _ hlt hfix
  · refine h.inTable i r hop ?_
    rw [hfix]
    exact i64RegToOperand_eq_none hge

/-- **`asm_fix_instr` keeps locations apart** if and only if no operand is spilled. -/
theorem asmFixInstr_keepsApart_iff {t : AsmTables} (hreach : FillReachable t)
    (instr : IrRawInstr) (hused : ∀ i r, RegOperand instr i r → t.used r = true) :
    KeepsApart t instr ↔ ∀ i r, RegOperand instr i r → t.spilled r = false := by
  constructor
  · intro h i r hop
    by_contra hspill
    exact not_keepsApart_of_spilled hop (by simpa using hspill) h
  · intro hhost
    have hlt : ∀ i r, RegOperand instr i r → (t.assoc r).id < 16 := fun i r hop =>
      hreach.hostIdsInTable r (hused i r hop) (hhost i r hop)
    -- the id is not cut by the byte of the operand
    have hfix : ∀ i r, RegOperand instr i r →
        (asmFixInstr t.assoc instr).set.op i = .reg (t.assoc r).id := by
      intro i r hop
      have hid := hlt i r hop
      rw [asmFixInstr_get hop, Nat.mod_eq_of_lt (by omega)]
    refine ⟨fun i j r s hi hj heq => Or.inr ⟨?_, ?_⟩, fun i r hop _ => hfix i r hop,
      fun i r hop hspill => ?_, fun i r hop => ?_⟩
    · rw [hhost i r hi, hhost j s hj]
    · rw [hfix i r hi, hfix j s hj] at heq
      exact congrArg IrOperand.id heq
    · rw [hhost i r hop] at hspill
      cases hspill
    · rw [hfix i r hop, IrOperand.reg_id, i64RegToOperand_eq (hlt i r hop)]
      exact Option.some_ne_none _

lemma regOperand_three {opcode : IrOpcode} {a b c r : ℕ} {i : Fin 6}
    (h : RegOperand (threeRegInstr opcode a b c) i r) : r = a ∨ r = b ∨ r = c := by
  obtain ⟨hlt, hget⟩ := h
  have hid := congrArg IrOperand.id hget
  have h3 : (i : ℕ) < 3 := hlt
  obtain hi | hi | hi : i = 0 ∨ i = 1 ∨ i = 2 := by omega
  · subst hi
    exact Or.inl hid.symm
  · subst hi
    exact Or.inr (Or.inl hid.symm)
  · subst hi
    exact Or.inr (Or.inr hid.symm)

/-- The tables after `asm_fill_assoc` on an instruction in a fresh block. -/
def tablesOf (a b c : ℕ) : AsmTables :=
  asmFillAssoc mipsToI64 (threeRegInstr irAddI32 a b c) .fresh

/-- The condition after `add r8, r9, r9`: both registers take a host register. -/
theorem asmFixInstr_keepsApart_iff_temps :
    FillReachable (tablesOf 8 9 9) ∧
      (KeepsApart (tablesOf 8 9 9) (threeRegInstr irAddI32 8 9 9) ↔
        ∀ i r, RegOperand (threeRegInstr irAddI32 8 9 9) i r →
          (tablesOf 8 9 9).spilled r = false) := by
  have hreach : FillReachable (tablesOf 8 9 9) := .fill _ .fresh (by decide)
  refine ⟨hreach, asmFixInstr_keepsApart_iff hreach _ fun i r hop => ?_⟩
  rcases regOperand_three hop with rfl | rfl | rfl <;> decide +kernel

/-- `add r3, r2, r2`: register 3 takes host register 0, and register 2, of the same role, the
spill slot 0.  The rewritten operands are all host register 0. -/
theorem spilledSource_not_keepsApart :
    FillReachable (tablesOf 3 2 2) ∧ (tablesOf 3 2 2).used 3 = true ∧
      (tablesOf 3 2 2).used 2 = true ∧
      ¬ KeepsApart (tablesOf 3 2 2) (threeRegInstr irAddI32 3 2 2) := by
  refine ⟨.fill _ .fresh (by decide), by decide +kernel, by decide +kernel, ?_⟩
  have hop : RegOperand (threeRegInstr irAddI32 3 2 2) 1 2 := ⟨by decide, rfl⟩
  exact not_keepsApart_of_spilled hop (by decide +kernel)

end AxVirtLayer
