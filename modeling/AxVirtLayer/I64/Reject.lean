import AxVirtLayer.I64.Lower

/-!
# Which instructions the lowering rejects

`i64_ir_to_raw` (`i64_ir.c`) stops at two assertions, writes nothing for an instruction with
too many operands and leaves the length of the caller, and lowers everything else, whether
the tables have an entry for it or not.  The file says which IR instructions fall under which
of these, and what the loop of `tblock_ir_to_raw` makes of a list of them.
-/

namespace AxVirtLayer

open Lib.Intel64

/-! ## Kinds of instructions -/

/-- The group and the width have a specific opcode: the entries of the 8-bit `MOV` are
invalid. -/
def HasOpcode (opcode : IrOpcode) : Prop :=
  irOpcodeGroup opcode ∈ [irGroupAdd, irGroupOr, irGroupAnd, irGroupSub] ∨
    irOpcodeGroup opcode = irOpcodeGroup irGroupMov ∧ irOpcodeWidth opcode ≠ ir8Bit

/-- The tables cannot encode the instruction. -/
def Unsupported (i : IrRawInstr) : Prop :=
  ¬ HasOpcode i.opcode ∨ (∃ op ∈ i.set.used, op.kind ≠ .irOpReg) ∨ 4 < i.set.opsCount

/-- `ir_op_group`, kept in a byte. -/
def irOpGroup (i : IrRawInstr) : ℕ := (irOpcodeGroup i.opcode).toNat % 2 ^ 8

/-- `ir_op_dest_src`. -/
def irOpDestSrc (i : IrRawInstr) : ℕ := if (i.set.op 0).id = (i.set.op 1).id then 1 else 0

/-- The form of the operands from the destination on. -/
def irOpForm (i : IrRawInstr) : I64OpcodeForm :=
  i64IrOpcodeFormRes (i.set.op (irOpDestSrc i)) (i.set.op (irOpDestSrc i + 1))

/-- The assertion of `i64_ir_to_raw` fails, or the one of `i64_ir_opcode_conv`: an immediate
second operand, or an entry of the 8-bit `MOV`.  Two operands without a form pass. -/
def Asserts (i : IrRawInstr) : Prop :=
  ((i.set.op 0).id = (i.set.op 1).id ∧ irOpcodeFlags i.opcode &&& irDestNeqSrc ≠ 0) ∨
    irOpGroup i < 8 ∧ irOpForm i ≠ formUnk ∧
      (irOpForm i = formRmImm ∨ irOpGroup i = 7 ∧ irOpcodeWidth i.opcode = ir8Bit)

/-- The conversion reads behind `I64_IR_GROUP_TO_GENERIC` or `I64_REG_TO_OPERAND`. -/
def ReadsOutside (i : IrRawInstr) : Prop :=
  8 ≤ irOpGroup i ∨ ∃ k < i.set.opsCount, irOpDestSrc i ≤ k ∧ (i.set.op k).kind = .irOpReg ∧
    16 ≤ (i.set.op k).id

instance (opcode : IrOpcode) : Decidable (HasOpcode opcode) :=
  inferInstanceAs (Decidable (_ ∨ _))

instance (i : IrRawInstr) : Decidable (Unsupported i) := inferInstanceAs (Decidable (_ ∨ _))

instance (i : IrRawInstr) : Decidable (Asserts i) := inferInstanceAs (Decidable (_ ∨ _))

instance (i : IrRawInstr) : Decidable (ReadsOutside i) := inferInstanceAs (Decidable (_ ∨ _))

/-! ## The conversion -/

/-- **The tables**: whether the form of the specific opcode is the one of the operands. -/
lemma opcodeTrans_form : ∀ g < 8, ∀ w < 4, ∀ f ∈ [formUnk, formRmR, formRRm, formRmImm],
    ((i64IrGroupToGeneric g w).bind fun gen => i64IrGenericToSpecific (i64OpcodeValue gen) f).map
      (fun opcode => decide (f = (i64LookupOpcodeMeta opcode).form)) =
    .ok (decide (f = formUnk ∨ f ≠ formRmImm ∧ ¬ (g = 7 ∧ w = 0))) := by
  decide +kernel

lemma irOpForm_mem (i : IrRawInstr) : irOpForm i ∈ [formUnk, formRmR, formRRm, formRmImm] := by
  rw [irOpForm, i64IrOpcodeFormRes]
  cases (i.set.op (irOpDestSrc i)).kind <;> cases (i.set.op (irOpDestSrc i + 1)).kind <;> decide

lemma irOpcodeWidth_lt (opcode : IrOpcode) : (irOpcodeWidth opcode).toNat < 4 := by
  rw [irOpcodeWidth, BitVec.toNat_and]
  exact Nat.and_lt_two_pow _ (by decide : 3 < 2 ^ 2)

/-- The opcode of an instruction whose group is in the table, and whether its form is the one
of the operands. -/
lemma exists_opcodeTrans {i : IrRawInstr} (hgroup : irOpGroup i < 8) :
    ∃ opcode, i64IrOpcodeTrans (irOpGroup i) (irOpcodeWidth i.opcode).toNat
        (i.set.op (irOpDestSrc i)) (i.set.op (irOpDestSrc i + 1)) = .ok opcode ∧
      (irOpForm i = (i64LookupOpcodeMeta opcode).form ↔ irOpForm i = formUnk ∨
        irOpForm i ≠ formRmImm ∧ ¬ (irOpGroup i = 7 ∧ irOpcodeWidth i.opcode = ir8Bit)) := by
  have hwidth : irOpcodeWidth i.opcode = ir8Bit ↔ (irOpcodeWidth i.opcode).toNat = 0 :=
    BitVec.toNat_inj.symm
  have htable := opcodeTrans_form _ hgroup _ (irOpcodeWidth_lt i.opcode) _ (irOpForm_mem i)
  have htrans : i64IrOpcodeTrans (irOpGroup i) (irOpcodeWidth i.opcode).toNat
      (i.set.op (irOpDestSrc i)) (i.set.op (irOpDestSrc i + 1)) =
      (i64IrGroupToGeneric (irOpGroup i) (irOpcodeWidth i.opcode).toNat).bind fun gen =>
        i64IrGenericToSpecific (i64OpcodeValue gen) (irOpForm i) := rfl
  rw [← htrans] at htable
  rw [hwidth]
  cases hopcode : i64IrOpcodeTrans (irOpGroup i) (irOpcodeWidth i.opcode).toNat
      (i.set.op (irOpDestSrc i)) (i.set.op (irOpDestSrc i + 1)) with
  | error e =>
    rw [hopcode] at htable
    cases htable
  | ok opcode =>
    rw [hopcode] at htable
    exact ⟨opcode, rfl, decide_eq_decide.1 (Except.ok.inj htable)⟩

/-- The loop over the operands, by the registers it looks up. -/
lemma foldlM_operandTrans (set : IrOperandSet) (desc : I64OpcodeDesc) (base : ℕ) :
    ∀ (ks : List ℕ) (buf : I64Operands),
      (∃ operands, ks.foldlM (fun (buf : I64Operands) k => do
          let operand ← i64IrOperandTrans (set.op (k + base)) (desc.ops.toList.getD k .zero)
            (buf.toList.getD k .zero)
          pure (buf.setIfInBounds k operand)) buf = .ok operands ∧
        ∀ k ∈ ks, (set.op (k + base)).kind = .irOpReg → (set.op (k + base)).id < 16) ∨
      ks.foldlM (fun (buf : I64Operands) k => do
          let operand ← i64IrOperandTrans (set.op (k + base)) (desc.ops.toList.getD k .zero)
            (buf.toList.getD k .zero)
          pure (buf.setIfInBounds k operand)) buf = .error .outOfTable ∧
        ∃ k ∈ ks, (set.op (k + base)).kind = .irOpReg ∧ 16 ≤ (set.op (k + base)).id
  | [], buf => .inl ⟨buf, rfl, fun _ hk => absurd hk List.not_mem_nil⟩
  | k :: ks, buf => by
    by_cases hout : (set.op (k + base)).kind = .irOpReg ∧ 16 ≤ (set.op (k + base)).id
    · refine .inr ⟨?_, k, List.mem_cons_self, hout⟩
      rw [List.foldlM_cons, i64IrOperandTrans, hout.1]
      simp only [i64RegToOperand_eq_none hout.2]
      rfl
    · obtain ⟨operand, hoperand⟩ : ∃ operand, i64IrOperandTrans (set.op (k + base))
          (desc.ops.toList.getD k .zero) (buf.toList.getD k .zero) = .ok operand := by
        rw [i64IrOperandTrans]
        cases hkind : (set.op (k + base)).kind with
        | irOpReg =>
          rw [i64RegToOperand_eq (not_le.1 fun h => hout ⟨hkind, h⟩)]
          exact ⟨_, rfl⟩
        | irOpMem => exact ⟨_, rfl⟩
        | irOpImm => exact ⟨_, rfl⟩
      rw [List.foldlM_cons, hoperand]
      rcases foldlM_operandTrans set desc base ks (buf.setIfInBounds k operand) with
        ⟨operands, hrest, hin⟩ | ⟨hrest, j, hj, hjout⟩
      · refine .inl ⟨operands, hrest, List.forall_mem_cons.2 ⟨fun hkind => ?_, hin⟩⟩
        exact not_le.1 fun h => hout ⟨hkind, h⟩
      · exact .inr ⟨hrest, j, List.mem_cons_of_mem _ hj, hjout⟩

/-- The operands of the instruction for an opcode. -/
def operandsFor (i : IrRawInstr) (opcode : I64Opcode) : Except Stop I64Operands :=
  (List.range (i.set.opsCount - irOpDestSrc i)).foldlM (fun (buf : I64Operands) k => do
    let operand ← i64IrOperandTrans (i.set.op (k + irOpDestSrc i))
      ((i64LookupOpcodeMeta opcode).ops.toList.getD k .zero) (buf.toList.getD k .zero)
    pure (buf.setIfInBounds k operand)) (.replicate 4 .zero)

lemma i64IrOpcodeConv_eq (i : IrRawInstr) :
    i64IrOpcodeConv i = (i64IrOpcodeTrans (irOpGroup i) (irOpcodeWidth i.opcode).toNat
        (i.set.op (irOpDestSrc i)) (i.set.op (irOpDestSrc i + 1))).bind fun opcode =>
      if irOpForm i ≠ (i64LookupOpcodeMeta opcode).form then .error .asrt
      else (operandsFor i opcode).bind fun operands => .ok (opcode, operands) :=
  rfl

lemma i64IrGroupToGeneric_outside {group : ℕ} (h : 8 ≤ group) (width : ℕ) :
    i64IrGroupToGeneric group width = .error .outOfTable := by
  rw [i64IrGroupToGeneric, if_neg (by omega), if_neg (by omega), if_neg (by omega),
    if_neg (by omega), if_neg (by omega), if_neg (by omega)]

/-- What becomes of the conversion of an instruction. -/
lemma i64IrOpcodeConv_cases (i : IrRawInstr) :
    (8 ≤ irOpGroup i ∧ i64IrOpcodeConv i = .error .outOfTable) ∨
    (irOpGroup i < 8 ∧ irOpForm i ≠ formUnk ∧
        (irOpForm i = formRmImm ∨ irOpGroup i = 7 ∧ irOpcodeWidth i.opcode = ir8Bit) ∧
      i64IrOpcodeConv i = .error .asrt) ∨
    (irOpGroup i < 8 ∧ (irOpForm i = formUnk ∨
        irOpForm i ≠ formRmImm ∧ ¬ (irOpGroup i = 7 ∧ irOpcodeWidth i.opcode = ir8Bit)) ∧
      ((ReadsOutside i ∧ i64IrOpcodeConv i = .error .outOfTable) ∨
        ¬ ReadsOutside i ∧ ∃ res, i64IrOpcodeConv i = .ok res)) := by
  rcases Nat.lt_or_ge (irOpGroup i) 8 with hgroup | hgroup
  · obtain ⟨opcode, htrans, hform⟩ := exists_opcodeTrans hgroup
    have hconv : i64IrOpcodeConv i =
        if irOpForm i ≠ (i64LookupOpcodeMeta opcode).form then .error .asrt
        else (operandsFor i opcode).bind fun operands => .ok (opcode, operands) := by
      rw [i64IrOpcodeConv_eq, htrans]
      rfl
    by_cases hok : irOpForm i = (i64LookupOpcodeMeta opcode).form
    · refine .inr (.inr ⟨hgroup, hform.1 hok, ?_⟩)
      rw [if_neg (not_not.2 hok)] at hconv
      rcases foldlM_operandTrans i.set (i64LookupOpcodeMeta opcode) (irOpDestSrc i)
        (List.range (i.set.opsCount - irOpDestSrc i)) (.replicate 4 .zero) with
        ⟨operands, hops, hin⟩ | ⟨hops, k, hk, hkind, hid⟩
      · refine .inr ⟨?_, (opcode, operands), by rw [hconv, operandsFor, hops]; rfl⟩
        rintro (h8 | ⟨k, hk, hle, hkind, hid⟩)
        · omega
        · have := hin (k - irOpDestSrc i) (List.mem_range.2 (by omega))
          rw [Nat.sub_add_cancel hle] at this
          exact absurd (this hkind) (not_lt.2 hid)
      · refine .inl ⟨.inr ⟨k + irOpDestSrc i, ?_, by omega, hkind, hid⟩,
          by rw [hconv, operandsFor, hops]; rfl⟩
        have := List.mem_range.1 hk
        omega
    · refine .inr (.inl ⟨hgroup, ?_, ?_, by rw [hconv, if_pos hok]⟩)
      · exact fun h => hok (hform.2 (.inl h))
      · by_contra hnot
        exact hok (hform.2 (.inr (not_or.1 hnot)))
  · refine .inl ⟨hgroup, ?_⟩
    have htrans : i64IrOpcodeTrans (irOpGroup i) (irOpcodeWidth i.opcode).toNat
        (i.set.op (irOpDestSrc i)) (i.set.op (irOpDestSrc i + 1)) = .error .outOfTable := by
      rw [i64IrOpcodeTrans, i64IrGroupToGeneric_outside hgroup]
      rfl
    rw [i64IrOpcodeConv_eq, htrans]
    rfl

/-- **The three outcomes** of `i64_ir_to_raw` for at most four operands. -/
lemma i64IrToRaw_cases {i : IrRawInstr} (hcount : i.set.opsCount ≤ 4) :
    (Asserts i ∧ ∀ len, i64IrToRaw i len = .error .asrt) ∨
    (¬ Asserts i ∧ ReadsOutside i ∧ ∀ len, i64IrToRaw i len = .error .outOfTable) ∨
    (¬ Asserts i ∧ ¬ ReadsOutside i ∧ ∃ host, 1 ≤ host.2 ∧ ∀ len, i64IrToRaw i len = .ok host) := by
  by_cases horder : (i.set.op 0).id = (i.set.op 1).id ∧ irOpcodeFlags i.opcode &&& irDestNeqSrc ≠ 0
  · refine .inl ⟨.inl horder, fun len => ?_⟩
    rw [i64IrToRaw, if_neg (not_lt.2 hcount), if_pos horder]
  · have hconv : ∀ len, i64IrToRaw i len = (i64IrOpcodeConv i).bind fun res =>
        .ok (i64Emit64 res.1 res.2 fun _ => 0) := by
      intro len
      rw [i64IrToRaw, if_neg (not_lt.2 hcount), if_neg horder]
      rfl
    have hasserts : Asserts i ↔ irOpGroup i < 8 ∧ irOpForm i ≠ formUnk ∧
        (irOpForm i = formRmImm ∨ irOpGroup i = 7 ∧ irOpcodeWidth i.opcode = ir8Bit) :=
      or_iff_right horder
    rcases i64IrOpcodeConv_cases i with ⟨h8, hres⟩ | ⟨hgroup, hform, hentry, hres⟩ |
      ⟨hgroup, hform, ⟨hout, hres⟩ | ⟨hin, res, hres⟩⟩
    · refine .inr (.inl ⟨fun h => ?_, .inl h8, fun len => by rw [hconv, hres]; rfl⟩)
      exact absurd (hasserts.1 h).1 (not_lt.2 h8)
    · refine .inl ⟨hasserts.2 ⟨hgroup, hform, hentry⟩, fun len => by rw [hconv, hres]; rfl⟩
    · refine .inr (.inl ⟨fun h => ?_, hout, fun len => by rw [hconv, hres]; rfl⟩)
      have := hasserts.1 h
      tauto
    · refine .inr (.inr ⟨fun h => ?_, hin, i64Emit64 res.1 res.2 fun _ => 0, ?_,
        fun len => by rw [hconv, hres]; rfl⟩)
      · have := hasserts.1 h
        tauto
      · rw [i64Emit64_len]
        exact (compactBytes_length _ _).1

/-! ## The loop over the instructions -/

/-- The body of the loop converts the instruction; one with too many operands it takes for
converted. -/
def Converts (i : IrRawInstr) : Prop :=
  i.opcode ≠ irInvalidOpcode ∧ (4 < i.set.opsCount ∨ ¬ Asserts i ∧ ¬ ReadsOutside i)

/-- The body of the loop stops at an assertion. -/
def StopsAt (i : IrRawInstr) : Prop :=
  i.opcode = irInvalidOpcode ∨ i.set.opsCount ≤ 4 ∧ Asserts i

instance (i : IrRawInstr) : Decidable (Converts i) := inferInstanceAs (Decidable (_ ∧ _))

instance (i : IrRawInstr) : Decidable (StopsAt i) := inferInstanceAs (Decidable (_ ∨ _))

/-- The first instruction that is not converted stops the loop at an assertion. -/
def StopsFirst (is : List IrRawInstr) : Prop :=
  ∃ pre i post, is = pre ++ i :: post ∧ (∀ j ∈ pre, Converts j) ∧ StopsAt i

/-- The bytes `i64_ir_to_raw` makes of an instruction. -/
def i64Encoding (i : IrRawInstr) : List Byte :=
  match i64IrToRaw i 0 with
  | .ok host => i64Bytes host
  | .error _ => []

/-- The round of the loop for an instruction it converts. -/
def rawStep (s : IrToRaw) (i : IrRawInstr) : IrToRaw :=
  -- nothing resets the length of the instruction before
  if 4 < i.set.opsCount then ⟨s.hostLen, s.out ++ List.replicate s.hostLen 0⟩
  else ⟨(i64Encoding i).length, s.out ++ i64Encoding i⟩

lemma length_i64Bytes (host : (ℕ → BitVec 8) × ℕ) : (i64Bytes host).length = host.2 := by
  rw [i64Bytes, List.length_map, List.length_range]

lemma i64Encoding_many {i : IrRawInstr} (h : 4 < i.set.opsCount) : i64Encoding i = [] := by
  rw [i64Encoding, i64IrToRaw, if_pos h]
  rfl

/-- A converted instruction has at least one byte. -/
lemma i64Encoding_pos {i : IrRawInstr} (h : Converts i) (hcount : i.set.opsCount ≤ 4) :
    1 ≤ (i64Encoding i).length := by
  obtain ⟨-, hmany | ⟨hno, hin⟩⟩ := h
  · exact absurd hmany (not_lt.2 hcount)
  · rcases i64IrToRaw_cases hcount with ⟨h, -⟩ | ⟨-, h, -⟩ | ⟨-, -, host, hpos, hres⟩
    · exact absurd h hno
    · exact absurd h hin
    · rw [i64Encoding, hres, length_i64Bytes]
      exact hpos

section Loop

variable (guest : MteArch) (s : IrToRaw) {i : IrRawInstr}

lemma irToRawBody_of_ne (h : i.opcode ≠ irInvalidOpcode) :
    irToRawBody ⟨guest, .intel64⟩ s i =
      (i64IrToRaw i s.hostLen).bind fun host => .ok ⟨host.2, s.out ++ i64Bytes host⟩ := by
  rw [irToRawBody, if_neg h]
  rfl

lemma irToRawBody_of_converts (h : Converts i) :
    irToRawBody ⟨guest, .intel64⟩ s i = .ok (rawStep s i) := by
  rw [irToRawBody_of_ne guest s h.1, rawStep]
  by_cases hmany : 4 < i.set.opsCount
  · rw [i64IrToRaw, if_pos hmany, if_pos hmany]
    simp [i64Bytes, Except.bind]
  · rw [if_neg hmany]
    rcases i64IrToRaw_cases (not_lt.1 hmany) with ⟨hno, -⟩ | ⟨-, hno, -⟩ | ⟨-, -, host, -, hres⟩
    · exact absurd hno (h.2.resolve_left hmany).1
    · exact absurd hno (h.2.resolve_left hmany).2
    · rw [i64Encoding, hres, hres, length_i64Bytes]
      rfl

lemma irToRawBody_of_stopsAt (h : StopsAt i) :
    irToRawBody ⟨guest, .intel64⟩ s i = .error .asrt := by
  by_cases hinv : i.opcode = irInvalidOpcode
  · rw [irToRawBody, if_pos hinv]
  · obtain ⟨hcount, hasserts⟩ := h.resolve_left hinv
    rw [irToRawBody_of_ne guest s hinv]
    rcases i64IrToRaw_cases hcount with ⟨-, hres⟩ | ⟨hno, -⟩ | ⟨hno, -⟩
    · rw [hres]
      rfl
    · exact absurd hasserts hno
    · exact absurd hasserts hno

lemma irToRawBody_outside (hconv : ¬ Converts i) (hstop : ¬ StopsAt i) :
    irToRawBody ⟨guest, .intel64⟩ s i = .error .outOfTable := by
  obtain ⟨hinv, hasserts⟩ := not_or.1 hstop
  have hcount : i.set.opsCount ≤ 4 := not_lt.1 fun h => hconv ⟨hinv, .inl h⟩
  rw [irToRawBody_of_ne guest s hinv]
  rcases i64IrToRaw_cases hcount with ⟨h, -⟩ | ⟨-, -, hres⟩ | ⟨hno, hin, -⟩
  · exact absurd ⟨hcount, h⟩ hasserts
  · rw [hres]
    rfl
  · exact absurd ⟨hinv, .inr ⟨hno, hin⟩⟩ hconv

/-- The loop over instructions it converts. -/
lemma foldlM_of_converts {is : List IrRawInstr} (h : ∀ i ∈ is, Converts i) :
    is.foldlM (irToRawBody ⟨guest, .intel64⟩) s = .ok (is.foldl rawStep s) := by
  induction is generalizing s with
  | nil => rfl
  | cons i is ih =>
    rw [List.foldlM_cons, irToRawBody_of_converts guest s (h i List.mem_cons_self), List.foldl_cons]
    exact ih _ fun j hj => h j (List.mem_cons_of_mem _ hj)

end Loop

/-- Every list has all its elements converted or a first one that is not. -/
lemma forall_converts_or (is : List IrRawInstr) : (∀ i ∈ is, Converts i) ∨
    ∃ pre i post, is = pre ++ i :: post ∧ (∀ j ∈ pre, Converts j) ∧ ¬ Converts i := by
  induction is with
  | nil => exact .inl fun _ h => absurd h List.not_mem_nil
  | cons i is ih =>
    by_cases hi : Converts i
    · rcases ih with hall | ⟨pre, j, post, rfl, hpre, hj⟩
      · exact .inl (List.forall_mem_cons.2 ⟨hi, hall⟩)
      · exact .inr ⟨i :: pre, j, post, rfl, List.forall_mem_cons.2 ⟨hi, hpre⟩, hj⟩
    · exact .inr ⟨[], i, is, rfl, fun _ h => absurd h List.not_mem_nil, hi⟩

/-- Only instructions with too many operands leave the length at zero. -/
lemma hostLen_foldl_rawStep {is : List IrRawInstr} (h : ∀ i ∈ is, Converts i) :
    (is.foldl rawStep ⟨0, []⟩).hostLen = 0 ↔ ∀ i ∈ is, 4 < i.set.opsCount := by
  induction is using List.reverseRecOn with
  | nil => exact ⟨fun _ _ h => absurd h List.not_mem_nil, fun _ => rfl⟩
  | append_singleton is i ih =>
    obtain ⟨hinit, hi⟩ := List.forall_mem_append.1 h
    rw [List.foldl_append, List.foldl_cons, List.foldl_nil, List.forall_mem_append,
      List.forall_mem_singleton, rawStep]
    by_cases hmany : 4 < i.set.opsCount
    · rw [if_pos hmany, and_iff_left hmany]
      exact ih hinit
    · rw [if_neg hmany]
      have hpos := i64Encoding_pos (hi i List.mem_cons_self) (not_lt.1 hmany)
      exact ⟨fun h0 => absurd h0 (by dsimp only; omega), fun h => absurd h.2 hmany⟩

section Block

variable (guest : MteArch) (block : Tblock)

lemma tblockIrToRaw_of_converts (h : ∀ i ∈ block.ir, Converts i) :
    tblockIrToRaw ⟨guest, .intel64⟩ block =
      .ok ({ block with tables := { block.tables with spillCnt := 0 } },
        (block.ir.foldl rawStep ⟨0, []⟩).out, block.irCnt) := by
  rw [tblockIrToRaw_eq, foldlM_of_converts guest _ h]
  rfl

/-- The first instruction that is not converted decides. -/
lemma tblockIrToRaw_of_first {pre post : List IrRawInstr} {i : IrRawInstr} {e : Stop}
    (hir : block.ir = pre ++ i :: post) (hpre : ∀ j ∈ pre, Converts j)
    (hi : ∀ s, irToRawBody ⟨guest, .intel64⟩ s i = .error e) :
    tblockIrToRaw ⟨guest, .intel64⟩ block = .error e := by
  rw [tblockIrToRaw_eq, hir, List.foldlM_append, foldlM_of_converts guest _ hpre]
  change ((i :: post).foldlM (irToRawBody ⟨guest, .intel64⟩) _).map _ = _
  rw [List.foldlM_cons, hi]
  rfl

lemma tblockIrToRaw_asrt_of_stopsFirst (h : StopsFirst block.ir) :
    tblockIrToRaw ⟨guest, .intel64⟩ block = .error .asrt := by
  obtain ⟨pre, i, post, hir, hpre, hi⟩ := h
  exact tblockIrToRaw_of_first guest block hir hpre fun s => irToRawBody_of_stopsAt guest s hi

/-- The pass returns, stops at an assertion or reads outside a table. -/
lemma tblockIrToRaw_cases : (∀ i ∈ block.ir, Converts i) ∨ StopsFirst block.ir ∨
    tblockIrToRaw ⟨guest, .intel64⟩ block = .error .outOfTable := by
  rcases forall_converts_or block.ir with h | ⟨pre, i, post, hir, hpre, hi⟩
  · exact .inl h
  · by_cases hstop : StopsAt i
    · exact .inr (.inl ⟨pre, i, post, hir, hpre, hstop⟩)
    · exact .inr (.inr (tblockIrToRaw_of_first guest block hir hpre fun s =>
        irToRawBody_outside guest s hi hstop))

end Block

/-! ## Rejection -/

/-- `i64_ir_to_raw` rejects the instruction: it stops at an assertion or yields no bytes. -/
def Rejected (res : Except Stop ((ℕ → BitVec 8) × ℕ)) : Prop :=
  res = .error .asrt ∨ ∃ payload, res = .ok (payload, 0)

/-- The pass writes no byte for the instruction `i` behind `pre`. -/
def WritesNothing (guest : MteArch) (pre : List IrRawInstr) (i : IrRawInstr) : Prop :=
  ∀ s s', pre.foldlM (irToRawBody ⟨guest, .intel64⟩) ⟨0, []⟩ = .ok s →
    irToRawBody ⟨guest, .intel64⟩ s i = .ok s' → s'.out = s.out

/-- The pass stops at an assertion, or returns with no byte for an unsupported instruction. -/
def BlockRejects (guest : MteArch) (block : Tblock) : Prop :=
  tblockIrToRaw ⟨guest, .intel64⟩ block = .error .asrt ∨
    (∃ res, tblockIrToRaw ⟨guest, .intel64⟩ block = .ok res) ∧
      ∀ pre i post, block.ir = pre ++ i :: post → Unsupported i → WritesNothing guest pre i

/-- The instructions of a kind, and all before one, have too many operands. -/
def Leading (p : IrRawInstr → Prop) (is : List IrRawInstr) : Prop :=
  ∀ pre i post, is = pre ++ i :: post → p i → ∀ j ∈ pre ++ [i], 4 < j.set.opsCount

/-- An instruction is rejected by an assertion, or with too many operands and no length. -/
lemma rejected_iff (i : IrRawInstr) (len : ℕ) : Rejected (i64IrToRaw i len) ↔
    (4 < i.set.opsCount ∧ len = 0) ∨ i.set.opsCount ≤ 4 ∧ Asserts i := by
  rcases Nat.lt_or_ge 4 i.set.opsCount with hmany | hcount
  · have hres : i64IrToRaw i len = .ok (fun _ => 0, len) := by rw [i64IrToRaw, if_pos hmany]
    rw [hres]
    constructor
    · rintro (h | ⟨payload, h⟩)
      · cases h
      · exact .inl ⟨hmany, congrArg Prod.snd (Except.ok.inj h)⟩
    · rintro (⟨-, rfl⟩ | ⟨hcount, -⟩)
      · exact .inr ⟨_, rfl⟩
      · omega
  · rw [or_iff_right fun h => absurd h.1 (not_lt.2 hcount), and_iff_right hcount]
    rcases i64IrToRaw_cases hcount with ⟨h, hres⟩ | ⟨hno, -, hres⟩ | ⟨hno, -, host, hpos, hres⟩
    · exact iff_of_true (.inl (hres len)) h
    · refine iff_of_false ?_ hno
      rw [hres]
      rintro (h | ⟨payload, h⟩) <;> cases h
    · refine iff_of_false ?_ hno
      rw [hres]
      rintro (h | ⟨payload, h⟩)
      · cases h
      · rw [Except.ok.inj h] at hpos
        exact absurd hpos (by simp)

/-- In a list of converted instructions, nothing is written for the last one if all have too
many operands. -/
lemma writesNothing_iff (guest : MteArch) {pre : List IrRawInstr} {i : IrRawInstr}
    (hpre : ∀ j ∈ pre, Converts j) (hi : Converts i) :
    WritesNothing guest pre i ↔ ∀ j ∈ pre ++ [i], 4 < j.set.opsCount := by
  have hstep : WritesNothing guest pre i ↔
      (rawStep (pre.foldl rawStep ⟨0, []⟩) i).out = (pre.foldl rawStep ⟨0, []⟩).out := by
    rw [WritesNothing, foldlM_of_converts guest _ hpre]
    constructor
    · exact fun h => h _ _ rfl (irToRawBody_of_converts guest _ hi)
    · rintro h s s' hs hs'
      rw [← Except.ok.inj hs, irToRawBody_of_converts guest _ hi] at hs'
      rw [← Except.ok.inj hs', ← Except.ok.inj hs]
      exact h
  rw [hstep, List.forall_mem_append, List.forall_mem_singleton, ← hostLen_foldl_rawStep hpre,
    rawStep]
  by_cases hmany : 4 < i.set.opsCount
  · rw [if_pos hmany, and_iff_left hmany, List.append_right_eq_self, List.replicate_eq_nil_iff]
  · rw [if_neg hmany, List.append_right_eq_self]
    have hpos := i64Encoding_pos hi (not_lt.1 hmany)
    refine iff_of_false (fun h => ?_) fun h => hmany h.2
    rw [h] at hpos
    exact absurd hpos (by simp)

/-- **Rejection.**  An unsupported instruction is rejected exactly by one of the assertions or,
with too many operands, when the length of the caller is zero.  A block with one is rejected
exactly when the pass stops at an assertion first, or when the unsupported instructions are
the first ones of the block and have too many operands each. -/
theorem unsupportedRejected_iff (guest : MteArch) :
    (∀ i, Unsupported i → ∀ len, Rejected (i64IrToRaw i len) ↔
      (4 < i.set.opsCount ∧ len = 0) ∨ i.set.opsCount ≤ 4 ∧ Asserts i) ∧
    ∀ block : Tblock, (∃ i ∈ block.ir, Unsupported i) → (BlockRejects guest block ↔
      StopsFirst block.ir ∨ (∀ i ∈ block.ir, Converts i) ∧ Leading Unsupported block.ir) := by
  refine ⟨fun i _ len => rejected_iff i len, fun block _ => ⟨fun h => ?_, ?_⟩⟩
  · rcases tblockIrToRaw_cases guest block with hconv | hstop | hout
    · refine .inr ⟨hconv, fun pre i post hir hi => ?_⟩
      have hres := tblockIrToRaw_of_converts guest block hconv
      rcases h with h | ⟨-, h⟩
      · rw [hres] at h
        cases h
      · rw [hir] at hconv
        obtain ⟨hpre, hpost⟩ := List.forall_mem_append.1 hconv
        exact (writesNothing_iff guest hpre (hpost i List.mem_cons_self)).1 (h pre i post hir hi)
    · exact .inl hstop
    · rcases h with h | ⟨⟨res, h⟩, -⟩
      · rw [hout] at h
        cases h
      · rw [hout] at h
        cases h
  · rintro (hstop | ⟨hconv, hlead⟩)
    · exact .inl (tblockIrToRaw_asrt_of_stopsFirst guest block hstop)
    · refine .inr ⟨⟨_, tblockIrToRaw_of_converts guest block hconv⟩, fun pre i post hir hi => ?_⟩
      have hall := hlead pre i post hir hi
      rw [hir] at hconv
      obtain ⟨hpre, hpost⟩ := List.forall_mem_append.1 hconv
      exact (writesNothing_iff guest hpre (hpost i List.mem_cons_self)).2 hall

/-- The block of a list of instructions. -/
def blockOfIr (is : List IrRawInstr) : Tblock :=
  { tblockAlloc zeroHeap .tblockSmall with
    irCnt := is.length, irBuf := fun k => is.getD k ⟨irInvalidOpcode, .zero⟩ }

/-- The 8-bit move, whose entries in the tables are invalid. -/
def movI8 : IrRawInstr := ⟨irOpi 1 ir8Bit irGroupMov, .two (.reg 0) (.reg 1)⟩

theorem unsupportedRejected_iff_movI8 :
    Rejected (i64IrToRaw movI8 0) ∧ BlockRejects .mips32 (blockOfIr [movI8]) :=
  ⟨((unsupportedRejected_iff .mips32).1 movI8 (by decide) 0).2 (.inr (by decide)),
    ((unsupportedRejected_iff .mips32).2 (blockOfIr [movI8]) ⟨movI8, by decide, by decide⟩).2
      (.inl ⟨[], movI8, [], by decide, by decide, by decide⟩)⟩

/-- The `IR_ALLOC` of the prologue has no entry in the tables and an immediate operand.  It is
lowered to a zero byte. -/
theorem irToRawAlloc_not_rejected :
    Unsupported (irToRawAlloc ⟨.mips32, .intel64⟩) ∧
      (i64IrToRaw (irToRawAlloc ⟨.mips32, .intel64⟩) 0).map i64Bytes = .ok [0x00] ∧
      ¬ Rejected (i64IrToRaw (irToRawAlloc ⟨.mips32, .intel64⟩) 0) ∧
      ¬ BlockRejects .mips32 (blockOfIr [irToRawAlloc ⟨.mips32, .intel64⟩]) := by
  have hir : (blockOfIr [irToRawAlloc ⟨.mips32, .intel64⟩]).ir =
      [irToRawAlloc ⟨.mips32, .intel64⟩] := rfl
  have hconv : ∀ i ∈ [irToRawAlloc ⟨.mips32, .intel64⟩], Converts i := by decide
  refine ⟨by decide, by decide +kernel, fun h => ?_, ?_⟩
  · rw [rejected_iff] at h
    exact absurd h (by decide)
  · rintro (h | ⟨-, h⟩)
    · rw [tblockIrToRaw_of_converts _ _ (by rw [hir]; exact hconv)] at h
      cases h
    · have hwrites := h [] _ [] hir (by decide)
      rw [writesNothing_iff _ (by decide) (hconv _ List.mem_cons_self)] at hwrites
      exact absurd hwrites (by decide)

end AxVirtLayer
