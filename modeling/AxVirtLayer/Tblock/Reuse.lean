import AxVirtLayer.Tblock.AllocInvariant
import AxVirtLayer.Tblock.Flush
import AxVirtLayer.Tblock.Meaning
import AxVirtLayer.I64.Lower

/-!
# A block used again

`tblock_emit` (`tblock.c`) and the loop of `main` (`main.c`) that emits one block again and
again, with `ir_cnt` set back to 0 after every emission.

The flush at the end of the last fragment clears the tables, and the third pass resets the
spill counter; the liveness table is never cleared.  A bit left from an earlier emission keeps
a flush from dropping an association or from freeing a host register, and the words after it
are translated differently.  If no stale bit does that, every emission is that of a fresh
block (`reusedBlock_emitsAsFresh`).
-/

namespace AxVirtLayer

open Lib Lib.Intel64

/-! ## Emissions -/

/-- `tblock_emit`: the block after the second pass and what the third pass returns, `none` when
an assertion of the first two passes stops the program. -/
def tblockEmit (ir : IrContext) (code : GuestCode) (block : Tblock) :
    Option (Tblock × Except Stop (Tblock × List Byte × ℕ)) :=
  (tblockLivenessScan ir code block).bind fun (block, _) =>
    (tblockRawToIr ir code block).map fun (block, _) => (block, tblockIrToRaw ir block)

/-- What an emission produces: the IR list and the host bytes. -/
def emitted (code : GuestCode) (block : Tblock) :
    Option (List IrRawInstr × Except Stop (List Byte)) :=
  (tblockEmit mipsToI64 code block).map fun (block, raw) =>
    (block.ir, raw.map fun (_, out, _) => out)

/-- One turn of the loop of `main`: an emission, and `ir_cnt` set back to 0. -/
def emitStep (block : Tblock) (code : GuestCode) : Option Tblock :=
  (tblockEmit mipsToI64 code block).bind fun (_, raw) =>
    raw.toOption.map fun (block, _) => { block with irCnt := 0 }

/-- An emission produces what it produces through a fresh block. -/
def EmitsAsFresh (heap : ℕ → IrRawInstr) (block : Tblock) (code : GuestCode) : Prop :=
  emitted code block = emitted code (tblockAlloc heap block.type)

/-- The guest block consists of arithmetic words and `NOP`s. -/
def ArithCode (type : TblockType) (code : GuestCode) : Prop :=
  ∀ instr ∈ blockWords type code, IsArith instr ∨ IsNop instr

/-- No flush of the second pass is kept from doing its work by a stale bit: when the end of the
fragment `s.blkI` is crossed, a register with a bit for the fragment that no word of it names
has no association, and the host register of the same number is free. -/
def StaleHarmless (block : Tblock) (code : GuestCode) : Prop :=
  ∀ scanned cnt, tblockLivenessScan mipsToI64 code block = some (scanned, cnt) →
    ∀ k s instr mid, runs rawToIrStep (.init scanned) ((blockWords block.type code).take k) =
        some s →
      (blockWords block.type code)[k]? = some instr → rawToIrMid s.block instr = some mid →
      (rawToIrCross mipsToI64 4 { s with block := mid }).blkI ≠ s.blkI →
      ∀ r < 32, (block.liveness r).getLsbD s.blkI = true →
        (∀ i instr', (blockWords block.type code)[i]? = some instr' →
          fragOf block.type i = s.blkI → ¬ Names instr' r) →
        mid.tables.used r = false ∧ mid.tables.state r = .regFree

/-! ## The second pass -/

/-- The IR of one word. -/
def wordOut (t : AsmTables) (instr : BitVec 32) : List IrRawInstr :=
  if IsNop instr then [] else arithOut (arithTables t instr) instr

section Word

variable {liveness : LivenessTable} {type : TblockType} {k : ℕ} {s s' : PassState}
  {instr : BitVec 32}

lemma rTypeOut_eq (h : IsArith instr ∨ IsNop instr) (t : AsmTables) :
    rTypeOut t instr = wordOut t instr := by
  rcases h with h | rfl
  · rw [rTypeOut, wordOut, if_pos h, if_neg h.not_isNop]
  · rfl

/-- **One word of the second pass**: the tables and the IR list after it. -/
lemma RawAt.step_eq (h : RawAt liveness type k s) (hk : k < 16 * fragWords type)
    (hinstr : IsArith instr ∨ IsNop instr) (hstep : rawToIrStep s instr = some s') :
    s'.block.tables = tablesAfter liveness type k (wordTables s.block.tables instr) ∧
      s'.block.ir = s.block.ir ++ wordOut s.block.tables instr ∧
      ∃ mid, rawToIrMid s.block instr = some mid ∧
        mid.tables = wordTables s.block.tables instr := by
  obtain ⟨mid, t, hmid, htab, -, hstep', -, hafter, hir⟩ :=
    h.rTypeStep hk (isRType_of_arith_or_nop hinstr)
  obtain rfl : t = s' := Option.some_injective _ (hstep'.symm.trans hstep)
  rw [rTypeTables_eq hinstr] at htab
  exact ⟨by rw [hafter, htab], by rw [hir, rTypeOut_eq hinstr], mid, hmid, htab⟩

end Word

/-! ## The tables -/

/-- What holds of the tables all along a pass: an unused association is zeroed, only guest
registers have associations, and only host registers are occupied. -/
structure TablesBounded (t : AsmTables) : Prop where
  unused : ∀ r, t.used r = false → t.assoc r = .zero
  guest : ∀ r, t.used r = true → r < 32
  host : ∀ h, t.state h = .regOccupied → h < 16

lemma tablesBounded_fresh : TablesBounded .fresh where
  unused _ _ := rfl
  guest r h := absurd h (by simp [AsmTables.used, AsmTables.fresh])
  host h hocc := absurd hocc (by simp [AsmTables.fresh])

namespace TablesBounded

variable {t : AsmTables}

lemma fillOne (h : TablesBounded t) {r : ℕ} (hr : r < 32) :
    TablesBounded (asmFillOne mipsToI64 t r) where
  unused s hs := by
    rw [asmFillOne_used, Bool.or_eq_false_iff, decide_eq_false_iff_not] at hs
    rw [asmFillOne_assoc_of_ne hs.1]
    exact h.unused s hs.2
  guest s hs := by
    rw [asmFillOne_used, Bool.or_eq_true, decide_eq_true_eq] at hs
    rcases hs with rfl | hs
    · exact hr
    · exact h.guest s hs
  host k hk := by
    rcases asmFillOne_cases t r with ⟨reg, hfree, heq⟩ | ⟨-, heq⟩ <;> rw [heq] at hk
    · by_cases hkr : k = reg
      · exact hkr ▸ hfree.1.lt
      · rw [AsmTables.take_state, Function.update_of_ne hkr] at hk
        exact h.host k hk
    · exact h.host k hk

lemma fillLoop (h : TablesBounded t) {ops : List IrOperand} (hops : ∀ op ∈ ops, op.id < 32) :
    TablesBounded (asmFillLoop mipsToI64 t ops) := by
  induction ops generalizing t with
  | nil => exact h
  | cons op ops ih =>
    rw [asmFillLoop]
    split_ifs
    · exact h
    · exact ih (h.fillOne (hops op (by simp))) fun op' hop' => hops op' (by simp [hop'])

lemma wordTables (h : TablesBounded t) (instr : BitVec 32) :
    TablesBounded (wordTables t instr) := by
  rw [AxVirtLayer.wordTables]
  split_ifs
  · exact h
  · exact h.fillLoop (fillOperands_lt (mips32Rd_lt instr) (mips32Rs_lt instr) (mips32Rt_lt instr))

lemma flush (h : TablesBounded t) (b : ℕ) (liveness : LivenessTable) :
    TablesBounded (asmFlushByLiveness mipsToI64 b liveness t) := by
  rw [asmFlushByLiveness_eq]
  refine ⟨fun r hr => ?_, fun r hr => ?_, fun k hk => ?_⟩
  · simp only [AsmTables.used] at hr ⊢
    split_ifs at hr ⊢
    · rfl
    · exact h.unused r hr
  · simp only [AsmTables.used] at hr
    split_ifs at hr
    · simp at hr
    · exact h.guest r hr
  · dsimp only at hk
    split_ifs at hk
    exact h.host k hk

lemma tablesAfter (h : TablesBounded t) (liveness : LivenessTable) (type : TblockType) (k : ℕ) :
    TablesBounded (tablesAfter liveness type k t) := by
  rw [AxVirtLayer.tablesAfter]
  split_ifs
  · exact h.flush _ _
  · exact h

/-- Two flushes do the same if they differ only on registers that have no association and whose
host register is free. -/
lemma flush_eq (h : TablesBounded t) {b : ℕ} {before after : LivenessTable}
    (hle : ∀ r, asmAlive before b r = true → asmAlive after b r = true)
    (hstale : ∀ r < 32, asmAlive after b r = true → asmAlive before b r = false →
      t.used r = false ∧ t.state r = .regFree) :
    asmFlushByLiveness mipsToI64 b after t = asmFlushByLiveness mipsToI64 b before t := by
  rw [asmFlushByLiveness_eq, asmFlushByLiveness_eq]
  have hcase : ∀ r, (r < 32 ∧ asmAlive before b r = false) ∧
      ¬ (r < 32 ∧ asmAlive after b r = false) → t.used r = false ∧ t.state r = .regFree := by
    rintro r ⟨⟨hr, hbefore⟩, hafter⟩
    exact hstale r hr (by simpa [hr] using hafter) hbefore
  have hsub : ∀ r, r < 32 ∧ asmAlive after b r = false → r < 32 ∧ asmAlive before b r = false := by
    rintro r ⟨hr, hafter⟩
    refine ⟨hr, ?_⟩
    by_contra hbefore
    rw [hle r (by simpa using hbefore)] at hafter
    cases hafter
  simp only [AsmTables.mk.injEq, and_true]
  constructor
  · funext r
    split_ifs with ha hb hb
    · rfl
    · exact absurd (hsub r ha) hb
    · exact h.unused r (hcase r ⟨hb, ha⟩).1
    · rfl
  · funext r
    split_ifs with ha hb hb
    · rfl
    · exact absurd (hsub r ha) hb
    · exact (hcase r ⟨hb, ha⟩).2
    · rfl

/-- The flush after the fragment 15 leaves the tables of a fresh block but for the spill
counter: the byte of a register has no bit for the fragment. -/
lemma flush_last (h : TablesBounded t) (liveness : LivenessTable) :
    { asmFlushByLiveness mipsToI64 15 liveness t with spillCnt := 0 } = AsmTables.fresh := by
  have hdead : ∀ r, asmAlive liveness 15 r = false := by
    intro r
    by_contra halive
    have hlt := (asmAlive_iff.1 (by simpa using halive)).1
    omega
  rw [asmFlushByLiveness_eq, AsmTables.fresh, AsmTables.mk.injEq]
  refine ⟨?_, ?_, rfl⟩
  · funext r
    by_cases hr : r < 32
    · simp [hr, hdead]
    · simp only [hr, false_and, if_false]
      refine h.unused r ?_
      by_contra hused
      exact hr (h.guest r (by simpa using hused))
  · funext k
    by_cases hk : k < 32
    · simp [hk, hdead]
    · simp only [hk, false_and, if_false]
      by_contra hocc
      have hlt := h.host k (by cases hst : t.state k <;> simp_all)
      omega

end TablesBounded

/-! ## Two passes side by side -/

/-- The second pass on a block goes through the words with these states. -/
structure PassTrace (block : Tblock) (words : List (BitVec 32)) (st : ℕ → PassState) : Prop where
  start : st 0 = .init block
  run : ∀ k ≤ words.length, runs rawToIrStep (.init block) (words.take k) = some (st k)
  rawAt : ∀ k ≤ words.length, RawAt block.liveness block.type k (st k)

section Trace

variable {block : Tblock} {words : List (BitVec 32)} {st : ℕ → PassState}

lemma PassTrace.step (h : PassTrace block words st) {k : ℕ} (hk : k < words.length) :
    rawToIrStep (st k) words[k] = some (st (k + 1)) :=
  step_of_runs_take hk (h.run k hk.le) (h.run (k + 1) hk)

lemma PassTrace.bounded (h : PassTrace block words st) (hfresh : block.tables = .fresh)
    (hlen : words.length ≤ 16 * fragWords block.type)
    (hwords : ∀ instr ∈ words, IsArith instr ∨ IsNop instr) {k : ℕ} (hk : k ≤ words.length) :
    TablesBounded (st k).block.tables := by
  induction k with
  | zero =>
    rw [h.start, PassState.init, hfresh]
    exact tablesBounded_fresh
  | succ k ih =>
    have hklt : k < words.length := hk
    obtain ⟨htab, -, -⟩ := (h.rawAt k hklt.le).step_eq (by omega)
      (hwords _ (List.getElem_mem hklt)) (h.step hklt)
    rw [htab]
    exact ((ih hklt.le).wordTables _).tablesAfter _ _ _

/-- **Two passes side by side.**  If at the end of every fragment the two liveness tables flush
the same, then the tables and the IR lists agree after every word. -/
lemma PassTrace.agree {block' : Tblock} {st' : ℕ → PassState} (h : PassTrace block words st)
    (h' : PassTrace block' words st') (htype : block'.type = block.type)
    (htables : block'.tables = block.tables) (hir : block'.ir = block.ir)
    (hlen : words.length ≤ 16 * fragWords block.type)
    (hwords : ∀ instr ∈ words, IsArith instr ∨ IsNop instr)
    (hflush : ∀ k (hk : k < words.length),
      tablesAfter block.liveness block.type k (wordTables (st k).block.tables words[k]) =
        tablesAfter block'.liveness block.type k (wordTables (st k).block.tables words[k]))
    {k : ℕ} (hk : k ≤ words.length) :
    (st' k).block.tables = (st k).block.tables ∧ (st' k).block.ir = (st k).block.ir := by
  induction k with
  | zero =>
    rw [h.start, h'.start]
    exact ⟨htables, hir⟩
  | succ k ih =>
    have hklt : k < words.length := hk
    obtain ⟨heq, hireq⟩ := ih hklt.le
    have hword := hwords _ (List.getElem_mem hklt)
    obtain ⟨htab, hout, -⟩ := (h.rawAt k hklt.le).step_eq (by omega) hword (h.step hklt)
    obtain ⟨htab', hout', -⟩ := (h'.rawAt k hklt.le).step_eq (by rw [htype]; omega) hword
      (h'.step hklt)
    rw [htab, htab', hout, hout', heq, hireq, htype]
    exact ⟨(hflush k hklt).symm, rfl⟩

end Trace

/-! ## One emission -/

/-- What every emission starts from: the block is a fresh one but for the liveness table and
the memory of the buffer. -/
structure Reusable (type : TblockType) (block : Tblock) : Prop where
  type_eq : block.type = type
  irCnt_eq : block.irCnt = 0
  capacity_eq : block.irCapacity = 256
  tables_eq : block.tables = .fresh

lemma reusable_alloc (heap : ℕ → IrRawInstr) (type : TblockType) :
    Reusable type (tblockAlloc heap type) := ⟨rfl, rfl, rfl, rfl⟩

section Emission

variable {type : TblockType} {block : Tblock} {code : GuestCode}

lemma Reusable.ir_eq (h : Reusable type block) : block.ir = [] := by
  rw [Tblock.ir, h.irCnt_eq]
  rfl

/-- The first two passes of an emission. -/
lemma Reusable.passes (h : Reusable type block) (hcode : ArithCode type code) :
    ∃ liveness cnt st final, tblockLivenessScan mipsToI64 code block =
        some ({ block with liveness := liveness }, cnt) ∧
      RecordsLiveness type block.liveness liveness (blockWords type code) ∧
      PassTrace { block with liveness := liveness } (blockWords type code) st ∧
      final = (st (blockWords type code).length).block ∧
      tblockEmit mipsToI64 code block = some (final, tblockIrToRaw mipsToI64 final) := by
  obtain ⟨rfl, hcnt, hcap, htables⟩ := h
  obtain ⟨liveness, hscan, hrec⟩ := tblockLivenessScan_spec code block
  obtain ⟨st, hstart, hst⟩ := exists_rawToIr_trace (blockWords block.type code)
    { block with liveness := liveness } hcap hcnt (blockWords_length_eq block.type code).le
    fun instr hinstr => isRType_of_arith_or_nop (hcode instr hinstr)
  have htrace : PassTrace { block with liveness := liveness } (blockWords block.type code) st :=
    ⟨hstart, fun k hk => (hst k hk).1, fun k hk => (hst k hk).2⟩
  refine ⟨liveness, _, st, _, hscan, hrec, htrace, rfl, ?_⟩
  have hrun := htrace.run _ le_rfl
  rw [List.take_length] at hrun
  rw [tblockEmit, hscan, Option.bind_some]
  dsimp only
  rw [tblockRawToIr_eq_runs, hrun]
  rfl

lemma emitted_eq {final : Tblock}
    (h : tblockEmit mipsToI64 code block = some (final, tblockIrToRaw mipsToI64 final)) :
    emitted code block = some (final.ir,
      (final.ir.foldlM (irToRawBody mipsToI64) ⟨0, []⟩).map IrToRaw.out) := by
  rw [emitted, h, Option.map_some, tblockIrToRaw_eq]
  cases final.ir.foldlM (irToRawBody mipsToI64) ⟨0, []⟩ <;> rfl

/-- The block after one turn of the loop. -/
def nextBlock (final : Tblock) : Tblock :=
  { final with tables := { final.tables with spillCnt := 0 }, irCnt := 0 }

lemma eq_nextBlock {final next : Tblock}
    (hemit : tblockEmit mipsToI64 code block = some (final, tblockIrToRaw mipsToI64 final))
    (hstep : emitStep block code = some next) : next = nextBlock final := by
  rw [emitStep, hemit, Option.bind_some, tblockIrToRaw_eq] at hstep
  cases hraw : final.ir.foldlM (irToRawBody mipsToI64) ⟨0, []⟩ with
  | error e =>
    rw [hraw] at hstep
    cases hstep
  | ok res =>
    rw [hraw] at hstep
    exact (Option.some_injective _ hstep).symm

/-- **An emission leaves a reusable block**: the flush after the last fragment clears the
tables, whatever the liveness table holds. -/
lemma Reusable.emitStep (h : Reusable type block) (hcode : ArithCode type code) {next : Tblock}
    (hstep : emitStep block code = some next) : Reusable type next := by
  obtain ⟨liveness, cnt, st, final, -, -, htrace, rfl, hemit⟩ := h.passes hcode
  obtain rfl := eq_nextBlock hemit hstep
  have hlen := blockWords_length_eq type code
  have hpos := fragWords_pos type
  have hat := htrace.rawAt _ le_rfl
  refine ⟨hat.type_eq.trans h.type_eq, rfl, hat.capacity_eq, ?_⟩
  -- the last word of the block is the last one of fragment 15
  obtain ⟨n, hn⟩ : ∃ n, (blockWords type code).length = n + 1 :=
    ⟨(blockWords type code).length - 1, by omega⟩
  have hlast := fragOf_last type 15
  rw [show (15 + 1) * fragWords type - 1 = n by omega] at hlast
  have hbounded := htrace.bounded h.tables_eq (by rw [h.type_eq]; exact hlen.le) hcode
    (show n ≤ _ by omega)
  obtain ⟨htab, -, -⟩ := (htrace.rawAt n (by omega)).step_eq
    (by rw [h.type_eq]; omega) (hcode _ (List.getElem_mem (show n < _ by omega)))
    (htrace.step (by omega))
  show { (st (blockWords type code).length).block.tables with spillCnt := 0 } = AsmTables.fresh
  rw [hn, htab, tablesAfter, h.type_eq, if_pos (by omega), hlast.1]
  exact (hbounded.wordTables _).flush_last liveness

/-- The end of a fragment is flushed alike with and without stale bits that do no harm. -/
lemma Reusable.flush_eq (h : Reusable type block) (hcode : ArithCode type code)
    (hstale : StaleHarmless block code) {liveness fresh : LivenessTable} {cnt : ℕ}
    {st : ℕ → PassState}
    (hscan : tblockLivenessScan mipsToI64 code block =
      some ({ block with liveness := liveness }, cnt))
    (hrec : RecordsLiveness type block.liveness liveness (blockWords type code))
    (hrec₀ : RecordsLiveness type (fun _ => 0) fresh (blockWords type code))
    (htrace : PassTrace { block with liveness := liveness } (blockWords type code) st)
    {k : ℕ} (hk : k < (blockWords type code).length) :
    tablesAfter liveness type k (wordTables (st k).block.tables (blockWords type code)[k]) =
      tablesAfter fresh type k (wordTables (st k).block.tables (blockWords type code)[k]) := by
  have htype := h.type_eq
  subst htype
  have hlen := blockWords_length_eq block.type code
  have hinstr := hcode _ (List.getElem_mem hk)
  have hat := htrace.rawAt k hk.le
  obtain ⟨-, -, mid, hmid, htab⟩ := hat.step_eq (by dsimp only; omega) hinstr (htrace.step hk)
  rw [tablesAfter, tablesAfter]
  by_cases hcross : fragOf block.type (k + 1) = fragOf block.type k
  · rw [if_neg (by simpa using hcross), if_neg (by simpa using hcross)]
  · rw [if_pos hcross, if_pos hcross]
    have hbounded := htrace.bounded h.tables_eq hlen.le hcode hk.le
    refine (hbounded.wordTables _).flush_eq (fun r halive => ?_) fun r hr halive hdead => ?_
    · rw [asmAlive_iff, hrec₀ r] at halive
      rw [asmAlive_iff, hrec r]
      exact ⟨halive.1, Or.inr (halive.2.resolve_left (by simp))⟩
    · -- a bit the words of the block do not account for was there before
      obtain ⟨hb, hbit⟩ := asmAlive_iff.1 halive
      have hnone : ¬ ∃ i instr, (blockWords block.type code)[i]? = some instr ∧
          fragOf block.type i = fragOf block.type k ∧ Names instr r := by
        intro hword
        rw [asmAlive_iff.2 ⟨hb, (hrec₀ r _).2 (Or.inr ⟨hb, hword⟩)⟩] at hdead
        cases hdead
      have hold : (block.liveness r).getLsbD (fragOf block.type k) = true :=
        ((hrec r _).1 hbit).resolve_right fun hword => hnone hword.2
      have hnext : rawToIrCross mipsToI64 4 { st k with block := mid } = st (k + 1) := by
        have hstep := htrace.step hk
        rw [rawToIrStep_eq, hmid, Option.map_some] at hstep
        exact Option.some_injective _ hstep
      rw [← htab]
      refine hstale _ _ hscan k (st k) _ mid (htrace.run k hk.le)
        (List.getElem?_eq_getElem hk) hmid ?_ r hr ?_ fun i instr' hi hfrag hn => ?_
      · rw [hnext, (htrace.rawAt (k + 1) hk).blkI_eq, hat.blkI_eq]
        exact hcross
      · rw [hat.blkI_eq]
        exact hold
      · rw [hat.blkI_eq] at hfrag
        exact hnone ⟨i, instr', hi, hfrag, hn⟩

/-- **An emission without harmful stale bits** is that of a fresh block. -/
lemma Reusable.emitsAsFresh (h : Reusable type block) (hcode : ArithCode type code)
    (hstale : StaleHarmless block code) (heap : ℕ → IrRawInstr) :
    EmitsAsFresh heap block code := by
  have htype := h.type_eq
  subst htype
  have hnew := reusable_alloc heap block.type
  obtain ⟨liveness, cnt, st, final, hscan, hrec, htrace, rfl, hemit⟩ := h.passes hcode
  obtain ⟨fresh, cnt₀, st₀, final₀, -, hrec₀, htrace₀, rfl, hemit₀⟩ :=
    hnew.passes hcode
  have hagree := htrace.agree htrace₀ rfl (hnew.tables_eq.trans h.tables_eq.symm)
    (hnew.ir_eq.trans h.ir_eq.symm) (blockWords_length_eq block.type code).le hcode
    (fun k hk => h.flush_eq hcode hstale hscan hrec hrec₀ htrace hk) le_rfl
  rw [EmitsAsFresh, emitted_eq hemit, emitted_eq hemit₀]
  exact congrArg (fun is : List IrRawInstr =>
    some (is, (is.foldlM (irToRawBody mipsToI64) ⟨0, []⟩).map IrToRaw.out)) hagree.2.symm

end Emission

/-! ## Emissions one after another -/

/-- **A block can be reused** for every sequence of guest blocks in which no stale liveness bit
keeps a flush from doing its work: each emission produces what a fresh block produces. -/
theorem reusedBlock_emitsAsFresh (heap : ℕ → IrRawInstr) (type : TblockType)
    (codes : List GuestCode) (hcodes : ∀ code ∈ codes, ArithCode type code)
    (hstale : AllSteps emitStep StaleHarmless (tblockAlloc heap type) codes) :
    AllSteps emitStep (EmitsAsFresh heap) (tblockAlloc heap type) codes :=
  AllSteps.mono_of_inv (I := Reusable type) (V := fun _ code => ArithCode type code)
    (fun _ _ _ h hcode hstep => h.emitStep hcode hstep)
    (fun _ _ h hcode hharmless => h.emitsAsFresh hcode hharmless heap)
    (reusable_alloc heap type) (allSteps_of_forall fun code hcode _ => hcodes code hcode) hstale

/-! ## Blocks emitted one after another -/

/-- A word of the code in the fragment names the register. -/
def NamedIn (type : TblockType) (code : GuestCode) (r b : ℕ) : Prop :=
  ∃ k instr, (blockWords type code)[k]? = some instr ∧ fragOf type k = b ∧ Names instr r

/-- The liveness table of the block only has bits that the code accounts for. -/
def LivenessOf (type : TblockType) (code : GuestCode) (block : Tblock) : Prop :=
  ∀ r b, (block.liveness r).getLsbD b = true → NamedIn type code r b

/-- A register that no word names never has an association. -/
lemma PassTrace.unused {block : Tblock} {words : List (BitVec 32)} {st : ℕ → PassState}
    (h : PassTrace block words st) (hfresh : block.tables = .fresh)
    (hlen : words.length ≤ 16 * fragWords block.type)
    (hwords : ∀ instr ∈ words, IsArith instr ∨ IsNop instr) {r : ℕ}
    (hr : ∀ instr ∈ words, ¬ Names instr r) {k : ℕ} (hk : k ≤ words.length) :
    (st k).block.tables.used r = false := by
  induction k with
  | zero =>
    rw [h.start, PassState.init, hfresh]
    simp [AsmTables.used, AsmTables.fresh]
  | succ k ih =>
    have hklt : k < words.length := hk
    have hmem := List.getElem_mem hklt
    obtain ⟨htab, -, -⟩ := (h.rawAt k hklt.le).step_eq (by omega) (hwords _ hmem) (h.step hklt)
    rw [htab]
    by_contra hused
    have hword := (of_tablesAfter_used (by simpa using hused)).1
    rw [wordTables_used_of_not_names (hwords _ hmem) _ (hr _ hmem), ih hklt.le] at hword
    cases hword

/-- A stale bit does no harm, if it is none for the code, or its register is none of the code's
and no host register has its number. -/
lemma Reusable.staleHarmless {type : TblockType} {code : GuestCode} {block : Tblock}
    (h : Reusable type block) (hcode : ArithCode type code)
    (hbits : ∀ r b, (block.liveness r).getLsbD b = true → NamedIn type code r b ∨
      (16 ≤ r ∧ ∀ instr ∈ blockWords type code, ¬ Names instr r)) :
    StaleHarmless block code := by
  obtain ⟨rfl, -⟩ := id h
  obtain ⟨liveness, _, st, _, hscan, -, htrace, -, -⟩ := h.passes hcode
  intro scanned _ hscan' k s instr mid hrun hinstr hmid _ r _ hbit hnone
  obtain ⟨rfl, -⟩ := Prod.mk.inj (Option.some_injective _ (hscan'.symm.trans hscan))
  rcases hbits r _ hbit with ⟨i, instr', hi, hfrag, hn⟩ | ⟨hhost, hapart⟩
  · exact absurd hn (hnone i instr' hi hfrag)
  · obtain ⟨hk, rfl⟩ := List.getElem?_eq_some_iff.1 hinstr
    obtain rfl := Option.some_injective _ (hrun.symm.trans (htrace.run k hk.le))
    have hlen := blockWords_length_eq block.type code
    have hmem := List.getElem_mem hk
    obtain ⟨-, -, mid', hmid', htab⟩ := (htrace.rawAt k hk.le).step_eq (by dsimp only; omega)
      (hcode _ hmem) (htrace.step hk)
    obtain rfl := Option.some_injective _ (hmid.symm.trans hmid')
    have hbounded := (htrace.bounded h.tables_eq hlen.le hcode hk.le).wordTables
      (blockWords block.type code)[k]
    have hunused := htrace.unused h.tables_eq hlen.le hcode hapart hk.le
    rw [htab]
    constructor
    · by_contra hused
      rw [Bool.not_eq_false, wordTables_used_of_not_names (hcode _ hmem) _ (hapart _ hmem),
        hunused] at hused
      cases hused
    · by_contra hstate
      have hlt := hbounded.host r (by cases hst : (wordTables _ _).state r <;> simp_all)
      omega

lemma LivenessOf.staleHarmless {type : TblockType} {code : GuestCode} {block : Tblock}
    (hblock : Reusable type block) (hcode : ArithCode type code)
    (h : LivenessOf type code block) : StaleHarmless block code :=
  hblock.staleHarmless hcode fun r b hbit => Or.inl (h r b hbit)

lemma livenessOf_alloc (heap : ℕ → IrRawInstr) (type : TblockType) (code : GuestCode) :
    LivenessOf type code (tblockAlloc heap type) := by
  intro r b hbit
  simp [tblockAlloc] at hbit

lemma LivenessOf.emitStep {type : TblockType} {code : GuestCode} {block next : Tblock}
    (hblock : Reusable type block) (hcode : ArithCode type code) (h : LivenessOf type code block)
    (hstep : emitStep block code = some next) : LivenessOf type code next := by
  obtain ⟨liveness, cnt, st, final, -, hrec, htrace, rfl, hemit⟩ := hblock.passes hcode
  obtain rfl := eq_nextBlock hemit hstep
  intro r b hbit
  have hlive := (htrace.rawAt _ le_rfl).liveness_eq
  rw [show (nextBlock _).liveness = liveness from hlive] at hbit
  rcases (hrec r b).1 hbit with hold | ⟨-, hword⟩
  · exact h r b hold
  · exact hword

/-- The use `main` makes of a block: no stale bit does harm if the code stays the same. -/
lemma staleHarmless_replicate (heap : ℕ → IrRawInstr) {type : TblockType} {code : GuestCode}
    (hcode : ArithCode type code) (n : ℕ) :
    AllSteps emitStep StaleHarmless (tblockAlloc heap type) (List.replicate n code) := by
  refine AllSteps.mono_of_inv (I := fun block => Reusable type block ∧ LivenessOf type code block)
    (V := fun _ c => c = code) (C := fun _ _ => True) ?_ ?_
    ⟨reusable_alloc heap type, livenessOf_alloc heap type code⟩
    (allSteps_of_forall fun c hc _ => List.eq_of_mem_replicate hc)
    (allSteps_of_forall fun _ _ _ => trivial)
  · rintro block c next ⟨hblock, hlive⟩ rfl hstep
    exact ⟨hblock.emitStep hcode hstep, hlive.emitStep hblock hcode hstep⟩
  · rintro block c ⟨hblock, hlive⟩ rfl -
    exact hlive.staleHarmless hblock hcode

/-- `add r17, r18, r19`, and then `add r9, r10, r11` through the same block: the bits of the
registers 17, 18 and 19 are stale. -/
def apartBlocks : List GuestCode := [codeOf [0x02538820], codeOf [0x014b4820]]

theorem reusedBlock_emitsAsFresh_apartBlocks :
    AllSteps emitStep (EmitsAsFresh zeroHeap) (tblockAlloc zeroHeap .tblockSmall) apartBlocks := by
  have hfirst : ArithCode .tblockSmall (codeOf [0x02538820]) :=
    forall_mem_blockWords_codeOf _ (by decide +kernel)
  have hsecond : ArithCode .tblockSmall (codeOf [0x014b4820]) :=
    forall_mem_blockWords_codeOf _ (by decide +kernel)
  have hfresh := reusable_alloc zeroHeap .tblockSmall
  have hlive := livenessOf_alloc zeroHeap .tblockSmall (codeOf [0x02538820])
  refine reusedBlock_emitsAsFresh zeroHeap .tblockSmall apartBlocks ?_
    ⟨hlive.staleHarmless hfresh hfirst, fun next hnext => ⟨?_, fun _ _ => trivial⟩⟩
  · intro code hcode
    rcases List.mem_pair.1 hcode with rfl | rfl
    · exact hfirst
    · exact hsecond
  · -- the registers of the first block are none of the second one's
    have hhigh : ∀ instr ∈ blockWords .tblockSmall (codeOf [0x02538820]), ∀ r < 32,
        Names instr r → 16 ≤ r := forall_mem_blockWords_codeOf _ (by decide +kernel)
    have hlow : ∀ instr ∈ blockWords .tblockSmall (codeOf [0x014b4820]), ∀ r < 32,
        Names instr r → r < 16 := forall_mem_blockWords_codeOf _ (by decide +kernel)
    refine (hfresh.emitStep hfirst hnext).staleHarmless hsecond fun r b hbit => Or.inr ?_
    obtain ⟨k, instr, hk, -, hn⟩ := hlive.emitStep hfresh hfirst hnext r b hbit
    have hr := hhigh instr (List.mem_of_getElem? hk) r hn.lt hn
    exact ⟨hr, fun instr' hinstr' hn' => Nat.not_lt.2 hr (hlow instr' hinstr' r hn'.lt hn')⟩

/-! ## A stale bit that changes the code -/

/-- The block after the first two passes of an emission. -/
def passedBlock (code : GuestCode) (block : Tblock) : Option Tblock :=
  ((runs livenessStep (.init block) (blockWords block.type code)).bind fun s =>
    runs rawToIrStep (.init s.block) (blockWords s.block.type code)).map PassState.block

lemma tblockEmit_eq_passedBlock (code : GuestCode) (block : Tblock) :
    tblockEmit mipsToI64 code block =
      (passedBlock code block).map fun mid => (mid, tblockIrToRaw mipsToI64 mid) := by
  rw [tblockEmit, tblockLivenessScan_eq_runs, passedBlock]
  cases runs livenessStep (.init block) (blockWords block.type code) with
  | none => rfl
  | some s =>
    simp only [Option.map_some, Option.bind_some, tblockRawToIr_eq_runs, Option.map_map]
    rfl

/-- `add r9, r9, r9` in fragment 1. -/
def earlierBlock : List (BitVec 32) := [0, 0, 0x01294820]

/-- `add r9, r9, r9` in fragment 0 and `add r8, r11, r9` in fragment 2: a fresh block drops
register 9 at the end of fragment 1. -/
def laterBlock : List (BitVec 32) := [0x01294820, 0, 0, 0, 0x01694020]

theorem staleBit_changes_emission :
    ¬ AllSteps emitStep (EmitsAsFresh zeroHeap) (tblockAlloc zeroHeap .tblockSmall)
      [codeOf earlierBlock, codeOf laterBlock] := by
  rintro ⟨-, hlater⟩
  -- the first emission goes through: its IR is one `add` on host register 10
  have hfirst : (passedBlock (codeOf earlierBlock) (tblockAlloc zeroHeap .tblockSmall)).map
      Tblock.ir = some ([⟨.add, 10, 10, fun h => by cases h⟩].map (TwoOp.ir .w32)) := by
    decide +kernel
  obtain ⟨mid, hmid, hir⟩ := Option.map_eq_some_iff.1 hfirst
  obtain ⟨written, count, hraw⟩ := tblockIrToRaw_map (w := .w32) .mips32
    (fun i hi => fun hno => by cases hno.1) hir
  have hemit := tblockEmit_eq_passedBlock (codeOf earlierBlock)
    (tblockAlloc zeroHeap .tblockSmall)
  rw [hmid, Option.map_some] at hemit
  obtain ⟨next, hnext⟩ : ∃ next, emitStep (tblockAlloc zeroHeap .tblockSmall)
      (codeOf earlierBlock) = some next := by
    rw [emitStep, hemit, Option.bind_some, show mipsToI64 = ⟨.mips32, .intel64⟩ from rfl, hraw]
    exact ⟨_, rfl⟩
  have hsame := (hlater next hnext).1
  obtain rfl := eq_nextBlock hemit hnext
  -- the second emission writes another IR list than a fresh block
  have hother : ((passedBlock (codeOf earlierBlock) (tblockAlloc zeroHeap .tblockSmall)).map
        fun mid => (passedBlock (codeOf laterBlock) (nextBlock mid)).map Tblock.ir) ≠
      some ((passedBlock (codeOf laterBlock) (tblockAlloc zeroHeap .tblockSmall)).map
        Tblock.ir) := by
    decide +kernel
  rw [hmid, Option.map_some] at hother
  refine hother (congrArg some ?_)
  have hfst := congrArg (Option.map Prod.fst) hsame
  rw [emitted, emitted, tblockEmit_eq_passedBlock, tblockEmit_eq_passedBlock] at hfst
  simp only [Option.map_map, Function.comp_def] at hfst
  have htype : (nextBlock mid).type = .tblockSmall := by
    have hall : ((passedBlock (codeOf earlierBlock) (tblockAlloc zeroHeap .tblockSmall)).map
        Tblock.type) = some .tblockSmall := by
      decide +kernel
    rw [hmid, Option.map_some] at hall
    exact Option.some_injective _ hall
  rw [htype] at hfst
  exact hfst

end AxVirtLayer
