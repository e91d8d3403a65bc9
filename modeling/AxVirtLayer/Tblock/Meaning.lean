import AxVirtLayer.Tblock.Liveness

/-!
# The meaning of a translated block

The guest machine executes the words of a block, and the instructions each word appends
to the buffer are executed on a file of host registers indexed by operand id.  The two
agree as long as no word reaches one of the defects of the translation, which
`ArithOk` lists one by one: `translation_agrees` is the simulation.
-/

namespace AxVirtLayer

open Lib

/-! ## Two machines in lockstep -/

/-- The guest machine, the pass and the host registers before a word. -/
structure LockState where
  pass : PassState
  guest : GuestFile
  /-- The host registers, indexed by operand id. -/
  host : ℕ → BitVec 32
  /-- The words executed so far. -/
  past : List (BitVec 32)

/-- The instructions a word has appended to the buffer. -/
def appendedIr (before after : Tblock) : List IrRawInstr :=
  (List.range' before.irCnt (after.irCnt - before.irCnt)).map after.irBuf

/-- The host registers after the associations made for the registers of a word: each new
association loads the value its guest register had at the entry of the block. -/
def loadNew (entry : GuestFile) (before after : AsmTables) (regs : List ℕ)
    (host : ℕ → BitVec 32) : ℕ → BitVec 32 :=
  regs.foldl (fun host r =>
    if before.used r = false ∧ after.used r = true then
      Function.update host (opLoc after r) (guestRead entry r)
    else host) host

/-- The registers of a word in the order of its operands. -/
def wordRegs (instr : BitVec 32) : List ℕ := [mips32Rd instr, mips32Rs instr, mips32Rt instr]

/-- One word on both sides. -/
def lockStep (entry : GuestFile) (s : LockState) (instr : BitVec 32) : Option LockState :=
  (rawToIrMid s.pass.block instr).map fun mid =>
    let host := loadNew entry s.pass.block.tables mid.tables (wordRegs instr) s.host
    { pass := rawToIrCross mipsToI64 4 { s.pass with block := mid }
      guest := guestExec s.guest instr
      host := irExecAll host (appendedIr s.pass.block mid)
      past := s.past ++ [instr] }

/-- Both machines at the entry of a block. -/
def LockState.start (block : Tblock) (entry : GuestFile) (host : ℕ → BitVec 32) : LockState :=
  ⟨.init block, entry, host, []⟩

/-- Every guest register with an association is in the host register it names. -/
def Agrees (s : LockState) : Prop :=
  ∀ r < 32, s.pass.block.tables.used r = true →
    s.host (opLoc s.pass.block.tables r) = guestRead s.guest r

/-- **Translation preserves meaning.**  The two passes go through, and the machines agree
after every word. -/
def TranslationAgrees (heap : ℕ → IrRawInstr) (type : TblockType) (code : GuestCode)
    (entry : GuestFile) (host : ℕ → BitVec 32) : Prop :=
  ∃ block cnt, tblockLivenessScan mipsToI64 code (tblockAlloc heap type) = some (block, cnt) ∧
    Always (lockStep entry) Agrees (.start block entry host) (blockWords type code)

/-- The pass inside the lockstep is the pass. -/
lemma runs_lockStep_pass (entry : GuestFile) (s : LockState) (words : List (BitVec 32)) :
    (runs (lockStep entry) s words).map LockState.pass = runs rawToIrStep s.pass words := by
  induction words generalizing s with
  | nil => rfl
  | cons instr words ih =>
    rw [runs_cons, runs_cons, rawToIrStep_eq, lockStep]
    cases rawToIrMid s.pass.block instr with
    | none => rfl
    | some mid => exact ih _

/-! ## The conditions -/

/-- No guest register with an association is in the host register `h`. -/
def NotInUse (t : AsmTables) (h : ℕ) : Prop := ∀ g < 32, t.used g = true → opLoc t g ≠ h

instance (t : AsmTables) (h : ℕ) : Decidable (NotInUse t h) :=
  inferInstanceAs (Decidable (∀ _, _ → _))

/-- The location the register `r` is about to get is not in use: neither the lowest free
host register of its role nor, when there is none, the spill index cut to a byte. -/
def LocFresh (t : AsmTables) (r : ℕ) : Prop :=
  (∀ h < 16, LowestFree t.state (guestRole r) h → NotInUse t h) ∧
    (NoFreeReg t.state (guestRole r) → NotInUse t (t.spillCnt % 2 ^ 8))

instance (t : AsmTables) (r : ℕ) : Decidable (LocFresh t r) :=
  inferInstanceAs (Decidable (_ ∧ _))

/-- Every association `asm_fill_assoc` makes for the operands gets a fresh location. -/
def LocsFresh (t : AsmTables) : List IrOperand → Prop
  | [] => True
  | op :: ops =>
    if t.used op.id then True
    else LocFresh t op.id ∧ LocsFresh (asmFillOne mipsToI64 t op.id) ops

instance decidableLocsFresh (t : AsmTables) : (ops : List IrOperand) →
    Decidable (LocsFresh t ops)
  | [] => isTrue trivial
  | op :: ops =>
    have := decidableLocsFresh (asmFillOne mipsToI64 t op.id) ops
    inferInstanceAs (Decidable (if t.used op.id then True
      else LocFresh t op.id ∧ LocsFresh (asmFillOne mipsToI64 t op.id) ops))

/-- The arithmetic word reaches none of the defects of the translation. -/
structure ArithOk (t : AsmTables) (past : List (BitVec 32)) (instr : BitVec 32) : Prop where
  /-- Register 0 is translated like every other register. -/
  rd_ne_zero : mips32Rd instr ≠ 0
  /-- The `mov` to the destination comes before the second source is read. -/
  not_clobbered : mips32Rd instr = mips32Rt instr → mips32Rd instr = mips32Rs instr
  /-- `asm_fill_assoc` stops at the first operand that is associated. -/
  reached : ∀ r ∈ wordRegs instr, GetsLocation t instr r
  /-- Spill indices are operand ids like the host registers, and a flush frees the wrong
  host registers. -/
  fresh : LocsFresh t (fillOperands (mips32Rd instr) (mips32Rs instr) (mips32Rt instr))
  /-- A flush drops the values of registers that are still needed. -/
  not_lost : ∀ r, (r = mips32Rs instr ∨ r = mips32Rt instr) → t.used r = false →
    ∀ w ∈ past, ¬ Writes w r

/-- The condition on a word and on the state before it. -/
def WordOk (s : LockState) (instr : BitVec 32) : Prop :=
  IsNop instr ∨ ArithOk s.pass.block.tables s.past instr

/-! ## Association -/

/-- No two guest registers with an association are in one host register. -/
def DistinctLocs (t : AsmTables) : Prop :=
  ∀ r < 32, ∀ r' < 32, t.used r = true → t.used r' = true → opLoc t r = opLoc t r' → r = r'

lemma opLoc_fillOne_of_ne {t : AsmTables} {r g : ℕ} (hg : g ≠ r) :
    opLoc (asmFillOne mipsToI64 t r) g = opLoc t g := by
  rw [opLoc, asmFillOne_assoc_of_ne hg, opLoc]

/-- The location a new association gets is the fresh one. -/
lemma LocFresh.notInUse {t : AsmTables} {r : ℕ} (h : LocFresh t r) :
    NotInUse t (opLoc (asmFillOne mipsToI64 t r) r) := by
  rcases asmFillOne_cases t r with ⟨k, hk, heq⟩ | ⟨hno, heq⟩
  · have hlt : k < 16 := hk.1.lt
    rw [heq, opLoc, AsmTables.take_assoc_self, Nat.mod_eq_of_lt (show k < 2 ^ 8 by omega)]
    exact h.1 k hlt hk
  · rw [heq, opLoc, AsmTables.spill_assoc_self]
    exact h.2 hno

lemma DistinctLocs.fillOne {t : AsmTables} {r : ℕ} (h : DistinctLocs t) (hr : LocFresh t r) :
    DistinctLocs (asmFillOne mipsToI64 t r) := by
  have hnew := hr.notInUse
  intro g hg g' hg' hu hu' heq
  rw [asmFillOne_used, Bool.or_eq_true, decide_eq_true_eq] at hu hu'
  by_cases hgr : g = r <;> by_cases hgr' : g' = r
  · rw [hgr, hgr']
  · subst hgr
    rw [opLoc_fillOne_of_ne hgr'] at heq
    exact absurd heq.symm (hnew g' hg' (hu'.resolve_left hgr'))
  · subst hgr'
    rw [opLoc_fillOne_of_ne hgr] at heq
    exact absurd heq (hnew g hg (hu.resolve_left hgr))
  · rw [opLoc_fillOne_of_ne hgr, opLoc_fillOne_of_ne hgr'] at heq
    exact h g hg g' hg' (hu.resolve_left hgr) (hu'.resolve_left hgr') heq

lemma DistinctLocs.fillLoop {t : AsmTables} {ops : List IrOperand} (h : DistinctLocs t)
    (hops : LocsFresh t ops) : DistinctLocs (asmFillLoop mipsToI64 t ops) := by
  induction ops generalizing t with
  | nil => exact h
  | cons op ops ih =>
    rw [asmFillLoop]
    rw [LocsFresh] at hops
    cases hused : t.used op.id
    · simp only [hused, Bool.false_eq_true, if_false] at hops ⊢
      exact ih (h.fillOne hops.1) hops.2
    · simpa [hused] using h

/-- The loads of the new associations, seen at a location. -/
lemma loadNew_opLoc (entry : GuestFile) {before after : AsmTables} {regs : List ℕ}
    (hdist : DistinctLocs after) (hregs : ∀ r ∈ regs, r < 32) (host : ℕ → BitVec 32) {r : ℕ}
    (hr : r < 32) (hu : after.used r = true) :
    loadNew entry before after regs host (opLoc after r) =
      if before.used r = false ∧ r ∈ regs then guestRead entry r
      else host (opLoc after r) := by
  induction regs generalizing host with
  | nil => simp [loadNew]
  | cons q regs ih =>
    rw [loadNew, List.foldl_cons, ← loadNew, ih (fun r hr => hregs r (by simp [hr]))]
    have hq : q < 32 := hregs q (by simp)
    by_cases hrq : r = q
    · subst hrq
      cases hb : before.used r <;> simp [hu]
    · have hloc : after.used q = true → opLoc after r ≠ opLoc after q := fun huq heq =>
        hrq (hdist r hr q hq hu huq heq)
      by_cases hc : before.used q = false ∧ after.used q = true
      · rw [if_pos hc, Function.update_of_ne (hloc hc.2)]
        simp [hrq]
      · rw [if_neg hc]
        simp [hrq]

lemma wordRegs_lt (instr : BitVec 32) : ∀ r ∈ wordRegs instr, r < 32 := by
  intro r hr
  simp only [wordRegs, List.mem_cons, List.not_mem_nil, or_false] at hr
  rcases hr with rfl | rfl | rfl
  · exact mips32Rd_lt instr
  · exact mips32Rs_lt instr
  · exact mips32Rt_lt instr

/-- Only registers of the word gain an association. -/
lemma GetsLocation.mem_wordRegs {t : AsmTables} {instr : BitVec 32} {r : ℕ}
    (h : GetsLocation t instr r) (hu : t.used r = false) : r ∈ wordRegs instr := by
  rcases h with h | ⟨op, hop, rfl⟩
  · exact absurd h (by simp [hu])
  · have hmem := (List.takeWhile_sublist _).subset hop
    simp only [fillOperands] at hmem
    split_ifs at hmem <;> simp only [List.mem_cons, List.not_mem_nil, or_false] at hmem <;>
      grind [IrOperand.reg_id, wordRegs]

lemma opLoc_arithTables {t : AsmTables} {instr : BitVec 32} {r : ℕ} (hu : t.used r = true) :
    opLoc (arithTables t instr) r = opLoc t r := by
  rw [opLoc, arithTables, asmFillLoop_assoc_of_used mipsToI64 _ hu, opLoc]

/-! ## The instructions of a word -/

/-- What the two-operand form computes, unless the `mov` overwrites the second source. -/
lemma irExecAll_twoOpForm {w : ℕ} {opcode : IrOpcode} {d s t : ℕ} {ρ : ℕ → BitVec w}
    {v : BitVec w} (hv : irBinop (irOpcodeGroup opcode) (ρ s) (ρ t) = some v)
    (hclob : d = t → d = s) : irExecAll ρ (twoOpForm opcode d s t) = Function.update ρ d v := by
  rw [twoOpForm]
  split_ifs with hds
  · have hdt : t ≠ d := fun h => hds (hclob h.symm)
    have hmov := irExec_mov (irOpcodeGroup_swapGroup opcode irGroupMov) ρ
      (.two (.reg d) (.reg s))
    have hop : irExec (Function.update ρ d (ρ s)) ⟨opcode, .three (.reg d) (.reg d) (.reg t)⟩ =
        Function.update (Function.update ρ d (ρ s)) d v :=
      irExec_binop (by simpa [hdt] using hv)
    simp only [irExecAll_cons, irExecAll_nil, hmov]
    simpa using hop
  · have hop : irExec ρ ⟨opcode, .three (.reg d) (.reg d) (.reg t)⟩ = Function.update ρ d v :=
      irExec_binop (by simpa [not_not.1 hds] using hv)
    simpa using hop

lemma map_writeIr (buf : ℕ → IrRawInstr) (idx : ℕ) (out : List IrRawInstr) :
    (List.range' idx out.length).map (writeIr buf idx out) = out := by
  refine List.ext_getElem (by simp) fun i hi hi' => ?_
  simp [writeIr, hi']

/-! ## The simulation -/

/-- The simulation relation: the machines agree, no two guest registers share a host
register, and a guest register that no word has written still has its entry value. -/
structure Sim (liveness : LivenessTable) (type : TblockType) (entry : GuestFile)
    (s : LockState) : Prop where
  rawAt : RawAt liveness type s.past.length s.pass
  agrees : Agrees s
  distinct : DistinctLocs s.pass.block.tables
  untouched : ∀ r, (∀ w ∈ s.past, ¬ Writes w r) → guestRead s.guest r = guestRead entry r

lemma sim_start {type : TblockType} (block : Tblock) (htype : block.type = type)
    (hcap : block.irCapacity = 256) (hcnt : block.irCnt = 0) (htables : block.tables = .fresh)
    (entry : GuestFile) (host : ℕ → BitVec 32) :
    Sim block.liveness type entry (.start block entry host) where
  rawAt := ⟨htype ▸ PassState.init_at block, hcap, by simp [LockState.start, PassState.init, hcnt],
    rfl⟩
  agrees r _ hu := absurd hu (by
    simp [LockState.start, PassState.init, htables, AsmTables.used, AsmTables.fresh])
  distinct r _ r' _ hu := absurd hu (by
    simp [LockState.start, PassState.init, htables, AsmTables.used, AsmTables.fresh])
  untouched _ _ := rfl

section Step

variable {liveness : LivenessTable} {type : TblockType} {entry : GuestFile} {s : LockState}
  {instr : BitVec 32}

/-- Crossing to another fragment only drops associations. -/
lemma of_tablesAfter_used {k : ℕ} {t : AsmTables} {r : ℕ}
    (h : (tablesAfter liveness type k t).used r = true) :
    t.used r = true ∧ opLoc (tablesAfter liveness type k t) r = opLoc t r := by
  rw [tablesAfter] at h ⊢
  split_ifs at h ⊢ with hc
  · rw [opLoc, opLoc]
    rw [AsmTables.used, asmFlushByLiveness_eq] at h
    rw [asmFlushByLiveness_eq]
    by_cases hdead : r < 32 ∧ asmAlive liveness (fragOf type k) r = false
    · simp [hdead] at h
    · simp only [hdead, if_false] at h ⊢
      exact ⟨h, trivial⟩
  · exact ⟨h, rfl⟩

lemma DistinctLocs.tablesAfter {k : ℕ} {t : AsmTables} (h : DistinctLocs t) :
    DistinctLocs (tablesAfter liveness type k t) := by
  intro r hr r' hr' hu hu' heq
  obtain ⟨hu, hloc⟩ := of_tablesAfter_used hu
  obtain ⟨hu', hloc'⟩ := of_tablesAfter_used hu'
  exact h r hr r' hr' hu hu' (by rw [← hloc, ← hloc', heq])

/-- The values of the sources of a word after the loads of its new associations. -/
lemma Sim.source_eq (h : Sim liveness type entry s)
    (hok : ArithOk s.pass.block.tables s.past instr) {r : ℕ} (hr : r < 32)
    (hu : (arithTables s.pass.block.tables instr).used r = true)
    (hold : s.pass.block.tables.used r = true ∨ r = mips32Rs instr ∨ r = mips32Rt instr) :
    loadNew entry s.pass.block.tables (arithTables s.pass.block.tables instr) (wordRegs instr)
        s.host (opLoc (arithTables s.pass.block.tables instr) r) = guestRead s.guest r := by
  have hdist : DistinctLocs (arithTables s.pass.block.tables instr) := h.distinct.fillLoop hok.fresh
  rw [loadNew_opLoc entry hdist (wordRegs_lt instr) s.host hr hu]
  cases hb : s.pass.block.tables.used r
  · have hsrc := hold.resolve_left (by simp [hb])
    have hmem := ((arithTables_used_iff _ r).1 hu).mem_wordRegs hb
    rw [if_pos ⟨rfl, hmem⟩]
    exact (h.untouched r (hok.not_lost r hsrc hb)).symm
  · rw [if_neg (by simp), opLoc_arithTables hb]
    exact h.agrees r hr hb

/-- **One arithmetic word.**  After its instructions every associated guest register is in
its host register. -/
lemma Sim.arith_host (h : Sim liveness type entry s) (hinstr : IsArith instr)
    (hok : ArithOk s.pass.block.tables s.past instr) {r : ℕ} (hr : r < 32)
    (hu : (arithTables s.pass.block.tables instr).used r = true) :
    irExecAll (loadNew entry s.pass.block.tables (arithTables s.pass.block.tables instr)
          (wordRegs instr) s.host)
        (arithOut (arithTables s.pass.block.tables instr) instr)
        (opLoc (arithTables s.pass.block.tables instr) r) =
      guestRead (guestExec s.guest instr) r := by
  have hdist : DistinctLocs (arithTables s.pass.block.tables instr) := h.distinct.fillLoop hok.fresh
  have hused : ∀ q ∈ wordRegs instr, (arithTables s.pass.block.tables instr).used q = true :=
    fun q hq => (arithTables_used_iff _ q).2 (hok.reached q hq)
  have hd := hused (mips32Rd instr) (by simp [wordRegs])
  have hs := hused (mips32Rs instr) (by simp [wordRegs])
  have ht := hused (mips32Rt instr) (by simp [wordRegs])
  have hsval := h.source_eq hok (mips32Rs_lt instr) hs (Or.inr (Or.inl rfl))
  have htval := h.source_eq hok (mips32Rt_lt instr) ht (Or.inr (Or.inr rfl))
  obtain ⟨v, hv, hexec⟩ := hinstr.exec s.guest
  have hbin := irBinop_table hv
  rw [← hsval, ← htval] at hbin
  rw [arithOut, irExecAll_twoOpForm hbin, hexec]
  · by_cases hrd : r = mips32Rd instr
    · rw [hrd, Function.update_self, guestRead_write_self hok.rd_ne_zero]
    · have hne : opLoc (arithTables s.pass.block.tables instr) r ≠
          opLoc (arithTables s.pass.block.tables instr) (mips32Rd instr) := fun heq =>
        hrd (hdist r hr _ (mips32Rd_lt instr) hu hd heq)
      rw [Function.update_of_ne hne, guestRead_write_of_ne hrd]
      refine h.source_eq hok hr hu ?_
      rcases (arithTables_used_iff _ r).1 hu with hold | hnew
      · exact Or.inl hold
      · cases hb : s.pass.block.tables.used r
        · have hmem := GetsLocation.mem_wordRegs (Or.inr hnew) hb
          simp only [wordRegs, List.mem_cons, List.not_mem_nil, or_false] at hmem
          exact Or.inr (hmem.resolve_left hrd)
        · exact Or.inl rfl
  · -- the `mov` overwrites the second source only if the registers are the same
    intro heq
    have hreg := hdist _ (mips32Rd_lt instr) _ (mips32Rt_lt instr) hd ht heq
    rw [hok.not_clobbered hreg]

/-- What an arithmetic word does to the lockstep. -/
lemma lockStep_arith (entry : GuestFile) (h : RawAt liveness type s.past.length s.pass)
    (hk : s.past.length < 16 * fragWords type) (hinstr : IsArith instr) :
    ∃ s', lockStep entry s instr = some s' ∧ RawAt liveness type s'.past.length s'.pass ∧
      s'.past = s.past ++ [instr] ∧ s'.guest = guestExec s.guest instr ∧
      s'.pass.block.tables =
        tablesAfter liveness type s.past.length (arithTables s.pass.block.tables instr) ∧
      s'.host = irExecAll
        (loadNew entry s.pass.block.tables (arithTables s.pass.block.tables instr)
          (wordRegs instr) s.host)
        (arithOut (arithTables s.pass.block.tables instr) instr) := by
  obtain ⟨mid, pass', hmid, htab, rfl, -, hat, hafter⟩ := h.step hk (Or.inl hinstr)
  have hcnt : s.pass.block.irCnt ≤ 254 := by
    have hle : fragWords type ≤ 8 := by cases type <;> decide
    have := h.irCnt_le
    omega
  obtain rfl := Option.some_injective _
    (hmid.symm.trans (hinstr.rawToIrMid h.capacity_eq hcnt))
  refine ⟨_, by rw [lockStep, hmid, Option.map_some], by simpa using hat, rfl, rfl, hafter, ?_⟩
  dsimp only
  rw [appendedIr, Nat.add_sub_cancel_left, map_writeIr]

/-- What a `NOP` does to the lockstep. -/
lemma lockStep_nop (entry : GuestFile) (h : RawAt liveness type s.past.length s.pass)
    (hk : s.past.length < 16 * fragWords type) :
    ∃ s', lockStep entry s 0 = some s' ∧ RawAt liveness type s'.past.length s'.pass ∧
      s'.past = s.past ++ [0] ∧ s'.guest = s.guest ∧
      s'.pass.block.tables = tablesAfter liveness type s.past.length s.pass.block.tables ∧
      s'.host = s.host := by
  obtain ⟨mid, pass', hmid, htab, rfl, -, hat, hafter⟩ := h.step hk (Or.inr rfl)
  obtain rfl := Option.some_injective _ (hmid.symm.trans
    (rawToIrMid_skip (by decide) (by decide) _))
  obtain ⟨s', hs'⟩ : ∃ s', lockStep entry s 0 = some s' :=
    ⟨_, by rw [lockStep, hmid, Option.map_some]⟩
  refine ⟨s', hs', ?_⟩
  rw [lockStep, hmid, Option.map_some] at hs'
  obtain rfl := Option.some_injective _ hs'
  refine ⟨by simpa using hat, rfl, guestExec_nop _, hafter, ?_⟩
  have hload : loadNew entry s.pass.block.tables s.pass.block.tables (wordRegs 0) s.host =
      s.host := by
    simp only [loadNew, wordRegs, List.foldl_cons, List.foldl_nil]
    simp
  dsimp only
  rw [appendedIr, Nat.sub_self, hload]
  rfl

/-- **One word** keeps the simulation relation. -/
lemma Sim.step (h : Sim liveness type entry s) (hk : s.past.length < 16 * fragWords type)
    (hinstr : IsArith instr ∨ IsNop instr) (hok : WordOk s instr) :
    ∃ s', lockStep entry s instr = some s' ∧ Sim liveness type entry s' := by
  rcases hinstr with harith | rfl
  · have hword : ArithOk s.pass.block.tables s.past instr := hok.resolve_left harith.not_isNop
    obtain ⟨s', hs', hat, hpast, hguest, htables, hhost⟩ :=
      lockStep_arith entry h.rawAt hk harith
    refine ⟨s', hs', hat, ?_, ?_, ?_⟩
    · intro r hr hu
      rw [htables] at hu ⊢
      obtain ⟨hu, hloc⟩ := of_tablesAfter_used hu
      rw [hloc, hhost, hguest]
      exact h.arith_host harith hword hr hu
    · rw [htables]
      exact (h.distinct.fillLoop hword.fresh).tablesAfter
    · intro r hr
      rw [hpast] at hr
      have hrd : r ≠ mips32Rd instr := fun heq =>
        hr instr (by simp) ⟨harith.namesRegs, heq⟩
      obtain ⟨v, -, hexec⟩ := harith.exec s.guest
      rw [hguest, hexec, guestRead_write_of_ne hrd]
      exact h.untouched r fun w hw => hr w (List.mem_append_left _ hw)
  · obtain ⟨s', hs', hat, hpast, hguest, htables, hhost⟩ :=
      lockStep_nop entry h.rawAt hk
    refine ⟨s', hs', hat, ?_, ?_, ?_⟩
    · intro r hr hu
      rw [htables] at hu ⊢
      obtain ⟨hu, hloc⟩ := of_tablesAfter_used hu
      rw [hloc, hhost, hguest]
      exact h.agrees r hr hu
    · rw [htables]
      exact h.distinct.tablesAfter
    · intro r hr
      rw [hguest]
      exact h.untouched r fun w hw => hr w (hpast ▸ List.mem_append_left _ hw)

end Step

/-- Every word of the block finds room in the buffer. -/
lemma allSteps_length (entry : GuestFile) (n : ℕ) (words : List (BitVec 32)) (s : LockState)
    (hn : s.past.length + words.length ≤ n) :
    AllSteps (lockStep entry) (fun s _ => s.past.length < n) s words := by
  induction words generalizing s with
  | nil => trivial
  | cons instr words ih =>
    rw [List.length_cons] at hn
    refine ⟨by omega, fun s' hs' => ih s' ?_⟩
    rw [lockStep, Option.map_eq_some_iff] at hs'
    obtain ⟨mid, -, rfl⟩ := hs'
    simp only [List.length_append, List.length_singleton]
    omega

/-- **Translation preserves meaning.**  For a block of arithmetic words and `NOP`s, every
entry register file and every content of the host registers: if no word reaches one of the
defects that `ArithOk` lists, the machines agree after every word.  The pass of the lockstep is
the one of `tblock_raw_to_ir` (`runs_lockStep_pass`). -/
theorem translation_agrees (heap : ℕ → IrRawInstr) (type : TblockType) (code : GuestCode)
    (entry : GuestFile) (host : ℕ → BitVec 32)
    (hwords : ∀ instr ∈ blockWords type code, IsArith instr ∨ IsNop instr)
    (hok : ∀ block cnt,
      tblockLivenessScan mipsToI64 code (tblockAlloc heap type) = some (block, cnt) →
      AllSteps (lockStep entry) WordOk (.start block entry host) (blockWords type code)) :
    TranslationAgrees heap type code entry host := by
  obtain ⟨liveness, hscan, -⟩ := tblockLivenessScan_spec code (tblockAlloc heap type)
  refine ⟨_, _, hscan, ?_⟩
  have hinv := always_of_allSteps (Sim liveness type entry)
    (C := fun s instr => (IsArith instr ∨ IsNop instr) ∧ WordOk s instr)
    (V := fun s _ => s.past.length < 16 * fragWords type)
    (fun s instr hs hlen hC => hs.step hlen hC.1 hC.2)
    (sim_start { tblockAlloc heap type with liveness := liveness } rfl rfl rfl rfl
      entry host)
    (allSteps_length entry _ _ _ (by simp [LockState.start, blockWords_length_eq]))
    (allSteps_and (allSteps_of_forall fun instr hinstr _ => hwords instr hinstr)
      (hok _ _ hscan))
  exact hinv.mono fun s hs => hs.agrees

/-- The entry register file of the examples: register `r` holds `r`. -/
def countingFile : GuestFile := fun r => BitVec.ofNat 32 r

/-- The block of one `add r9, r10, r11`. -/
theorem translation_agrees_one_add :
    TranslationAgrees zeroHeap .tblockSmall (codeOf [0x014b4820]) countingFile (fun _ => 0) := by
  refine translation_agrees _ _ _ _ _ (forall_mem_blockWords_codeOf _ (by decide +kernel)) ?_
  intro block cnt hscan
  obtain ⟨liveness, hscan', -⟩ :=
    tblockLivenessScan_spec (codeOf [0x014b4820]) (tblockAlloc zeroHeap .tblockSmall)
  obtain ⟨rfl, -⟩ := Prod.ext_iff.1 (Option.some_injective _ (hscan.symm.trans hscan'))
  rw [blockWords_codeOf_singleton]
  refine ⟨Or.inr ?_, fun s' _ => allSteps_of_forall fun instr hinstr s => Or.inl ?_⟩
  · exact
      { rd_ne_zero := by decide
        not_clobbered := by decide
        reached := show ∀ r ∈ wordRegs 0x014b4820, GetsLocation .fresh 0x014b4820 r by
          decide +kernel
        fresh := show LocsFresh .fresh _ by decide +kernel
        not_lost := fun _ _ _ w hw => absurd hw (by simp [LockState.start]) }
  · exact List.eq_of_mem_replicate hinstr

/-- The block of one `add r9, r10, r9`: the `mov` to the host register of `r9` destroys the
second source, and the host register ends up with twice the value of `r10`. -/
theorem clobbered_source_disagrees :
    ¬ TranslationAgrees zeroHeap .tblockSmall (codeOf [0x01494820]) countingFile
      (fun _ => 0) := by
  rintro ⟨block, cnt, hscan, halways⟩
  obtain ⟨liveness, hscan', -⟩ :=
    tblockLivenessScan_spec (codeOf [0x01494820]) (tblockAlloc zeroHeap .tblockSmall)
  obtain ⟨rfl, -⟩ := Prod.ext_iff.1 (Option.some_injective _ (hscan.symm.trans hscan'))
  rw [blockWords_codeOf_singleton] at halways
  obtain ⟨-, s', hs', hrest⟩ := halways
  have hsim := sim_start
    { tblockAlloc zeroHeap .tblockSmall with liveness := liveness } rfl rfl rfl rfl
    countingFile (fun _ => 0)
  obtain ⟨s'', hs'', -, -, hguest, htables, hhost⟩ :=
    lockStep_arith countingFile hsim.rawAt
      (show 0 < 16 * fragWords .tblockSmall by decide)
      (show IsArith 0x01494820 by decide +kernel)
  obtain rfl : s'' = s' := Option.some_injective _ (hs''.symm.trans hs')
  have htables' : s''.pass.block.tables = arithTables .fresh 0x01494820 := by
    rw [htables, tablesAfter]
    exact if_neg (show ¬ fragOf .tblockSmall 1 ≠ fragOf .tblockSmall 0 by decide)
  have hguest' : s''.guest = guestExec countingFile 0x01494820 := hguest
  have hhost' : s''.host = irExecAll
      (loadNew countingFile .fresh (arithTables .fresh 0x01494820) (wordRegs 0x01494820)
        fun _ => 0)
      (arithOut (arithTables .fresh 0x01494820) 0x01494820) := hhost
  have hloc : opLoc (arithTables .fresh 0x01494820) 9 = 10 := by decide +kernel
  have hleft : irExecAll
      (loadNew countingFile .fresh (arithTables .fresh 0x01494820) (wordRegs 0x01494820)
        fun _ => 0)
      (arithOut (arithTables .fresh 0x01494820) 0x01494820) 10 = 20#32 := by decide +kernel
  have hright : guestRead (guestExec countingFile 0x01494820) 9 = 19#32 := by decide +kernel
  have hagree := always_head hrest 9 (by omega) (by rw [htables']; decide +kernel)
  rw [htables', hloc, hhost', hleft, hguest', hright] at hagree
  exact absurd hagree (by decide)

end AxVirtLayer
