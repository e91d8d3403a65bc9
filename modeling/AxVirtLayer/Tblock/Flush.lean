import AxVirtLayer.Tblock.Liveness
import Mathlib.Data.Nat.Find

/-!
# What a flush drops

At the end of a fragment `asm_flush_by_liveness` drops every association whose register
the liveness pass has not seen *in that fragment*.  A value is lost when it is needed
further away than that: when its next use is not in the fragment of the last word that
named the register nor in the one right after it, or when it has to survive the end of one
of the fragments 8 to 15, for which the byte of the liveness table has no bit.
`flushesOnlyDead_iff` says that these are the only values lost.
-/

namespace AxVirtLayer

open Lib

/-! ## The property -/

/-- Some word reads the register, and no word before it writes it. -/
def ReadBeforeWritten (r : ℕ) (words : List (BitVec 32)) : Prop :=
  ∃ (j : ℕ) (instr : BitVec 32), words[j]? = some instr ∧ Reads instr r ∧
    ∀ i < j, ∀ instr', words[i]? = some instr' → ¬ Writes instr' r

/-- **Flushing only drops dead registers.**  The two passes go through, and whenever the
end of a fragment is crossed after the word `k` and the flush there clears an association,
no later word reads the register before writing it. -/
def FlushesOnlyDead (heap : ℕ → IrRawInstr) (type : TblockType) (code : GuestCode) : Prop :=
  ∃ block cnt final,
    tblockLivenessScan mipsToI64 code (tblockAlloc heap type) = some (block, cnt) ∧
    tblockRawToIr mipsToI64 code block = some final ∧
    ∀ k s instr mid, runs rawToIrStep (.init block) ((blockWords type code).take k) = some s →
      (blockWords type code)[k]? = some instr → rawToIrMid s.block instr = some mid →
      (rawToIrCross mipsToI64 4 { s with block := mid }).blkI ≠ s.blkI →
      ∀ r, mid.tables.used r = true →
        (rawToIrCross mipsToI64 4 { s with block := mid }).block.tables.used r = false →
        ¬ ReadBeforeWritten r ((blockWords type code).drop (k + 1))

/-! ## The condition -/

/-- A use in fragment `b` is in reach of a word in fragment `a`. -/
def InReach (a b : ℕ) : Prop := b = a ∨ b = a + 1 ∧ a < 8

/-- The word `j` is the next one after the word `i` that names the register, and it reads
the register. -/
def NextUse (words : List (BitVec 32)) (r i j : ℕ) : Prop :=
  i < j ∧ (∃ instr, words[j]? = some instr ∧ Reads instr r) ∧
    ∀ k, i < k → k < j → ∀ instr, words[k]? = some instr → ¬ Names instr r

/-- Every word `i` that leaves a register it names with a location is within reach of the
next use of the register. -/
def NextUsesInReach (heap : ℕ → IrRawInstr) (type : TblockType) (code : GuestCode) : Prop :=
  ∀ block cnt, tblockLivenessScan mipsToI64 code (tblockAlloc heap type) = some (block, cnt) →
    ∀ i s instr, runs rawToIrStep (.init block) ((blockWords type code).take i) = some s →
      (blockWords type code)[i]? = some instr →
      ∀ r, Names instr r → GetsLocation s.block.tables instr r →
        ∀ j, NextUse (blockWords type code) r i j → InReach (fragOf type i) (fragOf type j)

/-! ## How the association of one register changes -/

/-- A word that does not name the register does not touch its association. -/
lemma wordTables_used_of_not_names {instr : BitVec 32} (hinstr : IsArith instr ∨ IsNop instr)
    (t : AsmTables) {r : ℕ} (hr : ¬ Names instr r) :
    (wordTables t instr).used r = true ↔ t.used r = true := by
  rcases hinstr with harith | rfl
  · rw [harith.wordTables, arithTables_used_iff, GetsLocation, or_iff_left]
    rintro ⟨op, hop, hid⟩
    refine hr (harith.names_iff.2 ?_)
    have hmem := (List.takeWhile_sublist _).subset hop
    simp only [fillOperands] at hmem
    split_ifs at hmem <;> simp only [List.mem_cons, List.not_mem_nil, or_false] at hmem <;>
      grind [IrOperand.reg_id]
  · rw [wordTables_nop]

lemma wordTables_used_of_names {instr : BitVec 32} (hinstr : IsArith instr ∨ IsNop instr)
    (t : AsmTables) {r : ℕ} (hr : Names instr r) :
    (wordTables t instr).used r = true ↔ GetsLocation t instr r := by
  rcases hinstr with harith | rfl
  · rw [harith.wordTables, arithTables_used_iff]
  · exact absurd hr (not_names_nop r)

/-- What happens to the association of one register along a block: `used k` before the
word `k` and `mid k` after the association of the word. -/
structure AssocTrace (type : TblockType) (words : List (BitVec 32)) (r : ℕ)
    (used mid : ℕ → Prop) : Prop where
  used_zero : ¬ used 0
  mid_of_not_names : ∀ {k instr}, words[k]? = some instr → ¬ Names instr r →
    (mid k ↔ used k)
  used_succ_of_same : ∀ {k}, k < words.length → fragOf type (k + 1) = fragOf type k →
    (used (k + 1) ↔ mid k)
  used_succ_of_cross : ∀ {k}, k < words.length → fragOf type (k + 1) ≠ fragOf type k →
    (used (k + 1) ↔ mid k ∧ fragOf type k < 8 ∧
      ∃ i instr, words[i]? = some instr ∧ fragOf type i = fragOf type k ∧ Names instr r)

section Trace

variable {type : TblockType} {words : List (BitVec 32)} {r : ℕ} {used mid : ℕ → Prop}

lemma AssocTrace.mid_of_used_succ (h : AssocTrace type words r used mid) {k : ℕ}
    (hk : k < words.length) (hu : used (k + 1)) : mid k := by
  by_cases hc : fragOf type (k + 1) = fragOf type k
  · exact (h.used_succ_of_same hk hc).1 hu
  · exact ((h.used_succ_of_cross hk hc).1 hu).1

/-- A register with a location was named before, and has had the location since the last
word that named it. -/
lemma AssocTrace.exists_last_name (h : AssocTrace type words r used mid) {k : ℕ}
    (hk : k < words.length) (hm : mid k) :
    ∃ i ≤ k, (∃ instr, words[i]? = some instr ∧ Names instr r) ∧ mid i ∧
      ∀ l, i < l → l ≤ k → ∀ instr, words[l]? = some instr → ¬ Names instr r := by
  induction k with
  | zero =>
    have hget : words[0]? = some words[0] := List.getElem?_eq_getElem hk
    by_cases hn : Names words[0] r
    · exact ⟨0, le_rfl, ⟨_, hget, hn⟩, hm, fun l h0 h1 => by omega⟩
    · exact absurd ((h.mid_of_not_names hget hn).1 hm) h.used_zero
  | succ k ih =>
    have hget : words[k + 1]? = some words[k + 1] := List.getElem?_eq_getElem hk
    by_cases hn : Names words[k + 1] r
    · exact ⟨k + 1, le_rfl, ⟨_, hget, hn⟩, hm, fun l h0 h1 => by omega⟩
    · have hu := (h.mid_of_not_names hget hn).1 hm
      obtain ⟨i, hi, hname, hmi, hlast⟩ := ih (by omega) (h.mid_of_used_succ (by omega) hu)
      refine ⟨i, by omega, hname, hmi, fun l hil hlk instr hl => ?_⟩
      rcases Nat.lt_or_ge k l with hlt | hge
      · obtain rfl : l = k + 1 := by omega
        obtain rfl : words[k + 1] = instr := by simpa [hget] using hl
        exact hn
      · exact hlast l hil hge instr hl

/-- If no flush clears the register between the word `i` and its next use `j`, the
register keeps its location up to the word `j`. -/
lemma AssocTrace.mid_of_kept (h : AssocTrace type words r used mid) {i j : ℕ}
    (hj : j ≤ words.length) (hi : mid i)
    (hnot : ∀ k, i < k → k < j → ∀ instr, words[k]? = some instr → ¬ Names instr r)
    (hkeep : ∀ k, i ≤ k → k < j → mid k → used (k + 1)) {k : ℕ} (hik : i ≤ k) (hkj : k < j) :
    mid k := by
  induction k, hik using Nat.le_induction with
  | base => exact hi
  | succ k hik ih =>
    have hget : words[k + 1]? = some words[k + 1] := List.getElem?_eq_getElem (by omega)
    exact (h.mid_of_not_names hget (hnot _ (by omega) hkj _ hget)).2
      (hkeep k hik (by omega) (ih (by omega)))

/-- A value read before it is written has a next use, which reads it. -/
lemma exists_nextUse {k : ℕ} (h : ReadBeforeWritten r (words.drop (k + 1))) :
    ∃ j, NextUse words r k j := by
  obtain ⟨j, instr, hj, hread, hnowrite⟩ := h
  have hex : ∃ l, k < l ∧ ∃ instr, words[l]? = some instr ∧ Names instr r :=
    ⟨k + 1 + j, by omega, instr, by rw [← List.getElem?_drop, hj], Or.inr hread⟩
  obtain ⟨hkl, instr', hl, hname⟩ := Nat.find_spec hex
  have hle : Nat.find hex ≤ k + 1 + j :=
    Nat.find_min' hex ⟨by omega, instr, by rw [← List.getElem?_drop, hj], Or.inr hread⟩
  refine ⟨Nat.find hex, hkl, ⟨instr', hl, ?_⟩, fun l hkl' hlt instr'' hl' hn =>
    Nat.find_min hex hlt ⟨hkl', instr'', hl', hn⟩⟩
  -- the first word that names the register is the read, or does not write it
  rcases hname with hwrite | hread'
  · rcases Nat.lt_or_ge (Nat.find hex) (k + 1 + j) with hlt | hge
    · refine absurd hwrite (hnowrite (Nat.find hex - (k + 1)) (by omega) instr' ?_)
      rw [List.getElem?_drop, show k + 1 + (Nat.find hex - (k + 1)) = Nat.find hex by omega]
      exact hl
    · have heq : k + 1 + j = Nat.find hex := by omega
      rw [List.getElem?_drop, heq, hl] at hj
      exact Option.some_injective _ hj ▸ hread
  · exact hread'

lemma NextUse.readBeforeWritten {i j k : ℕ} (h : NextUse words r i j) (hik : i ≤ k)
    (hkj : k < j) : ReadBeforeWritten r (words.drop (k + 1)) := by
  obtain ⟨-, ⟨instr, hj, hread⟩, hnot⟩ := h
  refine ⟨j - (k + 1), instr, ?_, hread, fun l hl instr' hl' hwrite => ?_⟩
  · rw [List.getElem?_drop, show k + 1 + (j - (k + 1)) = j by omega, hj]
  · rw [List.getElem?_drop] at hl'
    exact hnot (k + 1 + l) (by omega) (by omega) instr' hl' (Or.inl hwrite)

/-- The last word of a fragment: the next word starts the next fragment. -/
lemma fragOf_last (type : TblockType) (a : ℕ) :
    fragOf type ((a + 1) * fragWords type - 1) = a ∧
      fragOf type ((a + 1) * fragWords type - 1 + 1) = a + 1 := by
  have hpos := fragWords_pos type
  have hmul : (a + 1) * fragWords type = a * fragWords type + fragWords type := Nat.succ_mul a _
  constructor
  · rw [fragOf, Nat.div_eq_iff hpos]
    omega
  · rw [fragOf, show (a + 1) * fragWords type - 1 + 1 = (a + 1) * fragWords type by omega,
      Nat.mul_div_cancel _ hpos]

lemma le_last_of_fragOf_le {type : TblockType} {i a : ℕ} (h : fragOf type i ≤ a) :
    i ≤ (a + 1) * fragWords type - 1 := by
  have := (Nat.div_lt_iff_lt_mul (fragWords_pos type)).1 (Nat.lt_succ_of_le h)
  rw [Nat.succ_eq_add_one] at this
  omega

lemma last_lt_of_lt_fragOf {type : TblockType} {j a : ℕ} (h : a < fragOf type j) :
    (a + 1) * fragWords type - 1 < j := by
  have hpos := fragWords_pos type
  have hle := (Nat.le_div_iff_mul_le hpos).1 (Nat.succ_le_of_lt h)
  have hmul : 0 < (a + 1) * fragWords type := Nat.mul_pos (by omega) hpos
  rw [Nat.succ_eq_add_one] at hle
  omega

/-- **One register.**  No flush clears a register that is still read exactly when every
word that leaves the register with a location is within reach of its next use. -/
lemma AssocTrace.flush_iff (h : AssocTrace type words r used mid) :
    (∀ k < words.length, fragOf type (k + 1) ≠ fragOf type k → mid k → ¬ used (k + 1) →
        ¬ ReadBeforeWritten r (words.drop (k + 1))) ↔
      ∀ i instr, words[i]? = some instr → Names instr r → mid i →
        ∀ j, NextUse words r i j → InReach (fragOf type i) (fragOf type j) := by
  constructor
  · intro hok i instr hi hname hmi j huse
    obtain ⟨hij, ⟨instr', hj, hread⟩, hnot⟩ := huse
    have hjlt : j < words.length := (List.getElem?_eq_some_iff.1 hj).1
    -- between the two words no flush clears the register, or it would break the property
    have hkeep : ∀ k, i ≤ k → k < j → mid k → used (k + 1) := by
      intro k hik hkj hmk
      by_contra hnu
      by_cases hc : fragOf type (k + 1) = fragOf type k
      · exact hnu ((h.used_succ_of_same (by omega) hc).2 hmk)
      · exact hok k (by omega) hc hmk hnu
          (NextUse.readBeforeWritten ⟨hij, ⟨instr', hj, hread⟩, hnot⟩ hik hkj)
    have hlive : ∀ a, i ≤ (a + 1) * fragWords type - 1 → (a + 1) * fragWords type - 1 < j →
        a < 8 ∧ ∃ l instr, words[l]? = some instr ∧ fragOf type l = a ∧ Names instr r := by
      intro a hia haj
      obtain ⟨hlast, hnext⟩ := fragOf_last type a
      have hm := h.mid_of_kept hjlt.le hmi hnot hkeep hia haj
      have hu := (h.used_succ_of_cross (k := (a + 1) * fragWords type - 1) (by omega)
        (by rw [hlast, hnext]; omega)).1 (hkeep _ hia haj hm)
      rw [hlast] at hu
      exact hu.2
    rcases (fragOf_mono type hij.le).eq_or_lt with heq | hlt
    · exact Or.inl heq.symm
    · have hi8 := hlive (fragOf type i) (le_last_of_fragOf_le le_rfl) (last_lt_of_lt_fragOf hlt)
      refine Or.inr ⟨?_, hi8.1⟩
      by_contra hne
      obtain ⟨-, l, instr'', hl, hfl, hnl⟩ := hlive (fragOf type i + 1)
        (le_last_of_fragOf_le (Nat.le_succ _)) (last_lt_of_lt_fragOf (by omega))
      refine hnot l ?_ ?_ instr'' hl hnl
      · by_contra hle
        have := fragOf_mono type (Nat.le_of_not_lt hle)
        omega
      · by_contra hle
        have := fragOf_mono type (Nat.le_of_not_lt hle)
        omega
  · intro hreach k hk hc hmk hnu hrbw
    obtain ⟨j, hkj, hread, hnot⟩ := exists_nextUse hrbw
    obtain ⟨i, hik, ⟨instr, hi, hname⟩, hmi, hlast⟩ := h.exists_last_name hk hmk
    have huse : NextUse words r i j := by
      refine ⟨by omega, hread, fun l hil hlj instr' hl => ?_⟩
      rcases Nat.lt_or_ge k l with hlt | hge
      · exact hnot l hlt hlj instr' hl
      · exact hlast l hil hge instr' hl
    have hkk : fragOf type k < fragOf type (k + 1) :=
      lt_of_le_of_ne (fragOf_mono type (Nat.le_succ k)) (Ne.symm hc)
    have hkj' : fragOf type (k + 1) ≤ fragOf type j := fragOf_mono type hkj
    have hik' : fragOf type i ≤ fragOf type k := fragOf_mono type hik
    rcases hreach i instr hi hname hmi j huse with heq | ⟨heq, h8⟩
    · omega
    · have hfk : fragOf type i = fragOf type k := by omega
      exact hnu ((h.used_succ_of_cross hk hc).2
        ⟨hmk, by omega, i, instr, hi, hfk, hname⟩)

end Trace

/-! ## The run of the pass -/

/-- The association of one register along the run of `tblock_raw_to_ir`. -/
lemma assocTrace_of_run {liveness : LivenessTable} {type : TblockType}
    {words : List (BitVec 32)} {st : ℕ → PassState} {r : ℕ} (hr : r < 32)
    (hlen : words.length ≤ 16 * fragWords type)
    (hwords : ∀ instr ∈ words, IsArith instr ∨ IsNop instr)
    (hrec : RecordsLiveness type (fun _ => 0) liveness words)
    (hzero : (st 0).block.tables = .fresh)
    (hat : ∀ k ≤ words.length, RawAt liveness type k (st k))
    (hstep : ∀ k (hk : k < words.length), rawToIrStep (st k) words[k] = some (st (k + 1))) :
    AssocTrace type words r (fun k => (st k).block.tables.used r = true)
      (fun k => (wordTables (st k).block.tables (words.getD k 0)).used r = true) := by
  have hget : ∀ {k} (hk : k < words.length), words.getD k 0 = words[k] := fun hk => by
    simp [hk]
  have htables : ∀ {k} (hk : k < words.length), (st (k + 1)).block.tables =
      tablesAfter liveness type k (wordTables (st k).block.tables (words.getD k 0)) := by
    intro k hk
    obtain ⟨mid, s', -, hmid, -, hs', -, htab⟩ := (hat k hk.le).step (by omega)
      (hwords _ (List.getElem_mem hk))
    obtain rfl : s' = st (k + 1) := Option.some_injective _ (hs'.symm.trans (hstep k hk))
    rw [htab, hmid, hget hk]
  constructor
  · rw [hzero]
    simp [AsmTables.used, AsmTables.fresh]
  · intro k instr hk hn
    have hlt : k < words.length := (List.getElem?_eq_some_iff.1 hk).1
    have heq : words.getD k 0 = instr := by
      rw [List.getD_eq_getElem?_getD, hk, Option.getD_some]
    rw [heq]
    exact wordTables_used_of_not_names (hwords _ (List.mem_of_getElem? hk)) _ hn
  · intro k hk hc
    rw [htables hk, tablesAfter, if_neg (not_not.2 hc)]
  · intro k hk hc
    rw [htables hk, tablesAfter, if_pos hc, asmFlushByLiveness_used hr, asmAlive_iff, hrec]
    constructor
    · rintro ⟨hm, h8, hbit | ⟨-, i, instr, hi, hf, hn⟩⟩
      · simp at hbit
      · exact ⟨hm, h8, i, instr, hi, hf, hn⟩
    · rintro ⟨hm, h8, hname⟩
      exact ⟨hm, h8, Or.inr ⟨h8, hname⟩⟩

section Block

variable {heap : ℕ → IrRawInstr} {type : TblockType} {code : GuestCode}

/-- The two passes over a block of arithmetic words and `NOP`s: the tables the liveness
pass leaves, the state before each word of the second pass, and what the word does. -/
lemma exists_block_run (heap : ℕ → IrRawInstr) (type : TblockType) (code : GuestCode)
    (hwords : ∀ instr ∈ blockWords type code, IsArith instr ∨ IsNop instr) :
    ∃ block cnt, ∃ st : ℕ → PassState,
      tblockLivenessScan mipsToI64 code (tblockAlloc heap type) = some (block, cnt) ∧
      block.type = type ∧
      (∀ k ≤ (blockWords type code).length,
        runs rawToIrStep (.init block) ((blockWords type code).take k) = some (st k) ∧
          RawAt block.liveness type k (st k)) ∧
      (∀ k (hk : k < (blockWords type code).length), ∃ mid,
        rawToIrMid (st k).block (blockWords type code)[k] = some mid ∧
        mid.tables = wordTables (st k).block.tables ((blockWords type code).getD k 0) ∧
        rawToIrCross mipsToI64 4 { st k with block := mid } = st (k + 1) ∧
        (st (k + 1)).block.tables = tablesAfter block.liveness type k mid.tables) ∧
      ∀ r < 32, AssocTrace type (blockWords type code) r
        (fun k => (st k).block.tables.used r = true)
        (fun k => (wordTables (st k).block.tables ((blockWords type code).getD k 0)).used r =
          true) := by
  obtain ⟨liveness, hscan, hrec⟩ := tblockLivenessScan_spec code (tblockAlloc heap type)
  have hlen := (blockWords_length_eq type code).le
  obtain ⟨st, hzero, hst⟩ := exists_rawToIr_trace (blockWords type code)
    { tblockAlloc heap type with liveness := liveness } rfl rfl hlen
    fun instr hinstr => isRType_of_arith_or_nop (hwords instr hinstr)
  have hat : ∀ k ≤ (blockWords type code).length, RawAt liveness type k (st k) :=
    fun k hk => (hst k hk).2
  have hstep : ∀ k (hk : k < (blockWords type code).length),
      rawToIrStep (st k) (blockWords type code)[k] = some (st (k + 1)) :=
    fun k hk => step_of_runs_take hk (hst k hk.le).1 (hst (k + 1) hk).1
  refine ⟨_, _, st, hscan, rfl, hst, fun k hk => ?_, fun r hr =>
    assocTrace_of_run hr hlen hwords hrec (by rw [hzero]; rfl) hat hstep⟩
  obtain ⟨mid, s', hmid, htab, hs', hrun, -, hafter⟩ := (hat k hk.le).step (by omega)
    (hwords _ (List.getElem_mem hk))
  obtain rfl : s' = st (k + 1) := Option.some_injective _ (hrun.symm.trans (hstep k hk))
  exact ⟨mid, hmid, by simpa [hk] using htab, hs'.symm, hafter⟩

lemma FlushesOnlyDead.nextUsesInReach
    (hwords : ∀ instr ∈ blockWords type code, IsArith instr ∨ IsNop instr)
    (h : FlushesOnlyDead heap type code) : NextUsesInReach heap type code := by
  obtain ⟨block, cnt, st, hscan, -, hst, hmid, htrace⟩ := exists_block_run heap type code hwords
  obtain ⟨block', cnt', final, hscan', -, hok⟩ := h
  obtain ⟨rfl, rfl⟩ := Prod.ext_iff.1 (Option.some_injective _ (hscan.symm.trans hscan'))
  intro block'' cnt'' hscan'' i s instr hs hi r hname hloc j huse
  obtain ⟨rfl, rfl⟩ := Prod.ext_iff.1 (Option.some_injective _ (hscan.symm.trans hscan''))
  obtain ⟨hilt, hieq⟩ := List.getElem?_eq_some_iff.1 hi
  obtain rfl : s = st i := Option.some_injective _ (hs.symm.trans (hst i hilt.le).1)
  refine ((htrace r hname.lt).flush_iff.1 ?_) i instr hi hname ?_ j huse
  · intro k hk hc hm hnu
    obtain ⟨mid, hmid, htab, hcross, -⟩ := hmid k hk
    refine hok k (st k) _ mid (hst k hk.le).1 (List.getElem?_eq_getElem hk) hmid ?_ r
      (htab ▸ hm) ?_
    · rw [hcross, (hst k hk.le).2.blkI_eq, (hst (k + 1) hk).2.blkI_eq]
      exact hc
    · rw [hcross]
      exact Bool.eq_false_iff.2 hnu
  · rw [List.getD_eq_getElem?_getD, hi, Option.getD_some,
      wordTables_used_of_names (hwords _ (List.mem_of_getElem? hi)) _ hname]
    exact hloc

lemma NextUsesInReach.flushesOnlyDead
    (hwords : ∀ instr ∈ blockWords type code, IsArith instr ∨ IsNop instr)
    (h : NextUsesInReach heap type code) : FlushesOnlyDead heap type code := by
  obtain ⟨block, cnt, st, hscan, htype, hst, hmid, htrace⟩ :=
    exists_block_run heap type code hwords
  have hfinal := (hst _ le_rfl).1
  rw [List.take_length] at hfinal
  refine ⟨block, cnt, _, hscan, by rw [tblockRawToIr_eq_runs, htype, hfinal]; rfl, ?_⟩
  intro k s instr mid hs hk hm hcross r hused hcleared
  obtain ⟨hlt, rfl⟩ := List.getElem?_eq_some_iff.1 hk
  obtain rfl : s = st k := Option.some_injective _ (hs.symm.trans (hst k hlt.le).1)
  obtain ⟨mid', hmid', htab, hcross', hafter⟩ := hmid k hlt
  obtain rfl : mid' = mid := Option.some_injective _ (hmid'.symm.trans hm)
  rw [hcross'] at hcross hcleared
  rw [(hst k hlt.le).2.blkI_eq, (hst (k + 1) hlt).2.blkI_eq] at hcross
  have hr : r < 32 := by
    by_contra hge
    rw [hafter, tablesAfter, if_pos hcross, AsmTables.used, asmFlushByLiveness_eq] at hcleared
    simp only [hge, false_and, if_false] at hcleared
    exact absurd hused (by simp [AsmTables.used, hcleared])
  refine ((htrace r hr).flush_iff.2 ?_) k hlt hcross (htab ▸ hused)
    (Bool.eq_false_iff.1 hcleared)
  intro i instr hi hname hm j huse
  have hilt := (List.getElem?_eq_some_iff.1 hi).1
  refine h block cnt hscan i (st i) instr (hst i hilt.le).1 hi r hname ?_ j huse
  rw [List.getD_eq_getElem?_getD, hi, Option.getD_some,
    wordTables_used_of_names (hwords _ (List.mem_of_getElem? hi)) _ hname] at hm
  exact hm

end Block

/-- **The values a flush drops.**  On a block of arithmetic words and `NOP`s, flushing
drops only dead registers if and only if every word that leaves a register it names with a
location is within reach of the next use of the register: in the same fragment, or, from
one of the fragments 0 to 7, in the next one. -/
theorem flushesOnlyDead_iff (heap : ℕ → IrRawInstr) (type : TblockType) (code : GuestCode)
    (hwords : ∀ instr ∈ blockWords type code, IsArith instr ∨ IsNop instr) :
    FlushesOnlyDead heap type code ↔ NextUsesInReach heap type code :=
  ⟨fun h => h.nextUsesInReach hwords, fun h => h.flushesOnlyDead hwords⟩

/-- The condition for the block of one `add r9, r10, r11`. -/
theorem flushesOnlyDead_iff_one_add :
    (∀ instr ∈ blockWords .tblockSmall (codeOf [0x014b4820]), IsArith instr ∨ IsNop instr) ∧
      (FlushesOnlyDead zeroHeap .tblockSmall (codeOf [0x014b4820]) ↔
        NextUsesInReach zeroHeap .tblockSmall (codeOf [0x014b4820])) := by
  have hwords : ∀ instr ∈ blockWords .tblockSmall (codeOf [0x014b4820]),
      IsArith instr ∨ IsNop instr :=
    forall_mem_blockWords_codeOf _ (by decide +kernel)
  exact ⟨hwords, flushesOnlyDead_iff _ _ _ hwords⟩

/-- `add r9, r10, r11` in fragment 0 and `add r12, r9, r9` in fragment 2: the flush at the
end of fragment 1 drops register 9. -/
def skipFragment : List (BitVec 32) := [0x014b4820, 0, 0, 0, 0x01296020]

theorem skipFragment_drops_live :
    ¬ FlushesOnlyDead zeroHeap .tblockSmall (codeOf skipFragment) := by
  intro h
  have hget : ∀ {k}, k < 32 → (blockWords .tblockSmall (codeOf skipFragment))[k]? =
      some (skipFragment.getD k 0) := fun {k} hk =>
    getElem?_blockWords_codeOf skipFragment (show k < 32 from hk)
  have hreach := h.nextUsesInReach (forall_mem_blockWords_codeOf _ (by decide +kernel))
  obtain ⟨liveness, hscan, -⟩ :=
    tblockLivenessScan_spec (codeOf skipFragment) (tblockAlloc zeroHeap .tblockSmall)
  have huse : NextUse (blockWords .tblockSmall (codeOf skipFragment)) 9 0 4 := by
    have hnop : ∀ k < 4, 0 < k → ¬ Names (skipFragment.getD k 0) 9 := by decide +kernel
    refine ⟨by omega, ⟨_, hget (by omega), by decide +kernel⟩, fun k h0 h4 instr hk => ?_⟩
    obtain rfl := Option.some_injective _ ((hget (by omega)).symm.trans hk)
    exact hnop k h4 h0
  have hloc : GetsLocation .fresh (skipFragment.getD 0 0) 9 :=
    Or.inr ⟨.reg 9, by decide +kernel, rfl⟩
  have := hreach _ _ hscan 0 _ _ rfl (hget (by omega)) 9 (by decide +kernel) hloc 4 huse
  exact absurd this (by simp only [InReach]; decide +kernel)

end AxVirtLayer
