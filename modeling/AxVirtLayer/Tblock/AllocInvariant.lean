import AxVirtLayer.Lib.Run
import AxVirtLayer.Tblock.Assoc

/-!
# The register allocation invariant

The association table is indexed by guest registers and the state table by host
registers, and the two have to be kept in step: a host register is occupied exactly when
one guest register lives in it, and no two guest registers share a host register or a
spill slot.

`asm_fill_assoc` keeps the tables in step as long as the 16-bit spill counter does not
come back to a slot that is still in use.  `asm_flush_by_liveness` clears the state of
the host register that has the *number* of the dead guest register, not of the one the
guest register lived in; it keeps the tables in step exactly when the two agree on being
flushed.  `regAlloc_always_iff` says that these are the only two ways to lose the
invariant.
-/

namespace AxVirtLayer

open Lib

/-! ## The invariant -/

/-- The guest register `g` lives in the host register `h`. -/
def Owns (t : AsmTables) (g h : ℕ) : Prop :=
  g < 32 ∧ t.used g = true ∧ t.spilled g = false ∧ (t.assoc g).id = h

instance (t : AsmTables) (g h : ℕ) : Decidable (Owns t g h) :=
  inferInstanceAs (Decidable (_ ∧ _))

/-- The guest register `g` lives in the spill slot `k`. -/
def OwnsSlot (t : AsmTables) (g k : ℕ) : Prop :=
  g < 32 ∧ t.used g = true ∧ t.spilled g = true ∧ (t.assoc g).id = k

/-- A host register is occupied if and only if exactly one guest register lives in it,
and no two guest registers live in one spill slot. -/
def RegAllocOk (t : AsmTables) : Prop :=
  (∀ h < 16, t.state h = .regOccupied ↔ ∃! g, Owns t g h) ∧
    ∀ g g' k, OwnsSlot t g k → OwnsSlot t g' k → g = g'

/-- The inductive form of the invariant: it also says that a free host register has no
guest register in it. -/
structure AllocInv (t : AsmTables) : Prop where
  owner_lt : ∀ {g h}, Owns t g h → h < 16
  occupied_iff : ∀ {h}, h < 16 → (t.state h = .regOccupied ↔ ∃ g, Owns t g h)
  owner_unique : ∀ {g g' h}, Owns t g h → Owns t g' h → g = g'
  slot_unique : ∀ {g g' k}, OwnsSlot t g k → OwnsSlot t g' k → g = g'

lemma AllocInv.regAllocOk {t : AsmTables} (h : AllocInv t) : RegAllocOk t := by
  refine ⟨fun k hk => ?_, fun g g' k hg hg' => h.slot_unique hg hg'⟩
  rw [h.occupied_iff hk]
  constructor
  · rintro ⟨g, hg⟩
    exact ⟨g, hg, fun g' hg' => h.owner_unique hg' hg⟩
  · rintro ⟨g, hg, -⟩
    exact ⟨g, hg⟩

lemma allocInv_fresh : AllocInv .fresh where
  owner_lt h := absurd h.2.1 (by simp [AsmTables.used, AsmTables.fresh])
  occupied_iff _ := by
    refine ⟨fun h => absurd h (by simp [AsmTables.fresh]), ?_⟩
    rintro ⟨g, h⟩
    exact absurd h.2.1 (by simp [AsmTables.used, AsmTables.fresh])
  owner_unique h := absurd h.2.1 (by simp [AsmTables.used, AsmTables.fresh])
  slot_unique h := absurd h.2.1 (by simp [AsmTables.used, AsmTables.fresh])

/-! ## One association -/

section FillOne

variable {t : AsmTables} {r : ℕ}

lemma owns_take_iff (hr : r < 32) {h g k : ℕ} :
    Owns (t.take r h) g k ↔ (g = r ∧ k = h) ∨ (g ≠ r ∧ Owns t g k) := by
  by_cases hg : g = r
  · subst hg
    simp only [Owns, AsmTables.used, AsmTables.spilled, AsmTables.take_assoc_self,
      irRegAssocUsed_flags, irRegAssocSpilled_flags]
    grind
  · simp only [Owns, AsmTables.used, AsmTables.spilled, AsmTables.take_assoc_of_ne _ _ hg]
    grind

lemma ownsSlot_take_iff {h g k : ℕ} :
    OwnsSlot (t.take r h) g k ↔ g ≠ r ∧ OwnsSlot t g k := by
  by_cases hg : g = r
  · subst hg
    simp [OwnsSlot, AsmTables.spilled, AsmTables.take_assoc_self]
  · simp [OwnsSlot, AsmTables.used, AsmTables.spilled, AsmTables.take_assoc_of_ne _ _ hg, hg]

lemma owns_spill_iff {g k : ℕ} : Owns (t.spill r) g k ↔ g ≠ r ∧ Owns t g k := by
  by_cases hg : g = r
  · subst hg
    simp [Owns, AsmTables.spilled, AsmTables.spill_assoc_self]
  · simp [Owns, AsmTables.used, AsmTables.spilled, AsmTables.spill_assoc_of_ne _ hg, hg]

lemma ownsSlot_spill_iff (hr : r < 32) {g k : ℕ} :
    OwnsSlot (t.spill r) g k ↔ (g = r ∧ k = t.spillCnt) ∨ (g ≠ r ∧ OwnsSlot t g k) := by
  by_cases hg : g = r
  · subst hg
    simp only [OwnsSlot, AsmTables.used, AsmTables.spilled, AsmTables.spill_assoc_self,
      irRegAssocUsed_flags, irRegAssocSpilled_flags]
    grind
  · simp only [OwnsSlot, AsmTables.used, AsmTables.spilled, AsmTables.spill_assoc_of_ne _ hg]
    grind

/-- Taking a free host register keeps the tables in step. -/
lemma AllocInv.take (hinv : AllocInv t) (hr : r < 32) (hused : t.used r = false) {h : ℕ}
    (hh : h < 16) (hfree : t.state h = .regFree) : AllocInv (t.take r h) := by
  have hno : ∀ g, ¬ Owns t g h := fun g hg =>
    absurd ((hinv.occupied_iff hh).2 ⟨g, hg⟩) (by simp [hfree])
  have hr' : ∀ k, ¬ Owns t r k := fun k hk => absurd hk.2.1 (by simp [hused])
  constructor
  · intro g k hgk
    rcases (owns_take_iff hr).1 hgk with ⟨-, rfl⟩ | ⟨-, hgk⟩
    · exact hh
    · exact hinv.owner_lt hgk
  · intro k hk
    simp only [owns_take_iff hr, AsmTables.take_state]
    by_cases hkh : k = h
    · subst hkh
      simp
    · rw [Function.update_of_ne hkh, hinv.occupied_iff hk]
      constructor
      · rintro ⟨g, hg⟩
        exact ⟨g, Or.inr ⟨fun hgr => hr' k (hgr ▸ hg), hg⟩⟩
      · rintro ⟨g, ⟨-, rfl⟩ | ⟨-, hg⟩⟩
        · exact absurd rfl hkh
        · exact ⟨g, hg⟩
  · intro g g' k hg hg'
    rcases (owns_take_iff hr).1 hg with ⟨rfl, rfl⟩ | ⟨-, hgk⟩ <;>
      rcases (owns_take_iff hr).1 hg' with ⟨rfl, hk⟩ | ⟨-, hgk'⟩
    · rfl
    · exact absurd hgk' (hno g')
    · exact absurd (hk ▸ hgk) (hno g)
    · exact hinv.owner_unique hgk hgk'
  · intro g g' k hg hg'
    exact hinv.slot_unique (ownsSlot_take_iff.1 hg).2 (ownsSlot_take_iff.1 hg').2

/-- Spilling to a slot that no guest register lives in keeps the tables in step. -/
lemma AllocInv.spill (hinv : AllocInv t) (hr : r < 32) (hused : t.used r = false)
    (hslot : ∀ g, ¬ OwnsSlot t g t.spillCnt) : AllocInv (t.spill r) := by
  have hr' : ∀ k, ¬ Owns t r k := fun k hk => absurd hk.2.1 (by simp [hused])
  constructor
  · intro g k hgk
    exact hinv.owner_lt (owns_spill_iff.1 hgk).2
  · intro k hk
    simp only [owns_spill_iff, AsmTables.spill_state, hinv.occupied_iff hk]
    constructor
    · rintro ⟨g, hg⟩
      exact ⟨g, fun hgr => hr' k (hgr ▸ hg), hg⟩
    · rintro ⟨g, -, hg⟩
      exact ⟨g, hg⟩
  · intro g g' k hg hg'
    exact hinv.owner_unique (owns_spill_iff.1 hg).2 (owns_spill_iff.1 hg').2
  · intro g g' k hg hg'
    rcases (ownsSlot_spill_iff hr).1 hg with ⟨rfl, rfl⟩ | ⟨-, hgk⟩ <;>
      rcases (ownsSlot_spill_iff hr).1 hg' with ⟨rfl, hk⟩ | ⟨-, hgk'⟩
    · rfl
    · exact absurd hgk' (hslot g')
    · exact absurd (hk ▸ hgk) (hslot g)
    · exact hinv.slot_unique hgk hgk'

/-- If the association of `r` spills, its slot is not in use. -/
def SpillFresh (t : AsmTables) (r : ℕ) : Prop :=
  NoFreeReg t.state (guestRole r) → ∀ g, ¬ OwnsSlot t g t.spillCnt

lemma AllocInv.fillOne (hinv : AllocInv t) (hr : r < 32) (hused : t.used r = false)
    (hfresh : SpillFresh t r) : AllocInv (asmFillOne mipsToI64 t r) := by
  rcases asmFillOne_cases t r with ⟨h, hfree, heq⟩ | ⟨hno, heq⟩
  · rw [heq]
    exact hinv.take hr hused hfree.1.lt hfree.2.1
  · rw [heq]
    exact hinv.spill hr hused (hfresh hno)

end FillOne

/-! ## The loop of `asm_fill_assoc` -/

/-- At every operand the loop reaches, a spill takes a slot that is not in use. -/
def FillFresh (t : AsmTables) : List IrOperand → Prop
  | [] => True
  | op :: ops =>
    if t.used op.id then True
    else SpillFresh t op.id ∧ FillFresh (asmFillOne mipsToI64 t op.id) ops

lemma AllocInv.fillLoop {t : AsmTables} {ops : List IrOperand} (hinv : AllocInv t)
    (hops : ∀ op ∈ ops, op.id < 32) (hfresh : FillFresh t ops) :
    AllocInv (asmFillLoop mipsToI64 t ops) := by
  induction ops generalizing t with
  | nil => exact hinv
  | cons op ops ih =>
    rw [asmFillLoop]
    rw [FillFresh] at hfresh
    cases hused : t.used op.id
    · simp only [hused, Bool.false_eq_true, if_false] at hfresh ⊢
      exact ih (hinv.fillOne (hops op (by simp)) hused hfresh.1)
        (fun op' hop' => hops op' (by simp [hop'])) hfresh.2
    · simpa using hinv

lemma ownsSlot_fillLoop {t : AsmTables} {ops : List IrOperand} {g k : ℕ}
    (h : OwnsSlot t g k) : OwnsSlot (asmFillLoop mipsToI64 t ops) g k := by
  have hassoc := asmFillLoop_assoc_of_used mipsToI64 ops h.2.1
  simpa only [OwnsSlot, AsmTables.used, AsmTables.spilled, hassoc] using h

/-- A slot taken twice stays taken twice: if the spill slots are distinct at the end of
the loop, every spill took a slot that was not in use. -/
lemma fillFresh_of_slots {t : AsmTables} {ops : List IrOperand}
    (hops : ∀ op ∈ ops, op.id < 32)
    (h : ∀ g g' k, OwnsSlot (asmFillLoop mipsToI64 t ops) g k →
      OwnsSlot (asmFillLoop mipsToI64 t ops) g' k → g = g') : FillFresh t ops := by
  induction ops generalizing t with
  | nil => trivial
  | cons op ops ih =>
    rw [asmFillLoop] at h
    rw [FillFresh]
    cases hused : t.used op.id
    · simp only [hused, Bool.false_eq_true, if_false] at h ⊢
      refine ⟨fun hno g hg => ?_, ih (fun op' hop' => hops op' (by simp [hop'])) h⟩
      obtain ⟨k, hfree, -⟩ | ⟨-, heq⟩ := asmFillOne_cases t op.id
      · exact hfree.not_noFreeReg hno
      · have hne : g ≠ op.id := fun hgr => absurd hg.2.1 (by simp [hgr, hused])
        have hop : op.id < 32 := hops op (by simp)
        have hslot : OwnsSlot (asmFillOne mipsToI64 t op.id) op.id t.spillCnt := by
          rw [heq]
          exact (ownsSlot_spill_iff hop).2 (Or.inl ⟨rfl, rfl⟩)
        have hslot' : OwnsSlot (asmFillOne mipsToI64 t op.id) g t.spillCnt := by
          rw [heq]
          exact (ownsSlot_spill_iff hop).2 (Or.inr ⟨hne, hg⟩)
        exact hne (h _ _ _ (ownsSlot_fillLoop hslot') (ownsSlot_fillLoop hslot))
    · simp

/-! ## Flushing -/

/-- A guest register and the host register it lives in are flushed together: the
liveness bits of the guest registers with the two *numbers* agree. -/
def FlushSafe (t : AsmTables) (b : ℕ) (liveness : LivenessTable) : Prop :=
  ∀ g h, Owns t g h → asmAlive liveness b g = asmAlive liveness b h

section Flush

variable {t : AsmTables} {b : ℕ} {liveness : LivenessTable}

lemma owns_flush_iff {g h : ℕ} :
    Owns (asmFlushByLiveness mipsToI64 b liveness t) g h ↔
      Owns t g h ∧ asmAlive liveness b g = true := by
  rw [asmFlushByLiveness_eq]
  simp only [Owns, AsmTables.used, AsmTables.spilled]
  by_cases hg : g < 32 <;> cases halive : asmAlive liveness b g <;> simp [hg]

lemma ownsSlot_flush {g k : ℕ}
    (h : OwnsSlot (asmFlushByLiveness mipsToI64 b liveness t) g k) : OwnsSlot t g k := by
  rw [asmFlushByLiveness_eq] at h
  simp only [OwnsSlot, AsmTables.used, AsmTables.spilled] at h ⊢
  split_ifs at h with hc
  · simp at h
  · exact h

lemma flush_state {h : ℕ} (hh : h < 32) :
    (asmFlushByLiveness mipsToI64 b liveness t).state h = .regOccupied ↔
      t.state h = .regOccupied ∧ asmAlive liveness b h = true := by
  rw [asmFlushByLiveness_eq]
  cases halive : asmAlive liveness b h <;> simp [hh, halive]

lemma AllocInv.flush (hinv : AllocInv t) (hsafe : FlushSafe t b liveness) :
    AllocInv (asmFlushByLiveness mipsToI64 b liveness t) where
  owner_lt hg := hinv.owner_lt (owns_flush_iff.1 hg).1
  occupied_iff {h} hh := by
    rw [flush_state (by omega), hinv.occupied_iff hh]
    simp only [owns_flush_iff]
    constructor
    · rintro ⟨⟨g, hg⟩, halive⟩
      exact ⟨g, hg, (hsafe g h hg).trans halive⟩
    · rintro ⟨g, hg, halive⟩
      exact ⟨⟨g, hg⟩, (hsafe g h hg).symm.trans halive⟩
  owner_unique hg hg' := hinv.owner_unique (owns_flush_iff.1 hg).1 (owns_flush_iff.1 hg').1
  slot_unique hg hg' := hinv.slot_unique (ownsSlot_flush hg) (ownsSlot_flush hg')

/-- If the tables are in step after the flush, the flush was safe. -/
lemma flushSafe_of_regAllocOk (hinv : AllocInv t)
    (hok : RegAllocOk (asmFlushByLiveness mipsToI64 b liveness t)) :
    FlushSafe t b liveness := by
  intro g h hg
  have hh : h < 16 := hinv.owner_lt hg
  have hocc : t.state h = .regOccupied := (hinv.occupied_iff hh).2 ⟨g, hg⟩
  have hiff := hok.1 h hh
  rw [flush_state (by omega)] at hiff
  cases halive : asmAlive liveness b g <;> cases halive' : asmAlive liveness b h
  · rfl
  · -- the host register stays occupied, but the guest register in it is gone
    obtain ⟨g', hg', -⟩ := hiff.1 ⟨hocc, halive'⟩
    obtain ⟨hown, hal⟩ := owns_flush_iff.1 hg'
    rw [hinv.owner_unique hown hg, halive] at hal
    exact absurd hal (by simp)
  · -- the host register is freed under the guest register in it
    have hex : ∃! g', Owns (asmFlushByLiveness mipsToI64 b liveness t) g' h :=
      ⟨g, owns_flush_iff.2 ⟨hg, halive⟩,
        fun g' hg' => hinv.owner_unique (owns_flush_iff.1 hg').1 hg⟩
    rw [(hiff.2 hex).2] at halive'
    exact absurd halive' (by simp)
  · rfl

end Flush

/-! ## Runs -/

/-- A call on the tables of a block: `asm_fill_assoc` on an instruction over three guest
registers, or `asm_flush_by_liveness`. -/
inductive AsmCall
  | fill (opcode : IrOpcode) (a b c : Fin 32)
  | flush (livenessBlockIdx : ℕ) (liveness : LivenessTable)

lemma fillOperands_lt {a b c : ℕ} (ha : a < 32) (hb : b < 32) (hc : c < 32) :
    ∀ op ∈ fillOperands a b c, op.id < 32 := by
  intro op hop
  by_cases hab : a = b
  · simp only [fillOperands, hab, if_true, List.mem_cons, List.not_mem_nil, or_false] at hop
    rcases hop with rfl | rfl <;> assumption
  · simp only [fillOperands, hab, if_false, List.mem_cons, List.not_mem_nil, or_false] at hop
    rcases hop with rfl | rfl | rfl <;> assumption

/-- The tables after a call. -/
def asmCallStep (t : AsmTables) : AsmCall → Option AsmTables
  | .fill opcode a b c => some (asmFillAssoc mipsToI64 (threeRegInstr opcode a b c) t)
  | .flush idx liveness => some (asmFlushByLiveness mipsToI64 idx liveness t)

/-- The condition on a call and on the tables before it. -/
def AsmCall.Safe (t : AsmTables) : AsmCall → Prop
  | .fill _ a b c => FillFresh t (fillOperands a b c)
  | .flush idx liveness => FlushSafe t idx liveness

lemma AllocInv.call {t t' : AsmTables} {call : AsmCall} (hinv : AllocInv t)
    (hsafe : call.Safe t) (hstep : asmCallStep t call = some t') : AllocInv t' := by
  cases call with
  | fill opcode a b c =>
    obtain rfl : asmFillAssoc mipsToI64 (threeRegInstr opcode a b c) t = t' :=
      Option.some_injective _ hstep
    rw [asmFillAssoc_three]
    exact hinv.fillLoop (fillOperands_lt a.2 b.2 c.2) hsafe
  | flush idx liveness =>
    obtain rfl : asmFlushByLiveness mipsToI64 idx liveness t = t' :=
      Option.some_injective _ hstep
    exact hinv.flush hsafe

lemma AsmCall.safe_of_regAllocOk {t t' : AsmTables} {call : AsmCall} (hinv : AllocInv t)
    (hstep : asmCallStep t call = some t') (hok : RegAllocOk t') : call.Safe t := by
  cases call with
  | fill opcode a b c =>
    obtain rfl : asmFillAssoc mipsToI64 (threeRegInstr opcode a b c) t = t' :=
      Option.some_injective _ hstep
    rw [asmFillAssoc_three] at hok
    exact fillFresh_of_slots (fillOperands_lt a.2 b.2 c.2) hok.2
  | flush idx liveness =>
    obtain rfl : asmFlushByLiveness mipsToI64 idx liveness t = t' :=
      Option.some_injective _ hstep
    exact flushSafe_of_regAllocOk hinv hok

/-- **The register allocation invariant, exactly.**  In a run of calls from the tables of
a fresh block the invariant holds in every state if and only if every call is safe. -/
theorem regAlloc_always_iff (calls : List AsmCall) :
    Always asmCallStep RegAllocOk .fresh calls ↔
      AllSteps asmCallStep (fun t call => call.Safe t) .fresh calls := by
  refine always_iff_allSteps (I := AllocInv) (V := fun _ _ => True) (fun _ h => h.regAllocOk) ?_
    (fun _ _ _ hinv _ hsafe hstep => hinv.call hsafe hstep)
    (fun _ _ _ hinv _ hstep hok => AsmCall.safe_of_regAllocOk hinv hstep hok)
    allocInv_fresh ?_
  · rintro t (_ | _) - - - <;> exact ⟨_, rfl⟩
  · generalize AsmTables.fresh = t
    induction calls generalizing t with
    | nil => trivial
    | cons call calls ih => exact ⟨trivial, fun t' _ => ih t'⟩

/-- The guest registers 2 and up are alive, the registers 0 and 1 are not. -/
def lowDeadLiveness : LivenessTable := fun i => if i < 2 then 0 else 1

/-- Register 2 of the guest takes host register 0; a flush that keeps guest register 2
but not guest register 0 marks the host register free under it. -/
theorem regAlloc_not_always :
    ¬ Always asmCallStep RegAllocOk .fresh
      [.fill irAddI32 2 2 2, .flush 0 lowDeadLiveness] := by
  rintro ⟨-, t₁, ht₁, -, t₂, ht₂, hok⟩
  obtain rfl : asmFillAssoc mipsToI64 (threeRegInstr irAddI32 2 2 2) .fresh = t₁ :=
    Option.some_injective _ ht₁
  obtain rfl := Option.some_injective _ ht₂
  have huniq : ∀ g < 32, Owns (asmFlushByLiveness mipsToI64 0 lowDeadLiveness
      (asmFillAssoc mipsToI64 (threeRegInstr irAddI32 2 2 2) .fresh)) g 0 ↔ g = 2 := by
    decide +kernel
  have hex : ∃! g, Owns (asmFlushByLiveness mipsToI64 0 lowDeadLiveness
      (asmFillAssoc mipsToI64 (threeRegInstr irAddI32 2 2 2) .fresh)) g 0 :=
    ⟨2, (huniq 2 (by omega)).2 rfl, fun g hg => (huniq g hg.1).1 hg⟩
  exact absurd ((hok.1 0 (by omega)).2 hex) (by decide +kernel)

end AxVirtLayer
