import AxVirtLayer.Tblock.Assoc

/-!
# The allocator on any register map

`asm_alloc_space` (`asm_alloc.c`) reads the first word of a role bitmap, counts the zeros of
its low half and cuts the index to four bits.  It honours role and freedom as long as it finds
a free register below 16; a register from 16 on makes it look at the register 16 below it, over
and over.
-/

namespace AxVirtLayer

open Lib

namespace CpuRegMap

variable (m : CpuRegMap) (role : CpuRegRole)

/-- The register `j` has the role: its bit in the role bitmap is set. -/
def HasRole (j : ℕ) : Prop :=
  j < 256 ∧ (m.roleMap role (Fin.ofNat 4 (j / 64))).getLsbD (j % 64) = true

instance (j : ℕ) : Decidable (m.HasRole role j) := inferInstanceAs (Decidable (_ ∧ _))

/-- The bitmap of the role is consistent with the register array. -/
structure RoleConsistent : Prop where
  count_le : m.regCount ≤ 256
  bit_iff : ∀ j < 256, m.HasRole role j ↔
    j < m.regCount ∧ (m.reg j).role = role ∧ (m.reg j).id = j

instance : Decidable (m.RoleConsistent role) :=
  decidable_of_iff (m.regCount ≤ 256 ∧ ∀ j < 256, m.HasRole role j ↔
      j < m.regCount ∧ (m.reg j).role = role ∧ (m.reg j).id = j)
    ⟨fun ⟨h₁, h₂⟩ => ⟨h₁, h₂⟩, fun ⟨h₁, h₂⟩ => ⟨h₁, h₂⟩⟩

/-- The bitmaps of all roles are. -/
def Consistent : Prop := ∀ role, m.RoleConsistent role

end CpuRegMap

lemma i64CpuRegMap_consistent : i64CpuRegMap.Consistent := by
  intro role
  cases role <;> decide +kernel

/-- The call of `asm_alloc_space` honours role and freedom: it reads no undefined value, takes
the lowest free register of the role and marks it alone, or reports a spill and leaves the
states alone. -/
structure AllocHonours (m : CpuRegMap) (role : CpuRegRole) (st : StateTable) : Prop where
  defined : asmAllocDefined st (m.roleMap role 0).cpop.toNat (m.roleMap role 0)
  free : ∀ j, m.HasRole role j → st j = .regFree →
    (∀ i < j, m.HasRole role i → st i ≠ .regFree) →
    asmAllocSpace m role st = (j, Function.update st j .regOccupied)
  spill : (∀ j, m.HasRole role j → st j ≠ .regFree) → asmAllocSpace m role st = (1 <<< 8, st)

/-- Behind the registers below 16 the loop has nothing left to look at, or is caught: the next
register of the role is below 32, and the one 16 below it is not free. -/
def EndsInSpill (m : CpuRegMap) (role : CpuRegRole) (st : StateTable) : Prop :=
  (∀ j < 64, m.HasRole role j → j < 16) ∨
    ∃ c < 32, 16 ≤ c ∧ m.HasRole role c ∧ (∀ j < c, m.HasRole role j → j < 16) ∧
      st (c - 16) ≠ .regFree

variable {m : CpuRegMap} {role : CpuRegRole} {st : StateTable}

/-- The first word of the bitmap. -/
lemma hasRole_iff_getLsbD {j : ℕ} (hj : j < 64) :
    m.HasRole role j ↔ (m.roleMap role 0).getLsbD j = true := by
  rw [CpuRegMap.HasRole, Nat.div_eq_of_lt hj, Nat.mod_eq_of_lt hj]
  exact and_iff_right (by omega)

lemma CpuRegMap.RoleConsistent.reg_id (h : m.RoleConsistent role) {j : ℕ}
    (hj : m.HasRole role j) : (m.reg j).id = j :=
  ((h.bit_iff j hj.1).1 hj).2.2

lemma exists_lowestFree (h : ∃ j, m.HasRole role j ∧ st j = .regFree) :
    ∃ j, m.HasRole role j ∧ st j = .regFree ∧ ∀ i < j, m.HasRole role i → st i ≠ .regFree := by
  classical
  obtain ⟨hrole, hfree⟩ := Nat.find_spec h
  exact ⟨Nat.find h, hrole, hfree, fun i hi hri hfi => Nat.find_min h hi ⟨hri, hfi⟩⟩

/-! ## The rounds for the registers from 16 on -/

section High

variable {high : BitVec 64} {c : ℕ}

/-- An index behind the half word is undefined. -/
lemma not_asmAllocDefined (hc : LowestBit high c) (h32 : 32 ≤ c) (k : ℕ) :
    ¬ asmAllocDefined st (k + 1) high := by
  rw [asmAllocDefined, hc.setWidth_eq h32]
  exact fun h => h.1 rfl

/-- The loop is caught: it drops a bit the mask does not have. -/
lemma asmAllocScan_caught (hc : LowestBit high c) (h16 : 16 ≤ c) (h32 : c < 32)
    (hocc : st (c - 16) ≠ .regFree) (k : ℕ) :
    asmAllocScan st k high = none ∧ asmAllocDefined st k high := by
  have hidx : c % 16 = c - 16 := by omega
  have hsame : high &&& ~~~(1#64 <<< (c - 16)) = high := by
    refine BitVec.eq_of_getLsbD_eq fun i _ => ?_
    rw [getLsbD_clearBit]
    by_cases hi : i = c - 16
    · rw [hi, hc.2 _ (by omega), Bool.false_and]
    · rw [decide_eq_true hi, Bool.and_true]
  induction k with
  | zero => exact ⟨rfl, trivial⟩
  | succ k ih =>
    rw [hc.scan_eq h32, hc.defined_iff h32, hidx, if_pos hocc, hsame]
    exact ⟨ih.1, fun _ => ih.2⟩

/-- The loop takes the register 16 below. -/
lemma asmAllocScan_wrong (hc : LowestBit high c) (h16 : 16 ≤ c) (h32 : c < 32)
    (hfree : st (c - 16) = .regFree) (k : ℕ) :
    asmAllocScan st (k + 1) high = some (c - 16) := by
  rw [hc.scan_eq h32, show c % 16 = c - 16 by omega, if_neg (not_not.2 hfree)]

end High

/-! ## The call -/

lemma asmAllocSpace_of_some {idx : ℕ}
    (h : asmAllocScan st (m.roleMap role 0).cpop.toNat (m.roleMap role 0) = some idx) :
    asmAllocSpace m role st = ((m.reg idx).id, Function.update st idx .regOccupied) := by
  rw [asmAllocSpace, h]

lemma asmAllocSpace_of_none
    (h : asmAllocScan st (m.roleMap role 0).cpop.toNat (m.roleMap role 0) = none) :
    asmAllocSpace m role st = (1 <<< 8, st) := by
  rw [asmAllocSpace, h]

/-- A call that only reports a spill is right if and only if no register of the role is
free. -/
lemma allocHonours_iff_of_none
    (hdef : asmAllocDefined st (m.roleMap role 0).cpop.toNat (m.roleMap role 0))
    (h : asmAllocScan st (m.roleMap role 0).cpop.toNat (m.roleMap role 0) = none) :
    AllocHonours m role st ↔ ∀ j, m.HasRole role j → st j ≠ .regFree := by
  have hres := asmAllocSpace_of_none h
  constructor
  · intro hon j hj hfree
    -- the lowest free register would have to be taken
    obtain ⟨i, hrole, hst, hmin⟩ := exists_lowestFree ⟨j, hj, hfree⟩
    have htaken := hon.free i hrole hst hmin
    rw [hres] at htaken
    have hid : 1 <<< 8 = i := congrArg Prod.fst htaken
    have hlt := hrole.1
    omega
  · exact fun hno => ⟨hdef, fun j hj hst => absurd hst (hno j hj), fun _ => hres⟩

/-- A call that takes a free register which is not of the role is wrong. -/
lemma not_allocHonours_of_some {idx : ℕ} (hfree : st idx = .regFree)
    (hrole : ¬ m.HasRole role idx)
    (h : asmAllocScan st (m.roleMap role 0).cpop.toNat (m.roleMap role 0) = some idx) :
    ¬ AllocHonours m role st := by
  intro hon
  have hres := asmAllocSpace_of_some h
  by_cases hex : ∃ j, m.HasRole role j ∧ st j = .regFree
  · obtain ⟨j, hj, hst, hmin⟩ := exists_lowestFree hex
    have htaken := hon.free j hj hst hmin
    rw [hres] at htaken
    have hne : idx ≠ j := fun heq => hrole (heq ▸ hj)
    have hstate := congrFun (congrArg Prod.snd htaken) idx
    dsimp only at hstate
    rw [Function.update_self, Function.update_of_ne hne, hfree] at hstate
    cases hstate
  · have hspill := hon.spill fun j hj hst => hex ⟨j, hj, hst⟩
    rw [hres] at hspill
    have hstate := congrFun (congrArg Prod.snd hspill) idx
    dsimp only at hstate
    rw [Function.update_self, hfree] at hstate
    cases hstate

/-- The rounds of the loop: those for the registers below 16, and those for the others. -/
lemma cpop_roleMap (m : CpuRegMap) (role : CpuRegRole) :
    (m.roleMap role 0).cpop.toNat = (lowBits (m.roleMap role 0)).card +
      ((bitSet (m.roleMap role 0)).filter (¬ · < 16)).card := by
  rw [toNat_cpop_eq_card, lowBits, Finset.card_filter_add_card_filter_not]

/-- A free register below 16 is found. -/
lemma allocHonours_of_low (h : m.RoleConsistent role) {idx : ℕ}
    (hrole : m.HasRole role idx) (hfree : st idx = .regFree)
    (hmin : ∀ j < idx, m.HasRole role j → st j ≠ .regFree)
    (hres : asmAllocScan st (m.roleMap role 0).cpop.toNat (m.roleMap role 0) = some idx)
    (hdef : asmAllocDefined st (m.roleMap role 0).cpop.toNat (m.roleMap role 0)) :
    AllocHonours m role st := by
  have htaken := asmAllocSpace_of_some hres
  rw [h.reg_id hrole] at htaken
  refine ⟨hdef, fun j hj hst hlow => ?_, fun hno => absurd hfree (hno idx hrole)⟩
  obtain rfl : idx = j := by
    rcases lt_trichotomy idx j with hlt | heq | hlt
    · exact absurd hfree (hlow idx hlt hrole)
    · exact heq
    · exact absurd hst (hmin j hlt hj)
  exact htaken

/-- The end in the spill is about the lowest register of the role from 16 on. -/
lemma endsInSpill_iff {c : ℕ} (hc16 : 16 ≤ c) (hc64 : c < 64) (hcrole : m.HasRole role c)
    (hbelow : ∀ j < c, m.HasRole role j → j < 16) :
    EndsInSpill m role st ↔ c < 32 ∧ st (c - 16) ≠ .regFree := by
  constructor
  · rintro (hall | ⟨c', h32, h16, hrole', hbelow', hocc⟩)
    · exact absurd (hall c hc64 hcrole) (not_lt.2 hc16)
    · obtain rfl : c = c' := by
        rcases lt_trichotomy c c' with hlt | heq | hlt
        · exact absurd (hbelow' c hlt hcrole) (not_lt.2 hc16)
        · exact heq
        · exact absurd (hbelow c' hlt hrole') (not_lt.2 h16)
      exact ⟨h32, hocc⟩
  · rintro ⟨h32, hocc⟩
    exact .inr ⟨c, h32, hc16, hcrole, hbelow, hocc⟩

/-- With no free register below 16, the call is right if and only if no other register of the
role is free and the loop ends in the spill. -/
lemma allocHonours_of_high {high : BitVec 64} {k : ℕ}
    (hlow : ∀ j < 16, m.HasRole role j → st j ≠ .regFree)
    (hk : k = ((bitSet (m.roleMap role 0)).filter (¬ · < 16)).card)
    (hhigh : ∀ j, high.getLsbD j = true ↔ (m.roleMap role 0).getLsbD j = true ∧ 16 ≤ j)
    (hres : asmAllocScan st (m.roleMap role 0).cpop.toNat (m.roleMap role 0) =
      asmAllocScan st k high)
    (hdef : asmAllocDefined st (m.roleMap role 0).cpop.toNat (m.roleMap role 0) ↔
      asmAllocDefined st k high) :
    AllocHonours m role st ↔
      (∀ j, m.HasRole role j → st j ≠ .regFree) ∧ EndsInSpill m role st := by
  cases k with
  | zero =>
    have hnone : ∀ j < 64, m.HasRole role j → j < 16 := by
      intro j hj hrole
      by_contra hge
      have hmem : j ∈ (bitSet (m.roleMap role 0)).filter (¬ · < 16) :=
        Finset.mem_filter.2 ⟨mem_bitSet.2 ((hasRole_iff_getLsbD hj).1 hrole), hge⟩
      rw [Finset.card_eq_zero.1 hk.symm] at hmem
      exact absurd hmem (Finset.notMem_empty j)
    rw [allocHonours_iff_of_none (hdef.2 trivial) hres, and_iff_left (.inl hnone)]
  | succ k =>
    obtain ⟨i, hi⟩ := Finset.card_pos.1 ((Nat.succ_pos k).trans_eq hk)
    obtain ⟨hbit, hi16⟩ := Finset.mem_filter.1 hi
    obtain ⟨c, -, hc⟩ := exists_lowestBit ((hhigh i).2 ⟨mem_bitSet.1 hbit, not_lt.1 hi16⟩)
    obtain ⟨hcbit, hc16⟩ := (hhigh c).1 hc.1
    have hc64 : c < 64 := BitVec.lt_of_getLsbD hcbit
    have hcrole : m.HasRole role c := (hasRole_iff_getLsbD hc64).2 hcbit
    -- `c` is the lowest register of the role from 16 on
    have hbelow : ∀ j < c, m.HasRole role j → j < 16 := by
      intro j hj hrole
      by_contra hge
      have hset := (hhigh j).2 ⟨(hasRole_iff_getLsbD (by omega)).1 hrole, not_lt.1 hge⟩
      rw [hc.2 j hj] at hset
      cases hset
    rw [endsInSpill_iff hc16 hc64 hcrole hbelow]
    by_cases h32 : c < 32
    · by_cases hocc : st (c - 16) ≠ .regFree
      · obtain ⟨hnone, hok⟩ := asmAllocScan_caught hc hc16 h32 hocc (k + 1)
        rw [allocHonours_iff_of_none (hdef.2 hok) (hres.trans hnone), and_iff_left ⟨h32, hocc⟩]
      · have hfree : st (c - 16) = .regFree := not_not.1 hocc
        refine iff_of_false ?_ fun h => h.2.2 hfree
        exact not_allocHonours_of_some hfree (fun hrole => hlow _ (by omega) hrole hfree)
          (hres.trans (asmAllocScan_wrong hc hc16 h32 hfree k))
    · refine iff_of_false (fun h => ?_) fun h => h32 h.2.1
      exact not_asmAllocDefined hc (not_lt.1 h32) k (hdef.1 h.defined)

/-- **Roles and freedom.**  For a role whose bitmap is consistent the call is right if and only
if a register of the role below 16 is free, or no register of the role is free and the loop
ends in the spill. -/
theorem allocHonours_iff (h : m.RoleConsistent role) (st : StateTable) :
    AllocHonours m role st ↔ (∃ j < 16, m.HasRole role j ∧ st j = .regFree) ∨
      (∀ j, m.HasRole role j → st j ≠ .regFree) ∧ EndsInSpill m role st := by
  have hlow : ∀ j < 16, m.HasRole role j ↔ (m.roleMap role 0).getLsbD j = true :=
    fun j hj => hasRole_iff_getLsbD (by omega)
  have hscan := asmAllocScan_low st ((bitSet (m.roleMap role 0)).filter (¬ · < 16)).card _
    (m.roleMap role 0) rfl
  rw [← cpop_roleMap] at hscan
  rcases hscan with ⟨idx, hidx, hbit, hfree, hmin, hres, hdef⟩ | ⟨hocc, high, hhigh, hres, hdef⟩
  · have hrole := (hlow idx hidx).2 hbit
    refine iff_of_true ?_ (.inl ⟨idx, hidx, hrole, hfree⟩)
    exact allocHonours_of_low h hrole hfree
      (fun j hj hrj => hmin j hj ((hlow j (by omega)).1 hrj)) hres hdef
  · have hocc' : ∀ j < 16, m.HasRole role j → st j ≠ .regFree :=
      fun j hj hrole => hocc j hj ((hlow j hj).1 hrole)
    rw [allocHonours_of_high hocc' rfl hhigh hres hdef, or_iff_right]
    rintro ⟨j, hj, hrole, hfree⟩
    exact hocc' j hj hrole hfree

theorem allocHonours_i64_temp :
    AllocHonours i64CpuRegMap .regTemp fun _ => .regFree :=
  (allocHonours_iff (i64CpuRegMap_consistent .regTemp) _).2 (.inl ⟨10, by decide, by decide, rfl⟩)

/-- The MIPS32 map with the bit of register 8 that the bitmap of `REG_TEMP` lacks. -/
def mips32CpuRegMapRepaired : CpuRegMap :=
  { mips32CpuRegMap with
    roleMap := fun role =>
      if role = .regTemp then lowWord 0x0300FF02 else mips32CpuRegRoleMap role }

/-- Only register 0 is taken. -/
def zeroTaken : StateTable := fun r => if r = 0 then .regOccupied else .regFree

lemma not_allocHonours_of_id {j : ℕ} (hj : m.HasRole role j) (hfree : st j = .regFree)
    (hmin : ∀ i < j, m.HasRole role i → st i ≠ .regFree) (hne : (asmAllocSpace m role st).1 ≠ j) :
    ¬ AllocHonours m role st :=
  fun hon => hne (congrArg Prod.fst (hon.free j hj hfree hmin))

/-- The MIPS32 map with register 0 taken: of the preserved registers 0, 16 to 23, 26 and 27 the
first free one is 16, and the call reports a spill.  The map itself is consistent for this role
and not for the temporary registers. -/
theorem mips32_preserve_spilled :
    (mips32CpuRegMapRepaired.Consistent ∧
      ¬ AllocHonours mips32CpuRegMapRepaired .regPreserve zeroTaken) ∧
    mips32CpuRegMap.RoleConsistent .regPreserve ∧
      ¬ AllocHonours mips32CpuRegMap .regPreserve zeroTaken ∧
      ¬ mips32CpuRegMap.RoleConsistent .regTemp := by
  refine ⟨⟨fun role => ?_, ?_⟩, by decide +kernel, ?_, by decide +kernel⟩
  · cases role <;> decide +kernel
  · exact not_allocHonours_of_id (j := 16) (by decide) rfl (by decide) (by decide +kernel)
  · exact not_allocHonours_of_id (j := 16) (by decide) rfl (by decide) (by decide +kernel)

end AxVirtLayer
