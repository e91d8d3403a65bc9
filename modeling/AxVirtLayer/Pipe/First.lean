import AxVirtLayer.Pipe.SyncMap

/-!
# The first bit of a range

What `sync_map_sig_first` and `sync_map_unsig_first` promise when they run alone: to find the
first clear or set bit of a range, to flip it, and to leave the others as they are.
`sync_map_sig_first` keeps the promise.  `sync_map_unsig_first` breaks it when the first quad
is full from the start of the range on, for then it goes on to the next quad.

On a map of more than `2 ^ 26` quads, which `sync_map_init` does not build, both may break it: the
`u32` index of a bit past `2 ^ 32` wraps, and is then below the end of the range.
-/

namespace AxVirtLayer

open Lib

/-- The bits of a range that are in the map: `[from, min(to, 64 * size))`. -/
def BitInRange (smap : SyncMapDesc) (fromBitIndex toBitIndex i : ℕ) : Prop :=
  fromBitIndex ≤ i ∧ i < min toBitIndex (64 * smap.size)

/-- Some bit of the range has the value. -/
def HasBit (value : Bool) (smap : SyncMapDesc) (fromBitIndex toBitIndex : ℕ) : Prop :=
  ∃ i, BitInRange smap fromBitIndex toBitIndex i ∧ syncMapIssig smap.map i = value

/-- The least bit of the range with the value. -/
def IsFirstBit (value : Bool) (smap : SyncMapDesc) (fromBitIndex toBitIndex i : ℕ) : Prop :=
  BitInRange smap fromBitIndex toBitIndex i ∧ syncMapIssig smap.map i = value ∧
    ∀ j < i, BitInRange smap fromBitIndex toBitIndex j → syncMapIssig smap.map j ≠ value

/-- What a call promises that looks for a bit with the value: it returns the least one and
flips it alone, or returns nothing and leaves the map unchanged if there is none. -/
structure FindsFirst (value : Bool) (fromBitIndex toBitIndex : ℕ) (smap : SyncMapDesc)
    (res : Option ℕ × SyncMapDesc) : Prop where
  found : HasBit value smap fromBitIndex toBitIndex → ∃ i, res.1 = some i ∧
    IsFirstBit value smap fromBitIndex toBitIndex i ∧ res.2.size = smap.size ∧
    syncMapIssig res.2.map i = !value ∧
    ∀ j, j ≠ i → syncMapIssig res.2.map j = syncMapIssig smap.map j
  notFound : ¬ HasBit value smap fromBitIndex toBitIndex → res = (none, smap)

/-- The first bit that a call takes has an index that wraps to one below the end of the range. -/
def WrapsIndex (op : MapOp) (fromBitIndex toBitIndex : ℕ) (smap : SyncMapDesc) : Prop :=
  ∃ i, MapCall.TakesFirst ⟨op, fromBitIndex, toBitIndex⟩ smap.map i ∧ i / 64 < smap.size ∧
    2 ^ 32 ≤ i ∧ i % 2 ^ 32 < toBitIndex

section

variable {smap : SyncMapDesc}

/-- No index wraps on a map of at most `2 ^ 26` quads. -/
lemma not_wrapsIndex (hsize : 64 * smap.size ≤ 2 ^ 32) (op : MapOp) (fromBitIndex toBitIndex : ℕ) :
    ¬ WrapsIndex op fromBitIndex toBitIndex smap := by
  rintro ⟨i, -, hquad, hwrap, -⟩
  omega

lemma MapOp.issig_apply (op : MapOp) (m : SyncMap) (i j : ℕ) :
    syncMapIssig (op.apply m i) j = if j = i then !op.wanted else syncMapIssig m j := by
  cases op
  · by_cases hj : j = i <;> simp [MapOp.apply, MapOp.wanted, hj]
  · by_cases hj : j = i <;> simp [MapOp.apply, MapOp.wanted, hj]

/-- **A call that passes over no bit and computes no index that wraps keeps its promise.** -/
lemma findsFirst_of_takes (call : MapCall)
    (hall : ∀ i, BitInRange smap call.fromBitIndex call.toBitIndex i → ¬ call.Skips smap.map i)
    (hwraps : ¬ WrapsIndex call.op call.fromBitIndex call.toBitIndex smap) :
    FindsFirst call.op.wanted call.fromBitIndex call.toBitIndex smap (syncMapFirst call smap) := by
  have htakes : ∀ i, BitInRange smap call.fromBitIndex call.toBitIndex i →
      syncMapIssig smap.map i = call.op.wanted → call.Takes smap.map i :=
    fun i hi hbit => ⟨⟨hi.1, hbit⟩, hall i hi⟩
  obtain ⟨m', r, heq, hspec⟩ := syncMapFirst_spec call smap
  cases r with
  | none =>
    -- a bit of the range would be taken, and the first bit taken is not in the range
    obtain ⟨rfl, hnone⟩ := hspec
    have hno : ¬ HasBit call.op.wanted smap call.fromBitIndex call.toBitIndex := by
      rintro ⟨k, hk, hbit⟩
      obtain ⟨i, hfirst, hle⟩ := MapCall.exists_takesFirst (htakes k hk hbit)
      have hlt := hk.2
      have hto := hnone i hfirst (by omega)
      have hmod := Nat.mod_le i (2 ^ 32)
      omega
    exact ⟨fun h => absurd h hno, fun _ => heq⟩
  | some index =>
    obtain ⟨i, hfirst, hsize, hto, rfl, rfl⟩ := hspec
    have hlt : i < 2 ^ 32 := by
      by_contra hge
      exact hwraps ⟨i, hfirst, hsize, Nat.le_of_not_lt hge, hto⟩
    rw [Nat.mod_eq_of_lt hlt] at heq hto
    obtain ⟨⟨⟨hfrom, hbit⟩, -⟩, hleast⟩ := hfirst
    have hrange : BitInRange smap call.fromBitIndex call.toBitIndex i := by
      refine ⟨hfrom, ?_⟩
      omega
    refine ⟨fun _ => ⟨i, by rw [heq], ⟨hrange, hbit, fun j hj hjr hjbit => ?_⟩, ?_, ?_,
      fun j hj => ?_⟩, fun hno => absurd ⟨i, hrange, hbit⟩ hno⟩
    · exact hleast j hj (htakes j hjr hjbit)
    · rw [heq]
    · rw [heq, MapOp.issig_apply, if_pos rfl]
    · rw [heq, MapOp.issig_apply, if_neg hj]

/-- A call that passes over no bit of the range and computes an index that wraps returns it,
although no bit of the range has the value. -/
lemma not_findsFirst_of_wraps (call : MapCall) (hto : call.toBitIndex ≤ 2 ^ 32)
    (hall : ∀ i, BitInRange smap call.fromBitIndex call.toBitIndex i → ¬ call.Skips smap.map i)
    (hwraps : WrapsIndex call.op call.fromBitIndex call.toBitIndex smap) :
    ¬ FindsFirst call.op.wanted call.fromBitIndex call.toBitIndex smap
      (syncMapFirst call smap) := by
  obtain ⟨i, hfirst, hsize, hwrap, hlow⟩ := hwraps
  have hno : ¬ HasBit call.op.wanted smap call.fromBitIndex call.toBitIndex := by
    rintro ⟨k, hk, hbit⟩
    have hlt := hk.2
    exact hfirst.2 k (by omega) ⟨⟨hk.1, hbit⟩, hall k hk⟩
  intro h
  obtain ⟨m', r, heq, hspec⟩ := syncMapFirst_spec call smap
  obtain ⟨rfl, -⟩ := Prod.mk.inj (heq.symm.trans (h.notFound hno))
  have hge := hspec.2 i hfirst hsize
  omega

end

/-! ## `sync_map_sig_first` -/

/-- **`sync_map_sig_first` finds and sets the first clear bit**, on every map of at most `2 ^ 26`
quads. -/
theorem syncMapSigFirst_findsFirst (fromBitIndex toBitIndex : ℕ) (smap : SyncMapDesc)
    (hsize : 64 * smap.size ≤ 2 ^ 32) :
    FindsFirst false fromBitIndex toBitIndex smap
      (syncMapSigFirst fromBitIndex toBitIndex smap) :=
  findsFirst_of_takes ⟨.sigFirst, fromBitIndex, toBitIndex⟩
    (fun _ _ => not_skips_sigFirst)
    (not_wrapsIndex hsize .sigFirst fromBitIndex toBitIndex)

/-- A map of `sync_map_init` with two quads, and two bits set in each: the call finds the bit 2. -/
theorem syncMapSigFirst_findsFirst_twoQuads :
    (syncMapSigFirst 1 128 ⟨fun _ => 3#64, 2⟩).1 = some 2 ∧
      FindsFirst false 1 128 ⟨fun _ => 3#64, 2⟩ (syncMapSigFirst 1 128 ⟨fun _ => 3#64, 2⟩) :=
  ⟨by decide +kernel, syncMapSigFirst_findsFirst 1 128 ⟨fun _ => 3#64, 2⟩
    (@syncMapInit_size_le 128 ⟨fun _ => 0, 2⟩ rfl (by decide))⟩

/-- The last quad whose indexes do not wrap is full, and another quad follows. -/
def hugeMap : SyncMapDesc :=
  ⟨fun quad => if quad = 2 ^ 26 - 1 then BitVec.allOnes 64 else 0, 2 ^ 26 + 1⟩

/-- The call for a bit of the full quad sets a bit of the next one and returns the index 0. -/
theorem hugeMap_not_findsFirst :
    ¬ FindsFirst false (2 ^ 32 - 64) (2 ^ 32 - 1) hugeMap
      (syncMapSigFirst (2 ^ 32 - 64) (2 ^ 32 - 1) hugeMap) := by
  refine not_findsFirst_of_wraps ⟨.sigFirst, 2 ^ 32 - 64, 2 ^ 32 - 1⟩ (by decide)
    (fun _ _ => not_skips_sigFirst)
    ⟨2 ^ 32, ⟨⟨⟨by decide, ?_⟩, not_skips_sigFirst⟩, fun j hj htakes => ?_⟩, by decide,
      le_rfl, by decide⟩
  · rw [syncMapIssig_eq]
    rfl
  · obtain ⟨⟨hfrom, hbit⟩, -⟩ := htakes
    have hquad : j / 64 = 2 ^ 26 - 1 := by
      dsimp only at hfrom
      omega
    rw [syncMapIssig_eq, hquad] at hbit
    have hfull : (hugeMap.map (2 ^ 26 - 1)).getLsbD (j % 64) = true := by
      show (BitVec.allOnes 64).getLsbD (j % 64) = true
      rw [BitVec.getLsbD_allOnes]
      exact decide_eq_true (Nat.mod_lt j (by decide))
    rw [hfull] at hbit
    cases hbit

/-! ## `sync_map_unsig_first` -/

/-- The range is not empty and starts in the map, at a quad that is full from there on. -/
def SkipsFullQuad (fromBitIndex toBitIndex : ℕ) (smap : SyncMapDesc) : Prop :=
  fromBitIndex < toBitIndex ∧ fromBitIndex / 64 < smap.size ∧ FirstQuadFull smap.map fromBitIndex

/-- A call on a full first quad passes over the first bit of the range, which is set. -/
lemma not_findsFirst_of_skips {fromBitIndex toBitIndex : ℕ} {smap : SyncMapDesc}
    (h : SkipsFullQuad fromBitIndex toBitIndex smap) :
    ¬ FindsFirst true fromBitIndex toBitIndex smap
      (syncMapUnsigFirst fromBitIndex toBitIndex smap) := by
  obtain ⟨hlt, hsize, hfull⟩ := h
  have hrange : BitInRange smap fromBitIndex toBitIndex fromBitIndex := ⟨le_rfl, by omega⟩
  have hbit : syncMapIssig smap.map fromBitIndex = true := hfull fromBitIndex rfl le_rfl
  intro hfirst
  obtain ⟨i, hres, ⟨hir, hi, hleast⟩, -, hflip, -⟩ :=
    hfirst.found ⟨fromBitIndex, hrange, hbit⟩
  -- the least set bit of the range is its first one
  obtain rfl : i = fromBitIndex := by
    by_contra hne
    have hle := hir.1
    exact hleast fromBitIndex (by omega) hrange hbit
  obtain ⟨m', r, heq, hspec⟩ := syncMapFirst_spec ⟨.unsigFirst, i, toBitIndex⟩ smap
  rw [syncMapUnsigFirst, heq] at hres hflip
  subst hres
  -- the bit cleared is another one
  obtain ⟨k, hk, -, -, -, rfl⟩ := hspec
  have hne : i ≠ k := by
    rintro rfl
    exact hk.1.2 ⟨rfl, rfl, hfull⟩
  dsimp only at hflip
  rw [MapOp.issig_apply, if_neg hne, hbit] at hflip
  cases hflip

/-- **`sync_map_unsig_first` finds and clears the first set bit**, except where it skips a
full first quad or computes an index that wraps. -/
theorem syncMapUnsigFirst_findsFirst_iff (fromBitIndex toBitIndex : ℕ) (smap : SyncMapDesc)
    (hto : toBitIndex < 2 ^ 32) :
    FindsFirst true fromBitIndex toBitIndex smap
        (syncMapUnsigFirst fromBitIndex toBitIndex smap) ↔
      ¬ SkipsFullQuad fromBitIndex toBitIndex smap ∧
        ¬ WrapsIndex .unsigFirst fromBitIndex toBitIndex smap := by
  have hall : ¬ SkipsFullQuad fromBitIndex toBitIndex smap →
      ∀ i, BitInRange smap fromBitIndex toBitIndex i →
        ¬ MapCall.Skips ⟨.unsigFirst, fromBitIndex, toBitIndex⟩ smap.map i := by
    rintro hno i ⟨hle, hlt⟩ ⟨-, -, hfull⟩
    exact hno ⟨by omega, by omega, hfull⟩
  constructor
  · intro h
    have hno : ¬ SkipsFullQuad fromBitIndex toBitIndex smap :=
      fun hskip => not_findsFirst_of_skips hskip h
    refine ⟨hno, fun hwraps => ?_⟩
    exact not_findsFirst_of_wraps ⟨.unsigFirst, fromBitIndex, toBitIndex⟩ hto.le (hall hno) hwraps h
  · rintro ⟨hno, hwraps⟩
    exact findsFirst_of_takes ⟨.unsigFirst, fromBitIndex, toBitIndex⟩ (hall hno) hwraps

/-- A quad with two bits set. -/
theorem syncMapUnsigFirst_findsFirst_iff_oneQuad :
    FindsFirst true 0 64 ⟨fun _ => 6#64, 1⟩ (syncMapUnsigFirst 0 64 ⟨fun _ => 6#64, 1⟩) := by
  refine (syncMapUnsigFirst_findsFirst_iff 0 64 ⟨fun _ => 6#64, 1⟩ (by decide)).2 ⟨?_, ?_⟩
  · rintro ⟨-, -, hfull⟩
    exact absurd (hfull 0 rfl le_rfl) (by decide)
  · refine not_wrapsIndex ?_ .unsigFirst 0 64
    exact @syncMapInit_size_le 64 ⟨fun _ => 0, 1⟩ rfl (by decide)

/-- A map of one full quad: the call for its first bit returns nothing. -/
theorem fullQuad_not_findsFirst :
    ¬ FindsFirst true 0 64 ⟨fun _ => BitVec.allOnes 64, 1⟩
      (syncMapUnsigFirst 0 64 ⟨fun _ => BitVec.allOnes 64, 1⟩) := by
  refine not_findsFirst_of_skips ⟨by decide, by decide, fun i _ _ => ?_⟩
  rw [syncMapIssig_eq, BitVec.getLsbD_allOnes]
  exact decide_eq_true (Nat.mod_lt i (by decide))

end AxVirtLayer
