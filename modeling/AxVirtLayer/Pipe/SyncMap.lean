import AxVirtLayer.Lib.Bits

/-!
# The synchronized bitmap

`sync_map.h` and `sync_map.c`.  The functions `sync_map_sig_first` and
`sync_map_unsig_first` are given as machines whose steps are their single atomic
operations, so that calls can be interleaved; `syncMapSigFirst` and `syncMapUnsigFirst` are
the calls that run alone.

The memory order of the operations is not modelled: the steps are interleaved one after
another.  The index that a call compares and returns is a `u32`, which wraps on a map of more than
`2 ^ 26` quads; no index of a map of `sync_map_init` does (`syncMapInit_size_le`).
-/

namespace AxVirtLayer

open Lib

/-! ## The map -/

/-- `sync_map`, by quads. -/
abbrev SyncMap := ℕ → BitVec 64

/-- `sync_map_ind2bit`. -/
def syncMapInd2bit (i : ℕ) : ℕ := i % 64

/-- `sync_map_ind2quad`. -/
def syncMapInd2quad (i : ℕ) : ℕ := i / 64

/-- `sync_map_desc`; the size counts quads. -/
structure SyncMapDesc where
  map : SyncMap
  size : ℕ

/-- `sync_map_init` on zeroed memory; `none` is an invalid size, in bits. -/
def syncMapInit (size : ℕ) : Option SyncMapDesc :=
  if size % 64 ≠ 0 then none else some ⟨fun _ => 0, size / 64⟩

/-- `sync_map_issig`. -/
def syncMapIssig (m : SyncMap) (i : ℕ) : Bool :=
  decide (m (syncMapInd2quad i) &&& 1#64 <<< syncMapInd2bit i ≠ 0#64)

/-- `sync_map_sigon`. -/
def syncMapSigon (m : SyncMap) (i : ℕ) : SyncMap :=
  Function.update m (syncMapInd2quad i) (m (syncMapInd2quad i) ||| 1#64 <<< syncMapInd2bit i)

/-- `sync_map_sigoff`. -/
def syncMapSigoff (m : SyncMap) (i : ℕ) : SyncMap :=
  Function.update m (syncMapInd2quad i) (m (syncMapInd2quad i) &&& ~~~(1#64 <<< syncMapInd2bit i))

lemma syncMapIssig_eq (m : SyncMap) (i : ℕ) :
    syncMapIssig m i = (m (i / 64)).getLsbD (i % 64) := by
  rw [syncMapIssig, Bool.eq_iff_iff, decide_eq_true_eq]
  exact and_one_shiftLeft_ne_zero _ _

lemma syncMapIssig_zero (i : ℕ) : syncMapIssig (fun _ => 0) i = false := by
  rw [syncMapIssig_eq]
  exact BitVec.getLsbD_zero

/-- Two indexes are equal if quad and bit are. -/
lemma index_eq_iff_quad_bit {i j : ℕ} : j = i ↔ j / 64 = i / 64 ∧ j % 64 = i % 64 := by
  omega

@[simp] lemma syncMapIssig_sigon (m : SyncMap) (i j : ℕ) :
    syncMapIssig (syncMapSigon m i) j = (syncMapIssig m j || decide (j = i)) := by
  rw [syncMapIssig_eq, syncMapIssig_eq, syncMapSigon, syncMapInd2quad, syncMapInd2bit]
  by_cases hquad : j / 64 = i / 64
  · rw [hquad, Function.update_self, getLsbD_setBit _ (Nat.mod_lt _ (by decide)), ← hquad]
    simp only [index_eq_iff_quad_bit (i := i), hquad, true_and]
  · rw [Function.update_of_ne hquad]
    have hne : j ≠ i := fun h => hquad (h ▸ rfl)
    simp [hne]

@[simp] lemma syncMapIssig_sigoff (m : SyncMap) (i j : ℕ) :
    syncMapIssig (syncMapSigoff m i) j = (syncMapIssig m j && decide (j ≠ i)) := by
  rw [syncMapIssig_eq, syncMapIssig_eq, syncMapSigoff, syncMapInd2quad, syncMapInd2bit]
  by_cases hquad : j / 64 = i / 64
  · rw [hquad, Function.update_self, getLsbD_clearBit, ← hquad]
    simp only [ne_eq, index_eq_iff_quad_bit (i := i), hquad, true_and]
  · rw [Function.update_of_ne hquad]
    have hne : j ≠ i := fun h => hquad (h ▸ rfl)
    simp [hne]

/-- A map is known by its bits. -/
lemma syncMap_ext {m m' : SyncMap} (h : ∀ i, syncMapIssig m i = syncMapIssig m' i) : m = m' := by
  funext quad
  refine BitVec.eq_of_getLsbD_eq fun bit hbit => ?_
  have hquad : (64 * quad + bit) / 64 = quad := by omega
  have hmod : (64 * quad + bit) % 64 = bit := by omega
  have hi := h (64 * quad + bit)
  rwa [syncMapIssig_eq, syncMapIssig_eq, hquad, hmod] at hi

/-- Clearing a bit that is clear changes nothing. -/
lemma syncMapSigoff_eq_self {m : SyncMap} {i : ℕ} (h : syncMapIssig m i = false) :
    syncMapSigoff m i = m := by
  refine syncMap_ext fun j => ?_
  rw [syncMapIssig_sigoff]
  by_cases hj : j = i
  · rw [hj, h]
    rfl
  · simp [hj]

/-! ## The calls -/

/-- The two functions. -/
inductive MapOp
  | sigFirst
  | unsigFirst
deriving DecidableEq, Repr

/-- A call of `sync_map_sig_first` or `sync_map_unsig_first` with its range. -/
structure MapCall where
  op : MapOp
  fromBitIndex : ℕ
  toBitIndex : ℕ
deriving DecidableEq, Repr

/-- Where a call stands: before the load of a quad, before the `fetch_or` or `fetch_and` of
the bit `sigi` of a quad, or returned, with the index or without one. -/
inductive MapPc
  | load (quad : ℕ)
  | claim (quad sigi : ℕ)
  | ret (index : Option ℕ)
deriving DecidableEq, Repr

namespace MapCall

variable (call : MapCall)

/-- `from_quad` at the start. -/
def fromQuad : ℕ := syncMapInd2quad call.fromBitIndex

/-- `from_mask`. -/
def fromMask : BitVec 64 := BitVec.allOnes 64 <<< syncMapInd2bit call.fromBitIndex

/-- The start of a call, with the check of the bounds. -/
def start (size : ℕ) : MapPc := if call.fromQuad ≥ size then .ret none else .load call.fromQuad

/-- The candidates of a loaded quad: the bits of the word whose trailing zeros are counted.
The first quad gives none if the masked word is full; `sync_map_unsig_first` skips it, too. -/
def candidates (quad : ℕ) (val : BitVec 64) : BitVec 64 :=
  if quad = call.fromQuad then
    let val := val &&& call.fromMask
    match call.op with
    | .sigFirst => if val ≠ call.fromMask then ~~~val &&& call.fromMask else 0
    | .unsigFirst => if val ≠ call.fromMask ∧ val ≠ 0 then val else 0
  else
    match call.op with
    | .sigFirst => ~~~val
    | .unsigFirst => val

/-- The index of the bit `sigi` of a quad, the `u32` `desi`. -/
def desi (quad sigi : ℕ) : ℕ := (sigi + 64 * quad) % 2 ^ 32

/-- After the load of a quad. -/
def afterLoad (size quad : ℕ) (val : BitVec 64) : MapPc :=
  let bits := call.candidates quad val
  if bits ≠ 0 then
    let sigi := bits.ctz.toNat
    if desi quad sigi ≥ call.toBitIndex then .ret none else .claim quad sigi
  else if quad + 1 < size then .load (quad + 1)
  else .ret none

/-- The next atomic operation of a call. -/
def step (size : ℕ) (m : SyncMap) : MapPc → SyncMap × MapPc
  | .load quad => (m, call.afterLoad size quad (m quad))
  | .claim quad sigi =>
    (match call.op with
      | .sigFirst => Function.update m quad (m quad ||| 1#64 <<< sigi)
      | .unsigFirst => Function.update m quad (m quad &&& ~~~(1#64 <<< sigi)),
      .ret (some (desi quad sigi)))
  | .ret index => (m, .ret index)

/-- The call alone: the map and where the call stands after more steps than it takes. -/
def alone (size : ℕ) (m : SyncMap) : SyncMap × MapPc :=
  (fun s : SyncMap × MapPc => call.step size s.1 s.2)^[size + 2] (m, call.start size)

end MapCall

/-- A call that runs alone: the index, `none` where the function returns `false`, and the map
afterwards. -/
def syncMapFirst (call : MapCall) (smap : SyncMapDesc) : Option ℕ × SyncMapDesc :=
  let (map, pc) := call.alone smap.size smap.map
  match pc with
  | .ret index => (index, { smap with map })
  | _ => (none, { smap with map })

/-- `sync_map_sig_first`. -/
def syncMapSigFirst (fromBitIndex toBitIndex : ℕ) (smap : SyncMapDesc) : Option ℕ × SyncMapDesc :=
  syncMapFirst ⟨.sigFirst, fromBitIndex, toBitIndex⟩ smap

/-- `sync_map_unsig_first`. -/
def syncMapUnsigFirst (fromBitIndex toBitIndex : ℕ) (smap : SyncMapDesc) :
    Option ℕ × SyncMapDesc :=
  syncMapFirst ⟨.unsigFirst, fromBitIndex, toBitIndex⟩ smap

/-! ## What a call looks for -/

/-- The first quad is full from the start of the range on. -/
def FirstQuadFull (m : SyncMap) (fromBitIndex : ℕ) : Prop :=
  ∀ i, i / 64 = fromBitIndex / 64 → fromBitIndex ≤ i → syncMapIssig m i = true

/-- The value a call looks for. -/
def MapOp.wanted : MapOp → Bool
  | .sigFirst => false
  | .unsigFirst => true

/-- The bits a call looks for: from the start of its range on, the clear ones or the set ones. -/
def MapCall.Wanted (call : MapCall) (m : SyncMap) (i : ℕ) : Prop :=
  call.fromBitIndex ≤ i ∧ syncMapIssig m i = call.op.wanted

/-- The bits that `sync_map_unsig_first` passes over: those of its first quad, if that quad is full
from the start of the range on. -/
def MapCall.Skips (call : MapCall) (m : SyncMap) (i : ℕ) : Prop :=
  call.op = .unsigFirst ∧ i / 64 = call.fromBitIndex / 64 ∧ FirstQuadFull m call.fromBitIndex

/-- The bits a call takes for candidates: those it looks for and does not pass over. -/
def MapCall.Takes (call : MapCall) (m : SyncMap) (i : ℕ) : Prop :=
  call.Wanted m i ∧ ¬ call.Skips m i

/-- A call stands at a quad of the map, and before the claim of one of its 64 bits. -/
def MapPc.InMap (size : ℕ) : MapPc → Prop
  | .load quad => quad < size
  | .claim quad sigi => quad < size ∧ sigi < 64
  | .ret _ => True

/-- The first bit a call takes for a candidate. -/
def MapCall.TakesFirst (call : MapCall) (m : SyncMap) (i : ℕ) : Prop :=
  call.Takes m i ∧ ∀ j < i, ¬ call.Takes m j

/-- `sync_map_sig_first` passes over no bit. -/
lemma not_skips_sigFirst {fromBitIndex toBitIndex : ℕ} {m : SyncMap} {i : ℕ} :
    ¬ MapCall.Skips ⟨.sigFirst, fromBitIndex, toBitIndex⟩ m i := by
  rintro ⟨hop, -⟩
  cases hop

/-- The map after the claim of a bit. -/
def MapOp.apply (op : MapOp) (m : SyncMap) (i : ℕ) : SyncMap :=
  match op with
  | .sigFirst => syncMapSigon m i
  | .unsigFirst => syncMapSigoff m i

namespace MapCall

variable {call : MapCall} {size : ℕ} {m : SyncMap}

/-- There is but one first bit. -/
lemma TakesFirst.unique {i j : ℕ} (hi : call.TakesFirst m i) (hj : call.TakesFirst m j) :
    i = j := by
  rcases Nat.lt_trichotomy i j with hlt | heq | hlt
  · exact absurd hi.1 (hj.2 i hlt)
  · exact heq
  · exact absurd hj.1 (hi.2 j hlt)

/-- Where a call takes a bit there is a first one. -/
lemma exists_takesFirst {j : ℕ} (hj : call.Takes m j) : ∃ i, call.TakesFirst m i ∧ i ≤ j := by
  classical
  have hex : ∃ i, call.Takes m i := ⟨j, hj⟩
  exact ⟨Nat.find hex, ⟨Nat.find_spec hex, fun k hk => Nat.find_min hex hk⟩, Nat.find_min' hex hj⟩

lemma quad_eq {quad sigi : ℕ} (h : sigi < 64) : (sigi + 64 * quad) / 64 = quad := by
  omega

lemma bit_eq {quad sigi : ℕ} (h : sigi < 64) : (sigi + 64 * quad) % 64 = sigi := by
  omega

lemma issig_quad {quad sigi : ℕ} (h : sigi < 64) :
    syncMapIssig m (sigi + 64 * quad) = (m quad).getLsbD sigi := by
  rw [syncMapIssig_eq, quad_eq h, bit_eq h]

/-- An index below `2 ^ 32` does not wrap. -/
lemma desi_of_lt {quad sigi : ℕ} (h : sigi + 64 * quad < 2 ^ 32) :
    desi quad sigi = sigi + 64 * quad := Nat.mod_eq_of_lt h

/-- The claim sets or clears the bit, and returns its index. -/
lemma step_claim {quad sigi : ℕ} (h : sigi < 64) :
    call.step size m (.claim quad sigi) =
      (call.op.apply m (sigi + 64 * quad), .ret (some (desi quad sigi))) := by
  obtain ⟨op, fromBit, toBit⟩ := call
  cases op
  · simp only [step, MapOp.apply, syncMapSigon, syncMapInd2quad, syncMapInd2bit, quad_eq h,
      bit_eq h]
  · simp only [step, MapOp.apply, syncMapSigoff, syncMapInd2quad, syncMapInd2bit, quad_eq h,
      bit_eq h]

lemma step_claim_of_lt {quad sigi : ℕ} (h : sigi < 64) (hlt : sigi + 64 * quad < 2 ^ 32) :
    call.step size m (.claim quad sigi) =
      (call.op.apply m (sigi + 64 * quad), .ret (some (sigi + 64 * quad))) := by
  rw [step_claim h, desi_of_lt hlt]

lemma getLsbD_fromMask (call : MapCall) (i : ℕ) :
    call.fromMask.getLsbD i = (decide (i < 64) && decide (call.fromBitIndex % 64 ≤ i)) :=
  getLsbD_allOnes_shiftLeft _ _

/-- The masked first word is the mask if the quad is full. -/
lemma masked_eq_iff (call : MapCall) (val : BitVec 64) :
    val &&& call.fromMask = call.fromMask ↔
      ∀ sigi < 64, call.fromBitIndex % 64 ≤ sigi → val.getLsbD sigi = true := by
  constructor
  · intro h sigi hlt hle
    have hbit := congrArg (fun x : BitVec 64 => x.getLsbD sigi) h
    simpa [getLsbD_fromMask, hlt, hle] using hbit
  · intro h
    refine BitVec.eq_of_getLsbD_eq fun sigi hlt => ?_
    rw [BitVec.getLsbD_and, getLsbD_fromMask]
    by_cases hle : call.fromBitIndex % 64 ≤ sigi
    · simp [hlt, hle, h sigi hlt hle]
    · simp [hle]

lemma firstQuadFull_iff : FirstQuadFull m call.fromBitIndex ↔
    m call.fromQuad &&& call.fromMask = call.fromMask := by
  rw [masked_eq_iff]
  constructor
  · intro h sigi hlt hle
    have hfull := h (sigi + 64 * call.fromQuad) (quad_eq hlt) (by
      have : call.fromQuad = call.fromBitIndex / 64 := rfl
      omega)
    rwa [issig_quad hlt] at hfull
  · intro h i hquad hle
    rw [syncMapIssig_eq, hquad]
    exact h (i % 64) (Nat.mod_lt _ (by decide)) (by omega)

/-- **The candidates of a quad.** -/
lemma getLsbD_candidates {quad sigi : ℕ} (hquad : call.fromQuad ≤ quad) (hlt : sigi < 64) :
    (call.candidates quad (m quad)).getLsbD sigi = true ↔ call.Takes m (sigi + 64 * quad) := by
  have hfrom : call.fromQuad = call.fromBitIndex / 64 := rfl
  rw [candidates, Takes, Wanted, Skips, issig_quad hlt, quad_eq hlt]
  by_cases hfirst : quad = call.fromQuad
  · have hle : call.fromBitIndex ≤ sigi + 64 * quad ↔ call.fromBitIndex % 64 ≤ sigi := by omega
    have hmask : call.fromMask.getLsbD sigi = decide (call.fromBitIndex % 64 ≤ sigi) := by
      rw [getLsbD_fromMask, decide_eq_true hlt, Bool.true_and]
    have hfull : FirstQuadFull m call.fromBitIndex ↔ m quad &&& call.fromMask = call.fromMask := by
      rw [firstQuadFull_iff, hfirst]
    have hsame : (quad = call.fromBitIndex / 64) = True := eq_true hfirst
    have hset := (masked_eq_iff call (m quad)).1
    rw [if_pos hfirst, hle, hsame, true_and, hfull]
    generalize m quad = val at hset
    by_cases hv : val &&& call.fromMask = call.fromMask
    · -- a full first quad has no candidates
      have hbit := hset hv sigi hlt
      cases call.op
      · simpa [hv, MapOp.wanted] using hbit
      · simp [hv]
    · cases call.op
      · simp [hv, hlt, MapOp.wanted]
        grind
      · by_cases hzero : val &&& call.fromMask = 0#64
        · have hbit := congrArg (fun x : BitVec 64 => x.getLsbD sigi) hzero
          simp only [BitVec.getLsbD_and, hmask, BitVec.getLsbD_zero] at hbit
          simp [hzero, MapOp.wanted]
          grind
        · simp [hv, hzero, hmask, MapOp.wanted]
          grind
  · have hle : call.fromBitIndex ≤ sigi + 64 * quad := by omega
    have hne : quad ≠ call.fromBitIndex / 64 := hfirst
    rw [if_neg hfirst]
    cases call.op
    · simp [hle, hlt, MapOp.wanted]
    · simp [hle, hne, MapOp.wanted]

/-- **After the load of a quad**: the least bit the call takes in the quad is claimed if its index
is in the range, and the next quad is loaded if there is no such bit. -/
lemma afterLoad_cases {quad : ℕ} (hquad : call.fromQuad ≤ quad) :
    (∃ sigi < 64, call.Takes m (sigi + 64 * quad) ∧
      (∀ j < sigi + 64 * quad, j / 64 = quad → ¬ call.Takes m j) ∧
      call.afterLoad size quad (m quad) =
        if desi quad sigi ≥ call.toBitIndex then .ret none else .claim quad sigi) ∨
    ((∀ j, j / 64 = quad → ¬ call.Takes m j) ∧ call.afterLoad size quad (m quad) =
      if quad + 1 < size then .load (quad + 1) else .ret none) := by
  have htakes : ∀ j, j / 64 = quad →
      (call.Takes m j ↔ (call.candidates quad (m quad)).getLsbD (j % 64) = true) := by
    intro j hj
    rw [getLsbD_candidates hquad (Nat.mod_lt _ (by decide)), ← hj, Nat.mod_add_div]
  by_cases hzero : call.candidates quad (m quad) = 0#64
  · right
    refine ⟨fun j hj => ?_, ?_⟩
    · rw [htakes j hj, hzero, BitVec.getLsbD_zero]
      exact Bool.false_ne_true
    · rw [afterLoad]
      simp only [hzero, BitVec.ofNat_eq_ofNat, ne_eq, not_true_eq_false, if_false]
  · left
    have hlt := ctz_lt hzero
    obtain ⟨hset, hleast⟩ := (ctz_eq_iff hzero).1 rfl
    refine ⟨(call.candidates quad (m quad)).ctz.toNat, hlt,
      (getLsbD_candidates hquad hlt).1 hset, fun j hj hjquad => ?_, ?_⟩
    · rw [htakes j hjquad, hleast _ (by omega)]
      exact Bool.false_ne_true
    · rw [afterLoad]
      simp only [BitVec.ofNat_eq_ofNat, ne_eq, hzero, not_false_eq_true, if_true]

/-- The bit that a call goes on to claim is in its range, and one it takes. -/
lemma claim_of_afterLoad {quad quad' sigi : ℕ} (hquad : call.fromQuad ≤ quad)
    (hsize : 64 * (quad + 1) ≤ 2 ^ 32)
    (h : call.afterLoad size quad (m quad) = .claim quad' sigi) :
    sigi < 64 ∧ sigi + 64 * quad' < call.toBitIndex ∧ call.Takes m (sigi + 64 * quad') := by
  rcases @afterLoad_cases call size m quad hquad with ⟨sigi', hlt, htakes, -, hafter⟩ | ⟨-, hafter⟩
  · rw [h, desi_of_lt (by omega)] at hafter
    split at hafter
    · cases hafter
    · rename_i hto
      cases hafter
      exact ⟨hlt, Nat.lt_of_not_ge hto, htakes⟩
  · rw [h] at hafter
    split at hafter
    · cases hafter
    · cases hafter

/-- A call does not return an index without claiming it. -/
lemma afterLoad_ne_ret {quad i : ℕ} {val : BitVec 64} :
    call.afterLoad size quad val ≠ .ret (some i) := by
  rw [MapCall.afterLoad]
  simp only
  split
  · split <;> nofun
  · split <;> nofun

/-- After the load of a quad a call goes on to the next quad or to a claim in this one, or ends
without an index. -/
lemma afterLoad_forms (call : MapCall) (size quad : ℕ) (val : BitVec 64) :
    (call.afterLoad size quad val = .load (quad + 1) ∧ quad + 1 < size) ∨
      (∃ sigi < 64, call.afterLoad size quad val = .claim quad sigi) ∨
      call.afterLoad size quad val = .ret none := by
  rw [afterLoad]
  by_cases hzero : call.candidates quad val = 0#64
  · simp only [hzero, BitVec.ofNat_eq_ofNat, ne_eq, not_true_eq_false, if_false]
    split
    · rename_i hnext
      exact Or.inl ⟨rfl, hnext⟩
    · exact Or.inr (Or.inr rfl)
  · simp only [BitVec.ofNat_eq_ofNat, ne_eq, hzero, not_false_eq_true, if_true]
    split
    · exact Or.inr (Or.inr rfl)
    · exact Or.inr (Or.inl ⟨_, ctz_lt hzero, rfl⟩)

/-- A call does not start with a claim, nor has it found anything. -/
lemma start_cases (call : MapCall) (size : ℕ) :
    call.start size = .ret none ∨ call.start size = .load call.fromQuad := by
  rw [start]
  split
  · exact Or.inl rfl
  · exact Or.inr rfl

lemma inMap_start (call : MapCall) (size : ℕ) : (call.start size).InMap size := by
  rw [start]
  split
  · trivial
  · rename_i hlt
    exact Nat.lt_of_not_ge hlt

lemma inMap_afterLoad {quad : ℕ} (hquad : quad < size) (val : BitVec 64) :
    (call.afterLoad size quad val).InMap size := by
  rcases call.afterLoad_forms size quad val with ⟨h, hnext⟩ | ⟨sigi, hsigi, h⟩ | h
  · rw [h]
    exact hnext
  · rw [h]
    exact ⟨hquad, hsigi⟩
  · rw [h]
    trivial

/-- A call stays in the map. -/
lemma inMap_step {pc : MapPc} (h : pc.InMap size) : (call.step size m pc).2.InMap size := by
  cases pc with
  | load quad => exact inMap_afterLoad h _
  | claim quad sigi => trivial
  | ret index => trivial

/-- What a call that runs alone does: it claims the first bit it takes, if that is in the map and
its index is in the range. -/
def AloneSpec (call : MapCall) (size : ℕ) (m : SyncMap) : SyncMap × Option ℕ → Prop
  | (m', some index) => ∃ i, call.TakesFirst m i ∧ i / 64 < size ∧ i % 2 ^ 32 < call.toBitIndex ∧
      index = i % 2 ^ 32 ∧ m' = call.op.apply m i
  | (m', none) => m' = m ∧
      ∀ i, call.TakesFirst m i → i / 64 < size → call.toBitIndex ≤ i % 2 ^ 32

/-- The scan from a quad on, by induction on the quads left. -/
lemma iterate_load {quad n : ℕ} (hn : size = quad + n + 1) (hquad : call.fromQuad ≤ quad)
    (hbefore : ∀ j, j / 64 < quad → ¬ call.Takes m j) {k : ℕ} (hk : n + 2 ≤ k) :
    ∃ m' r, (fun s : SyncMap × MapPc => call.step size s.1 s.2)^[k] (m, .load quad) =
      (m', .ret r) ∧ AloneSpec call size m (m', r) := by
  have hret : ∀ k m' r, (fun s : SyncMap × MapPc => call.step size s.1 s.2)^[k] (m', .ret r) =
      (m', .ret r) := fun k m' r => Function.iterate_fixed rfl k
  induction n using Nat.strong_induction_on generalizing quad k with
  | _ n ih =>
    obtain ⟨k, rfl⟩ : ∃ k', k = k' + 2 := ⟨k - 2, by omega⟩
    rw [Function.iterate_succ_apply]
    rcases afterLoad_cases (m := m) hquad with
      ⟨sigi, hlt, htakes, hleast, hpc⟩ | ⟨hnone, hpc⟩
    · have hfirst : call.TakesFirst m (sigi + 64 * quad) := by
        refine ⟨htakes, fun j hj => ?_⟩
        rcases Nat.lt_or_ge (j / 64) quad with hjq | hjq
        · exact hbefore j hjq
        · exact hleast j hj (by omega)
      by_cases hto : desi quad sigi ≥ call.toBitIndex
      · rw [if_pos hto] at hpc
        refine ⟨m, none, ?_, rfl, fun i hi _ => ?_⟩
        · show (fun s : SyncMap × MapPc => call.step size s.1 s.2)^[k + 1]
            (m, call.afterLoad size quad (m quad)) = _
          rw [hpc, hret]
        · rw [hi.unique hfirst]
          exact hto
      · rw [if_neg hto] at hpc
        refine ⟨_, some (desi quad sigi), ?_, sigi + 64 * quad, hfirst, ?_, Nat.lt_of_not_ge hto,
          rfl, rfl⟩
        · show (fun s : SyncMap × MapPc => call.step size s.1 s.2)^[k + 1]
            (m, call.afterLoad size quad (m quad)) = _
          rw [hpc, Function.iterate_succ_apply, step_claim hlt, hret]
        · rw [quad_eq hlt]
          omega
    · have hbefore' : ∀ j, j / 64 < quad + 1 → ¬ call.Takes m j := by
        intro j hj
        rcases Nat.lt_or_ge (j / 64) quad with hjq | hjq
        · exact hbefore j hjq
        · exact hnone j (by omega)
      by_cases hnext : quad + 1 < size
      · rw [if_pos hnext] at hpc
        obtain ⟨m', r, hrun, hspec⟩ := ih (n - 1) (by omega) (by omega)
          (hquad.trans (Nat.le_succ quad)) hbefore' (k := k + 1) (by omega)
        refine ⟨m', r, ?_, hspec⟩
        rw [← hrun, ← hpc]
        rfl
      · rw [if_neg hnext] at hpc
        refine ⟨m, none, ?_, rfl, fun i hi hsize => ?_⟩
        · show (fun s : SyncMap × MapPc => call.step size s.1 s.2)^[k + 1]
            (m, call.afterLoad size quad (m quad)) = _
          rw [hpc, hret]
        · exact absurd hi.1 (hbefore' i (by omega))

/-- **A call that runs alone.** -/
lemma alone_spec (call : MapCall) (size : ℕ) (m : SyncMap) :
    ∃ m' r, call.alone size m = (m', .ret r) ∧ AloneSpec call size m (m', r) := by
  have hlow : ∀ j, call.Takes m j → call.fromQuad ≤ j / 64 := fun j hj => by
    have hfrom : call.fromQuad = call.fromBitIndex / 64 := rfl
    have hle := hj.1.1
    omega
  by_cases hsize : call.fromQuad ≥ size
  · refine ⟨m, none, ?_, rfl, fun i hi hisize => ?_⟩
    · rw [alone, start, if_pos hsize]
      exact Function.iterate_fixed rfl _
    · have hquad := hlow i hi.1
      omega
  · rw [alone, start, if_neg hsize]
    refine iterate_load (n := size - call.fromQuad - 1) (by omega) le_rfl (fun j hj htakes => ?_)
      (by omega)
    exact absurd (hlow j htakes) (by omega)

end MapCall

/-- **`sync_map_sig_first` and `sync_map_unsig_first` alone.** -/
lemma syncMapFirst_spec (call : MapCall) (smap : SyncMapDesc) :
    ∃ m' r, syncMapFirst call smap = (r, { smap with map := m' }) ∧
      MapCall.AloneSpec call smap.size smap.map (m', r) := by
  obtain ⟨m', r, halone, hspec⟩ := MapCall.alone_spec call smap.size smap.map
  refine ⟨m', r, ?_, hspec⟩
  rw [syncMapFirst, halone]

/-! ## Maps whose indexes do not wrap -/

/-- A map of `sync_map_init`, which takes the size in bits as a `u32`. -/
lemma syncMapInit_size_le {size : ℕ} {smap : SyncMapDesc} (hinit : syncMapInit size = some smap)
    (hsize : size < 2 ^ 32) : 64 * smap.size ≤ 2 ^ 32 := by
  rw [syncMapInit] at hinit
  split at hinit
  · cases hinit
  · obtain rfl := Option.some_injective _ hinit
    dsimp only
    omega

namespace MapCall

/-- What a call that runs alone does to such a map: it claims the least bit it takes, or there is
no such bit in its range. -/
lemma AloneSpec.of_size_le {call : MapCall} {size : ℕ} {m m' : SyncMap} {r : Option ℕ}
    (h : AloneSpec call size m (m', r)) (hsize : 64 * size ≤ 2 ^ 32) :
    match r with
    | some i => call.TakesFirst m i ∧ i < call.toBitIndex ∧ i / 64 < size ∧
        m' = call.op.apply m i
    | none => m' = m ∧ ∀ j, call.Takes m j → j / 64 < size → call.toBitIndex ≤ j := by
  cases r with
  | some index =>
    obtain ⟨i, hfirst, hquad, hto, rfl, rfl⟩ := h
    have hmod : i % 2 ^ 32 = i := Nat.mod_eq_of_lt (by omega)
    rw [hmod] at hto ⊢
    exact ⟨hfirst, hto, hquad, rfl⟩
  | none =>
    obtain ⟨rfl, hnone⟩ := h
    refine ⟨rfl, fun j hj hquad => ?_⟩
    obtain ⟨i, hfirst, hle⟩ := exists_takesFirst hj
    have hto := hnone i hfirst (by omega)
    have hmod := Nat.mod_le i (2 ^ 32)
    omega

end MapCall

end AxVirtLayer
