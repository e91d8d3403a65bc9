import AxVirtLayer.Lib.Refine
import AxVirtLayer.Pipe.Owner

/-!
# What a search of the map has seen

A call of `sync_map_sig_first` or `sync_map_unsig_first` loads one quad after another while the
other calls go on, so there is no one state of the map that it searches.  `search_sound` says what
its result means in spite of that: the bit it returns had the value it looks for at some moment
during the call, and every bit before it had not at some moment, or `sync_map_unsig_first` skipped
it in a first quad that was full.  A bit that has the value all along the call and is never in a
full first quad is not passed over.

No call waits for another: the steps of a call are bounded by the quads of its range.  The map has
at most `2 ^ 26` quads, as every map of `sync_map_init` has.
-/

namespace AxVirtLayer

open Lib

/-! ## The property -/

section

variable (size : ℕ) (map : SyncMap) (ls : List MapStep) (c : ℕ) (call : MapCall)

/-- At some moment since the call `c` was made, the bit was one it looks for. -/
def SeenWanted (i : ℕ) : Prop :=
  Sometime (mapSysStep size) (fun s => (s.calls c).isSome = true ∧ call.Wanted s.map i)
    (.start map) ls

/-- At some moment since the call `c` was made, there was a reason to pass over the bit: it was not
one the call looks for, or its quad was one that `sync_map_unsig_first` skips. -/
def SeenPassed (i : ℕ) : Prop :=
  Sometime (mapSysStep size) (fun s => (s.calls c).isSome = true ∧
    (¬ call.Wanted s.map i ∨ call.Skips s.map i)) (.start map) ls

end

/-- **A search of the map**, in a run with the labels `ls`: it does not wait, it ends after one
step for each quad of its range and one for the claim, the bit it returns is in the range and had
the value it looks for, and every bit before it had not or was skipped; and if it returns none,
then so had or was every bit of the range. -/
structure SearchSound (size : ℕ) (map : SyncMap) (ls : List MapStep) (t : MapSys) : Prop where
  ready : ∀ c call pc, t.calls c = some (call, pc) → (∀ r, pc ≠ .ret r) →
    (mapSysStep size t (.step c)).isSome = true
  steps : ∀ c call pc, t.calls c = some (call, pc) →
    ls.count (.step c) ≤ size - call.fromQuad + 1
  found : ∀ c call i, t.calls c = some (call, .ret (some i)) →
    call.fromBitIndex ≤ i ∧ i < call.toBitIndex ∧ i / 64 < size ∧
      SeenWanted size map ls c call i ∧ ∀ j < i, SeenPassed size map ls c call j
  missed : ∀ c call, t.calls c = some (call, .ret none) →
    ∀ j < call.toBitIndex, j / 64 < size → SeenPassed size map ls c call j

/-! ## The invariant -/

/-- What a call has seen at each of its places, after `n` steps of its own. -/
def MapCall.Seen (call : MapCall) (size n : ℕ) (Wanted Passed : ℕ → Prop) : MapPc → Prop
  | .load quad => call.fromQuad ≤ quad ∧ quad < size ∧ n + call.fromQuad ≤ quad ∧
      ∀ j, j / 64 < quad → Passed j
  | .claim quad sigi => sigi < 64 ∧ call.fromQuad ≤ quad ∧ quad < size ∧
      n + call.fromQuad ≤ quad + 1 ∧ sigi + 64 * quad < call.toBitIndex ∧
      Wanted (sigi + 64 * quad) ∧ ∀ j < sigi + 64 * quad, Passed j
  | .ret (some i) => n ≤ size - call.fromQuad + 1 ∧ call.fromBitIndex ≤ i ∧ i < call.toBitIndex ∧
      i / 64 < size ∧ Wanted i ∧ ∀ j < i, Passed j
  | .ret none => n ≤ size - call.fromQuad + 1 ∧
      ∀ j < call.toBitIndex, j / 64 < size → Passed j

section

variable {size n : ℕ} {map : SyncMap} {ls : List MapStep} {t t' : MapSys} {c : ℕ}
  {call : MapCall} {Wanted Passed Wanted' Passed' : ℕ → Prop} {pc : MapPc}

lemma MapCall.Seen.mono (h : call.Seen size n Wanted Passed pc)
    (hw : ∀ j, Wanted j → Wanted' j) (hu : ∀ j, Passed j → Passed' j) :
    call.Seen size n Wanted' Passed' pc := by
  cases pc with
  | load quad =>
    obtain ⟨hfrom, hquad, hn, hbefore⟩ := h
    exact ⟨hfrom, hquad, hn, fun j hj => hu j (hbefore j hj)⟩
  | claim quad sigi =>
    obtain ⟨hlt, hfrom, hquad, hn, hto, hwanted, hbefore⟩ := h
    exact ⟨hlt, hfrom, hquad, hn, hto, hw _ hwanted, fun j hj => hu j (hbefore j hj)⟩
  | ret index =>
    cases index with
    | none =>
      obtain ⟨hn, hall⟩ := h
      exact ⟨hn, fun j hj hquad => hu j (hall j hj hquad)⟩
    | some i =>
      obtain ⟨hn, hfrom, hto, hquad, hwanted, hbefore⟩ := h
      exact ⟨hn, hfrom, hto, hquad, hw _ hwanted, fun j hj => hu j (hbefore j hj)⟩

/-- A call that is made. -/
lemma MapCall.seen_start (call : MapCall) (size : ℕ)
    (hlow : ∀ j < call.fromBitIndex, Passed j) :
    call.Seen size 0 Wanted Passed (call.start size) := by
  have hfrom : call.fromQuad = call.fromBitIndex / 64 := rfl
  rw [MapCall.start]
  split
  · rename_i hge
    exact ⟨Nat.zero_le _, fun j _ hj => hlow j (by omega)⟩
  · rename_i hlt
    exact ⟨le_rfl, by omega, (Nat.zero_add _).le, fun j hj => hlow j (by omega)⟩

/-- **The load of a quad**: what the call looks for in the quad is seen now. -/
lemma MapCall.Seen.load {m : SyncMap} {quad : ℕ} (hsize : 64 * size ≤ 2 ^ 32)
    (h : call.Seen size n Wanted Passed (.load quad)) (hw : ∀ j, call.Wanted m j → Wanted j)
    (hu : ∀ j, ¬ call.Takes m j → Passed j) :
    call.Seen size (n + 1) Wanted Passed (call.afterLoad size quad (m quad)) := by
  obtain ⟨hfrom, hquad, hn, hbefore⟩ := h
  rcases @MapCall.afterLoad_cases call size m quad hfrom with
    ⟨sigi, hlt, htakes, hleast, hafter⟩ | ⟨hnone, hafter⟩
  · -- the least bit to take in the quad
    have hall : ∀ j < sigi + 64 * quad, Passed j := by
      intro j hj
      rcases Nat.lt_or_ge (j / 64) quad with hjq | hjq
      · exact hbefore j hjq
      · exact hu j (hleast j hj (by omega))
    rw [hafter, desi_of_lt (by omega)]
    split
    · rename_i hto
      exact ⟨by omega, fun j hj _ => hall j (by omega)⟩
    · rename_i hto
      exact ⟨hlt, hfrom, hquad, by omega, by omega, hw _ htakes.1, hall⟩
  · have hall : ∀ j, j / 64 < quad + 1 → Passed j := by
      intro j hj
      rcases Nat.lt_or_ge (j / 64) quad with hjq | hjq
      · exact hbefore j hjq
      · exact hu j (hnone j (by omega))
    rw [hafter]
    split
    · rename_i hnext
      exact ⟨by omega, hnext, by omega, hall⟩
    · rename_i hend
      exact ⟨by omega, fun j _ hj => hall j (by omega)⟩

/-- The claim. -/
lemma MapCall.Seen.claim {quad sigi : ℕ} (h : call.Seen size n Wanted Passed (.claim quad sigi))
    (hfrom : ∀ j, Wanted j → call.fromBitIndex ≤ j) :
    call.Seen size (n + 1) Wanted Passed (.ret (some (sigi + 64 * quad))) := by
  obtain ⟨hlt, hle, hquad, hn, hto, hwanted, hbefore⟩ := h
  exact ⟨by omega, hfrom _ hwanted, hto, by omega, hwanted, hbefore⟩

/-! ## Runs -/

/-- The invariant of a run and its end: the call `c` has seen what its place says. -/
def SearchAt (size : ℕ) (map : SyncMap) (ls : List MapStep) (t : MapSys) (c : ℕ) : Prop :=
  (t.calls c = none → ls.count (.step c) = 0) ∧
    ∀ call pc, t.calls c = some (call, pc) → call.Seen size (ls.count (.step c))
      (SeenWanted size map ls c call) (SeenPassed size map ls c call) pc

/-- What a call has seen it has seen in a longer run. -/
lemma MapCall.Seen.append (h : call.Seen size n (SeenWanted size map ls c call)
      (SeenPassed size map ls c call) pc) (l : MapStep) :
    call.Seen size n (SeenWanted size map (ls ++ [l]) c call)
      (SeenPassed size map (ls ++ [l]) c call) pc :=
  h.mono (fun _ hseen => hseen.append [l]) (fun _ hseen => hseen.append [l])

lemma count_append_of_ne {l : MapStep} (h : l ≠ .step c) :
    (ls ++ [l]).count (.step c) = ls.count (.step c) := by
  rw [List.count_append, List.count_singleton, if_neg (by simpa using h), Nat.add_zero]

lemma count_append_self :
    (ls ++ [MapStep.step c]).count (MapStep.step c) = ls.count (.step c) + 1 := by
  rw [List.count_append, List.count_singleton_self]

/-- A call never looks for a bit before its range. -/
lemma MapCall.not_wanted_of_lt {m : SyncMap} {j : ℕ} (h : j < call.fromBitIndex) :
    ¬ call.Wanted m j := fun hw => absurd hw.1 (by omega)

/-- A bit that a call does not take is one it passes over. -/
lemma MapCall.passed_of_not_takes {m : SyncMap} {j : ℕ} (h : ¬ call.Takes m j) :
    ¬ call.Wanted m j ∨ call.Skips m j := by
  by_cases hwanted : call.Wanted m j
  · right
    by_contra hskips
    exact h ⟨hwanted, hskips⟩
  · exact Or.inl hwanted

lemma SearchAt.of_call (hc : t'.calls c = some (call, pc))
    (h : call.Seen size (ls.count (.step c)) (SeenWanted size map ls c call)
      (SeenPassed size map ls c call) pc) : SearchAt size map ls t' c := by
  rw [SearchAt, hc]
  refine ⟨nofun, fun call' pc' hcall => ?_⟩
  obtain ⟨rfl, rfl⟩ := Prod.mk.inj (Option.some_injective _ hcall)
  exact h

/-- A step of another call, or of none. -/
lemma SearchAt.frame (h : SearchAt size map ls t c) {l : MapStep} (hl : l ≠ .step c)
    (hc : t'.calls c = t.calls c) : SearchAt size map (ls ++ [l]) t' c := by
  rw [SearchAt, hc, count_append_of_ne hl]
  exact ⟨h.1, fun call pc hcall => (h.2 call pc hcall).append l⟩

/-- **One step.** -/
lemma SearchAt.step (hsize : 64 * size ≤ 2 ^ 32) (h : SearchAt size map ls t c) {l : MapStep}
    (ht : runs (mapSysStep size) (.start map) ls = some t) (hs : mapSysStep size t l = some t') :
    SearchAt size map (ls ++ [l]) t' c := by
  have ht' : runs (mapSysStep size) (.start map) (ls ++ [l]) = some t' := by
    rw [runs_concat, ht, Option.bind_some, hs]
  have hnow : ∀ {call pc}, t.calls c = some (call, pc) → (t.calls c).isSome = true :=
    fun hc => by rw [hc]; rfl
  rcases mapSysStep_cases hs with ⟨d, call, rfl, rfl⟩ | ⟨d, call, quad, rfl, hd, rfl⟩ |
    ⟨d, call, quad, sigi, rfl, hd, rfl⟩ | ⟨i, rfl, rfl⟩
  · by_cases hcd : c = d
    · -- the call is made
      subst hcd
      have hnone : t.calls c = none := by
        rw [mapSysStep] at hs
        split at hs
        · cases hs
        · assumption
      have hself : Function.update t.calls c (some (call, call.start size)) c =
          some (call, call.start size) := Function.update_self ..
      have hne : MapStep.call c call ≠ .step c := (by simp)
      refine .of_call hself ?_
      rw [count_append_of_ne hne, h.1 hnone]
      refine call.seen_start size fun j hj =>
        sometime_last ht' ⟨?_, Or.inl (call.not_wanted_of_lt hj)⟩
      exact congrArg Option.isSome hself
    · exact h.frame (by simp) (Function.update_of_ne hcd _ _)
  · by_cases hcd : c = d
    · subst hcd
      have hseen := (h.2 call _ hd).append (.step c)
      refine .of_call (Function.update_self ..) ?_
      rw [count_append_self]
      refine hseen.load hsize (fun j hj => ?_) fun j hj => ?_
      · exact (sometime_last ht ⟨hnow hd, hj⟩).append _
      · exact (sometime_last ht ⟨hnow hd, MapCall.passed_of_not_takes hj⟩).append _
    · exact h.frame (fun heq => hcd (MapStep.step.inj heq).symm) (Function.update_of_ne hcd _ _)
  · by_cases hcd : c = d
    · subst hcd
      have hseen := (h.2 call _ hd).append (.step c)
      obtain ⟨hlt, -, hquad, -⟩ := id hseen
      refine .of_call (Function.update_self ..) ?_
      rw [count_append_self, MapCall.desi_of_lt (by omega)]
      refine hseen.claim fun j hj => ?_
      obtain ⟨_, _, _, _, _, -, hwanted⟩ := hj
      exact hwanted.1
    · exact h.frame (fun heq => hcd (MapStep.step.inj heq).symm) (Function.update_of_ne hcd _ _)
  · exact h.frame (by simp) rfl

lemma searchAt_start (size : ℕ) (map : SyncMap) (c : ℕ) :
    SearchAt size map [] (.start map) c := ⟨fun _ => rfl, nofun⟩

/-- **The searches of a map are sound**, in every interleaving of their atomic operations. -/
theorem search_sound (hsize : 64 * size ≤ 2 ^ 32)
    (ht : runs (mapSysStep size) (.start map) ls = some t) : SearchSound size map ls t := by
  have hinv : ∀ c, SearchAt size map ls t c := by
    refine runs_rec (Q := fun ls t => ∀ c, SearchAt size map ls t c) (searchAt_start size map)
      ?_ ht
    intro ls t l t' hrun hat hs c
    exact (hat c).step hsize hrun hs
  refine ⟨fun c call pc hc hret => ?_, fun c call pc hc => ?_, fun c call i hc => ?_,
    fun c call hc => ?_⟩
  · rw [mapSysStep, MapSys.callStep, hc]
    cases pc with
    | load quad => rfl
    | claim quad sigi => rfl
    | ret r => exact absurd rfl (hret r)
  · have hseen := (hinv c).2 call pc hc
    cases pc with
    | load quad =>
      obtain ⟨-, hquad, hn, -⟩ := hseen
      omega
    | claim quad sigi =>
      obtain ⟨-, -, hquad, hn, -⟩ := hseen
      omega
    | ret index =>
      cases index with
      | none => exact hseen.1
      | some i => exact hseen.1
  · obtain ⟨-, hfrom, hto, hquad, hwanted, hbefore⟩ := (hinv c).2 call _ hc
    exact ⟨hfrom, hto, hquad, hwanted, hbefore⟩
  · exact ((hinv c).2 call _ hc).2

end

/-- Both of the racing searches return a bit that was to take when they loaded it. -/
theorem search_sound_racingCalls :
    ∃ t, runs (mapSysStep 1) (.start fun _ => 0) racingCalls = some t ∧
      SearchSound 1 (fun _ => 0) racingCalls t := by
  have hrun : (runs (mapSysStep 1) (.start fun _ => 0) racingCalls).isSome = true := by
    decide +kernel
  obtain ⟨t, ht⟩ := Option.isSome_iff_exists.1 hrun
  exact ⟨t, ht, search_sound (by decide) ht⟩

end AxVirtLayer
