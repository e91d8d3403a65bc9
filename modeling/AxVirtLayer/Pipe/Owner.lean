import AxVirtLayer.Lib.Run
import AxVirtLayer.Pipe.SyncMap

/-!
# One owner for a bit of the map

Any number of calls of `sync_map_sig_first`, `sync_map_unsig_first` and `sync_map_sigoff`
on one map, interleaved by their atomic operations.  The load that finds a bit and the
`fetch_or` that claims it are two steps: `grantedOnce_of_claimsFresh` says that the calls
grant each bit to one owner in every run in which no claim comes too late.

The map has at most `2 ^ 26` quads, as every map of `sync_map_init` has: on a larger one the index
that a call returns may be another than that of the bit it claimed.
-/

namespace AxVirtLayer

open Lib

/-! ## The system -/

/-- What an atomic operation did to the map: the claim of a call, or `sync_map_sigoff`. -/
inductive MapEvent
  | claim (c : ℕ) (op : MapOp) (i : ℕ)
  | sigoff (i : ℕ)
deriving DecidableEq, Repr

/-- The map, the calls by number, and the operations on the map so far, the last one first. -/
structure MapSys where
  map : SyncMap
  calls : ℕ → Option (MapCall × MapPc)
  log : List MapEvent

/-- No call has been made. -/
def MapSys.start (map : SyncMap) : MapSys := ⟨map, fun _ => none, []⟩

/-- The steps: a call is made, a call takes its next atomic operation, or a bit is cleared by
`sync_map_sigoff`. -/
inductive MapStep
  | call (c : ℕ) (call : MapCall)
  | step (c : ℕ)
  | sigoff (i : ℕ)
deriving DecidableEq, Repr

/-- The claim a call is about to make. -/
def MapPc.event (c : ℕ) (op : MapOp) : MapPc → List MapEvent
  | .claim quad sigi => [.claim c op (sigi + 64 * quad)]
  | _ => []

/-- The next atomic operation of the call `c`; a call that has returned takes none. -/
def MapSys.callStep (size : ℕ) (s : MapSys) (c : ℕ) : Option MapSys :=
  match s.calls c with
  | none => none
  | some (_, .ret _) => none
  | some (call, pc) =>
    let (map, pc') := call.step size s.map pc
    some ⟨map, Function.update s.calls c (some (call, pc')), pc.event c call.op ++ s.log⟩

/-- One step of the system on a map of `size` quads. -/
def mapSysStep (size : ℕ) (s : MapSys) : MapStep → Option MapSys
  | .call c call =>
    match s.calls c with
    | some _ => none
    | none => some { s with calls := Function.update s.calls c (some (call, call.start size)) }
  | .step c => s.callStep size c
  | .sigoff i =>
    if syncMapInd2quad i < size then
      some { s with map := syncMapSigoff s.map i, log := .sigoff i :: s.log }
    else none

/-! ## The property -/

/-- The event takes back what a claim of the bit `i` did. -/
def MapEvent.Undoes (op : MapOp) (i : ℕ) : MapEvent → Prop
  | .claim _ op' j => op' ≠ op ∧ j = i
  | .sigoff j => op = .sigFirst ∧ j = i

/-- **One owner for each bit.**  The claim of a call that returned an index is among the
operations so far, and between two claims of a bit by the same function the bit was given
back: cleared between two calls of `sync_map_sig_first`, set between two calls of
`sync_map_unsig_first`. -/
def GrantedOnce (s : MapSys) : Prop :=
  (∀ c call i, s.calls c = some (call, .ret (some i)) → .claim c call.op i ∈ s.log) ∧
    ∀ op i c c' later between before,
      s.log = later ++ .claim c' op i :: (between ++ .claim c op i :: before) →
        ∃ e ∈ between, e.Undoes op i

/-- A claim comes in time: the `fetch_or` of `sync_map_sig_first` finds its bit still clear, and
the `fetch_and` of `sync_map_unsig_first` finds its bit still set. -/
def ClaimsFresh (s : MapSys) : MapStep → Prop
  | .step c =>
    match s.calls c with
    | some (call, .claim quad sigi) =>
      syncMapIssig s.map (sigi + 64 * quad) = decide (call.op = .unsigFirst)
    | _ => True
  | _ => True

instance (s : MapSys) (l : MapStep) : Decidable (ClaimsFresh s l) := by
  unfold ClaimsFresh
  split
  · split <;> infer_instance
  · infer_instance

/-! ## One step -/

/-- The effect of an operation on the map. -/
def MapEvent.apply (m : SyncMap) : MapEvent → SyncMap
  | .claim _ op i => op.apply m i
  | .sigoff i => syncMapSigoff m i

/-- **What a step can do.** -/
lemma mapSysStep_cases {size : ℕ} {s s' : MapSys} {l : MapStep}
    (h : mapSysStep size s l = some s') :
    (∃ c call, l = .call c call ∧
      s' = { s with calls := Function.update s.calls c (some (call, call.start size)) }) ∨
    (∃ c call quad, l = .step c ∧ s.calls c = some (call, .load quad) ∧
      s' = ⟨s.map,
        Function.update s.calls c (some (call, call.afterLoad size quad (s.map quad))),
        s.log⟩) ∨
    (∃ c call quad sigi, l = .step c ∧ s.calls c = some (call, .claim quad sigi) ∧
      s' = ⟨(call.step size s.map (.claim quad sigi)).1, Function.update s.calls c
        (some (call, .ret (some (MapCall.desi quad sigi)))),
        .claim c call.op (sigi + 64 * quad) :: s.log⟩) ∨
    (∃ i, l = .sigoff i ∧
      s' = { s with map := syncMapSigoff s.map i, log := .sigoff i :: s.log }) := by
  cases l with
  | call c call =>
    left
    simp only [mapSysStep] at h
    split at h
    · cases h
    · exact ⟨c, call, rfl, (Option.some_injective _ h).symm⟩
  | step c =>
    right
    simp only [mapSysStep, MapSys.callStep] at h
    split at h
    · cases h
    · cases h
    · rename_i call pc hnot hc
      cases pc with
      | load quad => exact Or.inl ⟨c, call, quad, rfl, hc, (Option.some_injective _ h).symm⟩
      | claim quad sigi =>
        exact Or.inr (Or.inl ⟨c, call, quad, sigi, rfl, hc, (Option.some_injective _ h).symm⟩)
      | ret index => exact (hnot index rfl).elim
  | sigoff i =>
    right; right; right
    simp only [mapSysStep] at h
    split at h
    · exact ⟨i, rfl, (Option.some_injective _ h).symm⟩
    · cases h

/-- A claimed bit stays as its last claim left it until it is given back. -/
def Held (map : SyncMap) (log : List MapEvent) : Prop :=
  ∀ op i c later before, log = later ++ .claim c op i :: before →
    (∀ e ∈ later, ¬ e.Undoes op i) → syncMapIssig map i = decide (op = .sigFirst)

/-- Between two claims of a bit by the same function there is an event that undoes the first. -/
def Spaced (log : List MapEvent) : Prop :=
  ∀ op i c c' later between before,
    log = later ++ .claim c' op i :: (between ++ .claim c op i :: before) →
      ∃ e ∈ between, e.Undoes op i

/-- A claimed bit is as the claim left it. -/
lemma issig_apply_self (op : MapOp) (m : SyncMap) (i : ℕ) :
    syncMapIssig (op.apply m i) i = decide (op = .sigFirst) := by
  cases op
  · simp [MapOp.apply]
  · simp [MapOp.apply]

/-- An operation that does not take a claim back keeps what the claim did. -/
lemma issig_apply_of_not_undoes {op : MapOp} {i : ℕ} {e : MapEvent} (h : ¬ e.Undoes op i)
    {m : SyncMap} (hm : syncMapIssig m i = decide (op = .sigFirst)) :
    syncMapIssig (e.apply m) i = decide (op = .sigFirst) := by
  cases e with
  | claim c op' j =>
    by_cases hj : j = i
    · have hop : op' = op := by
        by_contra hne
        exact h ⟨hne, hj⟩
      rw [MapEvent.apply, hj, hop, issig_apply_self]
    · cases op'
      · simp [MapEvent.apply, MapOp.apply, hm, Ne.symm hj]
      · simp [MapEvent.apply, MapOp.apply, hm, Ne.symm hj]
  | sigoff j =>
    by_cases hj : j = i
    · have hop : op ≠ .sigFirst := fun hop => h ⟨hop, hj⟩
      simp [MapEvent.apply, hj, hop]
    · simp [MapEvent.apply, hm, Ne.symm hj]

/-- What holds of the log holds after one more operation. -/
lemma Held.cons {map : SyncMap} {log : List MapEvent} (h : Held map log) (e : MapEvent) :
    Held (e.apply map) (e :: log) := by
  intro op i c later before hlog hnot
  cases later with
  | nil =>
    obtain ⟨rfl, -⟩ := List.cons_eq_cons.1 hlog
    exact issig_apply_self op map i
  | cons e' later =>
    obtain ⟨rfl, hrest⟩ := List.cons_eq_cons.1 hlog
    have hbit := h op i c later before hrest fun e he => hnot e (List.mem_cons_of_mem _ he)
    exact issig_apply_of_not_undoes (hnot e List.mem_cons_self) hbit

/-- A claim that comes in time keeps the claims apart. -/
lemma Spaced.cons {map : SyncMap} {log : List MapEvent} (h : Spaced log) (hheld : Held map log)
    {e : MapEvent} (hfresh : ∀ c op i, e = .claim c op i →
      syncMapIssig map i = decide (op = .unsigFirst)) : Spaced (e :: log) := by
  intro op i c c' later between before hlog
  cases later with
  | nil =>
    obtain ⟨rfl, hrest⟩ := List.cons_eq_cons.1 hlog
    by_contra hnone
    push Not at hnone
    -- without an undoing event the bit is still as the first claim left it
    have hbit := hheld op i c between before hrest hnone
    rw [hfresh c' op i rfl] at hbit
    revert hbit
    cases op <;> decide
  | cons e' later =>
    exact h op i c c' later between before (List.cons_eq_cons.1 hlog).2

/-- The invariant of the runs in which every claim comes in time. -/
structure MapSys.Inv (size : ℕ) (s : MapSys) : Prop where
  inMap : ∀ c call pc, s.calls c = some (call, pc) → pc.InMap size
  returned : ∀ c call i, s.calls c = some (call, .ret (some i)) → .claim c call.op i ∈ s.log
  held : Held s.map s.log
  spaced : Spaced s.log

lemma MapSys.inv_start (size : ℕ) (map : SyncMap) : (MapSys.start map).Inv size where
  inMap := nofun
  returned := nofun
  held := by
    intro op i c later before hlog
    simp [MapSys.start] at hlog
  spaced := by
    intro op i c c' later between before hlog
    simp [MapSys.start] at hlog

/-- The calls other than the one that moves. -/
lemma update_calls {calls : ℕ → Option (MapCall × MapPc)} {c c' : ℕ} {new : MapCall × MapPc}
    {call : MapCall} {pc : MapPc} (h : Function.update calls c (some new) c' = some (call, pc)) :
    (c' = c ∧ new = (call, pc)) ∨ calls c' = some (call, pc) := by
  by_cases hc : c' = c
  · subst hc
    rw [Function.update_self] at h
    exact Or.inl ⟨rfl, Option.some_injective _ h⟩
  · rw [Function.update_of_ne hc] at h
    exact Or.inr h

/-- **One step.** -/
lemma MapSys.Inv.step {size : ℕ} (hsize : 64 * size ≤ 2 ^ 32) {s s' : MapSys} {l : MapStep}
    (h : s.Inv size) (hfresh : ClaimsFresh s l) (hs : mapSysStep size s l = some s') :
    s'.Inv size := by
  rcases mapSysStep_cases hs with ⟨c, call, rfl, rfl⟩ | ⟨c, call, quad, rfl, hc, rfl⟩ |
    ⟨c, call, quad, sigi, rfl, hc, rfl⟩ | ⟨i, rfl, rfl⟩
  · refine ⟨fun c' call' pc h' => ?_, fun c' call' i h' => ?_, h.held, h.spaced⟩
    · rcases update_calls h' with ⟨-, hnew⟩ | hold
      · obtain ⟨-, rfl⟩ := Prod.mk.inj hnew
        exact call.inMap_start size
      · exact h.inMap c' call' pc hold
    · rcases update_calls h' with ⟨-, hnew⟩ | hold
      · obtain ⟨-, hpc⟩ := Prod.ext_iff.1 hnew
        rw [MapCall.start] at hpc
        split at hpc <;> cases hpc
      · exact h.returned c' call' i hold
  · refine ⟨fun c' call' pc h' => ?_, fun c' call' i h' => ?_, h.held, h.spaced⟩
    · rcases update_calls h' with ⟨-, hnew⟩ | hold
      · obtain ⟨-, rfl⟩ := Prod.mk.inj hnew
        exact MapCall.inMap_afterLoad (h.inMap c call _ hc) _
      · exact h.inMap c' call' pc hold
    · rcases update_calls h' with ⟨-, hnew⟩ | hold
      · exact absurd (Prod.ext_iff.1 hnew).2 MapCall.afterLoad_ne_ret
      · exact h.returned c' call' i hold
  · obtain ⟨hquad, hsigi⟩ := h.inMap c call _ hc
    have hstep : (call.step size s.map (.claim quad sigi)).1 =
        (MapEvent.claim c call.op (sigi + 64 * quad)).apply s.map := by
      rw [MapCall.step_claim hsigi]
      rfl
    -- the index returned is that of the bit claimed
    have hdesi : MapCall.desi quad sigi = sigi + 64 * quad := MapCall.desi_of_lt (by omega)
    have hlate : syncMapIssig s.map (sigi + 64 * quad) = decide (call.op = .unsigFirst) := by
      simpa only [ClaimsFresh, hc] using hfresh
    rw [hstep, hdesi]
    refine ⟨fun c' call' pc h' => ?_, fun c' call' i h' => ?_, h.held.cons _,
      h.spaced.cons h.held ?_⟩
    · rcases update_calls h' with ⟨-, hnew⟩ | hold
      · obtain ⟨-, rfl⟩ := Prod.mk.inj hnew
        trivial
      · exact h.inMap c' call' pc hold
    · rcases update_calls h' with ⟨rfl, hnew⟩ | hold
      · cases hnew
        exact List.mem_cons_self
      · exact List.mem_cons_of_mem _ (h.returned c' call' i hold)
    · intro c' op i heq
      cases heq
      exact hlate
  · refine ⟨h.inMap, fun c call i hc => List.mem_cons_of_mem _ (h.returned c call i hc),
      h.held.cons (.sigoff i), h.spaced.cons h.held ?_⟩
    intro c' op i' heq
    cases heq

/-- **One owner for each bit**, in every run in which every claim comes in time. -/
theorem grantedOnce_of_claimsFresh {size : ℕ} (hsize : 64 * size ≤ 2 ^ 32) {map : SyncMap}
    {ls : List MapStep} {t : MapSys} (ht : runs (mapSysStep size) (.start map) ls = some t)
    (hfresh : AllSteps (mapSysStep size) ClaimsFresh (.start map) ls) : GrantedOnce t := by
  have hinv : t.Inv size := inv_of_allSteps (fun s l s' h hC hs => h.step hsize hC hs)
    (MapSys.inv_start size map) hfresh ht
  exact ⟨hinv.returned, hinv.spaced⟩

/-- Two calls one after the other, with the bit given back between them. -/
def calmCalls : List MapStep :=
  [.call 0 ⟨.sigFirst, 0, 64⟩, .step 0, .step 0, .sigoff 0, .call 1 ⟨.sigFirst, 0, 64⟩, .step 1,
    .step 1]

theorem grantedOnce_of_claimsFresh_calmCalls :
    ∃ t, runs (mapSysStep 1) (.start fun _ => 0) calmCalls = some t ∧ GrantedOnce t := by
  have hrun : (runs (mapSysStep 1) (.start fun _ => 0) calmCalls).isSome = true := by
    decide +kernel
  obtain ⟨t, ht⟩ := Option.isSome_iff_exists.1 hrun
  exact ⟨t, ht, grantedOnce_of_claimsFresh (by decide) ht (by decide +kernel)⟩

/-- Two calls that load the same word before either of them claims a bit. -/
def racingCalls : List MapStep :=
  [.call 0 ⟨.sigFirst, 0, 64⟩, .call 1 ⟨.sigFirst, 0, 64⟩, .step 0, .step 1, .step 0, .step 1]

/-- Both of the racing calls return the bit 0. -/
theorem racingCalls_not_grantedOnce : ¬ ∀ size map ls t,
    runs (mapSysStep size) (.start map) ls = some t → GrantedOnce t := by
  intro h
  have hrun : (runs (mapSysStep 1) (.start fun _ => 0) racingCalls).map MapSys.log =
      some [.claim 1 .sigFirst 0, .claim 0 .sigFirst 0] := by
    decide +kernel
  obtain ⟨t, ht, hlog⟩ := Option.map_eq_some_iff.1 hrun
  obtain ⟨e, he, -⟩ := (h 1 _ _ t ht).2 .sigFirst 0 0 1 [] [] [] hlog
  cases he

end AxVirtLayer
