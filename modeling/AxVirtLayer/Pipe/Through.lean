import AxVirtLayer.Pipe.Queue
import AxVirtLayer.Pipe.Serve

/-!
# From the queue through the vrows

Each vrow of the scheduler, with its thread and with `sched_main` as its loader, takes the steps
of a vrow of its own (`vrowOf_simulation`), so that what holds of the runs of one vrow holds of
every vrow of the scheduler.  With the queue in front this gives the whole way of a payload:
`pipe_servesOnce`.
-/

namespace AxVirtLayer

open Lib

section

variable {β : Type}

/-! ## A vrow of the scheduler -/

/-- The call of `vrow_bank_load` for a vrow that `sched_main` is in. -/
def SchedPc.loaderOf (i : ℕ) : SchedPc β → Option (LoadPc β)
  | .load vrowI _ _ pc => if vrowI = i then some pc else none
  | _ => none

/-- The steps of a vrow that a step of the system takes. -/
def vrowLabels (cfg : SchedConfig β) (i : ℕ) (s : SchedSys β) : SchedStep β → List (VrowStep β)
  | .vrow j => if j = i then [.thread] else []
  | .closeVrow j => if j = i then [.close] else []
  | .sched =>
    match s.pc with
    | .pop vrowI bucketI =>
      if vrowI ≥ cfg.vrowCount ∨ bucketI ≥ s.queue.bucketCount then []
      else if vrowI = i then [.load (s.queue.bucketBase bucketI).payload] else []
    | .load vrowI _ _ _ => if vrowI = i then [.loader] else []
    | _ => []
  | _ => []

/-- The vrow `i` of the scheduler as a system of its own. -/
def VrowOf (i : ℕ) (s : SchedSys β) (v : VrowSys β) : Prop :=
  v.vrow = (s.vrows i).1 ∧ v.pc = (s.vrows i).2 ∧ v.loader = s.pc.loaderOf i

variable {cfg : SchedConfig β} {s s' : SchedSys β} {v : VrowSys β} {i : ℕ}
  {l : SchedStep β}

lemma vrowOf_start (cfg : SchedConfig β) (i : ℕ) :
    VrowOf i (SchedSys.start cfg) (VrowSys.start cfg.zero) := ⟨rfl, rfl, rfl⟩

lemma VrowOf.of_eq (hvrow : s.vrows i = (v.vrow, v.pc)) (hloader : v.loader = s.pc.loaderOf i) :
    VrowOf i s v := by
  rw [VrowOf, hvrow]
  exact ⟨rfl, rfl, hloader⟩

/-- What a step of `sched_main` does to the vrows: it begins a call of `vrow_bank_load`, goes on
with one, or is elsewhere. -/
lemma schedMainStep_vrows (hs : schedMainStep cfg s = some s') :
    (∃ vrowI bucketI, s.pc = .pop vrowI bucketI ∧
        ¬ (vrowI ≥ cfg.vrowCount ∨ bucketI ≥ s.queue.bucketCount) ∧
        s'.vrows = s.vrows ∧ s'.loaded = s.loaded ∧
        s'.pc = .load vrowI bucketI (s.queue.bucketBase bucketI).call
          (.wait (s.queue.bucketBase bucketI).payload)) ∨
      (∃ vrowI bucketI call pc, s.pc = .load vrowI bucketI call pc ∧
        s'.vrows = Function.update s.vrows vrowI
          ((vrowBankLoadStep (s.vrows vrowI).1 0 pc).1, (s.vrows vrowI).2) ∧
        s'.pc = (match (vrowBankLoadStep (s.vrows vrowI).1 0 pc).2 with
          | some pc => .load vrowI bucketI call pc
          | none => .sigoff bucketI) ∧
        s'.loaded = match pc with
          | .store payload => ⟨payload, call⟩ :: s.loaded
          | _ => s.loaded) ∨
      ((∀ l : ℕ, vrowLabels cfg l s .sched = [] ∧ s.pc.loaderOf l = none ∧
          s'.pc.loaderOf l = none) ∧
        (∀ vrowI bucketI call pc, s.pc ≠ .load vrowI bucketI call pc) ∧
        s'.vrows = s.vrows ∧ s'.loaded = s.loaded) := by
  cases hat : s.pc with
  | load vrowI bucketI call pc =>
    simp only [schedMainStep, hat] at hs
    obtain rfl := Option.some_injective _ hs
    exact Or.inr (Or.inl ⟨_, _, _, _, rfl, rfl, rfl, rfl⟩)
  | pop vrowI bucketI =>
    simp only [schedMainStep, hat] at hs
    split_ifs at hs with hcheck
    · obtain rfl := Option.some_injective _ hs
      refine Or.inr (Or.inr ⟨fun l => ⟨?_, rfl, rfl⟩, by simp, rfl, rfl⟩)
      rw [vrowLabels, hat]
      exact if_pos hcheck
    · obtain rfl := Option.some_injective _ hs
      exact Or.inl ⟨_, _, rfl, hcheck, rfl, rfl, rfl⟩
  | sub bucketI =>
    simp only [schedMainStep, hat] at hs
    obtain ⟨p, -, rfl⟩ := Option.map_eq_some_iff.1 hs
    exact Or.inr (Or.inr ⟨fun l => ⟨by rw [vrowLabels, hat], rfl, rfl⟩, by simp, rfl, rfl⟩)
  | sigoff bucketI =>
    simp only [schedMainStep, hat] at hs
    split_ifs at hs
    all_goals
      obtain rfl := Option.some_injective _ hs
      exact Or.inr (Or.inr ⟨fun l => ⟨by rw [vrowLabels, hat], rfl, rfl⟩, by simp, rfl, rfl⟩)
  | closed | presence =>
    simp only [schedMainStep, hat] at hs
    obtain rfl := Option.some_injective _ hs
    refine Or.inr (Or.inr ⟨fun l => ⟨by rw [vrowLabels, hat], rfl, ?_⟩, by simp, rfl, rfl⟩)
    dsimp only
    split <;> rfl
  | vrow mapPc =>
    rcases mapPc with quad | ⟨quad, sigi⟩ | (_ | vrowI)
    all_goals
      simp only [schedMainStep, hat] at hs
      obtain rfl := Option.some_injective _ hs
      exact Or.inr (Or.inr ⟨fun l => ⟨by rw [vrowLabels, hat], rfl, rfl⟩, by simp, rfl, rfl⟩)
  | disp vrowI left =>
    rcases left with _ | ⟨r, left⟩
    · simp only [schedMainStep, hat] at hs
      obtain rfl := Option.some_injective _ hs
      exact Or.inr (Or.inr ⟨fun l => ⟨by rw [vrowLabels, hat], rfl, rfl⟩, by simp, rfl, rfl⟩)
    · simp only [schedMainStep, hat] at hs
      split_ifs at hs
      all_goals
        obtain rfl := Option.some_injective _ hs
        exact Or.inr (Or.inr ⟨fun l => ⟨by rw [vrowLabels, hat], rfl, rfl⟩, by simp, rfl, rfl⟩)
  | unsig vrowI range mapPc =>
    rcases mapPc with quad | ⟨quad, sigi⟩ | (_ | bucketI)
    all_goals
      simp only [schedMainStep, hat] at hs
      obtain rfl := Option.some_injective _ hs
      exact Or.inr (Or.inr ⟨fun l => ⟨by rw [vrowLabels, hat], rfl, rfl⟩, by simp, rfl, rfl⟩)
  | back vrowI | terminate =>
    simp only [schedMainStep, hat] at hs
    obtain rfl := Option.some_injective _ hs
    exact Or.inr (Or.inr ⟨fun l => ⟨by rw [vrowLabels, hat], rfl, rfl⟩, by simp, rfl, rfl⟩)
  | terminated =>
    simp only [schedMainStep, hat] at hs
    cases hs

/-- The steps of the calls of `sched_push` and of `sched_close` touch no vrow. -/
lemma schedStep_push_vrows {l : SchedStep β} (hs : schedStep cfg s l = some s')
    (hl : (∃ c payload prior, l = .push c payload prior) ∨ (∃ c, l = .pushStep c) ∨ l = .close) :
    s'.vrows = s.vrows := by
  rcases hl with ⟨c, payload, prior, rfl⟩ | ⟨c, rfl⟩ | rfl
  · obtain ⟨push, -, -, rfl⟩ := schedStep_push hs
    rfl
  · obtain ⟨push, queue, pc, -, -, rfl⟩ := schedStep_pushStep hs
    rfl
  · obtain rfl := Option.some_injective _ hs
    rfl

/-- A step that does not concern the vrow. -/
lemma VrowOf.quiet (h : VrowOf i s v) (hlabels : vrowLabels cfg i s l = [])
    (hvrow : s'.vrows i = s.vrows i) (hloader : s'.pc.loaderOf i = s.pc.loaderOf i) :
    ∃ v', runs (vrowSysStep cfg.funcs cfg.zero) v (vrowLabels cfg i s l) = some v' ∧
      VrowOf i s' v' := by
  obtain ⟨hv, hpc, hload⟩ := h
  refine ⟨v, by rw [hlabels]; rfl, ?_⟩
  rw [VrowOf, hvrow, hloader]
  exact ⟨hv, hpc, hload⟩

/-- A step of `sched_main`. -/
lemma VrowOf.sched (h : VrowOf i s v) (hs : schedMainStep cfg s = some s') :
    ∃ v', runs (vrowSysStep cfg.funcs cfg.zero) v (vrowLabels cfg i s .sched) = some v' ∧
      VrowOf i s' v' := by
  rcases schedMainStep_vrows hs with ⟨vrowI, bucketI, hat, hcheck, hvrows, -, hpc⟩ |
    ⟨vrowI, bucketI, call, pc, hat, hvrows, hpc, -⟩ | ⟨hquiet, -, hvrows, -⟩
  · -- the call begins
    have hlabels : vrowLabels cfg i s .sched = if vrowI = i then
        [.load (s.queue.bucketBase bucketI).payload] else [] := by
      rw [vrowLabels, hat]
      exact if_neg hcheck
    by_cases hvrowI : vrowI = i
    · obtain ⟨hv, hthread, hloader⟩ := h
      rw [if_pos hvrowI] at hlabels
      rw [hat] at hloader
      refine ⟨{ v with loader := some (.wait (s.queue.bucketBase bucketI).payload) }, ?_, ?_⟩
      · rw [hlabels, runs_cons]
        simp only [vrowSysStep]
        rw [show v.loader = none from hloader]
        rfl
      · refine ⟨by rw [hvrows]; exact hv, by rw [hvrows]; exact hthread, ?_⟩
        rw [hpc]
        exact (if_pos hvrowI).symm
    · rw [if_neg hvrowI] at hlabels
      refine h.quiet hlabels (by rw [hvrows]) ?_
      rw [hpc, hat]
      exact if_neg hvrowI
  · -- the call goes on
    have hlabels : vrowLabels cfg i s .sched = if vrowI = i then [.loader] else [] := by
      rw [vrowLabels, hat]
    by_cases hvrowI : vrowI = i
    · subst hvrowI
      obtain ⟨hv, hthread, hloader⟩ := h
      rw [if_pos rfl] at hlabels
      rw [hat] at hloader
      have hcall : v.loader = some pc := hloader.trans (if_pos rfl)
      refine ⟨⟨(vrowBankLoadStep v.vrow 0 pc).1, v.pc, (vrowBankLoadStep v.vrow 0 pc).2,
        if (vrowBankLoadStep v.vrow 0 pc).2.isNone then Function.update v.moved 0 true
        else v.moved, v.count⟩, ?_, ?_⟩
      · rw [hlabels, runs_cons]
        simp only [vrowSysStep, hcall]
        rfl
      · rw [hv]
        refine VrowOf.of_eq ?_ ?_
        · rw [hvrows, Function.update_self, hthread]
        rw [hpc]
        cases (vrowBankLoadStep (s.vrows vrowI).1 0 pc).2 with
        | none => rfl
        | some pc => exact (if_pos rfl).symm
    · rw [if_neg hvrowI] at hlabels
      refine h.quiet hlabels ?_ ?_
      · rw [hvrows, Function.update_of_ne (Ne.symm hvrowI)]
      · rw [hpc, hat]
        refine Eq.trans ?_ (if_neg hvrowI).symm
        cases (vrowBankLoadStep (s.vrows vrowI).1 0 pc).2 with
        | none => rfl
        | some pc => exact if_neg hvrowI
  · obtain ⟨hlabels, hbefore, hafter⟩ := hquiet i
    exact h.quiet hlabels (by rw [hvrows]) (by rw [hbefore, hafter])

/-- **Each vrow is a system of its own**: the steps of the scheduler that concern the vrow `i`
are those of a vrow with its thread and its loader. -/
lemma vrowOf_simulation (cfg : SchedConfig β) (i : ℕ) :
    Simulation (schedStep cfg) (vrowLabels cfg i) (vrowSysStep cfg.funcs cfg.zero)
      (VrowOf i) where
  step := by
    intro s v l s' h hs
    cases l with
    | sched => exact h.sched hs
    | push c payload prior =>
      obtain ⟨hpc, -⟩ := schedStep_frame hs nofun
      exact h.quiet rfl (by rw [schedStep_push_vrows hs (Or.inl ⟨_, _, _, rfl⟩)]) (by rw [hpc])
    | pushStep c =>
      obtain ⟨hpc, -⟩ := schedStep_frame hs nofun
      exact h.quiet rfl (by rw [schedStep_push_vrows hs (Or.inr (Or.inl ⟨_, rfl⟩))]) (by rw [hpc])
    | close =>
      obtain ⟨hpc, -⟩ := schedStep_frame hs nofun
      exact h.quiet rfl (by rw [schedStep_push_vrows hs (Or.inr (Or.inr rfl))]) (by rw [hpc])
    | vrow j =>
      obtain ⟨-, vrow, signal, pc, hthread, rfl⟩ := schedStep_vrow hs
      by_cases hji : j = i
      · subst hji
        obtain ⟨hv, hpc, hloader⟩ := h
        refine ⟨⟨vrow, pc, v.loader, v.pc.movedAfter v.moved, v.pc.countAfter v.count⟩, ?_, ?_⟩
        · rw [vrowLabels, if_pos rfl, runs_cons, vrowSysStep, hv, hpc, hthread]
          rfl
        · exact VrowOf.of_eq (Function.update_self _ _ _) hloader
      · exact h.quiet (if_neg hji) (Function.update_of_ne (Ne.symm hji) _ _) rfl
    | closeVrow j =>
      obtain ⟨-, rfl⟩ := schedStep_closeVrow hs
      by_cases hji : j = i
      · subst hji
        obtain ⟨hv, hpc, hloader⟩ := h
        refine ⟨{ v with vrow := { v.vrow with closed := true } }, ?_, ?_⟩
        · rw [vrowLabels, if_pos rfl]
          rfl
        · refine VrowOf.of_eq ((Function.update_self _ _ _).trans ?_) hloader
          rw [hv, hpc]
      · exact h.quiet (if_neg hji) (Function.update_of_ne (Ne.symm hji) _ _) rfl

/-! ## What is seen of the pipe -/

/-- The vrow `i` as a system of its own, without a history. -/
def SchedSys.vrowAt (s : SchedSys β) (i : ℕ) : VrowSys β :=
  ⟨(s.vrows i).1, (s.vrows i).2, s.pc.loaderOf i, fun _ => false, 0⟩

/-- What is seen of the vrow `i` at a step. -/
def schedSeen (cfg : SchedConfig β) (i : ℕ) (s : SchedSys β) (l : SchedStep β) :
    List (ServerEvent β β) :=
  (vrowLabels cfg i s l).flatMap (vrowSeen cfg.funcs (s.vrowAt i))

/-- The copy of a payload into bank 0 of a vrow, with the vrow and the call that pushed it. -/
def schedStores (s : SchedSys β) : SchedStep β → List (ℕ × Slot β)
  | .sched =>
    match s.pc with
    | .load vrowI _ call (.store payload) => [(vrowI, ⟨payload, call⟩)]
    | _ => []
  | _ => []

/-- The payloads copied into bank 0 of a vrow in a run, in order. -/
def storedIn (cfg : SchedConfig β) (ls : List (SchedStep β)) (i : ℕ) : List (Slot β) :=
  ((trace (schedStep cfg) schedStores (.start cfg) ls).filter fun store => store.1 = i).map Prod.snd

/-- The payloads that reached the end of bank 2 of a vrow in a run, in order. -/
def passedIn (cfg : SchedConfig β) (ls : List (SchedStep β)) (i : ℕ) : List β :=
  outputs (trace (schedStep cfg) (schedSeen cfg i) (.start cfg) ls)

lemma vrowLabels_cases (cfg : SchedConfig β) (i : ℕ) (s : SchedSys β) (l : SchedStep β) :
    vrowLabels cfg i s l = [] ∨ ∃ label, vrowLabels cfg i s l = [label] := by
  cases l with
  | vrow j | closeVrow j =>
    rw [vrowLabels]
    split
    · exact Or.inr ⟨_, rfl⟩
    · exact Or.inl rfl
  | sched =>
    rw [vrowLabels]
    split
    · split_ifs
      · exact Or.inl rfl
      · exact Or.inr ⟨_, rfl⟩
      · exact Or.inl rfl
    · split
      · exact Or.inr ⟨_, rfl⟩
      · exact Or.inl rfl
    · exact Or.inl rfl
  | push c payload prior => exact Or.inl rfl
  | pushStep c => exact Or.inl rfl
  | close => exact Or.inl rfl

/-- What is seen of a vrow does not depend on the history. -/
lemma VrowOf.seen_eq (h : VrowOf i s v) (funcs : BankFuncs β) (label : VrowStep β) :
    vrowSeen funcs (s.vrowAt i) label = vrowSeen funcs v label := by
  obtain ⟨hv, hpc, hloader⟩ := h
  cases label with
  | thread => rw [vrowSeen, vrowSeen, hv, hpc, SchedSys.vrowAt]
  | loader => rw [vrowSeen, vrowSeen, hloader, SchedSys.vrowAt]
  | load payload => rfl
  | close => rfl

/-- **Each vrow of the scheduler is a server.** -/
lemma schedServes_simulation (cfg : SchedConfig β) (i : ℕ) :
    Simulation (schedStep cfg) (schedSeen cfg i) (serverStep (bankPasses cfg.funcs) 2)
      fun s w => ∃ v, VrowOf i s v ∧ Serves cfg.funcs v w := by
  refine (vrowOf_simulation cfg i).comp (serves_simulation cfg.funcs cfg.zero) ?_
  intro s v l s' h hs
  obtain ⟨v', hrun, -⟩ := (vrowOf_simulation cfg i).step s v l s' h hs
  rw [schedSeen]
  rcases vrowLabels_cases cfg i s l with hlabels | ⟨label, hlabels⟩
  · rw [hlabels]
    rfl
  · rw [hlabels, List.flatMap_singleton, h.seen_eq]
    exact (trace_singleton _ _ _).symm

/-! ## The whole way -/

/-- What a vrow is given is what `sched_main` copies into it. -/
lemma inputs_schedSeen (cfg : SchedConfig β) (i : ℕ) (s : SchedSys β) (l : SchedStep β) :
    (schedSeen cfg i s l).filterMap ServerEvent.input? =
      (schedStores s l).filterMap fun store =>
        if store.1 = i then some store.2.payload else none := by
  have hthread : ∀ v : VrowSys β, (vrowSeen cfg.funcs v .thread).filterMap ServerEvent.input? =
      [] := by
    intro v
    rw [vrowSeen]
    split
    · split <;> rfl
    · split_ifs <;> rfl
    · rfl
  cases l with
  | push c payload prior => rfl
  | pushStep c => rfl
  | close => rfl
  | vrow j =>
    rw [schedSeen, vrowLabels]
    split
    · rw [List.flatMap_singleton]
      exact hthread _
    · rfl
  | closeVrow j =>
    rw [schedSeen, vrowLabels]
    split
    · rfl
    · rfl
  | sched =>
    rw [schedSeen, vrowLabels, schedStores]
    cases hat : s.pc with
    | pop vrowI bucketI =>
      dsimp only
      split_ifs <;> rfl
    | load vrowI bucketI call pc =>
      have hloader : (s.vrowAt i).loader = if vrowI = i then some pc else none := by
        rw [SchedSys.vrowAt, hat]
        rfl
      dsimp only
      by_cases hvrowI : vrowI = i
      · rw [if_pos hvrowI] at hloader
        rw [if_pos hvrowI, List.flatMap_singleton, vrowSeen, hloader]
        cases pc with
        | store payload => simp [ServerEvent.input?, hvrowI]
        | wait payload => rfl
        | fill => rfl
      · rw [if_neg hvrowI]
        cases pc with
        | store payload => simp [hvrowI]
        | wait payload => rfl
        | fill => rfl
    | _ => rfl

lemma filterMap_fst_eq (stores : List (ℕ × Slot β)) (i : ℕ) :
    (stores.filterMap fun store => if store.1 = i then some store.2.payload else none) =
      ((stores.filter fun store => store.1 = i).map Prod.snd).map Slot.payload := by
  induction stores with
  | nil => rfl
  | cons store stores ih =>
    by_cases h : store.1 = i
    · simp [h, ih]
    · simp [h, ih]

/-- The copies of a run are the payloads that were loaded. -/
lemma map_schedStores {ls : List (SchedStep β)} {t : SchedSys β}
    (ht : runs (schedStep cfg) (.start cfg) ls = some t) :
    (trace (schedStep cfg) schedStores (.start cfg) ls).map Prod.snd = t.loaded.reverse := by
  have hseen : t.loaded.reverse = (SchedSys.start cfg).loaded.reverse ++
      trace (schedStep cfg) (fun s l => (schedStores s l).map Prod.snd) (.start cfg) ls := by
    refine trace_eq_of_step (I := fun _ => True) (f := fun s => s.loaded.reverse)
      (fun s l s' _ hs => ⟨trivial, ?_⟩) trivial ht
    by_cases hl : l = .sched
    · subst hl
      rw [schedStores]
      rcases schedMainStep_vrows hs with ⟨vrowI, bucketI, hat, -, -, hloaded, -⟩ |
        ⟨vrowI, bucketI, call, pc, hat, -, -, hloaded⟩ | ⟨-, hpc, -, hloaded⟩
      · rw [hloaded, hat]
        exact (List.append_nil _).symm
      · rw [hloaded, hat]
        cases pc with
        | store payload => exact List.reverse_cons
        | wait payload => exact (List.append_nil _).symm
        | fill => exact (List.append_nil _).symm
      · rw [hloaded]
        split
        · rename_i hat
          exact absurd hat (hpc _ _ _ _)
        · exact (List.append_nil _).symm
    · obtain ⟨-, -, -, hloaded, -⟩ := schedStep_frame hs hl
      rw [hloaded]
      cases l with
      | sched => exact absurd rfl hl
      | _ => exact (List.append_nil _).symm
  rw [← List.filterMap_eq_map, filterMap_trace]
  simp only [List.filterMap_eq_map]
  exact (hseen.trans (List.nil_append _)).symm

/-- In a queue that keeps its payloads no call is copied into a bank twice. -/
lemma SchedSys.QueueKeeps.nodup_calls {t : SchedSys β} (h : t.QueueKeeps) :
    (t.loaded.map Slot.call).Nodup := by
  refine List.nodup_iff_count_le_one.2 fun call => ?_
  rw [List.count, List.countP_map, List.countP_eq_length_filter]
  have hcopies : t.loaded.filter ((fun c => c == call) ∘ Slot.call) = t.copies call := by
    refine List.filter_congr fun slot _ => ?_
    rw [Bool.eq_iff_iff, Function.comp_apply, beq_iff_eq, decide_eq_true_eq]
  rw [hcopies]
  cases hlist : t.copies call with
  | nil => exact Nat.zero_le _
  | cons slot rest =>
    have hmem : slot ∈ t.copies call := by
      rw [hlist]
      exact List.mem_cons_self
    rw [SchedSys.copies, List.mem_filter, decide_eq_true_eq] at hmem
    obtain ⟨hloaded, rfl⟩ := hmem
    rcases h.once slot (h.others slot hloaded) with ⟨-, -, hnone⟩ | ⟨-, -, hnone⟩ | ⟨-, -, hone⟩
    · rw [hlist] at hnone
      cases hnone
    · rw [hlist] at hnone
      cases hnone
    · rw [← hlist, hone]
      exact Nat.le_refl _

/-- **The whole way of a payload.**  In every run whose steps come in order, what reaches the end
of bank 2 of each vrow are the first payloads that `sched_main` copied into it, as it copied them,
in order and each valid, and at most two payloads of the vrow have not come through, unless its
thread leaves; every payload copied into a vrow was pushed by a call that has returned `true`; and
no call's payload is copied twice, neither into one vrow nor into two. -/
theorem pipe_servesOnce {ls : List (SchedStep β)} {t : SchedSys β}
    (hranges : (schedQueue cfg).RangesOk)
    (hordered : AllSteps (schedStep cfg) SchedSys.Ordered (.start cfg) ls)
    (ht : runs (schedStep cfg) (.start cfg) ls = some t) :
    (∀ i, ∃ done rest, storedIn cfg ls i = done ++ rest ∧
        done.map Slot.payload = passedIn cfg ls i ∧
        (∀ slot ∈ done, cfg.funcs.valid slot.payload = true) ∧
        ((t.vrows i).2.leaving = false → rest.length ≤ 2)) ∧
      (∀ i, ∀ slot ∈ storedIn cfg ls i, t.Returned slot) ∧
      ((trace (schedStep cfg) schedStores (.start cfg) ls).map fun store =>
        store.2.call).Nodup := by
  obtain ⟨-, σ, hrel⟩ := queueInv_of_ordered hranges hordered ht
  have hkeeps : t.QueueKeeps := hrel.queueKeeps
  have hstores := map_schedStores ht
  refine ⟨fun i => ?_, fun i slot hslot => ?_, ?_⟩
  · obtain ⟨w, hrun, v, hv, -, hserved⟩ := (schedServes_simulation cfg i).runs
      ⟨_, vrowOf_start cfg i, serves_start cfg.funcs cfg.zero⟩ ht
    obtain ⟨done, hanswers, hfirst, hroom, hdue⟩ := inOrder_of_runs hrun
    have hinputs : inputs (trace (schedStep cfg) (schedSeen cfg i) (.start cfg) ls) =
        (storedIn cfg ls i).map Slot.payload := by
      rw [inputs, filterMap_trace, storedIn, ← filterMap_fst_eq, filterMap_trace]
      congr 1
      funext s l
      exact inputs_schedSeen cfg i s l
    rw [hinputs] at hfirst hdue
    obtain ⟨done', ⟨rest, hrest⟩, rfl⟩ := List.prefix_map_iff.1 hfirst
    obtain ⟨hpassed, hvalid⟩ := eq_of_bankPasses hanswers
    rw [← hpassed] at hvalid
    refine ⟨done', rest, hrest.symm, hpassed,
      fun slot hslot => hvalid _ (List.mem_map_of_mem hslot), fun hstays => ?_⟩
    have hrunning := ((VrowSys.servedBy_iff (hv.2.1 ▸ hstays)).1 hserved).1
    have hlength := congrArg List.length (hdue hrunning)
    rw [← hrest, List.map_append, List.length_append, List.length_append, List.length_map,
      List.length_map] at hlength
    omega
  · refine hkeeps.others slot ?_
    rw [storedIn, List.mem_map] at hslot
    obtain ⟨store, hstore, rfl⟩ := hslot
    rw [← List.mem_reverse, ← hstores]
    exact List.mem_map_of_mem (List.mem_of_mem_filter hstore)
  · have hnodup := List.nodup_reverse.2 hkeeps.nodup_calls
    rw [← List.map_reverse, ← hstores, List.map_map] at hnodup
    exact hnodup

end

theorem pipe_servesOnce_validRun :
    ∃ t, runs (schedStep oneVrowConfig) (.start oneVrowConfig) validRun = some t ∧
      (∀ i, ∃ done rest, storedIn oneVrowConfig validRun i = done ++ rest ∧
          done.map Slot.payload = passedIn oneVrowConfig validRun i ∧
          (∀ slot ∈ done, oneVrowConfig.funcs.valid slot.payload = true) ∧
          ((t.vrows i).2.leaving = false → rest.length ≤ 2)) ∧
        (∀ i, ∀ slot ∈ storedIn oneVrowConfig validRun i, t.Returned slot) ∧
        ((trace (schedStep oneVrowConfig) schedStores (.start oneVrowConfig) validRun).map
          fun store => store.2.call).Nodup := by
  have hrun : (runs (schedStep oneVrowConfig) (.start oneVrowConfig) validRun).isSome = true := by
    decide +kernel
  obtain ⟨t, ht⟩ := Option.isSome_iff_exists.1 hrun
  have hordered : AllSteps (schedStep oneVrowConfig) (fun s l => s.orderedBelow 1 l = true)
      (.start oneVrowConfig) validRun := by
    decide +kernel
  exact ⟨t, ht, pipe_servesOnce rangesOk_oneVrowConfig (SchedSys.ordered_of_run hordered) ht⟩

example : passedIn oneVrowConfig validRun 0 = [true] := by decide +kernel

end AxVirtLayer
