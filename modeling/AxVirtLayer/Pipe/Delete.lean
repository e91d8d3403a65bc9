import AxVirtLayer.Pipe.Create
import AxVirtLayer.Pipe.Through

/-!
# The life of a scheduler

A scheduler is created, given payloads and deleted, while `sched_main` and the threads of the
vrows run.  `life_memorySafe` says that none of these threads gets at memory that `sched_delete`
has freed, and that it frees everything: the flags of a vrow, wrong as they are, are not empty
before its thread has exited, and `sched_main` has terminated before the first vrow is closed.

Calls of `sched_push` begin between the return of `sched_create` and the call of `sched_delete`,
which does not wait for them: one that is under way then goes on, into a queue that is freed.  So
the theorem asks that they have returned.
-/

namespace AxVirtLayer

open Lib

section

variable {β : Type}

/-- The steps: of the creation and the deletion, of the threads, and of the calls of
`sched_push`. -/
inductive LifeStep (β : Type)
  | life (l : CreateStep)
  | push (c : ℕ) (payload : β) (prior : MtePrior)
  | pushStep (c : ℕ)
deriving DecidableEq, Repr

/-- One step in the life of a scheduler whose creation does not fail.  A call of `sched_push`
goes on whatever becomes of the scheduler. -/
def lifeStep (cfg : SchedConfig β) (s : CreateSys β) : LifeStep β → Option (CreateSys β)
  | .life l => createStep cfg none s l
  | .push c payload prior =>
    if s.pc = .created then
      (schedStep cfg s.sched (.push c payload prior)).map fun sched => { s with sched := sched }
    else none
  | .pushStep c =>
    (schedStep cfg s.sched (.pushStep c)).map fun sched => { s with sched := sched }

/-! ## The property -/

/-- `vrow_delete` has freed the vrow: it was closed, and its wait is over. -/
def CreateSys.Freed (s : CreateSys β) (i : ℕ) : Prop := i ∈ s.deleted ∧ s.pc ≠ .vrowWait i

/-- The array of the vrows, the queue, the map of the vrows and the context are allocated. -/
def CreateSys.Allocated (s : CreateSys β) : Prop :=
  s.base = true ∧ s.queue = true ∧ s.smap = true ∧ s.context = true

/-- Nothing is allocated. -/
def CreateSys.Released (s : CreateSys β) : Prop :=
  s.base = false ∧ s.queue = false ∧ s.smap = false ∧ s.context = false

/-- **The threads use allocated memory**: when `sched_main` has an operation left, everything it
uses is allocated and no vrow is freed; when the thread of a vrow has one left, its vrow is not
freed and the map in which it signals is allocated; when a call of `sched_push` has one left, the
context and the queue are allocated.  Each vrow is deleted once, and at the return each vrow that
was created is, and nothing else is left allocated. -/
structure MemorySafe (cfg : SchedConfig β) (s : CreateSys β) : Prop where
  main : (createStep cfg none s .main).isSome = true → s.Allocated ∧ ∀ i, ¬ s.Freed i
  vrow : ∀ i, (createStep cfg none s (.vrow i)).isSome = true → s.smap = true ∧ ¬ s.Freed i
  push : ∀ c, (lifeStep cfg s (.pushStep c)).isSome = true → s.context = true ∧ s.queue = true
  once : s.deleted.Nodup
  released : s.pc = .returned → s.Released ∧ ∀ i, i ∈ s.deleted ↔ i < s.created

/-- Every call of `sched_push` has returned. -/
def SchedSys.PushesReturned (s : SchedSys β) : Prop :=
  ∀ c push, s.pushes c = some push → ∃ succ, push.pc = .done succ

/-- `sched_delete` is called when every call of `sched_push` has returned. -/
def DeletesQuiet (s : CreateSys β) (l : LifeStep β) : Prop :=
  l = .life .delete → s.sched.PushesReturned

/-! ## The invariant -/

/-- The threads of the first `n` vrows have exited. -/
def CreateSys.Exited (s : CreateSys β) (n : ℕ) : Prop := ∀ j < n, (s.sched.vrows j).2 = .exited

/-- After the wait of the last `vrow_delete`. -/
structure CreateSys.Over (cfg : SchedConfig β) (s : CreateSys β) : Prop where
  created : s.created = cfg.vrowCount
  terminated : s.sched.pc = .terminated
  nodup : s.deleted.Nodup
  mem_deleted : ∀ j, j ∈ s.deleted ↔ j < cfg.vrowCount
  exited : s.Exited cfg.vrowCount

/-- What holds at each place of the creation and the deletion. -/
def CreateSys.Stage (cfg : SchedConfig β) (s : CreateSys β) : Prop :=
  match s.pc with
  | .check => s.started = false ∧ s.created = 0 ∧ s.deleted = [] ∧ s.Released
  | .syncMapInit => s.started = false ∧ s.created = 0 ∧ s.deleted = [] ∧
      s.base = true ∧ s.context = true
  | .vrowCreate k => s.started = false ∧ s.created = k ∧ s.deleted = [] ∧
      s.base = true ∧ s.context = true ∧ s.smap = true ∧ k ≤ cfg.vrowCount
  | .bitpoolCreate => s.started = false ∧ s.created = cfg.vrowCount ∧ s.deleted = [] ∧
      s.base = true ∧ s.context = true ∧ s.smap = true
  | .pthreadCreate => s.started = false ∧ s.created = cfg.vrowCount ∧ s.deleted = [] ∧
      s.Allocated
  | .created | .close | .wait => s.Allocated ∧ s.created = cfg.vrowCount ∧ s.deleted = [] ∧
      s.started = true
  | .vrowDelete i => s.Allocated ∧ s.created = cfg.vrowCount ∧ s.sched.pc = .terminated ∧
      s.deleted.Nodup ∧ (∀ j, j ∈ s.deleted ↔ j < i) ∧ s.Exited i ∧ i ≤ cfg.vrowCount
  | .vrowWait i => s.Allocated ∧ s.created = cfg.vrowCount ∧ s.sched.pc = .terminated ∧
      s.deleted.Nodup ∧ (∀ j, j ∈ s.deleted ↔ j < i + 1) ∧ s.Exited i ∧ i < cfg.vrowCount
  | .freeBase => s.Over cfg
  | .bitpoolDelete => s.Over cfg ∧ s.base = false
  | .syncMapDisp => s.Over cfg ∧ s.base = false ∧ s.queue = false
  | .free => s.Over cfg ∧ s.base = false ∧ s.queue = false ∧ s.smap = false
  | .returned => s.Released ∧
      (s.started = false ∧ s.created = 0 ∧ s.deleted = [] ∨ s.Over cfg)

/-- The invariant: the flags of each vrow are not empty too early, and the place of the creation
and the deletion tells what there is. -/
structure CreateSys.LifeInv (cfg : SchedConfig β) (s : CreateSys β) : Prop where
  vrow : ∀ i, ∃ v, VrowOf i s.sched v ∧ v.Guarded
  stage : s.Stage cfg

variable {cfg : SchedConfig β} {s s' : CreateSys β}

lemma CreateSys.lifeInv_start (cfg : SchedConfig β) : (CreateSys.start cfg).LifeInv cfg where
  vrow i := ⟨_, vrowOf_start cfg i, VrowSys.guarded_start cfg.zero⟩
  stage := ⟨rfl, rfl, rfl, rfl, rfl, rfl, rfl⟩

/-- The invariant of a vrow is kept by every step of the scheduler. -/
lemma guarded_of_schedStep {u u' : SchedSys β} {l : SchedStep β}
    (h : ∀ i, ∃ v, VrowOf i u v ∧ v.Guarded) (hs : schedStep cfg u l = some u') :
    ∀ i, ∃ v, VrowOf i u' v ∧ v.Guarded := by
  intro i
  obtain ⟨v, hv, hguarded⟩ := h i
  obtain ⟨v', hrun, hv'⟩ := (vrowOf_simulation cfg i).step u v l u' hv hs
  exact ⟨v', hv', inv_of_runs (fun s l s' h hs => h.step hs) hguarded hrun⟩

/-- A vrow with empty flags has an exited thread. -/
lemma CreateSys.LifeInv.exited (h : s.LifeInv cfg) {i : ℕ}
    (hempty : (s.sched.vrows i).1.states = vrowStateEmpty) : (s.sched.vrows i).2 = .exited := by
  obtain ⟨v, ⟨hv, hpc, -⟩, hguarded⟩ := h.vrow i
  rw [← hpc]
  by_contra hne
  exact hguarded.states hne (by rw [hv, hempty])

/-- A step of the threads leaves the place of the creation and the deletion. -/
lemma CreateSys.Stage.sched (h : s.Stage cfg) {u : SchedSys β}
    (hpc : s.sched.pc = .terminated → u.pc = .terminated)
    (hexited : ∀ j, (s.sched.vrows j).2 = .exited → (u.vrows j).2 = .exited) :
    ({ s with sched := u } : CreateSys β).Stage cfg := by
  have hall : ∀ n, s.Exited n → ({ s with sched := u } : CreateSys β).Exited n :=
    fun n hn j hj => hexited j (hn j hj)
  have hover : s.Over cfg → ({ s with sched := u } : CreateSys β).Over cfg :=
    fun ⟨hcreated, hterm, hnodup, hdeleted, hex⟩ =>
      ⟨hcreated, hpc hterm, hnodup, hdeleted, hall _ hex⟩
  obtain ⟨pc, sched, started, created, deleted, base, queue, smap, context⟩ := s
  cases pc with
  | check | syncMapInit | vrowCreate | bitpoolCreate | pthreadCreate | created | close | wait =>
    exact h
  | vrowDelete i | vrowWait i =>
    obtain ⟨halloc, hcreated, hterm, hnodup, hdeleted, hex, hi⟩ := h
    exact ⟨halloc, hcreated, hpc hterm, hnodup, hdeleted, hall _ hex, hi⟩
  | freeBase => exact hover h
  | bitpoolDelete | syncMapDisp | free => exact ⟨hover h.1, h.2⟩
  | returned => exact ⟨h.1, h.2.imp_right hover⟩

/-! ## One step -/

/-- The wait of `vrow_delete` is over: one more thread has exited. -/
lemma CreateSys.Exited.succ {i : ℕ} (h : s.Exited i) (hi : (s.sched.vrows i).2 = .exited) :
    s.Exited (i + 1) := by
  intro j hj
  rcases Nat.lt_succ_iff_lt_or_eq.1 hj with hlt | rfl
  · exact h j hlt
  · exact hi

/-- `vrow_close` leaves the places of the threads. -/
lemma closeVrow_thread (u : SchedSys β) (i j : ℕ) :
    ((u.closeVrow i).vrows j).2 = (u.vrows j).2 := by
  by_cases hj : j = i
  · subst hj
    have hself : (u.closeVrow j).vrows j = ({ (u.vrows j).1 with closed := true }, _) :=
      Function.update_self ..
    rw [hself]
  · exact congrArg Prod.snd (Function.update_of_ne hj ..)

/-- `sched_is_terminated` tells the truth. -/
lemma schedIsTerminated_iff {u : SchedSys β} : schedIsTerminated u = true ↔ u.pc = .terminated := by
  rw [schedIsTerminated]
  split
  · rename_i hpc
    exact ⟨fun _ => hpc, fun _ => rfl⟩
  · rename_i hpc
    exact ⟨by simp, fun hterm => absurd hterm hpc⟩

/-- What a step of the creation or the deletion does to the scheduler: nothing, or one of the
scheduler's own steps. -/
lemma creatorStep_sched (h : s.Stage cfg) (hs : creatorStep cfg none s = some s') :
    s'.sched = s.sched ∨ ∃ l, schedStep cfg s.sched l = some s'.sched ∧ l ≠ .sched := by
  obtain ⟨pc, sched, started, created, deleted, base, queue, smap, context⟩ := s
  cases pc with
  | check | syncMapInit | bitpoolCreate | pthreadCreate | freeBase | bitpoolDelete | syncMapDisp
  | free =>
    obtain rfl := Option.some_injective _ hs
    left
    first
    | rfl
    | split <;> rfl
  | vrowCreate k =>
    obtain rfl := Option.some_injective _ hs
    left
    split
    · rfl
    · rfl
  | created | returned => cases hs
  | close =>
    obtain rfl := Option.some_injective _ hs
    exact Or.inr ⟨.close, rfl, nofun⟩
  | wait | vrowWait i =>
    obtain rfl := Option.some_injective _ hs
    left
    split
    · rfl
    · rfl
  | vrowDelete i =>
    obtain rfl := Option.some_injective _ hs
    obtain ⟨-, -, hterm, -⟩ := h
    dsimp only at hterm
    split
    · split
      · refine Or.inr ⟨.closeVrow i, ?_, nofun⟩
        simp only [schedStep, hterm, SchedSys.closeVrow]
      · exact Or.inl rfl
    · exact Or.inl rfl

/-- **A step of the creation or the deletion.** -/
lemma CreateSys.Stage.creator (hstage : s.Stage cfg) (hs : creatorStep cfg none s = some s')
    (hexited : ∀ i, (s.sched.vrows i).1.states = vrowStateEmpty → (s.sched.vrows i).2 = .exited) :
    s'.Stage cfg := by
  obtain ⟨pc, sched, started, created, deleted, base, queue, smap, context⟩ := s
  dsimp only at hexited
  cases pc with
  | check =>
    obtain rfl := Option.some_injective _ hs
    obtain ⟨rfl, rfl, rfl, hreleased⟩ := hstage
    split
    · exact ⟨hreleased, Or.inl ⟨rfl, rfl, rfl⟩⟩
    · exact ⟨rfl, rfl, rfl, rfl, rfl⟩
  | syncMapInit =>
    obtain rfl := Option.some_injective _ hs
    obtain ⟨rfl, rfl, rfl, rfl, rfl⟩ := hstage
    exact ⟨rfl, rfl, rfl, rfl, rfl, rfl, Nat.zero_le _⟩
  | vrowCreate k =>
    obtain rfl := Option.some_injective _ hs
    obtain ⟨rfl, hcreated, rfl, rfl, rfl, rfl, hk⟩ := hstage
    dsimp only at hcreated
    subst hcreated
    split
    · rename_i hlt
      exact ⟨rfl, rfl, rfl, rfl, rfl, rfl, hlt⟩
    · rename_i hge
      exact ⟨rfl, hk.antisymm (Nat.le_of_not_lt hge), rfl, rfl, rfl, rfl⟩
  | bitpoolCreate =>
    obtain rfl := Option.some_injective _ hs
    obtain ⟨rfl, hcreated, rfl, rfl, rfl, rfl⟩ := hstage
    exact ⟨rfl, hcreated, rfl, rfl, rfl, rfl, rfl⟩
  | pthreadCreate =>
    obtain rfl := Option.some_injective _ hs
    obtain ⟨rfl, hcreated, rfl, halloc⟩ := hstage
    exact ⟨halloc, hcreated, rfl, rfl⟩
  | created => cases hs
  | close =>
    obtain rfl := Option.some_injective _ hs
    exact hstage
  | wait =>
    obtain rfl := Option.some_injective _ hs
    obtain ⟨halloc, hcreated, rfl, rfl⟩ := hstage
    split
    · rename_i hterm
      have hnone : ∀ j, j ∈ ([] : List ℕ) ↔ j < 0 := by simp
      exact ⟨halloc, hcreated, schedIsTerminated_iff.1 hterm, List.nodup_nil, hnone, nofun,
        Nat.zero_le _⟩
    · exact ⟨halloc, hcreated, rfl, rfl⟩
  | vrowDelete i =>
    obtain rfl := Option.some_injective _ hs
    obtain ⟨halloc, hcreated, hterm, hnodup, hdeleted, hex, hle⟩ := hstage
    dsimp only at hcreated hterm
    subst hcreated
    by_cases hi : i < cfg.vrowCount
    · rw [if_pos hi, if_pos hi]
      refine ⟨halloc, rfl, hterm, ?_, ?_, ?_, hi⟩
      · exact List.nodup_cons.2 ⟨fun hmem => lt_irrefl i ((hdeleted i).1 hmem), hnodup⟩
      · intro j
        rw [List.mem_cons, hdeleted, Nat.lt_succ_iff_lt_or_eq, or_comm]
      · intro j hj
        exact (closeVrow_thread sched i j).trans (hex j hj)
    · obtain rfl := hle.antisymm (Nat.le_of_not_lt hi)
      rw [if_neg hi]
      exact ⟨rfl, hterm, hnodup, hdeleted, hex⟩
  | vrowWait i =>
    obtain rfl := Option.some_injective _ hs
    obtain ⟨halloc, hcreated, hterm, hnodup, hdeleted, hex, hi⟩ := hstage
    split
    · rename_i hempty
      exact ⟨halloc, hcreated, hterm, hnodup, hdeleted, hex.succ (hexited i hempty), hi⟩
    · exact ⟨halloc, hcreated, hterm, hnodup, hdeleted, hex, hi⟩
  | freeBase =>
    obtain rfl := Option.some_injective _ hs
    obtain ⟨hcreated, hterm, hnodup, hdeleted, hex⟩ := hstage
    exact ⟨⟨hcreated, hterm, hnodup, hdeleted, hex⟩, rfl⟩
  | bitpoolDelete =>
    obtain rfl := Option.some_injective _ hs
    obtain ⟨⟨hcreated, hterm, hnodup, hdeleted, hex⟩, hbase⟩ := hstage
    exact ⟨⟨hcreated, hterm, hnodup, hdeleted, hex⟩, hbase, rfl⟩
  | syncMapDisp =>
    obtain rfl := Option.some_injective _ hs
    obtain ⟨⟨hcreated, hterm, hnodup, hdeleted, hex⟩, hbase, hqueue⟩ := hstage
    exact ⟨⟨hcreated, hterm, hnodup, hdeleted, hex⟩, hbase, hqueue, rfl⟩
  | free =>
    obtain rfl := Option.some_injective _ hs
    obtain ⟨⟨hcreated, hterm, hnodup, hdeleted, hex⟩, hbase, hqueue, hsmap⟩ := hstage
    exact ⟨⟨hbase, hqueue, hsmap, rfl⟩, Or.inr ⟨hcreated, hterm, hnodup, hdeleted, hex⟩⟩
  | returned => cases hs

/-- `sched_main` does not come back. -/
lemma schedStep_terminated {u u' : SchedSys β} {l : SchedStep β} (hterm : u.pc = .terminated)
    (hs : schedStep cfg u l = some u') : u'.pc = .terminated := by
  rcases schedStep_cases hs with ⟨c, payload, prior, push, -, -, -, rfl⟩ |
    ⟨c, push, queue, pc, -, -, -, rfl⟩ | ⟨-, hmain⟩ | ⟨vrowSmap, closed, vrows, -, rfl⟩
  · exact hterm
  · exact hterm
  · exact absurd hterm (schedMainStep_ne_terminated hmain)
  · exact hterm

/-- The thread of a vrow does not come back. -/
lemma schedStep_exited {u u' : SchedSys β} {l : SchedStep β} {j : ℕ}
    (hj : (u.vrows j).2 = .exited) (hs : schedStep cfg u l = some u') :
    (u'.vrows j).2 = .exited := by
  cases l with
  | push c payload prior =>
    obtain ⟨push, -, -, rfl⟩ := schedStep_push hs
    exact hj
  | pushStep c =>
    obtain ⟨push, queue, pc, -, -, rfl⟩ := schedStep_pushStep hs
    exact hj
  | sched =>
    rcases schedMainStep_vrows hs with ⟨_, _, -, -, hvrows, -⟩ | ⟨vrowI, _, _, _, -, hvrows, -⟩ |
      ⟨-, -, hvrows, -⟩
    · rw [hvrows, hj]
    · rw [hvrows]
      by_cases hvrowI : j = vrowI
      · rw [hvrowI, Function.update_self, ← hvrowI, hj]
      · rw [Function.update_of_ne hvrowI, hj]
    · rw [hvrows, hj]
  | vrow i =>
    obtain ⟨-, vrow, signal, pc, hv, rfl⟩ := schedStep_vrow hs
    by_cases hi : j = i
    · rw [← hi, hj] at hv
      cases hv
    · exact (congrArg Prod.snd (Function.update_of_ne hi _ _)).trans hj
  | close =>
    obtain rfl := Option.some_injective _ hs
    exact hj
  | closeVrow i =>
    obtain ⟨-, rfl⟩ := schedStep_closeVrow hs
    exact (closeVrow_thread u i j).trans hj

/-- The step of the scheduler that a step of another thread is. -/
def LifeStep.toSched : LifeStep β → Option (SchedStep β)
  | .push c payload prior => some (.push c payload prior)
  | .pushStep c => some (.pushStep c)
  | .life .main => some .sched
  | .life (.vrow i) => some (.vrow i)
  | .life .creator | .life .delete => none

/-- A step of another thread is one of the scheduler's own, and moves nothing else. -/
lemma lifeStep_thread {l : LifeStep β} (hs : lifeStep cfg s l = some s')
    (hcreator : l ≠ .life .creator) (hdelete : l ≠ .life .delete) :
    ∃ l' u, l.toSched = some l' ∧ schedStep cfg s.sched l' = some u ∧
      s' = { s with sched := u } := by
  cases l with
  | push c payload prior =>
    rw [lifeStep] at hs
    split at hs
    · obtain ⟨u, hu, rfl⟩ := Option.map_eq_some_iff.1 hs
      exact ⟨_, u, rfl, hu, rfl⟩
    · cases hs
  | pushStep c =>
    obtain ⟨u, hu, rfl⟩ := Option.map_eq_some_iff.1 hs
    exact ⟨_, u, rfl, hu, rfl⟩
  | life l =>
    rw [lifeStep] at hs
    cases l with
    | creator => exact absurd rfl hcreator
    | delete => exact absurd rfl hdelete
    | main =>
      rw [createStep] at hs
      split at hs
      · obtain ⟨u, hu, rfl⟩ := Option.map_eq_some_iff.1 hs
        exact ⟨.sched, u, rfl, hu, rfl⟩
      · cases hs
    | vrow i =>
      rw [createStep] at hs
      split at hs
      · obtain ⟨u, hu, rfl⟩ := Option.map_eq_some_iff.1 hs
        exact ⟨_, u, rfl, hu, rfl⟩
      · cases hs

lemma LifeStep.of_toSched_sched {l : LifeStep β} (h : l.toSched = some .sched) :
    l = .life .main := by
  cases l with
  | life l =>
    cases l with
    | main => rfl
    | _ => cases h
  | _ => cases h

lemma LifeStep.of_toSched_vrow {l : LifeStep β} {i : ℕ} (h : l.toSched = some (.vrow i)) :
    l = .life (.vrow i) := by
  cases l with
  | life l =>
    cases l with
    | vrow j =>
      cases h
      rfl
    | _ => cases h
  | _ => cases h

lemma LifeStep.of_toSched_push {l : LifeStep β} {c : ℕ} {payload : β} {prior : MtePrior}
    (h : l.toSched = some (.push c payload prior)) : l = .push c payload prior := by
  cases l with
  | push c' payload' prior' =>
    cases h
    rfl
  | pushStep c' => cases h
  | life l =>
    cases l with
    | _ => cases h

/-- The call of `sched_delete`. -/
lemma lifeStep_delete (hs : lifeStep cfg s (.life .delete) = some s') :
    s.pc = .created ∧ s' = { s with pc := .close } := by
  rw [lifeStep, createStep] at hs
  split at hs
  · rename_i hpc
    exact ⟨hpc, (Option.some_injective _ hs).symm⟩
  · cases hs

/-- What a step does to the scheduler: nothing, or one of the scheduler's own steps. -/
lemma lifeStep_sched (h : s.Stage cfg) {l : LifeStep β} (hs : lifeStep cfg s l = some s') :
    s'.sched = s.sched ∨
      ∃ l', schedStep cfg s.sched l' = some s'.sched ∧ (l' = .sched → l = .life .main) := by
  by_cases hcreator : l = .life .creator
  · subst hcreator
    rcases creatorStep_sched h hs with hsame | ⟨l', hl', hne⟩
    · exact Or.inl hsame
    · exact Or.inr ⟨l', hl', fun heq => absurd heq hne⟩
  by_cases hdelete : l = .life .delete
  · subst hdelete
    obtain ⟨-, rfl⟩ := lifeStep_delete hs
    exact Or.inl rfl
  · obtain ⟨l', u, hl', hu, rfl⟩ := lifeStep_thread hs hcreator hdelete
    exact Or.inr ⟨l', hu, fun hsched => LifeStep.of_toSched_sched (hsched ▸ hl')⟩

/-- **A step in the life of a scheduler.** -/
lemma CreateSys.LifeInv.step (h : s.LifeInv cfg) {l : LifeStep β}
    (hs : lifeStep cfg s l = some s') :
    s'.LifeInv cfg := by
  constructor
  · rcases lifeStep_sched h.stage hs with hsame | ⟨l', hl', -⟩
    · rw [hsame]
      exact h.vrow
    · exact guarded_of_schedStep h.vrow hl'
  · by_cases hcreator : l = .life .creator
    · subst hcreator
      exact h.stage.creator hs fun i => h.exited
    by_cases hdelete : l = .life .delete
    · subst hdelete
      obtain ⟨hpc, rfl⟩ := lifeStep_delete hs
      have hstage := h.stage
      obtain ⟨pc, sched, started, created, deleted, base, queue, smap, context⟩ := s
      obtain rfl : pc = .created := hpc
      exact hstage
    · obtain ⟨l', u, -, hu, rfl⟩ := lifeStep_thread hs hcreator hdelete
      exact h.stage.sched (fun hterm => schedStep_terminated hterm hu)
        fun j hj => schedStep_exited hj hu

lemma CreateSys.lifeInv_of_runs {ls : List (LifeStep β)} {t : CreateSys β}
    (h : runs (lifeStep cfg) (CreateSys.start cfg) ls = some t) : t.LifeInv cfg :=
  inv_of_runs (fun _ _ _ h hs => h.step hs) (CreateSys.lifeInv_start cfg) h

/-! ## The calls of `sched_push` -/

/-- The creation and the deletion leave the calls of `sched_push` as they are. -/
lemma creatorStep_pushes (hs : creatorStep cfg none s = some s') :
    s'.sched.pushes = s.sched.pushes ∧ s.pc ≠ .created := by
  obtain ⟨pc, sched, started, created, deleted, base, queue, smap, context⟩ := s
  cases pc with
  | created | returned => cases hs
  | vrowDelete i =>
    obtain rfl := Option.some_injective _ hs
    refine ⟨?_, by simp⟩
    split
    · split
      · rfl
      · rfl
    · rfl
  | check | vrowCreate | wait | vrowWait =>
    obtain rfl := Option.some_injective _ hs
    refine ⟨?_, by simp⟩
    split
    · rfl
    · rfl
  | _ =>
    obtain rfl := Option.some_injective _ hs
    exact ⟨rfl, by simp⟩

/-- A call that has returned takes no step. -/
lemma SchedSys.PushesReturned.no_step {u : SchedSys β} (h : u.PushesReturned) {c : ℕ}
    {push : Push β} (hpush : u.pushes c = some push) {next : BitpoolDesc (Slot β) × PushPc} :
    schedPushStep u c push ≠ some next := by
  intro hstep
  obtain ⟨succ, hdone⟩ := h c push hpush
  rw [schedPushStep, hdone] at hstep
  cases hstep

/-- A call that has returned stays as it is, and the steps of the threads do not touch the
calls. -/
lemma SchedSys.PushesReturned.step {u u' : SchedSys β} (h : u.PushesReturned) {l : SchedStep β}
    (hs : schedStep cfg u l = some u') (hl : ∀ c payload prior, l ≠ .push c payload prior) :
    u'.PushesReturned := by
  rcases schedStep_cases hs with ⟨c, payload, prior, push, rfl, -⟩ |
    ⟨c, push, queue, pc, -, hpush, hstep, -⟩ | ⟨-, hmain⟩ | ⟨vrowSmap, closed, vrows, -, rfl⟩
  · exact absurd rfl (hl c payload prior)
  · exact absurd hstep (h.no_step hpush)
  · intro c push hpush
    rw [schedMainStep_pushes hmain] at hpush
    exact h c push hpush
  · exact h

/-- The calls have returned, but between the return of `sched_create` and the call of
`sched_delete`. -/
def CreateSys.Quiet (s : CreateSys β) : Prop := s.pc ≠ .created → s.sched.PushesReturned

lemma CreateSys.Quiet.step (h : s.Quiet) {l : LifeStep β} (hquiet : DeletesQuiet s l)
    (hs : lifeStep cfg s l = some s') : s'.Quiet := by
  by_cases hcreator : l = .life .creator
  · subst hcreator
    obtain ⟨hpushes, hpc⟩ := creatorStep_pushes hs
    intro _ c push hpush
    rw [hpushes] at hpush
    exact h hpc c push hpush
  by_cases hdelete : l = .life .delete
  · subst hdelete
    obtain ⟨-, rfl⟩ := lifeStep_delete hs
    exact fun _ => hquiet rfl
  · obtain ⟨l', u, hl', hu, rfl⟩ := lifeStep_thread hs hcreator hdelete
    refine fun hpc => (h hpc).step hu ?_
    rintro c payload prior rfl
    -- no call begins but between the two
    obtain rfl := LifeStep.of_toSched_push hl'
    rw [lifeStep, if_neg hpc] at hs
    cases hs

lemma CreateSys.quiet_of_runs {ls : List (LifeStep β)} {t : CreateSys β}
    (h : runs (lifeStep cfg) (CreateSys.start cfg) ls = some t)
    (hquiet : AllSteps (lifeStep cfg) DeletesQuiet (CreateSys.start cfg) ls) : t.Quiet :=
  inv_of_allSteps (fun _ _ _ h hC hs => h.step hC hs) (fun _ _ _ hpush => by cases hpush) hquiet h

/-- What a call of `sched_push` uses. -/
lemma CreateSys.Quiet.push (h : s.Quiet) (hstage : s.Stage cfg) {c : ℕ}
    (hc : (lifeStep cfg s (.pushStep c)).isSome = true) : s.context = true ∧ s.queue = true := by
  by_cases hpc : s.pc = .created
  · rw [CreateSys.Stage, hpc] at hstage
    obtain ⟨⟨-, hqueue, -, hcontext⟩, -⟩ := hstage
    exact ⟨hcontext, hqueue⟩
  · obtain ⟨s', hs'⟩ := Option.isSome_iff_exists.1 hc
    obtain ⟨u, hu, -⟩ := Option.map_eq_some_iff.1 hs'
    obtain ⟨push, queue, pc, hpush, hstep, -⟩ := schedStep_pushStep hu
    exact absurd hstep ((h hpc).no_step hpush)

/-! ## Memory safety -/

/-- `sched_main` has an operation left. -/
lemma createStep_main_isSome (h : (createStep cfg none s .main).isSome = true) :
    s.started = true ∧ s.sched.pc ≠ .terminated := by
  rw [createStep] at h
  split at h
  · rename_i hstarted
    rw [Option.isSome_map] at h
    obtain ⟨u, hu⟩ := Option.isSome_iff_exists.1 h
    exact ⟨hstarted, schedMainStep_ne_terminated hu⟩
  · cases h

/-- The thread of a vrow has an operation left. -/
lemma createStep_vrow_isSome {i : ℕ} (h : (createStep cfg none s (.vrow i)).isSome = true) :
    i < s.created ∧ (s.sched.vrows i).2 ≠ .exited := by
  rw [createStep] at h
  split at h
  · rename_i hi
    refine ⟨hi, fun hexited => ?_⟩
    rw [Option.isSome_map, schedStep] at h
    split at h
    · rw [Option.isSome_map, hexited] at h
      cases h
    · cases h
  · cases h

lemma not_freed_of_nil (h : s.deleted = []) (i : ℕ) : ¬ s.Freed i := by
  rintro ⟨hmem, -⟩
  rw [h] at hmem
  cases hmem

/-- What `sched_main` uses. -/
lemma CreateSys.Stage.main (h : s.Stage cfg) (hstarted : s.started = true)
    (hterm : s.sched.pc ≠ .terminated) : s.Allocated ∧ ∀ i, ¬ s.Freed i := by
  obtain ⟨pc, sched, started, created, deleted, base, queue, smap, context⟩ := s
  cases pc with
  | check | syncMapInit | vrowCreate | bitpoolCreate | pthreadCreate =>
    obtain ⟨hnot, -⟩ := h
    exact absurd (hstarted.symm.trans hnot) (by decide)
  | created | close | wait =>
    obtain ⟨halloc, -, hdeleted, -⟩ := h
    exact ⟨halloc, not_freed_of_nil hdeleted⟩
  | vrowDelete | vrowWait =>
    obtain ⟨-, -, hpc, -⟩ := h
    exact absurd hpc hterm
  | freeBase => exact absurd h.terminated hterm
  | bitpoolDelete | syncMapDisp | free => exact absurd h.1.terminated hterm
  | returned =>
    rcases h.2 with ⟨hnot, -⟩ | hover
    · exact absurd (hstarted.symm.trans hnot) (by decide)
    · exact absurd hover.terminated hterm

/-- What the thread of a vrow uses. -/
lemma CreateSys.Stage.vrow (h : s.Stage cfg) {i : ℕ} (hi : i < s.created)
    (hexited : (s.sched.vrows i).2 ≠ .exited) : s.smap = true ∧ ¬ s.Freed i := by
  have hover : ¬ s.Over cfg := by
    intro hover
    exact hexited (hover.exited i (hi.trans_eq hover.created))
  obtain ⟨pc, sched, started, created, deleted, base, queue, smap, context⟩ := s
  cases pc with
  | check | syncMapInit =>
    obtain ⟨-, hcreated, -⟩ := h
    exact absurd (hcreated ▸ hi) (Nat.not_lt_zero i)
  | bitpoolCreate =>
    obtain ⟨-, -, hdeleted, -, -, hsmap⟩ := h
    exact ⟨hsmap, not_freed_of_nil hdeleted i⟩
  | vrowCreate | pthreadCreate =>
    obtain ⟨-, -, hdeleted, -, -, hsmap, -⟩ := h
    exact ⟨hsmap, not_freed_of_nil hdeleted i⟩
  | created | close | wait =>
    obtain ⟨⟨-, -, hsmap, -⟩, -, hdeleted, -⟩ := h
    exact ⟨hsmap, not_freed_of_nil hdeleted i⟩
  | vrowDelete n =>
    obtain ⟨⟨-, -, hsmap, -⟩, -, -, -, hdeleted, hex, -⟩ := h
    refine ⟨hsmap, ?_⟩
    rintro ⟨hmem, -⟩
    exact hexited (hex i ((hdeleted i).1 hmem))
  | vrowWait n =>
    obtain ⟨⟨-, -, hsmap, -⟩, -, -, -, hdeleted, hex, -⟩ := h
    refine ⟨hsmap, ?_⟩
    rintro ⟨hmem, hne⟩
    -- the vrow whose thread is waited for is not freed
    have hin : i ≠ n := fun heq => hne (heq ▸ rfl)
    have hlt : i < n := lt_of_le_of_ne (Nat.le_of_lt_succ ((hdeleted i).1 hmem)) hin
    exact hexited (hex i hlt)
  | freeBase => exact absurd h hover
  | bitpoolDelete | syncMapDisp | free => exact absurd h.1 hover
  | returned =>
    rcases h.2 with ⟨-, hcreated, -⟩ | hend
    · exact absurd (hcreated ▸ hi) (Nat.not_lt_zero i)
    · exact absurd hend hover

/-- A vrow is deleted once. -/
lemma CreateSys.Stage.once (h : s.Stage cfg) : s.deleted.Nodup := by
  obtain ⟨pc, sched, started, created, deleted, base, queue, smap, context⟩ := s
  have hnil : ∀ {l : List ℕ}, l = [] → l.Nodup := fun hl => hl ▸ List.nodup_nil
  cases pc with
  | check | syncMapInit | vrowCreate | bitpoolCreate | pthreadCreate =>
    obtain ⟨-, -, hdeleted, -⟩ := h
    exact hnil hdeleted
  | created | close | wait => exact hnil h.2.2.1
  | vrowDelete | vrowWait =>
    obtain ⟨-, -, -, hnodup, -⟩ := h
    exact hnodup
  | freeBase => exact h.nodup
  | bitpoolDelete | syncMapDisp | free => exact h.1.nodup
  | returned =>
    rcases h.2 with ⟨-, -, hdeleted⟩ | hover
    · exact hnil hdeleted
    · exact hover.nodup

/-- At the return. -/
lemma CreateSys.Stage.released (h : s.Stage cfg) (hpc : s.pc = .returned) :
    s.Released ∧ ∀ i, i ∈ s.deleted ↔ i < s.created := by
  obtain ⟨pc, sched, started, created, deleted, base, queue, smap, context⟩ := s
  obtain rfl : pc = .returned := hpc
  refine ⟨h.1, fun i => ?_⟩
  rcases h.2 with ⟨-, hcreated, hdeleted⟩ | hover
  · rw [hcreated, hdeleted]
    simp
  · rw [hover.mem_deleted, hover.created]

/-- **No thread uses freed memory**, in any interleaving of the creation, the calls of
`sched_push`, the threads and the deletion, which is called when the calls of `sched_push` have
returned. -/
theorem life_memorySafe {ls : List (LifeStep β)} {t : CreateSys β}
    (h : runs (lifeStep cfg) (CreateSys.start cfg) ls = some t)
    (hquiet : AllSteps (lifeStep cfg) DeletesQuiet (CreateSys.start cfg) ls) :
    MemorySafe cfg t := by
  have hstage := (CreateSys.lifeInv_of_runs h).stage
  refine ⟨fun hmain => ?_, fun i hvrow => ?_, fun c hpush => ?_, hstage.once, hstage.released⟩
  · obtain ⟨hstarted, hterm⟩ := createStep_main_isSome hmain
    exact hstage.main hstarted hterm
  · obtain ⟨hi, hexited⟩ := createStep_vrow_isSome hvrow
    exact hstage.vrow hi hexited
  · exact (CreateSys.quiet_of_runs h hquiet).push hstage hpush

/-- A call begins where it is pushed. -/
lemma lifeStep_pushes_none {c : ℕ} {l : LifeStep β} (hs : lifeStep cfg s l = some s')
    (hnone : s.sched.pushes c = none) (hl : ∀ payload prior, l ≠ .push c payload prior) :
    s'.sched.pushes c = none := by
  by_cases hcreator : l = .life .creator
  · subst hcreator
    rw [(creatorStep_pushes hs).1, hnone]
  by_cases hdelete : l = .life .delete
  · subst hdelete
    obtain ⟨-, rfl⟩ := lifeStep_delete hs
    exact hnone
  · obtain ⟨l', u, hl', hu, rfl⟩ := lifeStep_thread hs hcreator hdelete
    refine schedStep_pushes_none hu hnone ?_
    rintro payload prior rfl
    exact hl payload prior (LifeStep.of_toSched_push hl')

/-- `DeletesQuiet`, for calls with numbers below `n`. -/
def CreateSys.deletesQuietBelow (n : ℕ) (s : CreateSys β) : LifeStep β → Bool
  | .push c _ _ => decide (c < n)
  | .life .delete => (List.range n).all fun c => (s.sched.pushes c).all fun push =>
    match push.pc with
    | .done _ => true
    | _ => false
  | _ => true

lemma CreateSys.deletesQuiet_of_below {n : ℕ} {l : LifeStep β}
    (hnone : ∀ c, n ≤ c → s.sched.pushes c = none) (h : s.deletesQuietBelow n l = true) :
    DeletesQuiet s l := by
  rintro rfl c push hpush
  have hc : c < n := by
    by_contra hc
    rw [hnone c (Nat.le_of_not_lt hc)] at hpush
    cases hpush
  simp only [deletesQuietBelow, List.all_eq_true, List.mem_range] at h
  have hdone := h c hc
  rw [hpush] at hdone
  obtain ⟨payload, range, pc⟩ := push
  cases pc with
  | done succ => exact ⟨succ, rfl⟩
  | _ => cases hdone

/-- The calls of a run have the numbers it gives them. -/
lemma CreateSys.deletesQuiet_of_run {n : ℕ} {ls : List (LifeStep β)}
    (h : AllSteps (lifeStep cfg) (fun s l => s.deletesQuietBelow n l = true) (.start cfg) ls) :
    AllSteps (lifeStep cfg) DeletesQuiet (.start cfg) ls := by
  refine AllSteps.mono_of_inv (I := fun s : CreateSys β => ∀ c, n ≤ c → s.sched.pushes c = none)
    (fun s l s' hnone hbelow hs c' hc' => ?_)
    (fun s l hnone hbelow _ => deletesQuiet_of_below hnone hbelow) (fun _ _ => rfl) h h
  refine lifeStep_pushes_none hs (hnone c' hc') ?_
  rintro payload prior rfl
  exact absurd (of_decide_eq_true hbelow) (Nat.not_lt.2 hc')

end

/-- A scheduler is deleted while the thread of its vrow processes a payload. -/
def deletedRun : List (LifeStep Bool) :=
  List.replicate 6 (.life .creator) ++ .push 0 true .priorLow :: List.replicate 5 (.pushStep 0) ++
    List.replicate 18 (.life .main) ++ List.replicate 9 (.life (.vrow 0)) ++
    [.life .delete, .life .creator, .life .main, .life .main, .life .creator, .life .creator] ++
    List.replicate 12 (.life (.vrow 0)) ++ List.replicate 6 (.life .creator)

theorem life_memorySafe_deletedRun :
    ∃ t, runs (lifeStep oneVrowConfig) (.start oneVrowConfig) deletedRun = some t ∧
      MemorySafe oneVrowConfig t := by
  have hrun : (runs (lifeStep oneVrowConfig) (.start oneVrowConfig) deletedRun).isSome = true := by
    decide +kernel
  obtain ⟨t, ht⟩ := Option.isSome_iff_exists.1 hrun
  exact ⟨t, ht, life_memorySafe ht (CreateSys.deletesQuiet_of_run (n := 1) (by decide +kernel))⟩

example : (runs (lifeStep oneVrowConfig) (.start oneVrowConfig) deletedRun).map
    (fun s => (s.pc, s.deleted)) = some (.returned, [0]) := by decide +kernel

/-- A call of `sched_push` is under way when the scheduler is deleted: it goes on in the queue
that has been freed. -/
example : (runs (lifeStep oneVrowConfig) (.start oneVrowConfig)
    (List.replicate 6 (.life .creator) ++ [.push 0 true .priorLow, .life .delete, .life .creator,
      .life .main, .life .main, .life .creator, .life .creator] ++
      List.replicate 3 (.life (.vrow 0)) ++ List.replicate 6 (.life .creator))).map
    (fun s => (s.pc, s.queue, (lifeStep oneVrowConfig s (.pushStep 0)).isSome)) =
      some (.returned, false, true) := by decide +kernel

end AxVirtLayer
