import AxVirtLayer.Pipe.Sched
import Mathlib.Data.List.Infix

/-!
# Bypassed priorities

How often `sched_main` takes a payload from one range while the lower ones wait.  The
dispositions are meant to bound it: a range gives way once its disposition is used up.  They are
reset in `bitpool_prior_unload_disp`, but no dispatch counts one of them up, so that all of
them stay zero, and the first range that has a disposition at all is taken for ever.  The bound
holds as long as that range has had no more than its disposition (`noStarvation_always_iff`).
-/

namespace AxVirtLayer

open Lib

section

variable {β : Type}

/-! ## The property -/

/-- **Bounded bypass**: among dispatches in a row without one from a range below `i`, at most
`bit_disp` are from the range `i`. -/
def NoStarvation (s : SchedSys β) : Prop :=
  ∀ i < 3, ∀ segment, segment <:+: s.dispatched → (∀ j ∈ segment, j ≤ i) →
    segment.count i ≤ (s.queue.ranges i).bitDisp

/-- A scheduler at the head of its loop, with zeroed dispositions and no dispatch yet. -/
structure SchedSys.AtHead (s : SchedSys β) : Prop where
  pc : s.pc = .closed
  disp : s.disp = fun _ => 0
  dispatched : s.dispatched = []

/-- The step is possible, and all four presence counters are positive. -/
def AllPresent (cfg : SchedConfig β) (s : SchedSys β) (l : SchedStep β) : Prop :=
  (schedStep cfg s l).isSome ∧ ∀ r, 0 < s.queue.presence r

/-! ## The range that is taken -/

/-- The first of the priorities left that has a disposition; low, if there is none. -/
def firstDisp (ranges : Fin 4 → BitpoolPriorRange) : List (Fin 4) → Fin 4
  | [] => 3
  | i :: left => if 0 < (ranges i).bitDisp then i else firstDisp ranges left

/-- The invariant of the runs with four positive counters: only the first priority with a
disposition is chosen. -/
structure SchedSys.Stuck (ranges : Fin 4 → BitpoolPriorRange) (s : SchedSys β) : Prop where
  same : s.queue.ranges = ranges
  disp : ∀ r, s.disp r = 0
  loop : ∀ vrowI left, s.pc = .disp vrowI left →
    firstDisp ranges left = firstDisp ranges [0, 1, 2]
  unsig : ∀ vrowI range pc, s.pc = .unsig vrowI range pc → range = firstDisp ranges [0, 1, 2]
  dispatched : ∀ range ∈ s.dispatched, range = firstDisp ranges [0, 1, 2]

variable {cfg : SchedConfig β} {s s' : SchedSys β} {ranges : Fin 4 → BitpoolPriorRange}

lemma SchedSys.AtHead.stuck (h : s.AtHead) : s.Stuck s.queue.ranges where
  same := rfl
  disp := by
    intro r
    rw [h.disp]
  loop := by
    intro vrowI left hpc
    rw [h.pc] at hpc
    cases hpc
  unsig := by
    intro vrowI range pc hpc
    rw [h.pc] at hpc
    cases hpc
  dispatched := by
    intro range hrange
    rw [h.dispatched] at hrange
    cases hrange

/-- A state with the same variables of `sched_main` and the same ranges. -/
lemma SchedSys.Stuck.congr (h : s.Stuck ranges) (hpc : s'.pc = s.pc) (hdisp : s'.disp = s.disp)
    (hdispatched : s'.dispatched = s.dispatched) (hranges : s'.queue.ranges = s.queue.ranges) :
    s'.Stuck ranges := by
  refine ⟨hranges.trans h.same, ?_, ?_, ?_, ?_⟩
  · rw [hdisp]
    exact h.disp
  · rw [hpc]
    exact h.loop
  · rw [hpc]
    exact h.unsig
  · rw [hdispatched]
    exact h.dispatched

/-- `sched_main` chooses a range or searches it. -/
def SchedPc.Choosing : SchedPc β → Prop
  | .disp _ _ | .unsig _ _ _ => True
  | _ => False

/-- A state at a place outside the choice of a range. -/
lemma SchedSys.Stuck.leave (h : s.Stuck ranges) (hdisp : s'.disp = s.disp)
    (hdispatched : s'.dispatched = s.dispatched) (hranges : s'.queue.ranges = s.queue.ranges)
    (hpc : ¬ s'.pc.Choosing) : s'.Stuck ranges := by
  refine ⟨hranges.trans h.same, ?_, ?_, ?_, ?_⟩
  · rw [hdisp]
    exact h.disp
  · intro vrowI left hloop
    rw [hloop] at hpc
    exact absurd trivial hpc
  · intro vrowI range pc hunsig
    rw [hunsig] at hpc
    exact absurd trivial hpc
  · rw [hdispatched]
    exact h.dispatched

/-- Outside the choice of a range a step leaves the dispositions and the dispatches, and enters
the choice only with a vrow that was claimed. -/
lemma schedMainStep_elsewhere (hs : schedMainStep cfg s = some s') (hpc : ¬ s.pc.Choosing)
    (hclaimed : ∀ vrowI, s.pc ≠ .vrow (.ret (some vrowI))) :
    s'.disp = s.disp ∧ s'.dispatched = s.dispatched ∧ s'.queue.ranges = s.queue.ranges ∧
      ¬ s'.pc.Choosing := by
  cases hat : s.pc with
  | closed =>
    simp only [schedMainStep, hat] at hs
    obtain rfl := Option.some_injective _ hs
    refine ⟨rfl, rfl, rfl, ?_⟩
    dsimp only
    split <;> exact id
  | presence =>
    simp only [schedMainStep, hat] at hs
    obtain rfl := Option.some_injective _ hs
    refine ⟨rfl, rfl, rfl, ?_⟩
    dsimp only
    split <;> exact id
  | vrow mapPc =>
    rcases mapPc with quad | ⟨quad, sigi⟩ | (_ | vrowI)
    case ret.some => exact absurd hat (hclaimed vrowI)
    all_goals
      simp only [schedMainStep, hat] at hs
      obtain rfl := Option.some_injective _ hs
      exact ⟨rfl, rfl, rfl, id⟩
  | disp vrowI left =>
    rw [hat] at hpc
    exact absurd trivial hpc
  | unsig vrowI range mapPc =>
    rw [hat] at hpc
    exact absurd trivial hpc
  | load vrowI bucketI call loadPc =>
    simp only [schedMainStep, hat] at hs
    obtain rfl := Option.some_injective _ hs
    refine ⟨rfl, rfl, rfl, ?_⟩
    dsimp only
    split <;> exact id
  | sub bucketI =>
    simp only [schedMainStep, hat] at hs
    obtain ⟨p, -, rfl⟩ := Option.map_eq_some_iff.1 hs
    exact ⟨rfl, rfl, rfl, id⟩
  | back vrowI | terminate =>
    simp only [schedMainStep, hat] at hs
    obtain rfl := Option.some_injective _ hs
    exact ⟨rfl, rfl, rfl, id⟩
  | pop vrowI bucketI | sigoff bucketI =>
    simp only [schedMainStep, hat] at hs
    split at hs
    all_goals
      obtain rfl := Option.some_injective _ hs
      exact ⟨rfl, rfl, rfl, id⟩
  | terminated =>
    simp only [schedMainStep, hat] at hs
    cases hs

/-- A vrow was claimed: the loop over the priorities begins. -/
lemma SchedSys.Stuck.claimed (h : s.Stuck ranges) {vrowI : ℕ}
    (hpc : s.pc = .vrow (.ret (some vrowI))) (hs : schedMainStep cfg s = some s') :
    s'.Stuck ranges := by
  simp only [schedMainStep, hpc] at hs
  obtain rfl := Option.some_injective _ hs
  refine ⟨h.same, h.disp, fun vrowI' left hdisp => ?_, fun _ _ _ hunsig => ?_, h.dispatched⟩
  · cases hdisp
    rfl
  · cases hunsig

/-- A step of the loop over the priorities, whose counters are positive. -/
lemma SchedSys.Stuck.choose (h : s.Stuck ranges) (hpresent : ∀ r, 0 < s.queue.presence r)
    {vrowI : ℕ} {left : List (Fin 4)} (hpc : s.pc = .disp vrowI left)
    (hs : schedMainStep cfg s = some s') : s'.Stuck ranges := by
  have hloop := h.loop vrowI left hpc
  cases left with
  | nil =>
    simp only [schedMainStep, hpc] at hs
    obtain rfl := Option.some_injective _ hs
    refine ⟨h.same, h.disp, fun _ _ hdisp => ?_, fun vrowI' range mapPc hunsig => ?_,
      h.dispatched⟩
    · cases hdisp
    · cases hunsig
      exact hloop
  | cons i left =>
    simp only [schedMainStep, hpc, if_pos (hpresent i), h.disp i, h.same] at hs
    rw [firstDisp] at hloop
    by_cases hquota : 0 < (ranges i).bitDisp
    · rw [if_pos hquota] at hs hloop
      obtain rfl := Option.some_injective _ hs
      refine ⟨h.same, h.disp, fun _ _ hdisp => ?_, fun vrowI' range mapPc hunsig => ?_,
        h.dispatched⟩
      · cases hdisp
      · cases hunsig
        exact hloop
    · -- the priority has no disposition at all
      rw [if_neg hquota] at hs hloop
      obtain rfl := Option.some_injective _ hs
      refine ⟨h.same, fun r => ?_, fun vrowI' left' hdisp => ?_, fun _ _ _ hunsig => ?_,
        h.dispatched⟩
      · by_cases hr : r = i
        · rw [hr]
          exact Function.update_self i 0 s.disp
        · exact (Function.update_of_ne hr 0 s.disp).trans (h.disp r)
      · cases hdisp
        exact hloop
      · cases hunsig

/-- A step of the search for a bucket of the range. -/
lemma SchedSys.Stuck.search (h : s.Stuck ranges) {vrowI : ℕ} {range : Fin 4} {mapPc : MapPc}
    (hpc : s.pc = .unsig vrowI range mapPc) (hs : schedMainStep cfg s = some s') :
    s'.Stuck ranges := by
  have hrange := h.unsig vrowI range mapPc hpc
  rcases mapPc with quad | ⟨quad, sigi⟩ | (_ | i)
  case ret.none =>
    simp only [schedMainStep, hpc] at hs
    obtain rfl := Option.some_injective _ hs
    exact h.leave rfl rfl rfl id
  case ret.some =>
    -- the dispatch
    simp only [schedMainStep, hpc] at hs
    obtain rfl := Option.some_injective _ hs
    refine ⟨h.same, h.disp, fun _ _ hdisp => ?_, fun _ _ _ hunsig => ?_, fun range' hmem => ?_⟩
    · cases hdisp
    · cases hunsig
    · rcases List.mem_cons.1 hmem with rfl | hmem
      · exact hrange
      · exact h.dispatched range' hmem
  all_goals
    simp only [schedMainStep, hpc] at hs
    obtain rfl := Option.some_injective _ hs
    refine ⟨h.same, h.disp, fun _ _ hdisp => ?_, fun vrowI' range' mapPc hunsig => ?_,
      h.dispatched⟩
    · cases hdisp
    · cases hunsig
      exact hrange

/-- **One step of `sched_main`** with four positive counters. -/
lemma SchedSys.Stuck.sched (h : s.Stuck ranges) (hpresent : ∀ r, 0 < s.queue.presence r)
    (hs : schedMainStep cfg s = some s') : s'.Stuck ranges := by
  by_cases hclaimed : ∃ vrowI, s.pc = .vrow (.ret (some vrowI))
  · obtain ⟨vrowI, hpc⟩ := hclaimed
    exact h.claimed hpc hs
  by_cases hchoosing : s.pc.Choosing
  · cases hpc : s.pc with
    | disp vrowI left => exact h.choose hpresent hpc hs
    | unsig vrowI range mapPc => exact h.search hpc hs
    | _ =>
      rw [hpc] at hchoosing
      exact absurd hchoosing id
  · obtain ⟨hdisp, hdispatched, hranges, hpc⟩ := schedMainStep_elsewhere hs hchoosing
      fun vrowI hpc => hclaimed ⟨vrowI, hpc⟩
    exact h.leave hdisp hdispatched hranges hpc

/-- **One step** of the system with four positive counters. -/
lemma SchedSys.Stuck.step (h : s.Stuck ranges) {l : SchedStep β} (hl : AllPresent cfg s l)
    (hs : schedStep cfg s l = some s') : s'.Stuck ranges := by
  by_cases hsched : l = .sched
  · subst hsched
    exact h.sched hl.2 hs
  · obtain ⟨hpc, hdisp, hdispatched, -, hranges, -⟩ := schedStep_frame hs hsched
    exact h.congr hpc hdisp hdispatched hranges

/-! ## Whole runs -/

/-- All dispatches are from one range, so that their number is what the disposition bounds. -/
lemma SchedSys.Stuck.noStarvation_iff (h : s.Stuck ranges) :
    NoStarvation s ↔ firstDisp ranges [0, 1, 2] = 3 ∨
      s.dispatched.length ≤ (ranges (firstDisp ranges [0, 1, 2])).bitDisp := by
  constructor
  · intro hbound
    by_cases hlow : firstDisp ranges [0, 1, 2] = 3
    · exact Or.inl hlow
    have hcount := hbound _ (lt_of_le_of_ne (Fin.le_last _) hlow) _ List.infix_rfl
      fun j hj => (h.dispatched j hj).le
    rw [List.count_eq_length.2 fun j hj => (h.dispatched j hj).symm, h.same] at hcount
    exact Or.inr hcount
  · intro hfew i hi segment hsegment _
    have hall : ∀ j ∈ segment, j = firstDisp ranges [0, 1, 2] := fun j hj =>
      h.dispatched j (hsegment.subset hj)
    by_cases hfirst : i = firstDisp ranges [0, 1, 2]
    · rcases hfew with hlow | hle
      · rw [hfirst, hlow] at hi
        exact absurd hi (lt_irrefl 3)
      · rw [← hfirst] at hle
        rw [h.same]
        exact List.count_le_length.trans (hsegment.length_le.trans hle)
    · rw [List.count_eq_zero_of_not_mem fun hmem => hfirst (hall i hmem)]
      exact Nat.zero_le _

/-- A step adds at most one dispatch to those before it. -/
lemma schedStep_dispatched {l : SchedStep β} (hs : schedStep cfg s l = some s') :
    s.dispatched <:+ s'.dispatched := by
  by_cases hsched : l = .sched
  swap
  · obtain ⟨-, -, hdispatched, -⟩ := schedStep_frame hs hsched
    rw [hdispatched]
  subst hsched
  change schedMainStep cfg s = some s' at hs
  cases hpc : s.pc with
  | disp vrowI left =>
    cases left with
    | nil =>
      simp only [schedMainStep, hpc] at hs
      obtain rfl := Option.some_injective _ hs
      exact List.suffix_rfl
    | cons i left =>
      simp only [schedMainStep, hpc] at hs
      split at hs
      · split at hs
        all_goals
          obtain rfl := Option.some_injective _ hs
          exact List.suffix_rfl
      · obtain rfl := Option.some_injective _ hs
        exact List.suffix_rfl
  | unsig vrowI range mapPc =>
    rcases mapPc with quad | ⟨quad, sigi⟩ | (_ | i)
    case ret.some =>
      simp only [schedMainStep, hpc] at hs
      obtain rfl := Option.some_injective _ hs
      exact List.suffix_cons range s.dispatched
    all_goals
      simp only [schedMainStep, hpc] at hs
      obtain rfl := Option.some_injective _ hs
      exact List.suffix_rfl
  | vrow mapPc =>
    rcases mapPc with quad | ⟨quad, sigi⟩ | (_ | vrowI)
    all_goals
      simp only [schedMainStep, hpc] at hs
      obtain rfl := Option.some_injective _ hs
      exact List.suffix_rfl
  | _ =>
    obtain ⟨-, hdispatched, -⟩ := schedMainStep_elsewhere hs (by rw [hpc]; exact id)
      (by rw [hpc]; simp)
    rw [hdispatched]

/-- **Bounded bypass** holds all along a run with four positive counters if and only if the
first range with a disposition is the lowest one, or the run makes no more dispatches than that
disposition. -/
theorem noStarvation_always_iff {ls : List (SchedStep β)} (hhead : s.AtHead)
    (hls : AllSteps (schedStep cfg) (AllPresent cfg) s ls) :
    Always (schedStep cfg) NoStarvation s ls ↔
      firstDisp s.queue.ranges [0, 1, 2] = 3 ∨ ∀ t, runs (schedStep cfg) s ls = some t →
        t.dispatched.length ≤ (s.queue.ranges (firstDisp s.queue.ranges [0, 1, 2])).bitDisp := by
  have hkeep : ∀ (u : SchedSys β) l v, u.Stuck s.queue.ranges → AllPresent cfg u l →
      schedStep cfg u l = some v → v.Stuck s.queue.ranges :=
    fun _ _ _ h hl hs => h.step hl hs
  -- the number of dispatches only grows, so that the end of the run decides
  have hback : ∀ (u : SchedSys β) l v, u.Stuck s.queue.ranges → AllPresent cfg u l →
      schedStep cfg u l = some v → NoStarvation v → NoStarvation u := by
    intro u l v h hl hs hv
    rw [(hkeep u l v h hl hs).noStarvation_iff] at hv
    rw [h.noStarvation_iff]
    exact hv.imp_right (schedStep_dispatched hs).length_le.trans
  rw [always_iff_last (fun _ _ hl => Option.isSome_iff_exists.1 hl.1) hkeep hback hhead.stuck hls]
  have hend : ∀ t, runs (schedStep cfg) s ls = some t → t.Stuck s.queue.ranges :=
    fun t ht => inv_of_allSteps hkeep hhead.stuck hls ht
  constructor
  · intro hbound
    by_cases hlow : firstDisp s.queue.ranges [0, 1, 2] = 3
    · exact Or.inl hlow
    · exact Or.inr fun t ht => ((hend t ht).noStarvation_iff.1 (hbound t ht)).resolve_left hlow
  · intro hfew t ht
    rw [(hend t ht).noStarvation_iff]
    exact hfew.imp_right fun hle => hle t ht

end

/-! ## Two runs -/

/-- Four ranges of a quarter of the queue each: one payload of every other range for one low
one. -/
def quarterRanges : Fin 4 → BitpoolPriorRange :=
  ![⟨16, 48, 1⟩, ⟨16, 32, 1⟩, ⟨16, 16, 1⟩, ⟨16, 0, 1⟩]

/-- Two vrows. -/
def quarterConfig : SchedConfig Unit :=
  ⟨2, quarterRanges, fun presence => decide (presence ≠ fun _ => 0),
    ⟨some fun _ => (id, true), true⟩, (), by decide⟩

/-- Three payloads of the highest priority and one of each other priority wait. -/
def waitingSched : SchedSys Unit :=
  { SchedSys.start quarterConfig with
    queue := { schedQueue quarterConfig with
      presence := ![3, 1, 1, 1]
      smapDesc := ⟨fun _ => 0x0007000100010001, 1⟩ } }

lemma waitingSched_atHead : waitingSched.AtHead := ⟨rfl, rfl, rfl⟩

instance (cfg : SchedConfig Unit) (s : SchedSys Unit) (l : SchedStep Unit) :
    Decidable (AllPresent cfg s l) := inferInstanceAs (Decidable (_ ∧ _))

theorem noStarvation_always_iff_one_dispatch :
    Always (schedStep quarterConfig) NoStarvation waitingSched (List.replicate 9 .sched) ↔
      firstDisp quarterRanges [0, 1, 2] = 3 ∨
        ∀ t, runs (schedStep quarterConfig) waitingSched (List.replicate 9 .sched) = some t →
          t.dispatched.length ≤ (quarterRanges (firstDisp quarterRanges [0, 1, 2])).bitDisp :=
  noStarvation_always_iff waitingSched_atHead (by decide +kernel)

/-- The second dispatch is from the highest range, too, whose disposition is one. -/
theorem waitingSched_starves :
    bitpoolRangePopulate nearestPercent ⟨fun _ => 0, 1⟩ (fun _ => 25) = some quarterRanges ∧
      waitingSched.AtHead ∧
      AllSteps (schedStep quarterConfig) (AllPresent quarterConfig) waitingSched
        (List.replicate 24 .sched) ∧
      ¬ Always (schedStep quarterConfig) NoStarvation waitingSched
        (List.replicate 24 .sched) := by
  refine ⟨by decide +kernel, waitingSched_atHead, by decide +kernel, fun h => ?_⟩
  obtain ⟨t, ht, hbound⟩ := always_last h
  have hrun : (runs (schedStep quarterConfig) waitingSched (List.replicate 24 .sched)).map
      (fun t => (t.dispatched, (t.queue.ranges 0).bitDisp)) = some ([0, 0], 1) := by
    decide +kernel
  rw [ht] at hrun
  obtain ⟨hdispatched, hdisp⟩ := Prod.mk.inj (Option.some_injective _ hrun)
  have hcount := hbound 0 (by decide) _ List.infix_rfl
  rw [hdispatched, hdisp] at hcount
  exact absurd (hcount (by decide)) (by decide)

end AxVirtLayer
