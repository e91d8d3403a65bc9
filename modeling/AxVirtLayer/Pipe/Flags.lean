import AxVirtLayer.Lib.Run
import AxVirtLayer.Pipe.Vrow

/-!
# The flags of a vrow

A vrow thread and the one caller of `vrow_bank_load` for its bank 0, interleaved.  All flags are
changed by switches, and the thread starts with the active bit of bank 0 on: the switch on the
way into bank 0 turns it off, and the one on the way out turns it on again.  The filled bit of
bank 2 is switched by every payload and never switched back.  `flags_states` says what the flags
are after any number of payloads, `flagsTruth_always_iff` that they tell the truth only until
the first payload is processed.
-/

namespace AxVirtLayer

open Lib

/-! ## The system -/

/-- A vrow with its thread and its loader, and a history that no step reads: the banks with a
payload that was moved in and not moved on, and the number of payloads done. -/
structure VrowSys (β : Type) where
  vrow : Vrow β
  pc : VrowPc
  loader : Option (LoadPc β)
  moved : Fin 4 → Bool
  count : ℕ

/-- The steps: the thread goes on, a payload is to be loaded, the loader goes on, the vrow is
closed. -/
inductive VrowStep (β : Type)
  | thread
  | load (payload : β)
  | loader
  | close
deriving DecidableEq, Repr

section

variable {β : Type}

/-- A vrow that was just created. -/
def VrowSys.start (zero : β) : VrowSys β := ⟨vrowCreate zero, .loop, none, fun _ => false, 0⟩

/-- The banks with a payload, after an operation of the thread. -/
def VrowPc.movedAfter (moved : Fin 4 → Bool) : VrowPc → Fin 4 → Bool
  | .move swap => Function.update (Function.update moved swap.fromI false) swap.toI true
  | .empty => fun _ => false
  | _ => moved

/-- The number of payloads done, after an operation of the thread; a flush starts again. -/
def VrowPc.countAfter (count : ℕ) : VrowPc → ℕ
  | .sigoff false => count + 1
  | .empty => 0
  | _ => count

/-- One step of the system. -/
def vrowSysStep (funcs : BankFuncs β) (zero : β) (s : VrowSys β) : VrowStep β → Option (VrowSys β)
  | .thread => (vrowThreadStep funcs zero s.vrow s.pc).map fun (vrow, _, pc) =>
      ⟨vrow, pc, s.loader, s.pc.movedAfter s.moved, s.pc.countAfter s.count⟩
  | .load payload =>
    match s.loader with
    | none => some { s with loader := some (.wait payload) }
    | some _ => none
  | .loader =>
    match s.loader with
    | none => none
    | some load =>
      let (vrow, loader) := vrowBankLoadStep s.vrow 0 load
      some ⟨vrow, s.pc, loader, if loader.isNone then Function.update s.moved 0 true else s.moved,
        s.count⟩
  | .close => some { s with vrow := { s.vrow with closed := true } }

/-! ## The property -/

/-- The bank of a function. -/
def bankOf (k : Fin 3) : Fin 4 := k.castSucc

/-- The thread is inside `vrow_bank_swap`. -/
def VrowPc.InSwap : VrowPc → Prop
  | .move _ | .fillFrom _ => True
  | _ => False

/-- **The flags tell the truth**: when the function of a bank runs, that bank is the only
active one and it is filled; at the head of the loop bank 0 is the only active one; outside
`vrow_bank_swap` the filled banks are those with a payload. -/
structure FlagsTruth (s : VrowSys β) : Prop where
  proc : ∀ k, s.pc = .proc k → (∀ bankI, vrowIsActive s.vrow bankI = decide (bankI = bankOf k)) ∧
    vrowIsFilled s.vrow (bankOf k) = true
  head : s.pc = .loop → ∀ bankI, vrowIsActive s.vrow bankI = decide (bankI = 0)
  moved : ¬ s.pc.InSwap → ∀ bankI, vrowIsFilled s.vrow bankI = s.moved bankI

/-- The step does not go on to the processing of a payload. -/
def DoesNotProcess (s : VrowSys β) (l : VrowStep β) : Prop := ¬ (l = .thread ∧ s.pc = .sigon)

/-! ## The flags at every step -/

/-- The flags but the `F` bit of bank 0, where an even number of payloads was done. -/
def VrowPc.evenFlags : VrowPc → Option (BitVec 8)
  | .loop | .filled | .enter => some 0b00000010
  | .sigon | .proc 0 | .activeTo .zeroOne => some 0b00000000
  | .activeFrom .zeroOne => some 0b00001000
  | .fillTo .zeroOne => some 0b00001010
  | .move .zeroOne | .fillFrom .zeroOne | .proc 1 | .activeTo .oneTwo => some 0b00001110
  | .activeFrom .oneTwo => some 0b00101110
  | .fillTo .oneTwo => some 0b00100110
  | .move .oneTwo | .fillFrom .oneTwo => some 0b00110110
  | .proc 2 | .sigoff false => some 0b00110010
  | .exited => some 0b00000000
  | .sigoff true | .zero | .empty => none

/-- After an odd number of payloads the bits of bank 2 are the other way. -/
def oddFlags (count : ℕ) : BitVec 8 := if count % 2 = 1 then 0b00110000 else 0

/-- The flags but the `F` bit of bank 0. -/
def otherFlags (vrow : Vrow β) : BitVec 8 := vrow.states &&& 0b11111110

/-- The other flags are those of the place where the thread stands. -/
def FlagsAt (vrow : Vrow β) (pc : VrowPc) (count : ℕ) : Prop :=
  ∀ flags, pc.evenFlags = some flags → otherFlags vrow = flags ^^^ oddFlags count

/-- The loader is past its test of the `F` bit of bank 0. -/
def LoadPc.Tested : LoadPc β → Prop
  | .wait _ => False
  | .store _ | .fill => True

/-- The invariant of the system. -/
structure VrowSys.Inv (s : VrowSys β) : Prop where
  flags : FlagsAt s.vrow s.pc s.count
  thread : s.pc.HoldsZero → vrowIsFilled s.vrow 0 = true
  loader : ∀ load, s.loader = some load → load.Tested → vrowIsFilled s.vrow 0 = false

/-! ### The switches and the other flags -/

lemma and_mask_xor (x y mask : BitVec 8) :
    (x ^^^ y) &&& mask = (x &&& mask) ^^^ (y &&& mask) := by
  refine BitVec.eq_of_getLsbD_eq fun i _ => ?_
  simp only [BitVec.getLsbD_and, BitVec.getLsbD_xor]
  exact Bool.and_xor_distrib_right _ _ _

lemma otherFlags_activeSwitch (vrow : Vrow β) (bankI : Fin 4) :
    otherFlags (vrowActiveSwitch vrow bankI) = otherFlags vrow ^^^ vrowActiveBit bankI := by
  have hmask : ∀ bankI, vrowActiveBit bankI &&& 0b11111110 = vrowActiveBit bankI := by decide
  rw [otherFlags, vrowActiveSwitch, and_mask_xor, hmask]
  rfl

lemma otherFlags_fillSwitch (vrow : Vrow β) (bankI : Fin 4) :
    otherFlags (vrowFillSwitch vrow bankI) =
      otherFlags vrow ^^^ if bankI = 0 then 0 else vrowFillBit bankI := by
  have hmask : ∀ bankI, vrowFillBit bankI &&& 0b11111110 =
      if bankI = 0 then 0 else vrowFillBit bankI := by decide
  rw [otherFlags, vrowFillSwitch, and_mask_xor, hmask]
  rfl

/-- One more payload switches the bits of bank 2. -/
lemma oddFlags_succ (count : ℕ) : oddFlags (count + 1) = 0b00110000 ^^^ oddFlags count := by
  rcases Nat.mod_two_eq_zero_or_one count with hmod | hmod
  · rw [oddFlags, oddFlags, if_pos (by omega), if_neg (by omega)]
    rfl
  · rw [oddFlags, oddFlags, if_neg (by omega), if_pos hmod]
    rfl

/-- A switch takes the flags of one place to those of the next one. -/
lemma FlagsAt.switch {vrow vrow' : Vrow β} {pc pc' : VrowPc} {count : ℕ} {bit : BitVec 8}
    (h : FlagsAt vrow pc count) (hvrow : otherFlags vrow' = otherFlags vrow ^^^ bit)
    (hpc : pc'.evenFlags = pc.evenFlags.map (· ^^^ bit)) : FlagsAt vrow' pc' count := by
  intro flags hflags
  rw [hpc, Option.map_eq_some_iff] at hflags
  obtain ⟨flags, hflags, rfl⟩ := hflags
  rw [hvrow, h flags hflags, BitVec.xor_assoc, BitVec.xor_comm (oddFlags count), ← BitVec.xor_assoc]

/-- Nothing is said of the flags on the way out of the loop. -/
lemma FlagsAt.of_none {vrow : Vrow β} {pc : VrowPc} {count : ℕ} (h : pc.evenFlags = none) :
    FlagsAt vrow pc count := by
  intro flags hflags
  rw [h] at hflags
  cases hflags

/-! ### One step -/

variable {funcs : BankFuncs β} {zero : β} {s s' : VrowSys β}

lemma VrowSys.inv_start (zero : β) : (VrowSys.start zero).Inv where
  flags := by
    intro flags hflags
    obtain rfl := Option.some_injective _ hflags
    show (0 ^^^ vrowActiveBit 0) &&& 0b11111110 = 2 ^^^ oddFlags 0
    decide
  thread := nofun
  loader := nofun

/-- What an operation of the thread does to the other flags, and to the bit it waits for. -/
lemma VrowSys.Inv.thread_vrow (h : s.Inv) {vrow : Vrow β} {signal : VrowSignal} {pc : VrowPc}
    (hs : vrowThreadStep funcs zero s.vrow s.pc = some (vrow, signal, pc)) :
    FlagsAt vrow pc (s.pc.countAfter s.count) ∧
    (pc.HoldsZero → vrowIsFilled vrow 0 = true) ∧
    (vrowIsFilled s.vrow 0 = false → vrowIsFilled vrow 0 = false) := by
  obtain ⟨hflags, hthread, -⟩ := h
  obtain ⟨v, at', loader, moved, count⟩ := s
  dsimp only at hflags hthread hs ⊢
  cases at' with
  | loop =>
    obtain ⟨rfl, -, rfl⟩ := Option.some_injective _ hs
    by_cases hclosed : vrow.closed = true
    · rw [if_pos hclosed]
      exact ⟨.of_none rfl, False.elim, id⟩
    · rw [if_neg hclosed]
      exact ⟨hflags, False.elim, id⟩
  | filled =>
    obtain ⟨rfl, -, rfl⟩ := Option.some_injective _ hs
    by_cases hfilled : vrowIsFilled vrow 0 = true
    · rw [if_pos hfilled]
      exact ⟨hflags, fun _ => hfilled, id⟩
    · rw [if_neg hfilled]
      exact ⟨hflags, False.elim, id⟩
  | enter =>
    obtain ⟨rfl, -, rfl⟩ := Option.some_injective _ hs
    simp only [vrowIsFilled_activeSwitch]
    exact ⟨hflags.switch (otherFlags_activeSwitch v 0) rfl, fun _ => hthread trivial, id⟩
  | sigon =>
    obtain ⟨rfl, -, rfl⟩ := Option.some_injective _ hs
    exact ⟨hflags, hthread, id⟩
  | proc k =>
    have hstates := (vrowBankProc_frame funcs v k).1
    simp only [vrowThreadStep, Option.some.injEq, Prod.mk.injEq] at hs
    obtain ⟨rfl, -, rfl⟩ := hs
    have hfilled : vrowIsFilled (vrowBankProc funcs v k).1 0 = vrowIsFilled v 0 := by
      rw [vrowIsFilled, vrowIsFilled, hstates]
    have hother : otherFlags (vrowBankProc funcs v k).1 = otherFlags v := by
      rw [otherFlags, otherFlags, hstates]
    generalize (vrowBankProc funcs v k).2 = succ
    cases succ with
    | false => exact ⟨.of_none rfl, False.elim, hfilled.trans⟩
    | true =>
      rw [FlagsAt, hother, hfilled]
      rcases proc_cases k with rfl | rfl | rfl
      · exact ⟨hflags, hthread, id⟩
      · exact ⟨hflags, hthread, id⟩
      · exact ⟨hflags, hthread, id⟩
  | activeTo swap =>
    obtain ⟨rfl, -, rfl⟩ := Option.some_injective _ hs
    simp only [vrowIsFilled_activeSwitch]
    refine ⟨hflags.switch (otherFlags_activeSwitch v _) ?_, fun hold => hthread ?_, id⟩
    · cases swap <;> rfl
    · cases swap
      · trivial
      · exact hold
  | activeFrom swap =>
    obtain ⟨rfl, -, rfl⟩ := Option.some_injective _ hs
    simp only [vrowIsFilled_activeSwitch]
    refine ⟨hflags.switch (otherFlags_activeSwitch v _) ?_, fun hold => hthread ?_, id⟩
    · cases swap <;> rfl
    · cases swap
      · trivial
      · exact hold
  | fillTo swap =>
    obtain ⟨rfl, -, rfl⟩ := Option.some_injective _ hs
    have hne : decide (0 = swap.toI) = false := by cases swap <;> rfl
    simp only [vrowIsFilled_fillSwitch, hne, Bool.xor_false]
    refine ⟨hflags.switch (otherFlags_fillSwitch v _) ?_, fun hold => hthread ?_, id⟩
    · cases swap <;> rfl
    · cases swap
      · trivial
      · exact hold
  | move swap =>
    obtain ⟨rfl, -, rfl⟩ := Option.some_injective _ hs
    refine ⟨fun flags hf => hflags flags ?_, fun hold => hthread ?_, id⟩
    · cases swap <;> exact hf
    · cases swap
      · trivial
      · exact hold
  | fillFrom swap =>
    obtain ⟨rfl, -, rfl⟩ := Option.some_injective _ hs
    refine ⟨hflags.switch (otherFlags_fillSwitch v _) ?_, ?_, fun hno => ?_⟩
    · cases swap <;> rfl
    · cases swap
      · exact False.elim
      · exact False.elim
    · cases swap
      · exact absurd (hthread trivial) (by rw [hno]; exact Bool.false_ne_true)
      · rw [vrowIsFilled_fillSwitch, hno]
        rfl
  | sigoff leave =>
    obtain ⟨rfl, -, rfl⟩ := Option.some_injective _ hs
    cases leave with
    | false =>
      refine ⟨fun flags hf => ?_, False.elim, id⟩
      obtain rfl := Option.some_injective _ hf
      rw [hflags _ rfl, VrowPc.countAfter, oddFlags_succ, ← BitVec.xor_assoc]
      rfl
    | true => exact ⟨.of_none rfl, False.elim, id⟩
  | zero =>
    obtain ⟨rfl, -, rfl⟩ := Option.some_injective _ hs
    exact ⟨.of_none rfl, False.elim, id⟩
  | empty =>
    obtain ⟨rfl, -, rfl⟩ := Option.some_injective _ hs
    refine ⟨fun flags hf => ?_, False.elim, fun _ => ?_⟩
    · obtain rfl := Option.some_injective _ hf
      show vrowStateEmpty &&& 0b11111110 = 0 ^^^ oddFlags 0
      decide
    · show decide (vrowStateEmpty &&& vrowFillBit 0 ≠ 0) = false
      decide
  | exited => cases hs

/-- The loader changes no other flag, and only its switch changes the filled bit. -/
lemma vrowBankLoadStep_cases (vrow : Vrow β) (load : LoadPc β) :
    otherFlags (vrowBankLoadStep vrow 0 load).1 = otherFlags vrow ∧
      ((load = .fill ∧ (vrowBankLoadStep vrow 0 load).2 = none ∧
          vrowIsFilled (vrowBankLoadStep vrow 0 load).1 0 = !vrowIsFilled vrow 0) ∨
        ∃ load', (vrowBankLoadStep vrow 0 load).2 = some load' ∧
          vrowIsFilled (vrowBankLoadStep vrow 0 load).1 0 = vrowIsFilled vrow 0 ∧
          (load'.Tested → vrowIsFilled vrow 0 = false ∨ load.Tested)) := by
  cases load with
  | wait payload =>
    refine ⟨rfl, Or.inr ⟨_, rfl, rfl, fun htested => Or.inl ?_⟩⟩
    by_contra hfilled
    rw [Bool.not_eq_false] at hfilled
    rw [if_pos hfilled] at htested
    exact htested
  | store payload => exact ⟨rfl, Or.inr ⟨_, rfl, rfl, fun _ => Or.inr trivial⟩⟩
  | fill =>
    refine ⟨(otherFlags_fillSwitch vrow 0).trans (BitVec.xor_zero), Or.inl ⟨rfl, rfl, ?_⟩⟩
    exact (vrowIsFilled_fillSwitch vrow 0 0).trans (Bool.xor_true _)

/-- **One step** of the system keeps the invariant. -/
lemma VrowSys.Inv.step (h : s.Inv) {l : VrowStep β} (hs : vrowSysStep funcs zero s l = some s') :
    s'.Inv := by
  cases l with
  | thread =>
    obtain ⟨⟨vrow, signal, pc⟩, hthread, rfl⟩ := Option.map_eq_some_iff.1 hs
    obtain ⟨hflags, hholds, hkeeps⟩ := h.thread_vrow hthread
    exact ⟨hflags, hholds, fun load hload htested => hkeeps (h.loader load hload htested)⟩
  | load payload =>
    simp only [vrowSysStep] at hs
    split at hs
    · obtain rfl := Option.some_injective _ hs
      refine ⟨h.flags, h.thread, fun load hload htested => ?_⟩
      obtain rfl := Option.some_injective _ hload
      exact htested.elim
    · cases hs
  | loader =>
    simp only [vrowSysStep] at hs
    split at hs
    · cases hs
    · rename_i load hload
      obtain rfl := Option.some_injective _ hs
      obtain ⟨hother, ⟨rfl, hnone, hfilled⟩ | ⟨load', hsome, hfilled, htest⟩⟩ :=
        vrowBankLoadStep_cases s.vrow load
      · have hclear := h.loader _ hload trivial
        rw [hclear] at hfilled
        refine ⟨fun flags hflags => hother.trans (h.flags flags hflags), fun _ => hfilled,
          fun load hload => ?_⟩
        rw [hnone] at hload
        cases hload
      · refine ⟨fun flags hflags => hother.trans (h.flags flags hflags),
          fun hholds => hfilled.trans (h.thread hholds), fun load'' hload'' htested => ?_⟩
        rw [hsome] at hload''
        obtain rfl := Option.some_injective _ hload''
        rw [hfilled]
        rcases htest htested with hclear | hold
        · exact hclear
        · exact h.loader load hload hold
  | close =>
    obtain rfl := Option.some_injective _ hs
    exact ⟨h.flags, h.thread, h.loader⟩

/-- **The flags after any number of payloads**: at the head of the loop the thread is active in
bank 0, and after an odd number of payloads in bank 2, too, which is then marked filled. -/
theorem flags_states {ls : List (VrowStep β)} {t : VrowSys β}
    (ht : runs (vrowSysStep funcs zero) (.start zero) ls = some t) (hloop : t.pc = .loop) :
    otherFlags t.vrow = 0b00000010 ^^^ oddFlags t.count := by
  have hinv : t.Inv := inv_of_runs (fun s l s' h hs => h.step hs) (VrowSys.inv_start zero) ht
  exact hinv.flags _ (by rw [hloop]; rfl)

/-! ## The truth of the flags -/

/-- The thread stands at a place before the processing of the first payload, or is leaving. -/
def VrowPc.Unprocessed : VrowPc → Prop
  | .loop | .filled | .enter | .sigon | .zero | .empty | .exited => True
  | _ => False

/-- The invariant of the runs that process no payload. -/
structure VrowSys.Early (s : VrowSys β) : Prop where
  pc : s.pc.Unprocessed
  count : s.count = 0
  moved : ∀ bankI, s.moved bankI = (decide (bankI = 0) && vrowIsFilled s.vrow 0)
  leaving : s.pc = .zero ∨ s.pc = .empty → otherFlags s.vrow = 0b00000010

lemma vrowIsFilled_eq_other (vrow : Vrow β) {bankI : Fin 4} (hne : bankI ≠ 0) :
    vrowIsFilled vrow bankI = (otherFlags vrow).getLsbD (bankI.val <<< 1) := by
  have hmask : ∀ bankI : Fin 4, bankI ≠ 0 →
      (0b11111110 : BitVec 8).getLsbD (bankI.val <<< 1) = true := by decide
  rw [vrowIsFilled_eq, otherFlags, BitVec.getLsbD_and, hmask bankI hne, Bool.and_true]

lemma vrowIsActive_eq_other (vrow : Vrow β) (bankI : Fin 4) :
    vrowIsActive vrow bankI = (otherFlags vrow).getLsbD (bankI.val <<< 1 + 1) := by
  have hmask : ∀ bankI : Fin 4, (0b11111110 : BitVec 8).getLsbD (bankI.val <<< 1 + 1) = true := by
    decide
  rw [vrowIsActive_eq, otherFlags, BitVec.getLsbD_and, hmask bankI, Bool.and_true]

/-- The active bit of bank 0 is off when its function runs. -/
lemma VrowSys.Inv.not_flagsTruth (h : s.Inv) (hpc : s.pc = .proc 0) : ¬ FlagsTruth s := by
  intro htruth
  have hactive := (htruth.proc 0 hpc).1 0
  have hother : otherFlags s.vrow = 0b00000000 ^^^ oddFlags s.count :=
    h.flags _ (by rw [hpc]; rfl)
  rw [vrowIsActive_eq_other, hother, oddFlags] at hactive
  revert hactive
  split
  · decide
  · decide

/-- The other flags before the first payload. -/
lemma VrowSys.Early.otherFlags (h : s.Inv) (he : s.Early) :
    otherFlags s.vrow = 0b00000010 ∨ (otherFlags s.vrow = 0 ∧ s.pc ≠ .loop) := by
  obtain ⟨hpc, hcount, -, hleaving⟩ := he
  have hflags := h.flags
  rw [hcount] at hflags
  obtain ⟨vrow, pc, loader, moved, count⟩ := s
  cases pc with
  | loop => exact Or.inl (hflags _ rfl)
  | filled => exact Or.inl (hflags _ rfl)
  | enter => exact Or.inl (hflags _ rfl)
  | sigon => exact Or.inr ⟨hflags _ rfl, nofun⟩
  | zero => exact Or.inl (hleaving (Or.inl rfl))
  | empty => exact Or.inl (hleaving (Or.inr rfl))
  | exited => exact Or.inr ⟨hflags _ rfl, nofun⟩
  | proc | activeTo | activeFrom | fillTo | move | fillFrom | sigoff => exact hpc.elim

/-- Before the first payload the flags tell the truth. -/
lemma VrowSys.Early.flagsTruth (h : s.Inv) (he : s.Early) : FlagsTruth s := by
  have hother := he.otherFlags h
  refine ⟨fun k hk => ?_, fun hloop bankI => ?_, fun _ bankI => ?_⟩
  · have hpc := he.pc
    rw [hk] at hpc
    exact hpc.elim
  · have hbits : ∀ bankI : Fin 4, (0b00000010#8).getLsbD (bankI.val <<< 1 + 1) =
        decide (bankI = 0) := by decide
    rcases hother with hother | ⟨-, hne⟩
    · rw [vrowIsActive_eq_other, hother]
      exact hbits bankI
    · exact absurd hloop hne
  · rw [he.moved bankI]
    by_cases hbank : bankI = 0
    · rw [hbank]
      rfl
    · have hbits : ∀ bankI : Fin 4, bankI ≠ 0 → (0b00000010#8).getLsbD (bankI.val <<< 1) = false ∧
          (0#8).getLsbD (bankI.val <<< 1) = false := by decide
      rw [decide_eq_false hbank, Bool.false_and, vrowIsFilled_eq_other s.vrow hbank]
      rcases hother with hother | ⟨hother, -⟩
      · rw [hother]
        exact (hbits bankI hbank).1
      · rw [hother]
        exact (hbits bankI hbank).2

/-- A step of the thread that does not process a payload. -/
lemma VrowSys.Early.thread (h : s.Inv) (he : s.Early) (hpc : s.pc ≠ .sigon)
    (hs : vrowSysStep funcs zero s .thread = some s') : s'.Early := by
  obtain ⟨hplace, hcount, hmoved, hleaving⟩ := he
  obtain ⟨⟨vrow, signal, pc⟩, hthread, rfl⟩ := Option.map_eq_some_iff.1 hs
  have hflags := h.flags
  obtain ⟨v, at', loader, moved, count⟩ := s
  dsimp only at hplace hcount hmoved hleaving hflags hthread hpc ⊢
  subst hcount
  cases at' with
  | loop =>
    obtain ⟨rfl, -, rfl⟩ := Option.some_injective _ hthread
    by_cases hclosed : vrow.closed = true
    · rw [if_pos hclosed]
      exact ⟨trivial, rfl, hmoved, fun _ => hflags _ rfl⟩
    · rw [if_neg hclosed]
      exact ⟨trivial, rfl, hmoved, by rintro (h | h) <;> cases h⟩
  | filled =>
    obtain ⟨rfl, -, rfl⟩ := Option.some_injective _ hthread
    by_cases hfilled : vrowIsFilled vrow 0 = true
    · rw [if_pos hfilled]
      exact ⟨trivial, rfl, hmoved, by rintro (h | h) <;> cases h⟩
    · rw [if_neg hfilled]
      exact ⟨trivial, rfl, hmoved, by rintro (h | h) <;> cases h⟩
  | enter =>
    obtain ⟨rfl, -, rfl⟩ := Option.some_injective _ hthread
    refine ⟨trivial, rfl, fun bankI => ?_, by rintro (h | h) <;> cases h⟩
    rw [vrowIsFilled_activeSwitch]
    exact hmoved bankI
  | sigon => exact absurd rfl hpc
  | zero =>
    obtain ⟨rfl, -, rfl⟩ := Option.some_injective _ hthread
    exact ⟨trivial, rfl, hmoved, fun _ => hleaving (Or.inl rfl)⟩
  | empty =>
    obtain ⟨rfl, -, rfl⟩ := Option.some_injective _ hthread
    refine ⟨trivial, rfl, fun bankI => ?_, by rintro (h | h) <;> cases h⟩
    have hempty : decide (vrowStateEmpty &&& vrowFillBit 0 ≠ 0) = false := by decide
    show false = (decide (bankI = 0) && decide (vrowStateEmpty &&& vrowFillBit 0 ≠ 0))
    rw [hempty, Bool.and_false]
  | exited => cases hthread
  | proc | activeTo | activeFrom | fillTo | move | fillFrom | sigoff => exact hplace.elim

/-- A step of the loader. -/
lemma VrowSys.Early.loaderStep (h : s.Inv) (he : s.Early)
    (hs : vrowSysStep funcs zero s .loader = some s') : s'.Early := by
  obtain ⟨hpc, hcount, hmoved, hleaving⟩ := he
  simp only [vrowSysStep] at hs
  split at hs
  · cases hs
  · rename_i load hload
    obtain rfl := Option.some_injective _ hs
    obtain ⟨hother, ⟨rfl, hnone, hfilled⟩ | ⟨load', hsome, hfilled, -⟩⟩ :=
      vrowBankLoadStep_cases s.vrow load
    · -- the switch of the loader turns the filled bit on
      have hclear := h.loader _ hload trivial
      refine ⟨hpc, hcount, fun bankI => ?_, fun hpc => hother.trans (hleaving hpc)⟩
      dsimp only
      rw [hfilled, hclear, hnone, Option.isNone_none, if_pos rfl, Bool.not_false, Bool.and_true]
      by_cases hbank : bankI = 0
      · rw [hbank, Function.update_self]
        rfl
      · rw [Function.update_of_ne hbank, hmoved, decide_eq_false hbank, Bool.false_and]
    · refine ⟨hpc, hcount, fun bankI => ?_, fun hpc => hother.trans (hleaving hpc)⟩
      dsimp only
      rw [hfilled, hsome, Option.isNone_some, if_neg Bool.false_ne_true]
      exact hmoved bankI

/-- A step that does not process a payload. -/
lemma VrowSys.Early.step (h : s.Inv) (he : s.Early) {l : VrowStep β} (hl : DoesNotProcess s l)
    (hs : vrowSysStep funcs zero s l = some s') : s'.Early := by
  cases l with
  | thread => exact he.thread h (fun hpc => hl ⟨rfl, hpc⟩) hs
  | load payload =>
    simp only [vrowSysStep] at hs
    split at hs
    · obtain rfl := Option.some_injective _ hs
      exact ⟨he.pc, he.count, he.moved, he.leaving⟩
    · cases hs
  | loader => exact he.loaderStep h hs
  | close =>
    obtain rfl := Option.some_injective _ hs
    exact ⟨he.pc, he.count, he.moved, he.leaving⟩

lemma VrowSys.early_start (zero : β) : (VrowSys.start zero).Early where
  pc := trivial
  count := rfl
  moved := by
    intro bankI
    have hempty : decide ((0 ^^^ vrowActiveBit 0) &&& vrowFillBit 0 ≠ 0) = false := by decide
    show false = (decide (bankI = 0) && decide ((0 ^^^ vrowActiveBit 0) &&& vrowFillBit 0 ≠ 0))
    rw [hempty, Bool.and_false]
  leaving := by rintro (h | h) <;> cases h

/-- **The flags tell the truth** in every state of a run if and only if the run processes no
payload. -/
theorem flagsTruth_always_iff {ls : List (VrowStep β)}
    (hls : AllSteps (vrowSysStep funcs zero) (fun s l => (vrowSysStep funcs zero s l).isSome)
      (.start zero) ls) :
    Always (vrowSysStep funcs zero) FlagsTruth (.start zero) ls ↔
      AllSteps (vrowSysStep funcs zero) DoesNotProcess (.start zero) ls := by
  refine always_iff_allSteps (I := fun s => s.Inv ∧ s.Early) (fun s h => h.2.flagsTruth h.1)
    (fun s l _ hsome _ => Option.isSome_iff_exists.1 hsome)
    (fun s l s' h _ hl hs => ⟨h.1.step hs, h.2.step h.1 hl hs⟩) (fun s l s' h _ hs htruth => ?_)
    ⟨VrowSys.inv_start zero, VrowSys.early_start zero⟩ hls
  rintro ⟨rfl, hpc⟩
  obtain ⟨⟨vrow, signal, pc⟩, hthread, rfl⟩ := Option.map_eq_some_iff.1 hs
  rw [hpc] at hthread
  obtain ⟨-, -, rfl⟩ := Option.some_injective _ hthread
  exact (h.1.step hs).not_flagsTruth rfl htruth

end

/-! ## Two runs -/

/-- Functions for which every payload is valid. -/
def validFuncs : BankFuncs Unit := ⟨some fun _ => (id, true), true⟩

/-- A payload is loaded. -/
def loadOnly : List (VrowStep Unit) := [.load (), .loader, .loader, .loader, .thread, .thread]

/-- A payload is loaded, and the thread goes into bank 0. -/
def loadAndProcess : List (VrowStep Unit) := loadOnly ++ [.thread, .thread]

instance (s : VrowSys Unit) (l : VrowStep Unit) : Decidable (DoesNotProcess s l) :=
  inferInstanceAs (Decidable (¬ (_ ∧ _)))

theorem flagsTruth_always_iff_loadOnly :
    Always (vrowSysStep validFuncs ()) FlagsTruth (.start ()) loadOnly ↔
      AllSteps (vrowSysStep validFuncs ()) DoesNotProcess (.start ()) loadOnly :=
  flagsTruth_always_iff (by decide +kernel)

/-- When the function of bank 0 runs for the first payload, no bank is marked active. -/
theorem loadAndProcess_not_flagsTruth :
    ¬ Always (vrowSysStep validFuncs ()) FlagsTruth (.start ()) loadAndProcess := by
  intro h
  obtain ⟨t, ht, htruth⟩ := always_last h
  have hrun : (runs (vrowSysStep validFuncs ()) (.start ()) loadAndProcess).map VrowSys.pc =
      some (.proc 0) := by decide +kernel
  rw [ht] at hrun
  have hinv : t.Inv := inv_of_runs (fun s l s' h hs => h.step hs) (VrowSys.inv_start ()) ht
  exact hinv.not_flagsTruth (Option.some_injective _ hrun) htruth

end AxVirtLayer
