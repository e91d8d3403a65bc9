import AxVirtLayer.Pipe.Worker

/-!
# The payloads in the queue

Whether every payload that `sched_push` took in gets into one vrow bank.  The bit of a bucket is
set before the bucket is written and cleared before it is read, so that the bit alone says
neither that a payload is there nor that the bucket may be written, and it is cleared a second
time after the payload has been loaded.  `queueKeeps_of_ordered` says which orders of the steps
keep every payload: a bucket is claimed when it is free and `sched_main` is done with it, and read
when it has been written.
-/

namespace AxVirtLayer

open Lib

/-! ## The property -/

/-- What `sched_main` has done with a bucket it took: not read it yet, read it, copied it into a
bank. -/
inductive HandStage (β : Type)
  | away
  | unread
  | read (slot : Slot β)
  | stored
deriving DecidableEq, Repr

section

variable {β : Type}

/-- The bucket in the hand of `sched_main`, from the `fetch_and` of its bit to the second one. -/
def SchedPc.stage (i : ℕ) : SchedPc β → HandStage β
  | .unsig _ _ (.ret (some bucketI)) | .pop _ bucketI => if bucketI = i then .unread else .away
  | .load _ bucketI call (.wait payload) | .load _ bucketI call (.store payload) =>
    if bucketI = i then .read ⟨payload, call⟩ else .away
  | .load _ bucketI _ .fill | .sigoff bucketI => if bucketI = i then .stored else .away
  | _ => .away

/-- The call has claimed the bucket and has not written it. -/
def PushPc.Writing (i : ℕ) : PushPc → Prop
  | .sig (.ret (some index)) | .copy index => index = i
  | _ => False

/-- The call has written its bucket. -/
def PushPc.Written : PushPc → Prop
  | .count _ | .done true => True
  | _ => False

namespace SchedSys

variable (s : SchedSys β)

/-- The call `c` has claimed the bucket and has not written it. -/
def Writes (c i : ℕ) : Prop := ∃ push, s.pushes c = some push ∧ push.pc.Writing i

/-- The payload of a call that has written its bucket. -/
def Pushed (slot : Slot β) : Prop :=
  ∃ c push, slot = ⟨push.payload, some c⟩ ∧ s.pushes c = some push ∧ push.pc.Written

/-- The payload of a call that has returned `true`. -/
def Returned (slot : Slot β) : Prop :=
  ∃ c push, slot = ⟨push.payload, some c⟩ ∧ s.pushes c = some push ∧ push.pc = .done true

/-- The payload is in a bucket whose bit is set; the bit is not that of a call that has yet to
write the bucket. -/
def InBucket (slot : Slot β) (i : ℕ) : Prop :=
  syncMapIssig s.queue.smapDesc.map i = true ∧ (∀ c, ¬ s.Writes c i) ∧
    s.queue.bucketBase i = slot

/-- The payload is in the bucket that `sched_main` has taken and not yet copied into a bank. -/
def InHand (slot : Slot β) (i : ℕ) : Prop :=
  (s.pc.stage i = .unread ∨ ∃ arg, s.pc.stage i = .read arg) ∧ (∀ c, ¬ s.Writes c i) ∧
    s.queue.bucketBase i = slot

/-- The copies of the payloads of a call into vrow banks. -/
def copies (call : Option ℕ) : List (Slot β) :=
  s.loaded.filter fun slot => decide (slot.call = call)

/-- **The queue keeps the payloads.**  Each payload whose push has returned `true` is in exactly
one bucket with its bit set, or in the one that `sched_main` has taken, or was copied into a vrow
bank exactly once; and nothing else was copied into a vrow bank. -/
structure QueueKeeps : Prop where
  once : ∀ slot, s.Returned slot →
    ((∃! i, s.InBucket slot i) ∧ (¬ ∃ i, s.InHand slot i) ∧ s.copies slot.call = []) ∨
    ((¬ ∃ i, s.InBucket slot i) ∧ (∃! i, s.InHand slot i) ∧ s.copies slot.call = []) ∨
    ((¬ ∃ i, s.InBucket slot i) ∧ (¬ ∃ i, s.InHand slot i) ∧ s.copies slot.call = [slot])
  others : ∀ slot ∈ s.loaded, s.Returned slot

/-! ## The order of the steps -/

/-- The steps come in order: the `fetch_or` of a push finds its bit clear and the bucket not in
the hand of `sched_main`; `sched_main` reads a bucket that no call has yet to write; and it
copies a payload into a bank when the call that pushed it has returned. -/
def Ordered : SchedStep β → Prop
  | .pushStep c => ∀ push quad sigi, s.pushes c = some push → push.pc = .sig (.claim quad sigi) →
      syncMapIssig s.queue.smapDesc.map (sigi + 64 * quad) = false ∧
        s.pc.stage (sigi + 64 * quad) = .away
  | .sched =>
    (∀ vrowI bucketI, s.pc = .pop vrowI bucketI → ∀ c, ¬ s.Writes c bucketI) ∧
      ∀ vrowI bucketI c payload, s.pc = .load vrowI bucketI (some c) (.store payload) →
        ∀ push, s.pushes c = some push → push.pc = .done true
  | _ => True

end SchedSys

/-! ## The state of a bucket -/

/-- The life of a bucket: claimed by a call, full with its payload, taken by `sched_main` (before
the call has written it, or after), and copied into a bank. -/
inductive BucketState
  | free
  | claimed (c : ℕ)
  | full (c : ℕ)
  | early (c : ℕ)
  | taken (c : ℕ)
  | stored
deriving DecidableEq, Repr

namespace BucketState

/-- The bit of the bucket. -/
def isSet : BucketState → Bool
  | .claimed _ | .full _ => true
  | _ => false

/-- The call whose payload is in the bucket and not yet in a bank. -/
def content : BucketState → Option ℕ
  | .full c | .taken c => some c
  | _ => none

/-- The call that has yet to write the bucket. -/
def writer : BucketState → Option ℕ
  | .claimed c | .early c => some c
  | _ => none

/-- The state after the copy of the payload into the bucket. -/
def written : BucketState → BucketState
  | .claimed c => .full c
  | .early c => .taken c
  | b => b

/-- The state after the `fetch_and` of `sched_main`. -/
def take : BucketState → BucketState
  | .claimed c => .early c
  | .full c => .taken c
  | b => b

/-- The state goes with what `sched_main` has in its hand. -/
def Fits (slot : Slot β) : BucketState → HandStage β → Prop
  | .free, .away | .claimed _, .away | .full _, .away => True
  | .early _, .unread | .taken _, .unread => True
  | .taken _, .read arg => arg = slot
  | .stored, .stored => True
  | _, _ => False

lemma written_spec {b : BucketState} {c : ℕ} (h : b.writer = some c) :
    b.content = none ∧ b.written.content = some c ∧ b.written.writer = none ∧
      b.written.isSet = b.isSet ∧
      ∀ (slot slot' : Slot β) stage, b.Fits slot stage → b.written.Fits slot' stage := by
  cases b with
  | claimed c' =>
    refine ⟨rfl, h, rfl, rfl, fun slot slot' stage hfits => ?_⟩
    cases stage with
    | away => trivial
    | _ => exact hfits.elim
  | early c' =>
    refine ⟨rfl, h, rfl, rfl, fun slot slot' stage hfits => ?_⟩
    cases stage with
    | unread => trivial
    | _ => exact hfits.elim
  | _ => cases h

lemma take_spec {b : BucketState} (h : b.isSet = true) :
    b.take.isSet = false ∧ b.take.content = b.content ∧ b.take.writer = b.writer ∧
      ∀ slot : Slot β, b.take.Fits slot .unread := by
  cases b with
  | claimed c => exact ⟨rfl, rfl, rfl, fun _ => trivial⟩
  | full c => exact ⟨rfl, rfl, rfl, fun _ => trivial⟩
  | _ => cases h

variable {b : BucketState} {slot : Slot β} {stage : HandStage β}

/-- A free bucket is out of the hand of `sched_main`. -/
lemma Fits.eq_away (h : BucketState.free.Fits slot stage) : stage = .away := by
  cases stage with
  | away => rfl
  | _ => exact h.elim

/-- A bucket out of the hand of `sched_main` whose bit is clear. -/
lemma Fits.eq_free (h : b.Fits slot .away) (hclear : b.isSet = false) : b = .free := by
  cases b with
  | free => rfl
  | claimed c => cases hclear
  | full c => cases hclear
  | _ => exact h.elim

/-- A bucket that `sched_main` has read. -/
lemma Fits.of_read {arg : Slot β} (h : b.Fits slot (.read arg)) :
    ∃ c, b = .taken c ∧ arg = slot := by
  cases b with
  | taken c => exact ⟨c, rfl, h⟩
  | _ => exact h.elim

/-- A bucket whose payload `sched_main` has copied into a bank. -/
lemma Fits.eq_stored (h : b.Fits slot .stored) : b = .stored := by
  cases b with
  | stored => rfl
  | _ => exact h.elim

/-- A bucket in the hand of `sched_main` that is not to be written any more. -/
lemma Fits.eq_taken (h : b.Fits slot stage) (hwriter : b.writer = none)
    (hstage : stage = .unread ∨ ∃ arg, stage = .read arg) : ∃ c, b = .taken c := by
  rcases hstage with rfl | ⟨arg, rfl⟩
  · cases b with
    | taken c => exact ⟨c, rfl⟩
    | early c => cases hwriter
    | _ => exact h.elim
  · obtain ⟨c, hc, -⟩ := h.of_read
    exact ⟨c, hc⟩

end BucketState

/-- **The states of the buckets** go with the map, the buckets, the calls and the history. -/
structure QueueRel (s : SchedSys β) (σ : ℕ → BucketState) : Prop where
  bit : ∀ i, syncMapIssig s.queue.smapDesc.map i = (σ i).isSet
  inside : ∀ i, σ i ≠ .free → i < 64
  writer : ∀ i c, (σ i).writer = some c ↔ s.Writes c i
  content : ∀ i c, (σ i).content = some c →
    s.Pushed (s.queue.bucketBase i) ∧ (s.queue.bucketBase i).call = some c
  distinct : ∀ i j c, (σ i).content = some c → (σ j).content = some c → i = j
  hand : ∀ i, (σ i).Fits (s.queue.bucketBase i) (s.pc.stage i)
  placed : ∀ slot c, slot.call = some c → s.Pushed slot →
    (∃ i, (σ i).content = some c) ∨ slot ∈ s.loaded
  fresh : ∀ i c, (σ i).content = some c → ∀ slot ∈ s.loaded, slot.call ≠ some c
  loaded : ∀ slot ∈ s.loaded, s.Returned slot
  nodup : (s.loaded.map Slot.call).Nodup

/-! ### The calls -/

variable {s s' : SchedSys β} {σ : ℕ → BucketState} {i c : ℕ}

/-- A call has one payload. -/
lemma SchedSys.Pushed.eq {slot slot' : Slot β} (h : s.Pushed slot) (h' : s.Pushed slot')
    (hcall : slot.call = slot'.call) : slot = slot' := by
  obtain ⟨c, push, rfl, hpush, -⟩ := h
  obtain ⟨c', push', rfl, hpush', -⟩ := h'
  obtain rfl := Option.some_injective _ hcall
  rw [hpush] at hpush'
  rw [Option.some_injective _ hpush']

lemma SchedSys.Returned.pushed {slot : Slot β} (h : s.Returned slot) : s.Pushed slot := by
  obtain ⟨c, push, rfl, hpush, hpc⟩ := h
  exact ⟨c, push, rfl, hpush, by rw [hpc]; trivial⟩

/-- The calls that have yet to write a bucket, after a step of the call `c`. -/
lemma writes_update {push : Push β} (hpushes : s'.pushes = Function.update s.pushes c (some push))
    (c' i : ℕ) : s'.Writes c' i ↔ (c' = c ∧ push.pc.Writing i) ∨ (c' ≠ c ∧ s.Writes c' i) := by
  rw [SchedSys.Writes, SchedSys.Writes, hpushes]
  by_cases hc : c' = c
  · subst hc
    rw [Function.update_self]
    constructor
    · rintro ⟨push', heq, hpc⟩
      obtain rfl := Option.some_injective _ heq
      exact Or.inl ⟨rfl, hpc⟩
    · rintro (⟨-, hpc⟩ | ⟨hne, -⟩)
      · exact ⟨push, rfl, hpc⟩
      · exact absurd rfl hne
  · rw [Function.update_of_ne hc]
    constructor
    · exact fun h => Or.inr ⟨hc, h⟩
    · rintro (⟨heq, -⟩ | ⟨-, h⟩)
      · exact absurd heq hc
      · exact h

/-- The payloads that were written, after a step of the call `c`. -/
lemma pushed_update {push : Push β} (hpushes : s'.pushes = Function.update s.pushes c (some push))
    (slot : Slot β) : s'.Pushed slot ↔
      (slot = ⟨push.payload, some c⟩ ∧ push.pc.Written) ∨ (slot.call ≠ some c ∧ s.Pushed slot) := by
  rw [SchedSys.Pushed, SchedSys.Pushed, hpushes]
  constructor
  · rintro ⟨c', push', rfl, hpush, hpc⟩
    by_cases hc : c' = c
    · subst hc
      rw [Function.update_self] at hpush
      obtain rfl := Option.some_injective _ hpush
      exact Or.inl ⟨rfl, hpc⟩
    · rw [Function.update_of_ne hc] at hpush
      exact Or.inr ⟨fun h => hc (Option.some_injective _ h), c', push', rfl, hpush, hpc⟩
  · rintro (⟨rfl, hpc⟩ | ⟨hne, c', push', rfl, hpush, hpc⟩)
    · exact ⟨c, push, rfl, Function.update_self .., hpc⟩
    · have hc : c' ≠ c := fun h => hne (by rw [h])
      exact ⟨c', push', rfl, by rw [Function.update_of_ne hc]; exact hpush, hpc⟩

/-- The payloads whose push has returned stay, after a step of a call that has not returned. -/
lemma returned_update {push push' : Push β} (hpush : s.pushes c = some push)
    (hdone : push.pc ≠ .done true)
    (hpushes : s'.pushes = Function.update s.pushes c (some push')) {slot : Slot β}
    (h : s.Returned slot) : s'.Returned slot := by
  obtain ⟨c', push'', rfl, hpush'', hpc⟩ := h
  have hc : c' ≠ c := by
    rintro rfl
    rw [hpush] at hpush''
    obtain rfl := Option.some_injective _ hpush''
    exact hdone hpc
  exact ⟨c', push'', rfl, by rw [hpushes, Function.update_of_ne hc]; exact hpush'', hpc⟩

namespace QueueRel

/-! ### The steps -/

/-- A step that changes none of what the relation speaks of. -/
lemma congr (h : QueueRel s σ) (hmap : s'.queue.smapDesc.map = s.queue.smapDesc.map)
    (hbase : s'.queue.bucketBase = s.queue.bucketBase) (hloaded : s'.loaded = s.loaded)
    (hwrites : ∀ c i, s'.Writes c i ↔ s.Writes c i)
    (hpushed : ∀ slot, s'.Pushed slot ↔ s.Pushed slot)
    (hreturned : ∀ slot, s.Returned slot → s'.Returned slot)
    (hhand : ∀ i, (σ i).Fits (s.queue.bucketBase i) (s'.pc.stage i)) : QueueRel s' σ where
  bit := by
    rw [hmap]
    exact h.bit
  inside := h.inside
  writer := fun i c => (h.writer i c).trans (hwrites c i).symm
  content := fun i c hc => by
    rw [hbase, hpushed]
    exact h.content i c hc
  distinct := h.distinct
  hand := fun i => by
    rw [hbase]
    exact hhand i
  placed := fun slot c hc hslot => by
    rw [hloaded]
    exact h.placed slot c hc ((hpushed slot).1 hslot)
  fresh := by
    rw [hloaded]
    exact h.fresh
  loaded := fun slot hslot => hreturned slot (h.loaded slot (hloaded ▸ hslot))
  nodup := by
    rw [hloaded]
    exact h.nodup

/-- A step that changes the state of one bucket. -/
lemma update (h : QueueRel s σ) {b : BucketState} (hi : i < 64)
    (hmap : ∀ j, syncMapIssig s'.queue.smapDesc.map j =
      if j = i then b.isSet else syncMapIssig s.queue.smapDesc.map j)
    (hbase : ∀ j, j ≠ i → s'.queue.bucketBase j = s.queue.bucketBase j)
    (hwrites : ∀ c j, s'.Writes c j ↔ if j = i then b.writer = some c else s.Writes c j)
    (hpushed : ∀ slot, s.Pushed slot → s'.Pushed slot)
    (hhand : b.Fits (s'.queue.bucketBase i) (s'.pc.stage i))
    (hstage : ∀ j, j ≠ i → s'.pc.stage j = s.pc.stage j)
    (hcontent : ∀ c, b.content = some c → s'.Pushed (s'.queue.bucketBase i) ∧
      (s'.queue.bucketBase i).call = some c ∧ ∀ j, j ≠ i → (σ j).content ≠ some c)
    (hplaced : ∀ slot c, slot.call = some c → s'.Pushed slot →
      (s.Pushed slot ∧ (σ i).content ≠ some c) ∨ b.content = some c ∨ slot ∈ s'.loaded)
    (hfresh : ∀ c, (b.content = some c ∨ ∃ j, j ≠ i ∧ (σ j).content = some c) →
      ∀ slot ∈ s'.loaded, slot.call ≠ some c)
    (hmem : ∀ slot ∈ s.loaded, slot ∈ s'.loaded)
    (hloaded : ∀ slot ∈ s'.loaded, s'.Returned slot) (hnodup : (s'.loaded.map Slot.call).Nodup) :
    QueueRel s' (Function.update σ i b) := by
  have hself : Function.update σ i b i = b := Function.update_self ..
  have hne : ∀ j, j ≠ i → Function.update σ i b j = σ j := fun j hj => Function.update_of_ne hj ..
  refine ⟨fun j => ?_, fun j hj => ?_, fun j c' => ?_, fun j c' hc' => ?_, fun j k c' hj hk => ?_,
    fun j => ?_, fun slot c' hc' hslot => ?_, fun j c' hj => ?_, hloaded, hnodup⟩
  · by_cases hj : j = i
    · rw [hmap, if_pos hj, hj, hself]
    · rw [hmap, if_neg hj, hne j hj, h.bit]
  · by_cases hji : j = i
    · exact hji ▸ hi
    · exact h.inside j (hne j hji ▸ hj)
  · by_cases hj : j = i
    · rw [hwrites, if_pos hj, hj, hself]
    · rw [hwrites, if_neg hj, hne j hj, h.writer]
  · by_cases hj : j = i
    · rw [hj, hself] at hc'
      rw [hj]
      exact ⟨(hcontent c' hc').1, (hcontent c' hc').2.1⟩
    · rw [hne j hj] at hc'
      rw [hbase j hj]
      exact ⟨hpushed _ (h.content j c' hc').1, (h.content j c' hc').2⟩
  · by_cases hji : j = i
    · by_cases hki : k = i
      · exact hji.trans hki.symm
      · rw [hji, hself] at hj
        rw [hne k hki] at hk
        exact absurd hk ((hcontent c' hj).2.2 k hki)
    · rw [hne j hji] at hj
      by_cases hki : k = i
      · rw [hki, hself] at hk
        exact absurd hj ((hcontent c' hk).2.2 j hji)
      · rw [hne k hki] at hk
        exact h.distinct j k c' hj hk
  · by_cases hj : j = i
    · rw [hj, hself]
      exact hhand
    · rw [hne j hj, hbase j hj, hstage j hj]
      exact h.hand j
  · rcases hplaced slot c' hc' hslot with ⟨hold, hnot⟩ | hb | hin
    · rcases h.placed slot c' hc' hold with ⟨j, hj⟩ | hin
      · have hji : j ≠ i := fun hji => hnot (hji ▸ hj)
        exact Or.inl ⟨j, by rw [hne j hji]; exact hj⟩
      · exact Or.inr (hmem slot hin)
    · exact Or.inl ⟨i, by rw [hself]; exact hb⟩
    · exact Or.inr hin
  · by_cases hji : j = i
    · rw [hji, hself] at hj
      exact hfresh c' (Or.inl hj)
    · rw [hne j hji] at hj
      exact hfresh c' (Or.inr ⟨j, hji, hj⟩)

/-- **The `fetch_or` of a push** on a free bucket. -/
lemma claim (h : QueueRel s σ) (hi : i < 64) (hfree : σ i = .free)
    (hmap : s'.queue.smapDesc.map = syncMapSigon s.queue.smapDesc.map i)
    (hbase : s'.queue.bucketBase = s.queue.bucketBase) (hloaded : s'.loaded = s.loaded)
    (hwrites : ∀ c' j, s'.Writes c' j ↔ s.Writes c' j ∨ (c' = c ∧ j = i))
    (hpushed : ∀ slot, s'.Pushed slot ↔ s.Pushed slot)
    (hreturned : ∀ slot, s.Returned slot → s'.Returned slot)
    (hpc : s'.pc = s.pc) : QueueRel s' (Function.update σ i (.claimed c)) := by
  have hnone : (σ i).content = none := by rw [hfree]; rfl
  refine h.update hi (fun j => ?_) (fun j _ => by rw [hbase]) (fun c' j => ?_)
    (fun slot => (hpushed slot).2) ?_ (fun j _ => by rw [hpc]) nofun (fun slot c' _ hslot => ?_)
    (fun c' hc' => ?_) (by rw [hloaded]; exact fun _ => id) ?_ (by rw [hloaded]; exact h.nodup)
  · rw [hmap, syncMapIssig_sigon]
    by_cases hj : j = i
    · rw [if_pos hj, decide_eq_true hj, Bool.or_true]
      rfl
    · rw [if_neg hj, decide_eq_false hj, Bool.or_false]
  · rw [hwrites]
    by_cases hj : j = i
    · have hno : ¬ s.Writes c' i := fun hw => by
        rw [← h.writer, hfree] at hw
        cases hw
      rw [if_pos hj, hj]
      constructor
      · rintro (hw | ⟨rfl, -⟩)
        · exact absurd hw hno
        · rfl
      · exact fun hc => Or.inr ⟨(Option.some_injective _ hc).symm, rfl⟩
    · rw [if_neg hj]
      constructor
      · rintro (hw | ⟨-, heq⟩)
        · exact hw
        · exact absurd heq hj
      · exact Or.inl
  · have hhand := h.hand i
    rw [hfree] at hhand
    rw [hpc, hbase, hhand.eq_away]
    trivial
  · exact Or.inl ⟨(hpushed slot).1 hslot, by rw [hnone]; nofun⟩
  · rcases hc' with hc' | ⟨j, -, hj⟩
    · cases hc'
    · rw [hloaded]
      exact h.fresh j c' hj
  · rw [hloaded]
    exact fun slot hslot => hreturned slot (h.loaded slot hslot)

/-- **The copy of a push** into its bucket. -/
lemma write (h : QueueRel s σ) {push : Push β} (hpush : s.pushes c = some push)
    (hcopy : push.pc = .copy i) (hmap : s'.queue.smapDesc.map = s.queue.smapDesc.map)
    (hbase : s'.queue.bucketBase = Function.update s.queue.bucketBase i ⟨push.payload, some c⟩)
    (hpushes : s'.pushes = Function.update s.pushes c (some { push with pc := .count i }))
    (hloaded : s'.loaded = s.loaded) (hpc : s'.pc = s.pc) :
    QueueRel s' (Function.update σ i (σ i).written) := by
  have hwriter : (σ i).writer = some c := (h.writer i c).2 ⟨push, hpush, by rw [hcopy]; rfl⟩
  obtain ⟨hnone, hcontent, hfree, hset, hfits⟩ :=
    BucketState.written_spec (β := β) hwriter
  -- the call has not written a bucket before
  have hnew : ∀ slot : Slot β, slot.call = some c → ¬ s.Pushed slot := by
    rintro slot hcall ⟨c', push', rfl, hpush', hwritten⟩
    obtain rfl := Option.some_injective _ hcall
    rw [hpush] at hpush'
    obtain rfl := Option.some_injective _ hpush'
    rw [hcopy] at hwritten
    exact hwritten
  have hpushed : ∀ slot, s'.Pushed slot ↔ (slot = ⟨push.payload, some c⟩ ∧ True) ∨
      (slot.call ≠ some c ∧ s.Pushed slot) := pushed_update hpushes
  have hslot : s'.queue.bucketBase i = ⟨push.payload, some c⟩ := by
    rw [hbase, Function.update_self]
  have hi : i < 64 := h.inside i fun hfree' => by
    rw [hfree'] at hwriter
    cases hwriter
  refine h.update hi (fun j => ?_) (fun j hj => by rw [hbase, Function.update_of_ne hj])
    (fun c' j => ?_) (fun slot hslot => ?_) ?_ (fun j _ => by rw [hpc]) (fun c' hc' => ?_)
    (fun slot c' hc' hslot => ?_) (fun c' hc' => ?_) (by rw [hloaded]; exact fun _ => id) ?_
    (by rw [hloaded]; exact h.nodup)
  · by_cases hj : j = i
    · rw [if_pos hj, hmap, hset, hj, h.bit]
    · rw [if_neg hj, hmap]
  · rw [writes_update hpushes]
    by_cases hj : j = i
    · rw [if_pos hj, hj, hfree]
      constructor
      · rintro (⟨-, hw⟩ | ⟨hne, hw⟩)
        · exact hw.elim
        · rw [← h.writer, hwriter] at hw
          exact absurd (Option.some_injective _ hw).symm hne
      · nofun
    · rw [if_neg hj]
      constructor
      · rintro (⟨-, hw⟩ | ⟨-, hw⟩)
        · exact hw.elim
        · exact hw
      · intro hw
        refine Or.inr ⟨?_, hw⟩
        rintro rfl
        -- the call writes one bucket only
        obtain ⟨push', hpush', hwriting⟩ := hw
        rw [hpush] at hpush'
        obtain rfl := Option.some_injective _ hpush'
        rw [hcopy] at hwriting
        exact hj hwriting.symm
  · exact (hpushed slot).2 (Or.inr ⟨fun hcall => hnew slot hcall hslot, hslot⟩)
  · rw [hpc]
    exact hfits _ _ _ (h.hand i)
  · rw [hcontent] at hc'
    obtain rfl := Option.some_injective _ hc'
    rw [hslot]
    refine ⟨(hpushed _).2 (Or.inl ⟨rfl, trivial⟩), rfl, fun j _ hj => ?_⟩
    obtain ⟨hold, hcall⟩ := h.content j c hj
    exact hnew _ hcall hold
  · rcases (hpushed slot).1 hslot with ⟨rfl, -⟩ | ⟨-, hold⟩
    · obtain rfl := Option.some_injective _ hc'
      exact Or.inr (Or.inl hcontent)
    · exact Or.inl ⟨hold, by rw [hnone]; nofun⟩
  · rw [hloaded]
    rcases hc' with hc' | ⟨j, -, hj⟩
    · rw [hcontent] at hc'
      obtain rfl := Option.some_injective _ hc'
      exact fun slot hslot hcall => hnew slot hcall (h.loaded slot hslot).pushed
    · exact h.fresh j c' hj
  · rw [hloaded]
    exact fun slot hslot =>
      returned_update hpush (by rw [hcopy]; nofun) hpushes (h.loaded slot hslot)

/-- **The `fetch_and` of `sched_main`.** -/
lemma take (h : QueueRel s σ) (hset : syncMapIssig s.queue.smapDesc.map i = true)
    (hmap : s'.queue.smapDesc.map = syncMapSigoff s.queue.smapDesc.map i)
    (hbase : s'.queue.bucketBase = s.queue.bucketBase) (hpushes : s'.pushes = s.pushes)
    (hloaded : s'.loaded = s.loaded) (hstage : s'.pc.stage i = .unread)
    (hother : ∀ j, j ≠ i → s'.pc.stage j = s.pc.stage j) :
    QueueRel s' (Function.update σ i (σ i).take) := by
  rw [h.bit] at hset
  obtain ⟨hclear, hcontent, hwriter, hfits⟩ := BucketState.take_spec (β := β) hset
  have hi : i < 64 := h.inside i fun hfree => by
    rw [hfree] at hset
    cases hset
  have hpushed : ∀ slot, s'.Pushed slot ↔ s.Pushed slot := fun slot => by
    rw [SchedSys.Pushed, SchedSys.Pushed, hpushes]
  refine h.update hi (fun j => ?_) (fun j _ => by rw [hbase]) (fun c' j => ?_)
    (fun slot => (hpushed slot).2) (by rw [hstage]; exact hfits _) hother (fun c' hc' => ?_)
    (fun slot c' hc' hslot => ?_) (fun c' hc' => ?_) (by rw [hloaded]; exact fun _ => id) ?_
    (by rw [hloaded]; exact h.nodup)
  · rw [hmap, syncMapIssig_sigoff, hclear]
    by_cases hj : j = i
    · rw [if_pos hj, decide_eq_false (not_not.2 hj), Bool.and_false]
    · rw [if_neg hj, decide_eq_true hj, Bool.and_true]
  · rw [hwriter, SchedSys.Writes, hpushes]
    split
    · rename_i hj
      rw [hj, h.writer]
      rfl
    · rfl
  · rw [hcontent] at hc'
    rw [hbase, hpushed]
    exact ⟨(h.content i c' hc').1, (h.content i c' hc').2,
      fun j hj hcj => hj (h.distinct j i c' hcj hc')⟩
  · by_cases hc : (σ i).content = some c'
    · exact Or.inr (Or.inl (hcontent.trans hc))
    · exact Or.inl ⟨(hpushed slot).1 hslot, hc⟩
  · rw [hloaded]
    rcases hc' with hc' | ⟨j, -, hj⟩
    · exact h.fresh i c' (hcontent.symm.trans hc')
    · exact h.fresh j c' hj
  · rw [hloaded]
    intro slot hslot
    rw [SchedSys.Returned, hpushes]
    exact h.loaded slot hslot

/-- The relation speaks of the calls only. -/
lemma pushed_congr (hpushes : s'.pushes = s.pushes) (slot : Slot β) :
    s'.Pushed slot ↔ s.Pushed slot := by
  rw [SchedSys.Pushed, SchedSys.Pushed, hpushes]

lemma writes_congr (hpushes : s'.pushes = s.pushes) (c i : ℕ) : s'.Writes c i ↔ s.Writes c i := by
  rw [SchedSys.Writes, SchedSys.Writes, hpushes]

lemma returned_congr (hpushes : s'.pushes = s.pushes) (slot : Slot β) :
    s'.Returned slot ↔ s.Returned slot := by
  rw [SchedSys.Returned, SchedSys.Returned, hpushes]

/-- A bucket without a writer has none in its state. -/
lemma writer_eq_none (h : QueueRel s σ) (hwrites : ∀ c, ¬ s.Writes c i) : (σ i).writer = none := by
  cases hwriter : (σ i).writer with
  | none => rfl
  | some c => exact absurd ((h.writer i c).1 hwriter) (hwrites c)

/-- **`sched_pop` reads the bucket.** -/
lemma read (h : QueueRel s σ) (hwrites : ∀ c, ¬ s.Writes c i) (hunread : s.pc.stage i = .unread)
    (hqueue : s'.queue = s.queue) (hpushes : s'.pushes = s.pushes) (hloaded : s'.loaded = s.loaded)
    (hstage : s'.pc.stage i = .read (s.queue.bucketBase i))
    (hother : ∀ j, j ≠ i → s'.pc.stage j = s.pc.stage j) : QueueRel s' σ := by
  refine h.congr (by rw [hqueue]) (by rw [hqueue]) hloaded (writes_congr hpushes)
    (pushed_congr hpushes) (fun slot => (returned_congr hpushes slot).2) fun j => ?_
  by_cases hj : j = i
  · obtain ⟨c, hc⟩ := (h.hand i).eq_taken (h.writer_eq_none hwrites) (Or.inl hunread)
    rw [hj, hstage, hc]
    rfl
  · rw [hother j hj]
    exact h.hand j

/-- **The copy of a payload into a vrow bank.** -/
lemma store (h : QueueRel s σ) {arg : Slot β} (hread : s.pc.stage i = .read arg)
    (hdone : ∀ c push, arg.call = some c → s.pushes c = some push → push.pc = .done true)
    (hqueue : s'.queue = s.queue) (hpushes : s'.pushes = s.pushes)
    (hloaded : s'.loaded = arg :: s.loaded) (hstage : s'.pc.stage i = .stored)
    (hother : ∀ j, j ≠ i → s'.pc.stage j = s.pc.stage j) :
    QueueRel s' (Function.update σ i .stored) := by
  obtain ⟨c, hc, harg⟩ : ∃ c, σ i = .taken c ∧ arg = s.queue.bucketBase i := by
    have hhand := h.hand i
    rw [hread] at hhand
    exact hhand.of_read
  have hcontent : (σ i).content = some c := by rw [hc]; rfl
  obtain ⟨hpushed, hcall⟩ := h.content i c hcontent
  rw [← harg] at hpushed hcall
  have hreturned : s.Returned arg := by
    obtain ⟨c', push, rfl, hpush, -⟩ := hpushed
    exact ⟨c', push, rfl, hpush, hdone c' push rfl hpush⟩
  have hi : i < 64 := h.inside i (by rw [hc]; nofun)
  refine h.update hi (fun j => ?_) (fun j _ => by rw [hqueue]) (fun c' j => ?_)
    (fun slot => (pushed_congr hpushes slot).2) (by rw [hstage]; trivial) hother nofun
    (fun slot c' hc' hslot => ?_) (fun c' hc' slot hslot => ?_) (fun slot hslot => ?_)
    (fun slot hslot => ?_) ?_
  · rw [hqueue]
    by_cases hj : j = i
    · rw [if_pos hj, hj, h.bit, hc]
      rfl
    · rw [if_neg hj]
  · rw [writes_congr hpushes]
    split
    · rename_i hj
      rw [hj, ← h.writer, hc]
      rfl
    · rfl
  · by_cases hold : (σ i).content = some c'
    · obtain rfl := Option.some_injective _ (hcontent.symm.trans hold)
      have heq := ((pushed_congr hpushes slot).1 hslot).eq hreturned.pushed (hc'.trans hcall.symm)
      exact Or.inr (Or.inr (by rw [hloaded, heq]; exact List.mem_cons_self))
    · exact Or.inl ⟨(pushed_congr hpushes slot).1 hslot, hold⟩
  · rcases hc' with hc' | ⟨j, hj, hcj⟩
    · cases hc'
    · rw [hloaded] at hslot
      rcases List.mem_cons.1 hslot with rfl | hslot
      · rw [hcall]
        intro heq
        obtain rfl := Option.some_injective _ heq
        exact hj (h.distinct j i c hcj hcontent)
      · exact h.fresh j c' hcj slot hslot
  · rw [hloaded]
    exact List.mem_cons_of_mem _ hslot
  · rw [hloaded] at hslot
    rw [returned_congr hpushes]
    rcases List.mem_cons.1 hslot with rfl | hslot
    · exact hreturned
    · exact h.loaded slot hslot
  · rw [hloaded, List.map_cons, List.nodup_cons]
    refine ⟨fun hmem => ?_, h.nodup⟩
    obtain ⟨slot, hslot, heq⟩ := List.mem_map.1 hmem
    exact h.fresh i c hcontent slot hslot (heq.trans hcall)

/-- **The second `sync_map_sigoff`** of the bucket. -/
lemma drop (h : QueueRel s σ) (hstored : s.pc.stage i = .stored)
    (hmap : s'.queue.smapDesc.map = syncMapSigoff s.queue.smapDesc.map i)
    (hbase : s'.queue.bucketBase = s.queue.bucketBase) (hpushes : s'.pushes = s.pushes)
    (hloaded : s'.loaded = s.loaded) (hstage : s'.pc.stage i = .away)
    (hother : ∀ j, j ≠ i → s'.pc.stage j = s.pc.stage j) :
    QueueRel s' (Function.update σ i .free) := by
  have hc : σ i = .stored := by
    have hhand := h.hand i
    rw [hstored] at hhand
    exact hhand.eq_stored
  have hi : i < 64 := h.inside i (by rw [hc]; nofun)
  have hnone : (σ i).content = none := by rw [hc]; rfl
  refine h.update hi (fun j => ?_) (fun j _ => by rw [hbase]) (fun c' j => ?_)
    (fun slot => (pushed_congr hpushes slot).2) (by rw [hstage]; trivial) hother nofun
    (fun slot c' _ hslot => Or.inl ⟨(pushed_congr hpushes slot).1 hslot, by rw [hnone]; nofun⟩)
    (fun c' hc' => ?_) (by rw [hloaded]; exact fun _ => id) ?_ (by rw [hloaded]; exact h.nodup)
  · rw [hmap, syncMapIssig_sigoff]
    by_cases hj : j = i
    · rw [if_pos hj, decide_eq_false (not_not.2 hj), Bool.and_false]
      rfl
    · rw [if_neg hj, decide_eq_true hj, Bool.and_true]
  · rw [writes_congr hpushes]
    split
    · rename_i hj
      rw [hj, ← h.writer, hc]
      rfl
    · rfl
  · rw [hloaded]
    rcases hc' with hc' | ⟨j, -, hj⟩
    · cases hc'
    · exact h.fresh j c' hj
  · rw [hloaded]
    exact fun slot hslot => (returned_congr hpushes slot).2 (h.loaded slot hslot)

end QueueRel

/-! ## The states and the property -/

/-- In a list without two elements of one call, the elements of the call of `slot` are `slot`. -/
lemma filter_call_eq {slot : Slot β} {loaded : List (Slot β)}
    (hnodup : (loaded.map Slot.call).Nodup) (hmem : slot ∈ loaded) :
    (loaded.filter fun other => decide (other.call = slot.call)) = [slot] := by
  induction loaded with
  | nil => cases hmem
  | cons head loaded ih =>
    rw [List.map_cons, List.nodup_cons] at hnodup
    obtain ⟨hhead, hnodup⟩ := hnodup
    rcases List.mem_cons.1 hmem with rfl | hmem
    · have hrest : (loaded.filter fun other => decide (other.call = slot.call)) = [] := by
        rw [List.filter_eq_nil_iff]
        intro other hother
        rw [decide_eq_true_eq]
        exact fun heq => hhead (heq ▸ List.mem_map_of_mem hother)
      rw [List.filter_cons_of_pos (by simp), hrest]
    · have hne : head.call ≠ slot.call := fun heq =>
        hhead (heq ▸ List.mem_map_of_mem hmem)
      rw [List.filter_cons_of_neg (by simpa using hne), ih hnodup hmem]

namespace QueueRel

variable {slot : Slot β}

lemma inBucket_iff (h : QueueRel s σ) (hslot : s.Pushed slot) (hcall : slot.call = some c) :
    s.InBucket slot i ↔ σ i = .full c := by
  constructor
  · rintro ⟨hbit, hwrites, hbase⟩
    have hwriter := h.writer_eq_none hwrites
    rw [h.bit] at hbit
    cases hb : σ i with
    | full c' =>
      have hcall' := (h.content i c' (by rw [hb]; rfl)).2
      rw [hbase, hcall] at hcall'
      rw [Option.some_injective _ hcall']
    | claimed c' =>
      rw [hb] at hwriter
      cases hwriter
    | _ =>
      rw [hb] at hbit
      cases hbit
  · intro hfull
    obtain ⟨hpushed, hcall'⟩ := h.content i c (by rw [hfull]; rfl)
    refine ⟨by rw [h.bit, hfull]; rfl, fun c' hw => ?_, hpushed.eq hslot (hcall'.trans hcall.symm)⟩
    rw [← h.writer, hfull] at hw
    cases hw

lemma inHand_iff (h : QueueRel s σ) (hslot : s.Pushed slot) (hcall : slot.call = some c) :
    s.InHand slot i ↔ σ i = .taken c := by
  constructor
  · rintro ⟨hstage, hwrites, hbase⟩
    obtain ⟨c', hc'⟩ := (h.hand i).eq_taken (h.writer_eq_none hwrites) hstage
    have hcall' := (h.content i c' (by rw [hc']; rfl)).2
    rw [hbase, hcall] at hcall'
    rw [hc', Option.some_injective _ hcall']
  · intro htaken
    obtain ⟨hpushed, hcall'⟩ := h.content i c (by rw [htaken]; rfl)
    refine ⟨?_, fun c' hw => ?_, hpushed.eq hslot (hcall'.trans hcall.symm)⟩
    · have hhand := h.hand i
      rw [htaken] at hhand
      cases hstage : s.pc.stage i with
      | unread => exact Or.inl rfl
      | read arg => exact Or.inr ⟨arg, rfl⟩
      | _ =>
        rw [hstage] at hhand
        exact hhand.elim
    · rw [← h.writer, htaken] at hw
      cases hw

/-- A payload with a bucket is in no other, and was not copied into a bank. -/
lemma queueKeeps (h : QueueRel s σ) : s.QueueKeeps := by
  refine ⟨fun slot hreturned => ?_, h.loaded⟩
  have hslot := hreturned.pushed
  obtain ⟨c, hcall⟩ : ∃ c, slot.call = some c := by
    obtain ⟨c, push, rfl, -⟩ := hreturned
    exact ⟨c, rfl⟩
  simp only [h.inBucket_iff hslot hcall, h.inHand_iff hslot hcall]
  -- two buckets with the payload are one, and one bucket has one state
  have hone : ∀ i j, (σ i).content = some c → (σ j).content = some c → σ i = σ j :=
    fun i j hi hj => congrArg σ (h.distinct i j c hi hj)
  rcases h.placed slot c hcall hslot with ⟨i, hi⟩ | hmem
  · have hcopies : s.copies slot.call = [] := by
      rw [SchedSys.copies, List.filter_eq_nil_iff]
      intro other hother
      rw [decide_eq_true_eq, hcall]
      exact h.fresh i c hi other hother
    cases hb : σ i with
    | full c' =>
      have hc : c' = c := by
        rw [hb] at hi
        exact Option.some_injective _ hi
      subst hc
      refine Or.inl ⟨⟨i, hb, fun j hj => h.distinct j i c' (by rw [hj]; rfl) hi⟩, ?_, hcopies⟩
      rintro ⟨j, hj⟩
      have heq := hone i j hi (by rw [hj]; rfl)
      rw [hb, hj] at heq
      cases heq
    | taken c' =>
      have hc : c' = c := by
        rw [hb] at hi
        exact Option.some_injective _ hi
      subst hc
      refine Or.inr (Or.inl ⟨?_, ⟨i, hb, fun j hj => h.distinct j i c' (by rw [hj]; rfl) hi⟩,
        hcopies⟩)
      rintro ⟨j, hj⟩
      have heq := hone i j hi (by rw [hj]; rfl)
      rw [hb, hj] at heq
      cases heq
    | _ =>
      rw [hb] at hi
      cases hi
  · have hgone : ∀ i, (σ i).content ≠ some c := fun i hi => h.fresh i c hi slot hmem hcall
    refine Or.inr (Or.inr ⟨?_, ?_, filter_call_eq h.nodup hmem⟩)
    · rintro ⟨i, hi⟩
      exact hgone i (by rw [hi]; rfl)
    · rintro ⟨i, hi⟩
      exact hgone i (by rw [hi]; rfl)

end QueueRel

/-! ## The steps of the system -/

/-- What holds of the calls on the maps in every run: the indexes are in range, and the bucket
that `sched_main` is about to take has its bit set. -/
structure SchedSys.Bounds (cfg : SchedConfig β) (s : SchedSys β) : Prop where
  ranges : s.queue.ranges = cfg.ranges
  count : s.queue.bucketCount = 64
  push : ∀ c push quad sigi, s.pushes c = some push → push.pc = .sig (.claim quad sigi) →
    sigi < 64 ∧ sigi + 64 * quad < 64
  unsig : ∀ vrowI range quad sigi, s.pc = .unsig vrowI range (.claim quad sigi) →
    sigi < 64 ∧ sigi + 64 * quad < 64 ∧
      syncMapIssig s.queue.smapDesc.map (sigi + 64 * quad) = true
  vrow : ∀ quad sigi, s.pc = .vrow (.claim quad sigi) →
    sigi < 64 ∧ sigi + 64 * quad < cfg.vrowCount
  held : ∀ i, s.pc.Holds i → i < cfg.vrowCount

/-- The invariant of the runs whose steps come in order. -/
def SchedSys.QueueInv (cfg : SchedConfig β) (s : SchedSys β) : Prop :=
  s.Bounds cfg ∧ ∃ σ, QueueRel s σ

variable {cfg : SchedConfig β}

/-- A call on a range starts in the only quad, and ends in it. -/
lemma rangeCall_bounds (hranges : (schedQueue cfg).RangesOk) (op : MapOp) (r : Fin 4) :
    (rangeCall op (cfg.ranges r)).fromQuad = 0 ∧ (rangeCall op (cfg.ranges r)).toBitIndex ≤ 64 := by
  have hinside : (cfg.ranges r).bitI + (cfg.ranges r).bitN ≤ 64 := hranges.inside r
  have hpos : 0 < (cfg.ranges r).bitN := hranges.nonempty r
  constructor
  · show (cfg.ranges r).bitI / 64 = 0
    omega
  · show ((cfg.ranges r).bitI + (cfg.ranges r).bitN) % 2 ^ 32 ≤ 64
    omega

/-! ### A step of `sched_push` -/

/-- A step of a call that neither claims a bucket nor writes one. -/
lemma QueueRel.pushQuiet (h : QueueRel s σ) {push' : Push β}
    (hpushes : s'.pushes = Function.update s.pushes c (some push'))
    (hmap : s'.queue.smapDesc.map = s.queue.smapDesc.map)
    (hbase : s'.queue.bucketBase = s.queue.bucketBase) (hloaded : s'.loaded = s.loaded)
    (hpc : s'.pc = s.pc) (hwriting : ∀ i, push'.pc.Writing i ↔ s.Writes c i)
    (hwritten : ∀ slot, (slot = ⟨push'.payload, some c⟩ ∧ push'.pc.Written) ↔
      (slot.call = some c ∧ s.Pushed slot))
    (hreturned : ∀ slot, s.Returned slot → s'.Returned slot) : QueueRel s' σ := by
  refine h.congr hmap hbase hloaded (fun c' i => ?_) (fun slot => ?_) hreturned
    fun i => by rw [hpc]; exact h.hand i
  · rw [writes_update hpushes, hwriting]
    by_cases hc : c' = c
    · simp [hc]
    · simp [hc]
  · rw [pushed_update hpushes, hwritten]
    by_cases hc : slot.call = some c
    · simp [hc]
    · simp [hc]

/-- A call has written nothing before its copy. -/
lemma not_pushed {push : Push β} (hpush : s.pushes c = some push) (hpc : ¬ push.pc.Written)
    (slot : Slot β) : ¬ (slot.call = some c ∧ s.Pushed slot) := by
  rintro ⟨hcall, c', push', rfl, hpush', hwritten⟩
  obtain rfl := Option.some_injective _ hcall
  rw [hpush] at hpush'
  obtain rfl := Option.some_injective _ hpush'
  exact hpc hwritten

lemma writes_iff {push : Push β} (hpush : s.pushes c = some push) (i : ℕ) :
    s.Writes c i ↔ push.pc.Writing i := by
  constructor
  · rintro ⟨push', hpush', hpc⟩
    rw [hpush] at hpush'
    rwa [Option.some_injective _ hpush']
  · exact fun hpc => ⟨push, hpush, hpc⟩

/-- A step of a call inside `sync_map_sig_first` that changes no bit. -/
lemma QueueRel.pushSearch (h : QueueRel s σ) {push : Push β} {pc : PushPc}
    (hpush : s.pushes c = some push) (hold : ¬ push.pc.Written) (hnew : ¬ pc.Written)
    (hwriting : ∀ i, pc.Writing i ↔ push.pc.Writing i)
    (hpushes : s'.pushes = Function.update s.pushes c (some { push with pc := pc }))
    (hmap : s'.queue.smapDesc.map = s.queue.smapDesc.map)
    (hbase : s'.queue.bucketBase = s.queue.bucketBase) (hloaded : s'.loaded = s.loaded)
    (hpc : s'.pc = s.pc) : QueueRel s' σ := by
  refine h.pushQuiet hpushes hmap hbase hloaded hpc (fun i => ?_) (fun slot => ?_)
    fun slot => returned_update hpush (fun hdone => hold (by rw [hdone]; trivial)) hpushes
  · rw [writes_iff hpush]
    exact hwriting i
  · exact ⟨fun hw => absurd hw.2 hnew, fun hw => absurd hw (not_pushed hpush hold slot)⟩

/-- A step of a call keeps the bounds: it clears no bit. -/
lemma SchedSys.Bounds.ofPush (h : s.Bounds cfg) {push' : Push β}
    (hranges : s'.queue.ranges = s.queue.ranges)
    (hcount : s'.queue.bucketCount = s.queue.bucketCount) (hpc : s'.pc = s.pc)
    (hpushes : s'.pushes = Function.update s.pushes c (some push'))
    (hclaim : ∀ quad sigi, push'.pc = .sig (.claim quad sigi) →
      sigi < 64 ∧ sigi + 64 * quad < 64)
    (hgrow : ∀ i, syncMapIssig s.queue.smapDesc.map i = true →
      syncMapIssig s'.queue.smapDesc.map i = true) : s'.Bounds cfg where
  ranges := hranges.trans h.ranges
  count := hcount.trans h.count
  push := by
    intro c' push'' quad sigi hpush'' hsig
    rw [hpushes] at hpush''
    by_cases hc : c' = c
    · rw [hc, Function.update_self] at hpush''
      obtain rfl := Option.some_injective _ hpush''
      exact hclaim quad sigi hsig
    · rw [Function.update_of_ne hc] at hpush''
      exact h.push c' push'' quad sigi hpush'' hsig
  unsig := by
    intro vrowI range quad sigi hunsig
    obtain ⟨hsigi, hlt, hset⟩ := h.unsig vrowI range quad sigi (hpc ▸ hunsig)
    exact ⟨hsigi, hlt, hgrow _ hset⟩
  vrow := by
    rw [hpc]
    exact h.vrow
  held := by
    rw [hpc]
    exact h.held

/-- The start of a call. -/
lemma SchedSys.QueueInv.push (h : s.QueueInv cfg) {payload : β} {prior : MtePrior}
    (hs : schedStep cfg s (.push c payload prior) = some s') : s'.QueueInv cfg := by
  obtain ⟨hbounds, σ, hrel⟩ := h
  obtain ⟨push, hnone, hpush, rfl⟩ := schedStep_push hs
  obtain ⟨p, -, rfl⟩ := Option.map_eq_some_iff.1 hpush
  -- the call stands before its first load, or has returned `false`
  have hpc : ∀ pc, (if (s.queue.ranges p).bitN = 0 then PushPc.done false
      else .sig ((rangeCall .sigFirst (s.queue.ranges p)).start s.queue.smapDesc.size)) = pc →
      (∀ i, ¬ pc.Writing i) ∧ ¬ pc.Written ∧ ∀ quad sigi, pc ≠ .sig (.claim quad sigi) := by
    rintro pc rfl
    split
    · exact ⟨fun _ => id, id, fun _ _ hsig => by cases hsig⟩
    · rcases MapCall.start_cases (rangeCall .sigFirst (s.queue.ranges p)) s.queue.smapDesc.size
        with hstart | hstart
      · rw [hstart]
        exact ⟨fun _ => id, id, fun _ _ hsig => by cases hsig⟩
      · rw [hstart]
        exact ⟨fun _ => id, id, fun _ _ hsig => by cases hsig⟩
  obtain ⟨hwriting, hwritten, hclaim⟩ := hpc _ rfl
  refine ⟨hbounds.ofPush rfl rfl rfl rfl (fun quad sigi hsig => absurd hsig (hclaim quad sigi))
    fun _ => id, σ, hrel.pushQuiet rfl rfl rfl rfl rfl (fun i => ?_) (fun slot => ?_)
    fun slot hslot => ?_⟩
  · refine ⟨fun hw => absurd hw (hwriting i), ?_⟩
    rintro ⟨push', hpush', -⟩
    rw [hnone] at hpush'
    cases hpush'
  · refine ⟨fun hw => absurd hw.2 hwritten, ?_⟩
    rintro ⟨hcall, c', push', rfl, hpush', -⟩
    obtain rfl := Option.some_injective _ hcall
    rw [hnone] at hpush'
    cases hpush'
  · obtain ⟨c', push', rfl, hpush', hdone⟩ := hslot
    have hc : c' ≠ c := by
      rintro rfl
      rw [hnone] at hpush'
      cases hpush'
    exact ⟨c', push', rfl, by dsimp only; rw [Function.update_of_ne hc]; exact hpush', hdone⟩

lemma not_writing_afterLoad {call : MapCall} {size quad : ℕ} {val : BitVec 64} (i : ℕ) :
    ¬ (PushPc.sig (call.afterLoad size quad val)).Writing i := by
  rcases call.afterLoad_forms size quad val with ⟨h, -⟩ | ⟨sigi, -, h⟩ | h
  all_goals
    rw [h]
    exact id

/-- The `fetch_or` of a call. -/
lemma SchedSys.QueueInv.fetch_or (h : s.QueueInv cfg) {payload : β} {range : Fin 4}
    {quad sigi : ℕ} (hpush : s.pushes c = some ⟨payload, range, .sig (.claim quad sigi)⟩)
    (hordered : s.Ordered (.pushStep c)) {queue : BitpoolDesc (Slot β)} {pc : PushPc}
    (hstep : schedPushStep s c ⟨payload, range, .sig (.claim quad sigi)⟩ = some (queue, pc)) :
    SchedSys.QueueInv cfg { s with
      queue := queue, pushes := Function.update s.pushes c (some ⟨payload, range, pc⟩) } := by
  obtain ⟨hbounds, σ, hrel⟩ := h
  obtain ⟨hsigi, hlt⟩ := hbounds.push c _ quad sigi hpush rfl
  obtain ⟨hclear, haway⟩ := hordered _ quad sigi hpush rfl
  have hwrap : sigi + 64 * quad < 2 ^ 32 := hlt.trans (by decide)
  simp only [schedPushStep, MapCall.step_claim_of_lt hsigi hwrap] at hstep
  obtain ⟨rfl, rfl⟩ := Prod.mk.inj (Option.some_injective _ hstep)
  -- nobody has the bucket
  have hfree : σ (sigi + 64 * quad) = .free := by
    have hhand := hrel.hand (sigi + 64 * quad)
    rw [hrel.bit] at hclear
    rw [haway] at hhand
    exact hhand.eq_free hclear
  refine ⟨hbounds.ofPush rfl rfl rfl rfl (fun _ _ hsig => by cases hsig) fun i hi => ?_,
    Function.update σ (sigi + 64 * quad) (.claimed c),
    hrel.claim hlt hfree rfl rfl rfl (fun c' j => ?_) (fun slot => ?_)
      (fun slot => returned_update hpush (fun hdone => by cases hdone) rfl) rfl⟩
  · show syncMapIssig (syncMapSigon s.queue.smapDesc.map (sigi + 64 * quad)) i = true
    rw [syncMapIssig_sigon, hi, Bool.true_or]
  · rw [writes_update rfl]
    by_cases hc : c' = c
    · rw [hc, writes_iff hpush]
      simp only [PushPc.Writing, true_and, ne_eq, not_true_eq_false, false_and, or_false, false_or]
      exact eq_comm
    · simp only [hc, false_and, ne_eq, not_false_eq_true, true_and, false_or, or_false]
  · have hnot := not_pushed hpush id slot
    rw [pushed_update rfl]
    constructor
    · rintro (⟨-, hw⟩ | ⟨-, hslot⟩)
      · exact hw.elim
      · exact hslot
    · exact fun hslot => Or.inr ⟨fun hcall => hnot ⟨hcall, hslot⟩, hslot⟩

/-- **One step of a call of `sched_push`.** -/
lemma SchedSys.QueueInv.pushStep (hranges : (schedQueue cfg).RangesOk) (h : s.QueueInv cfg)
    (hin : s.InMap cfg) (hordered : s.Ordered (.pushStep c))
    (hs : schedStep cfg s (.pushStep c) = some s') : s'.QueueInv cfg := by
  obtain ⟨hbounds, σ, hrel⟩ := h
  obtain ⟨push, queue, pc, hpush, hstep, rfl⟩ := schedStep_pushStep hs
  obtain ⟨payload, range, at'⟩ := push
  cases at' with
  | sig mapPc =>
    rcases mapPc with quad | ⟨quad, sigi⟩ | (_ | i)
    · -- the load of the quad
      obtain ⟨rfl, rfl⟩ := Prod.mk.inj (Option.some_injective _ hstep)
      obtain ⟨hfrom, hto⟩ := rangeCall_bounds hranges .sigFirst range
      rw [← hbounds.ranges] at hfrom hto
      refine ⟨hbounds.ofPush rfl rfl rfl rfl (fun quad' sigi hsig => ?_) fun _ => id, σ,
        hrel.pushSearch hpush id id ?_ rfl rfl rfl rfl rfl⟩
      · have hquad : quad < 1 := hin.push c _ hpush
        obtain ⟨hlt, hto', -⟩ := MapCall.claim_of_afterLoad (hfrom.le.trans (Nat.zero_le quad))
          (by omega) (PushPc.sig.inj hsig)
        exact ⟨hlt, hto'.trans_le hto⟩
      · exact fun i => ⟨fun hw => absurd hw (not_writing_afterLoad i), False.elim⟩
    · exact fetch_or ⟨hbounds, σ, hrel⟩ hpush hordered hstep
    · obtain ⟨rfl, rfl⟩ := Prod.mk.inj (Option.some_injective _ hstep)
      have hstart := MapCall.start_cases (rangeCall .sigFirst (s.queue.ranges range))
        s.queue.smapDesc.size
      refine ⟨hbounds.ofPush rfl rfl rfl rfl (fun quad sigi hsig => ?_) fun _ => id, σ,
        hrel.pushSearch hpush id id (fun i => ?_) rfl rfl rfl rfl rfl⟩
      · rcases hstart with hstart | hstart
        all_goals
          rw [hstart] at hsig
          cases hsig
      · rcases hstart with hstart | hstart
        · rw [hstart]
        · rw [hstart]
          exact Iff.rfl
    · obtain ⟨rfl, rfl⟩ := Prod.mk.inj (Option.some_injective _ hstep)
      have hwriting : ∀ j, (PushPc.copy i).Writing j ↔ (PushPc.sig (.ret (some i))).Writing j :=
        fun _ => Iff.rfl
      exact ⟨hbounds.ofPush rfl rfl rfl rfl (fun _ _ hsig => by cases hsig) fun _ => id, σ,
        hrel.pushSearch hpush id id hwriting rfl rfl rfl rfl rfl⟩
  | copy i =>
    obtain ⟨rfl, rfl⟩ := Prod.mk.inj (Option.some_injective _ hstep)
    exact ⟨hbounds.ofPush rfl rfl rfl rfl (fun _ _ hsig => by cases hsig) fun _ => id, _,
      hrel.write hpush rfl rfl rfl rfl rfl rfl⟩
  | count i =>
    obtain ⟨rfl, rfl⟩ := Prod.mk.inj (Option.some_injective _ hstep)
    refine ⟨hbounds.ofPush rfl rfl rfl rfl (fun _ _ hsig => by cases hsig) fun _ => id, σ,
      hrel.pushQuiet rfl rfl rfl rfl rfl (fun j => ?_) (fun slot => ?_)
        fun slot => returned_update hpush (fun hdone => by cases hdone) rfl⟩
    · rw [writes_iff hpush]
      rfl
    · have hold : s.Pushed ⟨payload, some c⟩ :=
        ⟨c, ⟨payload, range, .count i⟩, rfl, hpush, trivial⟩
      constructor
      · rintro ⟨rfl, -⟩
        exact ⟨rfl, hold⟩
      · rintro ⟨hcall, hslot⟩
        exact ⟨hslot.eq hold hcall, trivial⟩
  | done succ => cases hstep

/-! ### A step of `sched_main` -/

/-- A step of `sched_main` keeps the bounds of the calls of `sched_push`. -/
lemma SchedSys.Bounds.ofMain (h : s.Bounds cfg) (hranges : s'.queue.ranges = s.queue.ranges)
    (hcount : s'.queue.bucketCount = s.queue.bucketCount) (hpushes : s'.pushes = s.pushes)
    (hunsig : ∀ vrowI range quad sigi, s'.pc = .unsig vrowI range (.claim quad sigi) →
      sigi < 64 ∧ sigi + 64 * quad < 64 ∧
        syncMapIssig s'.queue.smapDesc.map (sigi + 64 * quad) = true)
    (hvrow : ∀ quad sigi, s'.pc = .vrow (.claim quad sigi) →
      sigi < 64 ∧ sigi + 64 * quad < cfg.vrowCount)
    (hheld : ∀ i, s'.pc.Holds i → i < cfg.vrowCount) : s'.Bounds cfg where
  ranges := hranges.trans h.ranges
  count := hcount.trans h.count
  push := by
    rw [hpushes]
    exact h.push
  unsig := hunsig
  vrow := hvrow
  held := hheld

/-- A step of `sched_main` to a place that is not before a claim. -/
lemma SchedSys.Bounds.leave (h : s.Bounds cfg) (hranges : s'.queue.ranges = s.queue.ranges)
    (hcount : s'.queue.bucketCount = s.queue.bucketCount) (hpushes : s'.pushes = s.pushes)
    (hbucket : ¬ s'.pc.ClaimsBucket) (hvrow : ¬ s'.pc.ClaimsVrow)
    (hheld : ∀ i, s'.pc.Holds i → i < cfg.vrowCount) : s'.Bounds cfg := by
  refine h.ofMain hranges hcount hpushes ?_ ?_ hheld
  · intro vrowI range quad sigi hpc
    rw [hpc] at hbucket
    exact absurd trivial hbucket
  · intro quad sigi hpc
    rw [hpc] at hvrow
    exact absurd trivial hvrow

/-- A step of `sched_main` that takes and frees no bucket. -/
lemma QueueRel.sameStage (h : QueueRel s σ) (hmap : s'.queue.smapDesc.map = s.queue.smapDesc.map)
    (hbase : s'.queue.bucketBase = s.queue.bucketBase) (hpushes : s'.pushes = s.pushes)
    (hloaded : s'.loaded = s.loaded) (hstage : ∀ i, s'.pc.stage i = s.pc.stage i) :
    QueueRel s' σ := by
  refine h.congr hmap hbase hloaded (writes_congr hpushes) (pushed_congr hpushes)
    (fun slot => (returned_congr hpushes slot).2) fun i => ?_
  rw [hstage]
  exact h.hand i

/-- A step of `sched_main` that takes and frees no bucket, and is not the load before a claim. -/
lemma SchedSys.QueueInv.goOn (h : s.QueueInv cfg)
    (hmap : s'.queue.smapDesc.map = s.queue.smapDesc.map)
    (hbase : s'.queue.bucketBase = s.queue.bucketBase)
    (hranges : s'.queue.ranges = s.queue.ranges)
    (hcount : s'.queue.bucketCount = s.queue.bucketCount) (hpushes : s'.pushes = s.pushes)
    (hloaded : s'.loaded = s.loaded) (hstage : ∀ i, s'.pc.stage i = s.pc.stage i)
    (hheld : ∀ i, s'.pc.Holds i → s.pc.Holds i) (hbucket : ¬ s'.pc.ClaimsBucket)
    (hvrow : ¬ s'.pc.ClaimsVrow) : s'.QueueInv cfg := by
  obtain ⟨hbounds, σ, hrel⟩ := h
  exact ⟨hbounds.leave hranges hcount hpushes hbucket hvrow
    fun i hi => hbounds.held i (hheld i hi),
    σ, hrel.sameStage hmap hbase hpushes hloaded hstage⟩

/-- The search for a vrow. -/
lemma SchedSys.QueueInv.search_vrow (h : s.QueueInv cfg) (hin : s.InMap cfg) {mapPc : MapPc}
    (hpc : s.pc = .vrow mapPc) (hs : schedMainStep cfg s = some s') : s'.QueueInv cfg := by
  have hmain := hin.main
  rw [hpc] at hmain
  have haway : ∀ i, s.pc.stage i = .away := fun i => by
    rw [hpc]
    rfl
  rcases mapPc with quad | ⟨quad, sigi⟩ | (_ | vrowI)
  · simp only [schedMainStep, hpc, MapCall.step] at hs
    obtain rfl := Option.some_injective _ hs
    obtain ⟨hbounds, σ, hrel⟩ := h
    have hquad : (vrowCall cfg).fromQuad ≤ quad :=
      (Nat.zero_div 64).le.trans (Nat.zero_le quad)
    refine ⟨hbounds.ofMain rfl rfl rfl (fun _ _ _ _ hpc' => by cases hpc')
      (fun quad' sigi hvrow => ?_)
      (fun i hi => absurd hi (SchedPc.not_holds_afterLoad _ _ _ _ _)),
      σ, hrel.sameStage rfl rfl rfl rfl fun i => (haway i).symm⟩
    obtain ⟨hlt, hto, -⟩ :=
      MapCall.claim_of_afterLoad hquad (cfg.quad_le hmain) (SchedPc.vrow.inj hvrow)
    exact ⟨hlt, hto⟩
  · obtain ⟨hbounds, σ, hrel⟩ := h
    obtain ⟨hsigi, hlt⟩ := hbounds.vrow quad sigi hpc
    have hwrap : sigi + 64 * quad < 2 ^ 32 :=
      hlt.trans (cfg.vrowCount_lt.trans (by decide))
    simp only [schedMainStep, hpc, MapCall.step_claim_of_lt hsigi hwrap] at hs
    obtain rfl := Option.some_injective _ hs
    refine ⟨hbounds.leave rfl rfl rfl id id (fun i hi => ?_),
      σ, hrel.sameStage rfl rfl rfl rfl fun i => (haway i).symm⟩
    have heq : sigi + 64 * quad = i := hi
    exact heq ▸ hlt
  · simp only [schedMainStep, hpc] at hs
    obtain rfl := Option.some_injective _ hs
    exact h.goOn rfl rfl rfl rfl rfl rfl (fun i => (haway i).symm)
      (fun _ => False.elim) id id
  · simp only [schedMainStep, hpc] at hs
    obtain rfl := Option.some_injective _ hs
    refine h.goOn rfl rfl rfl rfl rfl rfl (fun i => (haway i).symm) (fun i hi => ?_) id id
    rw [hpc]
    exact hi

lemma stage_unsig_afterLoad {call : MapCall} {size quad : ℕ} {val : BitVec 64} (vrowI : ℕ)
    (range : Fin 4) (i : ℕ) :
    (SchedPc.unsig (β := β) vrowI range (call.afterLoad size quad val)).stage i = .away := by
  rcases call.afterLoad_forms size quad val with ⟨h, -⟩ | ⟨sigi, -, h⟩ | h
  all_goals
    rw [h]
    rfl

/-- The bucket in the hand of `sched_main` is one of the 64. -/
lemma QueueRel.lt_of_stage (h : QueueRel s σ) (hstage : s.pc.stage i ≠ .away) : i < 64 := by
  refine h.inside i fun hfree => hstage ?_
  have hhand := h.hand i
  rw [hfree] at hhand
  exact hhand.eq_away

/-- The search for a bucket. -/
lemma SchedSys.QueueInv.search_bucket (hranges : (schedQueue cfg).RangesOk) (h : s.QueueInv cfg)
    (hin : s.InMap cfg) {vrowI : ℕ} {range : Fin 4} {mapPc : MapPc}
    (hpc : s.pc = .unsig vrowI range mapPc) (hs : schedMainStep cfg s = some s') :
    s'.QueueInv cfg := by
  obtain ⟨hbounds, σ, hrel⟩ := h
  have hmain := hin.main
  rw [hpc] at hmain
  have hvrowI : vrowI < cfg.vrowCount := hbounds.held vrowI (by rw [hpc]; rfl)
  rcases mapPc with quad | ⟨quad, sigi⟩ | (_ | bucketI)
  · simp only [schedMainStep, hpc, MapCall.step] at hs
    obtain rfl := Option.some_injective _ hs
    obtain ⟨hfrom, hto⟩ := rangeCall_bounds hranges .unsigFirst range
    rw [← hbounds.ranges] at hfrom hto
    refine ⟨hbounds.ofMain rfl rfl rfl (fun vrowI' range' quad' sigi hunsig => ?_)
      (fun _ _ hvrow => by cases hvrow) fun i hi => ?_, σ,
      hrel.sameStage rfl rfl rfl rfl fun i => ?_⟩
    · obtain ⟨-, -, hafter⟩ := SchedPc.unsig.inj hunsig
      have hquad : quad < 1 := hmain
      obtain ⟨hlt, hto', ⟨-, hset⟩, -⟩ :=
        MapCall.claim_of_afterLoad (hfrom.le.trans (Nat.zero_le quad)) (by omega) hafter
      exact ⟨hlt, hto'.trans_le hto, hset⟩
    · have heq : vrowI = i := hi
      exact heq ▸ hvrowI
    · dsimp only
      rw [stage_unsig_afterLoad, hpc]
      rfl
  · -- the `fetch_and` finds the bit as the load left it
    obtain ⟨hsigi, hlt, hset⟩ := hbounds.unsig vrowI range quad sigi hpc
    have hwrap : sigi + 64 * quad < 2 ^ 32 := hlt.trans (by decide)
    simp only [schedMainStep, hpc, MapCall.step_claim_of_lt hsigi hwrap] at hs
    obtain rfl := Option.some_injective _ hs
    refine ⟨hbounds.leave rfl rfl rfl id id fun i hi => ?_, _,
      hrel.take hset rfl rfl rfl rfl (if_pos rfl) fun j hj => ?_⟩
    · have heq : vrowI = i := hi
      exact heq ▸ hvrowI
    · rw [hpc]
      exact if_neg hj.symm
  · simp only [schedMainStep, hpc] at hs
    obtain rfl := Option.some_injective _ hs
    refine SchedSys.QueueInv.goOn ⟨hbounds, σ, hrel⟩ rfl rfl rfl rfl rfl rfl (fun i => ?_)
      (fun i hi => ?_) id id
    · rw [hpc]
      rfl
    · rw [hpc]
      exact hi
  · simp only [schedMainStep, hpc] at hs
    obtain rfl := Option.some_injective _ hs
    have hlt : bucketI < 64 := hrel.lt_of_stage (by
      rw [hpc, SchedPc.stage, if_pos rfl]
      simp only [ne_eq, reduceCtorEq, not_false_eq_true])
    have hmod : bucketI % 2 ^ 8 = bucketI := Nat.mod_eq_of_lt (hlt.trans (by decide))
    refine SchedSys.QueueInv.goOn ⟨hbounds, σ, hrel⟩ rfl rfl rfl rfl rfl rfl (fun i => ?_)
      (fun i hi => ?_) id id
    · rw [hpc]
      dsimp only [SchedPc.stage]
      rw [hmod]
    · rw [hpc]
      exact hi

/-- `sched_pop`. -/
lemma SchedSys.QueueInv.pop (h : s.QueueInv cfg) (hordered : s.Ordered .sched) {vrowI bucketI : ℕ}
    (hpc : s.pc = .pop vrowI bucketI) (hs : schedMainStep cfg s = some s') : s'.QueueInv cfg := by
  obtain ⟨hbounds, σ, hrel⟩ := h
  have hunread : s.pc.stage bucketI = .unread := by
    rw [hpc]
    exact if_pos rfl
  have hvrowI : vrowI < cfg.vrowCount := hbounds.held vrowI (by rw [hpc]; rfl)
  have hbucketI : bucketI < s.queue.bucketCount := by
    rw [hbounds.count]
    exact hrel.lt_of_stage (by simp only [hunread, ne_eq, reduceCtorEq, not_false_eq_true])
  have hchecks : ¬ (vrowI ≥ cfg.vrowCount ∨ bucketI ≥ s.queue.bucketCount) := by omega
  simp only [schedMainStep, hpc, if_neg hchecks] at hs
  obtain rfl := Option.some_injective _ hs
  refine ⟨hbounds.leave rfl rfl rfl id id fun i hi => ?_, σ,
    hrel.read (hordered.1 vrowI bucketI hpc) hunread rfl rfl rfl (if_pos rfl) fun j hj => ?_⟩
  · have heq : vrowI = i := hi
    exact heq ▸ hvrowI
  · rw [hpc]
    exact (if_neg hj.symm).trans (if_neg hj.symm).symm

/-- `vrow_bank_load`. -/
lemma SchedSys.QueueInv.load (h : s.QueueInv cfg) (hordered : s.Ordered .sched)
    {vrowI bucketI : ℕ} {call : Option ℕ} {loadPc : LoadPc β}
    (hpc : s.pc = .load vrowI bucketI call loadPc) (hs : schedMainStep cfg s = some s') :
    s'.QueueInv cfg := by
  cases loadPc with
  | wait payload =>
    simp only [schedMainStep, hpc, vrowBankLoadStep] at hs
    obtain rfl := Option.some_injective _ hs
    refine h.goOn rfl rfl rfl rfl rfl rfl (fun i => ?_) (fun i hi => ?_) id id
    · rw [hpc]
      by_cases hfilled : vrowIsFilled (s.vrows vrowI).1 0 = true
      · simp only [hfilled, if_true]
      · simp only [hfilled]
        rfl
    · rw [hpc]
      exact hi
  | store payload =>
    obtain ⟨hbounds, σ, hrel⟩ := h
    have hdone : ∀ c push, call = some c → s.pushes c = some push → push.pc = .done true := by
      rintro c push rfl
      exact hordered.2 vrowI bucketI c payload hpc push
    have hread : s.pc.stage bucketI = .read ⟨payload, call⟩ := by
      rw [hpc]
      exact if_pos rfl
    simp only [schedMainStep, hpc, vrowBankLoadStep] at hs
    obtain rfl := Option.some_injective _ hs
    refine ⟨hbounds.leave rfl rfl rfl id id fun i hi => ?_, _,
      hrel.store hread hdone rfl rfl rfl (if_pos rfl) fun j hj => ?_⟩
    · exact hbounds.held i (by rw [hpc]; exact hi)
    · rw [hpc]
      exact (if_neg hj.symm).trans (if_neg hj.symm).symm
  | fill =>
    simp only [schedMainStep, hpc, vrowBankLoadStep] at hs
    obtain rfl := Option.some_injective _ hs
    refine h.goOn rfl rfl rfl rfl rfl rfl (fun i => ?_) (fun _ => False.elim) id id
    rw [hpc]
    rfl

/-- The second `sync_map_sigoff`. -/
lemma SchedSys.QueueInv.sigoff (h : s.QueueInv cfg) {bucketI : ℕ} (hpc : s.pc = .sigoff bucketI)
    (hs : schedMainStep cfg s = some s') : s'.QueueInv cfg := by
  obtain ⟨hbounds, σ, hrel⟩ := h
  have hstored : s.pc.stage bucketI = .stored := by
    rw [hpc]
    exact if_pos rfl
  have hbucketI : ¬ s.queue.bucketCount ≤ bucketI := by
    rw [hbounds.count, not_le]
    exact hrel.lt_of_stage (by simp only [hstored, ne_eq, reduceCtorEq, not_false_eq_true])
  simp only [schedMainStep, hpc, if_neg hbucketI] at hs
  obtain rfl := Option.some_injective _ hs
  refine ⟨hbounds.leave rfl rfl rfl id id fun _ => False.elim, _,
    hrel.drop hstored rfl rfl rfl rfl rfl fun j hj => ?_⟩
  rw [hpc]
  exact (if_neg hj.symm).symm

/-- The loop over the priorities. -/
lemma SchedSys.QueueInv.choose (h : s.QueueInv cfg) {vrowI : ℕ} {left : List (Fin 4)}
    (hpc : s.pc = .disp vrowI left) (hs : schedMainStep cfg s = some s') : s'.QueueInv cfg := by
  have hsearch : ∀ (call : MapCall) (size : ℕ) (range : Fin 4),
      SchedSys.QueueInv cfg { s with pc := .unsig vrowI range (call.start size) } := by
    intro call size range
    refine h.goOn rfl rfl rfl rfl rfl rfl (fun i => ?_) (fun i hi => by rw [hpc]; exact hi) ?_ id
    · rw [hpc]
      rcases call.start_cases size with hstart | hstart
      · rw [hstart]
        rfl
      · rw [hstart]
        rfl
    · rcases call.start_cases size with hstart | hstart
      · rw [hstart]
        exact id
      · rw [hstart]
        exact id
  cases left with
  | nil =>
    simp only [schedMainStep, hpc] at hs
    obtain rfl := Option.some_injective _ hs
    exact hsearch _ _ _
  | cons range left =>
    simp only [schedMainStep, hpc] at hs
    split at hs
    · split at hs
      · obtain rfl := Option.some_injective _ hs
        exact hsearch _ _ _
      · obtain rfl := Option.some_injective _ hs
        exact h.goOn rfl rfl rfl rfl rfl rfl (fun i => by rw [hpc]; rfl)
          (fun i hi => by rw [hpc]; exact hi) id id
    · obtain rfl := Option.some_injective _ hs
      exact h.goOn rfl rfl rfl rfl rfl rfl (fun i => by rw [hpc]; rfl)
        (fun i hi => by rw [hpc]; exact hi) id id

/-- **One step of `sched_main`.** -/
lemma SchedSys.QueueInv.sched (hranges : (schedQueue cfg).RangesOk) (h : s.QueueInv cfg)
    (hin : s.InMap cfg) (hordered : s.Ordered .sched) (hs : schedStep cfg s .sched = some s') :
    s'.QueueInv cfg := by
  change schedMainStep cfg s = some s' at hs
  cases hpc : s.pc with
  | vrow mapPc => exact h.search_vrow hin hpc hs
  | unsig vrowI range mapPc => exact h.search_bucket hranges hin hpc hs
  | pop vrowI bucketI => exact h.pop hordered hpc hs
  | load vrowI bucketI call loadPc => exact h.load hordered hpc hs
  | sigoff bucketI => exact h.sigoff hpc hs
  | closed =>
    simp only [schedMainStep, hpc] at hs
    obtain rfl := Option.some_injective _ hs
    split
    · exact h.goOn rfl rfl rfl rfl rfl rfl (fun i => by rw [hpc]; rfl)
        (fun _ => False.elim) id id
    · exact h.goOn rfl rfl rfl rfl rfl rfl (fun i => by rw [hpc]; rfl)
        (fun _ => False.elim) id id
  | presence =>
    simp only [schedMainStep, hpc] at hs
    obtain rfl := Option.some_injective _ hs
    split
    · rcases MapCall.start_cases (vrowCall cfg) s.vrowSmap.size with hstart | hstart
      · rw [hstart]
        exact h.goOn rfl rfl rfl rfl rfl rfl (fun i => by rw [hpc]; rfl)
          (fun _ => False.elim) id id
      · rw [hstart]
        exact h.goOn rfl rfl rfl rfl rfl rfl (fun i => by rw [hpc]; rfl)
          (fun _ => False.elim) id id
    · exact h.goOn rfl rfl rfl rfl rfl rfl (fun i => by rw [hpc]; rfl)
        (fun _ => False.elim) id id
  | disp vrowI left => exact h.choose hpc hs
  | back vrowI =>
    simp only [schedMainStep, hpc] at hs
    obtain rfl := Option.some_injective _ hs
    exact h.goOn rfl rfl rfl rfl rfl rfl (fun i => by rw [hpc]; rfl)
      (fun _ => False.elim) id id
  | sub bucketI =>
    simp only [schedMainStep, hpc] at hs
    obtain ⟨range, -, rfl⟩ := Option.map_eq_some_iff.1 hs
    exact h.goOn rfl rfl rfl rfl rfl rfl (fun i => by rw [hpc]; rfl)
      (fun _ => False.elim) id id
  | terminate =>
    simp only [schedMainStep, hpc] at hs
    obtain rfl := Option.some_injective _ hs
    exact h.goOn rfl rfl rfl rfl rfl rfl (fun i => by rw [hpc]; rfl)
      (fun _ => False.elim) id id
  | terminated =>
    simp only [schedMainStep, hpc] at hs
    cases hs

/-! ## The runs -/

/-- A step of a vrow or of `sched_delete` has no part in the queue. -/
lemma SchedSys.QueueInv.elsewhere (h : s.QueueInv cfg) (hqueue : s'.queue = s.queue)
    (hpc : s'.pc = s.pc) (hpushes : s'.pushes = s.pushes) (hloaded : s'.loaded = s.loaded) :
    s'.QueueInv cfg := by
  obtain ⟨hbounds, σ, hrel⟩ := h
  refine ⟨hbounds.ofMain (by rw [hqueue]) (by rw [hqueue]) hpushes ?_ ?_ ?_, σ,
    hrel.sameStage (by rw [hqueue]) (by rw [hqueue]) hpushes hloaded fun i => by rw [hpc]⟩
  · rw [hpc, hqueue]
    exact hbounds.unsig
  · rw [hpc]
    exact hbounds.vrow
  · rw [hpc]
    exact hbounds.held

/-- **One step of the system.** -/
lemma SchedSys.QueueInv.step (hranges : (schedQueue cfg).RangesOk) {l : SchedStep β}
    (h : s.QueueInv cfg) (hin : s.InMap cfg) (hordered : s.Ordered l)
    (hs : schedStep cfg s l = some s') : s'.QueueInv cfg := by
  rcases schedStep_cases hs with ⟨c, payload, prior, push, rfl, -⟩ |
    ⟨c, push, queue, pc, rfl, -⟩ | ⟨rfl, -⟩ | ⟨vrowSmap, closed, vrows, -, rfl⟩
  · exact h.push hs
  · exact h.pushStep hranges hin hordered hs
  · exact h.sched hranges hin hordered hs
  · exact h.elsewhere rfl rfl rfl rfl

/-- All buckets are free at the start. -/
lemma queueInv_start (cfg : SchedConfig β) : (SchedSys.start cfg).QueueInv cfg := by
  have hwrites : ∀ c i, ¬ (SchedSys.start cfg).Writes c i := by
    rintro c i ⟨push, hpush, -⟩
    cases hpush
  have hpushed : ∀ slot, ¬ (SchedSys.start cfg).Pushed slot := by
    rintro slot ⟨c, push, -, hpush, -⟩
    cases hpush
  refine ⟨⟨rfl, rfl, nofun, nofun, nofun, nofun⟩, fun _ => .free, fun i => ?_, fun i hi => ?_,
    fun i c => ⟨nofun, fun hw => absurd hw (hwrites c i)⟩, nofun, nofun, fun _ => trivial,
    fun slot c _ hslot => absurd hslot (hpushed slot), nofun, nofun, List.nodup_nil⟩
  · exact syncMapIssig_zero i
  · exact absurd rfl hi

/-- The invariant holds in every run whose steps come in order. -/
lemma queueInv_of_ordered {ls : List (SchedStep β)} {t : SchedSys β}
    (hranges : (schedQueue cfg).RangesOk)
    (hordered : AllSteps (schedStep cfg) SchedSys.Ordered (.start cfg) ls)
    (ht : runs (schedStep cfg) (.start cfg) ls = some t) : t.QueueInv cfg :=
  (inv_of_allSteps (I := fun s : SchedSys β => s.InMap cfg ∧ s.QueueInv cfg)
    (fun _ _ _ h hl hs => ⟨h.1.step hs, h.2.step hranges h.1 hl hs⟩)
    ⟨SchedSys.inMap_start cfg, queueInv_start cfg⟩ hordered ht).2

/-- **The queue keeps its payloads** in every run whose steps come in order: the `fetch_or` of a
push finds its bucket free and out of the hand of `sched_main`, `sched_pop` reads a bucket that
has been written, and a payload is copied into a bank when its push has returned. -/
theorem queueKeeps_of_ordered {ls : List (SchedStep β)} {t : SchedSys β}
    (hranges : (schedQueue cfg).RangesOk)
    (hordered : AllSteps (schedStep cfg) SchedSys.Ordered (.start cfg) ls)
    (ht : runs (schedStep cfg) (.start cfg) ls = some t) : t.QueueKeeps := by
  obtain ⟨-, σ, hrel⟩ := queueInv_of_ordered hranges hordered ht
  exact hrel.queueKeeps

end

/-! ## Two runs -/

section

variable {β : Type} [DecidableEq β] {cfg : SchedConfig β} {s s' : SchedSys β}

instance PushPc.decidableWriting (i : ℕ) : (pc : PushPc) → Decidable (pc.Writing i)
  | .sig (.ret (some index)) | .copy index => inferInstanceAs (Decidable (index = i))
  | .sig (.ret none) | .sig (.load _) | .sig (.claim _ _) | .count _ | .done _ => isFalse id

/-- `SchedSys.Ordered`, for calls with numbers below `n`. -/
def SchedSys.orderedBelow (n : ℕ) (s : SchedSys β) : SchedStep β → Bool
  | .push c _ _ => decide (c < n)
  | .pushStep c => (s.pushes c).all fun push =>
    match push.pc with
    | .sig (.claim quad sigi) => !syncMapIssig s.queue.smapDesc.map (sigi + 64 * quad) &&
        decide (s.pc.stage (sigi + 64 * quad) = .away)
    | _ => true
  | .sched =>
    match s.pc with
    | .pop _ bucketI => (List.range n).all fun c =>
        (s.pushes c).all fun push => !decide (push.pc.Writing bucketI)
    | .load _ _ (some c) (.store _) => (s.pushes c).all fun push => decide (push.pc = .done true)
    | _ => true
  | _ => true

lemma SchedSys.ordered_of_orderedBelow {n : ℕ} {l : SchedStep β}
    (hnone : ∀ c, n ≤ c → s.pushes c = none) (h : s.orderedBelow n l = true) : s.Ordered l := by
  cases l with
  | pushStep c =>
    intro push quad sigi hpush hpc
    simpa [orderedBelow, hpush, hpc] using h
  | sched =>
    refine ⟨fun vrowI bucketI hpc c => ?_, fun vrowI bucketI c payload hpc push hpush => ?_⟩
    · rintro ⟨push, hpush, hwriting⟩
      have hc : c < n := by
        by_contra hc
        rw [hnone c (Nat.le_of_not_lt hc)] at hpush
        cases hpush
      simp only [orderedBelow, hpc, List.all_eq_true, List.mem_range] at h
      have hnot := h c hc
      rw [hpush] at hnot
      simp [hwriting] at hnot
    · simpa [orderedBelow, hpc, hpush] using h
  | _ => trivial

/-- The calls of a run have the numbers it gives them. -/
lemma SchedSys.ordered_of_run {n : ℕ} {ls : List (SchedStep β)}
    (h : AllSteps (schedStep cfg) (fun s l => s.orderedBelow n l = true) (.start cfg) ls) :
    AllSteps (schedStep cfg) SchedSys.Ordered (.start cfg) ls := by
  refine AllSteps.mono_of_inv (I := fun s : SchedSys β => ∀ c, n ≤ c → s.pushes c = none)
    (fun s l s' hnone hbelow hs c' hc' => ?_)
    (fun s l hnone hbelow _ => ordered_of_orderedBelow hnone hbelow) (fun _ _ => rfl) h h
  refine schedStep_pushes_none hs (hnone c' hc') ?_
  rintro payload prior rfl
  exact absurd (of_decide_eq_true hbelow) (Nat.not_lt.2 hc')

end

lemma rangesOk_oneVrowConfig : (schedQueue oneVrowConfig).RangesOk :=
  BitpoolDesc.rangesOk_default rfl rfl

theorem queueKeeps_of_ordered_validRun :
    ∃ t, runs (schedStep oneVrowConfig) (.start oneVrowConfig) validRun = some t ∧
      t.QueueKeeps := by
  have hrun : (runs (schedStep oneVrowConfig) (.start oneVrowConfig) validRun).isSome = true := by
    decide +kernel
  obtain ⟨t, ht⟩ := Option.isSome_iff_exists.1 hrun
  have hordered : AllSteps (schedStep oneVrowConfig) (fun s l => s.orderedBelow 1 l = true)
      (.start oneVrowConfig) validRun := by
    decide +kernel
  exact ⟨t, ht, queueKeeps_of_ordered rangesOk_oneVrowConfig (SchedSys.ordered_of_run hordered) ht⟩

/-- Two calls load the same quad, find the same bit and write the same bucket. -/
def sharedRun : List (SchedStep Bool) :=
  [.push 0 true .priorLow, .push 1 false .priorLow] ++
    (List.replicate 5 [.pushStep 0, .pushStep 1]).flatten

set_option maxRecDepth 4000 in
/-- The payload of the first call is lost. -/
theorem sharedRun_not_queueKeeps :
    ¬ ∀ cfg : SchedConfig Bool, (schedQueue cfg).RangesOk → ∀ ls t,
      runs (schedStep cfg) (.start cfg) ls = some t → t.QueueKeeps := by
  intro h
  have hrun : (runs (schedStep oneVrowConfig) (.start oneVrowConfig) sharedRun).map
      (fun t => ((t.pushes 0).map fun push => (push.payload, push.pc), t.loaded)) =
        some (some (true, .done true), []) := by
    decide +kernel
  obtain ⟨t, ht, heq⟩ := Option.map_eq_some_iff.1 hrun
  obtain ⟨hcall, hloaded⟩ := Prod.mk.inj heq
  obtain ⟨push, hpush, hdone⟩ := Option.map_eq_some_iff.1 hcall
  obtain ⟨hpayload, hdone⟩ := Prod.mk.inj hdone
  have hbase : ∀ i, t.queue.bucketBase i ≠ ⟨true, some 0⟩ := by
    have hbuckets : (runs (schedStep oneVrowConfig) (.start oneVrowConfig) sharedRun).map
        (fun t => t.queue.bucketBase) = some (Function.update
          (Function.update (fun _ => ⟨false, none⟩) 0 ⟨true, some 0⟩) 0 ⟨false, some 1⟩) := by
      rfl
    rw [ht] at hbuckets
    have hbase : t.queue.bucketBase = _ := Option.some_injective _ hbuckets
    intro i
    rw [hbase, Function.update_idem, Function.update_apply]
    split
    all_goals nofun
  have hreturned : t.Returned ⟨true, some 0⟩ := ⟨0, push, by rw [hpayload], hpush, hdone⟩
  rcases (h oneVrowConfig rangesOk_oneVrowConfig sharedRun t ht).once _ hreturned with
    ⟨⟨i, ⟨-, -, hslot⟩, -⟩, -⟩ | ⟨-, ⟨i, ⟨-, -, hslot⟩, -⟩, -⟩ | ⟨-, -, hcopies⟩
  · exact hbase i hslot
  · exact hbase i hslot
  · rw [SchedSys.copies, hloaded] at hcopies
    cases hcopies

end AxVirtLayer
