import AxVirtLayer.Lib.Refine
import Mathlib.Data.List.Induction

/-!
# Servers that answer in order

A server takes inputs, of which it holds a bounded number, and answers each with the value of a
partial function, in the order of the inputs, until it stops.  An input without a value is never
answered: the server has to stop at it.  A stopped server answers nothing any more, and what it is
given then is lost.
-/

namespace AxVirtLayer.Lib

variable {α β : Type*}

/-- What is seen of a server. -/
inductive ServerEvent (α β : Type*)
  | accept (a : α)
  | answer (b : β)
  | stop
deriving DecidableEq, Repr

/-- The inputs that are not answered yet, in order, and whether the server has stopped. -/
structure Server (α : Type*) where
  due : List α
  stopped : Bool
deriving DecidableEq, Repr

/-- The server at the start. -/
def Server.start : Server α := ⟨[], false⟩

open Classical in
/-- One event of a server that computes `f` and holds at most `cap` inputs. -/
noncomputable def serverStep (f : α → Option β) (cap : ℕ) (s : Server α) :
    ServerEvent α β → Option (Server α)
  | .accept a =>
    if s.stopped then some s
    else if s.due.length < cap then some { s with due := s.due ++ [a] }
    else none
  | .answer b =>
    match s with
    | ⟨a :: due, false⟩ => if f a = some b then some ⟨due, false⟩ else none
    | _ => none
  | .stop => some ⟨[], true⟩

/-- The input an event gives. -/
def ServerEvent.input? : ServerEvent α β → Option α
  | .accept a => some a
  | _ => none

/-- The answer an event gives. -/
def ServerEvent.output? : ServerEvent α β → Option β
  | .answer b => some b
  | _ => none

/-- The inputs of a list of events. -/
def inputs (es : List (ServerEvent α β)) : List α := es.filterMap ServerEvent.input?

/-- The answers of a list of events. -/
def outputs (es : List (ServerEvent α β)) : List β := es.filterMap ServerEvent.output?

lemma inputs_append (es es' : List (ServerEvent α β)) :
    inputs (es ++ es') = inputs es ++ inputs es' := List.filterMap_append

lemma outputs_append (es es' : List (ServerEvent α β)) :
    outputs (es ++ es') = outputs es ++ outputs es' := List.filterMap_append

variable {f : α → Option β} {cap : ℕ}

/-- **In order**: the answers are the values of the first inputs; unless the server has stopped,
the inputs without an answer are those that are due, at most `cap` of them. -/
structure InOrder (f : α → Option β) (cap : ℕ) (es : List (ServerEvent α β)) (t : Server α)
    (done : List α) : Prop where
  answers : done.map f = (outputs es).map some
  first : done <+: inputs es
  room : t.due.length ≤ cap
  due : t.stopped = false → inputs es = done ++ t.due

/-- One more event. -/
lemma InOrder.step {es : List (ServerEvent α β)} {s t : Server α} {e : ServerEvent α β}
    {done : List α} (h : InOrder f cap es s done) (ht : serverStep f cap s e = some t) :
    ∃ done', InOrder f cap (es ++ [e]) t done' := by
  obtain ⟨hanswers, hfirst, hroom, hdue⟩ := h
  cases e with
  | accept a =>
    have hin : inputs (es ++ [ServerEvent.accept (β := β) a]) = inputs es ++ [a] :=
      inputs_append _ _
    have hout : outputs (es ++ [ServerEvent.accept (β := β) a]) = outputs es :=
      (outputs_append _ _).trans (List.append_nil _)
    simp only [serverStep] at ht
    refine ⟨done, by rw [hout, hanswers], ?_, ?_, fun hstop => ?_⟩
    · rw [hin]
      exact hfirst.trans (List.prefix_append _ _)
    · split_ifs at ht with hstop hlt
      · obtain rfl := Option.some_injective _ ht
        exact hroom
      · obtain rfl := Option.some_injective _ ht
        rw [List.length_append]
        exact hlt
    · split_ifs at ht with hstopped
      · obtain rfl := Option.some_injective _ ht
        exact absurd hstopped (by rw [hstop]; exact Bool.false_ne_true)
      · obtain rfl := Option.some_injective _ ht
        rw [hin, hdue hstop, List.append_assoc]
  | answer b =>
    have hin : inputs (es ++ [ServerEvent.answer (α := α) b]) = inputs es :=
      (inputs_append _ _).trans (List.append_nil _)
    have hout : outputs (es ++ [ServerEvent.answer (α := α) b]) = outputs es ++ [b] :=
      outputs_append _ _
    obtain ⟨due, stopped⟩ := s
    cases due with
    | nil => cases ht
    | cons a due =>
      cases stopped with
      | true => cases ht
      | false =>
        simp only [serverStep] at ht
        split_ifs at ht with hvalue
        obtain rfl := Option.some_injective _ ht
        have hinputs : inputs es = (done ++ [a]) ++ due := by
          rw [hdue rfl, List.append_assoc]
          rfl
        refine ⟨done ++ [a], ?_, ?_, Nat.le_of_succ_le hroom, fun _ => hin.trans hinputs⟩
        · rw [hout, List.map_append, List.map_append, hanswers, List.map_singleton, hvalue]
          rfl
        · rw [hin, hinputs]
          exact List.prefix_append _ _
  | stop =>
    have hin : inputs (es ++ [(ServerEvent.stop : ServerEvent α β)]) = inputs es :=
      (inputs_append _ _).trans (List.append_nil _)
    have hout : outputs (es ++ [(ServerEvent.stop : ServerEvent α β)]) = outputs es :=
      (outputs_append _ _).trans (List.append_nil _)
    obtain rfl := Option.some_injective _ ht
    exact ⟨done, by rw [hout, hanswers], by rw [hin]; exact hfirst, Nat.zero_le _, nofun⟩

/-- **A server answers in order.** -/
theorem inOrder_of_runs {es : List (ServerEvent α β)} {t : Server α}
    (ht : runs (serverStep f cap) .start es = some t) : ∃ done, InOrder f cap es t done := by
  induction es using List.reverseRecOn generalizing t with
  | nil =>
    obtain rfl := Option.some_injective _ ht
    exact ⟨[], rfl, List.nil_prefix, Nat.zero_le _, fun _ => rfl⟩
  | append_singleton es e ih =>
    rw [runs_concat, Option.bind_eq_some_iff] at ht
    obtain ⟨s, hs, hstep⟩ := ht
    obtain ⟨done, hdone⟩ := ih hs
    exact hdone.step hstep

end AxVirtLayer.Lib
