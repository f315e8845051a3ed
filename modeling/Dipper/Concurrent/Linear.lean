import Mathlib.Data.List.Basic

/-! Sequential orders of concurrent calls.  A log of finished calls replays from a start to a state
if running them one at a time gives each its outcome; a call that changes nothing may be put into
the log wherever it would have had its outcome. -/

namespace Concurrent

variable {S E : Type} {does : S → E → S → Prop} {start s s' : S} {log log' before rest : List E}
  {e : E} {free : S → Prop} {late : E → Prop}

/-- Running the calls of a log one at a time; `does s e s'` says that the call of `e` at `s` has its
outcome and leads to `s'`. -/
inductive Replays (does : S → E → S → Prop) : S → List E → S → Prop
  | nil {s : S} : Replays does s [] s
  | cons {s s' s'' : S} {e : E} {log : List E} :
      does s e s' → Replays does s' log s'' → Replays does s (e :: log) s''

theorem Replays.append (h : Replays does start log s) (h' : Replays does s log' s') :
    Replays does start (log ++ log') s' := by
  induction h with
  | nil => exact h'
  | cons hDoes _ ih => exact .cons hDoes (ih h')

theorem Replays.concat (h : Replays does start log s) (hDoes : does s e s') :
    Replays does start (log ++ [e]) s' := h.append (.cons hDoes .nil)

theorem Replays.split (h : Replays does start (log ++ log') s') :
    ∃ s, Replays does start log s ∧ Replays does s log' s' := by
  induction log generalizing start with
  | nil => exact ⟨start, .nil, h⟩
  | cons e log ih =>
    cases h with
    | cons hDoes hRest =>
      obtain ⟨s, hLog, hLog'⟩ := ih hRest
      exact ⟨s, .cons hDoes hLog, hLog'⟩

theorem Replays.unique (hDoes : ∀ s e s1 s2, does s e s1 → does s e s2 → s1 = s2)
    (h : Replays does start log s) (h' : Replays does start log s') : s = s' := by
  induction h with
  | nil =>
    cases h' with
    | nil => rfl
  | cons hFirst _ ih =>
    cases h' with
    | cons hFirst' hRest' =>
      obtain rfl := hDoes _ _ _ _ hFirst hFirst'
      exact ih hRest'

/-- What each call keeps, with a call of the same entry at the other side, a log keeps. -/
theorem Replays.simulates {T : Type} {does' : T → E → T → Prop} {rel : S → T → Prop}
    (hStep : ∀ s t e s', rel s t → does s e s' → ∃ t', does' t e t' ∧ rel s' t')
    (h : Replays does s log s') {t : T} (hRel : rel s t) :
    ∃ t', Replays does' t log t' ∧ rel s' t' := by
  induction h generalizing t with
  | nil => exact ⟨t, .nil, hRel⟩
  | cons hDoes _ ih =>
    obtain ⟨t1, hDoes', hRel1⟩ := hStep _ _ _ _ hRel hDoes
    obtain ⟨t2, hRest, hRel2⟩ := ih hRel1
    exact ⟨t2, .cons hDoes' hRest, hRel2⟩

/-- A place in a log at which the state is free, with only late calls after it. -/
def Slot (does : S → E → S → Prop) (start : S) (free : S → Prop) (late : E → Prop) (log : List E) :
    Prop :=
  ∃ before rest s, log = before ++ rest ∧ Replays does start before s ∧ free s ∧ ∀ e ∈ rest, late e

theorem Slot.here (h : Replays does start log s) (hFree : free s) :
    Slot does start free late log :=
  ⟨log, [], s, (List.append_nil log).symm, h, hFree, fun _ he => absurd he List.not_mem_nil⟩

theorem Slot.concat (h : Slot does start free late log) (hLate : late e) :
    Slot does start free late (log ++ [e]) := by
  obtain ⟨before, rest, s, rfl, hBefore, hFree, hRest⟩ := h
  refine ⟨before, rest ++ [e], s, List.append_assoc _ _ _, hBefore, hFree, fun e' he' => ?_⟩
  rcases List.mem_append.mp he' with hOld | hNew
  · exact hRest e' hOld
  · rw [List.mem_singleton.mp hNew]
    exact hLate

section Insert

variable (hDoes : ∀ s e s1 s2, does s e s1 → does s e s2 → s1 = s2)
  (hBefore : Replays does start before s) (hSame : does s e s)
include hDoes hBefore hSame

theorem Replays.insert (h : Replays does start (before ++ rest) s') :
    Replays does start (before ++ e :: rest) s' := by
  obtain ⟨s1, h1, hRest⟩ := h.split
  obtain rfl := h1.unique hDoes hBefore
  exact hBefore.append (.cons hSame hRest)

theorem Slot.insert (hLate : late e) (h : Slot does start free late (before ++ rest)) :
    Slot does start free late (before ++ e :: rest) := by
  obtain ⟨before', rest', s', hSplit, hBefore', hFree, hRest⟩ := h
  rcases List.append_eq_append_iff.mp hSplit with ⟨mid, rfl, rfl⟩ | ⟨mid, rfl, rfl⟩
  · -- The call comes before the place.
    refine ⟨before ++ e :: mid, rest', s', by simp, ?_, hFree, hRest⟩
    exact Replays.insert hDoes hBefore hSame hBefore'
  · refine ⟨before', mid ++ e :: rest, s', by simp, hBefore', hFree, fun e' he' => ?_⟩
    rcases List.mem_append.mp he' with hMid | hLater
    · exact hRest e' (List.mem_append_left _ hMid)
    · rcases List.mem_cons.mp hLater with rfl | hRest'
      · exact hLate
      · exact hRest e' (List.mem_append_right _ hRest')

end Insert

end Concurrent
