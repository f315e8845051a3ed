import Mathlib.Data.List.AList
import Mathlib.Data.UInt
import Mathlib.Order.Basic

/-! The throttle of the alerts that are posted to Slack.  In each window there is at most one
message for an event, the alert itself or a report of those held back, and the alerts between two
messages are counted.  Instants and durations are in nanoseconds. -/

namespace Dipper

namespace Alerts

structure Window where
  started : Int
  heldBack : UInt64
  deriving DecidableEq, Repr

def durationSince (now started : Int) : Nat := (now - started).toNat

/-- The instant a duration before `now`, on a clock that goes back to `earliest`. -/
def checkedSub (earliest now : Int) (duration : Nat) : Option Int :=
  if earliest ≤ now - duration then some (now - duration) else none

structure Throttle where
  window : Nat
  events : AList fun _ : String => Window

namespace Throttle

def new (window : Nat) : Throttle := ⟨window, ∅⟩

def set (t : Throttle) (event : String) (w : Window) : Throttle :=
  { t with events := t.events.insert event w }

/-- Whether to post this alert now and, if so, how many were held back before it. -/
def admitAlert (t : Throttle) (event : String) (now : Int) : Throttle × Option UInt64 :=
  match t.events.lookup event with
  | some w =>
    if durationSince now w.started < t.window then
      (t.set event { w with heldBack := w.heldBack + 1 }, none)
    else (t.set event ⟨now, 0⟩, some w.heldBack)
  | none => (t.set event ⟨now, 0⟩, some 0)

/-- Count alerts that never reached the throttle; an event with no window yet gets one that has
ended, if the clock goes back that far. -/
def holdBack (earliest : Int) (t : Throttle) (event : String) (count : UInt64) (now : Int) :
    Throttle :=
  let w := (t.events.lookup event).getD ⟨(checkedSub earliest now t.window).getD now, 0⟩
  t.set event { w with heldBack := w.heldBack + count }

def isDue (t : Throttle) (now : Int) (w : Window) : Bool :=
  0 < w.heldBack && t.window ≤ durationSince now w.started

def report (now : Int) (r : Throttle × List (String × UInt64)) (event : String) :
    Throttle × List (String × UInt64) :=
  match r.1.events.lookup event with
  | some w =>
    if r.1.isDue now w then (r.1.set event ⟨now, 0⟩, r.2 ++ [(event, w.heldBack)]) else r
  | none => r

/-- Events whose window has ended with alerts held back, each with how many; the message reporting
them starts that event's next window. -/
def due (t : Throttle) (now : Int) : Throttle × List (String × UInt64) :=
  t.events.keys.foldl (report now) (t, [])

end Throttle

/-- A message for an event: an alert that is posted, or a report, with the alerts held back before
it. -/
structure Message where
  event : String
  sentAt : Int
  isAlert : Bool
  heldBack : UInt64
  deriving DecidableEq, Repr

inductive Call : Type
  | admitAlert (event : String)
  | holdBack (event : String) (count : UInt64)
  | due
  deriving DecidableEq, Repr

def Throttle.step (earliest : Int) (t : Throttle) (now : Int) : Call → Throttle × List Message
  | .admitAlert event =>
    let (t', heldBack) := t.admitAlert event now
    (t', (heldBack.map fun count => ⟨event, now, true, count⟩).toList)
  | .holdBack event count => (t.holdBack earliest event count now, [])
  | .due =>
    let (t', reports) := t.due now
    (t', reports.map fun r => ⟨r.1, now, false, r.2⟩)

def after (earliest : Int) (window : Nat) (calls : List (Int × Call)) : Throttle × List Message :=
  calls.foldl (fun s c =>
    let (t, messages) := s.1.step earliest c.1 c.2
    (t, s.2 ++ messages)) (.new window, [])

section Counts

variable (event : String)

def Call.brings : Call → Nat
  | .admitAlert event' => if event' = event then 1 else 0
  | .holdBack event' count => if event' = event then count.toNat else 0
  | .due => 0

def received (calls : List (Int × Call)) : Nat := (calls.map fun c => c.2.brings event).sum

def Throttle.held (t : Throttle) : Nat := ((t.events.lookup event).map (·.heldBack.toNat)).getD 0

def messagesFor (messages : List Message) : List Message := messages.filter fun m => m.event = event

def posted (messages : List Message) : Nat := (messagesFor event messages).countP (·.isAlert)

/-- The alerts of an event that messages reported held back. -/
def reported (messages : List Message) : Nat :=
  ((messagesFor event messages).map (·.heldBack.toNat)).sum

/-- The alerts that a call adds to those held back for an event. -/
def Throttle.adds (t : Throttle) (now : Int) : Call → Nat
  | .admitAlert event' => if event' = event ∧ (t.admitAlert event now).2 = none then 1 else 0
  | .holdBack event' count => if event' = event then count.toNat else 0
  | .due => 0

/-- No call takes the alerts held back for an event past what 64 bits count. -/
def Fits (earliest : Int) (window : Nat) (calls : List (Int × Call)) : Prop :=
  ∀ before c rest, calls = before ++ c :: rest →
    (after earliest window before).1.held event +
      (after earliest window before).1.adds event c.1 c.2 < 2 ^ 64

end Counts

section Due

variable {t : Throttle} {now : Int} {event event' : String} {w : Window}

@[simp] theorem Throttle.set_window : (t.set event w).window = t.window := rfl

theorem Throttle.lookup_set : (t.set event w).events.lookup event = some w := AList.lookup_insert _

theorem Throttle.lookup_set_ne (h : event' ≠ event) :
    (t.set event w).events.lookup event' = t.events.lookup event' := AList.lookup_insert_ne h

def Throttle.renew (t : Throttle) (now : Int) (w : Window) : Window :=
  if t.isDue now w then ⟨now, 0⟩ else w

def Throttle.reportOf (t : Throttle) (now : Int) (event : String) : Option (String × UInt64) :=
  (t.events.lookup event).bind fun w => if t.isDue now w then some (event, w.heldBack) else none

/-- The events of a list, one after another: each is looked up as it was before, since none comes
twice. -/
theorem Throttle.foldl_report {events : List String} (hNodup : events.Nodup)
    (reports : List (String × UInt64)) :
    (events.foldl (report now) (t, reports)).1.window = t.window ∧
    (∀ e, (events.foldl (report now) (t, reports)).1.events.lookup e =
      if e ∈ events then (t.events.lookup e).map (t.renew now) else t.events.lookup e) ∧
    (events.foldl (report now) (t, reports)).2 = reports ++ events.filterMap (t.reportOf now) := by
  induction events generalizing t reports with
  | nil => simp
  | cons event events ih =>
    obtain ⟨hNew, hRest⟩ := List.nodup_cons.mp hNodup
    rw [List.foldl_cons]
    -- The first event is renewed or not, and the others are as before.
    obtain ⟨t1, reports1, hFirst, hWindow, hOthers, hSelf, hReports⟩ : ∃ t1 reports1,
        report now (t, reports) event = (t1, reports1) ∧ t1.window = t.window ∧
        (∀ e ≠ event, t1.events.lookup e = t.events.lookup e) ∧
        t1.events.lookup event = (t.events.lookup event).map (t.renew now) ∧
        reports1 = reports ++ (t.reportOf now event).toList := by
      unfold report reportOf renew
      cases hLookup : t.events.lookup event with
      | none => exact ⟨t, reports, rfl, rfl, fun _ _ => rfl, hLookup, by simp⟩
      | some w =>
        cases hDue : t.isDue now w with
        | false => exact ⟨t, reports, by simp [hDue], rfl, fun _ _ => rfl, by simp [hLookup, hDue],
            by simp [hDue]⟩
        | true =>
          exact ⟨t.set event ⟨now, 0⟩, reports ++ [(event, w.heldBack)], by simp [hDue], rfl,
            fun e he => lookup_set_ne he, by simp [lookup_set, hDue], by simp [hDue]⟩
    rw [hFirst]
    obtain ⟨hWindow', hLookups, hReports'⟩ := ih hRest (t := t1) reports1
    have hRenew : t1.renew now = t.renew now := by
      funext w
      unfold renew isDue
      rw [hWindow]
    refine ⟨hWindow'.trans hWindow, fun e => ?_, ?_⟩
    · rw [hLookups e]
      by_cases hEq : e = event
      · rw [hEq, if_neg hNew, hSelf, if_pos List.mem_cons_self]
      · rw [hOthers e hEq, hRenew]
        simp [hEq]
    · rw [hReports', hReports]
      have hSame : events.filterMap (t1.reportOf now) = events.filterMap (t.reportOf now) := by
        refine List.filterMap_congr fun e he => ?_
        have hNe : e ≠ event := fun hEq => hNew (hEq ▸ he)
        unfold reportOf isDue
        rw [hOthers e hNe, hWindow]
      rw [hSame, List.append_assoc, List.filterMap_cons]
      cases t.reportOf now event <;> rfl

theorem Throttle.due_spec (t : Throttle) (now : Int) : (t.due now).1.window = t.window ∧
    (∀ e, (t.due now).1.events.lookup e = (t.events.lookup e).map (t.renew now)) ∧
    (t.due now).2 = t.events.keys.filterMap (t.reportOf now) := by
  obtain ⟨hWindow, hLookups, hReports⟩ := foldl_report (t := t) t.events.keys_nodup []
  refine ⟨hWindow, fun e => ?_, hReports⟩
  refine (hLookups e).trans ?_
  split
  · rfl
  · rename_i hAbsent
    rw [AList.lookup_eq_none.mpr hAbsent]
    rfl

theorem filter_reports {events : List String} (hNodup : events.Nodup) :
    (events.filterMap (t.reportOf now)).filter (fun r => r.1 = event) =
      if event ∈ events then (t.reportOf now event).toList else [] := by
  have hNames : ∀ e r, t.reportOf now e = some r → r.1 = e := by
    intro e r hReport
    obtain ⟨w, -, hReport⟩ := Option.bind_eq_some_iff.mp hReport
    split at hReport
    · cases hReport
      rfl
    · cases hReport
  induction events with
  | nil => rfl
  | cons e events ih =>
    obtain ⟨hNew, hRest⟩ := List.nodup_cons.mp hNodup
    rw [List.filterMap_cons]
    by_cases hEq : e = event
    · subst hEq
      have hNone : (events.filterMap (t.reportOf now)).filter (fun r => r.1 = e) = [] := by
        rw [ih hRest, if_neg hNew]
      rw [if_pos List.mem_cons_self]
      cases hReport : t.reportOf now e with
      | none => exact hNone
      | some r =>
        have hName := hNames e r hReport
        simp [hName, hNone]
    · have hMem : event ∈ e :: events ↔ event ∈ events := by
        rw [List.mem_cons]
        exact or_iff_right fun h => hEq h.symm
      simp only [hMem]
      rw [← ih hRest]
      cases hReport : t.reportOf now e with
      | none => rfl
      | some r =>
        have hName : r.1 ≠ event := fun h => hEq ((hNames e r hReport).symm.trans h)
        simp [hName]

end Due

section Effects

/-- What a call can do to an event: nothing; count alerts that are held back; post an alert once the
window has ended; or report those held back once it has.  The last two numbers are the alerts the
call brings and those it adds to the ones held back. -/
inductive Effect (event : String) (now : Int) (window : Nat) :
    Option Window → Option Window → List Message → Nat → Nat → Prop
  | idle {before : Option Window} : Effect event now window before before [] 0 0
  | held {before : Option Window} {w : Window} {count : UInt64} :
      before = some w ∨ before = none ∧ w.heldBack = 0 ∧ w.started ≤ now →
      Effect event now window before (some { w with heldBack := w.heldBack + count }) []
        count.toNat count.toNat
  | alert {before : Option Window} : (∀ w ∈ before, window ≤ durationSince now w.started) →
      Effect event now window before (some ⟨now, 0⟩)
        [⟨event, now, true, (before.map (·.heldBack)).getD 0⟩] 1 0
  | report {w : Window} : window ≤ durationSince now w.started →
      Effect event now window (some w) (some ⟨now, 0⟩) [⟨event, now, false, w.heldBack⟩] 0 0

variable {t : Throttle} {now earliest : Int} {event event' : String}

theorem admitAlert_effect : Effect event now t.window (t.events.lookup event)
    ((t.step earliest now (.admitAlert event)).1.events.lookup event)
    (messagesFor event (t.step earliest now (.admitAlert event)).2) 1
    (t.adds event now (.admitAlert event)) := by
  cases hLookup : t.events.lookup event with
  | none =>
    have hAdmit : t.admitAlert event now = (t.set event ⟨now, 0⟩, some 0) := by
      unfold Throttle.admitAlert
      rw [hLookup]
    simp only [Throttle.step, Throttle.adds, hAdmit, Throttle.lookup_set]
    have h : Effect event now t.window none (some ⟨now, 0⟩) [⟨event, now, true, 0⟩] 1 0 :=
      .alert fun w hw => by cases hw
    simpa [messagesFor] using h
  | some w =>
    by_cases hOpen : durationSince now w.started < t.window
    · have hAdmit : t.admitAlert event now =
          (t.set event { w with heldBack := w.heldBack + 1 }, none) := by
        unfold Throttle.admitAlert
        rw [hLookup]
        exact if_pos hOpen
      simp only [Throttle.step, Throttle.adds, hAdmit, Throttle.lookup_set]
      have h : Effect event now t.window (some w)
          (some { w with heldBack := w.heldBack + 1 }) [] 1 1 := .held (.inl rfl)
      simpa [messagesFor] using h
    · have hAdmit : t.admitAlert event now = (t.set event ⟨now, 0⟩, some w.heldBack) := by
        unfold Throttle.admitAlert
        rw [hLookup]
        exact if_neg hOpen
      simp only [Throttle.step, Throttle.adds, hAdmit, Throttle.lookup_set]
      have h : Effect event now t.window (some w) (some ⟨now, 0⟩)
          [⟨event, now, true, w.heldBack⟩] 1 0 := by
        refine .alert fun w' hw' => ?_
        obtain rfl := Option.some.inj hw'
        exact Nat.le_of_not_lt hOpen
      simpa [messagesFor] using h

theorem holdBack_effect {count : UInt64} : Effect event now t.window (t.events.lookup event)
    ((t.step earliest now (.holdBack event count)).1.events.lookup event) []
    count.toNat count.toNat := by
  simp only [Throttle.step, Throttle.holdBack, Throttle.lookup_set]
  refine .held ?_
  cases t.events.lookup event with
  | some w => exact .inl rfl
  | none =>
    refine .inr ⟨rfl, rfl, ?_⟩
    simp only [Option.getD_none, checkedSub]
    split
    · simp only [Option.getD_some]
      omega
    · exact Int.le_refl _

theorem due_effect : Effect event now t.window (t.events.lookup event)
    ((t.step earliest now .due).1.events.lookup event)
    (messagesFor event (t.step earliest now .due).2) 0 0 := by
  obtain ⟨-, hLookups, hReports⟩ := Throttle.due_spec t now
  have hMessages : messagesFor event (t.step earliest now .due).2 =
      ((t.reportOf now event).toList).map fun r => ⟨r.1, now, false, r.2⟩ := by
    simp only [Throttle.step, messagesFor, hReports, List.filter_map]
    change List.map _ ((t.events.keys.filterMap (t.reportOf now)).filter fun r => r.1 = event) = _
    rw [filter_reports t.events.keys_nodup]
    split
    · rfl
    · rename_i hAbsent
      have hNone : t.reportOf now event = none := by
        unfold Throttle.reportOf
        rw [AList.lookup_eq_none.mpr hAbsent]
        rfl
      rw [hNone]
      rfl
  rw [hMessages]
  change Effect event now t.window _ ((t.due now).1.events.lookup event) _ 0 0
  rw [hLookups event]
  unfold Throttle.reportOf
  cases t.events.lookup event with
  | none => exact .idle
  | some w =>
    simp only [Option.bind_some, Option.map_some, Throttle.renew]
    cases hDue : t.isDue now w with
    | false => exact .idle
    | true =>
      exact .report (of_decide_eq_true (Bool.and_eq_true_iff.mp hDue).2)

theorem step_effect (t : Throttle) (earliest now : Int) (call : Call) (event : String) :
    Effect event now t.window (t.events.lookup event)
      ((t.step earliest now call).1.events.lookup event)
      (messagesFor event (t.step earliest now call).2) (call.brings event)
      (t.adds event now call) := by
  cases call with
  | due => exact due_effect
  | admitAlert event' =>
    by_cases hEq : event' = event
    · subst hEq
      simp only [Call.brings, if_true]
      exact admitAlert_effect
    · have hLookup : (t.step earliest now (.admitAlert event')).1.events.lookup event =
          t.events.lookup event := by
        simp only [Throttle.step, Throttle.admitAlert]
        split
        · split <;> exact Throttle.lookup_set_ne (Ne.symm hEq)
        · exact Throttle.lookup_set_ne (Ne.symm hEq)
      have hNone : messagesFor event (t.step earliest now (.admitAlert event')).2 = [] := by
        simp only [Throttle.step, messagesFor]
        cases (t.admitAlert event' now).2 <;> simp [hEq]
      rw [hLookup, hNone]
      simp only [Call.brings, Throttle.adds, hEq, if_false, false_and]
      exact .idle
  | holdBack event' count =>
    by_cases hEq : event' = event
    · subst hEq
      simp only [Call.brings, Throttle.adds, if_true]
      exact holdBack_effect
    · have hLookup : (t.step earliest now (.holdBack event' count)).1.events.lookup event =
          t.events.lookup event := Throttle.lookup_set_ne (Ne.symm hEq)
      rw [hLookup]
      simp only [Call.brings, Throttle.adds, hEq, if_false]
      exact .idle

theorem step_window (call : Call) : (t.step earliest now call).1.window = t.window := by
  cases call with
  | due => exact (Throttle.due_spec t now).1
  | admitAlert event' =>
    simp only [Throttle.step, Throttle.admitAlert]
    split
    · split <;> rfl
    · rfl
  | holdBack event' count => rfl

end Effects

section Runs

variable {earliest now : Int} {window : Nat} {calls : List (Int × Call)} {c : Int × Call}
  {event : String} {before w : Option Window} {messages new : List Message} {brings adds : Nat}

theorem after_concat : after earliest window (calls ++ [c]) =
    (((after earliest window calls).1.step earliest c.1 c.2).1,
      (after earliest window calls).2 ++
        ((after earliest window calls).1.step earliest c.1 c.2).2) := by
  unfold after
  rw [List.foldl_append]
  rfl

theorem after_window : (after earliest window calls).1.window = window := by
  induction calls using List.reverseRecOn with
  | nil => rfl
  | append_singleton calls c ih =>
    rw [after_concat]
    exact (step_window c.2).trans ih

/-- The messages for an event are a window apart, and its last window started no earlier than any of
them. -/
structure Spaced (window : Nat) (now : Int) (w : Option Window) (messages : List Message) :
    Prop where
  apart : messages.Pairwise fun m m' => m.sentAt + (window : Int) ≤ m'.sentAt
  started : ∀ v ∈ w, v.started ≤ now
  covered : ∀ m ∈ messages, ∃ v ∈ w, m.sentAt ≤ v.started

theorem Spaced.send (h : Spaced window now before messages) {m : Message} (hNow : m.sentAt = now)
    (hEnded : ∀ v ∈ before, window ≤ durationSince now v.started) :
    Spaced window now (some ⟨now, 0⟩) (messages ++ [m]) := by
  have hBefore : ∀ m' ∈ messages, m'.sentAt + window ≤ now := by
    intro m' hMem
    obtain ⟨v, hv, hSent⟩ := h.covered m' hMem
    have hLong := hEnded v hv
    have hStarted := h.started v hv
    unfold durationSince at hLong
    omega
  refine ⟨?_, ?_, ?_⟩
  · refine List.pairwise_append.mpr ⟨h.apart, List.pairwise_singleton _ _, ?_⟩
    intro m' hMem m'' hLast
    rw [List.mem_singleton.mp hLast, hNow]
    exact hBefore m' hMem
  · intro v hv
    obtain rfl := Option.some.inj hv
    exact Int.le_refl _
  · intro m' hMem
    refine ⟨⟨now, 0⟩, rfl, ?_⟩
    rcases List.mem_append.mp hMem with hOld | hLast
    · have hBound := hBefore m' hOld
      change m'.sentAt ≤ now
      omega
    · rw [List.mem_singleton.mp hLast]
      exact Int.le_of_eq hNow

theorem Effect.spaced (h : Effect event now window before w new brings adds)
    (hBefore : Spaced window now before messages) : Spaced window now w (messages ++ new) := by
  cases h with
  | idle =>
    rw [List.append_nil]
    exact hBefore
  | @held _ v count hWindow =>
    rw [List.append_nil]
    refine ⟨hBefore.apart, ?_, ?_⟩
    · intro v' hv'
      obtain rfl := Option.some.inj hv'
      rcases hWindow with rfl | ⟨-, -, hStarted⟩
      · exact hBefore.started v rfl
      · exact hStarted
    · intro m hMem
      obtain ⟨v', hv', hSent⟩ := hBefore.covered m hMem
      rcases hWindow with rfl | ⟨rfl, -, -⟩
      · obtain rfl := Option.some.inj hv'
        exact ⟨_, rfl, hSent⟩
      · cases hv'
  | alert hEnded => exact hBefore.send rfl hEnded
  | report hEnded =>
    refine hBefore.send rfl fun v hv => ?_
    obtain rfl := Option.some.inj hv
    exact hEnded

theorem spaced_after (hTimes : calls.Pairwise fun c c' => c.1 ≤ c'.1)
    (hNow : ∀ c ∈ calls, c.1 ≤ now) :
    Spaced window now ((after earliest window calls).1.events.lookup event)
      (messagesFor event (after earliest window calls).2) := by
  induction calls using List.reverseRecOn generalizing now with
  | nil =>
    refine ⟨List.Pairwise.nil, fun v hv => ?_, fun m hm => ?_⟩
    · cases hv
    · cases hm
  | append_singleton calls c ih =>
    obtain ⟨hBefore, -, hLast⟩ := List.pairwise_append.mp hTimes
    have hSpaced := ih hBefore fun c' hc' => hLast c' hc' c (List.mem_singleton_self _)
    have hEffect := step_effect (after earliest window calls).1 earliest c.1 c.2 event
    rw [after_window] at hEffect
    have hAfter := hEffect.spaced hSpaced
    rw [after_concat]
    simp only [messagesFor, List.filter_append] at hAfter ⊢
    refine ⟨hAfter.apart, fun v hv => ?_, hAfter.covered⟩
    exact Int.le_trans (hAfter.started v hv)
      (hNow c (List.mem_append_right _ (List.mem_singleton_self _)))

def heldIn (w : Option Window) : Nat := (w.map (·.heldBack.toNat)).getD 0

/-- A call loses alerts exactly if it takes the count past 64 bits. -/
theorem Effect.conserves (h : Effect event now window before w new brings adds) :
    ∃ lost, new.countP (·.isAlert) + (new.map (·.heldBack.toNat)).sum + heldIn w + lost =
      heldIn before + brings ∧ (lost = 0 ↔ heldIn before + adds < 2 ^ 64) := by
  have hBound : ∀ w : Option Window, heldIn w < 2 ^ 64 := by
    intro w
    cases w with
    | none => decide
    | some v => exact v.heldBack.toNat_lt
  cases h with
  | idle => exact ⟨0, by simp, by simpa using hBound before⟩
  | @held _ v count hWindow =>
    have hHeld : heldIn before = v.heldBack.toNat := by
      rcases hWindow with rfl | ⟨rfl, hZero, -⟩
      · rfl
      · rw [hZero]
        rfl
    have hSum : heldIn (some { v with heldBack := v.heldBack + count }) =
        (v.heldBack.toNat + count.toNat) % 2 ^ 64 := UInt64.toNat_add _ _
    rw [hSum, hHeld]
    have h1 := v.heldBack.toNat_lt
    have h2 := count.toNat_lt
    by_cases hFits : v.heldBack.toNat + count.toNat < 2 ^ 64
    · refine ⟨0, ?_, by simpa using hFits⟩
      rw [Nat.mod_eq_of_lt hFits]
      simp
    · refine ⟨2 ^ 64, ?_, by omega⟩
      simp only [List.countP_nil, List.map_nil, List.sum_nil]
      omega
  | alert _ =>
    refine ⟨0, ?_, by simpa using hBound before⟩
    cases before with
    | none => rfl
    | some v =>
      simp only [heldIn, List.countP_cons, List.countP_nil, List.map_cons, List.map_nil,
        List.sum_cons, List.sum_nil, Option.map_some, Option.getD_some, if_true, UInt64.toNat_zero]
      omega
  | @report v _ =>
    refine ⟨0, ?_, by simpa using hBound (some v)⟩
    simp only [heldIn, List.countP_cons, List.countP_nil, List.map_cons, List.map_nil,
      List.sum_cons, List.sum_nil, Option.map_some, Option.getD_some, UInt64.toNat_zero]
    simp

theorem fits_concat : Fits event earliest window (calls ++ [c]) ↔
    Fits event earliest window calls ∧
      (after earliest window calls).1.held event +
        (after earliest window calls).1.adds event c.1 c.2 < 2 ^ 64 := by
  constructor
  · intro h
    refine ⟨fun before c' rest hEq => h before c' (rest ++ [c]) ?_, h calls c [] rfl⟩
    rw [hEq]
    simp
  · rintro ⟨hBefore, hLast⟩ before c' rest hEq
    rcases List.eq_nil_or_concat' rest with rfl | ⟨rest', last, rfl⟩
    · obtain ⟨rfl, hSame⟩ := List.append_inj' hEq rfl
      obtain rfl := (List.cons.inj hSame).1
      exact hLast
    · rw [← List.cons_append, ← List.append_assoc] at hEq
      obtain ⟨hSame, -⟩ := List.append_inj' hEq rfl
      exact hBefore before c' rest' hSame

theorem conserved_after :
    posted event (after earliest window calls).2 + reported event (after earliest window calls).2 +
        (after earliest window calls).1.held event ≤ received event calls ∧
      (posted event (after earliest window calls).2 +
          reported event (after earliest window calls).2 +
          (after earliest window calls).1.held event = received event calls ↔
        Fits event earliest window calls) := by
  induction calls using List.reverseRecOn with
  | nil =>
    refine ⟨Nat.le_refl _, fun _ before c rest hEq => ?_, fun _ => rfl⟩
    simp at hEq
  | append_singleton calls c ih =>
    obtain ⟨hLe, hIff⟩ := ih
    obtain ⟨lost, hSum, hLost⟩ :=
      (step_effect (after earliest window calls).1 earliest c.1 c.2 event).conserves
    have hReceived : received event (calls ++ [c]) = received event calls + c.2.brings event := by
      simp [received]
    rw [fits_concat, ← hIff, hReceived, after_concat]
    change lost = 0 ↔ (after earliest window calls).1.held event + _ < 2 ^ 64 at hLost
    rw [← hLost]
    simp only [posted, reported, messagesFor, List.filter_append, List.countP_append,
      List.map_append, List.sum_append] at hLe ⊢ hSum
    change _ = (after earliest window calls).1.held event + _ at hSum
    change _ + _ + Throttle.held event
      ((after earliest window calls).1.step earliest c.1 c.2).1 + lost = _ at hSum
    omega

end Runs

/-- Alerts are at least a window apart, and none is lost as long as the counts fit their type. -/
theorem alerts_apart_and_conserved (earliest : Int) (window : Nat) (calls : List (Int × Call))
    (hTimes : calls.Pairwise fun c c' => c.1 ≤ c'.1) (event : String) :
    ((messagesFor event (after earliest window calls).2).Pairwise fun m m' =>
      m.sentAt + (window : Int) ≤ m'.sentAt) ∧
    (posted event (after earliest window calls).2 +
        reported event (after earliest window calls).2 +
        (after earliest window calls).1.held event = received event calls ↔
      Fits event earliest window calls) := by
  have hLast : ∃ now, ∀ c ∈ calls, c.1 ≤ now := by
    rcases List.eq_nil_or_concat' calls with rfl | ⟨before, last, rfl⟩
    · exact ⟨0, fun c hc => by cases hc⟩
    · refine ⟨last.1, fun c hc => ?_⟩
      rcases List.mem_append.mp hc with hBefore | hEq
      · exact (List.pairwise_append.mp hTimes).2.2 c hBefore last (List.mem_singleton_self _)
      · exact Int.le_of_eq (congrArg Prod.fst (List.mem_singleton.mp hEq))
  obtain ⟨now, hNow⟩ := hLast
  exact ⟨(spaced_after hTimes hNow).apart, conserved_after.2⟩

/-- Two alerts in one window and the report once it has ended. -/
theorem alerts_apart_and_conserved_report :
    let calls : List (Int × Call) := [(0, .admitAlert "e"), (1, .admitAlert "e"),
      (3, .holdBack "e" 2), (9, .due), (10, .due), (11, .admitAlert "e")]
    (after 0 10 calls).2 = [⟨"e", 0, true, 0⟩, ⟨"e", 10, false, 3⟩] ∧
    posted "e" (after 0 10 calls).2 + reported "e" (after 0 10 calls).2 +
      (after 0 10 calls).1.held "e" = 5 ∧ Fits "e" 0 10 calls := by
  intro calls
  have hTimes : calls.Pairwise fun c c' => c.1 ≤ c'.1 := by decide
  obtain ⟨-, hIff⟩ := alerts_apart_and_conserved 0 10 calls hTimes "e"
  have hSum : posted "e" (after 0 10 calls).2 + reported "e" (after 0 10 calls).2 +
      (after 0 10 calls).1.held "e" = 5 := by decide +kernel
  exact ⟨by decide +kernel, hSum, hIff.mp hSum⟩

/-- A count that is full starts again at zero. -/
theorem held_back_alerts_lost :
    let calls : List (Int × Call) :=
      [(0, .holdBack "e" 18446744073709551615), (0, .holdBack "e" 1)]
    (calls.Pairwise fun c c' => c.1 ≤ c'.1) ∧
    posted "e" (after 0 10 calls).2 + reported "e" (after 0 10 calls).2 +
      (after 0 10 calls).1.held "e" = 0 ∧ received "e" calls = 2 ^ 64 := by
  decide +kernel

end Alerts

end Dipper
