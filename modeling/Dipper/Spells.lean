import Mathlib.Data.List.Chain
import Mathlib.Data.List.Induction

/-! Counters over spells.  A counter adds the time of each tick at which something is the case, in
whole units, and starts again from zero at a tick at which it is not; a limit is noticed when a
tick takes the counter to it. -/

namespace Spells

/-- A tick: when it is, whether the thing counted is the case, the exact time it counts, and the
counter as it finds it. -/
structure Tick where
  time : Nat
  on : Bool
  span : Nat
  found : Nat
  deriving DecidableEq, Repr

variable {unit : Nat}

def step (unit total : Nat) (k : Tick) : Nat := if k.on then total + k.span / unit else 0

def total (unit start : Nat) (ticks : List Tick) : Nat := ticks.foldl (step unit) start

/-- Each tick finds the counter as the ticks before it left it. -/
def Linked (unit : Nat) : Nat → List Tick → Prop
  | _, [] => True
  | start, k :: ticks => k.found = start ∧ Linked unit (step unit start k) ticks

theorem total_concat {start : Nat} {ticks : List Tick} {k : Tick} :
    total unit start (ticks ++ [k]) = step unit (total unit start ticks) k := by
  unfold total
  rw [List.foldl_append]
  rfl

theorem total_append {start : Nat} {ticks ticks' : List Tick} :
    total unit start (ticks ++ ticks') = total unit (total unit start ticks) ticks' :=
  List.foldl_append

theorem linked_append {start : Nat} {ticks ticks' : List Tick} :
    Linked unit start (ticks ++ ticks') ↔
      Linked unit start ticks ∧ Linked unit (total unit start ticks) ticks' := by
  induction ticks generalizing start with
  | nil =>
    simp only [List.nil_append, Linked, true_and]
    rfl
  | cons k ticks ih =>
    simp only [List.cons_append, Linked, ih, and_assoc]
    rfl

section Bound

def latest (ticks : List Tick) : Nat := (ticks.getLast?.map (·.time)).getD 0

/-- Since when the thing has been the case at every tick: the last tick at which it was not, or the
very first. -/
def since (ticks : List Tick) : Nat :=
  (((ticks.reverse.find? fun k => !k.on).or ticks.head?).map (·.time)).getD 0

/-- A tick counts no more than the time since the one before it, and the first counts nothing. -/
structure Paced (ticks : List Tick) : Prop where
  first : ∀ k ∈ ticks.head?, k.span = 0
  next : ticks.IsChain fun k k' => k.time + k'.span ≤ k'.time

theorem latest_concat {ticks : List Tick} {k : Tick} : latest (ticks ++ [k]) = k.time := by
  simp [latest]

theorem since_concat {ticks : List Tick} {k : Tick} :
    since (ticks ++ [k]) = if k.on ∧ ticks ≠ [] then since ticks else k.time := by
  unfold since
  rw [List.reverse_append, List.reverse_singleton, List.singleton_append, List.find?_cons]
  cases hOn : k.on with
  | false => simp
  | true =>
    cases ticks with
    | nil => simp
    | cons k' ticks => simp

theorem paced_concat {ticks : List Tick} {k : Tick} :
    Paced (ticks ++ [k]) ↔ Paced ticks ∧
      (if ticks = [] then k.span = 0 else latest ticks + k.span ≤ k.time) := by
  rcases List.eq_nil_or_concat' ticks with rfl | ⟨before, last, rfl⟩
  · constructor
    · intro h
      refine ⟨⟨fun k hk => ?_, List.IsChain.nil⟩, h.first k rfl⟩
      cases hk
    · rintro ⟨-, hFirst⟩
      refine ⟨fun k' hk' => ?_, List.IsChain.singleton k⟩
      obtain rfl := Option.some.inj hk'
      exact hFirst
  · have hHead : (before ++ [last] ++ [k]).head? = (before ++ [last]).head? := by
      cases before <;> rfl
    rw [if_neg (by simp), latest_concat]
    constructor
    · intro h
      obtain ⟨hBefore, -, hLast⟩ := List.isChain_append.mp h.next
      refine ⟨⟨fun k' hk' => h.first k' (hHead ▸ hk'), hBefore⟩, ?_⟩
      exact hLast last (by simp) k rfl
    · rintro ⟨h, hLast⟩
      refine ⟨fun k' hk' => h.first k' (hHead ▸ hk'), ?_⟩
      refine List.isChain_append.mpr ⟨h.next, List.IsChain.singleton k, fun x hx y hy => ?_⟩
      obtain rfl : last = x := by simpa using hx
      obtain rfl : k = y := by simpa using hy
      exact hLast

/-- The counter never exceeds the time for which the thing has been the case. -/
theorem total_le (unit : Nat) {ticks : List Tick} (h : Paced ticks) (hSome : ticks ≠ []) :
    since ticks + total unit 0 ticks * unit ≤ latest ticks := by
  induction ticks using List.reverseRecOn with
  | nil => exact absurd rfl hSome
  | append_singleton ticks k ih =>
    obtain ⟨hBefore, hNext⟩ := paced_concat.mp h
    have hFloor : k.span / unit * unit ≤ k.span := Nat.div_mul_le_self _ _
    rw [latest_concat, since_concat, total_concat]
    unfold step
    cases hOn : k.on with
    | false => simp
    | true =>
      by_cases hNil : ticks = []
      · rw [if_pos hNil] at hNext
        simp [hNil, hNext, total]
      · rw [if_neg hNil] at hNext
        have hOld := ih hBefore hNil
        simp only [hNil, ne_eq, not_false_eq_true, and_self, if_true]
        rw [Nat.add_mul]
        omega

end Bound

section Limit

variable {limit : Nat} {k : Tick} {ticks : List Tick} {start : Nat}

/-- Whether a tick is seen to take the counter to the limit: with its exact time taken off again,
the counter is below. -/
def Reaches (unit limit : Nat) (k : Tick) : Prop :=
  k.on ∧ 0 < k.span ∧ limit * unit ≤ step unit k.found k * unit ∧
    step unit k.found k * unit - k.span < limit * unit

instance : Decidable (Reaches unit limit k) := by
  unfold Reaches
  infer_instance

/-- A tick whose time is not in whole units finds the counter just at the limit. -/
def AtLimit (unit limit : Nat) (k : Tick) : Prop := k.found = limit ∧ k.span % unit ≠ 0

instance : Decidable (AtLimit unit limit k) := by
  unfold AtLimit
  infer_instance

/-- The limit is seen to be reached by the tick that does it, and by each later one that finds the
counter there and adds a fraction of a unit. -/
theorem reaches_iff (hUnit : 0 < unit) (hLimit : 0 < limit) (hOn : k.on = true) :
    Reaches unit limit k ↔
      (k.found < limit ∧ limit ≤ step unit k.found k) ∨ AtLimit unit limit k := by
  have hStep : step unit k.found k = k.found + k.span / unit := by
    unfold step
    rw [if_pos hOn]
  have hSpan : k.span / unit * unit + k.span % unit = k.span := Nat.div_add_mod' _ _
  have hRest : k.span % unit < unit := Nat.mod_lt _ hUnit
  -- Taking the exact time off again takes the fraction off what was found.
  have hBelow : (k.found + k.span / unit) * unit - k.span = k.found * unit - k.span % unit := by
    rw [Nat.add_mul]
    omega
  unfold Reaches AtLimit
  rw [hStep, hBelow, Nat.mul_le_mul_right_iff hUnit]
  rcases Nat.lt_trichotomy k.found limit with hLt | hEq | hGt
  · have hMul : k.found * unit < limit * unit := Nat.mul_lt_mul_of_pos_right hLt hUnit
    constructor
    · rintro ⟨-, -, hLe, -⟩
      exact .inl ⟨hLt, hLe⟩
    · rintro (⟨-, hLe⟩ | ⟨hEq, -⟩)
      · refine ⟨hOn, ?_, hLe, by omega⟩
        rcases Nat.eq_zero_or_pos k.span with hZero | hPos
        · rw [hZero, Nat.zero_div] at hLe
          omega
        · exact hPos
      · omega
  · have hMul : 0 < limit * unit := Nat.mul_pos hLimit hUnit
    rw [hEq]
    constructor
    · rintro ⟨-, -, -, hFraction⟩
      exact .inr ⟨rfl, by omega⟩
    · rintro (⟨hLt, -⟩ | ⟨-, hFraction⟩)
      · omega
      · exact ⟨hOn, by omega, Nat.le_add_right _ _, by omega⟩
  · have hMul : (limit + 1) * unit ≤ k.found * unit := Nat.mul_le_mul_right _ hGt
    rw [Nat.add_mul] at hMul
    constructor
    · rintro ⟨-, -, -, hFraction⟩
      omega
    · rintro (⟨hLt, -⟩ | ⟨hEq, -⟩) <;> omega

theorem le_step (hOn : k.on = true) : start ≤ step unit start k := by
  unfold step
  rw [if_pos hOn]
  exact Nat.le_add_right _ _

theorem le_total (hOn : ∀ k ∈ ticks, k.on = true) : start ≤ total unit start ticks := by
  induction ticks generalizing start with
  | nil => exact Nat.le_refl _
  | cons k ticks ih =>
    exact Nat.le_trans (le_step (hOn k List.mem_cons_self))
      (ih fun k' hk' => hOn k' (List.mem_cons_of_mem _ hk'))

theorem countP_reaches (hUnit : 0 < unit) (hLimit : 0 < limit) (hOn : ∀ k ∈ ticks, k.on = true)
    (hLinked : Linked unit start ticks) :
    ticks.countP (Reaches unit limit ·) =
      (if start < limit ∧ limit ≤ total unit start ticks then 1 else 0) +
        ticks.countP (AtLimit unit limit ·) := by
  induction ticks generalizing start with
  | nil =>
    rw [if_neg fun h => Nat.not_le_of_lt h.1 h.2]
    rfl
  | cons k ticks ih =>
    obtain ⟨hFound, hRest⟩ := hLinked
    have hTicks : ∀ k' ∈ ticks, k'.on = true := fun k' hk' => hOn k' (List.mem_cons_of_mem _ hk')
    have hFirst := reaches_iff hUnit hLimit (hOn k List.mem_cons_self)
    have hGrows : start ≤ step unit start k := le_step (hOn k List.mem_cons_self)
    have hMore : step unit start k ≤ total unit (step unit start k) ticks := le_total hTicks
    have hTotal : total unit start (k :: ticks) = total unit (step unit start k) ticks := rfl
    have hAt : AtLimit unit limit k → start = limit := fun h => hFound.symm.trans h.1
    rw [hFound] at hFirst
    rw [List.countP_cons, List.countP_cons, ih hTicks hRest, hTotal]
    simp only [decide_eq_true_eq, hFirst]
    by_cases hHere : AtLimit unit limit k
    · have hEq := hAt hHere
      simp only [hHere, or_true, if_true]
      split_ifs <;> omega
    · simp only [hHere, or_false, if_false]
      split_ifs <;> omega

/-- From below the limit, it is seen to be reached once if it is, and never if it is not, exactly
where no tick with a fraction of a unit finds the counter just there. -/
theorem reached_once_iff (hUnit : 0 < unit) (hLimit : 0 < limit) (hOn : ∀ k ∈ ticks, k.on = true)
    (hLinked : Linked unit start ticks) (hBelow : start < limit) :
    (ticks.countP (Reaches unit limit ·) ≤ 1 ∧
      (limit ≤ total unit start ticks → ticks.countP (Reaches unit limit ·) = 1)) ↔
    ∀ k ∈ ticks, ¬AtLimit unit limit k := by
  have hCount := countP_reaches hUnit hLimit hOn hLinked
  have hNone : (∀ k ∈ ticks, ¬AtLimit unit limit k) ↔ ticks.countP (AtLimit unit limit ·) = 0 := by
    rw [List.countP_eq_zero]
    simp only [decide_eq_true_eq]
  rw [hNone]
  by_cases hReached : limit ≤ total unit start ticks
  · rw [if_pos ⟨hBelow, hReached⟩] at hCount
    omega
  · -- A tick that finds the counter at the limit shows that it was reached.
    have hZero : ticks.countP (AtLimit unit limit ·) = 0 := by
      refine hNone.mp fun k hk hHere => hReached ?_
      obtain ⟨before, after, rfl⟩ := List.append_of_mem hk
      obtain ⟨-, hFound, -⟩ := linked_append.mp hLinked
      rw [← hHere.1, hFound, total_append]
      exact le_total fun k' hk' => hOn k' (List.mem_append_right _ hk')
    rw [if_neg fun h => hReached h.2] at hCount
    omega

end Limit

end Spells
