import Dipper.Subgraph
import Mathlib.Data.List.Sort
import Mathlib.Data.List.TakeWhile

/-! The newest block dipper has seen.  Reads are refused from endpoints behind it and, once it is
confirmed, from those too far ahead of it; one endpoint alone moves a confirmed one by a minute of
blocks at most, and two that agree by a week. -/

namespace Dipper

namespace AlloyClient

/-- A second, in the nanoseconds that instants and durations are given in. -/
def second : Nat := 1000000000

def weekOfBlocks : Nat := 2419200

def blocksPerSecond : Nat := 4

def agreeWithinBlocks : Nat := 60 * blocksPerSecond

def crossCheckInterval : Nat := 60 * second

def saturatingMul (a b : Nat) : Nat := min (a * b) maxU64

structure SeenBlock where
  number : Nat := 0
  movedAt : Nat
  confirmed : Bool := false
  crossCheckedAt : Option Nat := none
  jumpReported : Bool := false
  deriving DecidableEq, Repr

inductive Noted : Type
  | taken
  | unagreed
  | tooFarAhead
  deriving DecidableEq, Repr

namespace SeenBlock

/-- The blocks the chain can have added since the newest one seen moved. -/
def added (seen : SeenBlock) (now : Nat) : Nat :=
  saturatingMul ((now - seen.movedAt) / second) blocksPerSecond

def believableLimit (seen : SeenBlock) (now : Nat) : Nat :=
  saturatingAdd (saturatingAdd seen.number weekOfBlocks) (seen.added now)

/-- The lowest and highest latest block an endpoint may report to be read from. -/
def bounds (seen : SeenBlock) (now : Nat) : Nat × Nat :=
  (seen.number, if seen.confirmed then seen.believableLimit now else maxU64)

def loneLimit (seen : SeenBlock) (now : Nat) : Nat :=
  saturatingAdd (saturatingAdd seen.number agreeWithinBlocks) (seen.added now)

def take (seen : SeenBlock) (block now : Nat) : SeenBlock :=
  if seen.number < block then { seen with number := block, movedAt := now } else seen

/-- Take a block one endpoint reported as seen, unless it is too far ahead of a confirmed one. -/
def advance (seen : SeenBlock) (block now : Nat) (onlyEndpoint : Bool) : SeenBlock × Noted :=
  if seen.confirmed && seen.believableLimit now < block then (seen, .tooFarAhead)
  else if seen.confirmed && !onlyEndpoint && seen.loneLimit now < block then
    ({ seen with jumpReported := true }, .unagreed)
  else (seen.take block now, .taken)

/-- Take a block the chain is known to have reached. -/
def confirm (seen : SeenBlock) (block now : Nat) : SeenBlock :=
  let seen := { seen with jumpReported := false }
  if seen.confirmed then
    if block ≤ seen.believableLimit now then seen.take block now else seen
  else if seen.number < block ∨ saturatingAdd block agreeWithinBlocks < seen.number then
    { seen with number := block, movedAt := now, confirmed := true }
  else { seen with confirmed := true }

/-- Whether to ask every endpoint for its latest block, and that they are being asked. -/
def crossCheckDue (seen : SeenBlock) (now : Nat) : SeenBlock × Bool :=
  let checkedLately := seen.crossCheckedAt.any fun at' => now - at' < crossCheckInterval
  if (seen.confirmed && !seen.jumpReported) || checkedLately then (seen, false)
  else ({ seen with crossCheckedAt := some now }, true)

end SeenBlock

section AgreedHead

/-- The heads the scan has in its window, which ends at `head`, once those too far below it have
left. -/
def agreeing (window : List Nat) (head : Nat) : List Nat :=
  (window ++ [head]).dropWhile fun other => agreeWithinBlocks < head - other

/-- One head of the scan: the window, and the head most endpoints agree on so far with their
number. -/
def agreedStep (scan : List Nat × Option (Nat × Nat)) (head : Nat) :
    List Nat × Option (Nat × Nat) :=
  let window := agreeing scan.1 head
  let more := 2 ≤ window.length && scan.2.all fun most => most.1 ≤ window.length
  (window, if more then some (window.length, head) else scan.2)

/-- The newest of the latest blocks that the most endpoints agree on, at least 2 of them. -/
def agreedHead (heads : List Nat) : Option Nat :=
  ((heads.insertionSort (· ≤ ·)).foldl agreedStep ([], none)).2.map (·.2)

/-- How many heads are in the minute of blocks that ends at `head`. -/
def endingAt (heads : List Nat) (head : Nat) : Nat :=
  heads.countP fun other => other ≤ head ∧ head ≤ other + agreeWithinBlocks

variable {heads front window : List Nat} {head other : Nat}

theorem endingAt_append_singleton (heads : List Nat) (head other : Nat) :
    endingAt (heads ++ [head]) other =
      endingAt heads other + if head ≤ other ∧ other ≤ head + agreeWithinBlocks then 1 else 0 := by
  rw [endingAt, endingAt, List.countP_append, List.countP_singleton]
  simp only [decide_eq_true_eq]

theorem endingAt_append_of_lt (h : other < head) :
    endingAt (heads ++ [head]) other = endingAt heads other := by
  rw [endingAt_append_singleton, if_neg (by omega), Nat.add_zero]

/-- The window that ends at a head not below the ones before it has all that are in the minute:
those that left it, now or before, are too far below. -/
theorem length_agreeing (hSorted : (front ++ window ++ [head]).Pairwise (· ≤ ·))
    (hFront : ∀ other ∈ front, other + agreeWithinBlocks < head) :
    (agreeing window head).length = endingAt (front ++ window ++ [head]) head := by
  have hBelow : ∀ other ∈ window ++ [head], other ≤ head := by
    intro other hOther
    rcases List.mem_append.mp hOther with hOther | hOther
    · exact (List.pairwise_append.mp hSorted).2.2 other (List.mem_append_right _ hOther) head
        List.mem_cons_self
    · exact le_of_eq (List.mem_singleton.mp hOther)
  have hOrdered : (window ++ [head]).Pairwise (· ≤ ·) := by
    rw [List.append_assoc] at hSorted
    exact (List.pairwise_append.mp hSorted).2.1
  have hGone : front.countP
      (fun other => decide (other ≤ head ∧ head ≤ other + agreeWithinBlocks)) = 0 := by
    rw [List.countP_eq_zero]
    intro other hOther
    have hFar := hFront other hOther
    simp only [decide_eq_true_eq]
    omega
  rw [endingAt, List.append_assoc, List.countP_append, hGone, Nat.zero_add, agreeing]
  generalize window ++ [head] = heads at hBelow hOrdered
  induction heads with
  | nil => rfl
  | cons first rest ih =>
    have hRest := ih (fun other hOther => hBelow other (List.mem_cons_of_mem _ hOther))
      (List.pairwise_cons.mp hOrdered).2
    have hFirst := hBelow first List.mem_cons_self
    by_cases hFar : agreeWithinBlocks < head - first
    · rw [List.dropWhile_cons_of_pos (by simpa using hFar), hRest, List.countP_cons_of_neg]
      simp only [decide_eq_true_eq]
      omega
    · -- The first one that is not too far below: neither is any after it.
      rw [List.dropWhile_cons_of_neg (by simpa using hFar), eq_comm, List.countP_eq_length]
      intro other hOther
      have hLe := hBelow other hOther
      have hAfter : first ≤ other := by
        rcases List.mem_cons.mp hOther with rfl | hOther
        · exact Nat.le_refl _
        · exact (List.pairwise_cons.mp hOrdered).1 other hOther
      simp only [decide_eq_true_eq]
      omega

/-- What the scan knows of the heads it has been through: the window leaves out those too far below
one of them, and the head it has kept is the newest with the most heads in its minute. -/
structure Scanned (heads : List Nat) (scan : List Nat × Option (Nat × Nat)) : Prop where
  window : ∃ front, heads = front ++ scan.1 ∧
    ∀ other ∈ front, ∃ head ∈ heads, other + agreeWithinBlocks < head
  alone : scan.2 = none → ∀ other ∈ heads, endingAt heads other < 2
  agreed : ∀ most ∈ scan.2, 2 ≤ most.1 ∧ most.2 ∈ heads ∧ endingAt heads most.2 = most.1 ∧
    ∀ other ∈ heads, endingAt heads other ≤ most.1 ∧
      (endingAt heads other = most.1 → other ≤ most.2)

theorem Scanned.step {scan : List Nat × Option (Nat × Nat)} (h : Scanned heads scan)
    (hSorted : (heads ++ [head]).Pairwise (· ≤ ·)) :
    Scanned (heads ++ [head]) (agreedStep scan head) := by
  have hNewest : ∀ other ∈ heads, other ≤ head := fun other hOther =>
    (List.pairwise_append.mp hSorted).2.2 other hOther head List.mem_cons_self
  have hMem : head ∈ heads ++ [head] := List.mem_append_right _ List.mem_cons_self
  obtain ⟨window, best⟩ := scan
  obtain ⟨front, hHeads, hFront⟩ := h.window
  dsimp only at hHeads
  have hLength : (agreeing window head).length = endingAt (heads ++ [head]) head := by
    rw [hHeads]
    rw [hHeads] at hSorted
    refine length_agreeing hSorted fun other hOther => ?_
    obtain ⟨past, hPast, hFar⟩ := hFront other hOther
    exact Nat.lt_of_lt_of_le hFar (hNewest past hPast)
  have hOlder : ∀ other ∈ heads, other ≠ head →
      endingAt (heads ++ [head]) other = endingAt heads other := fun other hOther hNe =>
    endingAt_append_of_lt (Nat.lt_of_le_of_ne (hNewest other hOther) hNe)
  have hSame : endingAt (heads ++ [head]) head = endingAt heads head + 1 := by
    rw [endingAt_append_singleton, if_pos ⟨Nat.le_refl _, Nat.le_add_right _ _⟩]
  have hCases : ∀ other ∈ heads ++ [head], other ≠ head → other ∈ heads := by
    intro other hOther hNe
    rcases List.mem_append.mp hOther with hOther | hOther
    · exact hOther
    · exact absurd (List.mem_singleton.mp hOther) hNe
  refine ⟨⟨front ++ (window ++ [head]).takeWhile fun other => agreeWithinBlocks < head - other,
    ?_, ?_⟩, ?_, ?_⟩
  · simp only [agreedStep, agreeing]
    rw [List.append_assoc, List.takeWhile_append_dropWhile, hHeads, List.append_assoc]
  · intro other hOther
    rcases List.mem_append.mp hOther with hOther | hOther
    · obtain ⟨past, hPast, hFar⟩ := hFront other hOther
      exact ⟨past, List.mem_append_left _ hPast, hFar⟩
    · have hFar := List.mem_takeWhile_imp hOther
      rw [decide_eq_true_eq] at hFar
      exact ⟨head, hMem, by omega⟩
  · intro hNone
    simp only [agreedStep] at hNone
    split at hNone
    · cases hNone
    · rename_i hMore
      obtain rfl := hNone
      intro other hOther
      by_cases hNe : other = head
      · subst hNe
        rw [← hLength]
        simpa using hMore
      · rw [hOlder other (hCases other hOther hNe) hNe]
        exact h.alone rfl other (hCases other hOther hNe)
  · intro most hMost
    simp only [agreedStep] at hMost
    split at hMost
    · -- The head is kept: no head before it has more in its minute.
      rename_i hMore
      obtain rfl := Option.some.inj hMost
      simp only [Bool.and_eq_true, decide_eq_true_eq] at hMore
      refine ⟨hMore.1, hMem, hLength.symm, fun other hOther => ?_⟩
      by_cases hNe : other = head
      · subst hNe
        exact ⟨le_of_eq hLength.symm, fun _ => Nat.le_refl _⟩
      have hOld := hCases other hOther hNe
      refine ⟨?_, fun _ => hNewest other hOld⟩
      rw [hOlder other hOld hNe]
      cases best with
      | none => exact Nat.le_trans (Nat.le_of_lt (h.alone rfl other hOld)) hMore.1
      | some best =>
        have hBest : best.1 ≤ (agreeing window head).length := by simpa using hMore.2
        exact Nat.le_trans ((h.agreed best rfl).2.2.2 other hOld).1 hBest
    · -- The head has fewer in its minute than the one kept, so it is another one.
      rename_i hMore
      obtain rfl : best = some most := hMost
      obtain ⟨hTwo, hKept, hCount, hMost⟩ := h.agreed most rfl
      have hFewer : endingAt (heads ++ [head]) head < most.1 := by
        rw [← hLength]
        by_cases hLess : 2 ≤ (agreeing window head).length
        · simpa [hLess] using hMore
        · omega
      have hOther : most.2 ≠ head := by
        rintro hEq
        rw [hEq] at hCount
        omega
      refine ⟨hTwo, List.mem_append_left _ hKept, ?_, fun other hMem' => ?_⟩
      · rw [hOlder _ hKept hOther, hCount]
      · by_cases hNe : other = head
        · subst hNe
          exact ⟨Nat.le_of_lt hFewer, fun hEq => absurd hEq (Nat.ne_of_lt hFewer)⟩
        · rw [hOlder other (hCases other hMem' hNe) hNe]
          exact hMost other (hCases other hMem' hNe)

theorem Scanned.foldl {rest : List Nat} {scan : List Nat × Option (Nat × Nat)}
    (h : Scanned heads scan) (hSorted : (heads ++ rest).Pairwise (· ≤ ·)) :
    Scanned (heads ++ rest) (rest.foldl agreedStep scan) := by
  induction rest generalizing heads scan with
  | nil => rwa [List.append_nil]
  | cons head rest ih =>
    rw [List.append_cons] at hSorted
    rw [List.foldl_cons, List.append_cons]
    exact ih (h.step (List.pairwise_append.mp hSorted).1) hSorted

theorem endingAt_insertionSort (heads : List Nat) (head : Nat) :
    endingAt (heads.insertionSort (· ≤ ·)) head = endingAt heads head :=
  (List.perm_insertionSort _ _).countP_eq _

theorem scanned_agreedHead (heads : List Nat) :
    Scanned (heads.insertionSort (· ≤ ·))
      ((heads.insertionSort (· ≤ ·)).foldl agreedStep ([], none)) := by
  have hStart : Scanned [] ([], none) := ⟨⟨[], rfl, nofun⟩, fun _ => nofun, nofun⟩
  exact hStart.foldl (List.pairwise_insertionSort _ _)

/-- The agreed head is the newest one with the most heads in its minute, two or more. -/
theorem most_of_agreedHead (h : agreedHead heads = some head) :
    head ∈ heads ∧ 2 ≤ endingAt heads head ∧ ∀ other ∈ heads,
      endingAt heads other ≤ endingAt heads head ∧
      (endingAt heads other = endingAt heads head → other ≤ head) := by
  obtain ⟨most, hMost, rfl⟩ := Option.map_eq_some_iff.mp h
  obtain ⟨hTwo, hMem, hCount, hAll⟩ := (scanned_agreedHead heads).agreed most hMost
  simp only [endingAt_insertionSort, List.mem_insertionSort] at hMem hCount hAll
  rw [hCount]
  exact ⟨hMem, hTwo, hAll⟩

theorem alone_of_agreedHead (h : agreedHead heads = none) :
    ∀ other ∈ heads, endingAt heads other < 2 := by
  have hAlone := (scanned_agreedHead heads).alone (Option.map_eq_none_iff.mp h)
  simpa only [endingAt_insertionSort, List.mem_insertionSort] using hAlone

/-- A head agreed on is within a minute of `limit` if at most one endpoint is past it. -/
theorem agreedHead_le {limit : Nat} (h : agreedHead heads = some head)
    (hOne : heads.countP (fun other => limit < other) ≤ 1) : head ≤ limit + agreeWithinBlocks := by
  by_contra hPast
  -- Then all in its minute are past the limit.
  have hMore : endingAt heads head ≤ heads.countP (fun other => limit < other) := by
    refine List.countP_mono_left fun other _ hIn => ?_
    simp only [decide_eq_true_eq] at hIn ⊢
    omega
  have hTwo := (most_of_agreedHead h).2.1
  omega

theorem exists_two_le_endingAt : (∃ head ∈ heads, 2 ≤ endingAt heads head) ↔
    ∃ a b, [a, b].Subperm heads ∧ a ≤ b + agreeWithinBlocks ∧ b ≤ a + agreeWithinBlocks := by
  constructor
  · rintro ⟨head, -, hTwo⟩
    rw [endingAt, List.countP_eq_length_filter] at hTwo
    have hIn : ∀ other ∈ heads.filter
        (fun other => decide (other ≤ head ∧ head ≤ other + agreeWithinBlocks)),
        other ≤ head ∧ head ≤ other + agreeWithinBlocks := fun other hOther =>
      of_decide_eq_true (List.mem_filter.mp hOther).2
    have hSublist := List.filter_sublist (l := heads)
      (p := fun other => decide (other ≤ head ∧ head ≤ other + agreeWithinBlocks))
    generalize heads.filter _ = near at hTwo hIn hSublist
    match near with
    | [] => cases hTwo
    | [a] => exact absurd hTwo (by simp)
    | a :: b :: rest =>
      have ha := hIn a List.mem_cons_self
      have hb := hIn b (List.mem_cons_of_mem _ List.mem_cons_self)
      have hPair : [a, b].Sublist (a :: b :: rest) :=
        ((List.nil_sublist rest).cons_cons b).cons_cons a
      exact ⟨a, b, (hPair.trans hSublist).subperm, by omega, by omega⟩
  · rintro ⟨a, b, hPair, hab, hba⟩
    have hMax : max a b ∈ heads := by
      refine hPair.subset ?_
      rcases Nat.le_total a b with hLe | hLe
      · rw [Nat.max_eq_right hLe]
        exact List.mem_cons_of_mem _ List.mem_cons_self
      · rw [Nat.max_eq_left hLe]
        exact List.mem_cons_self
    have hCount : 2 ≤ endingAt [a, b] (max a b) := by
      rw [endingAt, List.countP_cons_of_pos, List.countP_cons_of_pos]
      · exact Nat.le_add_left _ _
      · simp only [decide_eq_true_eq]
        omega
      · simp only [decide_eq_true_eq]
        omega
    exact ⟨max a b, hMax, Nat.le_trans hCount (hPair.countP_le _)⟩

theorem exists_mem_of_majority {majority : List Nat} (hMajority : majority.Subperm heads)
    (hHalf : heads.length < 2 * majority.length) (hMore : majority.length ≤ endingAt heads head) :
    ∃ other ∈ majority, other ≤ head ∧ head ≤ other + agreeWithinBlocks := by
  by_contra hNone
  have hAll : majority.countP (fun other => decide
      ¬ decide (other ≤ head ∧ head ≤ other + agreeWithinBlocks) = true) = majority.length := by
    rw [List.countP_eq_length]
    intro other hOther
    simp only [decide_eq_true_eq]
    exact fun hIn => hNone ⟨other, hOther, hIn⟩
  have hOut := hMajority.countP_le
    (fun other => decide ¬ decide (other ≤ head ∧ head ≤ other + agreeWithinBlocks) = true)
  have hSplit := List.length_eq_countP_add_countP (l := heads)
    (fun other => decide (other ≤ head ∧ head ≤ other + agreeWithinBlocks))
  rw [hAll] at hOut
  rw [endingAt] at hMore
  omega

theorem exists_length_le_endingAt {group : List Nat} (hGroup : group.Subperm heads)
    (hSome : group ≠ []) (hNear : ∀ a ∈ group, ∀ b ∈ group, a ≤ b + agreeWithinBlocks) :
    ∃ newest ∈ group, group.length ≤ endingAt heads newest := by
  obtain ⟨newest, hNewest⟩ := Option.ne_none_iff_exists'.mp
    (mt List.max?_eq_none_iff.mp hSome)
  obtain ⟨hMem, hLe⟩ := List.max?_eq_some_iff.mp hNewest
  refine ⟨newest, hMem, ?_⟩
  have hAll : endingAt group newest = group.length := by
    rw [endingAt, List.countP_eq_length]
    intro other hOther
    exact decide_eq_true ⟨hLe other hOther, hNear newest hMem other hOther⟩
  rw [← hAll]
  exact hGroup.countP_le _

/-- There is an agreed head exactly when two heads are within a minute of blocks of each other.  It
is the newest head with the most heads in the minute of blocks that ends at it; and a majority of
heads within a minute of each other holds it to at least the oldest of them, and at most a minute
past the newest. -/
theorem agreed_head_is_the_most_agreed (heads : List Nat) :
    ((agreedHead heads).isSome = true ↔ ∃ a b, [a, b].Subperm heads ∧
      a ≤ b + agreeWithinBlocks ∧ b ≤ a + agreeWithinBlocks) ∧
    ∀ head, agreedHead heads = some head →
      head ∈ heads ∧
      (∀ other ∈ heads, endingAt heads other ≤ endingAt heads head) ∧
      (∀ other ∈ heads, endingAt heads other = endingAt heads head → other ≤ head) ∧
      ∀ majority : List Nat, majority.Subperm heads → heads.length < 2 * majority.length →
        (∀ a ∈ majority, ∀ b ∈ majority, a ≤ b + agreeWithinBlocks) →
        (∃ oldest ∈ majority, (∀ a ∈ majority, oldest ≤ a) ∧ oldest ≤ head) ∧
        ∃ newest ∈ majority, (∀ a ∈ majority, a ≤ newest) ∧ head ≤ newest + agreeWithinBlocks := by
  constructor
  · rw [← exists_two_le_endingAt]
    constructor
    · intro hSome
      obtain ⟨head, hHead⟩ := Option.isSome_iff_exists.mp hSome
      obtain ⟨hMem, hTwo, -⟩ := most_of_agreedHead hHead
      exact ⟨head, hMem, hTwo⟩
    · rintro ⟨head, hMem, hTwo⟩
      by_contra hNone
      have hAlone := alone_of_agreedHead (by simpa using hNone) head hMem
      omega
  · intro head hHead
    obtain ⟨hMem, -, hMost⟩ := most_of_agreedHead hHead
    refine ⟨hMem, fun other hOther => (hMost other hOther).1,
      fun other hOther => (hMost other hOther).2, ?_⟩
    intro majority hMajority hHalf hNear
    have hSome : majority ≠ [] := by
      rintro rfl
      exact absurd hHalf (Nat.not_lt_zero _)
    obtain ⟨newest, hNewest, hCount⟩ := exists_length_le_endingAt hMajority hSome hNear
    have hMore := Nat.le_trans hCount (hMost newest (hMajority.subset hNewest)).1
    obtain ⟨other, hOther, hLe, hGe⟩ := exists_mem_of_majority hMajority hHalf hMore
    obtain ⟨low, hLow⟩ := Option.ne_none_iff_exists'.mp (mt List.min?_eq_none_iff.mp hSome)
    obtain ⟨high, hHigh⟩ := Option.ne_none_iff_exists'.mp (mt List.max?_eq_none_iff.mp hSome)
    obtain ⟨hLowMem, hLowLe⟩ := List.min?_eq_some_iff.mp hLow
    obtain ⟨hHighMem, hHighLe⟩ := List.max?_eq_some_iff.mp hHigh
    refine ⟨⟨low, hLowMem, hLowLe, Nat.le_trans (hLowLe other hOther) hLe⟩,
      high, hHighMem, hHighLe, ?_⟩
    exact Nat.le_trans hGe (Nat.add_le_add_right (hHighLe other hOther) _)

/-- Three of five heads agree, in any order of the list. -/
theorem agreed_head_of_five :
    agreedHead [1000, 5, 900, 3000, 1100] = some 1100 ∧
      ∃ oldest ∈ [1000, 900, 1100], (∀ a ∈ [1000, 900, 1100], oldest ≤ a) ∧ oldest ≤ 1100 := by
  have hHead : agreedHead [1000, 5, 900, 3000, 1100] = some 1100 := by decide
  have hMajority : [1000, 900, 1100].Subperm [1000, 5, 900, 3000, 1100] :=
    List.Sublist.subperm (by decide)
  exact ⟨hHead, ((agreed_head_is_the_most_agreed _).2 1100 hHead).2.2.2 _ hMajority (by decide)
    (by decide) |>.1⟩

end AgreedHead

namespace SeenBlock

variable {seen : SeenBlock} {block now : Nat}

/-- Once confirmed, the newest block seen stays confirmed and never goes back. -/
def Follows (seen seen' : SeenBlock) : Prop :=
  seen.confirmed = true → seen'.confirmed = true ∧ seen.number ≤ seen'.number

theorem Follows.refl (seen : SeenBlock) : seen.Follows seen := fun h => ⟨h, Nat.le_refl _⟩

theorem Follows.trans {a b c : SeenBlock} (hab : a.Follows b) (hbc : b.Follows c) :
    a.Follows c := by
  intro ha
  obtain ⟨hb, hLe⟩ := hab ha
  obtain ⟨hc, hLe'⟩ := hbc hb
  exact ⟨hc, Nat.le_trans hLe hLe'⟩

theorem take_confirmed : (seen.take block now).confirmed = seen.confirmed := by
  unfold take
  split <;> rfl

theorem take_number : (seen.take block now).number = max seen.number block := by
  unfold take
  split
  · rename_i hLt
    exact (Nat.max_eq_right (Nat.le_of_lt hLt)).symm
  · rename_i hGe
    exact (Nat.max_eq_left (Nat.not_lt.mp hGe)).symm

theorem follows_take : seen.Follows (seen.take block now) := by
  intro h
  rw [take_confirmed, take_number]
  exact ⟨h, Nat.le_max_left _ _⟩

theorem follows_advance (onlyEndpoint : Bool) :
    seen.Follows (seen.advance block now onlyEndpoint).1 := by
  unfold advance
  split
  · exact .refl seen
  · split
    · exact fun h => ⟨h, Nat.le_refl _⟩
    · exact follows_take

theorem follows_confirm : seen.Follows (seen.confirm block now) := by
  intro h
  unfold confirm
  dsimp only
  rw [if_pos h]
  split
  · rw [take_confirmed, take_number]
    exact ⟨h, Nat.le_max_left _ _⟩
  · exact ⟨h, Nat.le_refl _⟩

theorem follows_crossCheckDue : seen.Follows (seen.crossCheckDue now).1 := by
  unfold crossCheckDue
  dsimp only
  split
  · exact .refl seen
  · exact fun h => ⟨h, Nat.le_refl _⟩

theorem confirm_reaches (h : seen.confirmed = true → block ≤ seen.believableLimit now) :
    (seen.confirm block now).confirmed = true ∧ block ≤ (seen.confirm block now).number := by
  unfold confirm
  dsimp only
  by_cases hConfirmed : seen.confirmed = true
  · have hLimit : block ≤ ({ seen with jumpReported := false } : SeenBlock).believableLimit now :=
      h hConfirmed
    rw [if_pos hConfirmed, if_pos hLimit, take_confirmed, take_number]
    exact ⟨hConfirmed, Nat.le_max_right _ _⟩
  · rw [if_neg hConfirmed]
    split
    · exact ⟨rfl, Nat.le_refl _⟩
    · rename_i hKept
      exact ⟨rfl, Nat.not_lt.mp fun hLt => hKept (.inl hLt)⟩

end SeenBlock

end AlloyClient

end Dipper
