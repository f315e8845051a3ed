import Mathlib.Data.List.Nodup

/-! A set kept as a list that can be read by index: adding appends, and removing moves the last
entry into the freed place. -/

structure EnumerableSet (α : Type) where
  entries : List α
  nodup : entries.Nodup

namespace EnumerableSet

variable {α : Type} {s s' : EnumerableSet α} {x : α} {i n : Nat}

/-- The list without the entry at `i`, whose place the last one takes. -/
def swapRemove (entries : List α) (i : Nat) : List α :=
  match entries.getLast? with
  | none => entries
  | some last => (entries.set i last).dropLast

theorem swapRemove_concat (init : List α) (last : α) :
    swapRemove (init ++ [last]) i = if i < init.length then init.set i last else init := by
  unfold swapRemove
  rw [List.getLast?_concat]
  dsimp only
  split
  · rename_i hLt
    rw [List.set_append_left _ _ hLt, List.dropLast_concat]
  · rename_i hGe
    have hSet : (init ++ [last]).set i last = init ++ [last] := by
      by_cases hLast : i = init.length
      · subst hLast
        rw [List.set_append_right _ _ (Nat.le_refl _)]
        simp
      · exact List.set_eq_of_length_le (by simp; omega)
    rw [hSet, List.dropLast_concat]

theorem nodup_swapRemove {entries : List α} (h : entries.Nodup) :
    (swapRemove entries i).Nodup := by
  rcases List.eq_nil_or_concat' entries with rfl | ⟨init, last, rfl⟩
  · exact h
  · rw [swapRemove_concat]
    have hInit := h.of_append_left
    have hLast : last ∉ init := fun hMem => List.disjoint_of_nodup_append h hMem (by simp)
    split
    · exact hInit.set hLast
    · exact hInit

def add (s : EnumerableSet α) (x : α) (h : x ∉ s.entries) : EnumerableSet α where
  entries := s.entries ++ [x]
  nodup := by
    refine List.Nodup.append s.nodup (List.nodup_singleton x) ?_
    intro y hy hx
    obtain rfl := List.mem_singleton.mp hx
    exact h hy

def remove (s : EnumerableSet α) (i : Nat) : EnumerableSet α where
  entries := swapRemove s.entries i
  nodup := nodup_swapRemove s.nodup

inductive Change (s : EnumerableSet α) : EnumerableSet α → Prop
  | add {x : α} (h : x ∉ s.entries) : Change s (s.add x h)
  | remove {i : Nat} (h : i < s.entries.length) : Change s (s.remove i)

/-- An entry among the first `n` keeps its place while it stays in and the set has no fewer than
`n` entries: only the last entry ever moves. -/
theorem Change.keeps_place (hChange : s.Change s') (hPlace : s.entries[i]? = some x) (hi : i < n)
    (hLength : n ≤ s'.entries.length) (hStays : x ∈ s'.entries) : s'.entries[i]? = some x := by
  cases hChange with
  | add h =>
    have hLt : i < s.entries.length := (List.getElem?_eq_some_iff.mp hPlace).1
    change (s.entries ++ _)[i]? = some x
    rw [List.getElem?_append_left hLt]
    exact hPlace
  | @remove j h =>
    change (swapRemove s.entries j)[i]? = some x
    change n ≤ (swapRemove s.entries j).length at hLength
    change x ∈ swapRemove s.entries j at hStays
    have hNodup := s.nodup
    generalize s.entries = entries at *
    rcases List.eq_nil_or_concat' entries with rfl | ⟨init, last, rfl⟩
    · cases h
    rw [swapRemove_concat] at hLength hStays ⊢
    have hLt : i < init.length := by
      split at hLength
      · rw [List.length_set] at hLength
        omega
      · omega
    rw [List.getElem?_append_left hLt] at hPlace
    split
    · rename_i hj
      rw [if_pos hj] at hStays
      by_cases hSame : j = i
      · -- The entry at `i` is the one that went.
        subst hSame
        obtain ⟨k, hk⟩ := List.mem_iff_getElem?.mp hStays
        by_cases hHere : j = k
        · subst hHere
          rw [List.getElem?_set_self hj] at hk
          obtain rfl := Option.some.inj hk
          exact absurd (List.mem_of_getElem? hPlace)
            fun hMem => List.disjoint_of_nodup_append hNodup hMem (by simp)
        · rw [List.getElem?_set_ne hHere] at hk
          have hEq := (List.getElem?_inj hj hNodup.of_append_left).mp (hPlace.trans hk.symm)
          exact absurd hEq hHere
      · rw [List.getElem?_set_ne hSame]
        exact hPlace
    · exact hPlace

end EnumerableSet
