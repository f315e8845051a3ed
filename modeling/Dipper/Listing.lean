import Mathlib.Data.List.Nodup
import Mathlib.Data.List.Perm.Subperm
import Mathlib.Order.Lattice

/-! Listings: what a query with an order and a limit may return of the rows that match it.  Rows
with equal keys come in any order, and a limit cuts the listing after the smallest keys. -/

namespace Listing

variable {α κ : Type} [LinearOrder κ]

/-- `out` lists `all` by `key`, or the first `limit` of it. -/
structure IsListing (key : α → κ) (limit : Option Nat) (all out : List α) : Prop where
  nodup : out.Nodup
  subset : ∀ a ∈ out, a ∈ all
  length : out.length = match limit with
    | some n => min n all.length
    | none => all.length
  ordered : out.Pairwise fun a b => key a ≤ key b
  smallest : ∀ a ∈ all, a ∉ out → ∀ b ∈ out, key b ≤ key a

instance [DecidableEq α] (key : α → κ) (limit : Option Nat) (all out : List α) :
    Decidable (IsListing key limit all out) :=
  decidable_of_iff
    (out.Nodup ∧ (∀ a ∈ out, a ∈ all) ∧
      (out.length = match limit with
        | some n => min n all.length
        | none => all.length) ∧
      (out.Pairwise fun a b => key a ≤ key b) ∧
      ∀ a ∈ all, a ∉ out → ∀ b ∈ out, key b ≤ key a)
    ⟨fun ⟨h1, h2, h3, h4, h5⟩ => ⟨h1, h2, h3, h4, h5⟩,
      fun ⟨h1, h2, h3, h4, h5⟩ => ⟨h1, h2, h3, h4, h5⟩⟩

theorem IsListing.complete {key : α → κ} {limit : Option Nat} {all out : List α}
    (h : IsListing key limit all out) (hLimit : ∀ n ∈ limit, all.length ≤ n) {a : α}
    (ha : a ∈ all) : a ∈ out := by
  have hLength : out.length = all.length := by
    rw [h.length]
    cases limit with
    | none => rfl
    | some n => exact Nat.min_eq_right (hLimit n rfl)
  have hSubperm : out.Subperm all := h.nodup.subperm h.subset
  exact (hSubperm.perm_of_length_le (Nat.le_of_eq hLength.symm)).mem_iff.mpr ha

section Keyset

variable {key : α → κ} {all before rest : List α} {x : α} {cursor cursor' : κ}

def above (key : α → κ) (all : List α) (cursor : κ) : List α := all.filter fun a => cursor < key a

theorem above_above (h : cursor ≤ cursor') :
    above key (above key all cursor) cursor' = above key all cursor' := by
  unfold above
  rw [List.filter_filter]
  refine List.filter_congr fun a _ => ?_
  by_cases hAbove : cursor' < key a
  · simp [hAbove, lt_of_le_of_lt h hAbove]
  · simp [hAbove]

theorem above_of_append (h : (before ++ x :: rest).Pairwise fun a b => key a < key b) :
    above key (before ++ x :: rest) (key x) = rest := by
  obtain ⟨-, hRest, hBefore⟩ := List.pairwise_append.mp h
  have hNone : before.filter (fun a => key x < key a) = [] := by
    refine List.filter_eq_nil_iff.mpr fun a ha => ?_
    simpa using le_of_lt (hBefore a ha x List.mem_cons_self)
  have hAll : rest.filter (fun a => key x < key a) = rest :=
    List.filter_eq_self.mpr fun a ha => by simpa using (List.pairwise_cons.mp hRest).1 a ha
  unfold above
  rw [List.filter_append, hNone, List.nil_append, List.filter_cons_of_neg (by simp), hAll]

end Keyset

end Listing
