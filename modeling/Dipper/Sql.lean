import Mathlib.Data.List.Basic

/-! The logic of SQL conditions.  A comparison with `NULL` is neither true nor false, and a row is
selected where the condition is true. -/

namespace Sql

/-- The truth of a condition, with `none` for unknown. -/
abbrev Truth : Type := Option Bool

/-- `AND` -/
def conj : Truth → Truth → Truth
  | some false, _ | _, some false => some false
  | some true, some true => some true
  | _, _ => none

/-- `OR` -/
def disj : Truth → Truth → Truth
  | some true, _ | _, some true => some true
  | some false, some false => some false
  | _, _ => none

/-- `NOT` -/
def neg (t : Truth) : Truth := t.map (!·)

section Columns

variable {α : Type} [DecidableEq α]

/-- `=` -/
def equals : Option α → Option α → Truth
  | some a, some b => some (decide (a = b))
  | _, _ => none

/-- `IN` -/
def isIn (a : Option α) (values : List α) : Truth :=
  values.foldr (fun value t => disj (equals a (some value)) t) (some false)

end Columns

/-- `IS NULL` -/
def isNull {α : Type} (a : Option α) : Truth := some a.isNone

/-- `COALESCE` -/
def coalesce {α : Type} (a : Option α) (default : α) : Option α := some (a.getD default)

@[simp] theorem conj_some (a b : Bool) : conj (some a) (some b) = some (a && b) := by
  cases a <;> cases b <;> rfl

@[simp] theorem disj_some (a b : Bool) : disj (some a) (some b) = some (a || b) := by
  cases a <;> cases b <;> rfl

@[simp] theorem neg_some (a : Bool) : neg (some a) = some (!a) := rfl

theorem conj_eq_true {a b : Truth} : conj a b = some true ↔ a = some true ∧ b = some true := by
  rcases a with _ | _ | _ <;> rcases b with _ | _ | _ <;> simp [conj]

theorem disj_eq_true {a b : Truth} : disj a b = some true ↔ a = some true ∨ b = some true := by
  rcases a with _ | _ | _ <;> rcases b with _ | _ | _ <;> simp [disj]

section Columns

variable {α : Type} [DecidableEq α]

@[simp] theorem equals_some (a b : α) : equals (some a) (some b) = some (decide (a = b)) := rfl

@[simp] theorem equals_null (b : Option α) : equals none b = none := rfl

@[simp] theorem isIn_some (a : α) (values : List α) :
    isIn (some a) values = some (decide (a ∈ values)) := by
  induction values with
  | nil => simp [isIn]
  | cons value values ih =>
    have hCons : isIn (some a) (value :: values) =
        disj (equals (some a) (some value)) (isIn (some a) values) := rfl
    rw [hCons, ih, equals_some, disj_some]
    simp only [List.mem_cons, Bool.decide_or]

theorem isIn_null {values : List α} (h : values ≠ []) : isIn none values = none := by
  induction values with
  | nil => exact absurd rfl h
  | cons value values ih =>
    have hCons : isIn none (value :: values) = disj none (isIn none values) := rfl
    rw [hCons]
    cases values with
    | nil => rfl
    | cons next rest =>
      rw [ih (List.cons_ne_nil next rest)]
      rfl

end Columns

end Sql
