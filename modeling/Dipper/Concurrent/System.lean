import Dipper.Concurrent.Prog
import Mathlib.Data.List.Basic

/-! Systems of concurrent programs.  Any number of threads run over one shared state: a step
performs one operation of one thread, starts a thread, lets the world outside move, or drops a
thread with its remaining operations.  The rules at the end reduce a property of every run to one
contract per thread: what it relies on from the others and what it guarantees to them. -/

namespace Concurrent

/-- A thread: a tag that says what it is, and the program it has left to run. -/
structure Thread (τ Op : Type) (Res : Op → Type) (α : Type) where
  tag : τ
  prog : Prog Op Res α

/-- One step of a system, as data: which thread performs its next operation and how the operation
comes out, which thread starts, how the world outside moves, or which thread is dropped. -/
inductive Move (Choice Seed Env : Type) : Type
  | op (i : Nat) (c : Choice)
  | start (seed : Seed)
  | env (e : Env)
  | drop (i : Nat)

/-- A system over states `σ`.  `exec` gives the result and effect of an operation for each way it
can come out, `start` the thread that a seed starts, and `env` the moves of the world outside.
`allow` is the condition under which threads take their operations, and at most one thread with
an exclusive tag is there at a time. -/
structure System (σ τ Op : Type) (Res : Op → Type) (α Choice Seed Env : Type) where
  exec : σ → (o : Op) → Choice → Option (Res o × σ)
  start : σ → Seed → Option (Thread τ Op Res α)
  env : σ → Env → Option σ
  allow : σ → τ → Op → Choice → Prop
  exclusive : τ → Bool
  drops : Bool

namespace System

variable {σ τ Op : Type} {Res : Op → Type} {α Choice Seed Env : Type}
  (S : System σ τ Op Res α Choice Seed Env)

abbrev Config (_ : System σ τ Op Res α Choice Seed Env) : Type := σ × List (Thread τ Op Res α)

/-- A thread tagged `t` performs `o` from `s` to `s'` with result `r`. -/
def Performs (t : τ) (s : σ) (o : Op) (r : Res o) (s' : σ) : Prop :=
  ∃ c, S.allow s t o c ∧ S.exec s o c = some (r, s')

variable [DecidableEq τ]

def next (c : S.Config) : Move Choice Seed Env → Option S.Config
  | .op i choice =>
    match c.2[i]? with
    | some ⟨tag, .op o k⟩ =>
      (S.exec c.1 o choice).map fun x => (x.2, c.2.set i ⟨tag, k x.1⟩)
    | _ => none
  | .start seed =>
    (S.start c.1 seed).bind fun th =>
      if S.exclusive th.tag && c.2.any fun other => other.tag == th.tag then none
      else some (c.1, c.2 ++ [th])
  | .env e => (S.env c.1 e).map fun s => (s, c.2)
  | .drop i => if S.drops && decide (i < c.2.length) then some (c.1, c.2.eraseIdx i) else none

/-- The operation that a move performs, and the tag of the thread that performs it. -/
def acts (c : S.Config) : Move Choice Seed Env → Option (τ × Op)
  | .op i _ =>
    match c.2[i]? with
    | some ⟨tag, .op o _⟩ => some (tag, o)
    | _ => none
  | _ => none

/-- The condition on a move: an operation is taken only as `allow` says. -/
def Allowed (c : S.Config) : Move Choice Seed Env → Prop
  | .op i choice => ∀ tag o k, c.2[i]? = some ⟨tag, .op o k⟩ → S.allow c.1 tag o choice
  | _ => True

def Step (c c' : S.Config) : Prop := ∃ m, S.Allowed c m ∧ S.next c m = some c'

abbrev Run : S.Config → S.Config → Prop := Relation.ReflTransGen S.Step

/-- Whether the operation that a move performs passes a check. -/
def passes (check : σ → τ → Op → Choice → Bool) (c : S.Config) : Move Choice Seed Env → Bool
  | .op i choice =>
    match c.2[i]? with
    | some ⟨tag, .op o _⟩ => check c.1 tag o choice
    | _ => true
  | _ => true

/-- The configuration after a list of moves whose operations all pass a check. -/
def runMoves (check : σ → τ → Op → Choice → Bool) (c : S.Config) :
    List (Move Choice Seed Env) → Option S.Config
  | [] => some c
  | m :: ms => if S.passes check c m then (S.next c m).bind fun c' => runMoves check c' ms else none

variable {S} in
omit [DecidableEq τ] in
theorem allowed_of_passes {check : σ → τ → Op → Choice → Bool}
    (hCheck : ∀ s t o choice, check s t o choice = true → S.allow s t o choice) {c : S.Config}
    {m : Move Choice Seed Env} (h : S.passes check c m = true) : S.Allowed c m := by
  cases m with
  | op i choice =>
    intro tag o k hThread
    simp only [passes, hThread] at h
    exact hCheck _ _ _ _ h
  | _ => trivial

variable {S} in
/-- Moves that can all be made, and whose checks imply the system's condition, are a run. -/
theorem run_of_moves {check : σ → τ → Op → Choice → Bool}
    (hCheck : ∀ s t o choice, check s t o choice = true → S.allow s t o choice) {c c' : S.Config}
    {l : List (Move Choice Seed Env)} (h : S.runMoves check c l = some c') : S.Run c c' := by
  induction l generalizing c with
  | nil =>
    obtain rfl : c = c' := by simpa [runMoves] using h
    exact .refl
  | cons m l ih =>
    simp only [runMoves, Option.ite_none_right_eq_some, Option.bind_eq_some_iff] at h
    obtain ⟨hPasses, c1, h1, h2⟩ := h
    exact .head ⟨m, allowed_of_passes hCheck hPasses, h1⟩ (ih h2)

variable {S} in
theorem exists_run_of_moves {check : σ → τ → Op → Choice → Bool}
    (hCheck : ∀ s t o choice, check s t o choice = true → S.allow s t o choice) {c : S.Config}
    (l : List (Move Choice Seed Env)) (p : S.Config → Bool)
    (h : (S.runMoves check c l).any p = true) : ∃ c', S.Run c c' ∧ p c' = true := by
  obtain ⟨c', hMoves, hp⟩ := (Option.any_eq_true _ _).mp h
  exact ⟨c', run_of_moves hCheck hMoves, hp⟩

theorem next_cases {c c' : S.Config} {m : Move Choice Seed Env} (hAllowed : S.Allowed c m)
    (h : S.next c m = some c') :
    (∃ t o r, S.acts c m = some (t, o) ∧ S.Performs t c.1 o r c'.1) ∨
    (S.acts c m = none ∧ (c'.1 = c.1 ∨ ∃ e, S.env c.1 e = some c'.1)) := by
  cases m with
  | op i choice =>
    simp only [next] at h
    split at h
    · rename_i tag o k hThread
      obtain ⟨⟨r, s'⟩, hExec, rfl⟩ := Option.map_eq_some_iff.mp h
      refine .inl ⟨tag, o, r, ?_, choice, hAllowed tag o k hThread, hExec⟩
      simp only [acts, hThread]
    · cases h
  | start seed =>
    obtain ⟨th, -, h⟩ := Option.bind_eq_some_iff.mp h
    split at h
    · cases h
    · cases h
      exact .inr ⟨rfl, .inl rfl⟩
  | env e =>
    obtain ⟨s', hEnv, rfl⟩ := Option.map_eq_some_iff.mp h
    exact .inr ⟨rfl, .inr ⟨e, hEnv⟩⟩
  | drop i =>
    simp only [next] at h
    split at h
    · cases h
      exact .inr ⟨rfl, .inl rfl⟩
    · cases h

variable {S} in
theorem relates_of_run {R : σ → σ → Prop} (hRefl : ∀ s, R s s)
    (hTrans : ∀ {a b c}, R a b → R b c → R a c)
    (hOp : ∀ {t s o r s'}, S.Performs t s o r s' → R s s')
    (hEnv : ∀ {s e s'}, S.env s e = some s' → R s s') {c c' : S.Config} (h : S.Run c c') :
    R c.1 c'.1 := by
  induction h with
  | refl => exact hRefl _
  | tail _ hStep ih =>
    obtain ⟨m, hAllowed, hNext⟩ := hStep
    rcases S.next_cases hAllowed hNext with ⟨t, o, r, -, hPerforms⟩ | ⟨-, hEq | ⟨e, hMove⟩⟩
    · exact hTrans ih (hOp hPerforms)
    · rw [hEq]
      exact ih
    · exact hTrans ih (hEnv hMove)

theorem step_cases {s s' : σ} {l l' : List (Thread τ Op Res α)} (h : S.Step (s, l) (s', l')) :
    (∃ i tag o k r, l[i]? = some ⟨tag, .op o k⟩ ∧ S.Performs tag s o r s' ∧
      l' = l.set i ⟨tag, k r⟩) ∨
    (s' = s ∧ ∃ seed th, S.start s seed = some th ∧
      (S.exclusive th.tag = true → ∀ other ∈ l, other.tag ≠ th.tag) ∧ l' = l ++ [th]) ∨
    (l' = l ∧ ∃ e, S.env s e = some s') ∨
    (s' = s ∧ S.drops = true ∧ ∃ i, l' = l.eraseIdx i) := by
  obtain ⟨m, hAllowed, hNext⟩ := h
  cases m with
  | op i choice =>
    simp only [next] at hNext
    split at hNext
    · rename_i tag o k hThread
      simp only [Option.map_eq_some_iff] at hNext
      obtain ⟨⟨r, s1⟩, hExec, hEq⟩ := hNext
      cases hEq
      exact .inl ⟨i, tag, o, k, r, hThread, ⟨choice, hAllowed tag o k hThread, hExec⟩, rfl⟩
    · cases hNext
  | start seed =>
    simp only [next, Option.bind_eq_some_iff] at hNext
    obtain ⟨th, hStart, hNext⟩ := hNext
    split at hNext
    · cases hNext
    · rename_i hFree
      cases hNext
      refine .inr (.inl ⟨rfl, seed, th, hStart, fun hEx other hMem hTag => hFree ?_, rfl⟩)
      simp only [Bool.and_eq_true, List.any_eq_true, beq_iff_eq]
      exact ⟨hEx, other, hMem, hTag⟩
  | env e =>
    simp only [next, Option.map_eq_some_iff] at hNext
    obtain ⟨s1, hEnv, hEq⟩ := hNext
    cases hEq
    exact .inr (.inr (.inl ⟨rfl, e, hEnv⟩))
  | drop i =>
    simp only [next] at hNext
    split at hNext
    · rename_i hDrop
      cases hNext
      simp only [Bool.and_eq_true] at hDrop
      exact .inr (.inr (.inr ⟨rfl, hDrop.1, i, rfl⟩))
    · cases hNext

end System

/-- The proof outline of a system: what a thread relies on and guarantees, by its tag, what its
result satisfies, and an invariant of the state and the threads' ghost values. -/
structure Outline (σ τ Op α γ : Type) where
  rely : τ → σ → σ → Prop
  guar : τ → σ → γ → Op → σ → γ → Prop
  post : τ → α → γ → σ → Prop
  inv : σ → List γ → Prop

namespace Outline

variable {σ τ Op : Type} {Res : Op → Type} {α Choice Seed Env γ : Type}
  (S : System σ τ Op Res α Choice Seed Env) (P : Outline σ τ Op α γ)

/-- The thread meets its contract at `s` with ghost value `g`. -/
def Follows (th : Thread τ Op Res α) (g : γ) (s : σ) : Prop :=
  th.prog.Meets (S.Performs th.tag) (P.rely th.tag) (P.guar th.tag) (P.post th.tag) g s

/-- The conditions under which every run of the system follows the outline.  A step of one thread
is a step that every other thread relies on (`cross`); two threads share a tag only when it is not
exclusive. -/
structure Sound : Prop where
  refl : ∀ t s, P.rely t s s
  trans : ∀ {t a b c}, P.rely t a b → P.rely t b c → P.rely t a c
  cross : ∀ {t t' s g o s' g'}, (t ≠ t' ∨ S.exclusive t = false) → P.guar t s g o s' g' →
    P.rely t' s s'
  keeps : ∀ {t s g o s' g' i gs}, P.guar t s g o s' g' → gs[i]? = some g → P.inv s gs →
    P.inv s' (gs.set i g')
  env : ∀ {s e s'}, S.env s e = some s' →
    (∀ t, P.rely t s s') ∧ ∀ {gs}, P.inv s gs → P.inv s' gs
  start : ∀ {s seed th gs}, S.start s seed = some th → P.inv s gs →
    ∃ g, P.Follows S th g s ∧ P.inv s (gs ++ [g])
  drop : S.drops = true → ∀ {s gs}, P.inv s gs → ∀ i, P.inv s (gs.eraseIdx i)

/-- The configuration follows the outline: every thread meets its contract with a ghost value of
its own, exclusive tags occur once, and the invariant holds. -/
structure Holds (c : S.Config) (gs : List γ) : Prop where
  length : gs.length = c.2.length
  follows : ∀ {i : Nat} {th : Thread τ Op Res α} {g : γ}, c.2[i]? = some th →
    gs[i]? = some g → P.Follows S th g c.1
  unique : ∀ {i j : Nat} {a b : Thread τ Op Res α}, c.2[i]? = some a → c.2[j]? = some b →
    a.tag = b.tag → S.exclusive a.tag = true → i = j
  inv : P.inv c.1 gs

variable {S P} {s s' : σ} {l : List (Thread τ Op Res α)} {gs : List γ}

theorem Follows.stable (hP : P.Sound S) {th : Thread τ Op Res α} {g : γ}
    (h : P.Follows S th g s) (hRely : P.rely th.tag s s') : P.Follows S th g s' := by
  unfold Follows at h ⊢
  exact h.stable hP.trans hRely

theorem holds_init (h : P.inv s []) : P.Holds S (s, []) [] where
  length := rfl
  follows hi := by simp at hi
  unique hi := by simp at hi
  inv := h

theorem Holds.ghost {c : S.Config} (h : P.Holds S c gs) {i : Nat} {th : Thread τ Op Res α}
    (hi : c.2[i]? = some th) : ∃ g, gs[i]? = some g := by
  have hLt : i < gs.length := by
    rw [h.length]
    exact (List.getElem?_eq_some_iff.mp hi).1
  exact ⟨gs[i], List.getElem?_eq_getElem hLt⟩

theorem Holds.guarantee (hP : P.Sound S) (h : P.Holds S (s, l) gs) {i : Nat} {tag : τ} {o : Op}
    {k : Res o → Prog Op Res α} {r : Res o} (hi : l[i]? = some ⟨tag, .op o k⟩)
    (hOp : S.Performs tag s o r s') :
    ∃ g g', gs[i]? = some g ∧ P.guar tag s g o s' g' ∧ P.Follows S ⟨tag, k r⟩ g' s' := by
  obtain ⟨g, hg⟩ := h.ghost hi
  obtain ⟨g', hGuar, hNext⟩ := h.follows hi hg s (hP.refl tag s) r s' hOp
  exact ⟨g, g', hg, hGuar, hNext⟩

theorem Holds.unique_of_tags (h : P.Holds S (s, l) gs) {l' : List (Thread τ Op Res α)}
    {f : Nat → Nat} (hf : ∀ {i j}, f i = f j → i = j)
    (hTags : ∀ {i : Nat} {th : Thread τ Op Res α}, l'[i]? = some th →
      ∃ th0, l[f i]? = some th0 ∧ th0.tag = th.tag)
    {i j : Nat} {a b : Thread τ Op Res α} (ha : l'[i]? = some a) (hb : l'[j]? = some b)
    (hTag : a.tag = b.tag) (hEx : S.exclusive a.tag = true) : i = j := by
  obtain ⟨a0, ha0, hat⟩ := hTags ha
  obtain ⟨b0, hb0, hbt⟩ := hTags hb
  exact hf (h.unique ha0 hb0 (by rw [hat, hbt, hTag]) (by rw [hat]; exact hEx))

theorem Holds.op (hP : P.Sound S) (h : P.Holds S (s, l) gs) {i : Nat} {tag : τ} {o : Op}
    {k : Res o → Prog Op Res α} {r : Res o} (hi : l[i]? = some ⟨tag, .op o k⟩)
    (hOp : S.Performs tag s o r s') : ∃ gs', P.Holds S (s', l.set i ⟨tag, k r⟩) gs' := by
  obtain ⟨g, g', hg, hGuar, hNext⟩ := h.guarantee hP hi hOp
  have hLt : i < l.length := (List.getElem?_eq_some_iff.mp hi).1
  have hLtG : i < gs.length := (List.getElem?_eq_some_iff.mp hg).1
  refine ⟨gs.set i g', by simpa using h.length, ?_, ?_, hP.keeps hGuar hg h.inv⟩
  · intro j th gj hj hgj
    by_cases hij : i = j
    · subst hij
      simp only [List.getElem?_set_self hLt, Option.some.injEq] at hj
      simp only [List.getElem?_set_self hLtG, Option.some.injEq] at hgj
      subst hj hgj
      exact hNext
    · simp only [List.getElem?_set_ne hij] at hj hgj
      have hTag : tag ≠ th.tag ∨ S.exclusive tag = false := by
        rw [← Bool.not_eq_true, ← not_and_or]
        exact fun hBoth => hij (h.unique hi hj hBoth.1 hBoth.2)
      exact (h.follows hj hgj).stable hP (hP.cross hTag hGuar)
  · refine h.unique_of_tags id fun {j th} hj => ?_
    by_cases hij : i = j
    · subst hij
      simp only [List.getElem?_set_self hLt, Option.some.injEq] at hj
      exact ⟨_, hi, by rw [← hj]⟩
    · rw [List.getElem?_set_ne hij] at hj
      exact ⟨th, hj, rfl⟩

theorem Holds.start (hP : P.Sound S) (h : P.Holds S (s, l) gs) {seed : Seed}
    {th : Thread τ Op Res α} (hStart : S.start s seed = some th)
    (hFree : S.exclusive th.tag = true → ∀ other ∈ l, other.tag ≠ th.tag) :
    ∃ gs', P.Holds S (s, l ++ [th]) gs' := by
  obtain ⟨g, hMeets, hInv⟩ := hP.start hStart h.inv
  have hLen : gs.length = l.length := h.length
  have hNew : ∀ {j : Nat} {a : Thread τ Op Res α}, (l ++ [th])[j]? = some a →
      l[j]? = some a ∨ (j = l.length ∧ a = th) := by
    intro j a hj
    rcases Nat.lt_or_ge j l.length with hLt | hGe
    · rw [List.getElem?_append_left hLt] at hj
      exact .inl hj
    · rw [List.getElem?_append_right hGe, List.getElem?_singleton] at hj
      split at hj
      · exact .inr ⟨by omega, (Option.some.inj hj).symm⟩
      · cases hj
  refine ⟨gs ++ [g], by simp [hLen], ?_, ?_, hInv⟩
  · intro j a gj hj hgj
    rcases hNew hj with hOld | ⟨rfl, rfl⟩
    · have hLt : j < l.length := (List.getElem?_eq_some_iff.mp hOld).1
      rw [List.getElem?_append_left (by omega)] at hgj
      exact h.follows hOld hgj
    · rw [← hLen, List.getElem?_concat_length] at hgj
      cases hgj
      exact hMeets
  · intro j1 j2 a b ha hb hTag hEx
    rcases hNew ha with hOldA | ⟨rfl, rfl⟩ <;> rcases hNew hb with hOldB | ⟨rfl, rfl⟩
    · exact h.unique hOldA hOldB hTag hEx
    · exact absurd hTag (hFree (hTag ▸ hEx) a (List.mem_of_getElem? hOldA))
    · exact absurd hTag.symm (hFree hEx b (List.mem_of_getElem? hOldB))
    · rfl

/-- Dropping a thread shifts the later ones down by one. -/
theorem Holds.drop (hP : P.Sound S) (h : P.Holds S (s, l) gs) (hDrops : S.drops = true)
    (i : Nat) : ∃ gs', P.Holds S (s, l.eraseIdx i) gs' := by
  refine ⟨gs.eraseIdx i, ?_, ?_, ?_, hP.drop hDrops h.inv i⟩
  · simp only [List.length_eraseIdx]
    rw [show gs.length = l.length from h.length]
  · intro j th g hj hgj
    rw [List.getElem?_eraseIdx] at hj hgj
    split at hj
    · rename_i hLt
      rw [if_pos hLt] at hgj
      exact h.follows hj hgj
    · rename_i hLt
      rw [if_neg hLt] at hgj
      exact h.follows hj hgj
  · refine h.unique_of_tags (f := fun j => if j < i then j else j + 1) ?_ fun {j th} hj => ?_
    · intro a b hab
      split at hab <;> split at hab <;> omega
    · rw [List.getElem?_eraseIdx, ← apply_ite (l[·]?)] at hj
      exact ⟨th, hj, rfl⟩

variable [DecidableEq τ] {c c' : S.Config}

theorem Holds.step (hP : P.Sound S) (h : P.Holds S c gs) (hStep : S.Step c c') :
    ∃ gs', P.Holds S c' gs' := by
  obtain ⟨s, l⟩ := c
  obtain ⟨s', l'⟩ := c'
  rcases S.step_cases hStep with ⟨i, tag, o, k, r, hi, hOp, rfl⟩ |
    ⟨rfl, seed, th, hStart, hFree, rfl⟩ | ⟨rfl, e, hEnv⟩ | ⟨rfl, hDrops, i, rfl⟩
  · exact h.op hP hi hOp
  · exact h.start hP hStart hFree
  · obtain ⟨hRely, hInv⟩ := hP.env hEnv
    exact ⟨gs, h.length, fun hj hgj => (h.follows hj hgj).stable hP (hRely _), h.unique,
      hInv h.inv⟩
  · exact h.drop hP hDrops i

theorem Holds.run (hP : P.Sound S) (h : P.Holds S c gs) (hRun : S.Run c c') :
    ∃ gs', P.Holds S c' gs' := by
  induction hRun with
  | refl => exact ⟨gs, h⟩
  | tail _ hStep ih =>
    obtain ⟨gs1, h1⟩ := ih
    exact h1.step hP hStep

end Outline

end Concurrent
