import Mathlib.Logic.Relation

/-! Programs over atomic operations.  A program is a tree: it has returned, or it waits for the
result of one operation and continues with it.  The meaning of the operations is a relation on
states that a reader supplies, so the same program runs alone, or with the steps of others between
any two of its operations. -/

namespace Concurrent

/-- A program that returns an `α`, with operations `Op` whose results have the types `Res`. -/
inductive Prog (Op : Type) (Res : Op → Type) (α : Type) : Type
  | ret (value : α)
  | op (o : Op) (next : Res o → Prog Op Res α)

namespace Prog

variable {Op : Type} {Res : Op → Type} {α β : Type}

def perform (o : Op) : Prog Op Res (Res o) := .op o .ret

def bind : Prog Op Res α → (α → Prog Op Res β) → Prog Op Res β
  | .ret a, f => f a
  | .op o next, f => .op o fun r => (next r).bind f

instance : Monad (Prog Op Res) where
  pure := .ret
  bind := bind

@[simp] theorem pure_eq (a : α) : (pure a : Prog Op Res α) = .ret a := rfl

@[simp] theorem ret_bind (a : α) (f : α → Prog Op Res β) : (Prog.ret a >>= f) = f a := rfl

@[simp] theorem op_bind (o : Op) (next : Res o → Prog Op Res α) (f : α → Prog Op Res β) :
    (Prog.op o next >>= f) = .op o fun r => next r >>= f := rfl

/-- The loop `for x in xs { body(x) }`. -/
def forEach : List β → (β → Prog Op Res Unit) → Prog Op Res Unit
  | [], _ => .ret ()
  | x :: xs, body => do
    body x
    forEach xs body

/-- `p`, which may be cut short after any of its operations that wait for something: whether it is
is what `cut` returns. -/
def cutShort (cut : Prog Op Res Bool) (waits : Op → Bool) : Prog Op Res α → Prog Op Res (Option α)
  | .ret a => .ret (some a)
  | .op o next => .op o fun r =>
    if waits o then cut >>= fun stop => if stop then .ret none else cutShort cut waits (next r)
    else cutShort cut waits (next r)

/-- Every operation that `p` can reach, whatever results it gets, satisfies `P`. -/
def OnlyOps (P : Op → Prop) : Prog Op Res α → Prop
  | .ret _ => True
  | .op o next => P o ∧ ∀ r, (next r).OnlyOps P

theorem OnlyOps.pure {P : Op → Prop} (a : α) : (pure a : Prog Op Res α).OnlyOps P := trivial

theorem OnlyOps.perform {P : Op → Prop} {o : Op} (h : P o) :
    (perform o : Prog Op Res (Res o)).OnlyOps P := ⟨h, fun _ => trivial⟩

theorem OnlyOps.ask {P : Op → Prop} {o : Op} {f : Res o → Prog Op Res α} (h : P o)
    (hf : ∀ r, (f r).OnlyOps P) : (Prog.perform o >>= f).OnlyOps P := ⟨h, hf⟩

theorem OnlyOps.bind {P : Op → Prop} {p : Prog Op Res α} {f : α → Prog Op Res β}
    (hp : p.OnlyOps P) (hf : ∀ a, (f a).OnlyOps P) : (p >>= f).OnlyOps P := by
  induction p with
  | ret a => exact hf a
  | op o next ih => exact ⟨hp.1, fun r => ih r (hp.2 r)⟩

theorem OnlyOps.forEach {P : Op → Prop} {body : β → Prog Op Res Unit}
    (hBody : ∀ x, (body x).OnlyOps P) : ∀ xs, (forEach xs body).OnlyOps P
  | [] => trivial
  | x :: xs => (hBody x).bind fun _ => OnlyOps.forEach hBody xs

theorem OnlyOps.cutShort {P : Op → Prop} {cut : Prog Op Res Bool} {waits : Op → Bool}
    (hCut : cut.OnlyOps P) {p : Prog Op Res α} (hp : p.OnlyOps P) :
    (Prog.cutShort cut waits p).OnlyOps P := by
  induction p with
  | ret a => trivial
  | op o next ih =>
    refine ⟨hp.1, fun r => ?_⟩
    cases waits o with
    | false => exact ih r (hp.2 r)
    | true =>
      refine hCut.bind fun stop => ?_
      cases stop with
      | true => trivial
      | false => exact ih r (hp.2 r)

theorem OnlyOps.mono {P Q : Op → Prop} (hPQ : ∀ o, P o → Q o) :
    {p : Prog Op Res α} → p.OnlyOps P → p.OnlyOps Q
  | .ret _, _ => trivial
  | .op _ _, h => ⟨hPQ _ h.1, fun r => (h.2 r).mono hPQ⟩

/-- Once `p` has performed an operation that `P` does not hold of, it waits for nothing more. -/
def Settles (waits : Op → Bool) (P : Op → Prop) : Prog Op Res α → Prop
  | .ret _ => True
  | .op o next => (P o ∧ ∀ r, (next r).Settles waits P) ∨
    (waits o = false ∧ ∀ r, (next r).OnlyOps fun o => waits o = false)

theorem Settles.of_onlyOps {waits : Op → Bool} {P : Op → Prop} {p : Prog Op Res α}
    (hp : p.OnlyOps P) : p.Settles waits P := by
  induction p with
  | ret a => trivial
  | op o next ih => exact .inl ⟨hp.1, fun r => ih r (hp.2 r)⟩

theorem Settles.bind {waits : Op → Bool} {P : Op → Prop} {p : Prog Op Res α}
    {f : α → Prog Op Res β} (hp : p.OnlyOps P) (hf : ∀ a, (f a).Settles waits P) :
    (p >>= f).Settles waits P := by
  induction p with
  | ret a => exact hf a
  | op o next ih => exact .inl ⟨hp.1, fun r => ih r (hp.2 r)⟩

section Contracts

variable {σ γ : Type} (sem : σ → (o : Op) → Res o → σ → Prop)

/-- The program meets its contract from `s` with ghost value `g`: whatever the steps `rely` of
others, each of its operations is a step `guar`, which may change the ghost value, and what it
returns satisfies `post`. -/
def Meets (rely : σ → σ → Prop) (guar : σ → γ → Op → σ → γ → Prop) (post : α → γ → σ → Prop) :
    Prog Op Res α → γ → σ → Prop
  | .ret a, g, s => ∀ s', rely s s' → post a g s'
  | .op o next, g, s => ∀ s', rely s s' → ∀ r s'', sem s' o r s'' →
      ∃ g', guar s' g o s'' g' ∧ (next r).Meets rely guar post g' s''

variable {sem} {rely : σ → σ → Prop} {guar : σ → γ → Op → σ → γ → Prop} {post : α → γ → σ → Prop}
  {g : γ} {s s' : σ}

theorem Meets.stable {p : Prog Op Res α} (h : p.Meets sem rely guar post g s)
    (hTrans : ∀ {a b c}, rely a b → rely b c → rely a c) (hs : rely s s') :
    p.Meets sem rely guar post g s' := by
  cases p with
  | ret a => exact fun s2 h2 => h s2 (hTrans hs h2)
  | op o next => exact fun s2 h2 => h s2 (hTrans hs h2)

theorem Meets.bind (hRefl : ∀ a, rely a a) {p : Prog Op Res α} {f : α → Prog Op Res β}
    {post' : β → γ → σ → Prop}
    (h : p.Meets sem rely guar (fun a g s => (f a).Meets sem rely guar post' g s) g s) :
    (p >>= f).Meets sem rely guar post' g s := by
  induction p generalizing g s with
  | ret a => exact h s (hRefl s)
  | op o next ih =>
    intro s1 h1 r s2 h2
    obtain ⟨g', hg, hNext⟩ := h s1 h1 r s2 h2
    exact ⟨g', hg, ih r hNext⟩

theorem Meets.mono {post' : α → γ → σ → Prop} (hPost : ∀ a g s, post a g s → post' a g s)
    {p : Prog Op Res α} (h : p.Meets sem rely guar post g s) :
    p.Meets sem rely guar post' g s := by
  induction p generalizing g s with
  | ret a => exact fun s1 h1 => hPost _ _ _ (h s1 h1)
  | op o next ih =>
    intro s1 h1 r s2 h2
    obtain ⟨g', hg, hNext⟩ := h s1 h1 r s2 h2
    exact ⟨g', hg, ih r hNext⟩

theorem Meets.reached {R : σ → σ → Prop} (hTrans : ∀ a b c, R a b → R b c → R a c)
    (hRely : ∀ s s', rely s s' → R s s') (hGuar : ∀ s g o s' g', guar s g o s' g' → R s s')
    {p : Prog Op Res α} (h : p.Meets sem rely guar post g s) :
    p.Meets sem rely guar (fun a g' s' => post a g' s' ∧ R s s') g s := by
  induction p generalizing g s with
  | ret a => exact fun s1 h1 => ⟨h s1 h1, hRely _ _ h1⟩
  | op o next ih =>
    intro s1 h1 r s2 h2
    obtain ⟨g', hg, hNext⟩ := h s1 h1 r s2 h2
    have hStart : R s s2 := hTrans _ _ _ (hRely _ _ h1) (hGuar _ _ _ _ _ hg)
    exact ⟨g', hg, (ih r hNext).mono fun _ _ _ h3 => ⟨h3.1, hTrans _ _ _ hStart h3.2⟩⟩

/-- A program whose operations are steps `guar` under a condition on the state that they and the
steps of others keep meets its contract with the ghost value it has. -/
theorem Meets.under {P : Op → Prop} {Q : σ → Prop}
    (hStable : ∀ s s', rely s s' → Q s → Q s')
    (hOp : ∀ o, P o → ∀ s r s', Q s → sem s o r s' → guar s g o s' g ∧ Q s')
    {p : Prog Op Res α} (hp : p.OnlyOps P) (h : Q s) :
    p.Meets sem rely guar (fun _ g' s' => g' = g ∧ Q s') g s := by
  induction p generalizing s with
  | ret a => exact fun _ h1 => ⟨rfl, hStable _ _ h1 h⟩
  | op o next ih =>
    intro s1 h1 r s2 h2
    obtain ⟨hGuar, hQ⟩ := hOp o hp.1 s1 r s2 (hStable _ _ h1 h) h2
    exact ⟨g, hGuar, ih r (hp.2 r) hQ⟩

end Contracts

end Prog

end Concurrent
