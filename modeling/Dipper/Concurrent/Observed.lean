import Dipper.Concurrent.Discipline

/-! What programs are told.  A system can be run with a record of what the results of its operations
told so far, which changes nothing else about its runs.  A program can be followed with what it
knows from its own results; one that performs an operation only once it knows what the operation
needs keeps to a discipline that asks for it. -/

namespace Concurrent

namespace System

variable {σ τ Op : Type} {Res : Op → Type} {α Choice Seed Env δ : Type}
  (S : System σ τ Op Res α Choice Seed Env) (tells : σ → (o : Op) → Res o → σ → List δ)

/-- The system with a record of what its results tell. -/
def observed : System (σ × List δ) τ Op Res α Choice Seed Env where
  exec s o c := (S.exec s.1 o c).map fun x => (x.1, x.2, s.2 ++ tells s.1 o x.1 x.2)
  start s := S.start s.1
  env s e := (S.env s.1 e).map fun s' => (s', s.2)
  allow s := S.allow s.1
  exclusive := S.exclusive
  drops := S.drops

def unobserved (c : (S.observed tells).Config) : S.Config := (c.1.1, c.2)

variable {S tells} {s s' : σ × List δ}

theorem observed_performs {t : τ} {o : Op} {r : Res o}
    (h : (S.observed tells).Performs t s o r s') :
    S.Performs t s.1 o r s'.1 ∧ s'.2 = s.2 ++ tells s.1 o r s'.1 := by
  obtain ⟨c, hAllow, hExec⟩ := h
  obtain ⟨⟨r', s1⟩, hBase, hEq⟩ := Option.map_eq_some_iff.mp hExec
  cases hEq
  exact ⟨⟨c, hAllow, hBase⟩, rfl⟩

theorem observed_env {e : Env} (h : (S.observed tells).env s e = some s') :
    S.env s.1 e = some s'.1 ∧ s'.2 = s.2 := by
  obtain ⟨s1, hBase, rfl⟩ := Option.map_eq_some_iff.mp h
  exact ⟨hBase, rfl⟩

variable {c c' : (S.observed tells).Config} {m : Move Choice Seed Env}

theorem allowed_unobserved (h : (S.observed tells).Allowed c m) :
    S.Allowed (S.unobserved tells c) m := by
  cases m <;> exact h

variable [DecidableEq τ]

theorem next_unobserved (h : (S.observed tells).next c m = some c') :
    S.next (S.unobserved tells c) m = some (S.unobserved tells c') := by
  cases m with
  | op i choice =>
    simp only [next] at h
    split at h
    · rename_i tag o k hThread
      obtain ⟨⟨r, s1⟩, hExec, rfl⟩ := Option.map_eq_some_iff.mp h
      obtain ⟨⟨r', s2⟩, hBase, hEq⟩ := Option.map_eq_some_iff.mp hExec
      cases hEq
      have hSame : (S.unobserved tells c).2[i]? = some ⟨tag, .op o k⟩ := hThread
      simp only [next, hSame]
      exact Option.map_eq_some_iff.mpr ⟨(r', s2), hBase, rfl⟩
    · cases h
  | start seed =>
    obtain ⟨th, hStart, h⟩ := Option.bind_eq_some_iff.mp h
    refine Option.bind_eq_some_iff.mpr ⟨th, hStart, ?_⟩
    split at h
    · cases h
    · rename_i hFree
      cases h
      exact if_neg hFree
  | env e =>
    obtain ⟨s1, hEnv, rfl⟩ := Option.map_eq_some_iff.mp h
    exact Option.map_eq_some_iff.mpr ⟨s1.1, (observed_env hEnv).1, rfl⟩
  | drop i =>
    simp only [next] at h ⊢
    split at h
    · rename_i hDrop
      cases h
      exact if_pos hDrop
    · cases h

theorem run_unobserved (h : (S.observed tells).Run c c') :
    S.Run (S.unobserved tells c) (S.unobserved tells c') := by
  induction h with
  | refl => exact .refl
  | tail _ hStep ih =>
    obtain ⟨m, hAllowed, hNext⟩ := hStep
    exact ih.tail ⟨m, allowed_unobserved hAllowed, next_unobserved hNext⟩

end System

namespace Discipline

variable {σ τ Op : Type} {Res : Op → Type} {α Choice Seed Env δ : Type} [DecidableEq τ]
  {D : Discipline σ τ Op} {S : System σ τ Op Res α Choice Seed Env}
  {tells : σ → (o : Op) → Res o → σ → List δ} {s : σ}

theorem run_observed (hD : D.Sound S) (hStarts : D.Starts S) (hInit : D.inv s)
    {c : (S.observed tells).Config} (hRun : (S.observed tells).Run ((s, []), []) c) :
    ((D.restrict S).observed tells).Run ((s, []), []) c := by
  induction hRun with
  | refl => exact .refl
  | tail hSoFar hStep ih =>
    obtain ⟨m, hAllowed, hNext⟩ := hStep
    refine ih.tail ⟨m, ?_, hNext⟩
    have hBase := allowed_of_run hD hStarts hInit (System.run_unobserved hSoFar)
      (System.allowed_unobserved hAllowed) (System.next_unobserved hNext)
    cases m <;> exact hBase

end Discipline

namespace Prog

variable {Op : Type} {Res : Op → Type} {α β κ : Type}

/-- The program returns only values that satisfy `post`, whatever results it gets. -/
def Yields (post : α → Prop) : Prog Op Res α → Prop
  | .ret a => post a
  | .op _ next => ∀ r, (next r).Yields post

theorem Yields.bind {post : α → Prop} {post' : β → Prop} {p : Prog Op Res α}
    {f : α → Prog Op Res β} (hp : p.Yields post) (hf : ∀ a, post a → (f a).Yields post') :
    (p >>= f).Yields post' := by
  induction p with
  | ret a => exact hf a hp
  | op o next ih => exact fun r => ih r (hp r)

theorem Yields.after {post : β → Prop} (p : Prog Op Res α) {f : α → Prog Op Res β}
    (hf : ∀ a, (f a).Yields post) : (p >>= f).Yields post := by
  induction p with
  | ret a => exact hf a
  | op o next ih => exact fun r => ih r

/-- The program performs its operations only once it knows what they need, where `know` says what it
knows after a result, and returns with `post`. -/
def Informed (know : κ → (o : Op) → Res o → κ) (needs : κ → Op → Prop) (post : κ → α → Prop) :
    Prog Op Res α → κ → Prop
  | .ret a, k => post k a
  | .op o next, k => needs k o ∧ ∀ r, (next r).Informed know needs post (know k o r)

namespace Informed

variable {know : κ → (o : Op) → Res o → κ} {needs : κ → Op → Prop} {post : κ → α → Prop}
  {post' : κ → β → Prop} {k : κ}

theorem mono {p : Prog Op Res α} {post' : κ → α → Prop} (h : p.Informed know needs post k)
    (hPost : ∀ k a, post k a → post' k a) : p.Informed know needs post' k := by
  induction p generalizing k with
  | ret a => exact hPost k a h
  | op o next ih => exact ⟨h.1, fun r => ih r (h.2 r)⟩

theorem bind {p : Prog Op Res α} {f : α → Prog Op Res β}
    (h : p.Informed know needs (fun k a => (f a).Informed know needs post' k) k) :
    (p >>= f).Informed know needs post' k := by
  induction p generalizing k with
  | ret a => exact h
  | op o next ih => exact ⟨h.1, fun r => ih r (h.2 r)⟩

theorem yields {p : Prog Op Res α} {values : α → Prop} (h : p.Informed know needs post k)
    (hYields : p.Yields values) : p.Informed know needs (fun k a => post k a ∧ values a) k := by
  induction p generalizing k with
  | ret a => exact ⟨h, hYields⟩
  | op o next ih => exact ⟨h.1, fun r => ih r (h.2 r) (hYields r)⟩

theorem frame {R : κ → κ → Prop} (hRefl : ∀ k, R k k) (hTrans : ∀ {a b c}, R a b → R b c → R a c)
    (hKnow : ∀ k o r, R k (know k o r)) {p : Prog Op Res α} (h : p.Informed know needs post k) :
    p.Informed know needs (fun k' a => R k k' ∧ post k' a) k := by
  induction p generalizing k with
  | ret a => exact ⟨hRefl k, h⟩
  | op o next ih =>
    refine ⟨h.1, fun r => (ih r (h.2 r)).mono fun k' a hEnd => ?_⟩
    exact ⟨hTrans (hKnow k o r) hEnd.1, hEnd.2⟩

theorem of_onlyOps {P : Op → Prop} {Q : κ → Prop} (hNeeds : ∀ {k o}, P o → Q k → needs k o)
    (hKnow : ∀ {k o} r, P o → Q k → Q (know k o r)) {p : Prog Op Res α} (hp : p.OnlyOps P)
    (h : Q k) : p.Informed know needs (fun k _ => Q k) k := by
  induction p generalizing k with
  | ret a => exact h
  | op o next ih => exact ⟨hNeeds hp.1 h, fun r => ih r (hp.2 r) (hKnow r hp.1 h)⟩

end Informed

end Prog

namespace Discipline

variable {σ τ Op : Type} {Res : Op → Type} {α β Choice Seed Env κ : Type}
  {D : Discipline σ τ Op} {S : System σ τ Op Res α Choice Seed Env} {t : τ} {s : σ}

/-- A program that knows what its operations need keeps to the discipline, if what it knows is true
of the state, whatever the others do. -/
theorem Keeps.of_informed (hD : D.Sound S) {know : κ → (o : Op) → Res o → κ}
    {needs : κ → Op → Prop} {valid : κ → σ → Prop}
    (hStable : ∀ {k s s'}, D.rely t s s' → valid k s → valid k s')
    (hPre : ∀ {k s o}, valid k s → needs k o → D.pre t s o)
    (hKnow : ∀ {k s o r s'}, D.inv s → D.inv s' → valid k s → S.Performs t s o r s' →
      valid (know k o r) s')
    {post : κ → β → Prop} {p : Prog Op Res β} {k : κ} (hp : p.Informed know needs post k)
    (h : valid k s) : D.Keeps S t (fun _ _ => True) p s := by
  induction p generalizing k s with
  | ret b => exact .ret fun _ _ _ => trivial
  | op o next ih =>
    refine .op hD fun s1 hInv1 hRely => ?_
    have hValid := hStable hRely h
    refine ⟨hPre hValid hp.1, fun r s2 hPerforms hInv2 => ?_⟩
    exact ih r (hp.2 r) (hKnow hInv1 hInv2 hValid hPerforms)

end Discipline

end Concurrent
