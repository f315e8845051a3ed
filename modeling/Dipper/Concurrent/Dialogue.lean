import Dipper.Concurrent.Observed
import Dipper.Concurrent.Trace

/-! What a program asks and is told.  A dialogue lists the operations a program performed with the
results they had, wherever these came from; it may break off after any of them. -/

namespace Concurrent

namespace Prog

variable {Op : Type} {Res : Op → Type} {α β σ Choice : Type}

abbrev Exchange (Op : Type) (Res : Op → Type) : Type := (o : Op) × Res o

/-- A dialogue of a program, with what it returned, or nothing where it breaks off. -/
inductive Talks : Prog Op Res α → List (Exchange Op Res) → Option α → Prop
  | ret {a : α} : Talks (.ret a) [] (some a)
  | cut {p : Prog Op Res α} : Talks p [] none
  | op {o : Op} {next : Res o → Prog Op Res α} {r : Res o} {talk : List (Exchange Op Res)}
      {out : Option α} : Talks (next r) talk out → Talks (.op o next) (⟨o, r⟩ :: talk) out

theorem talks_pure {a b : α} {talk : List (Exchange Op Res)}
    (h : (pure a : Prog Op Res α).Talks talk (some b)) : b = a ∧ talk = [] := by
  cases h with
  | ret => exact ⟨rfl, rfl⟩

theorem talks_perform {o : Op} {r : Res o} {talk : List (Exchange Op Res)}
    (h : (perform o : Prog Op Res (Res o)).Talks talk (some r)) : talk = [⟨o, r⟩] := by
  cases h with
  | op rest =>
    obtain ⟨rfl, rfl⟩ := talks_pure rest
    rfl

theorem talks_bind {p : Prog Op Res α} {f : α → Prog Op Res β} {b : β}
    {talk : List (Exchange Op Res)} (h : (p >>= f).Talks talk (some b)) :
    ∃ a talk1 talk2, p.Talks talk1 (some a) ∧ (f a).Talks talk2 (some b) ∧
      talk = talk1 ++ talk2 := by
  induction p generalizing talk with
  | ret a => exact ⟨a, [], talk, .ret, h, rfl⟩
  | op o next ih =>
    cases h with
    | @op _ _ r _ _ rest =>
      obtain ⟨a, talk1, talk2, h1, h2, rfl⟩ := ih r rest
      exact ⟨a, ⟨o, r⟩ :: talk1, talk2, .op h1, h2, rfl⟩

theorem Talks.onlyOps {P : Op → Prop} {p : Prog Op Res α} (hp : p.OnlyOps P)
    {talk : List (Exchange Op Res)} {out : Option α} (h : p.Talks talk out) :
    ∀ e ∈ talk, P e.1 := by
  induction h with
  | ret => exact fun e he => absurd he List.not_mem_nil
  | cut => exact fun e he => absurd he List.not_mem_nil
  | op _ ih =>
    intro e he
    rcases List.mem_cons.mp he with rfl | he
    · exact hp.1
    · exact ih (hp.2 _) e he

theorem Talks.yields {post : α → Prop} {p : Prog Op Res α} (hp : p.Yields post)
    {talk : List (Exchange Op Res)} {a : α} (h : p.Talks talk (some a)) : post a := by
  induction p generalizing talk with
  | ret b =>
    obtain ⟨rfl, -⟩ := talks_pure h
    exact hp
  | op o next ih =>
    cases h with
    | op rest => exact ih _ (hp _) rest

/-- A dialogue that breaks off can go on to the end, with results of any kind that every operation
has. -/
theorem Talks.goes_on (ok : (o : Op) → Res o → Prop) (hOk : ∀ o, ∃ r, ok o r)
    {p : Prog Op Res α} {talk : List (Exchange Op Res)} {out : Option α} (h : p.Talks talk out) :
    ∃ rest a, p.Talks (talk ++ rest) (some a) ∧ ∀ e ∈ rest, ok e.1 e.2 := by
  have hEnds : ∀ p : Prog Op Res α, ∃ rest a, p.Talks rest (some a) ∧ ∀ e ∈ rest, ok e.1 e.2 := by
    intro p
    induction p with
    | ret a => exact ⟨[], a, .ret, fun e he => absurd he List.not_mem_nil⟩
    | op o next ih =>
      obtain ⟨r, hr⟩ := hOk o
      obtain ⟨rest, a, hTalks, hAll⟩ := ih r
      refine ⟨⟨o, r⟩ :: rest, a, .op hTalks, fun e he => ?_⟩
      rcases List.mem_cons.mp he with rfl | he
      · exact hr
      · exact hAll e he
  induction h with
  | @ret a => exact ⟨[], a, .ret, fun e he => absurd he List.not_mem_nil⟩
  | @cut p => exact hEnds p
  | op _ ih =>
    obtain ⟨rest, a, hTalks, hAll⟩ := ih
    exact ⟨rest, a, .op hTalks, hAll⟩

theorem Runs.talks {sem : σ → (o : Op) → Res o → σ → Prop} {rely : σ → σ → Prop}
    {p : Prog Op Res α} {s s' : σ} {tr : List (Action σ Op)} {out : Option α}
    (run : p.Runs sem rely s tr out s') : ∃ talk, p.Talks talk out := by
  induction run with
  | ret _ => exact ⟨[], .ret⟩
  | cut _ => exact ⟨[], .cut⟩
  | op _ _ _ ih =>
    obtain ⟨talk, hTalks⟩ := ih
    exact ⟨_, .op hTalks⟩

/-- The dialogue of a program alone whose operations come out as given, and where it ends. -/
def converse (exec : σ → (o : Op) → Choice → Option (Res o × σ)) :
    Prog Op Res α → σ → List Choice → List (Exchange Op Res) × Option α × σ
  | .ret a, s, _ => ([], some a, s)
  | .op _ _, s, [] => ([], none, s)
  | .op o next, s, c :: cs =>
    match exec s o c with
    | none => ([], none, s)
    | some (r, s') =>
      let (talk, rest) := converse exec (next r) s' cs
      (⟨o, r⟩ :: talk, rest)

theorem talks_converse (exec : σ → (o : Op) → Choice → Option (Res o × σ)) (p : Prog Op Res α)
    (s : σ) (cs : List Choice) :
    p.Talks (p.converse exec s cs).1 (p.converse exec s cs).2.1 := by
  induction p generalizing s cs with
  | ret a => exact .ret
  | op o next ih =>
    cases cs with
    | nil => exact .cut
    | cons c cs =>
      simp only [converse]
      cases hExec : exec s o c with
      | none => exact .cut
      | some x => exact .op (ih _ _ _)

end Prog

end Concurrent
