import Dipper.Concurrent.Prog

/-! Runs of one program, with what they did.  A run records its operations and may be cut short
after any of them.  Some operations make something due that a later operation is to pay; a program
whose contract says what it owes at each point pays all of it by the time it returns. -/

namespace Concurrent

/-- An operation of a run, with the states before and after it. -/
structure Action (σ Op : Type) where
  before : σ
  op : Op
  after : σ

/-- Whatever an action makes due, a later one pays. -/
def Settled {σ Op δ : Type} (due pays : Action σ Op → δ → Prop) : List (Action σ Op) → Prop
  | [] => True
  | e :: tr => (∀ x, due e x → ∃ e' ∈ tr, pays e' x) ∧ Settled due pays tr

namespace Settled

variable {σ Op δ : Type} {due pays : Action σ Op → δ → Prop} {tr tr' : List (Action σ Op)}

theorem append (h : Settled due pays tr) (h' : Settled due pays tr') :
    Settled due pays (tr ++ tr') := by
  induction tr with
  | nil => exact h'
  | cons e tr ih =>
    refine ⟨fun x hx => ?_, ih h.2⟩
    obtain ⟨e', hMem, hPays⟩ := h.1 x hx
    exact ⟨e', List.mem_append_left _ hMem, hPays⟩

theorem paid (h : Settled due pays tr) {i : Nat} {e : Action σ Op} {x : δ}
    (hi : tr[i]? = some e) (hx : due e x) : ∃ e' ∈ tr.drop (i + 1), pays e' x := by
  induction tr generalizing i with
  | nil => simp at hi
  | cons e0 tr ih =>
    cases i with
    | zero =>
      obtain rfl : e0 = e := by simpa using hi
      simpa using h.1 x hx
    | succ i => exact ih h.2 (by simpa using hi)

end Settled

namespace Prog

variable {Op : Type} {Res : Op → Type} {α β σ γ δ Choice : Type}
  (sem : σ → (o : Op) → Res o → σ → Prop) (rely : σ → σ → Prop)

/-- A run of a program, with steps `rely` of others before each of its operations and after the
last.  It ends with what the program returned, or with nothing where it was cut short. -/
inductive Runs : Prog Op Res α → σ → List (Action σ Op) → Option α → σ → Prop
  | ret {a : α} {s s' : σ} : rely s s' → Runs (.ret a) s [] (some a) s'
  | cut {p : Prog Op Res α} {s s' : σ} : rely s s' → Runs p s [] none s'
  | op {o : Op} {next : Res o → Prog Op Res α} {s s1 s2 s' : σ} {r : Res o}
      {tr : List (Action σ Op)} {out : Option α} : rely s s1 → sem s1 o r s2 →
      Runs (next r) s2 tr out s' → Runs (.op o next) s (⟨s1, o, s2⟩ :: tr) out s'

/-- The run of a program alone whose operations come out as given; it is cut short where the
choices end or one cannot be. -/
def play (exec : σ → (o : Op) → Choice → Option (Res o × σ)) :
    Prog Op Res α → σ → List Choice → List (Action σ Op) × Option α × σ
  | .ret a, s, _ => ([], some a, s)
  | .op _ _, s, [] => ([], none, s)
  | .op o next, s, c :: cs =>
    match exec s o c with
    | none => ([], none, s)
    | some (r, s') =>
      let (tr, rest) := play exec (next r) s' cs
      (⟨s, o, s'⟩ :: tr, rest)

variable {sem rely}

theorem runs_play {exec : σ → (o : Op) → Choice → Option (Res o × σ)} (hRefl : ∀ s, rely s s)
    (hSem : ∀ s o c r s', exec s o c = some (r, s') → sem s o r s') (p : Prog Op Res α) (s : σ)
    (cs : List Choice) :
    p.Runs sem rely s (p.play exec s cs).1 (p.play exec s cs).2.1 (p.play exec s cs).2.2 := by
  induction p generalizing s cs with
  | ret a => exact .ret (hRefl s)
  | op o next ih =>
    cases cs with
    | nil => exact .cut (hRefl s)
    | cons c cs =>
      simp only [play]
      cases hExec : exec s o c with
      | none => exact .cut (hRefl s)
      | some x => exact .op (hRefl s) (hSem _ _ _ _ _ hExec) (ih _ _ _)

theorem Runs.performed {p : Prog Op Res α} {s s' : σ} {tr : List (Action σ Op)} {out : Option α}
    (run : p.Runs sem rely s tr out s') : ∀ e ∈ tr, ∃ r, sem e.before e.op r e.after := by
  induction run with
  | ret _ => exact nofun
  | cut _ => exact nofun
  | @op o next s s1 s2 s' r tr out h1 h2 _ ih =>
    intro e he
    rcases List.mem_cons.mp he with rfl | he
    · exact ⟨r, h2⟩
    · exact ih e he

theorem Runs.onlyOps {P : Op → Prop} {p : Prog Op Res α} (hp : p.OnlyOps P) {s s' : σ}
    {tr : List (Action σ Op)} {out : Option α} (run : p.Runs sem rely s tr out s') :
    ∀ e ∈ tr, P e.op := by
  induction run with
  | ret _ => exact nofun
  | cut _ => exact nofun
  | op _ _ _ ih =>
    intro e he
    rcases List.mem_cons.mp he with rfl | he
    · exact hp.1
    · exact ih (hp.2 _) e he

theorem Runs.reached {R : σ → σ → Prop} (hTrans : ∀ a b c, R a b → R b c → R a c)
    (hRely : ∀ s s', rely s s' → R s s') {p : Prog Op Res α} {s s' : σ}
    {tr : List (Action σ Op)} {out : Option α} (run : p.Runs sem rely s tr out s')
    (hOps : ∀ e ∈ tr, R e.before e.after) : R s s' := by
  induction run with
  | ret h => exact hRely _ _ h
  | cut h => exact hRely _ _ h
  | op h1 _ _ ih =>
    have hFirst := hOps _ List.mem_cons_self
    have hRest := ih fun e he => hOps e (List.mem_cons_of_mem _ he)
    exact hTrans _ _ _ (hTrans _ _ _ (hRely _ _ h1) hFirst) hRest

theorem runs_pure {a b : α} {s s' : σ} {tr : List (Action σ Op)}
    (run : (pure a : Prog Op Res α).Runs sem rely s tr (some b) s') :
    b = a ∧ tr = [] ∧ rely s s' := by
  cases run with
  | ret h => exact ⟨rfl, rfl, h⟩

theorem runs_perform {o : Op} {r : Res o} {s s' : σ} {tr : List (Action σ Op)}
    (run : (perform o : Prog Op Res (Res o)).Runs sem rely s tr (some r) s') :
    ∃ s1 s2, rely s s1 ∧ sem s1 o r s2 ∧ rely s2 s' ∧ tr = [⟨s1, o, s2⟩] := by
  cases run with
  | @op _ _ _ s1 s2 _ _ _ _ h1 h2 rest =>
    obtain ⟨rfl, rfl, h3⟩ := runs_pure rest
    exact ⟨s1, s2, h1, h2, h3, rfl⟩

/-- A run of a sequence is a run of its first part, cut short or followed by one of the rest. -/
theorem runs_bind_or_cut (hRefl : ∀ s, rely s s) {p : Prog Op Res α} {f : α → Prog Op Res β}
    {s s' : σ} {tr : List (Action σ Op)} {out : Option β}
    (run : (p >>= f).Runs sem rely s tr out s') :
    (out = none ∧ p.Runs sem rely s tr none s') ∨
      ∃ a tr1 tr2 s1, p.Runs sem rely s tr1 (some a) s1 ∧ (f a).Runs sem rely s1 tr2 out s' ∧
        tr = tr1 ++ tr2 := by
  induction p generalizing s tr with
  | ret a => exact .inr ⟨a, [], tr, s, .ret (hRefl s), run, rfl⟩
  | op o next ih =>
    cases run with
    | cut h => exact .inl ⟨rfl, .cut h⟩
    | @op _ _ _ s1 s2 _ r _ _ h1 h2 rest =>
      rcases ih r rest with ⟨rfl, hCut⟩ | ⟨a, tr1, tr2, s3, run1, run2, rfl⟩
      · exact .inl ⟨rfl, .op h1 h2 hCut⟩
      · exact .inr ⟨a, ⟨s1, o, s2⟩ :: tr1, tr2, s3, .op h1 h2 run1, run2, rfl⟩

theorem runs_bind (hRefl : ∀ s, rely s s) {p : Prog Op Res α} {f : α → Prog Op Res β} {b : β}
    {s s' : σ} {tr : List (Action σ Op)} (run : (p >>= f).Runs sem rely s tr (some b) s') :
    ∃ a tr1 tr2 s1, p.Runs sem rely s tr1 (some a) s1 ∧ (f a).Runs sem rely s1 tr2 (some b) s' ∧
      tr = tr1 ++ tr2 := by
  rcases runs_bind_or_cut hRefl run with ⟨hNone, -⟩ | hRuns
  · cases hNone
  · exact hRuns

theorem Runs.bind (hTrans : ∀ a b c, rely a b → rely b c → rely a c) {p : Prog Op Res α}
    {f : α → Prog Op Res β} {a : α} {out : Option β} {s s1 s' : σ} {tr1 tr2 : List (Action σ Op)}
    (run1 : p.Runs sem rely s tr1 (some a) s1) (run2 : (f a).Runs sem rely s1 tr2 out s') :
    (p >>= f).Runs sem rely s (tr1 ++ tr2) out s' := by
  induction p generalizing s tr1 with
  | ret b =>
    obtain ⟨rfl, rfl, hRely⟩ := runs_pure run1
    change (f a).Runs sem rely s tr2 out s'
    generalize f a = q at run2
    cases run2 with
    | ret h => exact .ret (hTrans _ _ _ hRely h)
    | cut h => exact .cut (hTrans _ _ _ hRely h)
    | op h h' rest => exact .op (hTrans _ _ _ hRely h) h' rest
  | op o next ih =>
    cases run1 with
    | op h h' rest => exact .op h h' (ih _ rest)

variable (sem rely) in
/-- What a run of the program returns, where it does, is such a value. -/
def Returns (p : Prog Op Res α) (post : α → Prop) : Prop :=
  ∀ s tr a s', p.Runs sem rely s tr (some a) s' → post a

namespace Returns

variable {post : α → Prop} {post' : β → Prop}

theorem pure {a : α} (h : post a) : (pure a : Prog Op Res α).Returns sem rely post := by
  intro s tr b s' run
  obtain ⟨rfl, -⟩ := runs_pure run
  exact h

theorem any {p : Prog Op Res α} : p.Returns sem rely fun _ => True :=
  fun _ _ _ _ _ => trivial

theorem perform {o : Op} {post : Res o → Prop} (h : ∀ s r s', sem s o r s' → post r) :
    (Prog.perform o : Prog Op Res (Res o)).Returns sem rely post := by
  intro s tr r s' run
  obtain ⟨s1, s2, -, hSem, -⟩ := runs_perform run
  exact h s1 r s2 hSem

theorem bind (hRefl : ∀ s, rely s s) {p : Prog Op Res α} {f : α → Prog Op Res β}
    (hp : p.Returns sem rely post) (hf : ∀ a, post a → (f a).Returns sem rely post') :
    (p >>= f).Returns sem rely post' := by
  intro s tr b s' run
  obtain ⟨a, tr1, tr2, s1, run1, run2, -⟩ := runs_bind hRefl run
  exact hf a (hp _ _ _ _ run1) _ _ _ _ run2

end Returns

/-- A run of a program that meets its contract, returned or cut short, ends where what its steps
and those of others keep holds, and where it returned, as its contract has it. -/
theorem Meets.ends {guar : σ → γ → Op → σ → γ → Prop} {post : α → γ → σ → Prop} {Q : σ → Prop}
    (hStable : ∀ s s', rely s s' → Q s → Q s') (hGuar : ∀ s g o s' g', guar s g o s' g' → Q s')
    {p : Prog Op Res α} {g : γ} {s s' : σ} {tr : List (Action σ Op)} {out : Option α}
    (h : p.Meets sem rely guar post g s) (run : p.Runs sem rely s tr out s') (hQ : Q s) :
    Q s' ∧ ∀ a ∈ out, ∃ g', post a g' s' := by
  induction run generalizing g with
  | ret hs =>
    refine ⟨hStable _ _ hs hQ, fun a ha => ?_⟩
    obtain rfl := Option.some.inj ha
    exact ⟨g, h _ hs⟩
  | cut hs => exact ⟨hStable _ _ hs hQ, nofun⟩
  | op h1 h2 _ ih =>
    obtain ⟨g', hStep, hNext⟩ := h _ h1 _ _ h2
    exact ih hNext (hGuar _ _ _ _ _ hStep)

/-- Each operation of a run of a program that meets its contract is a step the contract allows,
with a ghost value that follows from the first and what the run does. -/
theorem Meets.actions {guar : σ → γ → Op → σ → γ → Prop} {post : α → γ → σ → Prop}
    (follows : γ → List (Action σ Op) → γ → Prop) (hHere : ∀ g tr, follows g tr g)
    (hStep : ∀ e tr g g' g1, guar e.before g e.op e.after g' → follows g' tr g1 →
      follows g (e :: tr) g1)
    {p : Prog Op Res α} {g : γ} {s s' : σ} {tr : List (Action σ Op)} {out : Option α}
    (h : p.Meets sem rely guar post g s) (run : p.Runs sem rely s tr out s') :
    ∀ e ∈ tr, ∃ g1 g2, follows g tr g1 ∧ guar e.before g1 e.op e.after g2 := by
  induction run generalizing g with
  | ret _ => exact nofun
  | cut _ => exact nofun
  | @op o next s s1 s2 s' r tr out h1 h2 _ ih =>
    obtain ⟨g', hGuar, hNext⟩ := h _ h1 _ _ h2
    intro e he
    rcases List.mem_cons.mp he with rfl | he
    · exact ⟨g, g', hHere g _, hGuar⟩
    · obtain ⟨g1, g2, hFollows, hLater⟩ := ih hNext e he
      exact ⟨g1, g2, hStep _ _ _ _ _ hGuar hFollows, hLater⟩

/-- A step that keeps account of what is due, in the ghost value: what the operation makes due is
added, nothing is dropped before it is paid, and only after an operation of the `owing` is there
something left. -/
structure Accounts (due pays : Action σ Op → δ → Prop) (owing : Op → Prop) (R : σ → σ → Prop)
    (s : σ) (owed : List δ) (o : Op) (s' : σ) (owed' : List δ) : Prop where
  reached : R s s'
  added : ∀ x, due ⟨s, o, s'⟩ x → x ∈ owed'
  kept : ∀ x ∈ owed, x ∈ owed' ∨ pays ⟨s, o, s'⟩ x
  owing : owed' ≠ [] → owing o

/-- The run does not stop right after an operation of the `owing`. -/
def StopsPaid (owing : Op → Prop) (tr : List (Action σ Op)) : Prop :=
  ∀ e ∈ tr.getLast?, ¬ owing e.op

/-- A program that keeps account and returns owing nothing has paid all that its run made due, and
so it has where it is cut short owing nothing. -/
theorem Meets.settled {due pays : Action σ Op → δ → Prop} {owing : Op → Prop} {R : σ → σ → Prop}
    {post : α → List δ → σ → Prop} (hPost : ∀ a owed s, post a owed s → owed = [])
    {p : Prog Op Res α} {owed : List δ} {s s' : σ} {tr : List (Action σ Op)} {out : Option α}
    (h : p.Meets sem rely (Accounts due pays owing R) post owed s)
    (run : p.Runs sem rely s tr out s')
    (hCut : out = none → (tr = [] → owed = []) ∧ StopsPaid owing tr) :
    (∀ x ∈ owed, ∃ e ∈ tr, pays e x) ∧ Settled due pays tr := by
  induction run generalizing owed with
  | ret hs =>
    obtain rfl := hPost _ _ _ (h _ hs)
    exact ⟨nofun, trivial⟩
  | cut hs =>
    obtain rfl := (hCut rfl).1 rfl
    exact ⟨nofun, trivial⟩
  | @op o next s s1 s2 s' r tr out h1 h2 _ ih =>
    obtain ⟨owed', hAccounts, hNext⟩ := h _ h1 _ _ h2
    have hRest : out = none → (tr = [] → owed' = []) ∧ StopsPaid owing tr := by
      intro hOut
      have hStops := (hCut hOut).2
      refine ⟨fun hNil => ?_, fun e he => hStops e ?_⟩
      · subst hNil
        exact Classical.byContradiction fun hOwed =>
          hStops ⟨s1, o, s2⟩ rfl (hAccounts.owing hOwed)
      · rw [List.getLast?_cons, Option.mem_def.mp he]
        rfl
    obtain ⟨hOwed, hSettled⟩ := ih hNext hRest
    refine ⟨fun x hx => ?_, fun x hx => hOwed x (hAccounts.added x hx), hSettled⟩
    rcases hAccounts.kept x hx with hLeft | hPaid
    · obtain ⟨e, hMem, hPays⟩ := hOwed x hLeft
      exact ⟨e, List.mem_cons_of_mem _ hMem, hPays⟩
    · exact ⟨_, List.mem_cons_self, hPaid⟩

end Prog

end Concurrent
