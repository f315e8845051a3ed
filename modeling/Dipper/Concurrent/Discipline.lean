import Dipper.Concurrent.System

/-! Disciplines: an invariant of the state, a precondition for each operation by the tag of the
thread that performs it, and what a thread relies on between its operations.  Once every program
is shown to keep to its discipline, the invariant and the preconditions hold along every run, and
a later argument may take them as conditions on the steps. -/

namespace Concurrent

structure Discipline (σ τ Op : Type) where
  inv : σ → Prop
  pre : τ → σ → Op → Prop
  rely : τ → σ → σ → Prop

namespace Discipline

variable {σ τ Op : Type} {Res : Op → Type} {α β Choice Seed Env : Type}
  (D : Discipline σ τ Op) (S : System σ τ Op Res α Choice Seed Env)

/-- The conditions on the state's side: operations whose precondition holds keep the invariant and
are steps that the other threads rely on. -/
structure Sound : Prop where
  refl : ∀ t s, D.rely t s s
  trans : ∀ {t a b c}, D.rely t a b → D.rely t b c → D.rely t a c
  keeps : ∀ {t s o r s'}, D.inv s → D.pre t s o → S.Performs t s o r s' → D.inv s'
  cross : ∀ {t t' s o r s'}, (t ≠ t' ∨ S.exclusive t = false) → D.inv s → D.pre t s o →
    S.Performs t s o r s' → D.rely t' s s'
  env : ∀ {s e s'}, D.inv s → S.env s e = some s' → D.inv s' ∧ ∀ t, D.rely t s s'

/-- What a thread relies on, from a state with the invariant. -/
def relies (t : τ) (s s' : σ) : Prop := D.inv s → D.inv s' ∧ D.rely t s s'

/-- A step that keeps to the discipline. -/
def steps (t : τ) (s : σ) (_ : Unit) (o : Op) (s' : σ) (_ : Unit) : Prop :=
  D.inv s ∧ D.pre t s o ∧ ∃ r, S.Performs t s o r s'

/-- A program of a thread tagged `t` keeps to the discipline from `s`, if the invariant holds
there, and what it returns satisfies `post`. -/
def Keeps (t : τ) (post : β → σ → Prop) (p : Prog Op Res β) (s : σ) : Prop :=
  D.inv s → p.Meets (S.Performs t) (D.relies t) (D.steps S t)
    (fun b _ s => D.inv s ∧ post b s) () s

variable {D S} {t : τ} {s s' : σ} {post : β → σ → Prop}

theorem Sound.relies_refl (hD : D.Sound S) (t : τ) (s : σ) : D.relies t s s :=
  fun h => ⟨h, hD.refl t s⟩

theorem Sound.relies_trans (hD : D.Sound S) {a b c : σ} (hab : D.relies t a b)
    (hbc : D.relies t b c) : D.relies t a c := by
  intro ha
  obtain ⟨hb, hab⟩ := hab ha
  obtain ⟨hc, hbc⟩ := hbc hb
  exact ⟨hc, hD.trans hab hbc⟩

theorem Keeps.ret {b : β} (h : ∀ s', D.inv s' → D.rely t s s' → post b s') :
    D.Keeps S t post (.ret b) s := by
  intro hInv s1 h1
  obtain ⟨hInv1, hRely⟩ := h1 hInv
  exact ⟨hInv1, h s1 hInv1 hRely⟩

/-- An operation: its precondition holds whatever the others did before it, and the program goes
on from every state it leads to. -/
theorem Keeps.op (hD : D.Sound S) {o : Op} {k : Res o → Prog Op Res β}
    (h : ∀ s1, D.inv s1 → D.rely t s s1 → D.pre t s1 o ∧
      ∀ r s2, S.Performs t s1 o r s2 → D.inv s2 → D.Keeps S t post (k r) s2) :
    D.Keeps S t post (.op o k) s := by
  intro hInv s1 h1 r s2 h2
  obtain ⟨hInv1, hRely⟩ := h1 hInv
  obtain ⟨hPre, hNext⟩ := h s1 hInv1 hRely
  have hInv2 : D.inv s2 := hD.keeps hInv1 hPre h2
  exact ⟨(), ⟨hInv1, hPre, r, h2⟩, hNext r s2 h2 hInv2 hInv2⟩

theorem Keeps.perform (hD : D.Sound S) {o : Op} {post : Res o → σ → Prop}
    (h : ∀ s1, D.inv s1 → D.rely t s s1 → D.pre t s1 o ∧
      ∀ r s2, S.Performs t s1 o r s2 → ∀ s3, D.inv s3 → D.rely t s2 s3 → post r s3) :
    D.Keeps S t post (Prog.perform o) s := by
  refine .op hD fun s1 hInv1 hRely1 => ?_
  obtain ⟨hPre, hPost⟩ := h s1 hInv1 hRely1
  refine ⟨hPre, fun r s2 hPerforms _ => .ret fun s3 hInv3 hRely3 => ?_⟩
  exact hPost r s2 hPerforms s3 hInv3 hRely3

theorem Keeps.mono {post' : β → σ → Prop} {p : Prog Op Res β} (h : D.Keeps S t post p s)
    (hPost : ∀ b s, D.inv s → post b s → post' b s) : D.Keeps S t post' p s := by
  intro hInv
  exact (h hInv).mono fun b _ s hb => ⟨hb.1, hPost b s hb.1 hb.2⟩

theorem Keeps.bind (hD : D.Sound S) {γ : Type} {p : Prog Op Res γ} {f : γ → Prog Op Res β}
    (h : D.Keeps S t (fun a s => D.Keeps S t post (f a) s) p s) :
    D.Keeps S t post (p >>= f) s := by
  intro hInv
  refine Prog.Meets.bind (hD.relies_refl t) ?_
  exact (h hInv).mono fun a _ s1 h1 => h1.2 h1.1

theorem Keeps.stable (hD : D.Sound S) {p : Prog Op Res β} (h : D.Keeps S t post p s)
    (hInv : D.inv s) (hs : D.rely t s s') : D.Keeps S t post p s' :=
  fun hInv' => (h hInv).stable (fun hab hbc => hD.relies_trans hab hbc) fun _ => ⟨hInv', hs⟩

/-- What all steps keep to, a thread's own and those of the others, relates the states a program
starts and returns in. -/
theorem Keeps.frame (hD : D.Sound S) {R : σ → σ → Prop} (hTrans : ∀ {a b c}, R a b → R b c → R a c)
    (hRely : ∀ {s s'}, D.inv s → D.rely t s s' → R s s')
    (hOp : ∀ {s o r s'}, D.inv s → D.pre t s o → S.Performs t s o r s' → R s s')
    {p : Prog Op Res β} (h : D.Keeps S t post p s) :
    D.Keeps S t (fun b s' => R s s' ∧ post b s') p s := by
  intro hInv
  have hp := h hInv
  clear h
  induction p generalizing s with
  | ret b =>
    intro s1 h1
    obtain ⟨hInv1, hPost⟩ := hp s1 h1
    exact ⟨hInv1, hRely hInv (h1 hInv).2, hPost⟩
  | op o next ih =>
    intro s1 h1 r s2 h2
    obtain ⟨hInv1, hRely1⟩ := h1 hInv
    obtain ⟨g, hStep, hNext⟩ := hp s1 h1 r s2 h2
    have hInv2 : D.inv s2 := hD.keeps hInv1 hStep.2.1 h2
    have hHere : R s s2 := hTrans (hRely hInv hRely1) (hOp hInv1 hStep.2.1 h2)
    refine ⟨g, hStep, (ih r hInv2 hNext).mono fun b _ s3 h3 => ?_⟩
    exact ⟨h3.1, hTrans hHere h3.2.1, h3.2.2⟩

/-- A loop keeps to the discipline when each round does, from any state where a property holds
that the round keeps and the other threads do not break. -/
theorem Keeps.forEach (hD : D.Sound S) {P : σ → Prop}
    (hStable : ∀ {s s'}, D.inv s' → D.rely t s s' → P s → P s')
    {body : β → Prog Op Res Unit} {xs : List β}
    (hBody : ∀ x ∈ xs, ∀ s, P s → D.Keeps S t (fun _ => P) (body x) s) (h : P s) :
    D.Keeps S t (fun _ => P) (Prog.forEach xs body) s := by
  induction xs generalizing s with
  | nil => exact .ret fun s1 hInv1 h1 => hStable hInv1 h1 h
  | cons x xs ih =>
    refine .bind hD ((hBody x (by simp) s h).mono fun _ s1 _ h1 => ?_)
    exact ih (fun y hy => hBody y (by simp [hy])) h1

/-- A program keeps to the discipline and to a property of the state when its operations are within
the discipline wherever the property holds, and neither they nor the other threads break it. -/
theorem Keeps.under (hD : D.Sound S) {P : σ → Prop} {Q : Op → Prop}
    (hStable : ∀ {s s'}, D.inv s' → D.rely t s s' → P s → P s')
    (hPre : ∀ o, Q o → ∀ s, D.inv s → P s → D.pre t s o)
    (hOp : ∀ {s o r s'}, Q o → S.Performs t s o r s' → P s → P s') {p : Prog Op Res β}
    (hp : p.OnlyOps Q) (h : P s) : D.Keeps S t (fun _ => P) p s := by
  induction p generalizing s with
  | ret b => exact .ret fun s1 hInv1 h1 => hStable hInv1 h1 h
  | op o next ih =>
    refine .op hD fun s1 hInv1 h1 => ?_
    have hHere : P s1 := hStable hInv1 h1 h
    exact ⟨hPre o hp.1 s1 hInv1 hHere, fun r s2 h2 _ => ih r (hp.2 r) (hOp hp.1 h2 hHere)⟩

theorem Keeps.of_onlyOps (hD : D.Sound S) {P : Op → Prop}
    (hPre : ∀ o, P o → ∀ s, D.inv s → D.pre t s o) {p : Prog Op Res β} (h : p.OnlyOps P) :
    D.Keeps S t (fun _ _ => True) p s :=
  .under hD (fun _ _ h => h) (fun o ho s hInv _ => hPre o ho s hInv) (fun _ _ h => h) h trivial

theorem Keeps.uncut (hD : D.Sound S) {P : σ → Prop} {waits : Op → Bool} {cut : Prog Op Res Bool}
    {p : Prog Op Res β} (hp : p.OnlyOps fun o => waits o = false) (hKeeps : D.Keeps S t post p s) :
    D.Keeps S t (fun out s => (out = none → P s) ∧ ∀ b, out = some b → post b s)
      (Prog.cutShort cut waits p) s := by
  induction p generalizing s with
  | ret b =>
    intro hInv s1 h1
    obtain ⟨hInv1, hPost⟩ := hKeeps hInv s1 h1
    refine ⟨hInv1, nofun, fun b' hb' => ?_⟩
    obtain rfl := Option.some.inj hb'
    exact hPost
  | op o next ih =>
    intro hInv s1 h1 r s2 h2
    obtain ⟨g, hStep, hNext⟩ := hKeeps hInv s1 h1 r s2 h2
    have hInv2 : D.inv s2 := hD.keeps (h1 hInv).1 hStep.2.1 h2
    refine ⟨(), ⟨(h1 hInv).1, hStep.2.1, r, h2⟩, ?_⟩
    have hRest : D.Keeps S t post (next r) s2 := fun _ => hNext
    have hUncut : ¬ waits o = true := Bool.eq_false_iff.mp hp.1
    dsimp only
    rw [if_neg hUncut]
    exact ih r (hp.2 r) hRest hInv2

/-- A program that is cut short keeps to its discipline up to there.  Where it is cut short, a
property holds of the state that the other threads do not break, and that its operations keep as
long as it waits for something. -/
theorem Keeps.cutShort (hD : D.Sound S) {P : σ → Prop} {Q : Op → Prop} {waits : Op → Bool}
    {cut : Prog Op Res Bool} (hCut : ∀ s, D.Keeps S t (fun _ s' => D.rely t s s') cut s)
    (hStable : ∀ {s s'}, D.inv s' → D.rely t s s' → P s → P s')
    (hOp : ∀ {s o r s'}, Q o → D.inv s → D.pre t s o → S.Performs t s o r s' → P s → P s')
    {p : Prog Op Res β} (hp : p.Settles waits Q) (hKeeps : D.Keeps S t post p s) (h : P s) :
    D.Keeps S t (fun out s => (out = none → P s) ∧ ∀ b, out = some b → post b s)
      (Prog.cutShort cut waits p) s := by
  induction p generalizing s with
  | ret b => exact Keeps.uncut hD trivial hKeeps
  | op o next ih =>
    rcases hp with ⟨ho, hp⟩ | hLast
    · intro hInv s1 h1 r s2 h2
      obtain ⟨hInv1, hRely⟩ := h1 hInv
      obtain ⟨g, hStep, hNext⟩ := hKeeps hInv s1 h1 r s2 h2
      have hInv2 : D.inv s2 := hD.keeps hInv1 hStep.2.1 h2
      have hHere : P s2 := hOp ho hInv1 hStep.2.1 h2 (hStable hInv1 hRely h)
      have hRest : D.Keeps S t post (next r) s2 := fun _ => hNext
      refine ⟨(), ⟨hInv1, hStep.2.1, r, h2⟩, ?_⟩
      cases waits o with
      | false => exact ih r (hp r) hRest hHere hInv2
      | true =>
        refine Keeps.bind hD ((hCut s2).mono fun stop s3 hInv3 hRely3 => ?_) hInv2
        have hHere3 := hStable hInv3 hRely3 hHere
        cases stop with
        | true => exact .ret fun s4 hInv4 hRely4 => ⟨fun _ => hStable hInv4 hRely4 hHere3, nofun⟩
        | false => exact ih r (hp r) (hRest.stable hD hInv2 hRely3) hHere3
    · exact Keeps.uncut hD hLast hKeeps

section Runs

variable (D S)

/-- Every thread the system starts keeps to the discipline. -/
def Starts : Prop :=
  ∀ {s seed th}, D.inv s → S.start s seed = some th →
    D.Keeps S th.tag (fun _ _ => True) th.prog s

/-- The system with the discipline as a condition on its operations. -/
def restrict : System σ τ Op Res α Choice Seed Env where
  exec := S.exec
  start := S.start
  env := S.env
  allow s t o c := S.allow s t o c ∧ D.inv s ∧ D.pre t s o
  exclusive := S.exclusive
  drops := S.drops

def outline : Outline σ τ Op α Unit where
  rely := D.relies
  guar := D.steps S
  post _ _ _ _ := True
  inv s _ := D.inv s

variable {D S}

theorem outline_sound (hD : D.Sound S) (hStarts : D.Starts S) : (D.outline S).Sound S where
  refl := hD.relies_refl
  trans := hD.relies_trans
  cross hTag hStep := fun _ => by
    obtain ⟨hInv, hPre, r, hOp⟩ := hStep
    exact ⟨hD.keeps hInv hPre hOp, hD.cross hTag hInv hPre hOp⟩
  keeps hStep _ _ := by
    obtain ⟨hInv, hPre, r, hOp⟩ := hStep
    exact hD.keeps hInv hPre hOp
  env hEnv := ⟨fun t hInv => ⟨(hD.env hInv hEnv).1, (hD.env hInv hEnv).2 t⟩,
    fun hInv => (hD.env hInv hEnv).1⟩
  start hStart hInv := ⟨(), (hStarts hInv hStart hInv).mono fun _ _ _ _ => trivial, hInv⟩
  drop _ _ _ hInv _ := hInv

variable [DecidableEq τ]

theorem holds_of_run (hD : D.Sound S) (hStarts : D.Starts S) (hInit : D.inv s) {c : S.Config}
    (hRun : S.Run (s, []) c) : ∃ gs, (D.outline S).Holds S c gs :=
  Outline.Holds.run (D.outline_sound hD hStarts) (Outline.holds_init hInit) hRun

theorem allowed_of_run (hD : D.Sound S) (hStarts : D.Starts S) (hInit : D.inv s) {c c' : S.Config}
    (hRun : S.Run (s, []) c) {m : Move Choice Seed Env} (hAllowed : S.Allowed c m)
    (hNext : S.next c m = some c') : (D.restrict S).Allowed c m := by
  obtain ⟨gs, hHolds⟩ := holds_of_run hD hStarts hInit hRun
  cases m with
  | op i choice =>
    intro tag o k hThread
    have hAllow := hAllowed tag o k hThread
    simp only [System.next, hThread, Option.map_eq_some_iff] at hNext
    obtain ⟨⟨r, s'⟩, hExec, -⟩ := hNext
    obtain ⟨g, g', -, hGuar, -⟩ := Outline.Holds.guarantee (D.outline_sound hD hStarts) hHolds
      hThread ⟨choice, hAllow, hExec⟩
    exact ⟨hAllow, hGuar.1, hGuar.2.1⟩
  | _ => trivial

/-- Along a run the invariant holds, and the run is one of the system with the discipline as a
condition on its operations. -/
theorem run_restrict (hD : D.Sound S) (hStarts : D.Starts S) (hInit : D.inv s) {c : S.Config}
    (hRun : S.Run (s, []) c) : D.inv c.1 ∧ (D.restrict S).Run (s, []) c := by
  obtain ⟨gs, hHolds⟩ := holds_of_run hD hStarts hInit hRun
  refine ⟨hHolds.inv, ?_⟩
  clear hHolds
  induction hRun with
  | refl => exact .refl
  | tail hPrefix hStep ih =>
    obtain ⟨m, hAllowed, hNext⟩ := hStep
    exact ih.tail ⟨m, allowed_of_run hD hStarts hInit hPrefix hAllowed hNext, hNext⟩

theorem relates_of_run (hD : D.Sound S) (hStarts : D.Starts S) (hInit : D.inv s) {R : σ → σ → Prop}
    (hRefl : ∀ s, R s s) (hTrans : ∀ {a b c}, R a b → R b c → R a c)
    (hOp : ∀ {t s o r s'}, D.inv s → D.pre t s o → S.Performs t s o r s' → R s s')
    (hEnv : ∀ {s e s'}, D.inv s → S.env s e = some s' → R s s') {c c' : S.Config}
    (hRun : S.Run (s, []) c) (hLater : S.Run c c') : R c.1 c'.1 := by
  induction hLater with
  | refl => exact hRefl _
  | tail hPrefix hStep ih =>
    have hSoFar := hRun.trans hPrefix
    have hInv := (run_restrict hD hStarts hInit hSoFar).1
    obtain ⟨m, hAllowed, hNext⟩ := hStep
    have hRestricted := allowed_of_run hD hStarts hInit hSoFar hAllowed hNext
    rcases System.next_cases _ hRestricted hNext with ⟨t, o, r, -, choice, hAllow, hExec⟩ |
      ⟨-, hEq | ⟨e, hMove⟩⟩
    · exact hTrans ih (hOp hInv hAllow.2.2 ⟨choice, hAllow.1, hExec⟩)
    · rw [hEq]
      exact ih
    · exact hTrans ih (hEnv hInv hMove)

end Runs

end Discipline

end Concurrent
