import Dipper.Concurrent.Trace
import Dipper.Passes
import Mathlib.Data.Finset.Card
import Mathlib.Data.Finset.Dedup

/-! One pass of the reassessment from the diff to its end, whatever the other services do meanwhile
and whichever of its calls fail.  The old agreements IISA left out are replaced, held back or
cancelled, each in one of these ways, and only those beyond the picks that want an agreement are
cancelled; the additions fill the room the request has, up to the caps. -/

namespace Dipper

open Concurrent World

namespace Reassess

section Diff

variable {b : Baseline} {picks : List SelectedIndexer}

/-- The active agreements whose indexer IISA left out. -/
def dropped (b : Baseline) (picks : List SelectedIndexer) : List IndexingAgreement :=
  b.active.filter fun agreement => agreement.indexerId ∉ picks.map (·.id)

/-- The indexers IISA picked that have no active agreement. -/
def wanting (b : Baseline) (picks : List SelectedIndexer) : Finset IndexerId :=
  (picks.map (·.id)).toFinset \ (b.active.map (·.indexerId)).toFinset

/-- The indexers IISA picked that have one. -/
def retained (b : Baseline) (picks : List SelectedIndexer) : Finset IndexerId :=
  (b.active.map (·.indexerId)).toFinset ∩ (picks.map (·.id)).toFinset

theorem filter_toCancel (b : Baseline) (picks : List SelectedIndexer) :
    (b.active.filter fun a => a.indexerId ∈ (computeDiff b picks).toCancel) = dropped b picks := by
  refine List.filter_congr fun a ha => ?_
  have hCurrent : a.indexerId ∈ b.current := List.mem_dedup.mpr (List.mem_map_of_mem ha)
  have hIff : a.indexerId ∈ (computeDiff b picks).toCancel ↔ a.indexerId ∉ picks.map (·.id) := by
    simp [computeDiff, hCurrent]
  exact decide_eq_decide.mpr hIff

theorem diffAddCount_eq (b : Baseline) (picks : List SelectedIndexer) :
    (computeDiff b picks).diffAddCount = (wanting b picks).card := by
  have hNodup : ((picks.map (·.id)).dedup.filter (· ∉ b.current)).Nodup :=
    (List.nodup_dedup _).filter _
  have hSame : wanting b picks =
      ((picks.map (·.id)).dedup.filter (· ∉ b.current)).toFinset := by
    ext i
    simp [wanting, Baseline.current]
  rw [hSame, List.toFinset_card_of_nodup hNodup]
  rfl

/-- What the agreements kept and the held slots leave of the target. -/
def room (b : Baseline) (picks : List SelectedIndexer) : Nat :=
  b.numCandidates - (b.held.length + (retained b picks).card)

/-- An indexer that a pick can be offered to and that has neither an agreement nor a held slot. -/
def Offerable (b : Baseline) (picks : List SelectedIndexer) (i : IndexerId) : Prop :=
  (∃ pick ∈ picks, pick.id = i ∧ pick.offer = true) ∧ i ∉ b.active.map (·.indexerId) ∧ i ∉ b.held

instance (b : Baseline) (picks : List SelectedIndexer) (i : IndexerId) :
    Decidable (Offerable b picks i) :=
  inferInstanceAs (Decidable (_ ∧ _ ∧ _))

/-- Such an indexer is picked before as many others have been as there is room for. -/
def WithinRoom (b : Baseline) (picks : List SelectedIndexer) (i : IndexerId) : Prop :=
  Offerable b picks i ∧ ∃ before pick after, picks = before ++ pick :: after ∧ pick.id = i ∧
    before.countP (Offerable b picks ·.id) < room b picks

theorem mem_take_filter {α : Type} {p : α → Bool} {l : List α} {n : Nat} {x : α} :
    x ∈ (l.filter p).take n ↔ p x = true ∧ ∃ before after, l = before ++ x :: after ∧
      before.countP p < n := by
  constructor
  · intro h
    refine ⟨List.of_mem_filter (List.mem_of_mem_take h), ?_⟩
    induction l generalizing n with
    | nil => simp at h
    | cons y l ih =>
      by_cases hy : p y = true
      · obtain ⟨n, rfl⟩ : ∃ k, n = k + 1 := by
          cases n with
          | zero => simp at h
          | succ n => exact ⟨n, rfl⟩
        rw [List.filter_cons_of_pos hy, List.take_succ_cons] at h
        rcases List.mem_cons.mp h with rfl | h
        · exact ⟨[], l, rfl, Nat.succ_pos n⟩
        · obtain ⟨before, after, rfl, hCount⟩ := ih h
          exact ⟨y :: before, after, rfl, by rw [List.countP_cons_of_pos hy]; omega⟩
      · rw [List.filter_cons_of_neg hy] at h
        obtain ⟨before, after, rfl, hCount⟩ := ih h
        exact ⟨y :: before, after, rfl, by rwa [List.countP_cons_of_neg hy]⟩
  · rintro ⟨hx, before, after, rfl, hCount⟩
    rw [List.filter_append, List.filter_cons_of_pos hx, List.take_append]
    refine List.mem_append_right _ ?_
    rw [← List.countP_eq_length_filter]
    obtain ⟨k, hk⟩ : ∃ k, n - before.countP p = k + 1 := ⟨n - before.countP p - 1, by omega⟩
    rw [hk]
    exact List.mem_cons_self

theorem kept_eq (b : Baseline) (picks : List SelectedIndexer) :
    (b.current.filter (· ∈ (picks.map (·.id)).dedup)).length = (retained b picks).card := by
  have hSame : retained b picks = (b.current.filter (· ∈ (picks.map (·.id)).dedup)).toFinset := by
    ext i
    simp [retained, Baseline.current]
  have hNodup : (b.current.filter (· ∈ (picks.map (·.id)).dedup)).Nodup :=
    (List.nodup_dedup _).filter _
  rw [hSame, List.toFinset_card_of_nodup hNodup]

theorem mem_offers (b : Baseline) (picks : List SelectedIndexer) (i : IndexerId) :
    i ∈ ((picks.filter fun pick => pick.id ∉ b.current ∧ pick.id ∉ b.held).filter (·.offer)).map
      (·.id) ↔ Offerable b picks i := by
  have hCurrent : ∀ i, i ∈ b.current ↔ i ∈ b.active.map (·.indexerId) := fun _ => List.mem_dedup
  simp only [List.mem_map, List.mem_filter, decide_eq_true_eq, Offerable, hCurrent]
  constructor
  · rintro ⟨pick, ⟨⟨hPick, hNew⟩, hOffer⟩, rfl⟩
    exact ⟨⟨pick, hPick, rfl, hOffer⟩, hNew⟩
  · rintro ⟨⟨pick, hPick, rfl, hOffer⟩, hNew⟩
    exact ⟨pick, ⟨⟨hPick, hNew⟩, hOffer⟩, rfl⟩

theorem mem_toAdd (b : Baseline) (picks : List SelectedIndexer) (i : IndexerId) :
    i ∈ (computeDiff b picks).toAdd ↔ WithinRoom b picks i := by
  have hToAdd : (computeDiff b picks).toAdd =
      (((picks.filter fun pick => Offerable b picks pick.id).map (·.id)).take
        (room b picks)).dedup := by
    have hFilter : (picks.map (·.id)).filter (· ∈ ((picks.filter fun pick =>
          pick.id ∉ b.current ∧ pick.id ∉ b.held).filter (·.offer)).map (·.id)) =
        (picks.filter fun pick => Offerable b picks pick.id).map (·.id) := by
      rw [List.filter_map]
      refine congrArg _ (List.filter_congr fun pick _ => decide_eq_decide.mpr ?_)
      exact mem_offers b picks pick.id
    rw [← hFilter, room, ← kept_eq]
    rfl
  rw [hToAdd, List.mem_dedup, ← List.map_take, List.mem_map]
  constructor
  · rintro ⟨pick, hPick, rfl⟩
    obtain ⟨hOfferable, before, after, hSplit, hCount⟩ := mem_take_filter.mp hPick
    exact ⟨of_decide_eq_true hOfferable, before, pick, after, hSplit, rfl, hCount⟩
  · rintro ⟨hOfferable, before, pick, after, hSplit, rfl, hCount⟩
    exact ⟨pick, mem_take_filter.mpr ⟨decide_eq_true hOfferable, before, after, hSplit, hCount⟩,
      rfl⟩

theorem mem_of_toAdd {i : IndexerId} (hi : i ∈ (computeDiff b picks).toAdd) :
    i ∈ wanting b picks ∧ i ∉ b.held := by
  obtain ⟨⟨⟨pick, hPick, rfl, -⟩, hNew, hFree⟩, -⟩ := (mem_toAdd b picks i).mp hi
  refine ⟨Finset.mem_sdiff.mpr ⟨List.mem_toFinset.mpr (List.mem_map_of_mem hPick), ?_⟩, hFree⟩
  exact fun hActive => hNew (List.mem_toFinset.mp hActive)

theorem length_toAdd_le (b : Baseline) (picks : List SelectedIndexer) :
    (computeDiff b picks).toAdd.length ≤ (wanting b picks).card := by
  rw [← List.toFinset_card_of_nodup (nodup_toAdd b picks)]
  exact Finset.card_le_card fun i hi => (mem_of_toAdd (List.mem_toFinset.mp hi)).1

theorem length_toAdd_le_room (b : Baseline) (picks : List SelectedIndexer) :
    (computeDiff b picks).toAdd.length ≤ room b picks := by
  rw [room, ← kept_eq]
  exact (List.dedup_sublist _).length_le.trans (List.length_take_le _ _)

theorem unofferable_le (b : Baseline) (picks : List SelectedIndexer) :
    (computeDiff b picks).unofferable ≤ picks.length :=
  (List.filter_sublist.trans List.filter_sublist).length_le

end Diff

section Plan

variable (config : Config) (b : Baseline) (picks : List SelectedIndexer)

abbrev admitted : List IndexerId :=
  (planAdditions config b (computeDiff b picks) (dropped b picks).length).1

/-- The old agreements it holds back. -/
abbrev heldBack : Nat :=
  (planAdditions config b (computeDiff b picks) (dropped b picks).length).2.2

theorem nodup_admitted : (admitted config b picks).Nodup := by
  obtain ⟨l, hPerm, hSublist⟩ :=
    (planAdditions_spec config b (computeDiff b picks) (dropped b picks).length).2.1
  exact hPerm.nodup ((nodup_toAdd b picks).sublist hSublist)

theorem length_admitted_le :
    (admitted config b picks).length ≤ (computeDiff b picks).toAdd.length :=
  (planAdditions_spec config b (computeDiff b picks) (dropped b picks).length).2.1.length_le

theorem heldBack_eq : heldBack config b picks =
    reservedCancelCount (dropped b picks).length (wanting b picks).card
      (admitted config b picks).length := by
  rw [← diffAddCount_eq]
  unfold heldBack admitted planAdditions
  split <;> rfl

theorem withheld_eq :
    (planAdditions config b (computeDiff b picks) (dropped b picks).length).2.1 =
      ((computeDiff b picks).toAdd.filter (· ∉ admitted config b picks)).length := by
  have hCount : (planAdditions config b (computeDiff b picks) (dropped b picks).length).2.1 =
      (computeDiff b picks).toAdd.length - (admitted config b picks).length := by
    unfold admitted planAdditions
    split
    · rename_i hNone
      rw [List.isEmpty_iff.mp hNone]
      rfl
    · rfl
  have hIn : ((computeDiff b picks).toAdd.filter (· ∈ admitted config b picks)).Perm
      (admitted config b picks) := by
    refine (List.perm_ext_iff_of_nodup ((nodup_toAdd b picks).filter _)
      (nodup_admitted config b picks)).mpr ?_
    intro i
    have hSubset :=
      (planAdditions_spec config b (computeDiff b picks) (dropped b picks).length).2.1.subset
    simp only [List.mem_filter, decide_eq_true_eq]
    exact ⟨fun h => h.2, fun h => ⟨hSubset h, h⟩⟩
  have hSplit := List.length_eq_length_filter_add (l := (computeDiff b picks).toAdd)
    fun i => decide (i ∈ admitted config b picks)
  rw [hIn.length_eq] at hSplit
  simp only [← decide_not] at hSplit
  omega

end Plan

section Traces

variable {tr tr' : List (Action World Op)}

/-- The agreements a run tried to register: the indexer of each, and the old agreement it was to
replace. -/
def attempts (tr : List (Action World Op)) : List (IndexerId × Option IndexingAgreementId) :=
  tr.filterMap fun e => match e.op with
    | .register params replaces => some (params.indexerId, replaces)
    | _ => none

/-- The agreements a run set out to cancel. -/
def handedOver (tr : List (Action World Op)) : List IndexingAgreementId :=
  tr.filterMap fun e => match e.op with
    | .update id .markAsCancelling | .update id .markAsCanceledByRequester => some id
    | _ => none

@[simp] theorem attempts_nil : attempts [] = [] := rfl

@[simp] theorem handedOver_nil : handedOver [] = [] := rfl

@[simp] theorem attempts_append : attempts (tr ++ tr') = attempts tr ++ attempts tr' :=
  List.filterMap_append

@[simp] theorem handedOver_append : handedOver (tr ++ tr') = handedOver tr ++ handedOver tr' :=
  List.filterMap_append

theorem attempts_eq_nil (h : ∀ e ∈ tr, e.op.registers = false) : attempts tr = [] := by
  refine List.filterMap_eq_nil_iff.mpr fun e he => ?_
  have hOp := h e he
  cases hEq : e.op with
  | register params replaces =>
    rw [hEq] at hOp
    cases hOp
  | _ => rfl

/-- A run of a program that returned, with any steps of others between its operations. -/
abbrev Did {α : Type} (p : Act α) (w : World) (tr : List (Action World Op)) (a : α)
    (w' : World) : Prop :=
  p.Runs (World.Performs fun _ _ _ => True) (fun _ _ => True) w tr (some a) w'

variable {α β : Type} {w w' : World}

theorem did_bind {p : Act α} {f : α → Act β} {r : β} (h : Did (p >>= f) w tr r w') :
    ∃ a tr1 tr2 w1, Did p w tr1 a w1 ∧ Did (f a) w1 tr2 r w' ∧ tr = tr1 ++ tr2 :=
  Prog.runs_bind (fun _ => trivial) h

theorem did_pure {a r : α} (h : Did (pure a : Act α) w tr r w') : r = a ∧ tr = [] := by
  obtain ⟨hEq, hNil, -⟩ := Prog.runs_pure h
  exact ⟨hEq, hNil⟩

theorem did_call {o : Op} {r : Res o} (h : Did (call o) w tr r w') :
    ∃ w1 w2, w1.Performs (fun _ _ _ => True) o r w2 ∧ tr = [⟨w1, o, w2⟩] := by
  obtain ⟨w1, w2, -, hPerforms, -, hTrace⟩ := Prog.runs_perform h
  exact ⟨w1, w2, hPerforms, hTrace⟩

theorem quiet_of_asks {p : Act α} (hp : Asks p) {a : α} (h : Did p w tr a w') :
    attempts tr = [] ∧ handedOver tr = [] := by
  have hOps := Prog.Runs.onlyOps hp h
  refine ⟨attempts_eq_nil fun e he => ?_, List.filterMap_eq_nil_iff.mpr fun e he => ?_⟩
  · have hOp := hOps e he
    generalize e.op = o at hOp
    cases o <;> first | rfl | cases hOp
  · have hOp := hOps e he
    cases hEq : e.op with
    | update id u =>
      rw [hEq] at hOp
      cases hOp
    | _ => rfl

end Traces

section Walk

variable {config : Config} {request : IndexingRequestId} {b : Baseline} {now : Nat}
  {w w' : World} {tr : List (Action World Op)}

theorem did_registerNew {indexer : IndexerId} {replaces : Option IndexingAgreement}
    {r : Except RegistryError IndexingAgreementId}
    (h : Did (registerNew config request b now indexer replaces) w tr r w') :
    attempts tr = [(indexer, replaces.map (·.id))] ∧ handedOver tr = [] := by
  obtain ⟨fresh, tr1, tr2, w1, h1, h2, rfl⟩ := did_bind h
  obtain ⟨_, _, -, rfl⟩ := did_call h1
  cases replaces with
  | none =>
    obtain ⟨registered, tr3, tr4, w2, h3, h4, rfl⟩ := did_bind h2
    obtain ⟨_, _, -, rfl⟩ := did_call h3
    cases registered with
    | error e =>
      obtain ⟨-, rfl⟩ := did_pure h4
      exact ⟨rfl, rfl⟩
    | ok _ =>
      obtain ⟨-, rfl⟩ := did_pure h4
      exact ⟨rfl, rfl⟩
  | some old =>
    obtain ⟨registered, tr3, tr4, w2, h3, h4, rfl⟩ := did_bind h2
    obtain ⟨_, _, -, rfl⟩ := did_call h3
    cases registered with
    | error e =>
      obtain ⟨-, rfl⟩ := did_pure h4
      exact ⟨rfl, rfl⟩
    | ok _ =>
      obtain ⟨-, rfl⟩ := did_pure h4
      exact ⟨rfl, rfl⟩

/-- What the additions of a pass do: one attempt for each indexer, taking the next old agreement
whether it succeeds or not. -/
structure Pairs (indexers : List IndexerId) (olds : List IndexingAgreement)
    (tr : List (Action World Op)) (left : List IndexingAgreement) : Prop where
  added : (attempts tr).map (·.1) = indexers
  replaced : (attempts tr).filterMap (·.2) = (olds.take indexers.length).map (·.id)
  quiet : handedOver tr = []
  rest : left = olds.drop indexers.length

theorem Pairs.cons {indexer : IndexerId} {rest : List IndexerId} {olds left : List IndexingAgreement}
    {tr1 tr2 : List (Action World Op)}
    (h1 : attempts tr1 = [(indexer, olds.head?.map (·.id))] ∧ handedOver tr1 = [])
    (h2 : Pairs rest olds.tail tr2 left) : Pairs (indexer :: rest) olds (tr1 ++ tr2) left := by
  refine ⟨?_, ?_, ?_, ?_⟩
  · rw [attempts_append, h1.1, List.map_append, h2.added]
    rfl
  · rw [attempts_append, h1.1, List.filterMap_append, h2.replaced]
    cases olds with
    | nil => simp
    | cons old olds => simp
  · rw [handedOver_append, h1.2, h2.quiet]
    rfl
  · rw [h2.rest]
    cases olds with
    | nil => simp
    | cons old olds => simp

theorem did_addEach {indexers : List IndexerId} {olds : List IndexingAgreement}
    {r : List IndexerId × List IndexingAgreement}
    (h : Did (addEach config request b now indexers olds) w tr r w') :
    Pairs indexers olds tr r.2 := by
  induction indexers generalizing olds w w' tr r with
  | nil =>
    obtain ⟨rfl, rfl⟩ := did_pure h
    exact ⟨rfl, rfl, rfl, rfl⟩
  | cons indexer rest ih =>
    obtain ⟨registered, tr1, tr2, w1, h1, h2, rfl⟩ := did_bind h
    have hFirst := did_registerNew h1
    cases registered with
    | error e => exact .cons hFirst (ih h2)
    | ok id =>
      obtain ⟨pushed, tr3, tr4, w2, h3, h4, rfl⟩ := did_bind h2
      obtain ⟨w3, w4, -, rfl⟩ := did_call h3
      -- The push adds nothing to what the registration did.
      have hPushed : attempts (tr1 ++ [⟨w3, .push (.sendIndexingAgreementProposal id request), w4⟩]) =
            [(indexer, olds.head?.map (·.id))] ∧
          handedOver (tr1 ++ [⟨w3, .push (.sendIndexingAgreementProposal id request), w4⟩]) =
            [] := by
        rw [attempts_append, handedOver_append, hFirst.1, hFirst.2]
        exact ⟨rfl, rfl⟩
      rw [← List.append_assoc]
      cases pushed with
      | error e => exact .cons hPushed (ih h4)
      | ok _ =>
        obtain ⟨x, tr5, tr6, w5, h5, h6, rfl⟩ := did_bind h4
        obtain ⟨hReturned, rfl⟩ := did_pure h6
        have hRest := ih h5
        rw [List.append_nil, hReturned]
        exact .cons hPushed hRest

theorem did_cancelUnpaired {agreement : IndexingAgreement}
    (h : Did (cancelUnpaired config agreement) w tr () w') :
    attempts tr = [] ∧ ∀ id, id ∈ handedOver tr ↔ id = agreement.id := by
  have hOps := Prog.Runs.onlyOps cancels_cancelUnpaired h
  refine ⟨attempts_eq_nil fun e he => (hOps e he).registers, fun id => ⟨fun hMem => ?_, ?_⟩⟩
  · obtain ⟨e, he, hEq⟩ := List.mem_filterMap.mp hMem
    have hOp := hOps e he
    split at hEq
    · rename_i hUpdate
      rw [hUpdate] at hOp
      exact (Option.some.inj hEq).symm.trans hOp
    · rename_i hUpdate
      rw [hUpdate] at hOp
      exact (Option.some.inj hEq).symm.trans hOp
    · cases hEq
  · rintro rfl
    -- Whichever way it goes, it marks the agreement first.
    unfold cancelUnpaired at h
    dsimp only at h
    split at h
    · obtain ⟨_, tr1, tr2, _, h1, -, rfl⟩ := did_bind h
      obtain ⟨_, _, -, rfl⟩ := did_call h1
      exact List.mem_cons_self
    · obtain ⟨_, tr1, tr2, _, h1, -, rfl⟩ := did_bind h
      obtain ⟨_, tr3, tr4, _, h3, -, rfl⟩ := did_bind h1
      obtain ⟨_, _, -, rfl⟩ := did_call h3
      exact List.mem_cons_self

theorem did_cancelEach {left : List IndexingAgreement}
    (h : Did (Prog.forEach left (cancelUnpaired config)) w tr () w') :
    attempts tr = [] ∧ ∀ id, id ∈ handedOver tr ↔ id ∈ left.map (·.id) := by
  induction left generalizing w tr with
  | nil =>
    obtain ⟨-, rfl⟩ := did_pure h
    exact ⟨rfl, fun id => Iff.rfl⟩
  | cons agreement rest ih =>
    obtain ⟨_, tr1, tr2, w1, h1, h2, rfl⟩ := did_bind h
    obtain ⟨hNone1, hHanded1⟩ := did_cancelUnpaired h1
    obtain ⟨hNone2, hHanded2⟩ := ih h2
    refine ⟨by rw [attempts_append, hNone1, hNone2]; rfl, fun id => ?_⟩
    rw [handedOver_append, List.mem_append, hHanded1, hHanded2, List.map_cons, List.mem_cons]

/-- What a pass that has made its diff and knows the time does, in the order `order` of its
additions. -/
structure CarriedOut (config : Config) (request : IndexingRequestId) (b : Baseline)
    (picks : List SelectedIndexer) (tr : List (Action World Op)) (result : Except JobError Unit)
    (order : List IndexerId) : Prop where
  any : order.Perm (admitted config b picks)
  added : (attempts tr).map (·.1) = order
  paired : (attempts tr).filterMap (·.2) =
    ((((dropped b picks).take ((dropped b picks).length - heldBack config b picks)).take
      order.length)).map (·.id)
  cancelled : ∀ id, id ∈ handedOver tr ↔
    id ∈ (((dropped b picks).take ((dropped b picks).length - heldBack config b picks)).drop
      order.length).map (·.id)
  returned : result = if (planAdditions config b (computeDiff b picks) (dropped b picks).length).2.1 > 0
    then .error (.deferred (pacingDeferDelay request)) else .ok ()

/-- What the clock of the deadline fails with. -/
def clockFailed : Except JobError Unit := .error (.retryable (Duration.fromSecs 5))

theorem did_resolveDeadlineClock {err : JobError}
    (h : Did (resolveDeadlineClock config) w tr (.error err) w') :
    err = .retryable (Duration.fromSecs 5) := by
  have hNow : ∀ {w w' : World} {tr : List (Action World Op)},
      ¬ Did (nowSecs >>= fun now => pure (.ok now)) w tr
        (.error err : Except JobError Nat) w' := by
    intro w w' tr h
    obtain ⟨_, _, _, _, -, h2, -⟩ := did_bind h
    exact nomatch (did_pure h2).1
  unfold resolveDeadlineClock at h
  split at h
  · exact absurd h hNow
  · obtain ⟨latest, _, _, _, -, h, -⟩ := did_bind h
    cases latest with
    | ok ts => exact nomatch (did_pure h).1
    | error e =>
      dsimp only at h
      split at h
      · exact absurd h hNow
      · obtain ⟨state, _, _, _, -, h, -⟩ := did_bind h
        match state with
        | .ok (some (_, some ts)) => exact nomatch (did_pure h).1
        | .ok none => exact absurd h hNow
        | .ok (some (_, none)) => exact absurd h hNow
        | .error e => exact Except.error.inj (did_pure h).1

theorem did_carryOut {picks : List SelectedIndexer} {result : Except JobError Unit}
    (h : Did (carryOut config request b (computeDiff b picks)) w tr result w')
    (hClock : result ≠ clockFailed) : ∃ order, CarriedOut config request b picks tr result order := by
  unfold carryOut at h
  dsimp only at h
  rw [filter_toCancel] at h
  obtain ⟨clock, tr1, tr2, w1, h1, h2, rfl⟩ := did_bind h
  obtain ⟨hNone1, hQuiet1⟩ := quiet_of_asks asks_resolveDeadlineClock h1
  cases clock with
  | error err =>
    obtain rfl := did_resolveDeadlineClock h1
    exact absurd (did_pure h2).1 hClock
  | ok now =>
    obtain ⟨order, tr3, tr4, w2, h3, h4, rfl⟩ := did_bind h2
    obtain ⟨w3, w4, ⟨choice, -, hIterate⟩, rfl⟩ := did_call h3
    obtain ⟨r, tr5, tr6, w5, h5, h6, rfl⟩ := did_bind h4
    have hPairs := did_addEach h5
    obtain ⟨_, tr7, tr8, w6, h7, h8, rfl⟩ := did_bind h6
    obtain ⟨hNone7, hQuiet7⟩ := quiet_of_asks asks_announceProposed h7
    obtain ⟨_, tr9, tr10, w7, h9, h10, rfl⟩ := did_bind h8
    obtain ⟨hNone9, hHanded⟩ := did_cancelEach h9
    have hEnd : tr10 = [] ∧ result =
        if (planAdditions config b (computeDiff b picks) (dropped b picks).length).2.1 > 0
        then .error (.deferred (pacingDeferDelay request)) else .ok () := by
      split at h10
      · rename_i hWithheld
        obtain ⟨hResult, hNil⟩ := did_pure h10
        rw [if_pos hWithheld]
        exact ⟨hNil, hResult⟩
      · rename_i hWithheld
        obtain ⟨hResult, hNil⟩ := did_pure h10
        rw [if_neg hWithheld]
        exact ⟨hNil, hResult⟩
    obtain ⟨rfl, hResult⟩ := hEnd
    have hAttempts : attempts (tr1 ++ ([⟨w3, .iterate (admitted config b picks), w4⟩] ++
        (tr5 ++ (tr7 ++ (tr9 ++ []))))) = attempts tr5 := by
      simp only [attempts_append, hNone1, hNone7, hNone9]
      simp [attempts]
    have hHandedOver : handedOver (tr1 ++ ([⟨w3, .iterate (admitted config b picks), w4⟩] ++
        (tr5 ++ (tr7 ++ (tr9 ++ []))))) = handedOver tr9 := by
      simp only [handedOver_append, hQuiet1, hQuiet7, hPairs.quiet]
      simp [handedOver]
    refine ⟨order, exec_iterate hIterate, ?_, ?_, fun id => ?_, hResult⟩
    · rw [hAttempts, hPairs.added]
    · rw [hAttempts, hPairs.replaced]
    · rw [hHandedOver, hHanded, hPairs.rest]

/-- A pass that got past the diff: it read `b`, IISA answered `picks`, and it acted on the diff of
the two. -/
inductive PastDiff (config : Config) (request : IndexingRequestId) (b : Baseline)
    (picks : List SelectedIndexer) :
    World → List (Action World Op) → Except JobError Unit → World → Prop
  | mk {w w1 w2 w' : World} {tr1 tr2 tr3 : List (Action World Op)}
      {result : Except JobError Unit} :
      Did (readBaseline request) w tr1 (.ok (some b)) w1 →
      shouldDeferSaturated b.inFlight.length config.maxInFlightOffersTotal
        (b.numCandidates - b.held.length) b.active.length = false →
      Did (selectTarget request b.numCandidates) w1 tr2 (.ok picks) w2 →
      Did (actOnDiff config request b picks) w2 tr3 result w' →
      PastDiff config request b picks w (tr1 ++ (tr2 ++ tr3)) result w'

/-- A pass that stopped before the diff: what it needs could not be read, there is no such request,
the request has to wait, or IISA did not answer. -/
inductive StopsEarly (config : Config) (request : IndexingRequestId) (w : World) :
    List (Action World Op) → Except JobError Unit → Prop
  | unread {w' : World} {tr : List (Action World Op)} {err : JobError} :
      Did (readBaseline request) w tr (.error err) w' → StopsEarly config request w tr (.error err)
  | unknown {w' : World} {tr : List (Action World Op)} :
      Did (readBaseline request) w tr (.ok none) w' → StopsEarly config request w tr (.ok ())
  | saturated {w' : World} {tr : List (Action World Op)} {b : Baseline} :
      Did (readBaseline request) w tr (.ok (some b)) w' →
      shouldDeferSaturated b.inFlight.length config.maxInFlightOffersTotal
        (b.numCandidates - b.held.length) b.active.length = true →
      StopsEarly config request w tr (.error (.deferred (pacingDeferDelay request)))
  | unanswered {w1 w' : World} {tr1 tr2 : List (Action World Op)} {b : Baseline}
      {err : JobError} :
      Did (readBaseline request) w tr1 (.ok (some b)) w1 →
      Did (selectTarget request b.numCandidates) w1 tr2 (.error err) w' →
      StopsEarly config request w (tr1 ++ tr2) (.error err)

/-- A pass stops before the diff or gets past it. -/
theorem did_handle {result : Except JobError Unit}
    (h : Did (handle config request) w tr result w') :
    StopsEarly config request w tr result ∨
      ∃ b picks, PastDiff config request b picks w tr result w' := by
  obtain ⟨r, tr1, tr2, w1, hRead, h, rfl⟩ := did_bind h
  match r with
  | .error err =>
    obtain ⟨rfl, rfl⟩ := did_pure h
    rw [List.append_nil]
    exact .inl (.unread hRead)
  | .ok none =>
    obtain ⟨rfl, rfl⟩ := did_pure h
    rw [List.append_nil]
    exact .inl (.unknown hRead)
  | .ok (some b) =>
    dsimp only at h
    split at h
    · rename_i hWaits
      obtain ⟨rfl, rfl⟩ := did_pure h
      rw [List.append_nil]
      exact .inl (.saturated hRead hWaits)
    · rename_i hRoom
      obtain ⟨r, tr3, tr4, w2, hSelect, h, rfl⟩ := did_bind h
      cases r with
      | error err =>
        obtain ⟨rfl, rfl⟩ := did_pure h
        rw [List.append_nil]
        exact .inl (.unanswered hRead hSelect)
      | ok picks =>
        exact .inr ⟨b, picks, .mk hRead (Bool.eq_false_iff.mpr hRoom) hSelect h⟩

theorem PastDiff.did {picks : List SelectedIndexer} {result : Except JobError Unit}
    (h : PastDiff config request b picks w tr result w') :
    Did (handle config request) w tr result w' := by
  obtain ⟨hRead, hRoom, hSelect, hAct⟩ := h
  refine hRead.bind (fun _ _ _ _ _ => trivial) ?_
  dsimp only
  rw [hRoom, if_neg Bool.false_ne_true]
  exact hSelect.bind (fun _ _ _ _ _ => trivial) hAct

theorem did_actOnDiff {picks : List SelectedIndexer} {result : Except JobError Unit}
    (h : Did (actOnDiff config request b picks) w tr result w') (hClock : result ≠ clockFailed) :
    ∃ order, CarriedOut config request b picks tr result order := by
  obtain ⟨_, tr1, tr2, w1, h1, h2, rfl⟩ := did_bind h
  obtain ⟨hNone1, hQuiet1⟩ := quiet_of_asks asks_signalShortfall h1
  split at h2
  · -- With nothing to add and nothing to cancel the pass is over.
    rename_i hNothing
    simp only [Bool.and_eq_true, List.isEmpty_iff] at hNothing
    obtain ⟨hResult, rfl⟩ := did_pure h2
    have hDropped : dropped b picks = [] := by
      rw [← filter_toCancel, hNothing.1]
      simp
    have hPlan : planAdditions config b (computeDiff b picks) 0 = ([], 0, 0) := by
      simp [planAdditions, hNothing.2, reservedCancelCount]
    refine ⟨[], ?_, ?_, ?_, fun id => ?_, ?_⟩
    · simp [admitted, hDropped, hPlan]
    · simp [hNone1]
    · simp [hNone1]
    · simp [hQuiet1, hDropped]
    · simp [hDropped, hPlan, hResult]
  · obtain ⟨order, hDone⟩ := did_carryOut h2 hClock
    refine ⟨order, hDone.any, ?_, ?_, fun id => ?_, hDone.returned⟩
    · rw [attempts_append, hNone1, List.nil_append]
      exact hDone.added
    · rw [attempts_append, hNone1, List.nil_append]
      exact hDone.paired
    · rw [handedOver_append, hQuiet1, List.nil_append]
      exact hDone.cancelled id

theorem PastDiff.carriedOut {picks : List SelectedIndexer} {result : Except JobError Unit}
    (h : PastDiff config request b picks w tr result w') (hClock : result ≠ clockFailed) :
    ∃ order, CarriedOut config request b picks tr result order := by
  obtain ⟨hRead, -, hSelect, hAct⟩ := h
  obtain ⟨hNone1, hQuiet1⟩ := quiet_of_asks asks_readBaseline hRead
  obtain ⟨hNone2, hQuiet2⟩ := quiet_of_asks asks_selectTarget hSelect
  obtain ⟨order, hDone⟩ := did_actOnDiff hAct hClock
  refine ⟨order, hDone.any, ?_, ?_, fun id => ?_, hDone.returned⟩
  · rw [attempts_append, attempts_append, hNone1, hNone2, List.nil_append, List.nil_append]
    exact hDone.added
  · rw [attempts_append, attempts_append, hNone1, hNone2, List.nil_append, List.nil_append]
    exact hDone.paired
  · rw [handedOver_append, handedOver_append, hQuiet1, hQuiet2, List.nil_append, List.nil_append]
    exact hDone.cancelled id

theorem did_listAgreements {q : AgreementQuery} {listed : List IndexingAgreement}
    (h : Did (Registry.listAgreements q) w tr (.ok listed) w') :
    (listed.map (·.id)).Nodup := by
  obtain ⟨rows, tr1, tr2, w1, h1, h2, rfl⟩ := did_bind h
  obtain ⟨w2, w3, ⟨choice, -, hExec⟩, -⟩ := did_call h1
  cases rows with
  | error e => exact nomatch (did_pure h2).1
  | ok rows =>
    obtain rfl := Except.ok.inj (did_pure h2).1
    rw [Registry.agreements, List.map_map]
    exact exec_select_nodup hExec

theorem nodup_active (h : Did (readBaseline request) w tr (.ok (some b)) w') :
    (b.active.map (·.id)).Nodup := by
  obtain ⟨stored, tr1, tr2, w1, -, h, -⟩ := did_bind h
  match stored with
  | .error e => exact nomatch (did_pure h).1
  | .ok none => exact nomatch (did_pure h).1
  | .ok (some stored) =>
    obtain ⟨active, tr3, tr4, w2, hActive, h, -⟩ := did_bind h
    cases active with
    | error e => exact nomatch (did_pure h).1
    | ok active =>
      obtain ⟨holding, tr5, tr6, w3, -, h, -⟩ := did_bind h
      cases holding with
      | error e => exact nomatch (did_pure h).1
      | ok holding =>
        obtain ⟨inFlight, tr7, tr8, w4, -, h, -⟩ := did_bind h
        cases inFlight with
        | error e => exact nomatch (did_pure h).1
        | ok inFlight =>
          obtain rfl := Option.some.inj (Except.ok.inj (did_pure h).1)
          exact did_listAgreements hActive

end Walk

section Results

variable {config : Config} {request : IndexingRequestId} {b : Baseline}
  {picks : List SelectedIndexer} {w w' : World} {tr : List (Action World Op)}
  {result : Except JobError Unit}

/-- The subtractions of a pass, in the order it makes them. -/
structure NoUnderflow (config : Config) (b : Baseline) (picks : List SelectedIndexer) : Prop where
  offerable : (computeDiff b picks).unofferable ≤ picks.length
  withheld : (admitted config b picks).length ≤ (computeDiff b picks).toAdd.length
  reserved : min (dropped b picks).length (admitted config b picks).length ≤
    min (dropped b picks).length (wanting b picks).card
  truncated : heldBack config b picks ≤ (dropped b picks).length

theorem noUnderflow (config : Config) (b : Baseline) (picks : List SelectedIndexer) :
    NoUnderflow config b picks := by
  have hAdded := length_admitted_le config b picks
  have hWanting := length_toAdd_le b picks
  refine ⟨unofferable_le b picks, hAdded, ?_, ?_⟩
  · omega
  · rw [heldBack_eq, reservedCancelCount]
    omega

/-- A pass that stops before the diff aside, the old agreements are replaced, cancelled or held back,
in this order, and those cancelled are as many as there are more olds than picks wanting an
agreement. -/
theorem pass_removes_only_surplus (h : Did (handle config request) w tr result w')
    (hClock : result ≠ clockFailed) :
    (StopsEarly config request w tr result ∨
      ∃ b picks, PastDiff config request b picks w tr result w') ∧
    ∀ b picks, PastDiff config request b picks w tr result w' →
      NoUnderflow config b picks ∧ ((dropped b picks).map (·.id)).Nodup ∧
      ∃ paired direct reserved, dropped b picks = paired ++ direct ++ reserved ∧
        (attempts tr).filterMap (·.2) = paired.map (·.id) ∧
        (∀ id, id ∈ handedOver tr ↔ id ∈ direct.map (·.id)) ∧
        reserved.length = heldBack config b picks ∧
        direct.length = (dropped b picks).length - (wanting b picks).card := by
  refine ⟨did_handle h, fun b picks hPast => ?_⟩
  have hBounds := noUnderflow config b picks
  have hNodup : ((dropped b picks).map (·.id)).Nodup := by
    obtain ⟨hRead, -, -, -⟩ := hPast
    exact (nodup_active hRead).sublist (List.filter_sublist.map _)
  obtain ⟨order, hDone⟩ := hPast.carriedOut hClock
  have hOrder : order.length = (admitted config b picks).length := hDone.any.length_eq
  have hAdded := length_admitted_le config b picks
  have hWanting := length_toAdd_le b picks
  have hHeld := heldBack_eq config b picks
  rw [reservedCancelCount] at hHeld
  refine ⟨hBounds, hNodup, _, _, (dropped b picks).drop ((dropped b picks).length -
    heldBack config b picks), ?_, hDone.paired, hDone.cancelled, ?_, ?_⟩
  · rw [List.take_append_drop, List.take_append_drop]
  · have hTruncated := hBounds.truncated
    rw [List.length_drop]
    omega
  · rw [List.length_drop, List.length_take]
    omega

theorem did_play {α : Type} {p : Act α} {w : World} {choices : List Choice} {a : α}
    (h : (p.play World.exec w choices).2.1 = some a) :
    Did p w (p.play World.exec w choices).1 a (p.play World.exec w choices).2.2 := by
  have hRuns : p.Runs (World.Performs fun _ _ _ => True) (fun _ _ => True) w
      (p.play World.exec w choices).1 (p.play World.exec w choices).2.1
      (p.play World.exec w choices).2.2 :=
    Prog.runs_play (fun _ => trivial) (fun _ _ c _ _ hExec => ⟨c, trivial, hExec⟩) p w choices
  rw [h] at hRuns
  exact hRuns

def surplusWorld : World :=
  ((World.fresh 5 5 sampleRequests).setRow 11 { sampleAgreement with indexerId := 2 }).setRow 12
    { sampleAgreement with indexerId := 3 }

def surplusBaseline : Baseline where
  numCandidates := 1
  deploymentId := "Qm"
  active := [AgreementRow.agreement 11 { sampleAgreement with indexerId := 2 },
    AgreementRow.agreement 12 { sampleAgreement with indexerId := 3 }]
  held := []
  inFlight := [2, 3]

def readSurplus : List (Action World Op) × Option (Except JobError (Option Baseline)) × World :=
  (readBaseline 1).play World.exec surplusWorld [.ok, .rows [11, 12], .rows [], .rows [11, 12]]

def selectOne : List (Action World Op) × Option (Except JobError (List SelectedIndexer)) × World :=
  (selectTarget 1 1).play World.exec readSurplus.2.2 [.ok, .selected (.ok [⟨1, true⟩])]

def passForOne (config : Config) (choices : List Choice) :
    List (Action World Op) × Option (Except JobError Unit) × World :=
  (actOnDiff config 1 surplusBaseline [⟨1, true⟩]).play World.exec selectOne.2.2 choices

theorem pastDiff_passForOne {config : Config} {choices : List Choice}
    {result : Except JobError Unit}
    (hRoom : shouldDeferSaturated 2 config.maxInFlightOffersTotal 1 2 = false)
    (h : (passForOne config choices).2.1 = some result) :
    ∃ tr w', PastDiff config 1 surplusBaseline [⟨1, true⟩] surplusWorld tr result w' := by
  have hRead : readSurplus.2.1 = some (.ok (some surplusBaseline)) := by decide +kernel
  have hSelect : selectOne.2.1 = some (.ok [⟨1, true⟩]) := by decide +kernel
  exact ⟨_, _, .mk (did_play hRead) hRoom (did_play hSelect) (did_play h)⟩

/-- One of the two olds is replaced, and the other is cancelled. -/
theorem surplus_of_two_olds : ∃ tr w' paired direct reserved,
    Did (handle sampleConfig 1) surplusWorld tr (.ok ()) w' ∧
      PastDiff sampleConfig 1 surplusBaseline [⟨1, true⟩] surplusWorld tr (.ok ()) w' ∧
      dropped surplusBaseline [⟨1, true⟩] = paired ++ direct ++ reserved ∧
      (attempts tr).filterMap (·.2) = paired.map (·.id) ∧ direct.length = 2 - 1 := by
  have hRun : (passForOne sampleConfig [.ok, .ok, .order [1], .fresh 10 (List.replicate 32 0),
      .ok, .ok, .ok, .ok, .ok]).2.1 = some (.ok ()) := by decide +kernel
  obtain ⟨tr, w', hPass⟩ := pastDiff_passForOne rfl hRun
  obtain ⟨-, -, paired, direct, reserved, hOlds, hPaired, -, -, hDirect⟩ :=
    (pass_removes_only_surplus hPass.did nofun).2 _ _ hPass
  exact ⟨tr, w', paired, direct, reserved, hPass.did, hPass, hOlds, hPaired, hDirect⟩

/-- A pass that stops before the diff aside, its additions are offerable picks within the room and
fit beside the agreements kept and the held slots, and each of those picks that was withheld is one
a cap has no place for; the pass is put off where there are any. -/
theorem additions_fill_the_room (h : Did (handle config request) w tr result w')
    (hClock : result ≠ clockFailed) :
    (StopsEarly config request w tr result ∨
      ∃ b picks, PastDiff config request b picks w tr result w') ∧
    ∀ b picks, PastDiff config request b picks w tr result w' →
      let added := (attempts tr).map (·.1)
      added.Nodup ∧ (∀ i ∈ added, WithinRoom b picks i) ∧
      (∀ i ∈ added, i ∉ b.active.map (·.indexerId) ∧ i ∉ b.held) ∧
      (retained b picks).card + b.held.length + added.length ≤
        max b.numCandidates ((retained b picks).card + b.held.length) ∧
      ∃ withheld : List IndexerId, withheld.Nodup ∧
        (∀ i, i ∈ withheld ↔ WithinRoom b picks i ∧ i ∉ added) ∧
        (∀ i ∈ withheld, Full config.maxInFlightOffersPerIndexer config.maxInFlightOffersTotal
          b.inFlight added i) ∧
        (planAdditions config b (computeDiff b picks) (dropped b picks).length).2.1 =
          withheld.length ∧
        (result = .error (.deferred (pacingDeferDelay request)) ↔ withheld ≠ []) := by
  refine ⟨did_handle h, fun b picks hPast => ?_⟩
  obtain ⟨order, hDone⟩ := hPast.carriedOut hClock
  have hSubset : ∀ i ∈ order, i ∈ (computeDiff b picks).toAdd := fun i hi =>
    (planAdditions_spec config b (computeDiff b picks) (dropped b picks).length).2.1.subset
      (hDone.any.mem_iff.mp hi)
  have hSame : (computeDiff b picks).toAdd.filter (· ∉ order) =
      (computeDiff b picks).toAdd.filter (· ∉ admitted config b picks) :=
    List.filter_congr fun i _ => decide_eq_decide.mpr (not_congr hDone.any.mem_iff)
  have hCount := withheld_eq config b picks
  rw [← hSame] at hCount
  simp only [hDone.added]
  refine ⟨?_, fun i hi => (mem_toAdd b picks i).mp (hSubset i hi),
    fun i hi => ((mem_toAdd b picks i).mp (hSubset i hi)).1.2, ?_,
    (computeDiff b picks).toAdd.filter (· ∉ order), (nodup_toAdd b picks).filter _, fun i => ?_,
    fun i hi => ?_, hCount, ?_⟩
  · exact hDone.any.nodup_iff.mpr (nodup_admitted config b picks)
  · have hRoom := length_toAdd_le_room b picks
    have hAdded := length_admitted_le config b picks
    rw [room] at hRoom
    rw [hDone.any.length_eq]
    omega
  · rw [List.mem_filter, mem_toAdd, decide_eq_true_eq]
  · obtain ⟨hAdd, hOut⟩ := List.mem_filter.mp hi
    have hNot : i ∉ admitted config b picks := fun hMem =>
      of_decide_eq_true hOut (hDone.any.mem_iff.mpr hMem)
    have hFull := (planAdditions_spec config b (computeDiff b picks) (dropped b picks).length).2.2 i
      hAdd hNot
    exact hFull.perm hDone.any.symm
  · rw [hDone.returned, hCount, ← List.length_pos_iff]
    constructor
    · intro hDeferred
      by_contra hNone
      rw [if_neg hNone] at hDeferred
      cases hDeferred
    · intro hSome
      exact if_pos hSome

def oneInFlight : Config := { sampleConfig with maxInFlightOffersTotal := some 1 }

/-- With one offer allowed in flight and two there, the pick is withheld and the pass put off. -/
theorem addition_withheld_at_cap : ∃ tr w' i,
    Did (handle oneInFlight 1) surplusWorld tr (.error (.deferred (pacingDeferDelay 1))) w' ∧
    PastDiff oneInFlight 1 surplusBaseline [⟨1, true⟩] surplusWorld tr
      (.error (.deferred (pacingDeferDelay 1))) w' ∧
    WithinRoom surplusBaseline [⟨1, true⟩] i ∧ i ∉ (attempts tr).map (·.1) ∧
    Full oneInFlight.maxInFlightOffersPerIndexer oneInFlight.maxInFlightOffersTotal
      surplusBaseline.inFlight ((attempts tr).map (·.1)) i := by
  have hRun : (passForOne oneInFlight [.ok, .ok, .order [], .ok, .ok]).2.1 =
      some (.error (.deferred (pacingDeferDelay 1))) := by decide +kernel
  obtain ⟨tr, w', hPass⟩ := pastDiff_passForOne rfl hRun
  obtain ⟨-, -, -, -, withheld, -, hMem, hFull, -, hDeferred⟩ :=
    (additions_fill_the_room hPass.did nofun).2 _ _ hPass
  obtain ⟨i, hi⟩ := List.exists_mem_of_ne_nil withheld (hDeferred.mp rfl)
  exact ⟨tr, w', i, hPass.did, hPass, ((hMem i).mp hi).1, ((hMem i).mp hi).2, hFull i hi⟩

end Results

end Reassess

end Dipper
