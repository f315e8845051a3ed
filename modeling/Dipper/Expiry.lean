import Dipper.Consistency.Runs

/-! Expiry: with a subgraph that tells every accept up to its head, an agreement is marked expired
only when it can no longer be accepted, as long as the chain's time is persisted only after what the
subgraph shows has been applied. -/

namespace Dipper

open World

variable {config : Config} {w w' : World} {id : IndexingAgreementId} {o : Op} {t : Tag}
  {choice : Choice}

/-- The subgraph shows every agreement of the registry that was accepted before time `head`. -/
def World.ToldBefore (w : World) (head : Nat) (indexed : Indexed) : Prop :=
  ∀ id ∈ w.agreements.keys, ∀ at' ∈ (w.chain id).acceptedAt, at' < head →
    (indexed.chain id).WasAccepted ∧ ∃ s ∈ indexed.graph.rows, s.agreementId = id

instance (w : World) (head : Nat) (indexed : Indexed) : Decidable (w.ToldBefore head indexed) :=
  List.decidableBAll _ _

/-- A page with the time of its head comes from a subgraph that has indexed the chain up to then. -/
def ToldByHead (w : World) (_ : Tag) (o : Op) (choice : Choice) : Prop :=
  match o, choice with
  | .getChanged _ pinned, .page r => ∀ head ∈ r.blockTimestamp,
      head ≤ w.chainTime ∧ w.ToldBefore head (w.pin pinned).pinned
  | _, _ => True

instance (w : World) (t : Tag) (o : Op) (choice : Choice) :
    Decidable (ToldByHead w t o choice) := by
  induction o using Op.casesOn with
  | getChanged since pinned =>
    induction choice using Choice.casesOn with
    | page r =>
      exact inferInstanceAs (Decidable (∀ head ∈ r.blockTimestamp,
        head ≤ w.chainTime ∧ w.ToldBefore head (w.pin pinned).pinned))
    | _ => exact isTrue trivial
  | _ => exact isTrue trivial

/-- The chain's time is persisted only once every accept that the pinned chain shows has been
applied, and no deadline is too large for a `BIGINT`. -/
def PersistsApplied (w : World) (o : Op) : Prop :=
  match o with
  | .updateListenerState _ _ => ∀ id ∈ w.agreements.keys, (w.pinned.chain id).WasAccepted →
      ∀ row ∈ w.row id, row.status ≠ .created
  | .register params _ => params.terms.deadline < 2 ^ 63
  | _ => True

instance (w : World) (o : Op) : Decidable (PersistsApplied w o) := by
  unfold PersistsApplied
  split
  · exact List.decidableBAll _ _
  · infer_instance
  · infer_instance

def ExpiresApplied (w : World) (t : Tag) (o : Op) (choice : Choice) : Prop :=
  ToldByHead w t o choice ∧ PersistsApplied w o

instance (w : World) (t : Tag) (o : Op) (choice : Choice) :
    Decidable (ExpiresApplied w t o choice) := by
  unfold ExpiresApplied
  infer_instance

theorem World.mem_keys {row : AgreementRow} (hRow : w.row id = some row) :
    id ∈ w.agreements.keys := by
  rw [← AList.mem_keys, ← AList.lookup_isSome, show w.agreements.lookup id = some row from hRow]
  rfl

namespace OnChain

theorem acceptedAt_offer {deadline : Nat} {c : OnChain} :
    (c.offer deadline).acceptedAt = c.acceptedAt := by
  cases c <;> rfl

theorem acceptedAt_cancel {time : Nat} {c : OnChain} :
    (c.cancel time).acceptedAt = c.acceptedAt := by
  cases c <;> rfl

theorem acceptedAt_accept {time : Nat} {c c' : OnChain} (h : c.accept time = some c') :
    c'.acceptedAt = some time ∧ ∃ deadline, c = .offered deadline ∧ time ≤ deadline := by
  cases c <;> simp only [accept, reduceCtorEq, Option.ite_none_right_eq_some,
    Option.some.injEq] at h
  obtain ⟨hTime, rfl⟩ := h
  exact ⟨rfl, _, rfl, hTime⟩

theorem acceptedAt_finish {time : Nat} {by' : EndedBy} {c c' : OnChain}
    (h : c.finish time by' = some c') : c'.acceptedAt = c.acceptedAt := by
  cases c <;> simp only [finish, reduceCtorEq, Option.some.injEq] at h
  subst h
  rfl

theorem exists_acceptedAt {c : OnChain} (h : c.WasAccepted) : ∃ at', c.acceptedAt = some at' := by
  cases c <;> first | exact h.elim | exact ⟨_, rfl⟩

end OnChain

namespace World

theorem acceptedAt_of_performed (h : Performed config t w o w') (id : IndexingAgreementId) :
    (w'.chain id).acceptedAt = (w.chain id).acceptedAt := by
  rcases h.effect.changes.chain id with hEq | ⟨deadline, -, hEq⟩ | ⟨hash, -, hEq⟩ <;> rw [hEq]
  · exact OnChain.acceptedAt_offer
  · exact OnChain.acceptedAt_cancel

theorem Consistent.row_before (hw : w.Consistent) (hPerformed : Performed config t w o w')
    {row' : AgreementRow} {at' : Nat} (hRow' : w'.row id = some row')
    (hAt : (w.chain id).acceptedAt = some at') :
    ∃ row, w.row id = some row ∧ RowGrows row row' := by
  rcases hPerformed.row_cases hRow' with hOld | ⟨hNone, -⟩
  · exact hOld
  · obtain ⟨row, hRow⟩ := hw.row_of_accepted (OnChain.wasAccepted_of_acceptedAt hAt)
    rw [hNone] at hRow
    cases hRow

/-- What the heads and the persisted times say of the accepts before them, and what an accept and
an expiry say of the deadline. -/
structure SoundClocks (w : World) : Prop where
  accepts : ∀ id row at', w.row id = some row → (w.chain id).acceptedAt = some at' →
    at' ≤ row.terms.deadline
  heads : ∀ head ∈ w.heads, head ≤ w.chainTime ∧ ∀ id at',
    (w.chain id).acceptedAt = some at' → at' < head → (w.pinned.chain id).WasAccepted
  clocks : ∀ ts ∈ w.clocks, ts ≤ w.chainTime ∧ ∀ id row at', w.row id = some row →
    (w.chain id).acceptedAt = some at' → at' < ts → row.status ≠ .created
  expired : ∀ id row, w.row id = some row → row.status = .expired → w.Lapsed id

/-- A row that its deadline lets expire was never accepted, and no longer can be. -/
theorem SoundClocks.lapsed (h : w.SoundClocks) {row : AgreementRow} (hRow : w.row id = some row)
    (hCreated : row.status = .created)
    (hPre : UpdatePre config t w id row .markAsExpired) : w.Lapsed id := by
  obtain ⟨ts, hTs, hPast⟩ := hPre
  obtain ⟨hTime, hApplied⟩ := h.clocks ts hTs
  have hDeadline : row.terms.deadline < ts := by
    have hClock := asI64_le (ts - config.expirationGraceSecs)
    omega
  refine ⟨fun hAccepted => ?_, row, hRow, by omega⟩
  obtain ⟨at', hAt⟩ := OnChain.exists_acceptedAt hAccepted
  have hBefore := h.accepts id row at' hRow hAt
  exact hApplied id row at' hRow hAt (by omega) hCreated

section Step

variable (h : w.SoundClocks) (hw : w.Consistent)
include h hw

theorem SoundClocks.heads_step {r : Res o} (hAllow : ExpiresApplied w t o choice)
    (hExec : w.exec o choice = some (r, w')) (hPerformed : Performed config t w o w')
    {head : Nat} (hHead : head ∈ w'.heads) : head ≤ w'.chainTime ∧ ∀ id at',
      (w'.chain id).acceptedAt = some at' → at' < head → (w'.pinned.chain id).WasAccepted := by
  have hOld : head ∈ w.heads → head ≤ w'.chainTime ∧ ∀ id at',
      (w'.chain id).acceptedAt = some at' → at' < head → (w'.pinned.chain id).WasAccepted := by
    intro hHead
    obtain ⟨hTime, hTold⟩ := h.heads head hHead
    refine ⟨hPerformed.effect.changes.chainTime ▸ hTime, fun id at' hAt hBefore => ?_⟩
    rw [acceptedAt_of_performed hPerformed] at hAt
    exact (hPerformed.pinned hw id).accepted (hTold id at' hAt hBefore)
  rcases hPerformed.effect.changes.answer with ⟨-, hEq⟩ | ⟨since, pinned, -, rfl, -, -⟩
  · exact hOld (hEq ▸ hHead)
  · rcases exec_getChanged_cases hExec with rfl | ⟨response, rfl, -, rfl⟩
    · exact h.heads head hHead
    · rcases List.mem_append.mp hHead with hHead | hNew
      · exact hOld hHead
      · obtain ⟨hTime, hTold⟩ := hAllow.1 head (Option.mem_toList.mp hNew)
        refine ⟨hPerformed.effect.changes.chainTime ▸ hTime, fun id at' hAt hBefore => ?_⟩
        rw [acceptedAt_of_performed hPerformed] at hAt
        obtain ⟨row, hRow⟩ := hw.row_of_accepted (OnChain.wasAccepted_of_acceptedAt hAt)
        exact (hTold id (mem_keys hRow) at' hAt hBefore).1

theorem SoundClocks.clocks_step (hAllow : ExpiresApplied w t o choice)
    (hPerformed : Performed config t w o w') {ts : Nat} (hTs : ts ∈ w'.clocks) :
    ts ≤ w'.chainTime ∧ ∀ id row' at', w'.row id = some row' →
      (w'.chain id).acceptedAt = some at' → at' < ts → row'.status ≠ .created := by
  have hTime : w'.chainTime = w.chainTime := hPerformed.effect.changes.chainTime
  -- A row that was not created stays so, and one with an accept is not new.
  have hKeep : (ts ≤ w.chainTime ∧ ∀ id row at', w.row id = some row →
        (w.chain id).acceptedAt = some at' → at' < ts → row.status ≠ .created) →
      ts ≤ w'.chainTime ∧ ∀ id row' at', w'.row id = some row' →
        (w'.chain id).acceptedAt = some at' → at' < ts → row'.status ≠ .created := by
    rintro ⟨hLe, hApplied⟩
    refine ⟨by omega, fun id row' at' hRow' hAt hBefore => ?_⟩
    rw [acceptedAt_of_performed hPerformed] at hAt
    obtain ⟨row, hRow, hGrows⟩ := hw.row_before hPerformed hRow' hAt
    exact hGrows.status.ne_created (hApplied id row at' hRow hAt hBefore)
  refine hKeep ?_
  rcases hPerformed.effect.changes.listenerState with ⟨-, hEq⟩ | ⟨cursor, timestamp, rfl, hEq⟩
  · exact h.clocks ts (hEq ▸ hTs)
  · rw [hEq] at hTs
    rcases List.mem_append.mp hTs with hOld | hNew
    · exact h.clocks ts hOld
    · rcases hPerformed.pre.2 ts (Option.mem_toList.mp hNew) with hOld | ⟨head, hHead, hLe⟩
      · exact h.clocks ts hOld
      · obtain ⟨hHeadTime, hTold⟩ := h.heads head hHead
        refine ⟨by omega, fun id row at' hRow hAt hBefore => ?_⟩
        have hSeen := hTold id at' hAt (by omega)
        exact hAllow.2 id (mem_keys hRow) hSeen row hRow

theorem SoundClocks.expired_step (hPerformed : Performed config t w o w') {row' : AgreementRow}
    (hRow' : w'.row id = some row') (hExpired : row'.status = .expired) : w'.Lapsed id := by
  refine (hPerformed.grows hw).lapsed id ?_
  have hEffect := hPerformed.rowEffect id
  rw [hRow'] at hEffect
  rcases hEffect.status with ⟨row, hRow, hSame⟩ | ⟨u, rfl, hSets⟩ | hAccepted | hEnded | ⟨-, hNew⟩
  · exact h.expired id row hRow (hSame ▸ hExpired)
  · rw [hExpired] at hSets
    have hMark : u = .markAsExpired := by
      cases u <;> first | rfl | cases hSets
    subst hMark
    generalize hr : w.row id = r at hEffect
    cases hEffect with
    | same => exact h.expired id row' hr hExpired
    | update hRun =>
      rename_i row
      obtain ⟨hFrom, -⟩ := setStatusFrom_eq_some.mp hRun
      exact h.lapsed hr (List.mem_singleton.mp hFrom) (hPerformed.pre row hr)
  · rw [hExpired] at hAccepted
    cases hAccepted
  · rw [hExpired] at hEnded
    cases hEnded
  · rw [hExpired] at hNew
    cases hNew

theorem SoundClocks.step {r : Res o} (hAllow : ExpiresApplied w t o choice)
    (hExec : w.exec o choice = some (r, w')) (hPerformed : Performed config t w o w') :
    w'.SoundClocks where
  accepts id row' at' hRow' hAt := by
    rw [acceptedAt_of_performed hPerformed] at hAt
    obtain ⟨row, hRow, hGrows⟩ := hw.row_before hPerformed hRow' hAt
    rw [hGrows.terms]
    exact h.accepts id row at' hRow hAt
  heads _ hHead := h.heads_step hw hAllow hExec hPerformed hHead
  clocks _ hTs := h.clocks_step hw hAllow hPerformed hTs
  expired _ _ hRow' hExpired := h.expired_step hw hPerformed hRow' hExpired

theorem SoundClocks.outside {e : Outside} (hMove : e.move config w = some w') :
    w'.SoundClocks := by
  have hUntouched := untouched_of_outside hMove
  have hGrows := (outside_keeps hw hMove).2
  have hTime := hGrows.time
  have hAccepts : ∀ id at', (w'.chain id).acceptedAt = some at' →
      (w.chain id).acceptedAt = some at' ∨ (at' = w.chainTime ∧
        ∀ row, w.row id = some row → at' ≤ row.terms.deadline) := by
    intro id at' hAt
    rcases chain_of_outside hMove id with hEq | hAccept | ⟨by', hFinish⟩
    · exact .inl (hEq ▸ hAt)
    · obtain ⟨hNow, deadline, hOffered, hLe⟩ := OnChain.acceptedAt_accept hAccept
      have hSame : at' = w.chainTime := Option.some.inj (hAt.symm.trans hNow)
      refine .inr ⟨hSame, fun row hRow => ?_⟩
      obtain ⟨row', hRow', hDeadline, -⟩ := hw.offers id (by rw [hOffered]; nofun)
      obtain rfl := Option.some.inj (hRow.symm.trans hRow')
      have := hDeadline deadline hOffered
      omega
    · exact .inl ((OnChain.acceptedAt_finish hFinish).symm.trans hAt)
  refine ⟨fun id row at' hRow hAt => ?_, fun head hHead => ?_, fun ts hTs => ?_,
    fun id row hRow hExpired => ?_⟩
  · rw [hUntouched.sameRow] at hRow
    rcases hAccepts id at' hAt with hOld | ⟨-, hNew⟩
    · exact h.accepts id row at' hRow hOld
    · exact hNew row hRow
  · rw [hUntouched.heads] at hHead
    obtain ⟨hLe, hTold⟩ := h.heads head hHead
    refine ⟨by omega, fun id at' hAt hBefore => ?_⟩
    rw [hUntouched.pinned]
    rcases hAccepts id at' hAt with hOld | ⟨hNow, -⟩
    · exact hTold id at' hOld hBefore
    · omega
  · rw [hUntouched.clocks] at hTs
    obtain ⟨hLe, hApplied⟩ := h.clocks ts hTs
    refine ⟨by omega, fun id row at' hRow hAt hBefore => ?_⟩
    rw [hUntouched.sameRow] at hRow
    rcases hAccepts id at' hAt with hOld | ⟨hNow, -⟩
    · exact hApplied id row at' hRow hOld hBefore
    · omega
  · rw [hUntouched.sameRow] at hRow
    exact hGrows.lapsed id (h.expired id row hRow hExpired)

end Step

end World

section Runs

variable {now chainTime : Nat} {requests : Requests}

theorem soundClocks_of_run {c : (services config ExpiresApplied).Config}
    (hRun : (services config ExpiresApplied).Run (fresh now chainTime requests) c) :
    c.1.SoundClocks := by
  refine invariant_of_run ⟨fun _ _ _ hRow => (by cases hRow),
    fun _ hHead => absurd hHead List.not_mem_nil, fun _ hTs => absurd hTs List.not_mem_nil,
    fun _ _ hRow => (by cases hRow)⟩ ?_ ?_ hRun
  · intro w t o choice r w' hw h hAllow hExec hPerformed
    exact h.step hw hAllow hExec hPerformed
  · intro w w' e hw h hMove
    exact h.outside hw hMove

/-- When the chain's time is persisted only after what the subgraph shows has been applied, an
agreement marked expired was never accepted on the chain. -/
theorem expired_never_accepted {c : (services config ExpiresApplied).Config}
    (hRun : (services config ExpiresApplied).Run (fresh now chainTime requests) c)
    {row : AgreementRow} (hRow : c.1.row id = some row) (hExpired : row.status = .expired) :
    ¬ (c.1.chain id).WasAccepted :=
  ((soundClocks_of_run hRun).expired id row hRow hExpired).1

theorem expired_never_accepted_lapsed : ∃ c : (services sampleConfig ExpiresApplied).Config,
    (services sampleConfig ExpiresApplied).Run (fresh 5 5 sampleRequests) c ∧
    (∃ row, c.1.row 10 = some row ∧ row.status = .expired) ∧ ¬ (c.1.chain 10).WasAccepted := by
  obtain ⟨c, hRun, hEnd⟩ := exists_run_of_allowed sampleConfig ExpiresApplied
    (fresh 5 5 sampleRequests) expiredMoves
    (fun c => (c.1.row 10).any (·.status = .expired)) (by decide +kernel)
  simp only [Option.any_eq_true, decide_eq_true_eq] at hEnd
  obtain ⟨row, hRow, hExpired⟩ := hEnd
  exact ⟨c, hRun, ⟨row, hRow, hExpired⟩, expired_never_accepted hRun hRow hExpired⟩

/-- The subgraph tells the accept of agreement 10, but the page that shows it fails to be written
while the chain's time is persisted, and a scan marks the agreement expired. -/
theorem expired_though_accepted : ∃ c : (services sampleConfig ToldByHead).Config,
    (services sampleConfig ToldByHead).Run (fresh 5 5 sampleRequests) c ∧
    (∃ row, c.1.row 10 = some row ∧ row.status = .expired) ∧ (c.1.chain 10).WasAccepted := by
  obtain ⟨c, hRun, hEnd⟩ := exists_run_of_allowed sampleConfig ToldByHead
    (fresh 5 5 sampleRequests) prematureExpiryMoves
    (fun c => (c.1.row 10).any (·.status = .expired) && (c.1.chain 10).WasAccepted)
    (by decide +kernel)
  simp only [Option.any_eq_true, Bool.and_eq_true, decide_eq_true_eq] at hEnd
  exact ⟨c, hRun, hEnd.1, hEnd.2⟩

end Runs

end Dipper
