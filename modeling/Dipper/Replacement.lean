import Dipper.Consistency.Runs

/-! Replacements: a new agreement registered in the place of an old one comes with a pending
cancellation of the old one.  Whether the cancellation is carried out once the new agreement is
accepted turns on when it may be dropped. -/

namespace Dipper

open World

variable {config : Config} {w w' : World} {id : IndexingAgreementId} {o : Op} {t : Tag}

/-- The agreement has left its request's group and cannot come back: its row is inactive, and if it
is only expired, no accept can be on the chain or reach it. -/
def World.Settled (w : World) (id : IndexingAgreementId) : Prop :=
  ∃ row, w.row id = some row ∧ row.status.active = false ∧ (row.status = .expired → w.Lapsed id)

theorem World.Settled.mono (h : w.Settled id) (hGrows : w.Grows w') (hw' : w'.Consistent) :
    w'.Settled id := by
  obtain ⟨row, hRow, hInactive, hLapsed⟩ := h
  obtain ⟨row', hRow', hRowGrows⟩ := hGrows.rows id row hRow
  by_cases hExpired : row.status = .expired
  · have hLapsed' := hGrows.lapsed id (hLapsed hExpired)
    refine ⟨row', hRow', ?_, fun _ => hLapsed'⟩
    have hCreated : row'.status ≠ .created :=
      hRowGrows.status.ne_created (by rw [hExpired]; nofun)
    have hAccepted : row'.status ≠ .acceptedOnChain := fun hStatus =>
      hLapsed'.1 (hw'.seen hRow' (.inl hStatus))
    cases hStatus : row'.status <;> first | rfl | contradiction
  · obtain ⟨hInactive', hExpired'⟩ := hRowGrows.status.retired hInactive hExpired
    exact ⟨row', hRow', hInactive', fun h => absurd h hExpired'⟩

/-- A pending cancellation is dropped only while no accept can be on the chain, or reach it, for
the agreement it is dropped for: the new one whose rows are deleted, or the old one whose cancel is
done with. -/
def DropsPendingSafely (w : World) (_ : Tag) (o : Op) (_ : Choice) : Prop :=
  match o with
  | .deletePendingByNew new => ∀ row, w.row new = some row →
      row.status = .expired ∨ row.status = .acceptedOnChain → w.Lapsed new
  | .deletePending _ old => ∀ row, w.row old = some row → row.status = .expired → w.Lapsed old
  | _ => True

/-- Every replacement is still pending, or one of its two agreements has left for good. -/
def World.ReplacementsKept (w : World) : Prop :=
  ∀ p ∈ w.replaced, p ∈ w.pending ∨ w.Settled p.1 ∨ w.Settled p.2

theorem World.ReplacementsKept.mono (h : w.ReplacementsKept) (hGrows : w.Grows w')
    (hw' : w'.Consistent) {p : IndexingAgreementId × IndexingAgreementId}
    (hOld : p ∈ w.replaced) (hKept : p ∈ w.pending → p ∈ w'.pending ∨ w.Settled p.1 ∨ w.Settled p.2) :
    p ∈ w'.pending ∨ w'.Settled p.1 ∨ w'.Settled p.2 := by
  have hSettled : w.Settled p.1 ∨ w.Settled p.2 →
      p ∈ w'.pending ∨ w'.Settled p.1 ∨ w'.Settled p.2 := fun h =>
    .inr (h.imp (·.mono hGrows hw') (·.mono hGrows hw'))
  rcases h p hOld with hPending | hSettled'
  · rcases hKept hPending with hStill | hSettled'
    · exact .inl hStill
    · exact hSettled hSettled'
  · exact hSettled hSettled'

theorem settled_of_deleteByNew {new : IndexingAgreementId} {choice : Choice} (hw : w.Consistent)
    (hPre : Pre config t w (.deletePendingByNew new))
    (hSafe : DropsPendingSafely w t (.deletePendingByNew new) choice) : w.Settled new := by
  obtain ⟨row, hRow, hCreated⟩ := hPre
  have hAccepted : row.status ≠ .acceptedOnChain := fun hStatus =>
    (hSafe row hRow (.inr hStatus)).1 (hw.seen hRow (.inl hStatus))
  refine ⟨row, hRow, ?_, fun hExpired => hSafe row hRow (.inl hExpired)⟩
  cases hStatus : row.status <;> first | rfl | contradiction

theorem settled_of_delete {new old : IndexingAgreementId} {choice : Choice}
    (hRow : (w.row old).isSome = true) (hPre : Pre config t w (.deletePending new old))
    (hSafe : DropsPendingSafely w t (.deletePending new old) choice) : w.Settled old := by
  obtain ⟨row, hRow⟩ := Option.isSome_iff_exists.mp hRow
  exact ⟨row, hRow, hPre.2 row hRow, hSafe row hRow⟩

theorem World.ReplacementsKept.step {choice : Choice} (h : w.ReplacementsKept)
    (hw : w.Consistent) (hPerformed : Performed config t w o w')
    (hSafe : DropsPendingSafely w t o choice) : w'.ReplacementsKept := by
  have hGrows := hPerformed.grows hw
  have hw' := hPerformed.consistent hw
  have hChanges := hPerformed.effect.changes
  intro p hp
  rcases hChanges.replaced with hSame | ⟨params, old, -, -, -, hPending, hReplaced⟩
  · rw [hSame] at hp
    refine h.mono hGrows hw' hp fun hOld => ?_
    rcases hChanges.pending with hEq | ⟨params, old, rfl, hPending, -⟩ | ⟨new, rfl, hEq⟩ |
      ⟨new, old, rfl, hEq⟩
    · rw [hEq]
      exact .inl hOld
    · exact .inl ((hPending p).mpr (.inl hOld))
    · by_cases hNew : p.1 = new
      · rw [hNew]
        exact .inr (.inl (settled_of_deleteByNew hw hPerformed.pre hSafe))
      · rw [hEq]
        exact .inl (List.mem_filter.mpr ⟨hOld, by simpa using hNew⟩)
    · by_cases hPair : p = (new, old)
      · subst hPair
        exact .inr (.inr (settled_of_delete (hw.replaced _ hp).2 hPerformed.pre hSafe))
      · rw [hEq]
        exact .inl (List.mem_filter.mpr ⟨hOld, by simpa using hPair⟩)
  · rw [hReplaced] at hp
    rcases List.mem_append.mp hp with hOld | hNew
    · exact h.mono hGrows hw' hOld fun hPend => .inl ((hPending p).mpr (.inl hPend))
    · exact .inl ((hPending p).mpr (.inr (List.mem_singleton.mp hNew)))

section Runs

variable {now chainTime : Nat} {requests : Requests}

theorem replacementsKept_of_run {c : (services config DropsPendingSafely).Config}
    (hRun : (services config DropsPendingSafely).Run (fresh now chainTime requests) c) :
    c.1.ReplacementsKept := by
  refine invariant_of_run (fun p hp => by cases hp) ?_ ?_ hRun
  · intro w t o choice r w' hw h hSafe _ hPerformed
    exact h.step hw hPerformed hSafe
  · intro w w' e hw h hMove p hp
    have hUntouched := untouched_of_outside hMove
    obtain ⟨hw', hGrows⟩ := outside_keeps hw hMove
    rw [hUntouched.replaced] at hp
    refine h.mono hGrows hw' hp fun hOld => .inl ?_
    rw [hUntouched.pending]
    exact hOld

/-- When pending cancellations are dropped safely, every old agreement that an accepted one was
registered to replace has left its group, or its pending cancellation is still stored. -/
theorem replacement_ends_what_it_replaced {c : (services config DropsPendingSafely).Config}
    (hRun : (services config DropsPendingSafely).Run (fresh now chainTime requests) c)
    {new old : IndexingAgreementId} {row : AgreementRow} (hReplaced : (new, old) ∈ c.1.replaced)
    (hNew : c.1.row new = some row) (hAccepted : row.status = .acceptedOnChain) :
    (new, old) ∈ c.1.pending ∨ ∃ row', c.1.row old = some row' ∧ row'.status.active = false := by
  rcases replacementsKept_of_run hRun _ hReplaced with hPending | ⟨row', hRow', hInactive, -⟩ |
    ⟨row', hRow', hInactive, -⟩
  · exact .inl hPending
  · obtain rfl := Option.some.inj (hNew.symm.trans hRow')
    rw [hAccepted] at hInactive
    cases hInactive
  · exact .inr ⟨row', hRow', hInactive⟩

def replacementGraph : Subgraph where
  rows := [sampleSnapshot 10 .accepted 3 5 0, sampleSnapshot 20 .accepted 4 6 0]
  head := 5
  headTimestamp := some 20
  sorted := by decide
  unique := by decide

/-- Agreement 20 is accepted on the chain before its deadline, and the chain goes on past it. -/
def replacementAcceptedMoves : Moves := offerMoves 10 1 ++ submitMoves 10 ++ acceptMoves ++
  announceMoves ++ replaceMoves ++ submitMoves 20 ++
  [.env (.block 6), .env (.accept 20), .env (.block 20), .env (.index replacementGraph)]

/-- A poll up to the batch of its page, which shows both agreements accepted. -/
def replacementPollMoves : Moves :=
  [.start .poll, .op 0 (.page ⟨[acceptedEntity,
      sampleEntity "0x00000000000000000000000000000014" "Accepted" "4" "6" "0"], 5, some 20⟩),
    .op 0 .ok, .op 0 (.rows [10, 20]), .op 0 (.answer false), .op 0 (.answer false)]

/-- Whether a pending cancellation that an operation drops is of an agreement that has ended. -/
def dropsEnded (w : World) (_ : Tag) (o : Op) (_ : Choice) : Bool :=
  match o with
  | .deletePendingByNew _ => false
  | .deletePending _ old => (w.row old).all (·.status ≠ .expired)
  | _ => true

theorem dropsPendingSafely_of_ended (w : World) (t : Tag) (o : Op) (choice : Choice)
    (h : dropsEnded w t o choice = true) : DropsPendingSafely w t o choice := by
  cases o with
  | deletePending new old =>
    intro row hRow hExpired
    simp [dropsEnded, hRow, hExpired] at h
  | deletePendingByNew new => cases h
  | _ => trivial

/-- The accept of agreement 20 has agreement 10 cancelled, and its pending cancellation deleted. -/
theorem replacement_pending_when_accepted :
    ∃ c : (services sampleConfig DropsPendingSafely).Config,
      (services sampleConfig DropsPendingSafely).Run (fresh 5 5 sampleRequests) c ∧
      (∃ row, c.1.row 20 = some row ∧ row.status = .acceptedOnChain) ∧ (20, 10) ∈ c.1.replaced ∧
      (20, 10) ∉ c.1.pending ∧ ∃ row, c.1.row 10 = some row ∧ row.status.active = false := by
  obtain ⟨c, hRun, hEnd⟩ := Concurrent.System.exists_run_of_moves
    (S := services sampleConfig DropsPendingSafely) (c := fresh 5 5 sampleRequests)
    dropsPendingSafely_of_ended
    (replacementAcceptedMoves ++ replacementPollMoves ++ [.op 0 .ok, .op 0 .ok, .op 0 .ok,
      .op 0 (.rows [10]), .op 0 .ok, .op 0 .ok, .op 0 (.mined (some "0xdd") true), .op 0 .ok,
      .op 0 .ok, .op 0 .ok, .op 0 .ok, .op 0 .ok])
    (fun c => (c.1.row 20).any (·.status = .acceptedOnChain) && (20, 10) ∈ c.1.replaced &&
      (20, 10) ∉ c.1.pending)
    (by decide +kernel)
  simp only [Option.any_eq_true, Bool.and_eq_true, decide_eq_true_eq] at hEnd
  obtain ⟨⟨⟨row, hRow, hStatus⟩, hReplaced⟩, hDeleted⟩ := hEnd
  exact ⟨c, hRun, ⟨row, hRow, hStatus⟩, hReplaced, hDeleted,
    (replacement_ends_what_it_replaced hRun hReplaced hRow hStatus).resolve_left hDeleted⟩

/-- The page that shows the accept fails to be written, while the chain's time is persisted; an
expiration scan marks the new agreement expired and deletes its pending cancellation; and the next
poll recovers the accept.  Both agreements are then accepted, with nothing left to end the old
one. -/
theorem replacement_leaves_what_it_replaced : ∃ c : (allServices sampleConfig).Config,
    (allServices sampleConfig).Run (fresh 5 5 sampleRequests) c ∧ (20, 10) ∈ c.1.replaced ∧
    (∃ row, c.1.row 20 = some row ∧ row.status = .acceptedOnChain) ∧
    (∃ row, c.1.row 10 = some row ∧ row.status = .acceptedOnChain) ∧ (20, 10) ∉ c.1.pending := by
  obtain ⟨c, hRun, hEnd⟩ := exists_run sampleConfig (fresh 5 5 sampleRequests)
    (replacementAcceptedMoves ++ replacementPollMoves ++
      [.op 0 .fail, .op 0 .ok, .op 0 .ok, .op 0 .ok, .op 0 .ok, .op 0 .ok, .op 0 .ok,
        .op 0 (.rows []), .op 0 (.rows []), .op 0 (.rows []), .op 0 .ok, .drop 0,
        .start .expirationScan, .op 0 .ok, .op 0 (.rows [20]), .op 0 (.answer false), .op 0 .ok,
        .op 0 .ok, .op 0 .ok, .op 0 .ok, .drop 0] ++ replacementPollMoves ++ [.op 0 .ok])
    (fun c => (20, 10) ∈ c.1.replaced && (c.1.row 20).any (·.status = .acceptedOnChain) &&
      (c.1.row 10).any (·.status = .acceptedOnChain) && (20, 10) ∉ c.1.pending)
    (by decide +kernel)
  simp only [Option.any_eq_true, Bool.and_eq_true, decide_eq_true_eq] at hEnd
  obtain ⟨⟨⟨hReplaced, hNew⟩, hOld⟩, hPending⟩ := hEnd
  exact ⟨c, hRun, hReplaced, hNew, hOld, hPending⟩

end Runs

end Dipper
