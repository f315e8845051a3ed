import Dipper.Consistency.Reads

/-! The cancel dispatch and the cancel retry keep to the discipline: a row is marked ended only
after it was marked cancelling, for the reason it was marked for, and only once the agreement is
over on the chain for good. -/

namespace Dipper

open World

namespace World

variable {w w' : World} {id : IndexingAgreementId}

/-- Once a read does not show the agreement live, it is over for good: it was accepted, or its
deadline has passed. -/
def Sealed (w : World) (id : IndexingAgreementId) : Prop :=
  (w.chain id).WasAccepted ∨ ∃ row, w.row id = some row ∧ row.terms.deadline < w.chainTime

theorem Sealed.mono (h : w.Sealed id) (hGrows : w.Grows w') : w'.Sealed id := by
  rcases h with hAccepted | ⟨row, hRow, hDeadline⟩
  · exact .inl ((hGrows.chain id).accepted hAccepted)
  · obtain ⟨row', hRow', hGrows'⟩ := hGrows.rows id row hRow
    refine .inr ⟨row', hRow', ?_⟩
    rw [hGrows'.terms]
    exact Nat.lt_of_lt_of_le hDeadline hGrows.time

theorem Sealed.dead (h : w.Sealed id) (hRead : (w.chain id).read w.chainTime ≠ .live) :
    w.Dead id := by
  by_cases hAccepted : (w.chain id).WasAccepted
  · exact .inl (OnChain.isEnded_of_read hAccepted hRead)
  · exact .inr ⟨hAccepted, h.resolve_left hAccepted⟩

/-- The row is in the hands of a cancel. -/
def Ending (w : World) (id : IndexingAgreementId) : Prop :=
  ∃ row, w.row id = some row ∧ row.status.ending = true

theorem Ending.mono (h : w.Ending id) (hGrows : w.Grows w') : w'.Ending id := by
  obtain ⟨row, hRow, hEnding⟩ := h
  obtain ⟨row', hRow', hGrows'⟩ := hGrows.rows id row hRow
  exact ⟨row', hRow', hGrows'.status.ending hEnding⟩

/-- The row is in the hands of a cancel started for the reason. -/
def Marked (w : World) (id : IndexingAgreementId) : CancelReason → Prop
  | .notWanted => ∃ row, w.row id = some row ∧ row.status.ending = true ∧ row.abandoned = false
  | .abandoned => ∃ row, w.row id = some row ∧ row.abandoned = true

theorem Marked.mono {reason : CancelReason} (h : w.Marked id reason) (hGrows : w.Grows w') :
    w'.Marked id reason := by
  cases reason with
  | notWanted =>
    obtain ⟨row, hRow, hEnding, hPlain⟩ := h
    obtain ⟨row', hRow', hGrows'⟩ := hGrows.rows id row hRow
    exact ⟨row', hRow', hGrows'.status.ending hEnding, hGrows'.unabandoned hPlain hEnding⟩
  | abandoned =>
    obtain ⟨row, hRow, hMark⟩ := h
    obtain ⟨row', hRow', hGrows'⟩ := hGrows.rows id row hRow
    exact ⟨row', hRow', hGrows'.abandoned hMark⟩

theorem Marked.ending {reason : CancelReason} (h : w.Marked id reason) (hw : w.Consistent) :
    w.Ending id := by
  cases reason with
  | notWanted =>
    obtain ⟨row, hRow, hEnding, -⟩ := h
    exact ⟨row, hRow, hEnding⟩
  | abandoned =>
    obtain ⟨row, hRow, hMark⟩ := h
    exact ⟨row, hRow, ((hw.rows id row hRow).abandoned hMark).1⟩

theorem Read.marked {row : AgreementRow} (h : w.Read id row) (hStatus : row.status = .cancelling) :
    w.Marked id (if row.abandoned then .abandoned else .notWanted) := by
  obtain ⟨row', hRow', hGrows⟩ := h.current
  have hEnding : row.status.ending = true := by rw [hStatus]; rfl
  cases hMark : row.abandoned with
  | true => exact ⟨row', hRow', hGrows.abandoned hMark⟩
  | false => exact ⟨row', hRow', hGrows.status.ending hEnding, hGrows.unabandoned hMark hEnding⟩

/-- The row has left its request's group and only a new agreement can take its place. -/
def Retired (w : World) (id : IndexingAgreementId) : Prop :=
  ∃ row, w.row id = some row ∧ row.status.active = false ∧ row.status ≠ .expired

theorem Retired.mono (h : w.Retired id) (hGrows : w.Grows w') : w'.Retired id := by
  obtain ⟨row, hRow, hInactive, hExpired⟩ := h
  obtain ⟨row', hRow', hGrows'⟩ := hGrows.rows id row hRow
  exact ⟨row', hRow', hGrows'.status.retired hInactive hExpired⟩

theorem Marked.retired {reason : CancelReason} (h : w.Marked id reason) (hw : w.Consistent) :
    w.Retired id := by
  obtain ⟨row, hRow, hEnding⟩ := h.ending hw
  exact ⟨row, hRow, IndexingAgreementStatus.retired_of_ending hEnding⟩

end World

/-- What the dispatch's answer says of the chain, for an agreement sealed before it started. -/
def Found (w0 : World) (id : IndexingAgreementId) : LiveCancel → World → Prop
  | .notLive byIndexer, w => (w0.Sealed id → w.Dead id) ∧
      (byIndexer = true → (w.chain id).IsEnded)
  | .ended _, w => w0.Sealed id → w.Dead id
  | _, _ => True

theorem Found.mono {w0 w1 w w' : World} {id : IndexingAgreementId} {cancel : LiveCancel}
    (h : Found w1 id cancel w) (h0 : w0.Grows w1) (hGrows : w.Grows w') :
    Found w0 id cancel w' := by
  cases cancel with
  | notLive byIndexer =>
    exact ⟨fun hSealed => hGrows.dead (h.1 (hSealed.mono h0)),
      fun hBy => (hGrows.chain id).ended (h.2 hBy)⟩
  | ended txHash => exact fun hSealed => hGrows.dead (h (hSealed.mono h0))
  | _ => trivial

section Dispatch

variable {config : Config} {allow : World → Tag → Op → Choice → Prop} {t : Tag} {w : World}
  {a : IndexingAgreement} {reason : CancelReason}

theorem keeps_cancelAgreementOnChain :
    Keeps config allow t (Found w a.id) (cancelAgreementOnChain a) w := by
  unfold cancelAgreementOnChain
  cases cancelHash a with
  | none => exact keeps_ret fun _ _ _ => trivial
  | some versionHash =>
    refine keeps_free (fun _ => trivial) fun r w1 _ hGrows1 => ?_
    cases r with
    | error err => exact keeps_ret fun _ _ _ => trivial
    | ok txHash =>
      refine keeps_agreementOnChain (fun e w2 _ _ => keeps_ret fun _ _ _ => trivial) ?_
      intro w2 _ hGrows2
      have hGrows := hGrows1.trans hGrows2
      cases hRead : (w2.chain a.id).read w2.chainTime with
      | live => exact keeps_ret fun _ _ _ => trivial
      | notLive =>
        refine keeps_ret fun w3 _ hGrows3 hSealed => hGrows3.dead ?_
        exact (hSealed.mono hGrows).dead (by rw [hRead]; nofun)
      | endedByIndexer =>
        have hEnded := OnChain.isEnded_of_read_endedByIndexer hRead
        exact keeps_ret fun w3 _ hGrows3 =>
          ⟨fun _ => .inl ((hGrows3.chain _).ended hEnded), fun _ => (hGrows3.chain _).ended hEnded⟩

theorem keeps_cancelIfLive : Keeps config allow t (Found w a.id) (cancelIfLive a) w := by
  refine keeps_agreementOnChain (fun e w1 _ _ => keeps_ret fun _ _ _ => trivial) ?_
  intro w1 _ hGrows
  have hOver : (w1.chain a.id).read w1.chainTime ≠ .live →
      Found w a.id (.notLive ((w1.chain a.id).read w1.chainTime = .endedByIndexer)) w1 := by
    intro hRead
    refine ⟨fun hSealed => (hSealed.mono hGrows).dead hRead, fun hBy => ?_⟩
    exact OnChain.isEnded_of_read_endedByIndexer (of_decide_eq_true hBy)
  cases hRead : (w1.chain a.id).read w1.chainTime with
  | live =>
    exact keeps_cancelAgreementOnChain.mono fun cancel w2 _ hFound => hFound.mono hGrows (.refl _)
  | notLive | endedByIndexer =>
    rw [hRead] at hOver
    exact keeps_ret fun w2 _ hGrows2 => (hOver nofun).mono (.refl _) hGrows2

theorem keeps_markCancelling {β : Type} {post : β → World → Prop}
    {k : Except RegistryError Updated → Act β}
    (hError : ∀ w', w'.Consistent → w.Grows w' → Keeps config allow t post (k (.error .backend)) w')
    (hMissing : ∀ w', w'.Consistent → w.Grows w' →
      (reason = .notWanted → (w'.row a.id).isSome = true → w'.Retired a.id) →
      Keeps config allow t post (k (.error .noRecordsUpdated)) w')
    (hOk : ∀ x w', w'.Consistent → w.Grows w' → w'.Marked a.id reason →
      Keeps config allow t post (k (.ok x)) w') :
    Keeps config allow t post (markCancelling a reason >>= k) w := by
  cases reason with
  | notWanted =>
    refine keeps_update rfl (fun _ _ _ _ _ => trivial) hError ?_ ?_
    · intro w1 hInv hGrows hNone
      refine hMissing w1 hInv hGrows fun _ hSome => ?_
      obtain ⟨row, hRow⟩ := Option.isSome_iff_exists.mp hSome
      have hFrom := hNone row hRow
      simp only [RowUpdate.run, setStatusFrom, ite_eq_right_iff, reduceCtorEq, imp_false] at hFrom
      exact ⟨row, hRow, IndexingAgreementStatus.retired_of_notMem hFrom⟩
    · intro x w1 row row' w2 hInv1 hGrows1 hRow hRun hRow' hInv2 hGrows2
      obtain ⟨hFrom, rfl⟩ := setStatusFrom_eq_some.mp hRun
      have hPlain := (hInv1.rows _ row hRow).plain_of_mem hFrom (by decide)
      exact hOk x w2 hInv2 (hGrows1.trans hGrows2) ⟨_, hRow', rfl, hPlain⟩
  | abandoned =>
    refine keeps_update rfl (fun _ _ _ _ _ => trivial) hError ?_ ?_
    · exact fun w1 hInv hGrows _ => hMissing w1 hInv hGrows fun h => by cases h
    · intro x w1 row row' w2 hInv1 hGrows1 hRow hRun hRow' hInv2 hGrows2
      obtain ⟨r, -, rfl⟩ := Option.map_eq_some_iff.mp hRun
      exact hOk x w2 hInv2 (hGrows1.trans hGrows2) ⟨_, hRow', rfl⟩

theorem keeps_markEnded {β : Type} {post : β → World → Prop}
    {k : Except RegistryError Updated → Act β} (hMarked : w.Marked a.id reason)
    (hDead : w.Dead a.id)
    (h : ∀ r w', w'.Consistent → w.Grows w' → Keeps config allow t post (k r) w') :
    Keeps config allow t post (markEnded a reason >>= k) w := by
  cases reason with
  | notWanted =>
    refine keeps_call fun w1 _ hGrows _ => ⟨fun row hRow => ?_, fun c r w2 _ hInv2 hGrows2 =>
      h r w2 hInv2 (hGrows.trans hGrows2)⟩
    obtain ⟨row', hRow', hEnding, hPlain⟩ := hMarked.mono hGrows
    obtain rfl := Option.some.inj (hRow.symm.trans hRow')
    exact ⟨hEnding, hPlain, hGrows.dead hDead⟩
  | abandoned =>
    refine keeps_call fun w1 hInv1 hGrows _ => ⟨fun row hRow => ?_, fun c r w2 _ hInv2 hGrows2 =>
      h r w2 hInv2 (hGrows.trans hGrows2)⟩
    obtain ⟨row', hRow', hMark⟩ := hMarked.mono hGrows
    obtain rfl := Option.some.inj (hRow.symm.trans hRow')
    exact ⟨hMark, (hGrows.dead hDead).isEnded (hInv1.seen hRow (.inr hMark))⟩

theorem keeps_confirmCancelled {txHash : Option TxHash} (hMarked : w.Marked a.id reason)
    (hDead : w.Dead a.id) :
    Keeps config allow t (fun _ _ => True) (confirmCancelled config a reason txHash) w := by
  have hMark : ∀ {w'} {k : Except RegistryError Updated → Act Bool}, w.Grows w' →
      (∀ r w2, Keeps config allow t (fun _ _ => True) (k r) w2) →
      Keeps config allow t (fun _ _ => True) (markEnded a reason >>= k) w' :=
    fun hGrows h => keeps_markEnded (hMarked.mono hGrows) (hGrows.dead hDead) fun r w2 _ _ => h r w2
  unfold confirmCancelled recordCancel
  split
  · refine keeps_free (fun _ => trivial) fun now w1 _ hGrows1 => ?_
    refine keeps_free (fun _ _ _ => trivial) fun r w2 _ hGrows2 => ?_
    refine hMark (hGrows1.trans hGrows2) fun r w3 => ?_
    split <;> exact keeps_done
  · refine hMark (.refl w) fun r w3 => ?_
    split <;> exact keeps_done

/-- The answer to a marked cancel: the row is marked ended only where the chain was seen to be. -/
theorem keeps_finishMarkedCancel {w0 : World} {cancel : LiveCancel}
    (hMarked : w.Marked a.id reason) (hSealed : a.status = .acceptedOnChain → w0.Sealed a.id)
    (hFound : Found w0 a.id cancel w) :
    Keeps config allow t (fun _ _ => True) (finishMarkedCancel config a reason cancel) w := by
  cases cancel with
  | ended txHash =>
    simp only [finishMarkedCancel]
    split
    · exact keeps_done
    · rename_i hStatus
      have hDead := hFound (hSealed (not_not.mp hStatus))
      refine keeps_bind (keeps_confirmCancelled hMarked hDead) fun confirmed w1 _ _ _ => ?_
      split <;> exact keeps_done
  | _ => exact keeps_done

theorem keeps_sendMarkedCancel (hMarked : w.Marked a.id reason)
    (hSealed : a.status = .acceptedOnChain → w.Sealed a.id) :
    Keeps config allow t (fun _ _ => True) (sendMarkedCancel config a reason) w := by
  refine keeps_bind keeps_cancelIfLive fun cancel w1 _ hGrows hFound => ?_
  exact keeps_finishMarkedCancel (hMarked.mono hGrows) hSealed hFound

/-- What the caller of a cancel learns from its answer: unless it failed, the row has left its
group for good. -/
def Started (id : IndexingAgreementId) (r : Except RegistryError CancelStarted) (w : World) :
    Prop :=
  Listener.noteReplacedCancel r = true → w.Retired id

theorem keeps_startMarked {rest : Act (Except RegistryError CancelStarted)}
    (hRow : (w.row a.id).isSome = true)
    (h : ∀ w', w'.Consistent → w.Grows w' → w'.Marked a.id .notWanted →
      Keeps config allow t (fun _ _ => True) rest w') :
    Keeps config allow t (Started a.id) (do
      match ← markCancelling a .notWanted with
      | .error err => return .error err
      | .ok _ => rest) w := by
  refine keeps_markCancelling (fun w1 _ _ => keeps_ret fun _ _ _ => nofun) ?_ ?_
  · intro w1 _ hGrows hMissing
    have hRetired := hMissing rfl (hGrows.isSome hRow)
    exact keeps_ret fun w2 _ hGrows2 _ => hRetired.mono hGrows2
  · intro x w1 hInv1 hGrows hMarked
    refine (keeps_frame (h w1 hInv1 hGrows hMarked)).mono fun started w2 hInv2 hEnd _ => ?_
    exact (hMarked.mono hEnd.1).retired hInv2

theorem keeps_startCancel (hKnows : w.Knows a) :
    Keeps config allow t (Started a.id) (startCancel config a .notWanted) w := by
  refine keeps_startMarked hKnows.isSome fun w1 _ hGrows hMarked => ?_
  refine keeps_bind (keeps_sendMarkedCancel hMarked fun hStatus =>
    .inl ((hKnows.mono hGrows).accepted hStatus)) fun started w2 _ _ _ => ?_
  exact keeps_done

theorem keeps_startCancelSeenLive (hKnows : w.Knows a) :
    Keeps config allow t (Started a.id) (startCancelSeenLive config a .notWanted) w := by
  refine keeps_startMarked hKnows.isSome fun w1 _ hGrows hMarked => ?_
  refine keeps_bind keeps_cancelAgreementOnChain fun cancel w2 _ hGrows2 hFound => ?_
  refine keeps_bind (keeps_finishMarkedCancel (hMarked.mono hGrows2)
    (fun hStatus => .inl ((hKnows.mono hGrows).accepted hStatus)) hFound) fun started w3 _ _ _ => ?_
  exact keeps_done

end Dispatch

section Retry

variable {config : Config} {allow : World → Tag → Op → Choice → Prop} {t : Tag} {w : World}
  {id : IndexingAgreementId} {row : AgreementRow} {chainNow : Option Nat}

theorem keeps_noteCheck {c : CancellingAgreement} {failure : Option ChainClientError}
    {ended : Option Bool} :
    Keeps config allow t (fun _ _ => True) (noteCheck c failure ended) w :=
  keeps_free (fun _ _ _ => trivial) fun _ _ _ _ => keeps_done

theorem keeps_recordEndByIndexer {a : IndexingAgreement} (hEnded : (w.chain a.id).IsEnded) :
    Keeps config allow t (fun _ _ => True) (recordEndByIndexer a) w := by
  refine keeps_free (fun _ => trivial) fun now w1 _ hGrows1 => ?_
  refine keeps_free (fun _ _ _ => trivial) fun r w2 _ hGrows2 => ?_
  cases r with
  | error e => exact keeps_done
  | ok x =>
    refine keeps_call fun w3 _ hGrows3 _ => ⟨⟨rfl, rfl, ?_⟩, fun c r w4 _ _ _ => ?_⟩
    · exact (hGrows3.chain _).ended ((hGrows2.chain _).ended ((hGrows1.chain _).ended hEnded))
    · cases r <;> exact keeps_done

/-- A listed row that can be confirmed was sealed when its cancel was sent: it was accepted, or its
deadline is before the chain time the sweep read. -/
theorem World.Read.sealed (hRead : w.Read id row) (hNow : ∀ now, chainNow = some now → now ≤ w.chainTime)
    {txHash : Option TxHash} {pastGrace : Bool}
    (h : canConfirm (row.cancelling id) txHash pastGrace chainNow = true) : w.Sealed id := by
  unfold canConfirm at h
  split at h
  · rename_i hAt
    exact .inl (hRead.accepted (.inr (.inr hAt)))
  · obtain ⟨now, hSome, hDeadline⟩ := (Option.any_eq_true _ _).mp h
    obtain ⟨row', hRow', hGrows⟩ := hRead.current
    refine .inr ⟨row', hRow', ?_⟩
    rw [hGrows.terms]
    exact Nat.lt_of_lt_of_le (of_decide_eq_true hDeadline) (hNow now hSome)

theorem keeps_confirmIfOver {w0 : World} {txHash : Option TxHash} {byIndexer : Bool}
    (hRead : w0.Read id row) (hStatus : row.status = .cancelling)
    (hNow : ∀ now, chainNow = some now → now ≤ w0.chainTime) (hGrows : w0.Grows w)
    (hDead : w0.Sealed id → w.Dead id) (hBy : byIndexer = true → (w.chain id).IsEnded) :
    Keeps config allow t (fun _ _ => True)
      (confirmIfOver config (row.cancelling id) txHash byIndexer chainNow) w := by
  refine keeps_free (fun _ => trivial) fun now w1 _ hGrows1 => ?_
  dsimp only
  split
  · exact keeps_done
  · rename_i hCan
    rw [Bool.not_eq_true, Bool.not_eq_false'] at hCan
    split
    · rename_i hByIndexer
      split
      · exact keeps_done
      · exact keeps_recordEndByIndexer ((hGrows1.chain id).ended (hBy hByIndexer))
    · have hMarked := ((hRead.marked hStatus).mono hGrows).mono hGrows1
      exact keeps_confirmCancelled (a := row.agreement id) hMarked
        (hGrows1.dead (hDead (hRead.sealed hNow hCan)))

theorem keeps_settleCancel {w0 : World} {txHash : Option TxHash} {byIndexer : Bool}
    (hRead : w0.Read id row) (hStatus : row.status = .cancelling)
    (hNow : ∀ now, chainNow = some now → now ≤ w0.chainTime) (hGrows : w0.Grows w)
    (hDead : w0.Sealed id → w.Dead id) (hBy : byIndexer = true → (w.chain id).IsEnded) :
    Keeps config allow t (fun _ _ => True)
      (settleCancel config (row.cancelling id) txHash byIndexer chainNow) w := by
  refine keeps_bind (keeps_confirmIfOver hRead hStatus hNow hGrows hDead hBy)
    fun confirmed w1 _ _ _ => ?_
  split
  · exact keeps_done
  · exact keeps_bind keeps_noteCheck fun _ _ _ _ _ => keeps_done

theorem keeps_retryCancel (hRead : w.Read id row) (hStatus : row.status = .cancelling)
    (hNow : ∀ now, chainNow = some now → now ≤ w.chainTime) :
    Keeps config allow t (fun _ _ => True)
      (retryCancel config (row.cancelling id) chainNow) w := by
  refine keeps_bind (m := Found w id) keeps_cancelIfLive fun cancel w1 _ hGrows hFound => ?_
  cases cancel with
  | notLive byIndexer =>
    exact keeps_settleCancel hRead hStatus hNow hGrows hFound.1 hFound.2
  | ended txHash => exact keeps_settleCancel hRead hStatus hNow hGrows hFound nofun
  | _ => exact keeps_bind keeps_noteCheck fun _ _ _ _ _ => keeps_done

theorem keeps_retryEach {started : Nat} {rows : List (IndexingAgreementId × AgreementRow)}
    (hRows : ∀ p ∈ rows, w.Read p.1 p.2 ∧ p.2.status = .cancelling)
    (hNow : ∀ now, chainNow = some now → now ≤ w.chainTime) :
    Keeps config allow t (fun _ _ => True)
      (retryEach config chainNow started (rows.map fun p => p.2.cancelling p.1)) w := by
  induction rows generalizing w with
  | nil => exact keeps_done
  | cons p rows ih =>
    refine keeps_free (fun _ => trivial) fun now w1 _ hGrows1 => ?_
    dsimp only
    split
    · exact keeps_done
    · have hHere : ∀ {w'}, w.Grows w' →
          (∀ q ∈ p :: rows, w'.Read q.1 q.2 ∧ q.2.status = .cancelling) ∧
          ∀ now, chainNow = some now → now ≤ w'.chainTime := fun hGrows =>
        ⟨fun q hMem => ⟨(hRows q hMem).1.mono hGrows, (hRows q hMem).2⟩,
          fun now hSome => Nat.le_trans (hNow now hSome) hGrows.time⟩
      obtain ⟨hRows1, hNow1⟩ := hHere hGrows1
      obtain ⟨hRead, hStatus⟩ := hRows1 p (List.mem_cons_self ..)
      refine keeps_bind (keeps_retryCancel hRead hStatus hNow1) fun log w2 _ hGrows2 _ => ?_
      obtain ⟨hRows2, hNow2⟩ := hHere (hGrows1.trans hGrows2)
      refine keeps_bind (ih (fun q hMem => hRows2 q (List.mem_cons_of_mem _ hMem)) hNow2) ?_
      exact fun logs w3 _ _ _ => keeps_done

theorem keeps_readChainNow {rows : List CancellingAgreement} :
    Keeps config allow t (fun chainNow w' => ∀ now, chainNow = some now → now ≤ w'.chainTime)
      (readChainNow rows) w := by
  unfold readChainNow
  split
  · refine keeps_call fun w1 _ _ _ => ⟨trivial, fun c r w2 hExec _ _ => ?_⟩
    cases r with
    | error e => exact keeps_ret fun _ _ _ => nofun
    | ok time =>
      obtain ⟨rfl, rfl⟩ := chainRead_ok hExec
      refine keeps_ret fun w3 _ hGrows now hSome => ?_
      rw [← Option.some.inj hSome]
      exact hGrows.time
  · exact keeps_ret fun _ _ _ => nofun

theorem keeps_retryCancellingAgreements :
    Keeps config allow t (fun _ _ => True) (retryCancellingAgreements config) w := by
  refine keeps_select (fun _ => trivial) fun r w1 _ _ hListed => ?_
  cases r with
  | error e => exact keeps_done
  | ok rows =>
    have hRows : ∀ p ∈ rows, w1.Read p.1 p.2 ∧ p.2.status = .cancelling := by
      intro p hMem
      obtain ⟨now, requests, hSelects⟩ := (hListed rows rfl).selected p hMem
      simp only [AgreementQuery.selects, Bool.and_eq_true, decide_eq_true_eq] at hSelects
      exact ⟨(hListed rows rfl).read p hMem, hSelects.1.1⟩
    dsimp only
    split
    · exact keeps_done
    · refine keeps_bind keeps_readChainNow fun chainNow w2 _ hGrows2 hNow2 => ?_
      refine keeps_free (fun _ => trivial) fun started w3 _ hGrows3 => ?_
      have hGrows := hGrows2.trans hGrows3
      refine keeps_bind (keeps_retryEach
        (fun p hMem => ⟨(hRows p hMem).1.mono hGrows, (hRows p hMem).2⟩)
        fun now hSome => Nat.le_trans (hNow2 now hSome) hGrows3.time) ?_
      exact fun logs w4 _ _ _ => keeps_done

end Retry

end Dipper
