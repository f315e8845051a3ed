import Dipper.Concurrent.Discipline
import Dipper.Signing.Offers

/-! The version hash of a cancel against the one the collector stores.  A row keeps the hash that was
computed when it was registered, under the domain dipper held then; the collector computes its own
when the offer lands.  The two agree as long as each offer lands while the collector reports the
domain its row was hashed under, and nothing makes it wait for that. -/

namespace Dipper

namespace Signing

open Concurrent

variable {E : Encoding} {config : SignConfig} {s s' : SignState}

section Effects

/-- The collector reports the domain that the agreement of this offer was hashed under. -/
def SignState.HashedUnderReport (E : Encoding) (s : SignState)
    (rca : RecurringCollectionAgreement) : Prop :=
  ∀ agreement ∈ s.rows.lookup (deriveAgreementId E rca), agreement.hashedUnder = s.report.domain

instance (E : Encoding) (s : SignState) (rca : RecurringCollectionAgreement) :
    Decidable (s.HashedUnderReport E rca) := by
  unfold SignState.HashedUnderReport
  infer_instance

/-- Offers land while the collector reports the domain they were hashed under. -/
def landsAsHashed (E : Encoding) (s : SignState) (_ : Unit) : SignOp → SignChoice → Prop
  | .offerViaManager rca, .ok => s.HashedUnderReport E rca
  | .land rca, _ => s.HashedUnderReport E rca
  | _, _ => True

instance (E : Encoding) (s : SignState) (t : Unit) (o : SignOp) (c : SignChoice) :
    Decidable (landsAsHashed E s t o c) := by
  unfold landsAsHashed
  split <;> infer_instance

/-- What an operation that meets the condition can do to the state. -/
def SignEffect (E : Encoding) (s s' : SignState) : SignOp → Prop
  | .register id agreement =>
    s' = s ∨ (s.rows.lookup id = none ∧ s' = s.insert id agreement)
  | .switchDomain fetched => s' = { s with rcaDomain := fetched }
  | .offerViaManager rca =>
    s' = s ∨ s' = s.handOver rca ∨
      (s.HashedUnderReport E rca ∧ s' = (s.handOver rca).store E rca)
  | .cancelViaManager id versionHash =>
    s' = s ∨ s' = { s with cancels := (id, versionHash) :: s.cancels }
  | .land rca => s.HashedUnderReport E rca ∧ s' = s.store E rca
  | _ => s' = s

theorem effect_of_performs {t : Unit} {o : SignOp} {r : SignRes o}
    (h : (signing config (landsAsHashed config.encoding)).Performs t s o r s') :
    SignEffect config.encoding s s' o := by
  obtain ⟨c, hAllow, hExec⟩ := h
  change s.exec config.encoding o c = some (r, s') at hExec
  cases o with
  | register id agreement =>
    cases c with
    | ok | lost =>
      simp only [SignState.exec, Option.ite_none_right_eq_some, Option.some.injEq] at hExec
      obtain ⟨hNew, hEq⟩ := hExec
      cases hEq
      exact .inr ⟨hNew, rfl⟩
    | failed =>
      cases hExec
      exact .inl rfl
    | _ => cases hExec
  | offerViaManager rca =>
    cases c with
    | ok =>
      cases hExec
      exact .inr (.inr ⟨hAllow, rfl⟩)
    | lost =>
      cases hExec
      exact .inr (.inl rfl)
    | failed =>
      cases hExec
      exact .inl rfl
    | _ => cases hExec
  | cancelViaManager id versionHash =>
    cases c with
    | ok | lost =>
      cases hExec
      exact .inr rfl
    | failed =>
      cases hExec
      exact .inl rfl
    | _ => cases hExec
  | land rca =>
    cases c with
    | ok =>
      cases hExec
      exact ⟨hAllow, rfl⟩
    | _ => cases hExec
  | _ =>
    cases c <;> cases hExec <;> rfl

/-- Rows stay as they were registered. -/
def SignState.Grows (s s' : SignState) : Prop :=
  ∀ id agreement, s.rows.lookup id = some agreement → s'.rows.lookup id = some agreement

theorem SignState.Grows.refl (s : SignState) : s.Grows s := fun _ _ h => h

theorem SignState.grows_insert {id : IndexingAgreementId} {agreement : RegisteredAgreement}
    (h : s.rows.lookup id = none) : s.Grows (s.insert id agreement) := by
  intro id' agreement' hRow
  have hNe : id' ≠ id := by
    rintro rfl
    rw [h] at hRow
    cases hRow
  exact (AList.lookup_insert_ne hNe).trans hRow

theorem SignEffect.grows {o : SignOp} (h : SignEffect E s s' o) : s.Grows s' := by
  cases o with
  | register id agreement =>
    rcases h with rfl | ⟨hNew, rfl⟩
    · exact .refl _
    · exact SignState.grows_insert hNew
  | offerViaManager rca =>
    rcases h with rfl | rfl | ⟨-, rfl⟩ <;> exact .refl _
  | cancelViaManager id versionHash =>
    rcases h with rfl | rfl <;> exact .refl _
  | land rca =>
    obtain ⟨-, rfl⟩ := h
    exact .refl _
  | _ =>
    obtain rfl := h
    exact .refl _

end Effects

section Invariant

def RegisteredAgreement.rca (E : Encoding) (agreement : RegisteredAgreement) :
    RecurringCollectionAgreement :=
  (intoSolRca E agreement.nonceUuid agreement.terms).1

/-- The stored hash is that of the terms under the domain of the time. -/
def RegisteredAgreement.Hashed (E : Encoding) (agreement : RegisteredAgreement) : Prop :=
  agreement.termsVersionHash =
    some (E.eip712SigningHash (agreement.rca E) agreement.hashedUnder)

/-- The offer is the one of a registered agreement. -/
def SignState.Offers (E : Encoding) (s : SignState) (rca : RecurringCollectionAgreement) : Prop :=
  ∃ agreement, s.rows.lookup (deriveAgreementId E rca) = some agreement ∧ agreement.rca E = rca

def SignState.HasHash (s : SignState) (id : IndexingAgreementId) (versionHash : List UInt8) :
    Prop :=
  ∃ agreement, s.rows.lookup id = some agreement ∧ agreement.termsVersionHash = some versionHash

theorem SignState.Offers.grows {rca : RecurringCollectionAgreement} (h : s.Offers E rca)
    (hGrows : s.Grows s') : s'.Offers E rca := by
  obtain ⟨agreement, hRow, hRca⟩ := h
  exact ⟨agreement, hGrows _ _ hRow, hRca⟩

theorem SignState.HasHash.grows {id : IndexingAgreementId} {versionHash : List UInt8}
    (h : s.HasHash id versionHash) (hGrows : s.Grows s') : s'.HasHash id versionHash := by
  obtain ⟨agreement, hRow, hHash⟩ := h
  exact ⟨agreement, hGrows _ _ hRow, hHash⟩

/-- What the collector stores and what dipper has sent come from the rows. -/
structure SignState.Agrees (E : Encoding) (s : SignState) : Prop where
  hashed : ∀ {id agreement}, s.rows.lookup id = some agreement → agreement.Hashed E
  offered : ∀ rca ∈ s.offered, s.Offers E rca
  stored : ∀ {id versionHash}, s.stored.lookup id = some versionHash → s.HasHash id versionHash
  cancels : ∀ x ∈ s.cancels, s.HasHash x.1 x.2

theorem SignState.Agrees.insert {id : IndexingAgreementId} {agreement : RegisteredAgreement}
    (h : s.Agrees E) (hNew : s.rows.lookup id = none) (hHashed : agreement.Hashed E) :
    (s.insert id agreement).Agrees E where
  hashed {id' agreement'} hRow := by
    by_cases hEq : id' = id
    · subst hEq
      have hSame := (AList.lookup_insert s.rows).symm.trans hRow
      obtain rfl := Option.some.inj hSame
      exact hHashed
    · exact h.hashed ((AList.lookup_insert_ne hEq).symm.trans hRow)
  offered rca hMem := (h.offered rca hMem).grows (SignState.grows_insert hNew)
  stored hStored := (h.stored hStored).grows (SignState.grows_insert hNew)
  cancels x hMem := (h.cancels x hMem).grows (SignState.grows_insert hNew)

theorem SignState.Agrees.handOver {rca : RecurringCollectionAgreement} (h : s.Agrees E)
    (hOffers : s.Offers E rca) : (s.handOver rca).Agrees E where
  hashed hRow := h.hashed hRow
  offered other hMem := by
    rcases List.mem_cons.mp hMem with rfl | hOld
    · exact hOffers
    · exact h.offered other hOld
  stored hStored := h.stored hStored
  cancels x hMem := h.cancels x hMem

/-- The collector computes the stored hash of an offer that lands under the domain of its row. -/
theorem SignState.Agrees.store {rca : RecurringCollectionAgreement} (h : s.Agrees E)
    (hOffers : s.Offers E rca) (hUnder : s.HashedUnderReport E rca) : (s.store E rca).Agrees E where
  hashed hRow := h.hashed hRow
  offered other hMem := h.offered other hMem
  stored {id versionHash} hStored := by
    by_cases hEq : id = deriveAgreementId E rca
    · subst hEq
      have hSame := (AList.lookup_insert s.stored).symm.trans hStored
      obtain rfl := Option.some.inj hSame
      obtain ⟨agreement, hRow, hRca⟩ := hOffers
      refine ⟨agreement, hRow, ?_⟩
      have hHashed := h.hashed hRow
      rw [RegisteredAgreement.Hashed, hRca, hUnder agreement hRow] at hHashed
      exact hHashed
    · exact h.stored ((AList.lookup_insert_ne hEq).symm.trans hStored)
  cancels x hMem := h.cancels x hMem

theorem SignState.Agrees.cancel {id : IndexingAgreementId} {versionHash : List UInt8}
    (h : s.Agrees E) (hHash : s.HasHash id versionHash) :
    SignState.Agrees E { s with cancels := (id, versionHash) :: s.cancels } where
  hashed hRow := h.hashed hRow
  offered rca hMem := h.offered rca hMem
  stored hStored := h.stored hStored
  cancels x hMem := by
    rcases List.mem_cons.mp hMem with rfl | hOld
    · exact hHash
    · exact h.cancels x hOld

/-- What is offered and cancelled is what is registered. -/
def SignOp.Pre (E : Encoding) (s : SignState) : SignOp → Prop
  | .register _ agreement => agreement.Hashed E
  | .offerViaManager rca | .land rca => s.Offers E rca
  | .cancelViaManager id versionHash => s.HasHash id versionHash
  | _ => True

def hashDiscipline (E : Encoding) : Discipline SignState Unit SignOp where
  inv s := s.Agrees E
  pre _ s o := o.Pre E s
  rely _ s s' := s.Grows s'

theorem SignEffect.agrees {o : SignOp} (h : SignEffect E s s' o) (hAgrees : s.Agrees E)
    (hPre : o.Pre E s) : s'.Agrees E := by
  cases o with
  | register id agreement =>
    rcases h with rfl | ⟨hNew, rfl⟩
    · exact hAgrees
    · exact hAgrees.insert hNew hPre
  | offerViaManager rca =>
    rcases h with rfl | rfl | ⟨hUnder, rfl⟩
    · exact hAgrees
    · exact hAgrees.handOver hPre
    · exact (hAgrees.handOver hPre).store hPre hUnder
  | cancelViaManager id versionHash =>
    rcases h with rfl | rfl
    · exact hAgrees
    · exact hAgrees.cancel hPre
  | land rca =>
    obtain ⟨hUnder, rfl⟩ := h
    exact hAgrees.store hPre hUnder
  | switchDomain fetched =>
    obtain rfl := h
    exact ⟨hAgrees.hashed, hAgrees.offered, hAgrees.stored, hAgrees.cancels⟩
  | _ =>
    obtain rfl := h
    exact hAgrees

theorem hashDiscipline_sound :
    (hashDiscipline config.encoding).Sound (signing config (landsAsHashed config.encoding)) where
  refl _ s := .refl s
  trans hab hbc := fun id agreement hRow => hbc id agreement (hab id agreement hRow)
  keeps hInv hPre hPerforms := (effect_of_performs hPerforms).agrees hInv hPre
  cross _ _ _ hPerforms := (effect_of_performs hPerforms).grows
  env hInv hEnv := by
    cases hEnv
    exact ⟨⟨hInv.hashed, hInv.offered, hInv.stored, hInv.cancels⟩, fun _ => .refl _⟩

end Invariant

section Tasks

variable {t : Unit}

theorem keeps_getAgreement (id : IndexingAgreementId) :
    (hashDiscipline config.encoding).Keeps (signing config (landsAsHashed config.encoding)) t
      (fun r s => ∀ agreement, r = .ok (some agreement) → s.rows.lookup id = some agreement)
      (ask (.getAgreement id)) s := by
  refine .perform hashDiscipline_sound fun s1 _ _ => ⟨trivial, ?_⟩
  intro r s2 hPerforms s3 _ hGrows agreement hRead
  obtain ⟨c, -, hExec⟩ := hPerforms
  change s1.exec config.encoding (.getAgreement id) c = some (r, s2) at hExec
  subst hRead
  cases c with
  | ok =>
    have hBoth := Option.some.inj hExec
    have hRow : s1.rows.lookup id = some agreement := Except.ok.inj (congrArg Prod.fst hBoth)
    have hSame : s1 = s2 := congrArg Prod.snd hBoth
    subst hSame
    exact hGrows _ _ hRow
  | _ => cases hExec

theorem keeps_registerAgreement (terms : IndexingAgreementTerms) :
    (hashDiscipline config.encoding).Keeps (signing config (landsAsHashed config.encoding)) t
      (fun _ _ => True) (registerAgreement config.encoding terms) s := by
  refine .op hashDiscipline_sound fun s1 _ _ => ⟨trivial, ?_⟩
  intro (nonceUuid : Uuid) s2 _ _
  -- Whatever the domain is when it is read, the row is hashed under it.
  refine .op hashDiscipline_sound fun s3 _ _ => ⟨trivial, ?_⟩
  intro (domain : Eip712Domain) s4 _ _
  refine .op hashDiscipline_sound fun s5 _ _ => ⟨rfl, ?_⟩
  intro (r : Except RegistryError Unit) s6 _ _
  cases r <;> exact .ret fun _ _ _ => trivial

theorem keeps_fetchRcaEip712Domain (chainId : Nat) (recurringCollector : Address) :
    (hashDiscipline config.encoding).Keeps (signing config (landsAsHashed config.encoding)) t
      (fun _ _ => True) (fetchRcaEip712Domain chainId recurringCollector) s := by
  refine .op hashDiscipline_sound fun s1 _ _ => ⟨trivial, ?_⟩
  intro (r : Except String DomainReport) s2 _ _
  cases r <;> exact .ret fun _ _ _ => trivial

theorem keeps_refreshRcaEip712Domain (chainId : Nat) (recurringCollector : Address) :
    (hashDiscipline config.encoding).Keeps (signing config (landsAsHashed config.encoding)) t
      (fun _ _ => True) (refreshRcaEip712Domain chainId recurringCollector) s := by
  refine .bind hashDiscipline_sound
    ((keeps_fetchRcaEip712Domain chainId recurringCollector).mono fun r s1 _ _ => ?_)
  cases r with
  | error err => exact .ret fun _ _ _ => trivial
  | ok fetched =>
    refine .op hashDiscipline_sound fun s3 _ _ => ⟨trivial, fun changed s4 _ _ => ?_⟩
    exact .ret fun _ _ _ => trivial

theorem keeps_submitOffer (id : IndexingAgreementId) :
    (hashDiscipline config.encoding).Keeps (signing config (landsAsHashed config.encoding)) t
      (fun _ _ => True) (submitOffer config.encoding id) s := by
  refine .bind hashDiscipline_sound ((keeps_getAgreement id).mono fun r s1 _ hRead => ?_)
  match r, hRead with
  | .error _, _ => exact .ret fun _ _ _ => trivial
  | .ok none, _ => exact .ret fun _ _ _ => trivial
  | .ok (some agreement), hRead =>
    dsimp only
    split
    · exact .ret fun _ _ _ => trivial
    · rename_i hDerived
      have hId : deriveAgreementId config.encoding (agreement.rca config.encoding) = id :=
        Decidable.not_not.mp hDerived
      refine .op hashDiscipline_sound fun s2 _ hGrows => ⟨⟨agreement, ?_, rfl⟩, ?_⟩
      · change s2.rows.lookup (deriveAgreementId _ (agreement.rca config.encoding)) = some agreement
        rw [hId]
        exact hGrows _ _ (hRead agreement rfl)
      · intro (answer : Except String Unit) s3 _ _
        cases answer <;> exact .ret fun _ _ _ => trivial

theorem keeps_cancelAgreement (id : IndexingAgreementId) :
    (hashDiscipline config.encoding).Keeps (signing config (landsAsHashed config.encoding)) t
      (fun _ _ => True) (cancelAgreement id) s := by
  refine .bind hashDiscipline_sound ((keeps_getAgreement id).mono fun r s1 _ hRead => ?_)
  match r, hRead with
  | .error _, _ => exact .ret fun _ _ _ => trivial
  | .ok none, _ => exact .ret fun _ _ _ => trivial
  | .ok (some agreement), hRead =>
    dsimp only
    cases hHash : agreement.cancelHash with
    | none => exact .ret fun _ _ _ => trivial
    | some versionHash =>
      have hStored : agreement.termsVersionHash = some versionHash :=
        (Option.filter_eq_some_iff.mp hHash).1
      refine .op hashDiscipline_sound fun s2 _ hGrows => ⟨⟨agreement, ?_, hStored⟩, ?_⟩
      · exact hGrows _ _ (hRead agreement rfl)
      · intro (answer : Except String Unit) s3 _ _
        cases answer <;> exact .ret fun _ _ _ => trivial

theorem keeps_discarding {β : Type} {p : SignAct β}
    (h : (hashDiscipline config.encoding).Keeps (signing config (landsAsHashed config.encoding)) t
      (fun _ _ => True) p s) :
    (hashDiscipline config.encoding).Keeps (signing config (landsAsHashed config.encoding)) t
      (fun _ _ => True) (do let _ ← p; return ()) s := by
  refine .bind hashDiscipline_sound (h.mono fun _ _ _ _ => ?_)
  exact .ret fun _ _ _ => trivial

theorem hashDiscipline_starts :
    (hashDiscipline config.encoding).Starts (signing config (landsAsHashed config.encoding)) := by
  intro s seed th hInv hStart
  cases seed with
  | inl task =>
    cases hStart
    cases task with
    | register terms => exact keeps_discarding (keeps_registerAgreement terms)
    | refresh => exact keeps_discarding (keeps_refreshRcaEip712Domain _ _)
    | submit id => exact keeps_discarding (keeps_submitOffer id)
    | cancel id => exact keeps_discarding (keeps_cancelAgreement id)
  | inr rca =>
    obtain ⟨hOffered, hEq⟩ := Option.ite_none_right_eq_some.mp hStart
    cases hEq
    refine .perform hashDiscipline_sound fun s1 _ hGrows => ⟨?_, fun _ _ _ _ _ _ => trivial⟩
    exact (hInv.offered rca hOffered).grows hGrows

end Tasks

section Runs

/-- The system as dipper starts, with the domain it fetched and what the collector reports. -/
def SignState.new (rcaDomain : Eip712Domain) (report : DomainReport) : SignState where
  rcaDomain := rcaDomain
  report := report

/-- Every cancel passes the hash the collector stores for its agreement, in every run in which each
offer lands while the collector reports the domain that its agreement was hashed under. -/
theorem cancels_pass_stored_hash {rcaDomain : Eip712Domain} {report : DomainReport}
    {c : (signing config (landsAsHashed config.encoding)).Config}
    (hRun : (signing config (landsAsHashed config.encoding)).Run
      (SignState.new rcaDomain report, []) c)
    {id : IndexingAgreementId} {versionHash hash : List UInt8}
    (hCancel : (id, versionHash) ∈ c.1.cancels) (hStored : c.1.stored.lookup id = some hash) :
    versionHash = hash := by
  have hInit : (SignState.new rcaDomain report).Agrees config.encoding := by
    refine ⟨fun h => ?_, nofun, fun h => ?_, nofun⟩ <;> cases h
  obtain ⟨hInv, -⟩ := Discipline.run_restrict hashDiscipline_sound hashDiscipline_starts hInit hRun
  obtain ⟨agreement, hRow, hHash⟩ := hInv.cancels _ hCancel
  obtain ⟨other, hOther, hOtherHash⟩ := hInv.stored hStored
  have hSame : agreement = other := Option.some.inj (hRow.symm.trans hOther)
  subst hSame
  exact Option.some.inj (hHash.symm.trans hOtherHash)

abbrev SignMoves : Type :=
  List (Move SignChoice (SignTask ⊕ RecurringCollectionAgreement) DomainReport)

/-- A collector at address 7 of chain 1, with hashes that show only the domain's version. -/
def sampleSigning : SignConfig where
  encoding :=
    { termsV1 := fun _ _ => []
      acceptMetadata := fun _ _ terms => terms
      id16 := fun _ _ _ _ nonce => Fin.ofNat (2 ^ 128) nonce
      eip712SigningHash := fun _ domain =>
        List.replicate 32 (if domain.version = some "1" then 1 else 2)
      length_eip712SigningHash := fun _ _ => List.length_replicate }
  chainId := 1
  recurringCollector := 7

def reportOf (version : String) : DomainReport where
  fields := 0x0f
  name := "RecurringCollector"
  version := version
  chainId := 1
  verifyingContract := 7
  salt := []
  extensions := []

def sampleTerms : IndexingAgreementTerms where
  payer := 1
  serviceProvider := 2
  dataService := 3
  deadline := 100
  endsAt := 1000
  maxInitialTokens := 0
  maxOngoingTokensPerSecond := 1
  minSecondsPerCollection := 1
  maxSecondsPerCollection := 10
  conditions := 1
  metadata :=
    { tokensPerSecond := 1
      tokensPerEntityPerSecond := 1
      subgraphDeploymentId := "Qm"
      protocolNetwork := 1
      chainId := 1
      proposedAt := 0 }

def registered : SignMoves :=
  [.start (.inl (.register sampleTerms)), .op 0 (.uuid 5), .op 0 .ok, .op 0 .ok]

def upgradedAndRefreshed : SignMoves :=
  [.env (reportOf "2"), .start (.inl .refresh), .op 1 (.report (reportOf "2")), .op 1 .ok]

/-- The offer of the agreement lands, and the agreement is cancelled, by threads `i` and `i + 1`. -/
def offeredAndCancelled (i : Nat) : SignMoves :=
  [.start (.inl (.submit 5)), .op i .ok, .op i .ok,
    .start (.inl (.cancel 5)), .op (i + 1) .ok, .op (i + 1) .ok]

theorem exists_run (allow : SignState → Unit → SignOp → SignChoice → Prop)
    [∀ s t o choice, Decidable (allow s t o choice)] (l : SignMoves)
    (p : (signing sampleSigning allow).Config → Bool)
    (h : ((signing sampleSigning allow).runMoves (fun s t o choice => decide (allow s t o choice))
      (SignState.new (reportOf "1").domain (reportOf "1"), []) l).any p = true) :
    ∃ c, (signing sampleSigning allow).Run
      (SignState.new (reportOf "1").domain (reportOf "1"), []) c ∧ p c = true := by
  refine System.exists_run_of_moves (fun s t o choice hAllow => ?_) l p h
  exact of_decide_eq_true (p := allow s t o choice) hAllow

theorem cancel_passes_stored_hash : ∃ c,
    (signing sampleSigning (landsAsHashed sampleSigning.encoding)).Run
      (SignState.new (reportOf "1").domain (reportOf "1"), []) c ∧
    ∃ versionHash hash, (5, versionHash) ∈ c.1.cancels ∧ c.1.stored.lookup 5 = some hash ∧
      versionHash = hash := by
  obtain ⟨c, hRun, hSent⟩ := exists_run (landsAsHashed sampleSigning.encoding)
    (registered ++ offeredAndCancelled 1)
    (fun c => decide ((5, List.replicate 32 1) ∈ c.1.cancels ∧
      c.1.stored.lookup 5 = some (List.replicate 32 1))) (by decide +kernel)
  obtain ⟨hCancel, hStored⟩ := of_decide_eq_true hSent
  exact ⟨c, hRun, _, _, hCancel, hStored, cancels_pass_stored_hash hRun hCancel hStored⟩

/-- The collector is upgraded after the agreement is registered, and the refresh that follows the
upgrade leaves the row's hash as it is. -/
theorem cancel_passes_other_hash : ∃ c,
    (signing sampleSigning fun _ _ _ _ => True).Run
      (SignState.new (reportOf "1").domain (reportOf "1"), []) c ∧
    ∃ versionHash hash, (5, versionHash) ∈ c.1.cancels ∧ c.1.stored.lookup 5 = some hash ∧
      versionHash ≠ hash := by
  obtain ⟨c, hRun, hSent⟩ := exists_run (fun _ _ _ _ => True)
    (registered ++ upgradedAndRefreshed ++ offeredAndCancelled 2)
    (fun c => decide ((5, List.replicate 32 1) ∈ c.1.cancels ∧
      c.1.stored.lookup 5 = some (List.replicate 32 2))) (by decide +kernel)
  obtain ⟨hCancel, hStored⟩ := of_decide_eq_true hSent
  exact ⟨c, hRun, _, _, hCancel, hStored, by decide⟩

end Runs

end Signing

end Dipper
