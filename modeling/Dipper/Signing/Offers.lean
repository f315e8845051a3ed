import Dipper.Concurrent.Dialogue
import Dipper.Concurrent.System
import Dipper.Registry.Database
import Dipper.Signing.Rca
import Dipper.Worker

/-! The shared domain and the agreements hashed under it.  Registrations read the domain and store
an agreement's version hash, a refresh replaces the domain, offers are rebuilt from the stored terms
and land in their own time, and cancels pass the hash that is stored. -/

namespace Dipper

namespace Signing

/-- The columns of an agreement's row that its offer and its cancel are made from.  `hashedUnder` is
the domain its version hash was computed under, which no statement stores. -/
structure RegisteredAgreement where
  nonceUuid : Uuid
  terms : IndexingAgreementTerms
  termsVersionHash : Option (List UInt8)
  hashedUnder : Eip712Domain
  deriving DecidableEq, Repr

inductive SignOp : Type
  | nowV7
  | readDomain
  | register (id : IndexingAgreementId) (agreement : RegisteredAgreement)
  | getAgreement (id : IndexingAgreementId)
  | eip712Domain
  /-- Put a fetched domain in place of the current one if it differs. -/
  | switchDomain (fetched : Eip712Domain)
  | offerViaManager (rca : RecurringCollectionAgreement)
  | cancelViaManager (id : IndexingAgreementId) (versionHash : List UInt8)
  /-- An offer whose caller no longer waits for it lands. -/
  | land (rca : RecurringCollectionAgreement)

def SignRes : SignOp → Type
  | .nowV7 => Uuid
  | .readDomain => Eip712Domain
  | .register _ _ => Except RegistryError Unit
  | .getAgreement _ => Except RegistryError (Option RegisteredAgreement)
  | .eip712Domain => Except String DomainReport
  | .switchDomain _ => Bool
  | .offerViaManager _ => Except String Unit
  | .cancelViaManager _ _ => Except String Unit
  | .land _ => Unit

/-- How an operation comes out.  A call that is `lost` took effect, but its caller sees an error. -/
inductive SignChoice : Type
  | ok
  | failed
  | lost
  | uuid (value : Uuid)
  | report (r : DomainReport)
  deriving DecidableEq, Repr

/-- The domain dipper's tasks share, the collector's report of its own, the registry, the offers
handed over, the hash the collector stores for each agreement, and the cancels sent. -/
structure SignState where
  rcaDomain : Eip712Domain
  report : DomainReport
  rows : AList fun _ : IndexingAgreementId => RegisteredAgreement := ∅
  offered : List RecurringCollectionAgreement := []
  stored : AList fun _ : IndexingAgreementId => List UInt8 := ∅
  cancels : List (IndexingAgreementId × List UInt8) := []

namespace SignState

def insert (s : SignState) (id : IndexingAgreementId) (agreement : RegisteredAgreement) :
    SignState :=
  { s with rows := s.rows.insert id agreement }

def handOver (s : SignState) (rca : RecurringCollectionAgreement) : SignState :=
  { s with offered := rca :: s.offered }

/-- The collector stores the hash of an offer's terms under the domain it reports. -/
def store (E : Encoding) (s : SignState) (rca : RecurringCollectionAgreement) : SignState :=
  { s with
    stored := s.stored.insert (deriveAgreementId E rca) (E.eip712SigningHash rca s.report.domain) }

def exec (E : Encoding) (s : SignState) :
    (o : SignOp) → SignChoice → Option (SignRes o × SignState)
  | .nowV7, .uuid value => some (value, s)
  | .readDomain, .ok => some (s.rcaDomain, s)
  | .register id agreement, .ok =>
    if s.rows.lookup id = none then some (.ok (), s.insert id agreement) else none
  | .register id agreement, .lost =>
    if s.rows.lookup id = none then some (.error .backend, s.insert id agreement) else none
  | .register _ _, .failed => some (.error .backend, s)
  | .getAgreement id, .ok => some (.ok (s.rows.lookup id), s)
  | .getAgreement _, .failed => some (.error .backend, s)
  | .eip712Domain, .report r => some (.ok r, s)
  | .eip712Domain, .failed => some (.error "RPC error", s)
  | .switchDomain fetched, .ok =>
    some (decide (s.rcaDomain ≠ fetched), { s with rcaDomain := fetched })
  | .offerViaManager rca, .ok => some (.ok (), (s.handOver rca).store E rca)
  | .offerViaManager rca, .lost => some (.error "RPC error", s.handOver rca)
  | .offerViaManager _, .failed => some (.error "RPC error", s)
  | .cancelViaManager id h, .ok => some (.ok (), { s with cancels := (id, h) :: s.cancels })
  | .cancelViaManager id h, .lost =>
    some (.error "RPC error", { s with cancels := (id, h) :: s.cancels })
  | .cancelViaManager _ _, .failed => some (.error "RPC error", s)
  | .land rca, .ok => some ((), s.store E rca)
  | _, _ => none

end SignState

abbrev SignAct : Type → Type := Concurrent.Prog SignOp SignRes

def ask (o : SignOp) : SignAct (SignRes o) := .perform o

/-- The version hash of new terms, with the domain it is computed under. -/
def computeTermsVersionHash (E : Encoding) (nonceUuid : Uuid) (terms : IndexingAgreementTerms) :
    SignAct (List UInt8 × Eip712Domain) := do
  let (rca, _) := intoSolRca E nonceUuid terms
  let domain : Eip712Domain ← ask .readDomain
  return (E.eip712SigningHash rca domain, domain)

def registerAgreement (E : Encoding) (terms : IndexingAgreementTerms) :
    SignAct (Except RegistryError IndexingAgreementId) := do
  let nonceUuid : Uuid ← ask .nowV7
  let agreementId := computeOnChainId E nonceUuid terms
  let (versionHash, domain) ← computeTermsVersionHash E nonceUuid terms
  match ← ask (.register agreementId
    { nonceUuid, terms, termsVersionHash := some versionHash, hashedUnder := domain }) with
  | .ok _ => return .ok agreementId
  | .error err => return .error err

def fetchRcaEip712Domain (chainId : Nat) (recurringCollector : Address) :
    SignAct (Except String Eip712Domain) := do
  match ← ask .eip712Domain with
  | .error err => return .error err
  | .ok r => return domainFromReport r chainId recurringCollector

/-- Fetch the domain again and switch to it; an error leaves the current one. -/
def refreshRcaEip712Domain (chainId : Nat) (recurringCollector : Address) :
    SignAct (Except String Bool) := do
  match ← fetchRcaEip712Domain chainId recurringCollector with
  | .error err => return .error err
  | .ok fetched =>
    let changed : Bool ← ask (.switchDomain fetched)
    return .ok changed

/-- Offer an agreement, rebuilt from the terms it was registered with. -/
def submitOffer (E : Encoding) (agreementId : IndexingAgreementId) :
    SignAct (Except String Unit) := do
  match ← ask (.getAgreement agreementId) with
  | .error _ => return .error "failed to get agreement"
  | .ok none => return .ok ()
  | .ok (some agreement) =>
    let (rca, derivedId) := intoSolRca E agreement.nonceUuid agreement.terms
    if derivedId ≠ agreementId then return .error "derived on-chain ID drift"
    match ← ask (.offerViaManager rca) with
    | .error err => return .error err
    | .ok _ => return .ok ()

/-- The stored terms hash a cancel needs; only one of 32 bytes will do. -/
def RegisteredAgreement.cancelHash (agreement : RegisteredAgreement) : Option (List UInt8) :=
  agreement.termsVersionHash.filter fun h => h.length = 32

def cancelAgreement (agreementId : IndexingAgreementId) : SignAct (Except String Unit) := do
  match ← ask (.getAgreement agreementId) with
  | .error _ => return .error "failed to get agreement"
  | .ok none => return .ok ()
  | .ok (some agreement) =>
    match agreement.cancelHash with
    | none => return .error "missing terms version hash"
    | some versionHash =>
      match ← ask (.cancelViaManager agreementId versionHash) with
      | .error err => return .error err
      | .ok _ => return .ok ()

/-! The jobs of the services make the same calls of the manager for a row that both read. -/

section Jobs

open Concurrent.Prog (talks_bind talks_perform talks_pure)

variable {E : Encoding} {agreement : RegisteredAgreement} {a : IndexingAgreement}

/-- The row as the services read it: the terms and the hash the agreement was registered with. -/
structure RegisteredAgreement.ReadAs (agreement : RegisteredAgreement) (a : IndexingAgreement) :
    Prop where
  deadline : a.terms.deadline = agreement.terms.deadline
  termsVersionHash : a.termsVersionHash = agreement.termsVersionHash

/-- The job that submits an offer makes the one that is rebuilt from the row, unless that is no
longer the agreement's. -/
theorem offers_alike (hRow : agreement.ReadAs a) {talk : List (Concurrent.Prog.Exchange Op Res)}
    {signed : List (Concurrent.Prog.Exchange SignOp SignRes)} {out : Except JobError Unit}
    {signedOut : Except String Unit}
    (h : (SubmitOffer.submitOffer a).Talks talk (some out))
    (hSigned : (submitOffer E a.id).Talks (⟨.getAgreement a.id, .ok (some agreement)⟩ :: signed)
      (some signedOut)) :
    (computeOnChainId E agreement.nonceUuid agreement.terms ≠ a.id ∧ signed = []) ∨
    ∃ rca answer answer' rest, deriveAgreementId E rca = a.id ∧
      signed = [⟨.offerViaManager rca, answer⟩] ∧
      talk = ⟨.offerViaManager (deriveAgreementId E rca) rca.deadline, answer'⟩ :: rest := by
  obtain ⟨answer', talk1, rest, h1, -, rfl⟩ := talks_bind h
  obtain rfl := talks_perform h1
  cases hSigned with
  | op hSigned =>
    change (if computeOnChainId E agreement.nonceUuid agreement.terms ≠ a.id then
      (pure (.error "derived on-chain ID drift") : SignAct (Except String Unit)) else _).Talks _ _
      at hSigned
    split at hSigned
    · rename_i hDrift
      exact .inl ⟨hDrift, (talks_pure hSigned).2⟩
    · rename_i hSame
      have hId := not_not.mp hSame
      obtain ⟨answer, signed1, signed2, h2, h3, rfl⟩ := talks_bind hSigned
      obtain rfl := talks_perform h2
      have hRest : signed2 = [] := by
        cases answer with
        | error _ => exact (talks_pure h3).2
        | ok _ => exact (talks_pure h3).2
      refine .inr ⟨_, answer, answer', rest, hId, by rw [hRest]; rfl, ?_⟩
      rw [show deriveAgreementId E _ = a.id from hId]
      change _ = ⟨Op.offerViaManager a.id agreement.terms.deadline, _⟩ :: rest
      rw [← hRow.deadline]
      rfl

/-- A cancel that the services send passes the hash that is stored, and none goes out without. -/
theorem cancels_alike (hRow : agreement.ReadAs a) {talk : List (Concurrent.Prog.Exchange Op Res)}
    {signed : List (Concurrent.Prog.Exchange SignOp SignRes)} {out : LiveCancel}
    {signedOut : Except String Unit}
    (h : (cancelAgreementOnChain a).Talks talk (some out))
    (hSigned : (cancelAgreement a.id).Talks (⟨.getAgreement a.id, .ok (some agreement)⟩ :: signed)
      (some signedOut)) :
    (talk = [] ∧ signed = []) ∨ ∃ versionHash answer answer' rest,
      signed = [⟨.cancelViaManager a.id versionHash, answer⟩] ∧
      talk = ⟨.cancelViaManager a.id versionHash, answer'⟩ :: rest := by
  have hHash : agreement.cancelHash = cancelHash a := by
    rw [RegisteredAgreement.cancelHash, cancelHash, hRow.termsVersionHash]
  unfold cancelAgreementOnChain at h
  cases hSigned with
  | op hSigned =>
    simp only [Concurrent.Prog.bind, hHash] at hSigned
    cases hStored : cancelHash a with
    | none =>
      rw [hStored] at h hSigned
      exact .inl ⟨(talks_pure h).2, (talks_pure hSigned).2⟩
    | some versionHash =>
      rw [hStored] at h hSigned
      obtain ⟨answer', talk1, rest, h1, -, rfl⟩ := talks_bind h
      obtain rfl := talks_perform h1
      obtain ⟨answer, signed1, signed2, h2, h3, rfl⟩ := talks_bind hSigned
      obtain rfl := talks_perform h2
      have hRest : signed2 = [] := by
        cases answer with
        | error _ => exact (talks_pure h3).2
        | ok _ => exact (talks_pure h3).2
      exact .inr ⟨versionHash, answer, answer', rest, by rw [hRest]; rfl, rfl⟩

end Jobs

inductive SignTask : Type
  | register (terms : IndexingAgreementTerms)
  | refresh
  | submit (id : IndexingAgreementId)
  | cancel (id : IndexingAgreementId)

structure SignConfig where
  encoding : Encoding
  chainId : Nat
  recurringCollector : Address

def SignTask.run (config : SignConfig) : SignTask → SignAct Unit
  | .register terms => do
    let _ ← registerAgreement config.encoding terms
    return ()
  | .refresh => do
    let _ ← refreshRcaEip712Domain config.chainId config.recurringCollector
    return ()
  | .submit id => do
    let _ ← submitOffer config.encoding id
    return ()
  | .cancel id => do
    let _ ← cancelAgreement id
    return ()

/-- Any number of tasks at once, over a collector whose domain changes and on which the offers handed
over land in their own time. -/
def signing (config : SignConfig) (allow : SignState → Unit → SignOp → SignChoice → Prop) :
    Concurrent.System SignState Unit SignOp SignRes Unit SignChoice
      (SignTask ⊕ RecurringCollectionAgreement) DomainReport where
  exec := SignState.exec config.encoding
  start s seed :=
    match seed with
    | .inl task => some ⟨(), task.run config⟩
    | .inr rca => if rca ∈ s.offered then some ⟨(), ask (.land rca)⟩ else none
  env s report := some { s with report }
  allow := allow
  exclusive _ := false
  drops := true

end Signing

end Dipper
