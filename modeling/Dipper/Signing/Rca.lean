import Dipper.Registry.Row

/-! The agreement that goes on-chain and the domain it is hashed under.  The terms of a row convert
to a `RecurringCollectionAgreement`, whose identity is derived from five of its fields and whose
version hash is its EIP-712 hash under the collector's domain; the domain is what the collector
reports of itself, once it passes the checks made of it. -/

namespace Dipper

structure Eip712Domain where
  name : Option String
  version : Option String
  chainId : Option Nat
  verifyingContract : Option Address
  salt : Option (List UInt8)
  deriving DecidableEq, Repr

/-- What the collector's `eip712Domain()` returns. -/
structure DomainReport where
  fields : UInt8
  name : String
  version : String
  chainId : Nat
  verifyingContract : Address
  salt : List UInt8
  extensions : List Nat
  deriving DecidableEq, Repr

/-- The domain that the collector hashes under: the fields its bitmap names. -/
def DomainReport.domain (r : DomainReport) : Eip712Domain where
  name := if r.fields.toNat.testBit 0 then some r.name else none
  version := if r.fields.toNat.testBit 1 then some r.version else none
  chainId := if r.fields.toNat.testBit 2 then some r.chainId else none
  verifyingContract := if r.fields.toNat.testBit 3 then some r.verifyingContract else none
  salt := if r.fields.toNat.testBit 4 then some r.salt else none

def maxDomainFieldLen : Nat := 256

def reportsOf (recurringCollector : Address) : String :=
  "RecurringCollector at " ++ Address.text recurringCollector ++ " reports "

def refuseWhen (refused : Prop) [Decidable refused] (message : String) : Except String Unit :=
  if refused then .error message else .ok ()

/-- A name or version has at least one byte and not too many. -/
def checkDomainField (recurringCollector : Address) (label value : String) :
    Except String Unit :=
  refuseWhen (value.utf8ByteSize = 0 ∨ maxDomainFieldLen < value.utf8ByteSize)
    (reportsOf recurringCollector ++ "an EIP-712 domain " ++ label ++ " of " ++
      toString value.utf8ByteSize ++ " bytes; expected 1..=" ++ toString maxDomainFieldLen)

/-- Validate a report against the configured chain id and address, and build the domain dipper
hashes under. -/
def domainFromReport (r : DomainReport) (expectedChainId : Nat) (recurringCollector : Address) :
    Except String Eip712Domain := do
  refuseWhen (r.fields ≠ 0x0f)
    (reportsOf recurringCollector ++ "EIP-712 domain field bitmap 0x" ++
      String.ofList (hexDigits 2 r.fields.toNat) ++
      ", expected 0x0f (name, version, chainId, verifyingContract)")
  refuseWhen (r.extensions ≠ [])
    (reportsOf recurringCollector ++ toString r.extensions.length ++
      " EIP-5267 domain extensions; dipper cannot reproduce extended domains")
  checkDomainField recurringCollector "name" r.name
  checkDomainField recurringCollector "version" r.version
  refuseWhen (r.chainId ≠ expectedChainId)
    (reportsOf recurringCollector ++ "chain id " ++ toString r.chainId ++
      ", but dipper is configured for chain id " ++ toString expectedChainId)
  refuseWhen (r.verifyingContract ≠ recurringCollector)
    (reportsOf recurringCollector ++ "verifying contract " ++ Address.text r.verifyingContract ++
      "; the configured address is likely a proxy admin or the wrong contract")
  return {
    name := some r.name
    version := some r.version
    chainId := some expectedChainId
    verifyingContract := some recurringCollector
    salt := none }

structure IndexingAgreementTermsMetadata where
  tokensPerSecond : Nat
  tokensPerEntityPerSecond : Nat
  subgraphDeploymentId : DeploymentId
  protocolNetwork : Nat
  chainId : Nat
  proposedAt : Nat
  deriving DecidableEq, Repr

structure IndexingAgreementTerms where
  payer : Address
  serviceProvider : Address
  dataService : Address
  deadline : Nat
  endsAt : Nat
  maxInitialTokens : Nat
  maxOngoingTokensPerSecond : Nat
  minSecondsPerCollection : Nat
  maxSecondsPerCollection : Nat
  conditions : Nat
  metadata : IndexingAgreementTermsMetadata
  deriving DecidableEq, Repr

structure RecurringCollectionAgreement where
  deadline : Nat
  endsAt : Nat
  payer : Address
  dataService : Address
  serviceProvider : Address
  maxInitialTokens : Nat
  maxOngoingTokensPerSecond : Nat
  minSecondsPerCollection : Nat
  maxSecondsPerCollection : Nat
  conditions : Nat
  nonce : Nat
  metadata : List UInt8
  deriving DecidableEq, Repr

abbrev Uuid : Type := Fin (2 ^ 128)

/-- The encodings and hashes of the contracts, which dipper and the collector share. -/
structure Encoding where
  /-- `IndexingAgreementTermsV1` as bytes. -/
  termsV1 : Nat → Nat → List UInt8
  /-- `AcceptIndexingAgreementMetadata` as bytes. -/
  acceptMetadata : DeploymentId → Nat → List UInt8 → List UInt8
  /-- The first 16 bytes of the hash of payer, data service, service provider, deadline and
  nonce. -/
  id16 : Address → Address → Address → Nat → Nat → IndexingAgreementId
  eip712SigningHash : RecurringCollectionAgreement → Eip712Domain → List UInt8
  length_eip712SigningHash : ∀ rca domain, (eip712SigningHash rca domain).length = 32

def deriveAgreementId (E : Encoding) (rca : RecurringCollectionAgreement) : IndexingAgreementId :=
  E.id16 rca.payer rca.dataService rca.serviceProvider rca.deadline rca.nonce

/-- Convert terms to the agreement that goes on-chain, with its identity there. -/
def intoSolRca (E : Encoding) (nonceUuid : Uuid) (terms : IndexingAgreementTerms) :
    RecurringCollectionAgreement × IndexingAgreementId :=
  let solTerms := E.termsV1 terms.metadata.tokensPerSecond terms.metadata.tokensPerEntityPerSecond
  let rca : RecurringCollectionAgreement :=
    { deadline := terms.deadline
      endsAt := terms.endsAt
      payer := terms.payer
      dataService := terms.dataService
      serviceProvider := terms.serviceProvider
      maxInitialTokens := terms.maxInitialTokens
      maxOngoingTokensPerSecond := terms.maxOngoingTokensPerSecond
      minSecondsPerCollection := terms.minSecondsPerCollection
      maxSecondsPerCollection := terms.maxSecondsPerCollection
      conditions := terms.conditions
      nonce := nonceUuid.val
      metadata := E.acceptMetadata terms.metadata.subgraphDeploymentId 0 solTerms }
  (rca, deriveAgreementId E rca)

def computeOnChainId (E : Encoding) (nonceUuid : Uuid) (terms : IndexingAgreementTerms) :
    IndexingAgreementId :=
  (intoSolRca E nonceUuid terms).2

end Dipper
