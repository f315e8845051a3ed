import Dipper.Sql
import Dipper.World

/-! The indexers dipper tells IISA to leave out of a deployment's group: those that declined it
within the lookback of their reason, and those whose agreement dipper is still cancelling. -/

namespace Dipper

structure Lookbacks where
  declinedIndexerLookbackDays : Int := 30
  priceRejectionLookbackDays : Int := 1
  transientRejectionLookbackMinutes : Int := 5
  uncertainRejectionLookbackDays : Int := 1
  deriving DecidableEq, Repr

def priceTooLow : String := "PRICE_TOO_LOW"

/-- Reasons that are not the indexer's fault, or clear once dipper is fixed. -/
def transientReasons : List String :=
  ["DEADLINE_EXPIRED", "SUBGRAPH_MANIFEST_UNAVAILABLE", "UNEXPECTED_SERVICE_PROVIDER",
    "AGREEMENT_EXPIRED", "UNSUPPORTED_METADATA_VERSION", "CAPACITY_EXCEEDED",
    "INDEXER_UNAVAILABLE", "INVALID_SIGNATURE", "REPLAY_DETECTED"]

def uncertainReasons : List String := ["SENDER_NOT_TRUSTED", "UNSPECIFIED"]

/-- The cases of `get_declined_indexers_by_deployment`, each with a window of its own. -/
inductive DeclinedWindow : Type
  | price
  | transient
  | uncertain
  | unoffered
  | standard
  deriving DecidableEq, Repr

def DeclinedWindow.lookback (lookbacks : Lookbacks) : DeclinedWindow → Int
  | .price => lookbacks.priceRejectionLookbackDays * 86400
  | .transient | .unoffered => lookbacks.transientRejectionLookbackMinutes * 60
  | .uncertain => lookbacks.uncertainRejectionLookbackDays * 86400
  | .standard => lookbacks.declinedIndexerLookbackDays * 86400

namespace AgreementRow

/-- An expiry that never had an offer transaction and has no reason. -/
def expiredUnoffered (row : AgreementRow) : Sql.Truth :=
  Sql.conj (Sql.conj (Sql.equals (some row.status) (some .expired)) (Sql.isNull row.offerTxHash))
    (Sql.isNull row.rejectionReason)

/-- The condition of a case, but for its time. -/
def inWindow (row : AgreementRow) : DeclinedWindow → Sql.Truth
  | .price => Sql.equals row.rejectionReason (some priceTooLow)
  | .transient => Sql.isIn row.rejectionReason transientReasons
  | .uncertain => Sql.isIn row.rejectionReason uncertainReasons
  | .unoffered => row.expiredUnoffered
  | .standard =>
    Sql.conj (Sql.neg (Sql.isIn (Sql.coalesce row.rejectionReason "")
      (priceTooLow :: transientReasons ++ uncertainReasons))) (Sql.neg row.expiredUnoffered)

def declinedStatuses : List IndexingAgreementStatus :=
  [.canceledByIndexer, .expired, .rejected, .abandonedByIndexer]

/-- The `WHERE` clause of `get_declined_indexers_by_deployment`, at time `now`. -/
def declined (lookbacks : Lookbacks) (now : Nat) (row : AgreementRow) : Sql.Truth :=
  let within (window : DeclinedWindow) : Sql.Truth := Sql.conj (row.inWindow window)
    (some (decide ((now : Int) - window.lookback lookbacks ≤ row.updatedAt)))
  Sql.conj (Sql.isIn (some row.status) declinedStatuses)
    (Sql.disj (Sql.disj (Sql.disj (Sql.disj (within .price) (within .transient))
      (within .uncertain)) (within .unoffered)) (within .standard))

end AgreementRow

namespace World

/-- The deployment's entry in `get_declined_indexers_by_deployment`. -/
def getDeclinedIndexers (w : World) (lookbacks : Lookbacks) (deployment : DeploymentId) :
    List IndexerId :=
  ((w.agreements.entries.filter fun e =>
    e.2.deploymentId = deployment && e.2.declined lookbacks w.now = some true).map
      (·.2.indexerId)).dedup

/-- The same with the indexers whose agreement dipper is still cancelling. -/
def excludeCancellingIndexers (w : World) (declined : List IndexerId)
    (deployment : DeploymentId) : List IndexerId :=
  ((w.agreements.entries.filter fun e =>
    e.2.deploymentId = deployment && e.2.status = .cancelling).map (·.2.indexerId)).foldl
    (fun excluded indexer => if indexer ∈ excluded then excluded else excluded ++ [indexer]) declined

def declinedIndexers (w : World) (lookbacks : Lookbacks) (deployment : DeploymentId) :
    List IndexerId :=
  w.excludeCancellingIndexers (w.getDeclinedIndexers lookbacks deployment) deployment

/-- The picks for a request are distinct, and none of them has declined its deployment or is on the
denylist. -/
def PicksOfferable (w : World) (lookbacks : Lookbacks) (denylist : List IndexerId)
    (request : IndexingRequestId) (picks : List SelectedIndexer) : Prop :=
  (picks.map (·.id)).Nodup ∧ ∀ stored ∈ w.requests.lookup request, ∀ pick ∈ picks,
    pick.id ∉ w.declinedIndexers lookbacks stored.deploymentId ∧ pick.id ∉ denylist

end World

end Dipper
