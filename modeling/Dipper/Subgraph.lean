import Dipper.Registry.Row
import Mathlib.Data.Prod.Lex
import Mathlib.Order.WithBot
import Mathlib.Order.Fin.Basic
import Mathlib.Data.List.Forall2

/-! The subgraph that indexes the agreements and what dipper reads from it: the keyset cursor, the
entities of a page as they come over the wire, their parsing, and the cursor a page allows the
listener to move to. -/

namespace Dipper

def maxU64 : Nat := 2 ^ 64 - 1

def saturatingAdd (a b : Nat) : Nat := min (a + b) maxU64

inductive AgreementState : Type
  | notAccepted
  | accepted
  | canceledByServiceProvider
  | canceledByPayer
  deriving DecidableEq, Repr

def AgreementState.isCanceled : AgreementState → Bool
  | .canceledByServiceProvider | .canceledByPayer => true
  | _ => false

def AgreementState.reachedAccepted : AgreementState → Bool
  | .notAccepted => false
  | _ => true

/-- A position in the order of `(lastStateChangeBlock, id)`.  A block boundary, with no `id`, is
before every row of its block. -/
structure Cursor where
  block : Nat
  id : Option IndexingAgreementId
  deriving DecidableEq, Repr

namespace Cursor

def genesis : Cursor := ⟨0, none⟩

def atBlock (block : Nat) : Cursor := ⟨block, none⟩

def key (c : Cursor) : ℕ ×ₗ WithBot IndexingAgreementId := toLex (c.block, c.id)

theorem key_injective : Function.Injective key := by
  intro a b h
  cases a
  cases b
  cases h
  rfl

instance : LinearOrder Cursor := LinearOrder.lift' key key_injective

theorem lt_iff {a b : Cursor} : a < b ↔ a.block < b.block ∨
    (a.block = b.block ∧ @LT.lt (WithBot IndexingAgreementId) _ a.id b.id) := by
  change a.key < b.key ↔ _
  exact Prod.Lex.toLex_lt_toLex

theorem block_le_of_lt {a b : Cursor} (h : a < b) : a.block ≤ b.block := by
  rcases lt_iff.mp h with hLt | ⟨hEq, -⟩
  · exact Nat.le_of_lt hLt
  · exact Nat.le_of_eq hEq

theorem block_le_of_le {a b : Cursor} (h : a ≤ b) : a.block ≤ b.block := by
  rcases h.lt_or_eq with hLt | rfl
  · exact block_le_of_lt hLt
  · exact Nat.le_refl _

theorem atBlock_lt {block : Nat} {b : Nat} (h : block ≤ b) (id : IndexingAgreementId) :
    atBlock block < ⟨b, some id⟩ := by
  rcases Nat.lt_or_eq_of_le h with hLt | rfl
  · exact lt_iff.mpr (.inl hLt)
  · exact lt_iff.mpr (.inr ⟨rfl, WithBot.bot_lt_coe id⟩)

theorem atBlock_le {block : Nat} {c : Cursor} (h : block ≤ c.block) : atBlock block ≤ c := by
  obtain ⟨b, id⟩ := c
  cases id with
  | some id => exact le_of_lt (atBlock_lt h id)
  | none =>
    rcases Nat.lt_or_eq_of_le h with hLt | rfl
    · exact le_of_lt (lt_iff.mpr (.inl hLt))
    · exact le_refl _

theorem lt_of_block_lt {a b : Cursor} (h : a.block < b.block) : a < b := lt_iff.mpr (.inl h)

end Cursor

example : (⟨7, none⟩ : Cursor) < ⟨7, some 0⟩ ∧ (⟨7, some 3⟩ : Cursor) < ⟨8, none⟩ := by decide

/-- The state of an agreement as the subgraph has it. -/
structure AgreementStateSnapshot where
  agreementId : IndexingAgreementId
  indexer : Address
  state : AgreementState
  canceledBy : Address
  lastStateChangeBlock : Nat
  acceptedAt : Nat
  acceptedTx : String
  canceledAt : Nat
  canceledTx : String
  deriving DecidableEq, Repr

/-- Where a snapshot is in the order of the pages. -/
def AgreementStateSnapshot.cursor (s : AgreementStateSnapshot) : Cursor :=
  ⟨s.lastStateChangeBlock, some s.agreementId⟩

/-- An entity as it comes over the wire. -/
structure IndexingAgreementEntity where
  id : String
  indexer : String
  state : String
  canceledBy : String
  lastStateChangeBlock : String
  acceptedAt : String
  acceptedAtTx : String
  canceledAt : String
  canceledAtTx : String
  deriving DecidableEq, Repr

structure ChangedAgreementsResponse where
  indexingAgreements : List IndexingAgreementEntity
  blockNumber : Nat
  blockTimestamp : Option Nat
  deriving DecidableEq, Repr

inductive ChainEventError : Type
  | transient (message : String)
  | permanent (message : String)
  | rateLimited (message : String)
  deriving DecidableEq, Repr

structure ChangedAgreementsResult where
  snapshots : List AgreementStateSnapshot
  latestBlock : Nat
  latestBlockTimestamp : Option Nat
  cursor : Cursor
  deriving DecidableEq, Repr

section Parsing

def stripHexMark : List Char → List Char
  | '0' :: 'x' :: rest => rest
  | cs => cs

def hexNibble (c : Char) : Option Nat :=
  if '0' ≤ c ∧ c ≤ '9' then some (c.toNat - '0'.toNat)
  else if 'a' ≤ c ∧ c ≤ 'f' then some (c.toNat - 'a'.toNat + 10)
  else if 'A' ≤ c ∧ c ≤ 'F' then some (c.toNat - 'A'.toNat + 10)
  else none

def parseHex (cs : List Char) : Option Nat :=
  cs.foldl (fun acc c => do return 16 * (← acc) + (← hexNibble c)) (some 0)

/-- `width` hex digits, with or without the `0x` before them. -/
def parseFixedHex (width bound : Nat) [NeZero bound] (s : String) : Option (Fin bound) :=
  let hex := stripHexMark s.toList
  if hex.length = width then (parseHex hex).map (Fin.ofNat bound) else none

def parseAgreementId (s : String) : Option IndexingAgreementId := parseFixedHex 32 (2 ^ 128) s

def parseAddress (s : String) : Option Address := parseFixedHex 40 (2 ^ 160) s

/-- Anything shorter than an address reads as the zero address. -/
def parseAddressOrZero (s : String) : Option Address :=
  if (stripHexMark s.toList).length < 40 then some 0 else parseAddress s

def parseDigits (cs : List Char) : Option Nat :=
  cs.foldl (fun acc c => do
    let n ← acc
    if '0' ≤ c ∧ c ≤ '9' then some (10 * n + (c.toNat - '0'.toNat)) else none) (some 0)

/-- `str::parse::<u64>`: digits, with one leading plus allowed. -/
def parseU64 (s : String) : Option Nat :=
  let digits := match s.toList with
    | '+' :: rest => rest
    | cs => cs
  if digits.isEmpty then none
  else (parseDigits digits).bind fun n => if n ≤ maxU64 then some n else none

def parseState : String → Option AgreementState
  | "NotAccepted" => some .notAccepted
  | "Accepted" => some .accepted
  | "CanceledByServiceProvider" => some .canceledByServiceProvider
  | "CanceledByPayer" => some .canceledByPayer
  | _ => none

/-- A timestamp that does not parse reads as 0. -/
def parseBigintTimestamp (s : String) : Nat := (parseU64 s).getD 0

def parseSnapshot (e : IndexingAgreementEntity) : Option AgreementStateSnapshot := do
  return {
    agreementId := ← parseAgreementId e.id
    indexer := ← parseAddress e.indexer
    state := ← parseState e.state
    canceledBy := ← parseAddressOrZero e.canceledBy
    lastStateChangeBlock := ← parseU64 e.lastStateChangeBlock
    acceptedAt := parseBigintTimestamp e.acceptedAt
    acceptedTx := e.acceptedAtTx
    canceledAt := parseBigintTimestamp e.canceledAt
    canceledTx := e.canceledAtTx }

/-- Where a malformed entity is, if its block can be read. -/
def parseFailureCursor (e : IndexingAgreementEntity) : Option Cursor := do
  return { block := ← parseU64 e.lastStateChangeBlock, id := parseAgreementId e.id }

end Parsing

def checkPinnedBlock (pinned : Option Nat) (responseBlock : Nat) : Except ChainEventError Unit :=
  match pinned with
  | none => .ok ()
  | some pin =>
    if pin ≠ responseBlock then
      .error (.transient ("subgraph returned block " ++ toString responseBlock ++ " when " ++
        toString pin ++ " was pinned; response dropped"))
    else .ok ()

/-- A chain timestamp too far ahead of the clock is corrupt, unless the defence is bypassed. -/
def checkSubgraphSkew (ts now toleranceSecs : Nat) (bypass : Bool) :
    Except ChainEventError Unit :=
  let upperBound := saturatingAdd now toleranceSecs
  if bypass then .ok ()
  else if upperBound < ts then
    .error (.transient ("Subgraph returned timestamp " ++ toString ts ++ " > now+" ++
      toString toleranceSecs ++ "s (" ++ toString upperBound ++ "); response dropped as corrupt"))
  else .ok ()

def validateSortedKeyset : List AgreementStateSnapshot → Except ChainEventError Unit
  | a :: b :: rest =>
    if b.cursor ≤ a.cursor then
      .error (.transient ("subgraph response not sorted by (block, id) ascending: prev=(block " ++
        toString a.lastStateChangeBlock ++ ", id " ++ a.agreementId.text ++ "), cur=(block " ++
        toString b.lastStateChangeBlock ++ ", id " ++ b.agreementId.text ++ ")"))
    else validateSortedKeyset (b :: rest)
  | _ => .ok ()

/-- What parsing a page leaves: the snapshots, the earliest malformed entity that could be located
and the number of those that could not. -/
structure ParsedPage where
  snapshots : List AgreementStateSnapshot := []
  earliestFailure : Option Cursor := none
  unlocatableFailures : Nat := 0
  deriving DecidableEq, Repr

def ParsedPage.add (p : ParsedPage) (e : IndexingAgreementEntity) : ParsedPage :=
  match parseSnapshot e with
  | some snapshot => { p with snapshots := p.snapshots ++ [snapshot] }
  | none =>
    match parseFailureCursor e with
    | some failed =>
      { p with earliestFailure := some (match p.earliestFailure with
        | some existing => min existing failed
        | none => failed) }
    | none => { p with unlocatableFailures := p.unlocatableFailures + 1 }

def parsePage (entities : List IndexingAgreementEntity) : ParsedPage :=
  entities.foldl ParsedPage.add {}

def subgraphPageSize : Nat := 1000

def lastCursorOr (snapshots : List AgreementStateSnapshot) (since : Cursor) : Cursor :=
  match snapshots.getLast? with
  | some s => s.cursor
  | none => since

/-- The snapshots to reconcile and the cursor to move to: back before the earliest malformed
entity, past the last row of a full page, or past the head when the page is the last. -/
def readPage (since : Cursor) (r : ChangedAgreementsResponse) :
    Except ChainEventError ChangedAgreementsResult := do
  let page := parsePage r.indexingAgreements
  validateSortedKeyset page.snapshots
  let result (snapshots : List AgreementStateSnapshot) (cursor : Cursor) :=
    ChangedAgreementsResult.mk snapshots r.blockNumber r.blockTimestamp cursor
  if page.unlocatableFailures > 0 then
    pure (result page.snapshots since)
  else match page.earliestFailure with
    | some failed =>
      let kept := page.snapshots.filter fun s => s.cursor < failed
      pure (result kept (lastCursorOr kept since))
    | none =>
      if r.indexingAgreements.length ≥ subgraphPageSize then
        pure (result page.snapshots (lastCursorOr page.snapshots since))
      else
        pure (result page.snapshots (Cursor.atBlock (saturatingAdd r.blockNumber 1)))

/-- The subgraph: one row per agreement, in the order of the pages, and the block it has indexed
up to. -/
structure Subgraph where
  rows : List AgreementStateSnapshot
  head : Nat
  headTimestamp : Option Nat
  sorted : rows.Pairwise fun a b => a.cursor < b.cursor
  unique : (rows.map (·.agreementId)).Nodup

namespace Subgraph

def empty : Subgraph := ⟨[], 0, none, by decide, by decide⟩

/-- The rows past a cursor, at most a page of them. -/
def page (g : Subgraph) (since : Cursor) : List AgreementStateSnapshot :=
  (g.rows.filter fun s => since < s.cursor).take subgraphPageSize

/-- The agreements of a response whose accept time is not the one of their row. -/
def misread (g : Subgraph) (r : ChangedAgreementsResponse) : List IndexingAgreementId :=
  ((r.indexingAgreements.filterMap parseSnapshot).filter fun x =>
    g.rows.any fun s => s.agreementId = x.agreementId && s.acceptedAt ≠ x.acceptedAt).map
      (·.agreementId)

end Subgraph

/-- `x` is read from the row `s`: the same, but for timestamps that did not parse. -/
def AgreementStateSnapshot.ReadsAs (s x : AgreementStateSnapshot) : Prop :=
  x = { s with acceptedAt := x.acceptedAt, canceledAt := x.canceledAt } ∧
    (x.acceptedAt = s.acceptedAt ∨ x.acceptedAt = 0) ∧
    (x.canceledAt = s.canceledAt ∨ x.canceledAt = 0)

instance (s x : AgreementStateSnapshot) : Decidable (s.ReadsAs x) := by
  unfold AgreementStateSnapshot.ReadsAs
  infer_instance

/-- The entity renders the row `s`, perhaps malformed: what parses of it is right. -/
def Renders (s : AgreementStateSnapshot) (e : IndexingAgreementEntity) : Prop :=
  (∀ x ∈ parseSnapshot e, s.ReadsAs x) ∧
    ∀ c ∈ parseFailureCursor e, c.block = s.lastStateChangeBlock ∧
      (c.id = none ∨ c.id = some s.agreementId)

instance (s : AgreementStateSnapshot) (e : IndexingAgreementEntity) : Decidable (Renders s e) := by
  unfold Renders
  infer_instance

/-- The response renders the page past `since`, at the head of the subgraph or the pinned block,
whose rows are up to that block. -/
def Subgraph.Answers (g : Subgraph) (since : Cursor) (r : ChangedAgreementsResponse) : Prop :=
  r.blockNumber = g.head ∧ List.Forall₂ Renders (g.page since) r.indexingAgreements ∧
    ∀ s ∈ g.rows, s.lastStateChangeBlock ≤ g.head

instance (g : Subgraph) (since : Cursor) (r : ChangedAgreementsResponse) :
    Decidable (g.Answers since r) := by
  unfold Subgraph.Answers
  infer_instance

end Dipper
