import Dipper.Registry.Row

/-! One agreement on the chain, as the contract keeps it, and what dipper's chain client makes of
it.  An offer waits for the indexer until its deadline; once accepted, an agreement is live until
one of the parties ends it, and an ended one never becomes live again. -/

namespace Dipper

inductive EndedBy : Type
  | payer
  | provider
  deriving DecidableEq, Repr

inductive OnChain : Type
  | absent
  | offered (deadline : Nat)
  | withdrawn
  | accepted (acceptedAt : Nat)
  | ended (acceptedAt endedAt : Nat) (by' : EndedBy)
  deriving DecidableEq, Repr

def stateRegistered : UInt16 := 1
def stateAccepted : UInt16 := 2
def stateNoticeGiven : UInt16 := 4
def stateSettled : UInt16 := 8
def stateByPayer : UInt16 := 16
def stateByProvider : UInt16 := 32

inductive AgreementOnChain : Type
  | live
  | endedByIndexer
  | notLive
  deriving DecidableEq, Repr

/-- Live iff the terms are accepted and no cancellation notice exists, or an offer is still stored
for the indexer to accept. -/
def stillLive (state : UInt16) : Bool :=
  let accepted := state &&& stateAccepted != 0
  let pendingOffer :=
    state &&& stateRegistered != 0 && !accepted && state &&& stateSettled == 0
  pendingOffer || (accepted && state &&& stateNoticeGiven == 0)

def onChain (state : UInt16) : AgreementOnChain :=
  if stillLive state then .live
  else if state &&& stateByProvider != 0 then .endedByIndexer
  else .notLive

namespace OnChain

/-- The flags `getAgreementDetails` answers with at chain time `time`.  A revoked offer reads as
empty, and an offer past its deadline is settled. -/
def details (time : Nat) : OnChain → UInt16
  | .absent | .withdrawn => 0
  | .offered deadline =>
    if deadline < time then stateRegistered ||| stateSettled else stateRegistered
  | .accepted _ => stateRegistered ||| stateAccepted
  | .ended _ _ by' => stateRegistered ||| stateAccepted ||| stateNoticeGiven |||
      match by' with
      | .payer => stateByPayer
      | .provider => stateByProvider

/-- `offerAgreement`: stores the offer, unless the agreement was accepted. -/
def offer (deadline : Nat) : OnChain → OnChain
  | .absent | .withdrawn | .offered _ => .offered deadline
  | c => c

/-- `cancelAgreement` with both scopes: revokes an offer, ends an accepted agreement. -/
def cancel (time : Nat) : OnChain → OnChain
  | .offered _ => .withdrawn
  | .accepted acceptedAt => .ended acceptedAt time .payer
  | c => c

/-- The indexer accepts an offer, up to its deadline. -/
def accept (time : Nat) : OnChain → Option OnChain
  | .offered deadline => if time ≤ deadline then some (.accepted time) else none
  | _ => none

/-- One of the parties ends an accepted agreement outside dipper. -/
def finish (time : Nat) (by' : EndedBy) : OnChain → Option OnChain
  | .accepted acceptedAt => some (.ended acceptedAt time by')
  | _ => none

/-- Accepted and not ended: the indexer is being paid. -/
def Live : OnChain → Prop
  | .accepted _ => True
  | _ => False

instance (c : OnChain) : Decidable c.Live := by cases c <;> unfold Live <;> infer_instance

/-- Accepted at some time, ended or not. -/
def WasAccepted : OnChain → Prop
  | .accepted _ | .ended .. => True
  | _ => False

instance (c : OnChain) : Decidable c.WasAccepted := by
  cases c <;> unfold WasAccepted <;> infer_instance

def acceptedAt : OnChain → Option Nat
  | .accepted acceptedAt | .ended acceptedAt _ _ => some acceptedAt
  | _ => none

theorem wasAccepted_of_acceptedAt {c : OnChain} {at' : Nat} (h : c.acceptedAt = some at') :
    c.WasAccepted := by
  cases c <;> trivial

def IsEnded : OnChain → Prop
  | .ended .. => True
  | _ => False

instance (c : OnChain) : Decidable c.IsEnded := by cases c <;> unfold IsEnded <;> infer_instance

/-- An offer is stored that the indexer can still accept. -/
def Acceptable (time : Nat) : OnChain → Prop
  | .offered deadline => time ≤ deadline
  | _ => False

instance (time : Nat) (c : OnChain) : Decidable (c.Acceptable time) := by
  cases c <;> unfold Acceptable <;> infer_instance

def read (time : Nat) (c : OnChain) : AgreementOnChain := onChain (c.details time)

theorem read_absent (time : Nat) : OnChain.absent.read time = .notLive := by
  simp only [read, details]
  decide

theorem read_withdrawn (time : Nat) : OnChain.withdrawn.read time = .notLive := by
  simp only [read, details]
  decide

theorem read_offered (time deadline : Nat) :
    (OnChain.offered deadline).read time = if deadline < time then .notLive else .live := by
  simp only [read, details]
  split <;> decide

theorem read_accepted (time acceptedAt : Nat) :
    (OnChain.accepted acceptedAt).read time = .live := by
  simp only [read, details]
  decide

theorem read_ended (time acceptedAt endedAt : Nat) (by' : EndedBy) :
    (OnChain.ended acceptedAt endedAt by').read time =
      match by' with | .payer => .notLive | .provider => .endedByIndexer := by
  cases by' <;> simp only [read, details] <;> decide

theorem of_read_ne_live {time : Nat} {c : OnChain} (h : c.read time ≠ .live) :
    ¬ c.Live ∧ ¬ c.Acceptable time := by
  cases c with
  | offered deadline =>
    rw [read_offered] at h
    split at h
    · exact ⟨id, Nat.not_le.mpr ‹_›⟩
    · exact absurd rfl h
  | accepted acceptedAt => exact absurd (read_accepted time acceptedAt) h
  | _ => exact ⟨id, id⟩

theorem isEnded_of_read_endedByIndexer {time : Nat} {c : OnChain}
    (h : c.read time = .endedByIndexer) : c.IsEnded := by
  cases c with
  | absent => rw [read_absent] at h; cases h
  | withdrawn => rw [read_withdrawn] at h; cases h
  | offered deadline =>
    rw [read_offered] at h
    split at h <;> cases h
  | accepted acceptedAt => rw [read_accepted] at h; cases h
  | ended acceptedAt endedAt by' => trivial

theorem isEnded_of_read {time : Nat} {c : OnChain} (hAccepted : c.WasAccepted)
    (h : c.read time ≠ .live) : c.IsEnded := by
  cases c with
  | accepted acceptedAt => exact absurd (read_accepted time acceptedAt) h
  | ended acceptedAt endedAt by' => trivial
  | _ => exact hAccepted.elim

theorem read_ne_live_of_later {time time' : Nat} {c : OnChain} (hTime : time ≤ time')
    (h : c.read time ≠ .live) : c.read time' ≠ .live := by
  cases c with
  | offered deadline =>
    rw [read_offered] at h ⊢
    split at h
    · rw [if_pos (by omega)]
      exact h
    · exact absurd rfl h
  | absent => exact h
  | withdrawn => exact h
  | accepted acceptedAt => exact h
  | ended acceptedAt endedAt by' => exact h

theorem read_cancel_ne_live {time : Nat} {c : OnChain} (h : c.read time ≠ .live) :
    (c.cancel time).read time ≠ .live := by
  cases c with
  | offered deadline =>
    change OnChain.withdrawn.read time ≠ .live
    rw [read_withdrawn]
    nofun
  | accepted acceptedAt => exact absurd (read_accepted time acceptedAt) h
  | _ => exact h

/-- Only what a read shows live is accepted or ended by the parties. -/
theorem read_of_accept {time : Nat} {c c' : OnChain} (h : c.accept time = some c') :
    c.read time = .live := by
  cases c <;> simp only [accept, reduceCtorEq, Option.ite_none_right_eq_some] at h
  rw [read_offered, if_neg (by omega)]

theorem read_of_finish {time : Nat} {by' : EndedBy} {c c' : OnChain}
    (h : c.finish time by' = some c') : c.read time = .live := by
  cases c <;> simp only [finish, reduceCtorEq] at h
  exact read_accepted _ _

end OnChain

end Dipper
