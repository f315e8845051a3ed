import Dipper.ChainClient.Contracts

/-! One endpoint that reports any heads, among others that tell the truth.  A confirmed newest block
stays within a minute of blocks of the chain's head, as long as no head that one endpoint reports
alone moves it further than that. -/

namespace Dipper

namespace AlloyClient

open Concurrent

namespace SeenBlock

/-- Once confirmed, the newest block seen is within a minute of blocks of the chain's head, and those
that the chain can have added since it moved. -/
def Within (seen : SeenBlock) (head now : Nat) : Prop :=
  seen.confirmed = true →
    seen.number ≤ head + agreeWithinBlocks + blocksPerSecond * ((now - seen.movedAt) / second)

variable {seen : SeenBlock} {head head' now now' block : Nat}

theorem Within.mono (h : seen.Within head now) (hHead : head ≤ head') (hNow : now ≤ now') :
    seen.Within head' now' := by
  intro hConfirmed
  have hSeconds : (now - seen.movedAt) / second ≤ (now' - seen.movedAt) / second :=
    Nat.div_le_div_right (Nat.sub_le_sub_right hNow _)
  have hAdded := Nat.mul_le_mul_left blocksPerSecond hSeconds
  have hLe := h hConfirmed
  omega

theorem within_take (h : seen.Within head now) (hBlock : block ≤ head + agreeWithinBlocks) :
    (seen.take block now).Within head now := by
  intro hConfirmed
  rw [take_confirmed] at hConfirmed
  have hLe := h hConfirmed
  unfold take
  split
  · exact Nat.le_add_right_of_le hBlock
  · exact hLe

theorem within_advance (h : seen.Within head now)
    (hBlock : seen.confirmed = true →
      block ≤ head + agreeWithinBlocks ∨ seen.loneLimit now < block) :
    (seen.advance block now false).1.Within head now := by
  unfold advance
  by_cases hConfirmed : seen.confirmed = true
  · split
    · exact h
    · split
      · exact h
      · rename_i hLone
        refine within_take h ((hBlock hConfirmed).resolve_right fun hBeyond => hLone ?_)
        simp [hConfirmed, hBeyond]
  · simp only [hConfirmed, Bool.false_and, Bool.false_eq_true, if_false]
    intro hTaken
    rw [take_confirmed] at hTaken
    exact absurd hTaken hConfirmed

theorem within_confirm (h : seen.Within head now) (hBlock : block ≤ head + agreeWithinBlocks)
    (hKept : seen.confirmed = false →
      seen.number ≤ head + agreeWithinBlocks ∨ block + agreeWithinBlocks < seen.number) :
    (seen.confirm block now).Within head now := by
  unfold confirm
  dsimp only
  by_cases hConfirmed : seen.confirmed = true
  · rw [if_pos hConfirmed]
    split
    · exact within_take h hBlock
    · exact h
  · rw [if_neg hConfirmed]
    split
    · intro _
      exact Nat.le_add_right_of_le hBlock
    · rename_i hNear
      intro _
      refine Nat.le_add_right_of_le ((hKept (Bool.eq_false_iff.mpr hConfirmed)).resolve_right ?_)
      intro hFar
      exact hNear (.inr (Nat.lt_of_le_of_lt (Nat.min_le_left _ _) hFar))

theorem within_crossCheckDue (h : seen.Within head now) :
    (seen.crossCheckDue now).1.Within head now := by
  unfold crossCheckDue
  dsimp only
  split
  · exact h
  · exact h

end SeenBlock

section Conditions

/-- A head that is not beyond the chain's, nor more than a minute of blocks behind it. -/
def ClientState.NearHead (s : ClientState) (head : Nat) : Prop :=
  s.trueHead ≤ head + agreeWithinBlocks ∧ head ≤ s.trueHead

instance (s : ClientState) (head : Nat) : Decidable (s.NearHead head) :=
  inferInstanceAs (Decidable (_ ∧ _))

/-- All endpoints but one report heads near the chain's, and receipts name blocks it has reached. -/
def oneFaulty (faulty : Nat) (s : ClientState) (_ : TaskId) : ClientOp → ClientChoice → Prop
  | .getBlockNumber endpoint, .number head => endpoint = faulty ∨ s.NearHead head
  | .getLatestBlock endpoint, .block (some block) => endpoint = faulty ∨ s.NearHead block.1
  | .getTransactionReceipt .., .receipt (some r) => ∀ block ∈ r.blockNumber, block ≤ s.trueHead
  | _, _ => True

instance (faulty : Nat) (s : ClientState) (t : TaskId) (o : ClientOp) (c : ClientChoice) :
    Decidable (oneFaulty faulty s t o c) := by
  unfold oneFaulty
  split <;> infer_instance

/-- A head that one endpoint reports moves a confirmed newest block no further than a minute of
blocks beyond the chain's head, and one that is confirmed where it stands is not further than that
or is far enough to be replaced. -/
def headsHeld (s : ClientState) : ClientOp → Prop
  | .advance block _ => s.seenBlock.confirmed = true →
    block ≤ s.trueHead + agreeWithinBlocks ∨ s.seenBlock.loneLimit s.now < block
  | .confirm .endpoints _ => s.seenBlock.confirmed = false →
    s.seenBlock.number ≤ s.trueHead + agreeWithinBlocks ∨
      s.trueHead + 2 * agreeWithinBlocks < s.seenBlock.number
  | _ => True

instance (s : ClientState) (o : ClientOp) : Decidable (headsHeld s o) := by
  unfold headsHeld
  split <;> infer_instance

end Conditions

section Discipline

variable {config : ClientConfig} {faulty : Nat} {t : TaskId} {s s' : ClientState}

/-- The client among endpoints of which one may be faulty, with the heads held. -/
abbrev heldClient (config : ClientConfig) (faulty : Nat) :=
  client config fun s t o choice => oneFaulty faulty s t o choice ∧ headsHeld s o

/-- A block is confirmed only as far as the endpoints' agreement or a receipt can tell. -/
def ClientOp.Reached (s : ClientState) : ClientOp → Prop
  | .confirm .endpoints block => block ≤ s.trueHead + agreeWithinBlocks
  | .confirm .receipt block => block ≤ s.trueHead
  | .advance _ onlyEndpoint => onlyEndpoint = false
  | _ => True

def headsDiscipline : Discipline ClientState TaskId ClientOp where
  inv s := s.seenBlock.Within s.trueHead s.now
  pre _ s o := o.Reached s
  rely _ s s' := s.trueHead ≤ s'.trueHead

theorem within_of_performs {o : ClientOp} {r : ClientRes o}
    (hInv : s.seenBlock.Within s.trueHead s.now) (hPre : o.Reached s)
    (h : (heldClient config faulty).Performs t s o r s') :
    s'.seenBlock.Within s'.trueHead s'.now ∧ s.trueHead ≤ s'.trueHead := by
  have hEffect := effect_of_performs h
  obtain ⟨c, ⟨-, hHeld⟩, -⟩ := h
  cases o with
  | crossCheckDue =>
    obtain rfl := hEffect
    exact ⟨SeenBlock.within_crossCheckDue hInv, Nat.le_refl _⟩
  | advance block onlyEndpoint =>
    obtain rfl := hEffect
    obtain rfl : onlyEndpoint = false := hPre
    exact ⟨SeenBlock.within_advance hInv hHeld, Nat.le_refl _⟩
  | confirm source block =>
    obtain rfl := hEffect
    refine ⟨?_, Nat.le_refl _⟩
    change (s.seenBlock.confirm block s.now).Within s.trueHead s.now
    cases source with
    | endpoints =>
      have hBlock : block ≤ s.trueHead + agreeWithinBlocks := hPre
      refine SeenBlock.within_confirm hInv hBlock fun hUnconfirmed => ?_
      rcases hHeld hUnconfirmed with hNear | hFar
      · exact .inl hNear
      · exact .inr (by omega)
    | receipt =>
      have hBlock : block ≤ s.trueHead := hPre
      refine SeenBlock.within_confirm hInv (by omega) fun _ => ?_
      omega
  | getPendingCount endpoint =>
    rcases hEffect with rfl | ⟨n, rfl⟩
    · exact ⟨hInv, Nat.le_refl _⟩
    · exact ⟨hInv, Nat.le_refl _⟩
  | lockSubmit task | unlockSubmit task reported =>
    obtain ⟨-, rfl⟩ := hEffect
    exact ⟨hInv, Nat.le_refl _⟩
  | sendRawTransaction endpoint tx =>
    obtain ⟨taken, rfl⟩ := hEffect
    exact ⟨hInv, Nat.le_refl _⟩
  | _ =>
    obtain rfl := hEffect
    exact ⟨hInv, Nat.le_refl _⟩

theorem headsDiscipline_sound : headsDiscipline.Sound (heldClient config faulty) where
  refl _ _ := Nat.le_refl _
  trans := Nat.le_trans
  keeps hInv hPre hPerforms := (within_of_performs hInv hPre hPerforms).1
  cross _ hInv hPre hPerforms := (within_of_performs hInv hPre hPerforms).2
  env hInv hEnv := by
    rcases move_cases hEnv with ⟨now, hLater, rfl⟩ | ⟨head, hHigher, rfl⟩
    · exact ⟨hInv.mono (Nat.le_refl _) hLater, fun _ => Nat.le_refl _⟩
    · exact ⟨hInv.mono hHigher (Nat.le_refl _), fun _ => hHigher⟩

theorem countP_past_le {heads : List Nat} {head head' : Nat} (h : head ≤ head') :
    heads.countP (fun other => head' < other) ≤ heads.countP (fun other => head < other) := by
  refine List.countP_mono_left fun other _ hPast => ?_
  rw [decide_eq_true_eq] at hPast ⊢
  omega

/-- Of the heads that endpoints asked once report, only those of the faulty one are past the
chain's. -/
theorem keeps_latestBlocks (endpoints : List Nat) :
    headsDiscipline.Keeps (heldClient config faulty) t
      (fun heads s => heads.countP (fun head => s.trueHead < head) ≤ endpoints.count faulty)
      (latestBlocks endpoints) s := by
  have hSound : headsDiscipline.Sound (heldClient config faulty) := headsDiscipline_sound
  induction endpoints generalizing s with
  | nil => exact .ret fun _ _ _ => Nat.le_refl _
  | cons endpoint rest ih =>
    unfold latestBlocks
    refine .bind hSound (.perform hSound fun s1 _ _ => ⟨trivial, ?_⟩)
    intro (answer : Except TransportError Nat) s2 hPerforms s3 _ hRely3
    have hAnswer : ∀ head, answer = .ok head → endpoint ≠ faulty → head ≤ s3.trueHead := by
      rintro head rfl hTrue
      obtain ⟨c, ⟨hFaulty, -⟩, hExec⟩ := hPerforms
      obtain ⟨rfl, rfl⟩ := exec_getBlockNumber hExec
      exact Nat.le_trans (hFaulty.resolve_left hTrue).2 hRely3
    refine .bind hSound ((ih.frame hSound (R := fun s s' => s.trueHead ≤ s'.trueHead) Nat.le_trans
      (fun _ hRely => hRely) fun hInv hPre hPerforms =>
        (within_of_performs hInv hPre hPerforms).2).mono fun heads s4 _ h4 => ?_)
    obtain ⟨hGrown, hCount⟩ := h4
    have hRest : rest.count faulty ≤ (endpoint :: rest).count faulty :=
      (List.sublist_cons_self _ _).count_le faulty
    cases answer with
    | error e =>
      refine .ret fun s5 _ hRely5 => ?_
      exact Nat.le_trans (countP_past_le hRely5) (Nat.le_trans hCount hRest)
    | ok head =>
      refine .ret fun s5 _ hRely5 => ?_
      have hStill : heads.countP (fun head => s5.trueHead < head) ≤ rest.count faulty :=
        Nat.le_trans (countP_past_le hRely5) hCount
      by_cases hTrue : endpoint = faulty
      · rw [hTrue, List.count_cons_self]
        rw [List.countP_cons]
        split <;> omega
      · have hNot : ¬ s5.trueHead < head :=
          Nat.not_lt.mpr (Nat.le_trans (hAnswer head rfl hTrue) (Nat.le_trans hGrown hRely5))
        rw [List.countP_cons_of_neg (by simpa using hNot)]
        exact Nat.le_trans hStill hRest

/-- What a cross check confirms is within a minute of the chain's head: at most one head of those it
agrees on is past it. -/
theorem keeps_crossCheckSeenBlock :
    headsDiscipline.Keeps (heldClient config faulty) t (fun _ _ => True)
      (crossCheckSeenBlock config) s := by
  have hSound : headsDiscipline.Sound (heldClient config faulty) := headsDiscipline_sound
  unfold crossCheckSeenBlock
  split
  · exact .ret fun _ _ _ => trivial
  · refine .bind hSound (.perform hSound fun s1 _ _ => ⟨trivial, ?_⟩)
    intro (due : Bool) s2 _ s3 _ _
    cases due with
    | false => exact .ret fun _ _ _ => trivial
    | true =>
      refine .bind hSound ((keeps_latestBlocks _).mono fun heads s4 _ h4 => ?_)
      have hOne : heads.countP (fun head => s4.trueHead < head) ≤ 1 :=
        Nat.le_trans h4 (List.nodup_iff_count_le_one.mp List.nodup_range faulty)
      split
      · rename_i head hHead
        refine .perform hSound fun s5 _ hRely5 => ⟨?_, fun _ _ _ _ _ _ => trivial⟩
        exact agreedHead_le hHead (Nat.le_trans (countP_past_le hRely5) hOne)
      · exact .ret fun _ _ _ => trivial

theorem lasts_headsDiscipline :
    Lasts headsDiscipline (heldClient config faulty) t (fun _ => True) where
  sound := headsDiscipline_sound
  stable _ _ h := h
  pre o ho _ _ _ := by cases o <;> trivial
  keeps _ _ h := h

/-- The block a receipt names is one that the chain has reached. -/
def ReceiptReached (receipt : Option Receipt) (s : ClientState) : Prop :=
  ∀ r ∈ receipt, ∀ block ∈ r.blockNumber, block ≤ s.trueHead

theorem stays_receiptReached : Stays headsDiscipline t ReceiptReached :=
  fun _ _ _ _ hRely h r hr block hBlock => Nat.le_trans (h r hr block hBlock) hRely

theorem keeps_getTransactionReceipt (hash : TxHash) (endpoint : Nat) :
    headsDiscipline.Keeps (heldClient config faulty) t (Answers (fun _ => True) ReceiptReached)
      (ask (.getTransactionReceipt endpoint hash)) s := by
  refine .perform headsDiscipline_sound fun s1 _ _ => ⟨trivial, ?_⟩
  intro (answer : Except TransportError (Option Receipt)) s2 hPerforms s3 _ hRely3
  refine ⟨trivial, ?_⟩
  rintro receipt rfl r hr block hBlock
  obtain ⟨c, ⟨hTrue, -⟩, hExec⟩ := hPerforms
  obtain ⟨rfl, rfl⟩ := exec_getTransactionReceipt hExec
  obtain rfl := Option.mem_def.mp hr
  exact Nat.le_trans (hTrue block hBlock) hRely3

theorem keeps_confirmReceipt {r : Receipt} (h : ReceiptReached (some r) s) :
    headsDiscipline.Keeps (heldClient config faulty) t (fun _ _ => True) (confirmReceipt r) s := by
  unfold confirmReceipt
  split
  · rename_i block hBlock
    refine .perform headsDiscipline_sound fun s1 _ hRely => ⟨?_, fun _ _ _ _ _ _ => trivial⟩
    exact Nat.le_trans (h r rfl block hBlock) hRely
  · exact .ret fun _ _ _ => trivial

theorem keeps_pollReceipt (hash : TxHash) (deadline polls : Nat) (checked : Bool) :
    headsDiscipline.Keeps (heldClient config faulty) t (fun _ _ => True)
      (pollReceipt config hash deadline polls checked) s := by
  have hSound : headsDiscipline.Sound (heldClient config faulty) := headsDiscipline_sound
  induction polls generalizing s checked with
  | zero => exact .ret fun _ _ _ => trivial
  | succ polls ih =>
    have hAgain : ∀ checked s, headsDiscipline.Keeps (heldClient config faulty) t (fun _ _ => True)
        (do
          if deadline ≤ (← instant) then return .notSeen checked
          sleep receiptPollInterval
          pollReceipt config hash deadline polls checked : ClientAct ReceiptWait) s := by
      intro checked s
      refine .bind hSound ((lasts_headsDiscipline.ask .instant trivial trivial).mono
        fun (now : Nat) s1 _ _ => ?_)
      by_cases hDeadline : deadline ≤ now
      · rw [if_pos hDeadline]
        exact .ret fun _ _ _ => trivial
      · rw [if_neg hDeadline]
        exact .bind hSound ((lasts_headsDiscipline.sleep _ trivial).mono fun _ s2 _ _ => ih checked)
    unfold pollReceipt
    refine .bind hSound ((keeps_executeWithEndpoint lasts_headsDiscipline stays_receiptReached
      (fun endpoint _ _ => keeps_getTransactionReceipt hash endpoint) _ trivial).mono
        fun answer s1 _ h1 => ?_)
    cases answer with
    | error e => exact hAgain checked s1
    | ok found =>
      cases found with
      | none => exact hAgain true s1
      | some r =>
        exact .bind hSound ((keeps_confirmReceipt (h1.2 _ rfl)).mono fun _ _ _ _ =>
          .ret fun _ _ _ => trivial)

theorem headsDiscipline_starts (hEndpoints : 2 ≤ config.endpoints) :
    headsDiscipline.Starts (heldClient config faulty) := by
  have hSound : headsDiscipline.Sound (heldClient config faulty) := headsDiscipline_sound
  have hReads : ∀ t (o : ClientOp), o.ofReads config → ∀ s, headsDiscipline.inv s →
      headsDiscipline.pre t s o := by
    intro t o ho s _
    cases o with
    | advance block onlyEndpoint =>
      have hOnly : onlyEndpoint = decide (config.endpoints < 2) := ho
      rw [decide_eq_false (by omega)] at hOnly
      exact hOnly
    | _ => trivial
  apply starts_of_calls hSound
  · intro t id s
    exact keeps_agreementOnChain hSound (hReads t) (fun _ => keeps_crossCheckSeenBlock) id
  · intro t s
    exact keeps_latestBlockTimestamp hSound (hReads t) fun _ => keeps_crossCheckSeenBlock
  · intro t call s
    have hSubmits : ∀ {β : Type} {p : ClientAct β} {s}, p.OnlyOps ClientOp.ofSubmissions →
        headsDiscipline.Keeps (heldClient config faulty) t (fun _ _ => True) p s :=
      .of_onlyOps hSound fun o ho s _ => by cases o <;> trivial
    unfold sendToManager
    refine .bind hSound ((hSubmits onlyOps_buildAndSendCall).mono fun r s1 _ _ => ?_)
    cases r with
    | error e => exact .ret fun _ _ _ => trivial
    | ok submitted =>
      refine .bind hSound (.bind hSound ((lasts_headsDiscipline.ask .instant trivial trivial).mono
        fun now s2 _ _ => (keeps_pollReceipt _ _ _ _).mono fun wait s3 _ _ => ?_))
      match wait with
      | .mined true => exact .ret fun _ _ _ => trivial
      | .mined false => exact .ret fun _ _ _ => trivial
      | .notSeen checked =>
        exact .bind hSound ((hSubmits onlyOps_fillNonceGap).mono fun _ _ _ _ =>
          .ret fun _ _ _ => trivial)

end Discipline

section Runs

/-- With several endpoints, of which one may report any heads, a confirmed newest block stays near
the chain's head, in every run in which no head reported alone moves it too far. -/
theorem seen_near_true_head {config : ClientConfig} (hEndpoints : 2 ≤ config.endpoints)
    {faulty now head : Nat} {c : (heldClient config faulty).Config}
    (hRun : (heldClient config faulty).Run (ClientState.new now head, []) c)
    (hConfirmed : c.1.seenBlock.confirmed = true) :
    c.1.seenBlock.number ≤ c.1.trueHead + agreeWithinBlocks +
      blocksPerSecond * ((c.1.now - c.1.seenBlock.movedAt) / second) := by
  have hInit : headsDiscipline.inv (ClientState.new now head) := nofun
  obtain ⟨hInv, -⟩ := Discipline.run_restrict headsDiscipline_sound
    (headsDiscipline_starts hEndpoints) hInit hRun
  exact hInv hConfirmed

/-- A read that cross-checks the endpoints, which agree on block 1000, and is answered by endpoint 0
with the head `first`; and one that is answered with `then'`. -/
def readTwice (first then' : Nat) : ClientMoves :=
  .start (0, .latestBlockTimestamp) ::
    takes 0 [.ok, .number 1000, .number 1000, .ok, .ok, .ok, .block (some (first, 7)), .ok] ++
    .start (1, .latestBlockTimestamp) ::
    takes 1 [.ok, .ok, .ok, .block (some (then', 8)), .ok]

/-- Endpoint 0 reports 1200 and then 1240, while the chain is at block 1000. -/
theorem faulty_head_held : ∃ c,
    (heldClient (sampleClient 1) 0).Run (ClientState.new 0 1000, []) c ∧
      c.1.seenBlock.number = 1240 ∧
      c.1.seenBlock.number ≤ c.1.trueHead + agreeWithinBlocks +
        blocksPerSecond * ((c.1.now - c.1.seenBlock.movedAt) / second) := by
  obtain ⟨c, hRun, hSeen⟩ := exists_run (sampleClient 1)
    (fun s t o choice => oneFaulty 0 s t o choice ∧ headsHeld s o) (ClientState.new 0 1000, [])
    (readTwice 1200 1240)
    (fun c => decide (c.1.seenBlock.confirmed = true ∧ c.1.seenBlock.number = 1240))
    (by decide +kernel)
  obtain ⟨hConfirmed, hNumber⟩ := of_decide_eq_true hSeen
  exact ⟨c, hRun, hNumber, seen_near_true_head (by decide) hRun hConfirmed⟩

/-- Endpoint 0 reports 1240 and then 1480, each a minute of blocks beyond what was seen: the
newest block seen is then two minutes of blocks beyond the chain's head. -/
theorem faulty_head_ratchets : ∃ c,
    (client (sampleClient 1) (oneFaulty 0)).Run (ClientState.new 0 1000, []) c ∧
      2 ≤ (sampleClient 1).endpoints ∧ c.1.seenBlock.confirmed = true ∧
      c.1.trueHead + agreeWithinBlocks +
        blocksPerSecond * ((c.1.now - c.1.seenBlock.movedAt) / second) < c.1.seenBlock.number := by
  obtain ⟨c, hRun, hSeen⟩ := exists_run (sampleClient 1) (oneFaulty 0) (ClientState.new 0 1000, [])
    (readTwice 1240 1480)
    (fun c => decide (c.1.seenBlock.confirmed = true ∧ c.1.trueHead + agreeWithinBlocks +
      blocksPerSecond * ((c.1.now - c.1.seenBlock.movedAt) / second) < c.1.seenBlock.number))
    (by decide +kernel)
  obtain ⟨hConfirmed, hBeyond⟩ := of_decide_eq_true hSeen
  exact ⟨c, hRun, by decide, hConfirmed, hBeyond⟩

end Runs

end AlloyClient

end Dipper
