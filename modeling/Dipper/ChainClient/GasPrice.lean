import Dipper.ChainClient.Contracts

/-! The limit on gas prices.  A call is checked against it before it is signed; the self-transfer
that fills a slot left empty is not, so the limit holds of all that is handed to an endpoint only
while the prices read for those are within it. -/

namespace Dipper

namespace AlloyClient

open Concurrent

variable {config : ClientConfig} {t : TaskId} {s s' : ClientState}

/-- The prices read for the filling of a slot make a fee within the limit. -/
def fillsWithin (config : ClientConfig) (_ : ClientState) (_ : TaskId) :
    ClientOp → ClientChoice → Prop
  | .getGasPrices _ .gapFill, .prices baseFee priorityFee =>
    exceedsMaxGasPrice (config.calculateMaxFee baseFee priorityFee) config.maxGasPriceGwei = false
  | _, _ => True

instance (config : ClientConfig) (s : ClientState) (t : TaskId) (o : ClientOp) (c : ClientChoice) :
    Decidable (fillsWithin config s t o c) := by
  unfold fillsWithin
  split <;> infer_instance

def SignedTx.Within (config : ClientConfig) (tx : SignedTx) : Prop :=
  exceedsMaxGasPrice tx.maxFeePerGas config.maxGasPriceGwei = false

/-- Only what is within the limit is handed to an endpoint. -/
def ClientOp.Within (config : ClientConfig) : ClientOp → Prop
  | .sendRawTransaction _ tx => tx.Within config
  | _ => True

def gasDiscipline (config : ClientConfig) : Discipline ClientState TaskId ClientOp where
  inv s := ∀ tx ∈ s.handed, tx.Within config
  pre _ _ o := o.Within config
  rely _ _ _ := True

theorem handed_of_effect {o : ClientOp} (h : ClientEffect s s' o) (tx : SignedTx)
    (hMem : tx ∈ s'.handed) : tx ∈ s.handed ∨ ∃ endpoint, o = .sendRawTransaction endpoint tx := by
  cases o with
  | sendRawTransaction endpoint signed =>
    obtain ⟨taken, rfl⟩ := h
    rcases List.mem_append.mp hMem with hOld | hNew
    · exact .inl hOld
    · rw [List.mem_singleton.mp hNew]
      exact .inr ⟨endpoint, rfl⟩
  | getPendingCount endpoint =>
    rcases h with rfl | ⟨n, rfl⟩
    · exact .inl hMem
    · exact .inl hMem
  | lockSubmit task | unlockSubmit task reported =>
    obtain ⟨-, rfl⟩ := h
    exact .inl hMem
  | _ =>
    obtain rfl := h
    exact .inl hMem

theorem gasDiscipline_sound :
    (gasDiscipline config).Sound (client config (fillsWithin config)) where
  refl _ _ := trivial
  trans _ _ := trivial
  keeps hInv hPre hPerforms tx hMem := by
    rcases handed_of_effect (effect_of_performs hPerforms) tx hMem with hOld | ⟨endpoint, rfl⟩
    · exact hInv tx hOld
    · exact hPre
  cross _ _ _ _ := trivial
  env hInv hEnv := by
    rcases move_cases hEnv with ⟨now, -, rfl⟩ | ⟨head, -, rfl⟩
    · exact ⟨hInv, fun _ => trivial⟩
    · exact ⟨hInv, fun _ => trivial⟩

theorem keeps_within {α : Type} {p : ClientAct α} (hp : p.OnlyOps (ClientOp.Within config)) :
    (gasDiscipline config).Keeps (client config (fillsWithin config)) t (fun _ _ => True) p s :=
  .of_onlyOps gasDiscipline_sound (fun _ ho _ _ => ho) hp

theorem within_of_ofNonces (o : ClientOp) (h : o.ofNonces) : o.Within config := by
  cases o <;> trivial

theorem within_of_ofPool (o : ClientOp) (h : o.ofPool) : o.Within config :=
  within_of_ofNonces o (ofNonces_of_ofPool o h)

theorem maxFee_of_build {tx : TransactionRequest} {signed : SignedTx} (h : tx.build = some signed) :
    tx.maxFeePerGas = some signed.maxFeePerGas := by
  simp only [TransactionRequest.build, bind, Option.bind_eq_some_iff, pure, Option.some.injEq] at h
  obtain ⟨gasLimit, -, fee, hFee, priorityFee, -, chain, -, nonce, -, rfl⟩ := h
  exact hFee

theorem keeps_lockedWithin {β : Type} {reported : β → Option SubmittedTx} {work : ClientAct β}
    (hOnly : work.OnlyOps ClientOp.ofWork)
    (hWork : ∀ s, (gasDiscipline config).Keeps (client config (fillsWithin config)) t
      (fun _ _ => True) work s) :
    (gasDiscipline config).Keeps (client config (fillsWithin config)) t (fun _ _ => True)
      (underSubmitLock t reported work) s :=
  keeps_underSubmitLock (P := fun _ => True) (R := fun _ _ => True) gasDiscipline_sound
    (fun _ _ => trivial) (fun _ _ _ => trivial) (fun _ _ => trivial) (fun _ _ _ => trivial)
    (fun _ _ _ _ => trivial) (fun _ _ h => h) (fun _ _ h => h) (fun _ _ _ _ h => h)
    (.of_onlyOps hOnly) fun s _ => hWork s

theorem lasts_gasDiscipline :
    Lasts (gasDiscipline config) (client config (fillsWithin config)) t (fun _ => True) where
  sound := gasDiscipline_sound
  stable _ _ h := h
  pre o ho _ _ _ := within_of_ofPool o ho
  keeps _ _ h := h

/-- The prices read for a filling make a fee within the limit, and nothing checks that they do. -/
theorem keeps_fillLocked (nonce : Nat) :
    (gasDiscipline config).Keeps (client config (fillsWithin config)) t (fun _ _ => True)
      (fillLocked config nonce) s := by
  have hSound : (gasDiscipline config).Sound (client config (fillsWithin config)) :=
    gasDiscipline_sound
  have hPrices : ∀ s, (gasDiscipline config).Keeps (client config (fillsWithin config)) t
      (Answers (fun _ => True) fun prices _ =>
        exceedsMaxGasPrice (config.calculateMaxFee prices.1 prices.2) config.maxGasPriceGwei = false)
      (getGasPrices config .gapFill) s := by
    intro s
    refine keeps_executeWithEndpoint lasts_gasDiscipline (fun _ _ _ _ _ h => h)
      (fun endpoint s _ => ?_) _ trivial
    refine .perform hSound fun s1 _ _ => ⟨trivial, ?_⟩
    intro (r : Except TransportError (Nat × Nat)) s2 hPerforms s3 _ _
    refine ⟨trivial, ?_⟩
    rintro prices rfl
    obtain ⟨c, hFills, hExec⟩ := hPerforms
    obtain ⟨rfl, -⟩ := exec_getGasPrices hExec
    exact hFills
  unfold fillLocked
  refine .bind hSound ((hPrices s).mono fun r s1 _ h1 => ?_)
  cases r with
  | error e => exact .ret fun _ _ _ => trivial
  | ok prices =>
    refine .bind hSound ((keeps_within (onlyOps_sendTransaction within_of_ofPool
      fun endpoint signed hBuild => ?_)).mono fun r s2 _ _ => ?_)
    · have hFee := Option.some.inj (maxFee_of_build hBuild)
      change exceedsMaxGasPrice signed.maxFeePerGas config.maxGasPriceGwei = false
      rw [← hFee]
      exact h1.2 prices rfl
    · cases r with
      | ok hash => exact .ret fun _ _ _ => trivial
      | error e =>
        dsimp only
        split <;> exact .ret fun _ _ _ => trivial

theorem gasDiscipline_starts :
    (gasDiscipline config).Starts (client config (fillsWithin config)) := by
  have hSound : (gasDiscipline config).Sound (client config (fillsWithin config)) :=
    gasDiscipline_sound
  have hCheck : ∀ {t s}, (gasDiscipline config).Keeps (client config (fillsWithin config)) t
      (fun _ _ => True) (crossCheckSeenBlock config) s :=
    keeps_within (onlyOps_crossCheckSeenBlock.mono fun o ho => by cases o <;> trivial)
  apply starts_of_calls hSound
  · intro t id s
    exact keeps_agreementOnChain hSound (fun o ho _ _ => by cases o <;> trivial)
      (fun _ => hCheck) id
  · intro t s
    exact keeps_latestBlockTimestamp hSound (fun o ho _ _ => by cases o <;> trivial)
      fun _ => hCheck
  · intro t call s
    refine keeps_sendToManager hSound (fun o ho _ _ => ?_) (fun tx s _ hFee => ?_) (fun nonce s => ?_)
      call
    · cases o <;> trivial
    · refine keeps_lockedWithin (onlyOps_signAndSendLocked ofWork_of_ofNonces
        (fun _ => trivial) (fun _ _ _ _ => trivial) _) fun s => ?_
      refine keeps_within (onlyOps_signAndSendLocked within_of_ofNonces (fun _ => trivial) ?_ _)
      intro nonce endpoint signed hBuild
      have hSigned : ({ tx with nonce := some nonce } : TransactionRequest).maxFeePerGas =
          some signed.maxFeePerGas := maxFee_of_build hBuild
      exact hFee _ hSigned
    · exact keeps_lockedWithin (onlyOps_fillLocked ofWork_of_ofPool (fun _ => trivial)
        (fun _ _ => trivial) nonce) fun s => keeps_fillLocked nonce

section Runs

/-- Every transaction handed to an endpoint is within the gas price limit, in every run in which the
prices read for the filling of slots are. -/
theorem handed_within_limit {now head : Nat}
    {c : (client config (fillsWithin config)).Config}
    (hRun : (client config (fillsWithin config)).Run (ClientState.new now head, []) c)
    (tx : SignedTx) (hMem : tx ∈ c.1.handed) :
    tx.maxFeePerGas ≤ config.maxGasPriceGwei * 1000000000 := by
  have hInit : (gasDiscipline config).inv (ClientState.new now head) := nofun
  obtain ⟨hInv, -⟩ := Discipline.run_restrict gasDiscipline_sound gasDiscipline_starts hInit hRun
  have hWithin := of_decide_eq_false (hInv tx hMem)
  exact Nat.not_lt.mp hWithin

/-- An offer is sent for 4 wei, its receipt is not seen in time, and its slot is filled at the prices
of the moment. -/
def unseenOffer (baseFee : Nat) : ClientMoves :=
  .start (0, .offerViaManager []) ::
    takes 0 [.ok, .number 50000, .ok, .prices 3 1, .ok, .ok, .ok, .number 5, .cut false, .ok, .ok,
      .ok, .cut false, .ok, .ok, .ok, .ok, .receipt none] ++
    .env (.clock receiptPollTimeout) ::
    takes 0 [.ok, .ok, .ok, .prices baseFee 1, .cut false, .ok, .ok]

theorem fill_within_limit : ∃ c,
    (client (sampleClient 0) (fillsWithin (sampleClient 0))).Run (ClientState.new 0 100, []) c ∧
      c.1.handed.map (·.maxFeePerGas) = [4, 3] ∧
      ∀ tx ∈ c.1.handed, tx.maxFeePerGas ≤ (sampleClient 0).maxGasPriceGwei * 1000000000 := by
  obtain ⟨c, hRun, hFees⟩ := exists_run (sampleClient 0) (fillsWithin (sampleClient 0))
    (ClientState.new 0 100, []) (unseenOffer 2)
    (fun c => decide (c.1.handed.map (·.maxFeePerGas) = [4, 3])) (by decide +kernel)
  exact ⟨c, hRun, of_decide_eq_true hFees, handed_within_limit hRun⟩

/-- The base fee is 200 gwei when the slot is filled, twice the limit. -/
theorem fill_exceeds_limit : ∃ c,
    (client (sampleClient 0) fun _ _ _ _ => True).Run (ClientState.new 0 100, []) c ∧
      ∃ tx ∈ c.1.handed, (sampleClient 0).maxGasPriceGwei * 1000000000 < tx.maxFeePerGas := by
  obtain ⟨c, hRun, hFees⟩ := exists_run (sampleClient 0) (fun _ _ _ _ => True)
    (ClientState.new 0 100, []) (unseenOffer 200000000000)
    (fun c => c.1.handed.any fun tx =>
      decide ((sampleClient 0).maxGasPriceGwei * 1000000000 < tx.maxFeePerGas)) (by decide +kernel)
  obtain ⟨tx, hMem, hExceeds⟩ := List.any_eq_true.mp hFees
  exact ⟨c, hRun, tx, hMem, of_decide_eq_true hExceeds⟩

end Runs

end AlloyClient

end Dipper
