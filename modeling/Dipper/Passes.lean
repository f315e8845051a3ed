import Dipper.Consistency.Preserved
import Dipper.Registering
import Dipper.Results
import Mathlib.Data.List.Dedup

/-! The passes of the reassessment.  One runs at a time, and the other services register nothing,
so what a pass read of the table bounds what there is of it while it runs: the offers in flight
only become fewer, and of a replacement stored before it nothing comes back on offer. -/

namespace Dipper

open Concurrent

namespace World

variable {w w' w'' : World}

def created (w : World) (p : IndexerId → Bool) : List IndexingAgreementId :=
  (w.agreements.entries.filter fun e => e.2.status = .created && p e.2.indexerId).map (·.1)

theorem mem_created {p : IndexerId → Bool} {id : IndexingAgreementId} : id ∈ w.created p ↔
    ∃ row, w.row id = some row ∧ row.status = .created ∧ p row.indexerId = true := by
  simp only [created, List.mem_map, List.mem_filter, Bool.and_eq_true, decide_eq_true_eq]
  constructor
  · rintro ⟨⟨id', row⟩, ⟨hMem, hStatus, hIndexer⟩, rfl⟩
    exact ⟨row, AList.mem_lookup_iff.mpr hMem, hStatus, hIndexer⟩
  · rintro ⟨row, hRow, hStatus, hIndexer⟩
    exact ⟨⟨id, row⟩, ⟨AList.mem_lookup_iff.mp hRow, hStatus, hIndexer⟩, rfl⟩

theorem nodup_created (p : IndexerId → Bool) : (w.created p).Nodup :=
  w.agreements.keys_nodup.sublist (List.filter_sublist.map _)

theorem length_created_le {p : IndexerId → Bool} {ids : List IndexingAgreementId}
    (h : w.created p ⊆ ids) : (w.created p).length ≤ ids.length :=
  ((nodup_created p).subperm h).length_le

/-- What happens while a pass runs: rows grow, no pending cancellation is added, and, where accepts
come in time, no agreement becomes active again. -/
structure Calm (timely : Prop) (w w' : World) : Prop where
  rows : w.agreements.Grown w'.agreements
  pending : ∀ p ∈ w'.pending, p ∈ w.pending
  active : timely → ∀ id row', w'.row id = some row' → row'.status.active = true →
    ∃ row, w.row id = some row ∧ row.status.active = true

namespace Calm

variable {timely : Prop}

theorem refl (timely : Prop) (w : World) : Calm timely w w :=
  ⟨.refl _, fun _ h => h, fun _ _ row hRow hActive => ⟨row, hRow, hActive⟩⟩

theorem trans (h : Calm timely w w') (h' : Calm timely w' w'') : Calm timely w w'' := by
  refine ⟨h.rows.trans h'.rows, fun p hp => h.pending p (h'.pending p hp), ?_⟩
  intro hTimely id row'' hRow'' hActive
  obtain ⟨row', hRow', hActive'⟩ := h'.active hTimely id row'' hRow'' hActive
  exact h.active hTimely id row' hRow' hActive'

theorem created_subset (h : Calm timely w w') (p : IndexerId → Bool) :
    w'.created p ⊆ w.created p := by
  intro id hMem
  obtain ⟨row', hRow', hStatus, hIndexer⟩ := mem_created.mp hMem
  obtain ⟨row, hRow, hGrows⟩ := h.rows.origin hRow'
  refine mem_created.mpr ⟨row, hRow, ?_, ?_⟩
  · by_contra hNot
    exact hGrows.status.ne_created hNot hStatus
  · rw [← hGrows.indexer]
    exact hIndexer

theorem length_created (h : Calm timely w w') (p : IndexerId → Bool) :
    (w'.created p).length ≤ (w.created p).length :=
  length_created_le (h.created_subset p)

end Calm

structure HasRoom (config : Config) (w : World) (indexer : IndexerId) : Prop where
  total : ∀ cap ∈ config.maxInFlightOffersTotal, (w.created fun _ => true).length + 1 ≤ cap
  each : ∀ cap ∈ config.maxInFlightOffersPerIndexer,
    (w.created (· = indexer)).length + 1 ≤ cap

/-- No agreement of the request with the indexer is active. -/
def Unmatched (w : World) (request : IndexingRequestId) (indexer : IndexerId) : Prop :=
  ∀ id row, w.row id = some row → row.indexingRequestId = request → row.indexerId = indexer →
    row.status.active = false

/-- Every agreement that is to replace this one has a row and is no longer on offer. -/
def Free (w : World) (id : IndexingAgreementId) : Prop :=
  ∀ new, (new, id) ∈ w.pending → ∃ row, w.row new = some row ∧ row.status ≠ .created

/-- The picks include the indexer of every agreement of the request that is to be replaced by one
still on offer. -/
def KeepsReplaced (w : World) (request : IndexingRequestId) (picks : List SelectedIndexer) : Prop :=
  ∀ p ∈ w.pending, ∀ new ∈ w.row p.1, new.status = .created → ∀ old ∈ w.row p.2,
    old.indexingRequestId = request → old.indexerId ∈ picks.map (·.id)

theorem Unmatched.calm {request : IndexingRequestId} {indexer : IndexerId}
    (h : w.Unmatched request indexer) {timely : Prop} (hTimely : timely) (hCalm : Calm timely w w') :
    w'.Unmatched request indexer := by
  intro id row' hRow' hRequest hIndexer
  by_contra hActive
  obtain ⟨row, hRow, hActive⟩ := hCalm.active hTimely id row' hRow' (by simpa using hActive)
  obtain ⟨row1, hRow1, hGrows⟩ := hCalm.rows.origin hRow'
  obtain rfl := Option.some.inj (hRow.symm.trans hRow1)
  rw [h id row hRow (hGrows.request ▸ hRequest) (hGrows.indexer ▸ hIndexer)] at hActive
  cases hActive

theorem Free.calm {id : IndexingAgreementId} (h : w.Free id) {timely : Prop}
    (hCalm : Calm timely w w') : w'.Free id := by
  intro new hNew
  obtain ⟨row, hRow, hStatus⟩ := h new (hCalm.pending _ hNew)
  obtain ⟨row', hRow', hGrows⟩ := hCalm.rows.grows hRow
  exact ⟨row', hRow', hGrows.status.ne_created hStatus⟩

end World

open World

/-- The discipline of the passes: only they register, within the caps; where accepts come in time
(`timely`), to indexers without an active agreement of the request; and where IISA keeps the
indexers being replaced (`kept`), they end only agreements whose replacement is not on offer. -/
def passes (config : Config) (timely kept : Prop) : Discipline World Tag Op where
  inv _ := True
  pre t w o := match o with
    | .register params _ => t = .reassess ∧ w.HasRoom config params.indexerId ∧
        (timely → w.Unmatched params.requestId params.indexerId)
    | .update id _ => t = .reassess → kept → w.Free id
    | .applyReconciliation .. | .applyReconciliationBatch _ => t ≠ .reassess
    | _ => True
  rely t w w' := t = .reassess → Calm timely w w'

structure PassConditions (timely kept : Prop) (allow : World → Tag → Op → Choice → Prop) : Prop where
  active : timely → ∀ {w t o choice r w'}, allow w t o choice → w.exec o choice = some (r, w') →
    o.registers = false → ∀ id row', w'.row id = some row' → row'.status.active = true →
      ∃ row, w.row id = some row ∧ row.status.active = true
  pending : kept → ∀ {w t o choice}, allow w t o choice → ∀ p ∈ w.pending,
    ∃ row, w.row p.1 = some row
  picks : kept → ∀ {w request n picks},
    allow w .reassess (.selectIndexers request n) (.selected (.ok picks)) →
      w.KeepsReplaced request picks

variable {config : Config} {allow : World → Tag → Op → Choice → Prop} {timely kept : Prop}
  {w w' : World} {t : Tag}

theorem calm_of_exec (hAllow : PassConditions timely kept allow) {o : Op} {choice : Choice}
    {r : Res o} (hOp : allow w t o choice) (hExec : w.exec o choice = some (r, w'))
    (hRegisters : o.registers = false) : Calm timely w w' := by
  have hEffect := exec_effect hExec
  refine ⟨hEffect.grown hRegisters, fun p hp => ?_, fun hTimely => ?_⟩
  · rcases hEffect.changes.pending with hSame | ⟨params, old, rfl, -⟩ | ⟨new, -, hDel⟩ |
      ⟨new, old, -, hDel⟩
    · rwa [hSame] at hp
    · cases hRegisters
    · rw [hDel] at hp
      exact List.mem_of_mem_filter hp
    · rw [hDel] at hp
      exact List.mem_of_mem_filter hp
  · exact hAllow.active hTimely hOp hExec hRegisters

theorem calm_of_outside {e : Outside} (h : e.move config w = some w') : Calm timely w w' := by
  have hSame := untouched_of_outside h
  have hRow : ∀ id, w'.row id = w.row id := fun id => by rw [row, hSame.agreements, row]
  refine ⟨?_, fun p hp => ?_, fun _ id row' hRow' hActive => ?_⟩
  · rw [hSame.agreements]
    exact .refl _
  · rwa [hSame.pending] at hp
  · exact ⟨row', (hRow id).symm.trans hRow', hActive⟩

theorem passes_sound (hAllow : PassConditions timely kept allow) :
    (passes config timely kept).Sound (services config allow) where
  refl _ _ := fun _ => .refl _ _
  trans hab hbc := fun hTag => (hab hTag).trans (hbc hTag)
  keeps _ _ _ := trivial
  cross {t t' s o r s'} hTags _ hPre hPerforms := by
    rintro rfl
    obtain ⟨choice, hOp, hExec⟩ := hPerforms
    refine calm_of_exec hAllow hOp hExec ?_
    cases o with
    | register params replaces =>
      rcases hTags with hTags | hTags
      · exact absurd hPre.1 hTags
      · rw [hPre.1] at hTags
        cases hTags
    | _ => rfl
  env _ hMove := ⟨trivial, fun _ _ => calm_of_outside hMove⟩

section Walk

variable (hAllow : PassConditions timely kept allow)

abbrev PassKeeps (config : Config) (timely kept : Prop)
    (allow : World → Tag → Op → Choice → Prop) {β : Type} (post : β → World → Prop) (p : Act β)
    (w : World) : Prop :=
  (passes config timely kept).Keeps (services config allow) .reassess post p w

/-- The operations of a pass that change no row. -/
def Op.plain : Op → Bool
  | .register .. | .update .. | .applyReconciliation .. | .applyReconciliationBatch _ => false
  | _ => true

variable {β γ : Type} {post : β → World → Prop}

theorem pass_ret {b : β} (h : ∀ w', Calm timely w w' → post b w') :
    PassKeeps config timely kept allow post (pure b) w :=
  .ret fun w' _ hRely => h w' (hRely rfl)

include hAllow

theorem pass_bind {p : Act γ} {k : γ → Act β} {mid : γ → World → Prop}
    (hp : PassKeeps config timely kept allow mid p w)
    (hk : ∀ r w', mid r w' → PassKeeps config timely kept allow post (k r) w') :
    PassKeeps config timely kept allow post (p >>= k) w :=
  .bind (passes_sound hAllow) (hp.mono fun r w' _ h => hk r w' h)

theorem pass_under {P : World → Prop} {Q : Op → Prop} {p : Act β} (hp : p.OnlyOps Q)
    (hP : ∀ {w w'}, Calm timely w w' → P w → P w')
    (hQ : ∀ o, Q o → o.registers = false ∧
      ∀ w, P w → (passes config timely kept).pre .reassess w o) (h : P w) :
    PassKeeps config timely kept allow (fun _ => P) p w := by
  refine .under (passes_sound hAllow) (fun _ hRely => hP (hRely rfl))
    (fun o ho w1 _ h1 => (hQ o ho).2 w1 h1) (fun {w1 o r w2} ho hPerforms => ?_) hp h
  obtain ⟨choice, hOp, hExec⟩ := hPerforms
  exact hP (calm_of_exec hAllow hOp hExec (hQ o ho).1)

theorem pass_plain {P : World → Prop} {p : Act β} (hp : p.OnlyOps fun o => o.plain = true)
    (hP : ∀ {w w'}, Calm timely w w' → P w → P w') (h : P w) :
    PassKeeps config timely kept allow (fun _ => P) p w := by
  refine pass_under hAllow hp hP (fun o ho => ⟨?_, fun w1 _ => ?_⟩) h
  · cases o <;> first | rfl | cases ho
  · cases o <;> trivial

theorem pass_call {o : Op} (ho : o.plain = true) {k : Res o → Act β}
    (h : ∀ w1 choice r w2, Calm timely w w1 → allow w1 .reassess o choice →
      w1.exec o choice = some (r, w2) → Calm timely w1 w2 →
      PassKeeps config timely kept allow post (k r) w2) :
    PassKeeps config timely kept allow post (call o >>= k) w := by
  have hRegisters : o.registers = false := by
    cases o <;> first | rfl | cases ho
  refine .op (passes_sound hAllow) fun w1 _ hRely => ⟨?_, fun r w2 hPerforms _ => ?_⟩
  · cases o <;> trivial
  · obtain ⟨choice, hOp, hExec⟩ := hPerforms
    exact h w1 choice r w2 (hRely rfl) hOp hExec (calm_of_exec hAllow hOp hExec hRegisters)

end Walk

namespace Reassess

section Reads

/-- What a pass knows of its request's agreements once it has listed the active ones. -/
structure Covers (timely : Prop) (request : IndexingRequestId) (active : List IndexingAgreement)
    (w : World) : Prop where
  current : timely → ∀ id row, w.row id = some row → row.indexingRequestId = request →
    row.status.active = true → row.indexerId ∈ active.map (·.indexerId)
  listed : ∀ a ∈ active, ∃ row, w.row a.id = some row ∧ row.indexingRequestId = request ∧
    row.indexerId = a.indexerId
  distinct : (active.map (·.id)).Nodup

/-- The offers in flight a pass has read are no fewer than those on offer. -/
def Counts (inFlight : List IndexerId) (w : World) : Prop :=
  ∀ p, (w.created p).length ≤ inFlight.countP p

variable {request : IndexingRequestId}

theorem Covers.calm {active : List IndexingAgreement} (h : Covers timely request active w)
    (hCalm : Calm timely w w') : Covers timely request active w' := by
  refine ⟨fun hTimely id row' hRow' hRequest hActive => ?_, fun a ha => ?_, h.distinct⟩
  · obtain ⟨row, hRow, hActive⟩ := hCalm.active hTimely id row' hRow' hActive
    obtain ⟨row1, hRow1, hGrows⟩ := hCalm.rows.origin hRow'
    obtain rfl := Option.some.inj (hRow.symm.trans hRow1)
    rw [hGrows.indexer]
    exact h.current hTimely id row hRow (hGrows.request ▸ hRequest) hActive
  · obtain ⟨row, hRow, hRequest, hIndexer⟩ := h.listed a ha
    obtain ⟨row', hRow', hGrows⟩ := hCalm.rows.grows hRow
    exact ⟨row', hRow', hGrows.request.trans hRequest, hGrows.indexer.trans hIndexer⟩

theorem Counts.calm {inFlight : List IndexerId} (h : Counts inFlight w)
    (hCalm : Calm timely w w') : Counts inFlight w' :=
  fun p => (hCalm.length_created p).trans (h p)

theorem covers_of_select {choice : Choice} {rows : List (IndexingAgreementId × AgreementRow)}
    (h : w.exec (.select (.activeOfRequest request)) choice = some (.ok rows, w')) :
    Covers timely request (Registry.agreements rows) w := by
  refine ⟨fun _ id row hRow hRequest hActive => ?_, fun a ha => ?_, ?_⟩
  · have hSelects : (AgreementQuery.activeOfRequest request).selects w.now w.requests id row =
        true := by
      simp only [AgreementQuery.selects, hRequest, decide_true, Bool.true_and]
      revert hActive
      cases row.status <;> decide
    have hMem := exec_select_complete h nofun rfl hRow hSelects
    exact List.mem_map.mpr ⟨row.agreement id, List.mem_map.mpr ⟨(id, row), hMem, rfl⟩, rfl⟩
  · obtain ⟨⟨id, row⟩, hMem, rfl⟩ := List.mem_map.mp ha
    obtain ⟨hRow, hSelects⟩ := exec_select_row h hMem
    simp only [AgreementQuery.selects, Bool.and_eq_true, decide_eq_true_eq] at hSelects
    exact ⟨row, hRow, hSelects.1, rfl⟩
  · rw [Registry.agreements, List.map_map]
    exact exec_select_nodup h

theorem counts_of_select {choice : Choice} {rows : List (IndexingAgreementId × AgreementRow)}
    (h : w.exec (.select .inFlight) choice = some (.ok rows, w')) :
    Counts ((Registry.agreements rows).map (·.indexerId)) w := by
  intro p
  have hSubset : w.created p ⊆ (rows.filter fun r => p r.2.indexerId).map (·.1) := by
    intro id hMem
    obtain ⟨row, hRow, hStatus, hIndexer⟩ := mem_created.mp hMem
    have hListed := exec_select_complete h nofun rfl hRow (by
      simp only [AgreementQuery.selects, hStatus, decide_true, Bool.true_or])
    exact List.mem_map.mpr ⟨(id, row), List.mem_filter.mpr ⟨hListed, hIndexer⟩, rfl⟩
  refine (length_created_le hSubset).trans (Nat.le_of_eq ?_)
  rw [List.length_map, ← List.countP_eq_length_filter, Registry.agreements, List.map_map,
    List.countP_map]
  rfl

variable (hAllow : PassConditions timely kept allow)
include hAllow

theorem pass_listAgreements {β : Type} {post : β → World → Prop} {q : AgreementQuery}
    {k : Except RegistryError (List IndexingAgreement) → Act β}
    (hError : ∀ e w', Calm timely w w' →
      PassKeeps config timely kept allow post (k (.error e)) w')
    (hOk : ∀ w1 choice rows w2, Calm timely w w1 →
      w1.exec (.select q) choice = some (.ok rows, w2) → Calm timely w1 w2 →
      PassKeeps config timely kept allow post (k (.ok (Registry.agreements rows))) w2) :
    PassKeeps config timely kept allow post (Registry.listAgreements q >>= k) w := by
  refine pass_call hAllow rfl fun w1 choice r w2 hCalm _ hExec hCalm' => ?_
  cases r with
  | error e => exact hError e w2 (hCalm.trans hCalm')
  | ok rows => exact hOk w1 choice rows w2 hCalm hExec hCalm'

theorem pass_readBaseline : PassKeeps config timely kept allow
    (fun r w' => ∀ b, r = .ok (some b) → Covers timely request b.active w' ∧ Counts b.inFlight w')
    (readBaseline request) w := by
  refine pass_call hAllow rfl fun _ _ stored w1 _ _ _ _ => ?_
  match stored with
  | .error e => exact pass_ret fun _ _ => nofun
  | .ok none => exact pass_ret fun _ _ => nofun
  | .ok (some stored) =>
    refine pass_listAgreements hAllow (fun e _ _ => pass_ret fun _ _ => nofun) ?_
    intro w2 _ active w3 _ hActive hCalm3
    have hCovers : Covers timely request (Registry.agreements active) w2 := covers_of_select hActive
    refine pass_listAgreements hAllow (fun e _ _ => pass_ret fun _ _ => nofun) ?_
    intro w4 _ holding w5 hCalm4 _ hCalm5
    refine pass_listAgreements hAllow (fun e _ _ => pass_ret fun _ _ => nofun) ?_
    intro w6 _ inFlight w7 hCalm6 hInFlight hCalm7
    refine pass_ret fun w8 hCalm8 b hb => ?_
    obtain rfl := Option.some.inj (Except.ok.inj hb.symm)
    exact ⟨((((hCovers.calm hCalm3).calm (hCalm4.trans hCalm5)).calm hCalm6).calm hCalm7).calm
      hCalm8, ((counts_of_select hInFlight).calm hCalm7).calm hCalm8⟩

/-- What a pass knows before it plans: what it has read still holds, and, where IISA keeps the
indexers being replaced, no agreement of an indexer it left out is to be replaced by one on
offer. -/
structure Informed (timely kept : Prop) (request : IndexingRequestId) (b : Baseline)
    (picks : List SelectedIndexer) (w : World) : Prop where
  covers : Covers timely request b.active w
  counts : Counts b.inFlight w
  free : kept → ∀ a ∈ b.active, a.indexerId ∉ picks.map (·.id) → w.Free a.id

omit hAllow in
theorem Informed.calm {b : Baseline} {picks : List SelectedIndexer}
    (h : Informed timely kept request b picks w) (hCalm : Calm timely w w') :
    Informed timely kept request b picks w' :=
  ⟨h.covers.calm hCalm, h.counts.calm hCalm, fun hKept a ha hOut =>
    (h.free hKept a ha hOut).calm hCalm⟩

theorem pass_selectTarget {n : Nat} {b : Baseline} (hCovers : Covers timely request b.active w)
    (hCounts : Counts b.inFlight w) : PassKeeps config timely kept allow
      (fun r w' => ∀ picks, r = .ok picks → Informed timely kept request b picks w')
      (selectTarget request n) w := by
  refine pass_call hAllow rfl fun w1 _ context w2 hCalm1 _ _ hCalm2 => ?_
  cases context with
  | error e => exact pass_ret fun _ _ _ => nofun
  | ok _ =>
    refine pass_call hAllow rfl fun w3 choice selected w4 hCalm3 hSelect hExec hCalm4 => ?_
    obtain rfl := exec_selectIndexers hExec
    cases selected with
    | error e => cases e <;> exact pass_ret fun _ _ _ => nofun
    | ok picks =>
      refine pass_ret fun w5 hCalm5 picks' hPicks => ?_
      obtain rfl := Except.ok.inj hPicks
      have hBefore : Calm timely w w3 := (hCalm1.trans hCalm2).trans hCalm3
      have hInformed : Informed timely kept request b picks w3 := by
        refine ⟨hCovers.calm hBefore, hCounts.calm hBefore, fun hKept a ha hOut new hNew => ?_⟩
        obtain ⟨row, hRow⟩ := hAllow.pending hKept hSelect (new, a.id) hNew
        obtain ⟨old, hOld, hRequest, hIndexer⟩ := (hCovers.calm hBefore).listed a ha
        refine ⟨row, hRow, fun hCreated => hOut ?_⟩
        rw [← hIndexer]
        exact hAllow.picks hKept hSelect (new, a.id) hNew row hRow hCreated old hOld hRequest
      exact hInformed.calm (hCalm4.trans hCalm5)

end Reads

section Plan

/-- What the caps leave room for on top of the offers in flight. -/
structure WithinCaps (perIndexerCap globalCap : Option Nat) (inFlight admitted : List IndexerId) :
    Prop where
  total : ∀ cap ∈ globalCap, admitted ≠ [] → inFlight.length + admitted.length ≤ cap
  each : ∀ cap ∈ perIndexerCap, ∀ i ∈ admitted, inFlight.count i + admitted.count i ≤ cap

def admitNext (perIndexerCap globalCap : Option Nat) (inFlight admitted : List IndexerId)
    (i : IndexerId) : List IndexerId :=
  if globalCap.any fun cap => inFlight.length + admitted.length ≥ cap then admitted
  else if perIndexerCap.any fun cap => inFlight.count i + admitted.count i ≥ cap then admitted
  else admitted ++ [i]

/-- One more offer to the indexer, on top of those in flight and those admitted, is over a cap. -/
def Full (perIndexerCap globalCap : Option Nat) (inFlight admitted : List IndexerId)
    (i : IndexerId) : Prop :=
  (∃ cap ∈ globalCap, cap < inFlight.length + (admitted.length + 1)) ∨
    ∃ cap ∈ perIndexerCap, cap < inFlight.count i + (admitted.count i + 1)

variable {perIndexerCap globalCap : Option Nat} {inFlight admitted : List IndexerId}
  {i : IndexerId}

theorem full_of_total (h : (globalCap.any fun cap => inFlight.length + admitted.length ≥ cap) = true) :
    Full perIndexerCap globalCap inFlight admitted i := by
  obtain ⟨cap, hCap, hOver⟩ := (Option.any_eq_true _ _).mp h
  have hLe := of_decide_eq_true hOver
  exact .inl ⟨cap, hCap, by omega⟩

theorem full_of_each
    (h : (perIndexerCap.any fun cap => inFlight.count i + admitted.count i ≥ cap) = true) :
    Full perIndexerCap globalCap inFlight admitted i := by
  obtain ⟨cap, hCap, hOver⟩ := (Option.any_eq_true _ _).mp h
  have hLe := of_decide_eq_true hOver
  exact .inr ⟨cap, hCap, by omega⟩

theorem admitNext_cases (perIndexerCap globalCap : Option Nat) (inFlight admitted : List IndexerId)
    (i : IndexerId) :
    (admitNext perIndexerCap globalCap inFlight admitted i = admitted ∧
      Full perIndexerCap globalCap inFlight admitted i) ∨
    (admitNext perIndexerCap globalCap inFlight admitted i = admitted ++ [i] ∧
      ¬ Full perIndexerCap globalCap inFlight admitted i) := by
  unfold admitNext
  split
  · rename_i hTotal
    exact .inl ⟨rfl, full_of_total hTotal⟩
  · rename_i hTotal
    split
    · rename_i hEach
      exact .inl ⟨rfl, full_of_each hEach⟩
    · rename_i hEach
      refine .inr ⟨rfl, ?_⟩
      rintro (⟨cap, hCap, hOver⟩ | ⟨cap, hCap, hOver⟩)
      · exact hTotal ((Option.any_eq_true _ _).mpr ⟨cap, hCap, decide_eq_true (by omega)⟩)
      · exact hEach ((Option.any_eq_true _ _).mpr ⟨cap, hCap, decide_eq_true (by omega)⟩)

theorem Full.mono {admitted' : List IndexerId} (h : Full perIndexerCap globalCap inFlight admitted i)
    (hMore : admitted <+: admitted') : Full perIndexerCap globalCap inFlight admitted' i := by
  rcases h with ⟨cap, hCap, hOver⟩ | ⟨cap, hCap, hOver⟩
  · have hLength := hMore.length_le
    exact .inl ⟨cap, hCap, by omega⟩
  · have hCount := hMore.sublist.count_le i
    exact .inr ⟨cap, hCap, by omega⟩

theorem Full.perm {admitted' : List IndexerId} (h : Full perIndexerCap globalCap inFlight admitted i)
    (hPerm : admitted.Perm admitted') : Full perIndexerCap globalCap inFlight admitted' i := by
  rw [Full, ← hPerm.length_eq, ← hPerm.count_eq]
  exact h

theorem withinCaps_concat (h : WithinCaps perIndexerCap globalCap inFlight admitted)
    (hRoom : ¬ Full perIndexerCap globalCap inFlight admitted i) :
    WithinCaps perIndexerCap globalCap inFlight (admitted ++ [i]) := by
  refine ⟨fun cap hCap _ => ?_, fun cap hCap j hj => ?_⟩
  · have hTotal : ¬ cap < inFlight.length + (admitted.length + 1) :=
      fun hOver => hRoom (.inl ⟨cap, hCap, hOver⟩)
    rw [List.length_append, List.length_singleton]
    omega
  · rw [List.count_append, List.count_singleton]
    by_cases hEq : i = j
    · subst hEq
      have hEach : ¬ cap < inFlight.count i + (admitted.count i + 1) :=
        fun hOver => hRoom (.inr ⟨cap, hCap, hOver⟩)
      simp only [beq_self_eq_true, if_true]
      omega
    · have hMem : j ∈ admitted := by
        simpa [Ne.symm hEq] using hj
      have hBefore := h.each cap hCap j hMem
      simp [hEq]
      omega

/-- Of the candidates gone through, those admitted are within the caps, and each of the others is
one the caps have no room for beside them. -/
theorem foldl_admitNext (rest : List IndexerId) (admitted : List IndexerId)
    (h : WithinCaps perIndexerCap globalCap inFlight admitted) :
    let admitted' := rest.foldl (admitNext perIndexerCap globalCap inFlight) admitted
    WithinCaps perIndexerCap globalCap inFlight admitted' ∧ admitted <+: admitted' ∧
      admitted'.Sublist (admitted ++ rest) ∧
      ∀ i ∈ rest, i ∉ admitted' → Full perIndexerCap globalCap inFlight admitted' i := by
  induction rest generalizing admitted with
  | nil => exact ⟨h, List.prefix_rfl, by simp, nofun⟩
  | cons i rest ih =>
    rw [List.foldl_cons]
    rcases admitNext_cases perIndexerCap globalCap inFlight admitted i with
      ⟨hEq, hFull⟩ | ⟨hEq, hRoom⟩
    · rw [hEq]
      obtain ⟨hCaps, hPrefix, hSublist, hRest⟩ := ih admitted h
      have hSkip : (admitted ++ rest).Sublist (admitted ++ i :: rest) :=
        (List.sublist_cons_self i rest).append_left admitted
      refine ⟨hCaps, hPrefix, hSublist.trans hSkip, fun j hj hOut => ?_⟩
      rcases List.mem_cons.mp hj with rfl | hj
      · exact hFull.mono hPrefix
      · exact hRest j hj hOut
    · rw [hEq]
      obtain ⟨hCaps, hPrefix, hSublist, hRest⟩ := ih (admitted ++ [i]) (withinCaps_concat h hRoom)
      rw [List.append_assoc] at hSublist
      refine ⟨hCaps, (List.prefix_append _ _).trans hPrefix, hSublist, fun j hj hOut => ?_⟩
      rcases List.mem_cons.mp hj with rfl | hj
      · exact absurd (hPrefix.subset (by simp)) hOut
      · exact hRest j hj hOut

/-- The plan stays within the caps, admits candidates only, each as often as it was named, and
withholds those the caps have no room for beside the ones admitted. -/
theorem planCappedAdditions_spec (candidates inFlight : List IndexerId)
    (perIndexerCap globalCap : Option Nat) :
    let admitted := (planCappedAdditions candidates inFlight.count inFlight.length perIndexerCap
      globalCap).1
    WithinCaps perIndexerCap globalCap inFlight admitted ∧ admitted.Subperm candidates ∧
      ∀ i ∈ candidates, i ∉ admitted → Full perIndexerCap globalCap inFlight admitted i := by
  have hInit : WithinCaps perIndexerCap globalCap inFlight [] :=
    ⟨fun _ _ h => absurd rfl h, fun _ _ _ => nofun⟩
  obtain ⟨hCaps, -, hSublist, hRest⟩ :=
    foldl_admitNext (candidates.insertionSort (· ≤ ·)) [] hInit
  have hPerm := List.perm_insertionSort (· ≤ ·) candidates
  refine ⟨hCaps, hSublist.subperm.trans hPerm.subperm, fun i hi hOut => ?_⟩
  exact hRest i (hPerm.mem_iff.mpr hi) hOut

theorem planAdditions_spec (config : Config) (b : Baseline) (diff : Diff) (cancels : Nat) :
    let admitted := (planAdditions config b diff cancels).1
    WithinCaps config.maxInFlightOffersPerIndexer config.maxInFlightOffersTotal b.inFlight
      admitted ∧ admitted.Subperm diff.toAdd ∧
    ∀ i ∈ diff.toAdd, i ∉ admitted → Full config.maxInFlightOffersPerIndexer
      config.maxInFlightOffersTotal b.inFlight admitted i := by
  unfold planAdditions
  split
  · rename_i hNone
    rw [List.isEmpty_iff] at hNone
    rw [hNone]
    exact ⟨⟨fun _ _ h => absurd rfl h, fun _ _ _ => nofun⟩, List.nil_subperm, nofun⟩
  · exact planCappedAdditions_spec diff.toAdd b.inFlight config.maxInFlightOffersPerIndexer
      config.maxInFlightOffersTotal

end Plan

section Additions

/-- A pass has room to offer to the indexers, none of which has an active agreement of the request
where accepts come in time, and the olds to be replaced are free to be. -/
structure Admits (config : Config) (timely kept : Prop) (request : IndexingRequestId)
    (indexers : List IndexerId) (olds : List IndexingAgreement) (w : World) : Prop where
  total : ∀ cap ∈ config.maxInFlightOffersTotal, indexers ≠ [] →
    (w.created fun _ => true).length + indexers.length ≤ cap
  each : ∀ cap ∈ config.maxInFlightOffersPerIndexer, ∀ i ∈ indexers,
    (w.created (· = i)).length + indexers.count i ≤ cap
  nodup : indexers.Nodup
  unmatched : timely → ∀ i ∈ indexers, w.Unmatched request i
  distinct : (olds.map (·.id)).Nodup
  free : kept → ∀ a ∈ olds, w.Free a.id

namespace Admits

variable {request : IndexingRequestId} {indexers rest : List IndexerId} {i : IndexerId}
  {olds : List IndexingAgreement}

theorem calm (h : Admits config timely kept request indexers olds w) (hCalm : Calm timely w w') :
    Admits config timely kept request indexers olds w' where
  total cap hCap hNe := by
    have hFewer := hCalm.length_created fun _ => true
    have hRoom := h.total cap hCap hNe
    omega
  each cap hCap i hi := by
    have hFewer := hCalm.length_created (· = i)
    have hRoom := h.each cap hCap i hi
    omega
  nodup := h.nodup
  unmatched hTimely i hi := (h.unmatched hTimely i hi).calm hTimely hCalm
  distinct := h.distinct
  free hKept a ha := (h.free hKept a ha).calm hCalm

theorem tail (h : Admits config timely kept request (i :: rest) olds w) :
    Admits config timely kept request rest olds.tail w where
  total cap hCap _ := by
    have hRoom := h.total cap hCap (by simp)
    rw [List.length_cons] at hRoom
    omega
  each cap hCap j hj := by
    have hRoom := h.each cap hCap j (by simp [hj])
    have hCount := List.count_le_count_cons (a := j) (b := i) (l := rest)
    omega
  nodup := (List.nodup_cons.mp h.nodup).2
  unmatched hTimely j hj := h.unmatched hTimely j (by simp [hj])
  distinct := by
    rw [List.map_tail]
    exact h.distinct.tail
  free hKept a ha := h.free hKept a (List.mem_of_mem_tail ha)

theorem hasRoom (h : Admits config timely kept request (i :: rest) olds w) :
    w.HasRoom config i where
  total cap hCap := by
    have hRoom := h.total cap hCap (by simp)
    rw [List.length_cons] at hRoom
    omega
  each cap hCap := by
    have hRoom := h.each cap hCap i (by simp)
    rw [List.count_cons_self] at hRoom
    omega

end Admits

theorem row_of_register {params : NewAgreementParams} {replaces : Option IndexingAgreementId}
    (h : Effect w w' (.register params replaces)) (id : IndexingAgreementId) :
    w'.row id = w.row id ∨
      (id = params.agreementId ∧ w.row id = none ∧ w'.row id = some (params.row w.now)) := by
  have hRow := h.row trivial id
  generalize w.row id = r at hRow ⊢
  generalize w'.row id = r' at hRow ⊢
  cases hRow with
  | same => exact .inl rfl
  | register hId => exact .inr ⟨hId.symm, rfl, rfl⟩

theorem pending_of_register {params : NewAgreementParams} {replaces : Option IndexingAgreementId}
    (h : Effect w w' (.register params replaces)) {p : IndexingAgreementId × IndexingAgreementId}
    (hp : p ∈ w'.pending) : p ∈ w.pending ∨ replaces = some p.2 := by
  rcases h.changes.pending with hSame | ⟨params', old, hOp, hPending, -⟩ | ⟨new, hOp, -⟩ |
    ⟨new, old, hOp, -⟩
  · exact .inl (hSame ▸ hp)
  · cases hOp
    rcases (hPending p).mp hp with hOld | rfl
    · exact .inl hOld
    · exact .inr rfl
  · cases hOp
  · cases hOp

theorem created_of_register {params : NewAgreementParams} {replaces : Option IndexingAgreementId}
    (h : Effect w w' (.register params replaces)) (p : IndexerId → Bool) :
    w'.created p ⊆ w.created p ++ if p params.indexerId then [params.agreementId] else [] := by
  intro id hMem
  obtain ⟨row', hRow', hStatus, hIndexer⟩ := mem_created.mp hMem
  rcases row_of_register h id with hSame | ⟨rfl, -, hNew⟩
  · exact List.mem_append_left _ (mem_created.mpr ⟨row', hSame ▸ hRow', hStatus, hIndexer⟩)
  · obtain rfl := Option.some.inj (hRow'.symm.trans hNew)
    have hPicked : p params.indexerId = true := hIndexer
    rw [if_pos hPicked]
    simp

theorem length_created_of_register {params : NewAgreementParams}
    {replaces : Option IndexingAgreementId} (h : Effect w w' (.register params replaces))
    (p : IndexerId → Bool) : (w'.created p).length ≤
      (w.created p).length + if p params.indexerId then 1 else 0 := by
  have hLength := length_created_le (created_of_register h p)
  rw [List.length_append] at hLength
  split at hLength <;> simp_all

theorem Admits.registered {request : IndexingRequestId} {rest : List IndexerId}
    {olds : List IndexingAgreement} {params : NewAgreementParams}
    (h : Admits config timely kept request (params.indexerId :: rest) olds w)
    (hEffect : Effect w w' (.register params (olds.head?.map (·.id)))) :
    Admits config timely kept request rest olds.tail w' where
  total cap hCap hNe := by
    have hMore := length_created_of_register hEffect fun _ => true
    have hRoom := h.total cap hCap (by simp)
    simp only [if_true, List.length_cons] at hMore hRoom
    omega
  each cap hCap j hj := by
    have hMore := length_created_of_register hEffect (· = j)
    have hRoom := h.each cap hCap j (by simp [hj])
    rw [List.count_cons] at hRoom
    simp only [decide_eq_true_eq] at hMore
    by_cases hEq : params.indexerId = j
    · simp only [hEq, if_true, beq_self_eq_true] at hMore hRoom
      omega
    · simp only [hEq, if_false] at hMore
      omega
  nodup := h.tail.nodup
  unmatched hTimely j hj id row' hRow' hRequest hIndexer := by
    rcases row_of_register hEffect id with hSame | ⟨-, -, hNew⟩
    · exact h.tail.unmatched hTimely j hj id row' (hSame ▸ hRow') hRequest hIndexer
    · obtain rfl := Option.some.inj (hRow'.symm.trans hNew)
      have hSelf : params.indexerId = j := hIndexer
      rw [hSelf] at h
      exact absurd hj (List.nodup_cons.mp h.nodup).1
  distinct := h.tail.distinct
  free hKept a ha new hNew := by
    have hOld : (new, a.id) ∈ w.pending := by
      rcases pending_of_register hEffect hNew with hOld | hReplaces
      · exact hOld
      · -- What is replaced is the first of the olds, and the others are different agreements.
        cases olds with
        | nil => cases ha
        | cons first others =>
          have hId : first.id = a.id := Option.some.inj hReplaces
          have hNot : first.id ∉ others.map (·.id) := (List.nodup_cons.mp h.distinct).1
          exact absurd (List.mem_map.mpr ⟨a, ha, hId.symm⟩) hNot
    obtain ⟨row, hRow, hStatus⟩ := h.tail.free hKept a ha new hOld
    rcases row_of_register hEffect new with hSame | ⟨-, hNone, -⟩
    · exact ⟨row, hSame.trans hRow, hStatus⟩
    · cases hNone.symm.trans hRow

variable (hAllow : PassConditions timely kept allow)
include hAllow

theorem pass_registerNew {request : IndexingRequestId} {b : Baseline} {now : Nat}
    {indexer : IndexerId} {rest : List IndexerId} {olds : List IndexingAgreement}
    (h : Admits config timely kept request (indexer :: rest) olds w) :
    PassKeeps config timely kept allow
      (fun _ w' => Admits config timely kept request rest olds.tail w')
      (registerNew config request b now indexer olds.head?) w := by
  refine pass_call hAllow rfl fun w1 _ fresh w2 hCalm1 _ _ hCalm2 => ?_
  obtain ⟨id, versionHash⟩ := fresh
  have h2 := (h.calm hCalm1).calm hCalm2
  have hRegister : ∀ replaces, replaces = olds.head?.map (·.id) →
      ∀ params : NewAgreementParams, params.requestId = request → params.indexerId = indexer →
      PassKeeps config timely kept allow
        (fun _ w' => Admits config timely kept request rest olds.tail w')
        (call (.register params replaces)) w2 := by
    rintro replaces rfl params rfl rfl
    refine .op (passes_sound hAllow) fun w3 _ hRely => ?_
    have h3 := h2.calm (hRely rfl)
    refine ⟨⟨rfl, h3.hasRoom, fun hTimely => h3.unmatched hTimely _ (by simp)⟩, ?_⟩
    rintro r w4 ⟨choice, -, hExec⟩ -
    exact pass_ret fun w5 hCalm5 => (h3.registered (exec_effect hExec)).calm hCalm5
  have hLast : ∀ (r : Except RegistryError IndexingAgreementId) w3,
      Admits config timely kept request rest olds.tail w3 →
      PassKeeps config timely kept allow
        (fun _ w' => Admits config timely kept request rest olds.tail w') (pure r) w3 :=
    fun r w3 h3 => pass_ret fun _ hCalm => h3.calm hCalm
  cases hHead : olds.head? with
  | none =>
    refine pass_bind hAllow (hRegister none (by rw [hHead]; rfl) _ rfl rfl) fun r w3 h3 => ?_
    cases r <;> exact hLast _ w3 h3
  | some old =>
    refine pass_bind hAllow (hRegister (some old.id) (by rw [hHead]; rfl) _ rfl rfl)
      fun r w3 h3 => ?_
    cases r <;> exact hLast _ w3 h3

theorem pass_addEach {request : IndexingRequestId} {b : Baseline} {now : Nat}
    {indexers : List IndexerId} {olds : List IndexingAgreement}
    (h : Admits config timely kept request indexers olds w) :
    PassKeeps config timely kept allow (fun r w' => kept → ∀ a ∈ r.2, w'.Free a.id)
      (addEach config request b now indexers olds) w := by
  induction indexers generalizing w olds with
  | nil => exact pass_ret fun w' hCalm hKept a ha => (h.free hKept a ha).calm hCalm
  | cons indexer rest ih =>
    refine pass_bind hAllow (pass_registerNew hAllow h) fun r w1 h1 => ?_
    cases r with
    | error e => exact ih h1
    | ok id =>
      refine pass_call hAllow rfl fun w2 _ pushed w3 hCalm2 _ _ hCalm3 => ?_
      have h3 := (h1.calm hCalm2).calm hCalm3
      cases pushed with
      | error e => exact ih h3
      | ok _ =>
        refine pass_bind hAllow (ih h3) fun r w4 h4 => ?_
        exact pass_ret fun w5 hCalm hKept a ha => (h4 hKept a ha).calm hCalm

end Additions

section Pass

theorem cancels_cancelUnpaired {a : IndexingAgreement} :
    Cancels a (cancelUnpaired config a) := by
  unfold cancelUnpaired
  dsimp only
  split
  · exact .bind (.op rfl) fun _ => .ret _
  · exact .bind cancels_startCancel fun _ => .ret _

theorem plain_of_asks {α : Type} {p : Act α} (hp : Asks p) :
    p.OnlyOps fun o => o.plain = true := by
  refine Prog.OnlyOps.mono (fun o ho => ?_) hp
  cases o <;> first | rfl | cases ho

theorem nodup_toAdd (b : Baseline) (picks : List SelectedIndexer) :
    (computeDiff b picks).toAdd.Nodup := List.nodup_dedup _

/-- The additions are of indexers without an agreement in the request's group. -/
theorem notMem_of_toAdd {b : Baseline} {picks : List SelectedIndexer} {i : IndexerId}
    (hi : i ∈ (computeDiff b picks).toAdd) : i ∉ b.active.map (·.indexerId) := by
  have hOffer := List.of_mem_filter (List.mem_of_mem_take (List.mem_dedup.mp hi))
  obtain ⟨pick, hPick, rfl⟩ := List.mem_map.mp (of_decide_eq_true hOffer)
  have hNew := List.of_mem_filter (List.mem_of_mem_filter hPick)
  intro hMem
  exact (of_decide_eq_true hNew).1 (List.mem_dedup.mpr hMem)

theorem notMem_of_toCancel {b : Baseline} {picks : List SelectedIndexer} {i : IndexerId}
    (hi : i ∈ (computeDiff b picks).toCancel) : i ∉ picks.map (·.id) := by
  have hOut := List.of_mem_filter hi
  intro hMem
  exact of_decide_eq_true hOut (List.mem_dedup.mpr hMem)

theorem admits_of_plan {request : IndexingRequestId} {b : Baseline} {picks : List SelectedIndexer}
    {cancels n : Nat} {order : List IndexerId} (h : Informed timely kept request b picks w)
    (hOrder : order.Perm (planAdditions config b (computeDiff b picks) cancels).1) :
    Admits config timely kept request order
      ((b.active.filter fun a => a.indexerId ∈ (computeDiff b picks).toCancel).take n) w := by
  obtain ⟨hCaps, hSubperm, -⟩ := planAdditions_spec config b (computeDiff b picks) cancels
  have hTotal : (w.created fun _ => true).length ≤ b.inFlight.length := by
    have hAll := h.counts fun _ => true
    rwa [List.countP_true] at hAll
  refine ⟨fun cap hCap hNe => ?_, fun cap hCap i hi => ?_, ?_, fun hTimely i hi => ?_, ?_, ?_⟩
  · have hRoom := hCaps.total cap hCap fun hNil => hNe (List.Perm.eq_nil (hNil ▸ hOrder))
    rw [hOrder.length_eq]
    omega
  · have hRoom := hCaps.each cap hCap i (hOrder.mem_iff.mp hi)
    have hOne : (w.created (· = i)).length ≤ b.inFlight.count i := h.counts (· = i)
    rw [hOrder.count_eq]
    omega
  · obtain ⟨l, hPerm, hSublist⟩ := hSubperm
    exact (hPerm.trans hOrder.symm).nodup ((nodup_toAdd b picks).sublist hSublist)
  · intro id row hRow hRequest hIndexer
    by_contra hActive
    have hIn := h.covers.current hTimely id row hRow hRequest (by simpa using hActive)
    rw [hIndexer] at hIn
    exact notMem_of_toAdd (hSubperm.subset (hOrder.mem_iff.mp hi)) hIn
  · refine h.covers.distinct.sublist (List.Sublist.map _ ?_)
    exact (List.take_sublist _ _).trans List.filter_sublist
  · intro hKept a ha
    have hMem := List.mem_of_mem_take ha
    have hOut : a.indexerId ∈ (computeDiff b picks).toCancel := by
      simpa using List.of_mem_filter hMem
    exact h.free hKept a (List.mem_of_mem_filter hMem) (notMem_of_toCancel hOut)

variable (hAllow : PassConditions timely kept allow)
include hAllow

theorem pass_cancelUnpaired {left : List IndexingAgreement}
    (h : kept → ∀ a ∈ left, w.Free a.id) : PassKeeps config timely kept allow
      (fun _ w' => kept → ∀ a ∈ left, w'.Free a.id)
      (Prog.forEach left (cancelUnpaired config)) w := by
  have hCalm : ∀ {w w' : World}, Calm timely w w' → (kept → ∀ a ∈ left, w.Free a.id) →
      kept → ∀ a ∈ left, w'.Free a.id := fun hCalm h hKept a ha => (h hKept a ha).calm hCalm
  refine .forEach (passes_sound hAllow) (fun _ hRely => hCalm (hRely rfl)) ?_ h
  intro a ha w1 h1
  refine pass_under hAllow cancels_cancelUnpaired hCalm (fun o ho => ⟨ho.registers, ?_⟩) h1
  intro w2 h2
  cases o with
  | update id u =>
    obtain rfl : id = a.id := ho
    exact fun _ hKept => h2 hKept a ha
  | register params replaces | applyReconciliation id accept cancel
  | applyReconciliationBatch items => cases ho
  | _ => trivial

theorem pass_carryOut {request : IndexingRequestId} {b : Baseline} {picks : List SelectedIndexer}
    (h : Informed timely kept request b picks w) :
    PassKeeps config timely kept allow (fun _ _ => True)
      (carryOut config request b (computeDiff b picks)) w := by
  unfold carryOut
  dsimp only
  refine pass_bind hAllow (pass_plain hAllow (plain_of_asks asks_resolveDeadlineClock)
    (fun hCalm h => h.calm hCalm) h) fun clock w1 h1 => ?_
  cases clock with
  | error e => exact pass_ret fun _ _ => trivial
  | ok now =>
    refine pass_call hAllow rfl fun w2 choice order w3 hCalm2 _ hExec hCalm3 => ?_
    refine pass_bind hAllow (pass_addEach hAllow
      (admits_of_plan ((h1.calm hCalm2).calm hCalm3) (exec_iterate hExec))) fun r w4 h4 => ?_
    refine pass_bind hAllow (pass_plain hAllow (plain_of_asks asks_announceProposed)
      (P := fun w' => kept → ∀ a ∈ r.2, w'.Free a.id)
      (fun hCalm h hKept a ha => (h hKept a ha).calm hCalm) h4) fun _ w5 h5 => ?_
    refine pass_bind hAllow (pass_cancelUnpaired hAllow h5) fun _ w6 _ => ?_
    split <;> exact pass_ret fun _ _ => trivial

theorem pass_handle {request : IndexingRequestId} :
    PassKeeps config timely kept allow (fun _ _ => True) (handle config request) w := by
  refine pass_bind hAllow (pass_readBaseline hAllow) fun r w1 h1 => ?_
  split
  · exact pass_ret fun _ _ => trivial
  · exact pass_ret fun _ _ => trivial
  · rename_i b
    obtain ⟨hCovers, hCounts⟩ := h1 b rfl
    split
    · exact pass_ret fun _ _ => trivial
    · refine pass_bind hAllow (pass_selectTarget hAllow hCovers hCounts) fun r w2 h2 => ?_
      split
      · exact pass_ret fun _ _ => trivial
      · rename_i picks
        refine pass_bind hAllow (pass_plain hAllow (plain_of_asks asks_signalShortfall)
          (fun hCalm h => h.calm hCalm) (h2 picks rfl)) fun _ w3 h3 => ?_
        split
        · exact pass_ret fun _ _ => trivial
        · exact pass_carryOut hAllow h3

end Pass

end Reassess

theorem passes_starts (hAllow : PassConditions timely kept allow) :
    (passes config timely kept).Starts (services config allow) := by
  intro w seed th _ hStart
  change seed.thread config w = some th at hStart
  by_cases hTag : th.tag = .reassess
  · cases seed with
    | job job =>
      simp only [Seed.thread, Option.ite_none_right_eq_some, Option.some.injEq] at hStart
      obtain ⟨-, rfl⟩ := hStart
      cases job with
      | reassessIndexingRequest request =>
        exact pass_bind hAllow (Reassess.pass_handle hAllow) fun _ _ _ => pass_ret fun _ _ => trivial
      | _ => cases hTag
    | _ =>
      cases hStart
      cases hTag
  · refine .of_onlyOps (passes_sound hAllow) (fun o ho w1 _ => ?_)
      (unregistering_thread hStart hTag)
    cases o with
    | register params replaces => cases ho
    | update id u => exact fun hEq => absurd hEq hTag
    | applyReconciliation id accept cancel | applyReconciliationBatch items => exact hTag
    | _ => trivial

theorem step_of_passes (hAllow : PassConditions timely kept allow)
    {c c' : (services config allow).Config} (hRun : (services config allow).Run (w, []) c)
    {m : Move Choice Seed Outside} (hAllowed : (services config allow).Allowed c m)
    (hNext : (services config allow).next c m = some c') :
    (∃ t o choice r, (services config allow).acts c m = some (t, o) ∧ allow c.1 t o choice ∧
      c.1.exec o choice = some (r, c'.1) ∧ (passes config timely kept).pre t c.1 o) ∨
    (c'.1 = c.1 ∨ ∃ e : Outside, e.move config c.1 = some c'.1) := by
  have hRestricted := Discipline.allowed_of_run (passes_sound hAllow) (passes_starts hAllow)
    trivial hRun hAllowed hNext
  rcases System.next_cases _ hRestricted hNext with ⟨t, o, r, hActs, choice, hOp, hExec⟩ |
    ⟨-, hOther⟩
  · exact .inl ⟨t, o, choice, r, hActs, hOp.1, hExec, hOp.2.2⟩
  · exact .inr hOther

end Dipper
