import Dipper.Consistency.Reconcile
import Dipper.Pages

/-! A drain of the subgraph keeps to the discipline, page by page. -/

namespace Dipper

open World Listener

variable {config : Config} {allow : World → Tag → Op → Choice → Prop} {w w' : World}

/-- The work of a page so far: what was prepared says what the pinned subgraph shows, once for each
agreement, and the agreements left to prepare are others. -/
structure PageOk (agreements : List IndexingAgreement) (work : PageWork) (w : World) : Prop where
  known : ∀ a ∈ agreements, w.PageRead a
  prepared : ∀ prep ∈ work.prepared, w.PageRead prep.agreement ∧ ∃ x, Shows w x ∧
    prep.agreement.id = x.agreementId ∧ prep.item = reconciliationItem x prep.agreement
  nodup : (work.prepared.map (·.agreement.id)).Nodup
  others : ∀ prep ∈ work.prepared, ∀ a ∈ agreements, a.id ≠ prep.agreement.id
  liveChecks : ChecksQueued work.liveChecks w

/-- The snapshot is dealt with by the work so far, or is among what failed. -/
def Covers (w : World) (work : PageWork) (x : AgreementStateSnapshot) : Prop :=
  x.agreementId ∈ work.unapplied ∨
    w.Dealt (∃ prep ∈ work.prepared, prep.item.agreementId = x.agreementId ∧
      prep.item.applyAccept = true) x

section Add

variable {work : PageWork} {id : IndexingAgreementId}
  {prepared : Except Unit (Option PreparedReconciliation)}
  {liveChecks : List (IndexingAgreementId × Nat)}

theorem unapplied_add (h : id ∈ work.unapplied) {id' : IndexingAgreementId} :
    id ∈ (work.add id' prepared liveChecks).unapplied := by
  unfold PageWork.add
  split
  · exact h
  · exact h
  · exact List.mem_append_left _ h

theorem prepared_add {prep : PreparedReconciliation} (h : prep ∈ work.prepared) :
    prep ∈ (work.add id prepared liveChecks).prepared := by
  unfold PageWork.add
  split
  · exact List.mem_append_left _ h
  · exact h
  · exact h

theorem Covers.add {y : AgreementStateSnapshot} (h : Covers w work y) (hGrows : w.Grows w')
    (hPage : w.SamePage w') : Covers w' (work.add id prepared liveChecks) y := by
  rcases h with hFailed | hDealt
  · exact .inl (unapplied_add hFailed)
  · exact .inr (hDealt.mono hGrows hPage fun ⟨prep, hMem, hPrep⟩ => ⟨prep, prepared_add hMem, hPrep⟩)

theorem covers_add {x : AgreementStateSnapshot} {agreement : Option IndexingAgreement}
    (hPrepared : Prepared agreement x w prepared) (hShows : Shows w x)
    (hFound : (w.pinned.chain x.agreementId).WasAccepted →
      x.agreementId ∈ work.unapplied ∨ agreement.isSome = true)
    (hId : ∀ a, agreement = some a → a.id = x.agreementId) :
    Covers w (work.add x.agreementId prepared liveChecks) x := by
  by_cases hSeen : (w.pinned.chain x.agreementId).WasAccepted
  · rcases hFound hSeen with hFailed | hSome
    · exact .inl (unapplied_add hFailed)
    · obtain ⟨a, ha⟩ := Option.isSome_iff_exists.mp hSome
      cases prepared with
      | error e => exact .inl (List.mem_append_right _ (List.mem_singleton.mpr rfl))
      | ok item =>
        refine .inr ((hPrepared.dealt a item ha rfl).mono (.refl w) (.refl w) ?_)
        rintro ⟨prep, rfl, hApplies⟩
        obtain ⟨hAgreement, hItem⟩ := hPrepared.item prep rfl
        refine ⟨prep, List.mem_append_right _ (List.mem_singleton.mpr rfl), ?_, hApplies⟩
        rw [hItem]
        exact hId _ hAgreement
  · exact .inr (.of_unaccepted hShows hSeen)

end Add

namespace PageOk

variable {agreements : List IndexingAgreement} {work : PageWork}

theorem init {unapplied : List IndexingAgreementId} {errors : Nat}
    {liveChecks : List (IndexingAgreementId × Nat)} (hKnown : ∀ a ∈ agreements, w.PageRead a)
    (hQueued : ChecksQueued liveChecks w) :
    PageOk agreements ⟨[], unapplied, errors, liveChecks⟩ w :=
  ⟨hKnown, fun _ h => absurd h List.not_mem_nil, .nil, fun _ h => absurd h List.not_mem_nil,
    hQueued⟩

theorem done (h : PageOk agreements work w) : PageOk [] work w :=
  ⟨fun _ h => absurd h List.not_mem_nil, h.prepared, h.nodup,
    fun _ _ _ h => absurd h List.not_mem_nil, h.liveChecks⟩

theorem mono (h : PageOk agreements work w) (hGrows : w.Grows w') (hPage : w.SamePage w') :
    PageOk agreements work w' where
  known a ha := (h.known a ha).mono hGrows hPage
  prepared prep hMem := by
    obtain ⟨hRead, x, hShows, hId, hItem⟩ := h.prepared prep hMem
    exact ⟨hRead.mono hGrows hPage, x, hShows.mono hGrows hPage.pinned, hId, hItem⟩
  nodup := h.nodup
  others := h.others
  liveChecks := h.liveChecks.mono hGrows

theorem add {x : AgreementStateSnapshot} (h : PageOk agreements work w) (hShows : Shows w x)
    (hGrows : w.Grows w') (hPage : w.SamePage w')
    {prepared : Except Unit (Option PreparedReconciliation)}
    {liveChecks : List (IndexingAgreementId × Nat)} (hQueued : ChecksQueued liveChecks w')
    (hPrepared : Prepared (agreements.find? fun a => a.id = x.agreementId) x w' prepared) :
    PageOk (agreements.filter fun a => a.id ≠ x.agreementId)
      (work.add x.agreementId prepared liveChecks) w' := by
  have h' := h.mono hGrows hPage
  have hOld : ∀ a ∈ agreements.filter fun a => a.id ≠ x.agreementId,
      a ∈ agreements ∧ a.id ≠ x.agreementId := by
    intro a ha
    simpa using List.mem_filter.mp ha
  have hKnown : ∀ a ∈ agreements.filter fun a => a.id ≠ x.agreementId, w'.PageRead a :=
    fun a ha => h'.known a (hOld a ha).1
  have hOthers : ∀ prep ∈ work.prepared, ∀ a ∈ agreements.filter fun a => a.id ≠ x.agreementId,
      a.id ≠ prep.agreement.id := fun prep hMem a ha => h.others prep hMem a (hOld a ha).1
  unfold PageWork.add
  split
  · rename_i prep
    obtain ⟨hFind, hItem⟩ := hPrepared.item prep rfl
    have hId : prep.agreement.id = x.agreementId := by simpa using List.find?_some hFind
    refine ⟨hKnown, ?_, ?_, ?_, hQueued⟩
    · intro q hMem
      rcases List.mem_append.mp hMem with hMem | hMem
      · exact h'.prepared q hMem
      · obtain rfl := List.mem_singleton.mp hMem
        exact ⟨h'.known _ (List.mem_of_find?_eq_some hFind), x,
          hShows.mono hGrows hPage.pinned, hId, hItem⟩
    · rw [List.map_append, List.nodup_append]
      refine ⟨h.nodup, List.nodup_singleton _, ?_⟩
      intro id hMem id' hMem'
      obtain ⟨q, hq, rfl⟩ := List.mem_map.mp hMem
      obtain rfl := List.mem_singleton.mp hMem'
      exact (h.others q hq _ (List.mem_of_find?_eq_some hFind)).symm
    · intro q hMem a ha
      rcases List.mem_append.mp hMem with hMem | hMem
      · exact hOthers q hMem a ha
      · obtain rfl := List.mem_singleton.mp hMem
        rw [hId]
        exact (hOld a ha).2
  · exact ⟨hKnown, h'.prepared, h.nodup, hOthers, hQueued⟩
  · exact ⟨hKnown, h'.prepared, h.nodup, hOthers, hQueued⟩

end PageOk

section Page

variable {snapshots : List AgreementStateSnapshot} {work : PageWork}
  {liveChecks : List (IndexingAgreementId × Nat)}

/-- Every snapshot of an accepted agreement finds it among those read, unless the read failed. -/
def Finds (w : World) (snapshots : List AgreementStateSnapshot)
    (agreements : List IndexingAgreement) (work : PageWork) : Prop :=
  ∀ x ∈ snapshots, (w.pinned.chain x.agreementId).WasAccepted →
    x.agreementId ∈ work.unapplied ∨ ∃ a ∈ agreements, a.id = x.agreementId

theorem keeps_prepareEach (seen : List AgreementStateSnapshot)
    {agreements : List IndexingAgreement} (hShows : ∀ x ∈ snapshots, Shows w x)
    (hNodup : (snapshots.map (·.agreementId)).Nodup) (hFinds : Finds w snapshots agreements work)
    (h : PageOk agreements work w) (hSeen : ∀ x ∈ seen, Covers w work x) :
    Keeps config allow .chainListener (fun r w' => w.SamePage w' ∧ PageOk [] r.2 w' ∧
      (r.1 = false → ∀ x ∈ seen ++ snapshots, Covers w' r.2 x))
      (prepareEach snapshots agreements work) w := by
  induction snapshots generalizing w agreements work seen with
  | nil =>
    refine listener_ret fun w1 _ hGrows hQuiet => ⟨hQuiet.samePage,
      (h.mono hGrows hQuiet.samePage).done, fun _ x hx => ?_⟩
    rw [List.append_nil] at hx
    exact (hSeen x hx).imp_right fun hDealt => hDealt.mono hGrows hQuiet.samePage fun h => h
  | cons x snapshots ih =>
    refine listener_call rfl fun w1 _ hGrows1 _ => ⟨trivial, ?_⟩
    intro c stop w2 _ _ hGrows2 hPage2
    have hGrows12 := hGrows1.trans hGrows2
    have h2 := h.mono hGrows12 hPage2
    split
    · exact listener_ret fun w3 _ hGrows hQuiet => ⟨hPage2.trans hQuiet.samePage,
        (h2.mono hGrows hQuiet.samePage).done, nofun⟩
    · have hx := (hShows x (List.mem_cons_self ..)).mono hGrows12 hPage2.pinned
      have hFound : ∀ a, agreements.find? (fun a => a.id = x.agreementId) = some a →
          a.id = x.agreementId := fun a hFind => by simpa using List.find?_some hFind
      dsimp only
      refine keeps_bind (keeps_prepareReconciliation hx ?_ h2.liveChecks)
        fun r w3 _ hGrows3 hPrep => ?_
      · exact fun a hFind => ⟨hFound a hFind, h2.known a (List.mem_of_find?_eq_some hFind)⟩
      · obtain ⟨prepared, queued⟩ := r
        obtain ⟨hPage3, hQueued, hPrepared⟩ := hPrep
        have hPage := hPage2.trans hPage3
        have hGrows := hGrows12.trans hGrows3
        rw [List.map_cons, List.nodup_cons] at hNodup
        have hCovers : ∀ y ∈ seen ++ [x], Covers w3 (work.add x.agreementId prepared queued) y := by
          intro y hy
          rcases List.mem_append.mp hy with hy | hy
          · exact (hSeen y hy).add hGrows hPage
          · obtain rfl := List.mem_singleton.mp hy
            refine covers_add hPrepared (hx.mono hGrows3 hPage3.pinned) (fun hWas => ?_) hFound
            rw [hPage.pinned] at hWas
            refine (hFinds y (List.mem_cons_self ..) hWas).imp_right fun ⟨a, ha, hEq⟩ => ?_
            exact List.find?_isSome.mpr ⟨a, ha, by simp [hEq]⟩
        have hRest : Finds w3 snapshots (agreements.filter fun a => a.id ≠ x.agreementId)
            (work.add x.agreementId prepared queued) := by
          intro y hy hWas
          rw [hPage.pinned] at hWas
          rcases hFinds y (List.mem_cons_of_mem _ hy) hWas with hFailed | ⟨a, ha, hEq⟩
          · exact .inl (unapplied_add hFailed)
          · refine .inr ⟨a, List.mem_filter.mpr ⟨ha, ?_⟩, hEq⟩
            have hNe : a.id ≠ x.agreementId := by
              rw [hEq]
              exact fun hSame => hNodup.1 (hSame ▸ List.mem_map_of_mem hy)
            simpa using hNe
        have hLater : ∀ y ∈ snapshots, Shows w3 y := fun y hy =>
          (hShows y (List.mem_cons_of_mem _ hy)).mono hGrows hPage.pinned
        have hNext := ih (seen ++ [x]) hLater hNodup.2 hRest
          (h2.add hx hGrows3 hPage3 hQueued hPrepared) hCovers
        refine hNext.mono fun r w4 _ h4 => ⟨hPage.trans h4.1, h4.2.1, ?_⟩
        rw [List.append_assoc] at h4
        exact h4.2.2

theorem keeps_preparePage (hShows : ∀ x ∈ snapshots, Shows w x)
    (hNodup : (snapshots.map (·.agreementId)).Nodup) (hQueued : ChecksQueued liveChecks w) :
    Keeps config allow .chainListener (fun r w' => PageOk [] r.2 w' ∧
      (r.1 = false → ∀ x ∈ snapshots, Covers w' r.2 x))
      (preparePage snapshots liveChecks) w := by
  refine keeps_call fun w1 hInv1 hGrows1 hQuiet1 => ⟨rfl, ?_⟩
  intro c r w2 hExec _ hGrows2
  have hPinned1 := (hQuiet1 rfl).pinned
  have hQueued2 := hQueued.mono (hGrows1.trans hGrows2)
  cases r with
  | error e =>
    have hPinned2 : w2.pinned = w1.pinned := by
      rcases (exec_effect hExec).changes.pinned with hEq | ⟨since, hEq, -⟩
      · exact hEq
      · cases hEq
    have hShows2 : ∀ x ∈ snapshots, Shows w2 x := fun x hx =>
      (hShows x hx).mono (hGrows1.trans hGrows2) (hPinned2.trans hPinned1)
    refine (keeps_prepareEach [] hShows2 hNodup (fun x hx _ => .inl (List.mem_map_of_mem hx))
      (.init (fun _ h => absurd h List.not_mem_nil) hQueued2)
      (fun _ h => absurd h List.not_mem_nil)).mono fun r w3 _ h3 => h3.2
  | ok rows =>
    obtain ⟨rfl, hComplete⟩ := exec_select_page hExec
    have hShows2 : ∀ x ∈ snapshots, Shows { w1 with pageListed := rows } x := fun x hx =>
      (hShows x hx).mono (hGrows1.trans hGrows2) hPinned1
    have hRead : ∀ a ∈ Registry.agreements rows,
        World.PageRead { w1 with pageListed := rows } a := by
      intro a ha
      obtain ⟨p, hMem, rfl⟩ := List.mem_map.mp ha
      have hRow := (exec_select_row hExec hMem).1
      refine ⟨⟨p.2, rfl, hMem, (hInv1.read hRow).mono hGrows2, (hInv1.rows _ _ hRow).recorded⟩, ?_⟩
      exact fun hSeen statuses _ hStatus => ⟨hSeen, .inr ⟨p.2, hRow, hStatus⟩⟩
    have hFinds : Finds { w1 with pageListed := rows } snapshots (Registry.agreements rows)
        { liveChecks := liveChecks } := by
      intro x hx hWas
      obtain ⟨row, hRow⟩ := hInv1.row_of_accepted
        (((hInv1.pinned x.agreementId).trans (hInv1.indexed x.agreementId)).accepted hWas)
      have hMem := hComplete x.agreementId (List.mem_map_of_mem hx) row hRow
      exact .inr ⟨row.agreement x.agreementId, List.mem_map.mpr ⟨_, hMem, rfl⟩, rfl⟩
    exact (keeps_prepareEach [] hShows2 hNodup hFinds (.init hRead hQueued2)
      (fun _ h => absurd h List.not_mem_nil)).mono fun r w3 _ h3 => h3.2

theorem keeps_applyPage (h : PageOk [] work w) :
    Keeps config allow .chainListener (fun r w' => r.1.liveChecks = work.liveChecks ∧
      ChecksQueued work.liveChecks w' ∧ ∀ x, Covers w work x →
        x.agreementId ∈ r.1.unapplied ∨ w'.Dealt (x.agreementId ∈ w'.acceptsApplied) x)
      (applyPage work) w := by
  unfold applyPage
  dsimp only
  split
  · rename_i hEmpty
    refine listener_ret fun w1 _ hGrows hQuiet => ⟨rfl, h.liveChecks.mono hGrows, fun x hx => ?_⟩
    refine hx.imp_right fun hDealt => hDealt.mono hGrows hQuiet.samePage ?_
    rintro ⟨prep, hMem, -⟩
    have hItem : prep.item ∈ work.prepared.map (·.item) := List.mem_map_of_mem hMem
    rw [List.isEmpty_iff.mp hEmpty] at hItem
    exact absurd hItem List.not_mem_nil
  · refine listener_call rfl fun w1 _ hGrows1 hQuiet => ⟨⟨rfl, ?_, ?_⟩, ?_⟩
    · have hIds : (work.prepared.map (·.item)).map (·.agreementId) =
          work.prepared.map (·.agreement.id) := by
        rw [List.map_map]
        refine List.map_congr_left fun prep hMem => ?_
        obtain ⟨-, x, -, -, hItem⟩ := h.prepared prep hMem
        rw [Function.comp_apply, hItem]
        rfl
      rw [hIds]
      exact h.nodup
    · intro item hMem
      obtain ⟨prep, hPrep, rfl⟩ := List.mem_map.mp hMem
      obtain ⟨hRead, x, hShows, hId, hItem⟩ := (h.mono hGrows1 hQuiet.samePage).prepared prep hPrep
      rw [hItem]
      exact itemOk_of_shows hShows hRead hId
    · intro c r w2 hExec _ hGrows2 hPage2
      have hGrows12 := hGrows1.trans hGrows2
      have hQueued := h.liveChecks.mono hGrows12
      cases r with
      | error e =>
        refine listener_ret fun w3 _ hGrows hQuiet3 => ⟨rfl, hQueued.mono hGrows, fun x hx => ?_⟩
        by_cases hPrepared : ∃ prep ∈ work.prepared, prep.item.agreementId = x.agreementId ∧
            prep.item.applyAccept = true
        · obtain ⟨prep, hMem, hId, -⟩ := hPrepared
          refine .inl (List.mem_append_right _ (List.mem_map.mpr ⟨prep.item, ?_, hId⟩))
          exact List.mem_map_of_mem hMem
        · refine hx.imp (List.mem_append_left _) fun hDealt => ?_
          exact hDealt.mono (hGrows12.trans hGrows) (hPage2.trans hQuiet3.samePage)
            fun h => absurd h hPrepared
      | ok outcomes =>
        refine listener_ret fun w3 _ hGrows hQuiet3 => ⟨rfl, hQueued.mono hGrows, fun x hx => ?_⟩
        refine hx.imp_right fun hDealt => hDealt.mono (hGrows12.trans hGrows)
          (hPage2.trans hQuiet3.samePage) ?_
        rintro ⟨prep, hMem, hId, hApplies⟩
        rw [← hId]
        refine hGrows.applied _ (exec_batch_ok hExec ?_)
        exact List.mem_map.mpr ⟨prep.item, List.mem_filter.mpr ⟨List.mem_map_of_mem hMem, hApplies⟩,
          rfl⟩

end Page

section Replaced

variable {new old : IndexingAgreementId} {olds : List IndexingAgreementId}

/-- The row is out of its request's group, at least until the listener puts it back. -/
def World.Inactive (w : World) (id : IndexingAgreementId) : Prop :=
  ∃ row, w.row id = some row ∧ row.status.active = false

theorem World.Inactive.quiet (h : w.Inactive old) (hGrows : w.Grows w') (hQuiet : w.Quiet w') :
    w'.Inactive old := by
  obtain ⟨row, hRow, hInactive⟩ := h
  obtain ⟨row', hRow', -⟩ := hGrows.rows old row hRow
  exact ⟨row', hRow', hQuiet.inactive old row row' hRow hRow' hInactive⟩

theorem World.Retired.inactive (h : w.Retired old) : w.Inactive old := by
  obtain ⟨row, hRow, hInactive, -⟩ := h
  exact ⟨row, hRow, hInactive⟩

theorem keeps_startReplacedCancel (hRow : (w.row old).isSome = true) :
    Keeps config allow .chainListener (fun r w' => r = .ok true → w'.Inactive old)
      (startReplacedCancel config old) w := by
  have hStarted : ∀ {p : Act (Except RegistryError CancelStarted)} {w1},
      Keeps config allow .chainListener (Started old) p w1 →
      Keeps config allow .chainListener (fun r w' => r = .ok true → w'.Inactive old)
        (p >>= fun r => (pure (Except.ok (noteReplacedCancel r)) :
          Act (Except RegistryError Bool))) w1 := by
    intro p w1 hp
    refine keeps_bind hp fun r w2 _ _ hStart => ?_
    refine listener_ret fun w3 _ hGrows hQuiet hEq => ?_
    exact (hStart (Except.ok.inj hEq)).inactive.quiet hGrows hQuiet
  refine keeps_getIndexingAgreementById (fun e w1 _ _ => keeps_ret fun _ _ _ => nofun) ?_ ?_
  · intro w1 _ _ hNone
    rw [hNone] at hRow
    cases hRow
  · intro row w1 hInv1 _ hRow1
    have hKnows : w1.Knows (row.agreement old) := (hInv1.read hRow1).knows
    dsimp only
    split
    · rename_i hExpired
      have hInactive : w1.Inactive old :=
        ⟨row, hRow1, by rw [show row.status = .expired from hExpired]; rfl⟩
      refine listener_call rfl fun w2 _ hGrows2 hQuiet2 => ⟨trivial, ?_⟩
      intro c r w3 hExec _ hGrows3 _
      obtain rfl : w3 = w2 := exec_effect hExec
      cases r with
      | error e => exact keeps_ret fun _ _ _ => nofun
      | ok read =>
        cases read with
        | live => exact hStarted (keeps_startCancelSeenLive (hKnows.mono hGrows2))
        | notLive | endedByIndexer =>
          exact listener_ret fun w4 _ hGrows hQuiet _ =>
            (hInactive.quiet hGrows2 hQuiet2).quiet hGrows hQuiet
    · exact hStarted (keeps_startCancel hKnows)

theorem keeps_cancelReplaced (hRows : ∀ old ∈ olds, (w.row old).isSome = true) :
    Keeps config allow .chainListener (fun _ _ => True) (cancelReplaced config new olds) w := by
  induction olds generalizing w with
  | nil => exact keeps_done
  | cons old olds ih =>
    have hRest : ∀ {w'}, w.Grows w' → ∀ old ∈ olds, (w'.row old).isSome = true :=
      fun hGrows old hMem => hGrows.isSome (hRows old (List.mem_cons_of_mem _ hMem))
    refine keeps_bind (keeps_startReplacedCancel (hRows old (List.mem_cons_self ..)))
      fun r w1 _ hGrows1 hInactive => ?_
    cases r with
    | error e => exact keeps_done
    | ok done =>
      cases done with
      | true =>
        refine listener_call rfl fun w2 _ hGrows2 hQuiet2 => ⟨⟨rfl, ?_⟩, ?_⟩
        · intro row hRow
          obtain ⟨row', hRow', hStatus⟩ := (hInactive rfl).quiet hGrows2 hQuiet2
          obtain rfl := Option.some.inj (hRow.symm.trans hRow')
          exact hStatus
        · intro c r w3 _ _ hGrows3 _
          cases r with
          | error e => exact keeps_done
          | ok _ => exact ih (hRest ((hGrows1.trans hGrows2).trans hGrows3))
      | false =>
        refine keeps_bind (ih (hRest hGrows1)) fun r w2 _ _ _ => ?_
        cases r <;> exact keeps_done

theorem keeps_executePendingCancellations :
    Keeps config allow .chainListener (fun _ _ => True)
      (executePendingCancellations config new) w := by
  refine keeps_call fun w1 hInv1 _ _ => ⟨trivial, fun c r w2 hExec _ hGrows2 => ?_⟩
  cases r with
  | error e => exact keeps_done
  | ok olds =>
    obtain ⟨rfl, rfl⟩ := registryRead_ok hExec
    refine keeps_bind (keeps_cancelReplaced fun old hMem => ?_) fun r w3 _ _ _ => ?_
    · obtain ⟨p, hp, rfl⟩ := List.mem_map.mp hMem
      exact (hInv1.replaced p (hInv1.pending p (List.mem_of_mem_filter hp))).2
    · split <;> exact keeps_done

theorem keeps_finalizeEach {outcomes : Outcomes} {prepared : List PreparedReconciliation} :
    Keeps config allow .chainListener (fun _ _ => True)
      (finalizeEach config outcomes prepared) w := by
  induction prepared generalizing w with
  | nil => exact keeps_done
  | cons prep prepared ih =>
    unfold finalizeEach
    split
    · exact ih
    · rename_i outcome _
      have hFinalize : Keeps config allow .chainListener (fun _ _ => True)
          (finalizeReconciliation config prep outcome) w := by
        unfold finalizeReconciliation
        split
        · exact keeps_executePendingCancellations
        · exact keeps_done
      refine keeps_bind hFinalize fun r w1 _ _ _ => ?_
      cases r <;> exact keeps_bind ih fun _ _ _ _ _ => keeps_done

end Replaced

section Drain

variable {snapshots : List AgreementStateSnapshot} {liveChecks : List (IndexingAgreementId × Nat)}
  {memory : ListenerMemory} {since : Cursor} {pinned : Option Nat}

/-- What the listener remembers is true of the world: the checks were queued and the timestamp was
persisted. -/
structure MemoryOk (memory : ListenerMemory) (w : World) : Prop where
  checks : ChecksQueued memory.liveChecks w
  clock : ∀ ts ∈ memory.lastPersistedTimestamp, ts ∈ w.clocks

theorem MemoryOk.mono (h : MemoryOk memory w) (hGrows : w.Grows w') : MemoryOk memory w' :=
  ⟨h.checks.mono hGrows, fun ts hTs => hGrows.clocks ts (h.clock ts hTs)⟩

theorem keeps_reconcilePage (hShows : ∀ x ∈ snapshots, Shows w x)
    (hNodup : (snapshots.map (·.agreementId)).Nodup) (hQueued : ChecksQueued liveChecks w) :
    Keeps config allow .chainListener (fun report w' => ChecksQueued report.liveChecks w')
      (reconcilePage config since snapshots liveChecks) w := by
  refine keeps_bind (keeps_preparePage hShows hNodup hQueued) fun r w1 _ _ hPage => ?_
  obtain ⟨stopped, work⟩ := r
  obtain ⟨hPage, hCovers⟩ := hPage
  dsimp only at hPage hCovers ⊢
  split
  · exact keeps_ret fun w2 _ hGrows => hPage.liveChecks.mono hGrows
  · rename_i hGoes
    refine keeps_bind (keeps_applyPage hPage) fun r w2 _ _ hApplied => ?_
    obtain ⟨work', outcomes⟩ := r
    obtain ⟨hSame, hQueued2, hDealt⟩ := hApplied
    refine listener_call rfl fun w3 _ hGrows3 hQuiet3 => ⟨⟨rfl, fun x hx hOut => ?_⟩, ?_⟩
    · have hCovered := hCovers (Bool.eq_false_of_not_eq_true hGoes) x hx
      exact ((hDealt x hCovered).resolve_left hOut).mono hGrows3 hQuiet3.samePage
        (hGrows3.applied x.agreementId)
    · intro c r w4 _ _ hGrows4 _
      refine keeps_bind keeps_finalizeEach fun r w5 _ hGrows5 _ => ?_
      obtain ⟨processed, errors⟩ := r
      refine keeps_ret fun w6 _ hGrows6 => ?_
      rw [show work'.liveChecks = work.liveChecks from hSame]
      exact hQueued2.mono (((hGrows3.trans hGrows4).trans hGrows5).trans hGrows6)

theorem keeps_ratchetTimestamp {newTs cachedTs : Option Nat} :
    Keeps config allow .chainListener
      (fun r _ => ∀ ts ∈ r, ts ∈ cachedTs ∨ ∃ new ∈ newTs, ts ≤ new)
      (ratchetTimestamp config newTs cachedTs) w := by
  unfold ratchetTimestamp
  split
  · exact keeps_ret fun _ _ _ ts hTs => .inl hTs
  · rename_i new
    split
    · exact keeps_ret fun _ _ _ ts hTs => .inl hTs
    · refine keeps_free (fun _ => trivial) fun now w1 _ _ => keeps_ret fun _ _ _ ts hTs => ?_
      obtain rfl := Option.some.inj hTs
      unfold applyChainTsDriftCap
      dsimp only
      split
      · exact .inr ⟨new, rfl, Nat.le_refl _⟩
      · split
        · rename_i hCached _ hFar
          refine (Nat.le_total (saturatingAdd now config.chainTsDriftToleranceSecs)
            (cachedTs.getD 0)).elim (fun hLe => ?_) fun hLe => ?_
          · rw [Nat.max_eq_right hLe]
            cases cachedTs with
            | none => exact .inr ⟨new, rfl, Nat.zero_le _⟩
            | some ts => exact .inl rfl
          · rw [Nat.max_eq_left hLe]
            exact .inr ⟨new, rfl, Nat.le_of_lt hFar⟩
        · exact .inr ⟨new, rfl, Nat.le_refl _⟩

theorem keeps_raiseHoldAlert {cursor : Cursor} {unapplied : List IndexingAgreementId}
    {skip alreadyHeld : Bool} :
    Keeps config allow .chainListener (fun _ _ => True)
      (raiseHoldAlert cursor unapplied skip alreadyHeld) w := by
  unfold raiseHoldAlert
  split
  · exact keeps_free (k := pure) (fun _ => rfl) fun _ _ _ _ => keeps_done
  · split
    · exact keeps_free (k := pure) (fun _ => rfl) fun _ _ _ _ => keeps_done
    · exact keeps_done

theorem keeps_persistState {changed : Bool} {cursor : Cursor} {ratchet persisted : Option Nat}
    (hRatchet : ∀ ts ∈ ratchet, ts ∈ w.clocks ∨ ∃ head ∈ w.heads, ts ≤ head)
    (hPersisted : ∀ ts ∈ persisted, ts ∈ w.clocks) :
    Keeps config allow .chainListener (fun r w' => ∀ ts ∈ r, ts ∈ w'.clocks)
      (persistState changed cursor ratchet persisted) w := by
  unfold persistState
  split
  · refine keeps_call fun w1 _ hGrows1 _ => ⟨⟨rfl, fun ts hTs => ?_⟩, ?_⟩
    · exact (hRatchet ts hTs).imp (hGrows1.clocks ts)
        fun ⟨head, hMem, hLe⟩ => ⟨head, hGrows1.heads head hMem, hLe⟩
    · intro c r w2 hExec _ hGrows2
      cases r with
      | error e =>
        exact keeps_ret fun w3 _ hGrows3 ts hTs =>
          ((hGrows1.trans hGrows2).trans hGrows3).clocks ts (hPersisted ts hTs)
      | ok _ =>
        refine keeps_ret fun w3 _ hGrows3 ts hTs => hGrows3.clocks ts ?_
        rw [← (Prod.mk.inj (statement_ok hExec)).1]
        exact List.mem_append_right _ (Option.mem_toList.mpr hTs)
  · exact keeps_ret fun w1 _ hGrows ts hTs => hGrows.clocks ts (hPersisted ts hTs)

theorem keeps_commitPage {unapplied : List IndexingAgreementId} {newCursor : Cursor}
    {newTs : Option Nat} (hMemory : MemoryOk memory w)
    (hNew : ∀ ts ∈ newTs, ts ∈ w.heads) :
    Keeps config allow .chainListener (fun r w' => MemoryOk r.1 w')
      (commitPage config memory unapplied newCursor newTs) w := by
  refine keeps_free (fun _ => trivial) fun now w1 _ hGrows1 => ?_
  refine keeps_bind keeps_ratchetTimestamp fun ratchet w2 _ hGrows2 hRatchet => ?_
  refine keeps_bind keeps_raiseHoldAlert fun _ w3 _ hGrows3 _ => ?_
  have hGrows := (hGrows1.trans hGrows2).trans hGrows3
  refine keeps_bind (keeps_persistState (fun ts hTs => ?_) (hMemory.mono hGrows).clock)
    fun persisted w4 _ hGrows4 hPersisted => ?_
  · rcases hRatchet ts hTs with hCached | ⟨new, hMem, hLe⟩
    · exact .inl ((hMemory.mono hGrows).clock ts hCached)
    · exact .inr ⟨new, hGrows.heads new (hNew new hMem), hLe⟩
  · exact keeps_ret fun w5 _ hGrows5 =>
      ⟨hMemory.checks.mono ((hGrows.trans hGrows4).trans hGrows5),
        fun ts hTs => hGrows5.clocks ts (hPersisted ts hTs)⟩

/-- The snapshots of a page show the chain as of the block the query was answered at, and its
timestamp is that block's. -/
structure PageShows (result : ChangedAgreementsResult) (w : World) : Prop where
  shows : ∀ x ∈ result.snapshots, Shows w x
  nodup : (result.snapshots.map (·.agreementId)).Nodup
  head : ∀ ts ∈ result.latestBlockTimestamp, ts ∈ w.heads

theorem PageShows.mono {result : ChangedAgreementsResult} (h : PageShows result w)
    (hGrows : w.Grows w') (hPinned : w'.pinned = w.pinned) : PageShows result w' :=
  ⟨fun x hx => (h.shows x hx).mono hGrows hPinned, h.nodup,
    fun ts hTs => hGrows.heads ts (h.head ts hTs)⟩

theorem keeps_checkSkew {timestamp : Option Nat} :
    Keeps config allow .chainListener (fun _ w' => w'.pinned = w.pinned)
      (checkSkew config timestamp) w := by
  unfold checkSkew
  split
  · refine listener_call rfl fun w1 _ _ _ => ⟨trivial, fun c now w2 _ _ _ hPage => ?_⟩
    exact listener_ret fun w3 _ _ hQuiet => hQuiet.pinned.trans hPage.pinned
  · exact listener_ret fun w1 _ _ hQuiet => hQuiet.pinned

theorem keeps_getChangedAgreements :
    Keeps config allow .chainListener (fun r w' => ∀ result, r = .ok result → PageShows result w')
      (getChangedAgreements config since pinned) w := by
  refine keeps_call fun w1 _ _ _ => ⟨rfl, fun c r w2 hExec hInv2 _ => ?_⟩
  cases r with
  | error e => exact keeps_ret fun _ _ _ _ h => by cases h
  | ok response =>
    obtain ⟨hWorld, hAnswers⟩ := exec_getChanged_ok hExec
    have hShows : ∀ result, readPage since response = .ok result → PageShows result w2 := by
      intro result hRead
      refine ⟨fun x hx => ?_, hAnswers.nodup hRead, fun ts hTs => ?_⟩
      · obtain ⟨s, hs, hReads⟩ := hAnswers.row hRead hx
        have hMem := (Subgraph.mem_of_mem_page hs).1
        refine .of_reflects (hInv2.pinnedGraph s hMem) hReads fun hAt => ?_
        have hId : s.agreementId = x.agreementId := by rw [hReads.1]
        have hParsed := (sublist_of_readPage hRead).mem hx
        rw [hWorld] at hMem ⊢
        exact List.mem_append_right _ (Subgraph.mem_misread hMem hId hParsed hAt)
      · obtain ⟨-, -, -, -, hHead, -⟩ := readPage_cases hRead
        rw [hHead] at hTs
        rw [hWorld]
        exact List.mem_append_right _ (Option.mem_toList.mpr hTs)
    dsimp only
    split
    · exact keeps_ret fun _ _ _ _ h => by cases h
    · refine keeps_bind keeps_checkSkew fun skew w3 _ hGrows3 hPinned3 => ?_
      cases skew with
      | error e => exact keeps_ret fun _ _ _ _ h => by cases h
      | ok _ =>
        exact listener_ret fun w4 _ hGrows4 hQuiet result hRead =>
          (hShows result hRead).mono (hGrows3.trans hGrows4) (hQuiet.pinned.trans hPinned3)

theorem keeps_drainPages {remaining : Nat} {outcome : DrainOutcome} (h : MemoryOk memory w) :
    Keeps config allow .chainListener (fun r w' => MemoryOk r.1 w')
      (drainPages config remaining since pinned memory outcome) w := by
  induction remaining generalizing w since pinned memory outcome with
  | zero => exact keeps_ret fun w1 _ hGrows => h.mono hGrows
  | succ remaining ih =>
    refine keeps_bind keeps_getChangedAgreements fun r w1 _ hGrows1 hRead => ?_
    cases r with
    | error e =>
      exact keeps_ret fun w2 _ hGrows =>
        ⟨h.checks.mono (hGrows1.trans hGrows), (h.mono (hGrows1.trans hGrows)).clock⟩
    | ok result =>
      obtain ⟨hShows, hNodup, hHead⟩ := hRead result rfl
      dsimp only
      have hMemory : MemoryOk (if pinned.isNone then
          noteHead { memory with consecutiveFailures := 0 } result.latestBlock
          else { memory with consecutiveFailures := 0 }) w1 := by
        split <;> exact ⟨h.checks.mono hGrows1, (h.mono hGrows1).clock⟩
      refine keeps_bind (keeps_reconcilePage hShows hNodup hMemory.checks)
        fun report w2 _ hGrows2 hReport => ?_
      have hMemory2 : MemoryOk { (if pinned.isNone then
          noteHead { memory with consecutiveFailures := 0 } result.latestBlock
          else { memory with consecutiveFailures := 0 }) with liveChecks := report.liveChecks } w2 :=
        ⟨hReport, (hMemory.mono hGrows2).clock⟩
      split
      · exact keeps_ret fun w3 _ hGrows => hMemory2.mono hGrows
      · refine keeps_bind (keeps_commitPage hMemory2 fun ts hTs => hGrows2.heads ts (hHead ts hTs))
          fun r w3 _ _ hMemory3 => ?_
        obtain ⟨memory', advanced⟩ := r
        split
        · exact keeps_ret fun w4 _ hGrows => hMemory3.mono hGrows
        · exact ih hMemory3

theorem keeps_drainOnce (h : MemoryOk memory w) :
    Keeps config allow .chainListener (fun r w' => MemoryOk r.1 w') (drainOnce config memory) w :=
  keeps_drainPages ⟨fun change hMem => h.checks change (List.mem_of_mem_filter hMem), h.clock⟩

end Drain

end Dipper
