import Dipper.Subgraph
import Mathlib.Data.List.Nodup
import Mathlib.Data.List.Perm.Subperm

/-! What a page read from the subgraph says: its snapshots are rows of the subgraph, and the cursor
it moves to leaves no row behind that it did not give. -/

namespace Dipper

variable {since : Cursor} {r : ChangedAgreementsResponse} {result : ChangedAgreementsResult}
  {g : Subgraph} {x s : AgreementStateSnapshot} {e : IndexingAgreementEntity}
  {entities : List IndexingAgreementEntity}

theorem ParsedPage.snapshots_foldl (p : ParsedPage) :
    (entities.foldl ParsedPage.add p).snapshots =
      p.snapshots ++ entities.filterMap parseSnapshot := by
  induction entities generalizing p with
  | nil => simp
  | cons e entities ih =>
    rw [List.foldl_cons, ih]
    unfold ParsedPage.add
    cases hParse : parseSnapshot e with
    | some x => simp [hParse]
    | none =>
      cases parseFailureCursor e <;> simp [hParse]

theorem snapshots_parsePage : (parsePage entities).snapshots = entities.filterMap parseSnapshot :=
  (ParsedPage.snapshots_foldl {}).trans (List.nil_append _)

/-- The ways a page is read: nothing is left behind an entity that cannot be located, the cursor
stays before the first malformed one, a full page is passed to its last row, and the last page is
passed to the head. -/
theorem readPage_cases (h : readPage since r = .ok result) :
    ∃ page, page = parsePage r.indexingAgreements ∧ validateSortedKeyset page.snapshots = .ok () ∧
      result.latestBlock = r.blockNumber ∧ result.latestBlockTimestamp = r.blockTimestamp ∧
      ((0 < page.unlocatableFailures ∧ result.snapshots = page.snapshots ∧
          result.cursor = since) ∨
        (page.unlocatableFailures = 0 ∧ ∃ failed, page.earliestFailure = some failed ∧
          result.snapshots = page.snapshots.filter (fun s => s.cursor < failed) ∧
          result.cursor = lastCursorOr result.snapshots since) ∨
        (page.unlocatableFailures = 0 ∧ page.earliestFailure = none ∧
          result.snapshots = page.snapshots ∧
          result.cursor = if r.indexingAgreements.length ≥ subgraphPageSize then
              lastCursorOr page.snapshots since
            else Cursor.atBlock (saturatingAdd r.blockNumber 1))) := by
  refine ⟨parsePage r.indexingAgreements, rfl, ?_⟩
  unfold readPage at h
  dsimp only at h
  cases hSorted : validateSortedKeyset (parsePage r.indexingAgreements).snapshots with
  | error err =>
    rw [hSorted] at h
    cases h
  | ok _ =>
    refine ⟨rfl, ?_⟩
    rw [hSorted] at h
    change (if _ then _ else _) = _ at h
    split at h
    · rename_i hUnlocatable
      cases h
      exact ⟨rfl, rfl, .inl ⟨hUnlocatable, rfl, rfl⟩⟩
    · rename_i hLocated
      have hZero : (parsePage r.indexingAgreements).unlocatableFailures = 0 := by omega
      split at h
      · rename_i failed hFailed
        cases h
        exact ⟨rfl, rfl, .inr (.inl ⟨hZero, failed, hFailed, rfl, rfl⟩)⟩
      · rename_i hNone
        split at h <;> rename_i hFull <;> cases h
        · exact ⟨rfl, rfl, .inr (.inr ⟨hZero, hNone, rfl, (if_pos hFull).symm⟩)⟩
        · exact ⟨rfl, rfl, .inr (.inr ⟨hZero, hNone, rfl, (if_neg hFull).symm⟩)⟩

theorem sublist_of_readPage (h : readPage since r = .ok result) :
    result.snapshots.Sublist (r.indexingAgreements.filterMap parseSnapshot) := by
  obtain ⟨page, rfl, -, -, -, hCases⟩ := readPage_cases h
  rw [← snapshots_parsePage]
  rcases hCases with ⟨-, hEq, -⟩ | ⟨-, failed, -, hEq, -⟩ | ⟨-, -, hEq, -⟩
  · rw [hEq]
  · rw [hEq]
    exact List.filter_sublist
  · rw [hEq]

theorem exists_row_of_mem {rows : List AgreementStateSnapshot}
    (hRenders : List.Forall₂ Renders rows entities)
    (hx : x ∈ entities.filterMap parseSnapshot) : ∃ s ∈ rows, s.ReadsAs x := by
  induction hRenders with
  | nil => cases hx
  | @cons s e rows entities hRender _ ih =>
    obtain ⟨e', he, hParse⟩ := List.mem_filterMap.mp hx
    rcases List.mem_cons.mp he with rfl | he
    · exact ⟨s, List.mem_cons_self .., hRender.1 x hParse⟩
    · obtain ⟨s', hs', hReads⟩ := ih (List.mem_filterMap.mpr ⟨e', he, hParse⟩)
      exact ⟨s', List.mem_cons_of_mem _ hs', hReads⟩

theorem ids_sublist {rows : List AgreementStateSnapshot}
    (hRenders : List.Forall₂ Renders rows entities) :
    ((entities.filterMap parseSnapshot).map (·.agreementId)).Sublist
      (rows.map (·.agreementId)) := by
  induction hRenders with
  | nil => exact .slnil
  | @cons s e rows entities hRender _ ih =>
    cases hParse : parseSnapshot e with
    | none =>
      rw [List.filterMap_cons_none hParse]
      exact .cons _ ih
    | some x =>
      have hId : x.agreementId = s.agreementId := by rw [(hRender.1 x hParse).1]
      rw [List.filterMap_cons_some hParse, List.map_cons, List.map_cons, hId]
      exact .cons_cons _ ih

theorem Subgraph.Answers.row (hAnswers : g.Answers since r) (h : readPage since r = .ok result)
    (hx : x ∈ result.snapshots) : ∃ s ∈ g.page since, s.ReadsAs x :=
  exists_row_of_mem hAnswers.2.1 ((sublist_of_readPage h).mem hx)

theorem Subgraph.mem_of_mem_page (h : s ∈ g.page since) : s ∈ g.rows ∧ since < s.cursor := by
  have hFilter := List.mem_filter.mp (List.mem_of_mem_take h)
  exact ⟨hFilter.1, of_decide_eq_true hFilter.2⟩

theorem Subgraph.Answers.nodup (hAnswers : g.Answers since r) (h : readPage since r = .ok result) :
    (result.snapshots.map (·.agreementId)).Nodup := by
  have hPage : ((g.page since).map (·.agreementId)).Nodup :=
    g.unique.sublist (((List.take_sublist _ _).trans List.filter_sublist).map _)
  exact hPage.sublist (((sublist_of_readPage h).map _).trans (ids_sublist hAnswers.2.1))

/-- What parses of the response is a row of the subgraph, its timestamps included. -/
def Subgraph.Exact (g : Subgraph) (r : ChangedAgreementsResponse) : Prop :=
  ∀ x ∈ r.indexingAgreements.filterMap parseSnapshot, x ∈ g.rows

theorem Subgraph.Exact.eq (h : g.Exact r) (hs : s ∈ g.rows)
    (hx : x ∈ r.indexingAgreements.filterMap parseSnapshot) (hReads : s.ReadsAs x) : x = s := by
  refine List.inj_on_of_nodup_map g.unique (h x hx) hs ?_
  rw [hReads.1]

theorem Subgraph.mem_misread (hs : s ∈ g.rows) (hId : s.agreementId = x.agreementId)
    (hx : x ∈ r.indexingAgreements.filterMap parseSnapshot) (hAt : s.acceptedAt ≠ x.acceptedAt) :
    x.agreementId ∈ g.misread r := by
  refine List.mem_map.mpr ⟨x, List.mem_filter.mpr ⟨hx, ?_⟩, rfl⟩
  exact List.any_eq_true.mpr ⟨s, hs, by simp [hId, hAt]⟩

section Coverage

/-- What of a page does not parse can be located, and is not before the earliest failure, unless
something could not be located. -/
theorem ParsedPage.failures_foldl (p : ParsedPage)
    (h : (entities.foldl ParsedPage.add p).unlocatableFailures = 0) :
    p.unlocatableFailures = 0 ∧
      (∀ f ∈ p.earliestFailure,
        ∃ f' ∈ (entities.foldl ParsedPage.add p).earliestFailure, f' ≤ f) ∧
      ∀ e ∈ entities, parseSnapshot e = none → ∃ c ∈ parseFailureCursor e,
        ∃ f ∈ (entities.foldl ParsedPage.add p).earliestFailure, f ≤ c := by
  induction entities generalizing p with
  | nil => exact ⟨h, fun f hf => ⟨f, hf, le_refl f⟩, nofun⟩
  | cons e entities ih =>
    obtain ⟨hZero, hKept, hRest⟩ := ih (p.add e) h
    rw [List.foldl_cons]
    cases hParse : parseSnapshot e with
    | some x =>
      have hAdd : p.add e = { p with snapshots := p.snapshots ++ [x] } := by
        simp only [ParsedPage.add, hParse]
      rw [hAdd] at hZero hKept
      refine ⟨hZero, by rw [hAdd]; exact hKept, fun e' he' hNone => ?_⟩
      rcases List.mem_cons.mp he' with rfl | he'
      · cases hParse.symm.trans hNone
      · exact hRest e' he' hNone
    | none =>
      cases hCursor : parseFailureCursor e with
      | none =>
        simp only [ParsedPage.add, hParse, hCursor] at hZero
        omega
      | some c =>
        obtain ⟨first, hFirst, hLe, hOld⟩ : ∃ first, (p.add e).earliestFailure = some first ∧
            first ≤ c ∧ ∀ f ∈ p.earliestFailure, first ≤ f := by
          simp only [ParsedPage.add, hParse, hCursor]
          cases p.earliestFailure with
          | none => exact ⟨c, rfl, le_refl c, nofun⟩
          | some f =>
            refine ⟨min f c, rfl, min_le_right f c, fun f' hf' => ?_⟩
            obtain rfl := Option.some.inj hf'
            exact min_le_left f c
        obtain ⟨f', hf', hf'Le⟩ := hKept first hFirst
        have hCount : p.unlocatableFailures = 0 := by
          simpa only [ParsedPage.add, hParse, hCursor] using hZero
        refine ⟨hCount, fun f hf => ⟨f', hf', hf'Le.trans (hOld f hf)⟩, fun e' he' hNone => ?_⟩
        rcases List.mem_cons.mp he' with rfl | he'
        · exact ⟨c, hCursor, f', hf', hf'Le.trans hLe⟩
        · exact hRest e' he' hNone

theorem ParsedPage.foldl_of_parse (p : ParsedPage)
    (hParse : ∀ e ∈ entities, (parseSnapshot e).isSome = true) :
    entities.foldl ParsedPage.add p =
      { p with snapshots := p.snapshots ++ entities.filterMap parseSnapshot } := by
  induction entities generalizing p with
  | nil => simp
  | cons e entities ih =>
    obtain ⟨x, hx⟩ := Option.isSome_iff_exists.mp (hParse e (by simp))
    rw [List.foldl_cons, ih _ fun e' he' => hParse e' (by simp [he'])]
    simp [ParsedPage.add, hx]

theorem readPage_of_parse (hParse : ∀ e ∈ r.indexingAgreements, (parseSnapshot e).isSome = true) :
    readPage since r =
      (validateSortedKeyset (r.indexingAgreements.filterMap parseSnapshot)).map fun _ =>
        ⟨r.indexingAgreements.filterMap parseSnapshot, r.blockNumber, r.blockTimestamp,
          if r.indexingAgreements.length ≥ subgraphPageSize then
            lastCursorOr (r.indexingAgreements.filterMap parseSnapshot) since
          else Cursor.atBlock (saturatingAdd r.blockNumber 1)⟩ := by
  have hPage : parsePage r.indexingAgreements =
      { snapshots := r.indexingAgreements.filterMap parseSnapshot } :=
    ParsedPage.foldl_of_parse {} hParse
  unfold readPage
  rw [hPage]
  dsimp only
  cases validateSortedKeyset (r.indexingAgreements.filterMap parseSnapshot) with
  | error err => rfl
  | ok _ =>
    change (if _ then _ else _) = Except.ok _
    by_cases hFull : r.indexingAgreements.length ≥ subgraphPageSize
    · rw [if_pos hFull, if_pos hFull]
      rfl
    · rw [if_neg hFull, if_neg hFull]
      rfl

theorem parsed_of_readPage
    (hParse : ∀ e ∈ r.indexingAgreements, (parseSnapshot e).isSome = true)
    (h : readPage since r = .ok result) :
    result.snapshots = r.indexingAgreements.filterMap parseSnapshot ∧
      result.cursor = if r.indexingAgreements.length ≥ subgraphPageSize then
          lastCursorOr (r.indexingAgreements.filterMap parseSnapshot) since
        else Cursor.atBlock (saturatingAdd r.blockNumber 1) := by
  rw [readPage_of_parse hParse] at h
  cases hSorted : validateSortedKeyset (r.indexingAgreements.filterMap parseSnapshot) with
  | error err =>
    rw [hSorted] at h
    cases h
  | ok _ =>
    rw [hSorted] at h
    obtain rfl := Except.ok.inj h
    exact ⟨rfl, rfl⟩

theorem validateSortedKeyset_of_sorted {snapshots : List AgreementStateSnapshot}
    (h : snapshots.Pairwise fun a b => a.cursor < b.cursor) :
    validateSortedKeyset snapshots = .ok () := by
  induction snapshots with
  | nil => rfl
  | cons a rest ih =>
    obtain ⟨hFirst, hRest⟩ := List.pairwise_cons.mp h
    cases rest with
    | nil => rfl
    | cons b rest =>
      have hLt : ¬ b.cursor ≤ a.cursor := not_le.mpr (hFirst b (by simp))
      rw [validateSortedKeyset, if_neg hLt]
      exact ih hRest

theorem AgreementStateSnapshot.ReadsAs.cursor (h : s.ReadsAs x) : x.cursor = s.cursor := by
  rw [h.1]
  rfl

theorem exists_entity {rows : List AgreementStateSnapshot}
    (hRenders : List.Forall₂ Renders rows entities) (hs : s ∈ rows) :
    ∃ e ∈ entities, Renders s e := by
  induction hRenders with
  | nil => cases hs
  | @cons s' e rows entities hRender _ ih =>
    rcases List.mem_cons.mp hs with rfl | hs
    · exact ⟨e, by simp, hRender⟩
    · obtain ⟨e', he', hRender'⟩ := ih hs
      exact ⟨e', by simp [he'], hRender'⟩

theorem Renders.failure_le (h : Renders s e) {c : Cursor} (hc : c ∈ parseFailureCursor e) :
    c ≤ s.cursor := by
  obtain ⟨hBlock, hId⟩ := h.2 c hc
  obtain ⟨block, id⟩ := c
  obtain rfl : block = s.lastStateChangeBlock := hBlock
  rcases hId with rfl | rfl
  · exact le_of_lt (Cursor.atBlock_lt (le_refl _) _)
  · exact le_refl _

namespace Subgraph

theorem mem_page_of_le {t : AgreementStateSnapshot} (hs : s ∈ g.rows) (hSince : since < s.cursor)
    (ht : t ∈ g.page since) (hLe : s.cursor ≤ t.cursor) : s ∈ g.page since := by
  have hMem : s ∈ g.rows.filter fun s => since < s.cursor :=
    List.mem_filter.mpr ⟨hs, decide_eq_true hSince⟩
  have hSorted := g.sorted.sublist (List.filter_sublist (p := fun s => since < s.cursor))
  rw [← List.take_append_drop subgraphPageSize (g.rows.filter fun s => since < s.cursor)]
    at hMem hSorted
  rcases List.mem_append.mp hMem with hTake | hDrop
  · exact hTake
  · exact absurd ((List.pairwise_append.mp hSorted).2.2 t ht s hDrop) (not_lt.mpr hLe)

theorem mem_page_of_short (hs : s ∈ g.rows) (hSince : since < s.cursor)
    (hShort : (g.page since).length < subgraphPageSize) : s ∈ g.page since := by
  have hMem : s ∈ g.rows.filter fun s => since < s.cursor :=
    List.mem_filter.mpr ⟨hs, decide_eq_true hSince⟩
  have hLength : (g.rows.filter fun s => since < s.cursor).length ≤ subgraphPageSize := by
    simp only [page, List.length_take] at hShort
    omega
  rw [page, List.take_of_length_le hLength]
  exact hMem

theorem mem_page_of_later {since' : Cursor} (hs : s ∈ g.page since) (hLe : since ≤ since')
    (hSince : since' < s.cursor) : s ∈ g.page since' := by
  have hSplit : g.rows.filter (fun s => since' < s.cursor) =
      (g.page since).filter (fun s => since' < s.cursor) ++
        ((g.rows.filter fun s => since < s.cursor).drop subgraphPageSize).filter
          fun s => since' < s.cursor := by
    rw [page, ← List.filter_append, List.take_append_drop, List.filter_filter]
    refine List.filter_congr fun t _ => ?_
    by_cases hLt : since' < t.cursor
    · simp [hLt, lt_of_le_of_lt hLe hLt]
    · simp [hLt]
  have hLength : ((g.page since).filter fun s => since' < s.cursor).length ≤ subgraphPageSize :=
    (List.length_filter_le _ _).trans (List.length_take_le _ _)
  rw [page, hSplit, List.take_append, List.take_of_length_le hLength]
  exact List.mem_append_left _ (List.mem_filter.mpr ⟨hs, decide_eq_true hSince⟩)

variable (hAnswers : g.Answers since r) (h : readPage since r = .ok result)

include hAnswers in
theorem Answers.length : (g.page since).length = r.indexingAgreements.length :=
  hAnswers.2.1.length_eq

include hAnswers h in
theorem Answers.mem_page (hs : s ∈ g.rows) (hSince : since < s.cursor)
    (hLe : s.cursor ≤ lastCursorOr result.snapshots since) :
    s ∈ g.page since ∧ ∃ x ∈ result.snapshots, s.cursor ≤ x.cursor := by
  unfold lastCursorOr at hLe
  cases hLast : result.snapshots.getLast? with
  | none =>
    rw [hLast] at hLe
    exact absurd hSince (not_lt.mpr hLe)
  | some x =>
    rw [hLast] at hLe
    have hx := List.mem_of_getLast? hLast
    obtain ⟨t, ht, hReads⟩ := hAnswers.row h hx
    exact ⟨mem_page_of_le hs hSince ht (hReads.cursor ▸ hLe), x, hx, hLe⟩

include hAnswers h in
/-- The cursor a page moves to leaves no row behind that the page did not give. -/
theorem Answers.covers (hs : s ∈ g.rows) (hSince : since < s.cursor)
    (hTo : s.cursor ≤ result.cursor) : ∃ x ∈ result.snapshots, s.ReadsAs x := by
  have hCases := readPage_cases h
  obtain ⟨page, rfl, -, -, -, hCases⟩ := hCases
  have hEntity : ∀ hPage : s ∈ g.page since, ∃ e ∈ r.indexingAgreements, Renders s e :=
    fun hPage => exists_entity hAnswers.2.1 hPage
  rcases hCases with ⟨-, -, hCursor⟩ | ⟨hLocated, failed, hFailed, hKept, hCursor⟩ |
    ⟨hLocated, hNone, hAll, hCursor⟩
  · rw [hCursor] at hTo
    exact absurd hSince (not_lt.mpr hTo)
  · rw [hCursor] at hTo
    obtain ⟨hPage, last, hLast, hLe⟩ := hAnswers.mem_page h hs hSince hTo
    rw [hKept] at hLast
    have hBefore : s.cursor < failed :=
      lt_of_le_of_lt hLe (of_decide_eq_true (List.mem_filter.mp hLast).2)
    obtain ⟨e, he, hRender⟩ := hEntity hPage
    cases hParse : parseSnapshot e with
    | none =>
      obtain ⟨c, hc, f, hf, hfLe⟩ := (ParsedPage.failures_foldl {} hLocated).2.2 e he hParse
      obtain rfl := Option.some.inj (hFailed.symm.trans hf)
      exact absurd hBefore (not_lt.mpr (hfLe.trans (hRender.failure_le hc)))
    | some x =>
      have hReads := hRender.1 x hParse
      refine ⟨x, ?_, hReads⟩
      rw [hKept, snapshots_parsePage]
      refine List.mem_filter.mpr ⟨List.mem_filterMap.mpr ⟨e, he, hParse⟩, decide_eq_true ?_⟩
      rw [hReads.cursor]
      exact hBefore
  · have hPage : s ∈ g.page since := by
      rw [hCursor] at hTo
      split at hTo
      · rw [← hAll] at hTo
        exact (hAnswers.mem_page h hs hSince hTo).1
      · rename_i hShort
        refine mem_page_of_short hs hSince ?_
        rw [hAnswers.length]
        exact not_le.mp hShort
    obtain ⟨e, he, hRender⟩ := hEntity hPage
    cases hParse : parseSnapshot e with
    | none =>
      obtain ⟨c, hc, f, hf, -⟩ := (ParsedPage.failures_foldl {} hLocated).2.2 e he hParse
      cases hNone.symm.trans hf
    | some x =>
      refine ⟨x, ?_, hRender.1 x hParse⟩
      rw [hAll, snapshots_parsePage]
      exact List.mem_filterMap.mpr ⟨e, he, hParse⟩

include hAnswers h in
theorem Answers.gives (hParse : ∀ e ∈ r.indexingAgreements, (parseSnapshot e).isSome = true)
    (hs : s ∈ g.page since) : ∃ x ∈ result.snapshots, s.ReadsAs x := by
  obtain ⟨hAll, -⟩ := parsed_of_readPage hParse h
  obtain ⟨e, he, hRender⟩ := exists_entity hAnswers.2.1 hs
  obtain ⟨x, hx⟩ := Option.isSome_iff_exists.mp (hParse e he)
  refine ⟨x, ?_, hRender.1 x hx⟩
  rw [hAll]
  exact List.mem_filterMap.mpr ⟨e, he, hx⟩

include hAnswers h in
/-- The rows of such a page come one for one, so that its last snapshot is at its last row. -/
theorem Answers.lastCursorOr_eq
    (hParse : ∀ e ∈ r.indexingAgreements, (parseSnapshot e).isSome = true) :
    lastCursorOr result.snapshots since = lastCursorOr (g.page since) since := by
  obtain ⟨hAll, -⟩ := parsed_of_readPage hParse h
  have hCursors : ∀ {rows entities}, List.Forall₂ Renders rows entities →
      (∀ e ∈ entities, (parseSnapshot e).isSome = true) →
      (entities.filterMap parseSnapshot).map (·.cursor) = rows.map (·.cursor) := by
    intro rows entities hRenders hParse
    induction hRenders with
    | nil => rfl
    | @cons s e rows entities hRender _ ih =>
      obtain ⟨x, hx⟩ := Option.isSome_iff_exists.mp (hParse e (by simp))
      have hRest := ih fun e' he' => hParse e' (by simp [he'])
      rw [List.filterMap_cons_some hx, List.map_cons, List.map_cons, hRest,
        (hRender.1 x hx).cursor]
  have hLast : ∀ rows : List AgreementStateSnapshot,
      lastCursorOr rows since = ((rows.map (·.cursor)).getLast?).getD since := by
    intro rows
    unfold lastCursorOr
    rw [List.getLast?_map]
    cases rows.getLast? <;> rfl
  rw [hLast, hLast, hAll, hCursors hAnswers.2.1 hParse]

def window (g : Subgraph) (since c : Cursor) : List AgreementStateSnapshot :=
  g.rows.filter fun s => since < s.cursor ∧ s.cursor ≤ c

theorem lt_lastCursorOr_page {c : Cursor} (hFull : subgraphPageSize ≤ (g.page since).length)
    (hWindow : (g.window since c).length < subgraphPageSize) :
    c < lastCursorOr (g.page since) since := by
  have hSorted : (g.page since).Pairwise fun a b => a.cursor < b.cursor :=
    g.sorted.sublist ((List.take_sublist _ _).trans List.filter_sublist)
  unfold lastCursorOr
  cases hLast : (g.page since).getLast? with
  | none =>
    rw [List.getLast?_eq_none_iff.mp hLast] at hFull
    exact absurd hFull (by decide)
  | some last =>
    by_contra hNot
    have hLe : last.cursor ≤ c := not_lt.mp hNot
    obtain ⟨before, hSplit⟩ := List.getLast?_eq_some_iff.mp hLast
    have hAll : ∀ t ∈ g.page since, t.cursor ≤ c := by
      intro t ht
      rw [hSplit] at ht hSorted
      rcases List.mem_append.mp ht with hBefore | hEnd
      · have hLt := (List.pairwise_append.mp hSorted).2.2 t hBefore last (by simp)
        exact (le_of_lt hLt).trans hLe
      · rw [List.mem_singleton.mp hEnd]
        exact hLe
    have hSub : (g.page since).Sublist (g.window since c) := by
      have hFilter : (g.page since).filter (fun s => since < s.cursor ∧ s.cursor ≤ c) =
          g.page since := by
        refine List.filter_eq_self.mpr fun t ht => ?_
        exact decide_eq_true ⟨(mem_of_mem_page ht).2, hAll t ht⟩
      rw [← hFilter]
      exact ((List.take_sublist _ _).trans List.filter_sublist).filter _
    have hLength := hSub.length_le
    omega

theorem lastCursorOr_page_le {c : Cursor} (hSince : since ≤ c)
    (hWindow : subgraphPageSize ≤ (g.window since c).length) :
    lastCursorOr (g.page since) since ≤ c := by
  unfold lastCursorOr
  cases hLast : (g.page since).getLast? with
  | none => exact hSince
  | some last =>
    by_contra hNot
    obtain ⟨before, hSplit⟩ := List.getLast?_eq_some_iff.mp hLast
    have hSorted : (g.rows.filter fun s => since < s.cursor).Pairwise
        fun a b => a.cursor < b.cursor := g.sorted.filter _
    rw [← List.take_append_drop subgraphPageSize (g.rows.filter _)] at hSorted
    -- The window's rows all come before the last one of the page, so they are fewer than a page.
    have hBefore : ∀ t ∈ g.window since c, t ∈ before := by
      intro t ht
      obtain ⟨hRow, hIn⟩ := List.mem_filter.mp ht
      obtain ⟨hPast, hLe⟩ := of_decide_eq_true hIn
      have hLt : t.cursor < last.cursor := lt_of_le_of_lt hLe (not_le.mp hNot)
      have hMem : t ∈ (g.rows.filter fun s => since < s.cursor) :=
        List.mem_filter.mpr ⟨hRow, decide_eq_true hPast⟩
      rw [← List.take_append_drop subgraphPageSize (g.rows.filter _)] at hMem
      rcases List.mem_append.mp hMem with hPage | hRest
      · change t ∈ g.page since at hPage
        rw [hSplit] at hPage
        rcases List.mem_append.mp hPage with hBefore | hEnd
        · exact hBefore
        · rw [List.mem_singleton.mp hEnd] at hLt
          exact absurd hLt (lt_irrefl _)
      · exact absurd hLt (not_lt.mpr (le_of_lt
          ((List.pairwise_append.mp hSorted).2.2 last (List.mem_of_getLast? hLast) t hRest)))
    have hNodup : (g.window since c).Nodup :=
      (g.sorted.filter _).imp fun hLt hEq => absurd (hEq ▸ hLt) (lt_irrefl _)
    have hFewer := (List.Nodup.subperm hNodup hBefore).length_le
    have hPage : (g.page since).length ≤ subgraphPageSize := List.length_take_le _ _
    rw [hSplit, List.length_append, List.length_singleton] at hPage
    omega

include hAnswers h in
/-- A page without a malformed entity moves a cursor that a row is past, if and only if the window
between where the page is read from and the cursor holds less than a page, and the page is full or
leads to a block past that of the cursor. -/
theorem Answers.lt_cursor_iff {c : Cursor} (hSince : since ≤ c)
    (hParse : ∀ e ∈ r.indexingAgreements, (parseSnapshot e).isSome = true) (hs : s ∈ g.rows)
    (hPast : c < s.cursor) :
    c < result.cursor ↔ (g.window since c).length < subgraphPageSize ∧
      (c.block < maxU64 ∨ subgraphPageSize ≤ (g.page since).length) := by
  obtain ⟨hAll, hCursor⟩ := parsed_of_readPage hParse h
  rw [hCursor, hAnswers.length]
  by_cases hFull : r.indexingAgreements.length ≥ subgraphPageSize
  · rw [if_pos hFull, ← hAll, hAnswers.lastCursorOr_eq h hParse]
    constructor
    · intro hMoves
      exact ⟨not_le.mp fun hWindow => absurd (lastCursorOr_page_le hSince hWindow)
        (not_le.mpr hMoves), .inr hFull⟩
    · rintro ⟨hWindow, -⟩
      rw [← hAnswers.length] at hFull
      exact lt_lastCursorOr_page hFull hWindow
  · rw [if_neg hFull]
    have hFewer : (g.window since c).length < subgraphPageSize := by
      by_contra hWindow
      have hSub : (g.window since c).length ≤ (g.rows.filter fun s => since < s.cursor).length := by
        refine (List.monotone_filter_right _ fun t ht => ?_).length_le
        exact decide_eq_true (of_decide_eq_true ht).1
      rw [← hAnswers.length, page, List.length_take] at hFull
      omega
    have hHead := hAnswers.2.2 s hs
    have hLe : c.block ≤ s.lastStateChangeBlock := Cursor.block_le_of_lt hPast
    have hNext : (Cursor.atBlock (saturatingAdd r.blockNumber 1)).block =
        min (g.head + 1) maxU64 := by
      rw [← hAnswers.1]
      rfl
    constructor
    · intro hMoves
      refine ⟨hFewer, .inl ?_⟩
      by_contra hBlock
      refine absurd hMoves (not_lt.mpr (Cursor.atBlock_le ?_))
      exact (Nat.min_le_right _ _).trans (Nat.le_of_not_lt hBlock)
    · rintro ⟨-, hBlock | hPage⟩
      · refine Cursor.lt_of_block_lt ?_
        rw [hNext]
        omega
      · exact absurd hPage hFull

include hAnswers h in
theorem Answers.block_le : result.cursor = since ∨ result.cursor.block ≤ g.head + 1 := by
  have hLast : lastCursorOr result.snapshots since = since ∨
      (lastCursorOr result.snapshots since).block ≤ g.head + 1 := by
    unfold lastCursorOr
    cases hLast : result.snapshots.getLast? with
    | none => exact .inl rfl
    | some x =>
      obtain ⟨t, ht, hReads⟩ := hAnswers.row h (List.mem_of_getLast? hLast)
      have hHead := hAnswers.2.2 t (mem_of_mem_page ht).1
      have hBlock : x.lastStateChangeBlock = t.lastStateChangeBlock := by rw [hReads.1]
      refine .inr ?_
      change x.lastStateChangeBlock ≤ g.head + 1
      omega
  obtain ⟨page, rfl, -, -, -, hCases⟩ := readPage_cases h
  rcases hCases with ⟨-, -, hCursor⟩ | ⟨-, failed, -, -, hCursor⟩ | ⟨-, -, hAll, hCursor⟩
  · exact .inl hCursor
  · rw [hCursor]
    exact hLast
  · rw [hCursor]
    split
    · rw [← hAll]
      exact hLast
    · refine .inr ?_
      rw [hAnswers.1]
      exact min_le_left _ _

end Subgraph

end Coverage

end Dipper
