import Dipper.Listener.Drain
import Dipper.Pages

/-! How pages move the cursor, apart from the calls that deal with them: each page is read from
where the one before it ended, what it left unapplied holds the cursor back or has been held long
enough, and the drain goes on while the cursor moves.  No row is left behind the cursor that was
not on one of the pages. -/

namespace Dipper

namespace Listener

/-- What a page of a drain came to: where it was read from, its snapshots, those of them left
unapplied, where it lets the cursor move to, when that was decided, and whether what was left
unapplied is skipped. -/
structure PageRecord where
  since : Cursor
  snapshots : List AgreementStateSnapshot
  unapplied : List IndexingAgreementId
  next : Cursor
  now : Nat
  skips : Bool

namespace PageRecord

/-- The hold after the page, and whether what it left unapplied is to be skipped. -/
def verdict (page : PageRecord) (cursor : Cursor) (hold : Option CursorHold) :
    Option CursorHold × Bool :=
  if page.unapplied.isEmpty then (none, false) else holdExpired hold cursor page.now

def advances (page : PageRecord) (cursor : Cursor) : Bool :=
  (page.unapplied.isEmpty || page.skips) && decide (cursor < page.next)

/-- The page is read from an exact response to the query from `since`. -/
def Reads (ok : ChangedAgreementsResponse → Prop) (g : Subgraph) (since : Cursor)
    (page : PageRecord) : Prop :=
  page.since = since ∧ ∃ r result, (ok r ∧ g.Exact r) ∧ g.Answers since r ∧
    readPage since r = .ok result ∧ result.snapshots = page.snapshots ∧ result.cursor = page.next

end PageRecord

/-- The pages of a drain from `since` on, with the cursor and the hold before and after them. -/
inductive Drained (ok : ChangedAgreementsResponse → Prop) (g : Subgraph) :
    Cursor → Cursor → Option CursorHold → List PageRecord → Cursor → Option CursorHold → Prop
  | ends {since c : Cursor} {h : Option CursorHold} : Drained ok g since c h [] c h
  | held {since c : Cursor} {h h' : Option CursorHold} {page : PageRecord} :
      page.Reads ok g since → page.verdict c h = (h', page.skips) → page.advances c = false →
      Drained ok g since c h [page] c h'
  | moves {since c c' : Cursor} {h h1 h' : Option CursorHold} {page : PageRecord}
      {pages : List PageRecord} : page.Reads ok g since → page.verdict c h = (h1, page.skips) →
      page.advances c = true → Drained ok g page.next page.next h1 pages c' h' →
      Drained ok g since c h (page :: pages) c' h'

variable {ok : ChangedAgreementsResponse → Prop} {g : Subgraph} {since c c' : Cursor}
  {h h' : Option CursorHold} {page : PageRecord} {pages : List PageRecord}
  {s : AgreementStateSnapshot}

theorem PageRecord.lt_of_advances (hMoves : page.advances c = true) : c < page.next :=
  of_decide_eq_true (Bool.and_eq_true_iff.mp hMoves).2

theorem PageRecord.skips_of_advances (hMoves : page.advances c = true) :
    page.unapplied = [] ∨ page.skips = true := by
  rcases Bool.or_eq_true_iff.mp (Bool.and_eq_true_iff.mp hMoves).1 with hEmpty | hSkip
  · exact .inl (List.isEmpty_iff.mp hEmpty)
  · exact .inr hSkip

theorem PageRecord.Reads.covers (hReads : page.Reads ok g since) (hs : s ∈ g.rows)
    (hSince : since < s.cursor) (hTo : s.cursor ≤ page.next) : s ∈ page.snapshots := by
  obtain ⟨-, r, result, ⟨-, hExact⟩, hAnswers, hRead, hSnapshots, hNext⟩ := hReads
  rw [← hNext] at hTo
  obtain ⟨x, hx, hReadsAs⟩ := hAnswers.covers hRead hs hSince hTo
  obtain rfl := hExact.eq hs ((sublist_of_readPage hRead).mem hx) hReadsAs
  rw [← hSnapshots]
  exact hx

theorem PageRecord.Reads.block_le (hReads : page.Reads ok g since) :
    page.next = since ∨ page.next.block ≤ g.head + 1 := by
  obtain ⟨-, r, result, -, hAnswers, hRead, -, hNext⟩ := hReads
  rw [← hNext]
  exact hAnswers.block_le hRead

namespace Drained

theorem eq_of_nil (hDrained : Drained ok g since c h [] c' h') : c' = c := by
  cases hDrained
  rfl

theorem le (hDrained : Drained ok g since c h pages c' h') : c ≤ c' := by
  induction hDrained with
  | ends => exact le_refl _
  | held => exact le_refl _
  | moves _ _ hMoves _ ih => exact (le_of_lt (PageRecord.lt_of_advances hMoves)).trans ih

theorem block_le (hDrained : Drained ok g since c h pages c' h') (hSince : since ≤ c) :
    c' = c ∨ c'.block ≤ g.head + 1 := by
  induction hDrained with
  | ends => exact .inl rfl
  | held => exact .inl rfl
  | @moves since c c' h h1 h' page pages hReads _ hMoves _ ih =>
    have hLt := PageRecord.lt_of_advances hMoves
    have hPage : page.next.block ≤ g.head + 1 :=
      hReads.block_le.resolve_left (ne_of_gt (lt_of_le_of_lt hSince hLt))
    rcases ih (le_refl _) with hSame | hBlock
    · exact .inr (hSame ▸ hPage)
    · exact .inr hBlock

/-- A row the cursor has moved past was on a page that applied it or skipped what it left
unapplied. -/
theorem covers (hDrained : Drained ok g since c h pages c' h') (hMoved : c' ≠ c) (hs : s ∈ g.rows)
    (hSince : since < s.cursor) (hTo : s.cursor ≤ c') :
    ∃ page ∈ pages, (page.unapplied = [] ∨ page.skips = true) ∧ s ∈ page.snapshots := by
  induction hDrained with
  | ends => exact absurd rfl hMoved
  | held => exact absurd rfl hMoved
  | @moves since c c' h h1 h' page pages hReads _ hMoves _ ih =>
    rcases le_or_gt s.cursor page.next with hLe | hGt
    · exact ⟨page, by simp, PageRecord.skips_of_advances hMoves, hReads.covers hs hSince hLe⟩
    · have hFurther : c' ≠ page.next := fun hEq => absurd hTo (not_le.mpr (hEq ▸ hGt))
      obtain ⟨page', hMem, hPage'⟩ := ih hFurther hGt hTo
      exact ⟨page', by simp [hMem], hPage'⟩

end Drained

section Start

variable {buffer : Nat}

theorem effectiveCursor_eq (hPos : 0 < buffer) (hBlock : buffer < c.block) :
    effectiveCursor buffer c = .atBlock (c.block - buffer) := by
  unfold effectiveCursor
  rw [if_pos ⟨by omega, hPos, hBlock⟩]

theorem effectiveCursor_le : effectiveCursor buffer c ≤ c := by
  unfold effectiveCursor
  split
  · exact Cursor.atBlock_le (Nat.sub_le _ _)
  · exact le_refl c

theorem effectiveCursor_mono (hPos : 0 < buffer) (hBlock : buffer < c.block) (hLe : c ≤ c') :
    effectiveCursor buffer c ≤ effectiveCursor buffer c' := by
  have hBlocks := Cursor.block_le_of_le hLe
  rw [effectiveCursor_eq hPos hBlock, effectiveCursor_eq hPos (Nat.lt_of_lt_of_le hBlock hBlocks)]
  refine Cursor.atBlock_le ?_
  change c.block - buffer ≤ c'.block - buffer
  omega

theorem lt_effectiveCursor_iff (hPos : 0 < buffer) (hBlock : buffer < c.block) :
    s.cursor < effectiveCursor buffer c ↔ s.lastStateChangeBlock + buffer < c.block := by
  rw [effectiveCursor_eq hPos hBlock]
  constructor
  · intro hLt
    by_contra hNot
    have hLe : c.block - buffer ≤ s.lastStateChangeBlock := by omega
    exact absurd hLt (not_lt.mpr (le_of_lt (Cursor.atBlock_lt hLe _)))
  · intro hLt
    refine Cursor.lt_of_block_lt ?_
    change s.lastStateChangeBlock < c.block - buffer
    omega

theorem effectiveCursor_lt (hPos : 0 < buffer) (hBlock : buffer < c.block)
    (hNot : ¬ s.cursor < effectiveCursor buffer c) : effectiveCursor buffer c < s.cursor := by
  rw [lt_effectiveCursor_iff hPos hBlock] at hNot
  rw [effectiveCursor_eq hPos hBlock]
  exact Cursor.atBlock_lt (by omega) _

end Start

section Holds

variable {buffer : Nat} {resolved : AgreementStateSnapshot → Prop}
  {failed failed' : AgreementStateSnapshot → Nat → Prop}

/-- What the pages of a drain say of the rows that failed: a row that was applied is resolved, and
so is one that failed here and long enough before. -/
structure Tells (resolved : AgreementStateSnapshot → Prop)
    (failed failed' : AgreementStateSnapshot → Nat → Prop) (page : PageRecord) : Prop where
  applied : ∀ s ∈ page.snapshots, s.agreementId ∉ page.unapplied → resolved s
  fails : ∀ s ∈ page.snapshots, s.agreementId ∈ page.unapplied → failed' s page.now
  again : ∀ s ∈ page.snapshots, s.agreementId ∈ page.unapplied →
    ∀ since, failed s since → since + maxCursorHold ≤ page.now → resolved s

/-- The hold before a page: every row the next drain would read first is resolved, or failed when
the hold began. -/
def HeldFor (buffer : Nat) (g : Subgraph) (resolved : AgreementStateSnapshot → Prop)
    (failed : AgreementStateSnapshot → Nat → Prop) (c : Cursor) (hold : CursorHold) : Prop :=
  hold.cursor = c ∧
    ∀ s ∈ g.page (effectiveCursor buffer c), resolved s ∨ failed s hold.since

theorem PageRecord.Reads.gives (hParse : ∀ r, ok r →
    ∀ e ∈ r.indexingAgreements, (parseSnapshot e).isSome = true)
    (hReads : page.Reads ok g since) (hs : s ∈ g.page since) : s ∈ page.snapshots := by
  obtain ⟨-, r, result, ⟨hr, hExact⟩, hAnswers, hRead, hSnapshots, -⟩ := hReads
  obtain ⟨x, hx, hReadsAs⟩ := hAnswers.gives hRead (hParse r hr) hs
  obtain rfl := hExact.eq (Subgraph.mem_of_mem_page hs).1 ((sublist_of_readPage hRead).mem hx)
    hReadsAs
  rw [← hSnapshots]
  exact hx

theorem PageRecord.verdict_cases (hVerdict : page.verdict c h = (h', page.skips))
    (hCursor : ∀ hold ∈ h, hold.cursor = c) :
    (page.unapplied = [] ∧ h' = none) ∨
      (page.skips = false ∧ ∃ hold ∈ h, h' = some hold) ∨
      (page.skips = false ∧ h = none ∧ h' = some ⟨c, page.now⟩) ∨
      (page.skips = true ∧ h' = none ∧ ∃ hold ∈ h, hold.since + maxCursorHold ≤ page.now) := by
  unfold PageRecord.verdict at hVerdict
  split at hVerdict
  · rename_i hEmpty
    exact .inl ⟨List.isEmpty_iff.mp hEmpty, (Prod.mk.inj hVerdict).1.symm⟩
  · refine .inr ?_
    cases h with
    | none =>
      obtain ⟨rfl, hSkips⟩ := Prod.mk.inj hVerdict
      exact .inr (.inl ⟨hSkips.symm, rfl, rfl⟩)
    | some hold =>
      simp only [holdExpired, hCursor hold rfl, if_true] at hVerdict
      split at hVerdict
      · obtain ⟨rfl, hSkips⟩ := Prod.mk.inj hVerdict
        exact .inl ⟨hSkips.symm, hold, rfl, rfl⟩
      · rename_i hLong
        obtain ⟨rfl, hSkips⟩ := Prod.mk.inj hVerdict
        have hMax : maxCursorHold = 600 := rfl
        exact .inr (.inr ⟨hSkips.symm, rfl, hold, rfl, by omega⟩)

theorem PageRecord.moves_cases (hVerdict : page.verdict c h = (h', page.skips))
    (hAdvances : page.advances c = true) (hCursor : ∀ hold ∈ h, hold.cursor = c) :
    h' = none ∧ (page.unapplied = [] ∨ ∃ hold ∈ h, hold.since + maxCursorHold ≤ page.now) := by
  rcases PageRecord.skips_of_advances hAdvances with hEmpty | hSkips
  · simp only [PageRecord.verdict, hEmpty, List.isEmpty_nil, if_true] at hVerdict
    exact ⟨(Prod.mk.inj hVerdict).1.symm, .inl hEmpty⟩
  · rcases PageRecord.verdict_cases hVerdict hCursor with
      ⟨hEmpty, hNone⟩ | ⟨hStays, -⟩ | ⟨hStays, -⟩ | ⟨-, hNone, hLong⟩
    · exact ⟨hNone, .inl hEmpty⟩
    · cases hStays.symm.trans hSkips
    · cases hStays.symm.trans hSkips
    · exact ⟨hNone, .inr hLong⟩

theorem PageRecord.Reads.mem_page (hReads : page.Reads ok g since) (hs : s ∈ page.snapshots) :
    s ∈ g.page since := by
  obtain ⟨-, r, result, ⟨-, hExact⟩, hAnswers, hRead, hSnapshots, -⟩ := hReads
  rw [← hSnapshots] at hs
  obtain ⟨t, ht, hReadsAs⟩ := hAnswers.row hRead hs
  obtain rfl := hExact.eq (Subgraph.mem_of_mem_page ht).1 ((sublist_of_readPage hRead).mem hs)
    hReadsAs
  exact ht

/-- A row of the page the next drain reads first is on the page that begins the hold, or before
it. -/
theorem PageRecord.Reads.begins (hParse : ∀ r, ok r →
    ∀ e ∈ r.indexingAgreements, (parseSnapshot e).isSome = true)
    (hReads : page.Reads ok g since) (hTells : Tells resolved failed failed' page)
    (hEff : effectiveCursor buffer c ≤ since)
    (hBefore : ∀ s ∈ g.rows, effectiveCursor buffer c < s.cursor → s.cursor ≤ since → resolved s) :
    HeldFor buffer g resolved failed' c ⟨c, page.now⟩ := by
  refine ⟨rfl, fun s hs => ?_⟩
  obtain ⟨hRow, hAfter⟩ := Subgraph.mem_of_mem_page hs
  rcases le_or_gt s.cursor since with hLe | hGt
  · exact .inl (hBefore s hRow hAfter hLe)
  · have hOn := hReads.gives hParse (Subgraph.mem_page_of_later hs hEff hGt)
    by_cases hUnapplied : s.agreementId ∈ page.unapplied
    · exact .inr (hTells.fails s hOn hUnapplied)
    · exact .inl (hTells.applied s hOn hUnapplied)

/-- A drain leaves every row the cursor moves past resolved, and its hold with the rows that failed
when it began.  By induction on the pages: a page after the first is read from the cursor, with no
hold in place. -/
theorem Drained.resolves (hPos : 0 < buffer)
    (hParse : ∀ r, ok r → ∀ e ∈ r.indexingAgreements, (parseSnapshot e).isSome = true)
    (hMono : ∀ s now, failed s now → failed' s now)
    (hDrained : Drained ok g since c h pages c' h')
    (hTells : ∀ page ∈ pages, Tells resolved failed failed' page)
    (hBlock : buffer < c.block) (hEff : effectiveCursor buffer c ≤ since)
    (hBefore : ∀ s ∈ g.rows, effectiveCursor buffer c < s.cursor → s.cursor ≤ since → resolved s)
    (hHold : ∀ hold ∈ h, since = effectiveCursor buffer c ∧
      HeldFor buffer g resolved failed c hold) :
    (∀ s ∈ g.rows, effectiveCursor buffer c < s.cursor → s.cursor ≤ c' → c' ≠ c → resolved s) ∧
      ∀ hold ∈ h', HeldFor buffer g resolved failed' c' hold := by
  have hGoesOn : ∀ c hold, HeldFor buffer g resolved failed c hold →
      HeldFor buffer g resolved failed' c hold :=
    fun c hold hFor => ⟨hFor.1, fun s hs => (hFor.2 s hs).imp_right (hMono s _)⟩
  induction hDrained with
  | @ends since c h =>
    exact ⟨fun _ _ _ _ h => absurd rfl h, fun hold hMem => hGoesOn c hold (hHold hold hMem).2⟩
  | @held since c h h' page hReads hVerdict hAdvances =>
    refine ⟨fun _ _ _ _ h => absurd rfl h, fun hold hMem => ?_⟩
    rcases PageRecord.verdict_cases hVerdict fun hold hMem => (hHold hold hMem).2.1 with
      ⟨-, rfl⟩ | ⟨-, old, hOld, rfl⟩ | ⟨-, -, rfl⟩ | ⟨-, rfl, -⟩
    · cases hMem
    · obtain rfl := Option.some.inj hMem
      exact hGoesOn c _ (hHold _ hOld).2
    · obtain rfl := Option.some.inj hMem
      exact hReads.begins hParse (hTells page (by simp)) hEff hBefore
    · cases hMem
  | @moves since c c' h h1 h' page pages hReads hVerdict hAdvances hRest ih =>
    have hPage := hTells page (by simp)
    have hLt := PageRecord.lt_of_advances hAdvances
    have hBlock' : buffer < page.next.block :=
      Nat.lt_of_lt_of_le hBlock (Cursor.block_le_of_le (le_of_lt hLt))
    obtain ⟨rfl, hPast⟩ := PageRecord.moves_cases hVerdict hAdvances
      fun hold hMem => (hHold hold hMem).2.1
    -- The rows of the page up to where the cursor moves to: one left unapplied failed before too.
    have hOnPage : ∀ s ∈ g.rows, since < s.cursor → s.cursor ≤ page.next → resolved s := by
      intro s hs hSince hTo
      have hOn := hReads.covers hs hSince hTo
      by_cases hUnapplied : s.agreementId ∈ page.unapplied
      · rcases hPast with hEmpty | ⟨hold, hMem, hLong⟩
        · rw [hEmpty] at hUnapplied
          cases hUnapplied
        · obtain ⟨rfl, hFor⟩ := hHold hold hMem
          rcases hFor.2 s (hReads.mem_page hOn) with hDone | hFailed
          · exact hDone
          · exact hPage.again s hOn hUnapplied _ hFailed hLong
      · exact hPage.applied s hOn hUnapplied
    have hUpTo : ∀ s ∈ g.rows, effectiveCursor buffer c < s.cursor → s.cursor ≤ page.next →
        resolved s := by
      intro s hs hAfter hTo
      rcases le_or_gt s.cursor since with hLe | hGt
      · exact hBefore s hs hAfter hLe
      · exact hOnPage s hs hGt hTo
    have hStart := effectiveCursor_mono hPos hBlock (le_of_lt hLt)
    obtain ⟨hLater, hHolds⟩ := ih (fun page' hMem => hTells page' (by simp [hMem])) hBlock'
      effectiveCursor_le (fun s hs hAfter hTo => hUpTo s hs (lt_of_le_of_lt hStart hAfter) hTo)
      nofun
    refine ⟨fun s hs hAfter hTo _ => ?_, hHolds⟩
    rcases le_or_gt s.cursor page.next with hLe | hGt
    · exact hUpTo s hs hAfter hLe
    · refine hLater s hs (lt_of_le_of_lt effectiveCursor_le hGt) hTo fun hEq => ?_
      rw [hEq] at hTo
      exact absurd hGt (not_lt.mpr hTo)

end Holds

end Listener

end Dipper
