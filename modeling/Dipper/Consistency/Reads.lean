import Dipper.Consistency.Preserved
import Dipper.Results

/-! Rules for programs within the discipline: one for each kind of operation, with what its result
says and goes on saying whatever the others do. -/

namespace Dipper

open World

/-- A program of a thread tagged `t` keeps to the discipline from `w`, and what it returns satisfies
`post`. -/
abbrev Keeps {β : Type} (config : Config) (allow : World → Tag → Op → Choice → Prop) (t : Tag)
    (post : β → World → Prop) (p : Act β) (w : World) : Prop :=
  (consistency config).Keeps (services config allow) t post p w

/-- The row was read from the registry, now or before. -/
structure World.Read (w : World) (id : IndexingAgreementId) (row : AgreementRow) : Prop where
  current : ∃ row', w.row id = some row' ∧ RowGrows row row'
  accepted : row.status = .acceptedOnChain ∨ row.abandoned = true ∨ row.acceptedAt.isSome = true →
    (w.chain id).WasAccepted
  versionHash : ∃ hash, row.termsVersionHash = some hash ∧ hash.length = 32

/-- The agreement was read from the registry, now or before. -/
def World.Knows (w : World) (a : IndexingAgreement) : Prop :=
  ∃ row, a = row.agreement a.id ∧ w.Read a.id row

namespace World

variable {w w' : World} {id : IndexingAgreementId} {row : AgreementRow} {a : IndexingAgreement}

theorem Consistent.seen (hw : w.Consistent) (hRow : w.row id = some row)
    (hSeen : row.status = .acceptedOnChain ∨ row.abandoned = true) :
    (w.chain id).WasAccepted :=
  ((hw.pinned id).trans (hw.indexed id)).accepted ((hw.rows id row hRow).seen hSeen)

theorem Consistent.row_of_accepted (hw : w.Consistent) (hAccepted : (w.chain id).WasAccepted) :
    ∃ row, w.row id = some row := by
  have hChain : w.chain id ≠ .absent := by
    intro hAbsent
    rw [hAbsent] at hAccepted
    exact hAccepted
  obtain ⟨row, hRow, -⟩ := hw.offers id hChain
  exact ⟨row, hRow⟩

theorem Consistent.read (hw : w.Consistent) (hRow : w.row id = some row) : w.Read id row where
  current := ⟨row, hRow, .refl row⟩
  accepted := by
    rintro (hStatus | hMark | hAt)
    · exact hw.seen hRow (.inl hStatus)
    · exact hw.seen hRow (.inr hMark)
    · exact ((hw.rows id row hRow).accepted hAt).1
  versionHash := (hw.rows id row hRow).versionHash

theorem Read.mono (h : w.Read id row) (hGrows : w.Grows w') : w'.Read id row where
  current := by
    obtain ⟨row1, hRow1, hGrows1⟩ := h.current
    obtain ⟨row2, hRow2, hGrows2⟩ := hGrows.rows id row1 hRow1
    exact ⟨row2, hRow2, hGrows1.trans hGrows2⟩
  accepted hSeen := (hGrows.chain id).accepted (h.accepted hSeen)
  versionHash := h.versionHash

theorem Read.knows (h : w.Read id row) : w.Knows (row.agreement id) := ⟨row, rfl, h⟩

theorem Knows.mono (h : w.Knows a) (hGrows : w.Grows w') : w'.Knows a := by
  obtain ⟨row, hEq, hRead⟩ := h
  exact ⟨row, hEq, hRead.mono hGrows⟩

theorem Knows.stored (h : w.Knows a) : ∃ row, w.row a.id = some row ∧ row.terms = a.terms ∧
    StatusPath a.status row.status := by
  obtain ⟨row, hEq, hRead⟩ := h
  obtain ⟨row', hRow', hGrows⟩ := hRead.current
  refine ⟨row', hRow', ?_, ?_⟩
  · rw [hGrows.terms, hEq]
    rfl
  · rw [hEq]
    exact hGrows.status

theorem Knows.isSome (h : w.Knows a) : (w.row a.id).isSome = true := by
  obtain ⟨row, hRow, -⟩ := h.stored
  rw [hRow]
  rfl

theorem Knows.accepted (h : w.Knows a) (hStatus : a.status = .acceptedOnChain) :
    (w.chain a.id).WasAccepted := by
  obtain ⟨row, hEq, hRead⟩ := h
  rw [hEq] at hStatus
  exact hRead.accepted (.inl hStatus)

theorem Knows.versionHash (h : w.Knows a) :
    ∃ hash, a.termsVersionHash = some hash ∧ hash.length = 32 := by
  obtain ⟨row, hEq, hRead⟩ := h
  obtain ⟨hash, hHash, hLength⟩ := hRead.versionHash
  refine ⟨hash, ?_, hLength⟩
  rw [hEq]
  exact hHash

end World

/-- The rows of a listing, each read from the registry and selected by the query. -/
structure Listed (w : World) (q : AgreementQuery)
    (rows : List (IndexingAgreementId × AgreementRow)) : Prop where
  nodup : (rows.map (·.1)).Nodup
  read : ∀ p ∈ rows, w.Read p.1 p.2
  selected : ∀ p ∈ rows, ∃ now requests, q.selects now requests p.1 p.2 = true

theorem Listed.knows {w : World} {q : AgreementQuery}
    {rows : List (IndexingAgreementId × AgreementRow)} (h : Listed w q rows)
    {a : IndexingAgreement} (ha : a ∈ Registry.agreements rows) : w.Knows a := by
  obtain ⟨p, hMem, rfl⟩ := List.mem_map.mp ha
  exact (h.read p hMem).knows

/-- The operations that leave the listener's page as it is. -/
def Op.onPage : Op → Bool
  | .getChanged .. | .select (.byIds _) => false
  | _ => true

/-- The listener's page is as it was: the block it is pinned to and the rows read for it. -/
structure World.SamePage (w w' : World) : Prop where
  pinned : w'.pinned = w.pinned
  listed : w'.pageListed = w.pageListed

theorem World.SamePage.refl (w : World) : w.SamePage w := ⟨rfl, rfl⟩

theorem World.SamePage.trans {w w' w'' : World} (h : w.SamePage w') (h' : w'.SamePage w'') :
    w.SamePage w'' :=
  ⟨h'.pinned.trans h.pinned, h'.listed.trans h.listed⟩

theorem World.Quiet.samePage {w w' : World} (h : w.Quiet w') : w.SamePage w' :=
  ⟨h.pinned, h.pageListed⟩

theorem samePage_of_effect {w w' : World} {o : Op} (h : Effect w w' o) (hOp : o.onPage = true) :
    w.SamePage w' where
  pinned := by
    rcases h.changes.pinned with hEq | ⟨since, rfl, -⟩
    · exact hEq
    · cases hOp
  listed := by
    rcases h.changes.pageListed with hEq | ⟨since, pinned, rfl, -⟩ | ⟨ids, listed, rfl, -⟩
    · exact hEq
    · cases hOp
    · cases hOp

section Rules

variable {config : Config} {allow : World → Tag → Op → Choice → Prop} {t : Tag} {β γ : Type}
  {post : β → World → Prop} {w : World}

theorem keeps_ret {b : β} (h : ∀ w', w'.Consistent → w.Grows w' → post b w') :
    Keeps config allow t post (pure b) w :=
  Concurrent.Discipline.Keeps.ret fun w' hInv hRely => h w' hInv hRely.1

theorem keeps_done {b : β} : Keeps config allow t (fun _ _ => True) (pure b) w :=
  keeps_ret fun _ _ _ => trivial

theorem keeps_frame {p : Act β} (h : Keeps config allow t post p w) :
    Keeps config allow t (fun b w' => w.Grows w' ∧ post b w') p w :=
  h.frame (R := World.Grows) (consistency_sound config allow) Grows.trans
    (fun _ hRely => hRely.1) fun hInv hPre hOp => (performed_of_performs hPre hOp).grows hInv

theorem listener_ret {b : β} (h : ∀ w', w'.Consistent → w.Grows w' → w.Quiet w' → post b w') :
    Keeps config allow .chainListener post (pure b) w :=
  Concurrent.Discipline.Keeps.ret fun w' hInv hRely => h w' hInv hRely.1 (hRely.2 rfl)

theorem keeps_bind {p : Act γ} {f : γ → Act β} {m : γ → World → Prop}
    (h : Keeps config allow t m p w)
    (hNext : ∀ x w', w'.Consistent → w.Grows w' → m x w' → Keeps config allow t post (f x) w') :
    Keeps config allow t post (p >>= f) w :=
  .bind (consistency_sound config allow)
    ((keeps_frame h).mono fun x w' hInv hMid => hNext x w' hInv hMid.1 hMid.2)

theorem keeps_call {o : Op} {k : Res o → Act β}
    (h : ∀ w1, w1.Consistent → w.Grows w1 → (t = .chainListener → w.Quiet w1) → Pre config t w1 o ∧
      ∀ c r w2, w1.exec o c = some (r, w2) → w2.Consistent → w1.Grows w2 →
        Keeps config allow t post (k r) w2) :
    Keeps config allow t post (call o >>= k) w := by
  refine Concurrent.Discipline.Keeps.op (consistency_sound config allow) fun w1 hInv hRely => ?_
  obtain ⟨hPre, hNext⟩ := h w1 hInv hRely.1 hRely.2
  refine ⟨hPre, fun r w2 hOp hInv2 => ?_⟩
  have hGrows := (performed_of_performs hPre hOp).grows hInv
  obtain ⟨c, -, hExec⟩ := hOp
  exact hNext c r w2 hExec hInv2 hGrows

theorem listener_call {o : Op} {k : Res o → Act β} (hOp : o.onPage = true)
    (h : ∀ w1, w1.Consistent → w.Grows w1 → w.Quiet w1 → Pre config .chainListener w1 o ∧
      ∀ c r w2, w1.exec o c = some (r, w2) → w2.Consistent → w1.Grows w2 → w.SamePage w2 →
        Keeps config allow .chainListener post (k r) w2) :
    Keeps config allow .chainListener post (call o >>= k) w := by
  refine keeps_call fun w1 hInv1 hGrows1 hQuiet => ?_
  obtain ⟨hPre, hNext⟩ := h w1 hInv1 hGrows1 (hQuiet rfl)
  refine ⟨hPre, fun c r w2 hExec hInv2 hGrows2 => hNext c r w2 hExec hInv2 hGrows2 ?_⟩
  exact (hQuiet rfl).samePage.trans (samePage_of_effect (exec_effect hExec) hOp)

theorem keeps_free {o : Op} {k : Res o → Act β} (hPre : ∀ w, Pre config t w o)
    (h : ∀ r w', w'.Consistent → w.Grows w' → Keeps config allow t post (k r) w') :
    Keeps config allow t post (call o >>= k) w := by
  refine keeps_call fun w1 _ hGrows _ => ⟨hPre w1, fun c r w2 _ hInv2 hGrows2 => ?_⟩
  exact h r w2 hInv2 (hGrows.trans hGrows2)

theorem keeps_update {id : IndexingAgreementId} {u : RowUpdate}
    {k : Except RegistryError Updated → Act β} (hNeeds : u.needsRow = true)
    (hPre : ∀ w1 row, w1.Consistent → w.Grows w1 → w1.row id = some row → UpdatePre config t w1 id row u)
    (hError : ∀ w', w'.Consistent → w.Grows w' → Keeps config allow t post (k (.error .backend)) w')
    (hMissing : ∀ w', w'.Consistent → w.Grows w' →
      (∀ row, w'.row id = some row → u.run w'.now row = none) →
      Keeps config allow t post (k (.error .noRecordsUpdated)) w')
    (hOk : ∀ x w1 row row' w', w1.Consistent → w.Grows w1 → w1.row id = some row →
      u.run w1.now row = some row' → w'.row id = some row' → w'.Consistent → w1.Grows w' →
      Keeps config allow t post (k (.ok x)) w') :
    Keeps config allow t post (Registry.update id u >>= k) w := by
  refine keeps_call fun w1 hInv hGrows _ => ⟨fun row hRow => hPre w1 row hInv hGrows hRow, ?_⟩
  intro c r w2 hExec hInv2 hGrows2
  cases r with
  | ok x =>
    obtain ⟨row, row', hRow, hRun, hRow'⟩ := exec_update_ok hNeeds hExec
    exact hOk x w1 row row' w2 hInv hGrows hRow hRun hRow' hInv2 hGrows2
  | error e =>
    cases e with
    | backend => exact hError w2 hInv2 (hGrows.trans hGrows2)
    | noRecordsUpdated =>
      obtain ⟨rfl, hNone⟩ := exec_update_missing hExec
      exact hMissing w2 hInv2 (hGrows.trans hGrows2) hNone

theorem keeps_agreementOnChain {id : IndexingAgreementId}
    {k : Except ChainClientError AgreementOnChain → Act β}
    (hError : ∀ e w', w'.Consistent → w.Grows w' → Keeps config allow t post (k (.error e)) w')
    (hOk : ∀ w', w'.Consistent → w.Grows w' →
      Keeps config allow t post (k (.ok ((w'.chain id).read w'.chainTime))) w') :
    Keeps config allow t post (ChainClient.agreementOnChain id >>= k) w := by
  refine keeps_call fun w1 _ hGrows _ => ⟨trivial, fun c r w2 hExec hInv2 hGrows2 => ?_⟩
  cases r with
  | error e => exact hError e w2 hInv2 (hGrows.trans hGrows2)
  | ok v =>
    obtain ⟨rfl, rfl⟩ := chainRead_ok hExec
    exact hOk w2 hInv2 (hGrows.trans hGrows2)

theorem keeps_select {q : AgreementQuery}
    {k : Except RegistryError (List (IndexingAgreementId × AgreementRow)) → Act β}
    (hPre : ∀ w, Pre config t w (.select q))
    (h : ∀ r w', w'.Consistent → w.Grows w' → (∀ rows, r = .ok rows → Listed w' q rows) →
      Keeps config allow t post (k r) w') :
    Keeps config allow t post (Registry.select q >>= k) w := by
  refine keeps_call fun w1 hInv hGrows _ => ⟨hPre w1, fun c r w2 hExec hInv2 hGrows2 => ?_⟩
  refine h r w2 hInv2 (hGrows.trans hGrows2) ?_
  rintro rows rfl
  exact ⟨exec_select_nodup hExec,
    fun p hMem => (hInv.read (exec_select_row hExec hMem).1).mono hGrows2,
    fun p hMem => ⟨_, _, (exec_select_row hExec hMem).2⟩⟩

theorem keeps_listAgreements {q : AgreementQuery}
    {k : Except RegistryError (List IndexingAgreement) → Act β}
    (hPre : ∀ w, Pre config t w (.select q))
    (hError : ∀ e w', w'.Consistent → w.Grows w' → Keeps config allow t post (k (.error e)) w')
    (hOk : ∀ rows w', w'.Consistent → w.Grows w' → Listed w' q rows →
      Keeps config allow t post (k (.ok (Registry.agreements rows))) w') :
    Keeps config allow t post (Registry.listAgreements q >>= k) w := by
  refine keeps_select hPre fun r w' hInv hGrows hListed => ?_
  cases r with
  | error e => exact hError e w' hInv hGrows
  | ok rows => exact hOk rows w' hInv hGrows (hListed rows rfl)

theorem keeps_getIndexingAgreementById {id : IndexingAgreementId}
    {k : Except RegistryError (Option IndexingAgreement) → Act β}
    (hError : ∀ e w', w'.Consistent → w.Grows w' → Keeps config allow t post (k (.error e)) w')
    (hNone : ∀ w', w'.Consistent → w.Grows w' → w.row id = none →
      Keeps config allow t post (k (.ok none)) w')
    (hSome : ∀ row w', w'.Consistent → w.Grows w' → w'.row id = some row →
      Keeps config allow t post (k (.ok (some (row.agreement id)))) w') :
    Keeps config allow t post (Registry.getIndexingAgreementById id >>= k) w := by
  refine keeps_call fun w1 hInv hGrows _ => ⟨trivial, fun c r w2 hExec hInv2 hGrows2 => ?_⟩
  cases r with
  | error e => exact hError e w2 hInv2 (hGrows.trans hGrows2)
  | ok rows =>
    cases rows with
    | nil =>
      refine hNone w2 hInv2 (hGrows.trans hGrows2) ?_
      -- A row would have been listed.
      cases hRow : w.row id with
      | none => rfl
      | some row =>
        exfalso
        obtain ⟨row1, hRow1, -⟩ := hGrows.rows id row hRow
        have hListed := exec_select_complete hExec nofun rfl hRow1 (by simp [AgreementQuery.selects])
        cases hListed
    | cons p rows =>
      obtain ⟨id', row⟩ := p
      obtain ⟨hRow, hSelects⟩ := exec_select_row hExec (List.mem_cons_self ..)
      obtain rfl : id' = id := by simpa [AgreementQuery.selects] using hSelects
      obtain rfl : w2 = w1 := exec_effect hExec
      exact hSome row w2 hInv2 hGrows hRow

end Rules

end Dipper
