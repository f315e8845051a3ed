import Dipper.Concurrent.Trace
import Dipper.Escrow.Reconciler

/-! The scan for ended agreements goes round: the positions it checks, sweep after sweep, are one
after another modulo the number of agreements, wherever it began and however many each sweep gets
to, unless a `u64` is too small for the numbers it adds up. -/

namespace Dipper

namespace Escrow

open Concurrent

section Locate

variable {counts : List (Address × UInt64)} {pos pos' : UInt64}

/-- The number of agreements of all the providers. -/
def numberOf (counts : List (Address × UInt64)) : Nat := (counts.map (·.2.toNat)).sum

/-- The providers' agreements laid end to end. -/
def places (counts : List (Address × UInt64)) : List (Address × Nat) :=
  counts.flatMap fun entry => (List.range entry.2.toNat).map fun index => (entry.1, index)

theorem length_places (counts : List (Address × UInt64)) :
    (places counts).length = numberOf counts := by
  simp [places, numberOf, List.length_flatMap]

theorem mem_places {provider : Address} {index : Nat} :
    (provider, index) ∈ places counts ↔
      ∃ count, (provider, count) ∈ counts ∧ index < count.toNat := by
  simp only [places, List.mem_flatMap, List.mem_map, List.mem_range]
  constructor
  · rintro ⟨⟨provider', count⟩, hMem, index', hLt, hSame⟩
    obtain ⟨rfl, rfl⟩ := Prod.mk.inj hSame
    exact ⟨count, hMem, hLt⟩
  · rintro ⟨count, hMem, hLt⟩
    exact ⟨(provider, count), hMem, index, hLt, rfl⟩

theorem nodup_places (hDistinct : (counts.map (·.1)).Nodup) : (places counts).Nodup := by
  refine List.nodup_flatMap.mpr ⟨fun entry _ => ?_, (List.pairwise_map.mp hDistinct).imp ?_⟩
  · exact List.nodup_range.map fun _ _ h => (Prod.mk.inj h).2
  · intro entry entry' hNe place hPlace hPlace'
    obtain ⟨_, -, rfl⟩ := List.mem_map.mp hPlace
    obtain ⟨_, -, hSame⟩ := List.mem_map.mp hPlace'
    exact hNe (Prod.mk.inj hSame).1.symm

theorem locate_eq (counts : List (Address × UInt64)) (pos : UInt64) :
    (locate counts pos).map (fun place => (place.1, place.2.toNat)) =
      (places counts)[pos.toNat]? := by
  induction counts generalizing pos with
  | nil => rfl
  | cons entry rest ih =>
    obtain ⟨provider, count⟩ := entry
    have hPlaces : places ((provider, count) :: rest) =
        (List.range count.toNat).map (provider, ·) ++ places rest := rfl
    have hLength : ((List.range count.toNat).map (provider, ·)).length = count.toNat := by simp
    unfold locate
    rw [hPlaces]
    by_cases hHere : pos < count
    · have hLt := UInt64.lt_iff_toNat_lt.mp hHere
      rw [if_pos hHere, List.getElem?_append_left (by rw [hLength]; exact hLt)]
      simp [hLt]
    · have hLe := UInt64.not_lt.mp hHere
      rw [if_neg hHere, ih, UInt64.toNat_sub_of_le _ _ hLe,
        List.getElem?_append_right (by rw [hLength]; exact UInt64.le_iff_toNat_le.mp hLe), hLength]

theorem toNat_totalOf (counts : List (Address × UInt64)) :
    (totalOf counts).toNat = numberOf counts % 2 ^ 64 := by
  have hFrom : ∀ total : UInt64, (counts.foldl (fun total entry => total + entry.2) total).toNat =
      (total.toNat + numberOf counts) % 2 ^ 64 := by
    induction counts with
    | nil => exact fun total => (Nat.mod_eq_of_lt total.toNat_lt).symm
    | cons entry rest ih =>
      intro total
      have hNumber : numberOf (entry :: rest) = entry.2.toNat + numberOf rest := by simp [numberOf]
      rw [List.foldl_cons, ih, UInt64.toNat_add, Nat.mod_add_mod, hNumber, Nat.add_assoc]
  rw [totalOf, hFrom, UInt64.toNat_zero, Nat.zero_add]

theorem toNat_totalOf_le (counts : List (Address × UInt64)) :
    (totalOf counts).toNat ≤ numberOf counts := by
  rw [toNat_totalOf]
  exact Nat.mod_le _ _

theorem toNat_mod_totalOf_lt (hTotal : totalOf counts ≠ 0) (pos : UInt64) :
    (pos % totalOf counts).toNat < numberOf counts := by
  have hPos : (totalOf counts).toNat ≠ 0 := fun hZero => hTotal (UInt64.toNat_inj.mp hZero)
  rw [UInt64.toNat_mod]
  exact (Nat.mod_lt _ (Nat.pos_of_ne_zero hPos)).trans_le (toNat_totalOf_le counts)

theorem exists_locate (h : pos.toNat < numberOf counts) : ∃ provider index,
    locate counts pos = some (provider, index) ∧ (provider, index.toNat) ∈ places counts := by
  rw [← length_places] at h
  have hLocate := (locate_eq counts pos).trans (List.getElem?_eq_getElem h)
  obtain ⟨⟨provider, index⟩, hPlace, hSame⟩ := Option.map_eq_some_iff.mp hLocate
  exact ⟨provider, index, hPlace, hSame ▸ List.getElem_mem _⟩

theorem locate_inj (hDistinct : (counts.map (·.1)).Nodup) (h : pos.toNat < numberOf counts)
    (hSame : locate counts pos = locate counts pos') : pos = pos' := by
  have hPlaces : (places counts)[pos.toNat]? = (places counts)[pos'.toNat]? := by
    rw [← locate_eq, ← locate_eq, hSame]
  rw [← length_places] at h
  exact UInt64.toNat_inj.mp ((List.getElem?_inj h (nodup_places hDistinct)).mp hPlaces)

end Locate

section Reads

/-- The places whose agreements were read. -/
def reads (tr : List (Action Unit Op)) : List (Address × Nat) :=
  tr.filterMap fun e => match e.op with
    | .getAgreementAt provider index => some (provider, index)
    | _ => none

theorem reads_append (tr tr' : List (Action Unit Op)) :
    reads (tr ++ tr') = reads tr ++ reads tr' := List.filterMap_append

/-- The answers where the counts that can be read are `counts`, and everything else is any. -/
def CountsAre (counts : Address → Option UInt64) (_ : Unit) (o : Op) (r : Res o) (_ : Unit) :
    Prop :=
  match o, r with
  | .getAgreementCount provider, r =>
    r.toOption.filter (· ≤ maxU64) = (counts provider).map UInt64.toNat
  | _, _ => True

/-- A run of the sweeper's own code where the counts are so. -/
abbrev RunsOver {α : Type} (counts : Address → Option UInt64) (p : EscrowAct α)
    (tr : List (Action Unit Op)) (out : Option α) : Prop :=
  p.Runs (CountsAre counts) (fun _ _ => True) () tr out ()

theorem RunsOver.and_then {α β : Type} {counts : Address → Option UInt64} {p : EscrowAct α}
    {f : α → EscrowAct β} {tr tr' : List (Action Unit Op)} {a : α} {out : Option β}
    (h : RunsOver counts p tr (some a)) (h' : RunsOver counts (f a) tr' out) :
    RunsOver counts (p >>= f) (tr ++ tr') out := Prog.Runs.bind (fun _ _ _ _ _ => trivial) h h'

/-- The counts of the providers that can be read. -/
def readable (counts : Address → Option UInt64) (providers : List Address) :
    List (Address × UInt64) :=
  providers.filterMap fun provider => (counts provider).map fun count => (provider, count)

theorem nodup_readable {counts : Address → Option UInt64} {providers : List Address}
    (h : providers.Nodup) : ((readable counts providers).map (·.1)).Nodup := by
  have hSub : ((readable counts providers).map (·.1)).Sublist providers := by
    induction providers with
    | nil => exact List.Sublist.slnil
    | cons provider rest ih =>
      have hRest := ih (List.nodup_cons.mp h).2
      unfold readable
      cases hCount : counts provider with
      | none =>
        rw [List.filterMap_cons_none (by rw [hCount]; rfl)]
        exact hRest.cons _
      | some count =>
        rw [List.filterMap_cons_some (by rw [hCount]; rfl)]
        exact hRest.cons_cons _
  exact h.sublist hSub

variable {counts : Address → Option UInt64} {tr : List (Action Unit Op)}

theorem runs_trackedAgreementCount {provider : Address}
    {r : Except AlloyClient.ClientError UInt64}
    (run : RunsOver counts (trackedAgreementCount provider) tr (some r)) :
    r.toOption = counts provider ∧ reads tr = [] := by
  obtain ⟨r', tr1, tr2, _, run1, run2, rfl⟩ := Prog.runs_bind (fun _ => trivial) run
  obtain ⟨_, _, -, hAnswer, -, rfl⟩ := Prog.runs_perform run1
  rw [reads_append]
  change r'.toOption.filter (· ≤ maxU64) = (counts provider).map UInt64.toNat at hAnswer
  have hCount : counts provider =
      (r'.toOption.filter (· ≤ maxU64)).map UInt64.ofNat := by
    rw [hAnswer, Option.map_map]
    cases counts provider <;> simp
  cases r' with
  | error e =>
    obtain ⟨rfl, rfl, -⟩ := Prog.runs_pure run2
    exact ⟨hCount.symm, rfl⟩
  | ok count =>
    obtain ⟨rfl, rfl, -⟩ := Prog.runs_pure run2
    refine ⟨?_, rfl⟩
    rw [hCount, countOf]
    by_cases hFits : count ≤ maxU64
    · simp [hFits, Except.toOption, Option.filter, Except.map]
    · simp [hFits, Except.toOption, Option.filter, Except.map]

theorem runs_readCounts {providers : List Address} {out : List (Address × UInt64)}
    (run : RunsOver counts (readCounts providers) tr (some out)) :
    out = readable counts providers ∧ reads tr = [] := by
  induction providers generalizing out tr with
  | nil =>
    obtain ⟨rfl, rfl, -⟩ := Prog.runs_pure run
    exact ⟨rfl, rfl⟩
  | cons provider rest ih =>
    obtain ⟨r, tr1, tr2, _, run1, run2, rfl⟩ := Prog.runs_bind (fun _ => trivial) run
    obtain ⟨hCount, hReads1⟩ := runs_trackedAgreementCount run1
    rw [reads_append, hReads1]
    cases r with
    | error e =>
      obtain ⟨rfl, hReads2⟩ := ih run2
      refine ⟨?_, hReads2⟩
      unfold readable
      rw [List.filterMap_cons_none (by rw [← hCount]; rfl)]
    | ok count =>
      obtain ⟨out', tr3, tr4, _, run3, run4, rfl⟩ := Prog.runs_bind (fun _ => trivial) run2
      obtain ⟨rfl, hReads3⟩ := ih run3
      obtain ⟨rfl, rfl, -⟩ := Prog.runs_pure run4
      refine ⟨?_, by rw [reads_append, hReads3]; rfl⟩
      unfold readable
      rw [List.filterMap_cons_some (by rw [← hCount]; rfl)]

/-- What checking positions comes to: `number` places one after another, from the one `checked`
after `start` on, and ended agreements that are distinct and no more than may be released.  Fewer
than `remaining` are checked only once that many have been found. -/
structure ChecksInTurn (entries : List (Address × UInt64)) (start : UInt64) (maxEnded : Option Nat)
    (remaining : Nat) (checked : UInt64) (tr : List (Action Unit Op)) (ended : List AgreementId)
    (number : Nat) : Prop where
  most : number ≤ remaining
  reads : (reads tr).map some = (List.range number).map fun i =>
    (places entries)[((start + (checked + UInt64.ofNat i)) % totalOf entries).toNat]?
  distinct : ended.Nodup
  released : ∀ limit ∈ maxEnded, ended.length ≤ limit
  early : number < remaining → ∃ limit ∈ maxEnded, ended.length = limit

structure FoundSoFar (maxEnded : Option Nat) (ended : List AgreementId)
    (seen : Finset AgreementId) : Prop where
  distinct : ended.Nodup
  seen : ∀ id ∈ ended, id ∈ seen
  released : ∀ limit ∈ maxEnded, ended.length ≤ limit

theorem FoundSoFar.saw {maxEnded : Option Nat} {ended : List AgreementId}
    {seen : Finset AgreementId} (h : FoundSoFar maxEnded ended seen) (id : AgreementId) :
    FoundSoFar maxEnded ended (insert id seen) where
  distinct := h.distinct
  seen id' hMem := Finset.mem_insert_of_mem (h.seen id' hMem)
  released := h.released

theorem FoundSoFar.found {maxEnded : Option Nat} {ended : List AgreementId}
    {seen : Finset AgreementId} (h : FoundSoFar maxEnded ended seen) {id : AgreementId}
    (hNew : id ∉ seen) (hRoom : ¬ maxEnded.any (fun limit => limit ≤ ended.length) = true) :
    FoundSoFar maxEnded (ended ++ [id]) (insert id seen) where
  distinct := by
    refine List.Nodup.append h.distinct (List.nodup_singleton id) ?_
    intro id' hOld hId
    obtain rfl := List.mem_singleton.mp hId
    exact hNew (h.seen id' hOld)
  seen id' hMem := by
    rcases List.mem_append.mp hMem with hOld | hId
    · exact Finset.mem_insert_of_mem (h.seen id' hOld)
    · obtain rfl := List.mem_singleton.mp hId
      exact Finset.mem_insert_self _ _
  released limit hLimit := by
    obtain rfl := Option.mem_def.mp hLimit
    simp only [Option.any_some, decide_eq_true_eq] at hRoom
    rw [List.length_append, List.length_singleton]
    omega

theorem add_ofNat_succ (checked : UInt64) (i : Nat) :
    checked + UInt64.ofNat (i + 1) = checked + 1 + UInt64.ofNat i := by
  rw [Nat.add_comm i, UInt64.ofNat_add, UInt64.add_assoc]
  rfl

theorem ChecksInTurn.cons {entries : List (Address × UInt64)} {start checked : UInt64}
    {remaining number : Nat} {maxEnded : Option Nat} {tr tr' : List (Action Unit Op)}
    {ended : List AgreementId} {provider : Address} {index : UInt64}
    (hPlace : locate entries ((start + checked) % totalOf entries) = some (provider, index))
    (hReads : Escrow.reads tr' = (provider, index.toNat) :: Escrow.reads tr)
    (h : ChecksInTurn entries start maxEnded remaining (checked + 1) tr ended number) :
    ChecksInTurn entries start maxEnded (remaining + 1) checked tr' ended (number + 1) where
  most := Nat.succ_le_succ h.most
  reads := by
    have hFirst : some (provider, index.toNat) =
        (places entries)[((start + (checked + UInt64.ofNat 0)) % totalOf entries).toNat]? := by
      rw [← locate_eq, show UInt64.ofNat 0 = 0 from rfl, UInt64.add_zero, hPlace]
      rfl
    rw [hReads, List.map_cons, h.reads, List.range_succ_eq_map, List.map_cons, List.map_map, hFirst]
    refine congrArg _ (List.map_congr_left fun i _ => ?_)
    simp only [Function.comp_apply, add_ofNat_succ]
  distinct := h.distinct
  released := h.released
  early hEarly := h.early (by omega)

/-- The loop over the positions, by induction on how many are left: whatever is read of each, the
next one follows. -/
theorem runs_checkPositions {entries : List (Address × UInt64)} {start : UInt64}
    {maxEnded : Option Nat} (hTotal : totalOf entries ≠ 0) (remaining : Nat) {checked : UInt64}
    {ended : List AgreementId} {seen : Finset AgreementId}
    {out : Option (List AgreementId × UInt64)} (hFound : FoundSoFar maxEnded ended seen)
    (run : RunsOver counts (checkPositions entries (totalOf entries) start maxEnded remaining
      checked ended seen) tr (some out)) :
    ∃ ended' number, out = some (ended', checked + UInt64.ofNat number) ∧
      ChecksInTurn entries start maxEnded remaining checked tr ended' number := by
  induction remaining generalizing checked ended seen tr with
  | zero =>
    obtain ⟨rfl, rfl, -⟩ := Prog.runs_pure run
    exact ⟨ended, 0, by simp, le_refl _, rfl, hFound.distinct, hFound.released,
      fun h => absurd h (by omega)⟩
  | succ remaining ih =>
    unfold checkPositions at run
    split at run
    · rename_i hFull
      obtain ⟨rfl, rfl, -⟩ := Prog.runs_pure run
      refine ⟨ended, 0, by simp, Nat.zero_le _, rfl, hFound.distinct, hFound.released, fun _ => ?_⟩
      obtain ⟨limit, hLimit, hLe⟩ := (Option.any_eq_true _ _).mp hFull
      have hMost := hFound.released limit hLimit
      exact ⟨limit, hLimit, le_antisymm hMost (of_decide_eq_true hLe)⟩
    · rename_i hRoom
      obtain ⟨provider, index, hPlace, -⟩ := exists_locate
        (toNat_mod_totalOf_lt hTotal (start + checked))
      rw [hPlace] at run
      obtain ⟨r, tr1, tr2, _, run1, run2, rfl⟩ := Prog.runs_bind (fun _ => trivial) run
      obtain ⟨s1, s2, -, -, -, rfl⟩ := Prog.runs_perform run1
      -- However the entry reads, the loop goes on with the next position.
      have hNext : ∀ {ended' : List AgreementId} {seen' : Finset AgreementId}
          {tr3 : List (Action Unit Op)}, FoundSoFar maxEnded ended' seen' → reads tr2 = reads tr3 →
          RunsOver counts (checkPositions entries (totalOf entries) start maxEnded remaining
            (checked + 1) ended' seen') tr3 (some out) →
          ∃ ended'' number, out = some (ended'', checked + UInt64.ofNat number) ∧
            ChecksInTurn entries start maxEnded (remaining + 1) checked
              ([⟨s1, .getAgreementAt provider index.toNat, s2⟩] ++ tr2) ended'' number := by
        intro ended' seen' tr3 hFound' hReads run3
        obtain ⟨ended'', number, hOut, hChecks⟩ := ih hFound' run3
        refine ⟨ended'', number + 1, by rw [hOut, add_ofNat_succ], hChecks.cons hPlace ?_⟩
        rw [← hReads]
        exact reads_append _ tr2
      cases r with
      | error e => exact hNext hFound rfl run2
      | ok id =>
        dsimp only at run2
        split at run2
        · exact hNext hFound rfl run2
        · rename_i hNew
          obtain ⟨claim, tr3, tr4, _, run3, run4, rfl⟩ := Prog.runs_bind (fun _ => trivial) run2
          obtain ⟨s3, s4, -, -, -, rfl⟩ := Prog.runs_perform run3
          have hReads : reads ([⟨s3, .getMaxNextClaim id, s4⟩] ++ tr4) = reads tr4 :=
            reads_append _ tr4
          cases claim with
          | error e => exact hNext (hFound.saw id) hReads run4
          | ok claim =>
            dsimp only at run4
            split at run4
            · exact hNext (hFound.found hNew hRoom) hReads run4
            · exact hNext (hFound.saw id) hReads run4

/-- The position checked `i` after the cursor. -/
def turn (total cursor : UInt64) (i : Nat) : UInt64 := (cursor % total + UInt64.ofNat i) % total

/-- What a sweep checks: places one after another from its cursor on, past which the next sweep
goes on. -/
structure Scanned (entries : List (Address × UInt64)) (limit : UInt64) (maxEnded : Option Nat)
    (cursor : UInt64) (tr : List (Action Unit Op)) (ended : List AgreementId) (cursor' : UInt64) :
    Prop where
  reads : (reads tr).map some = (List.range (reads tr).length).map fun i =>
    (places entries)[(turn (totalOf entries) cursor i).toNat]?
  next : cursor' % totalOf entries = turn (totalOf entries) cursor (Escrow.reads tr).length
  most : (Escrow.reads tr).length ≤ min limit.toNat (totalOf entries).toNat
  distinct : ended.Nodup
  released : ∀ limit ∈ maxEnded, ended.length ≤ limit
  early : (Escrow.reads tr).length < min limit.toNat (totalOf entries).toNat →
    ∃ limit ∈ maxEnded, ended.length = limit

theorem mod_mod_self (a total : UInt64) : a % total % total = a % total := by
  apply UInt64.toNat_inj.mp
  simp only [UInt64.toNat_mod, Nat.mod_mod]

theorem runs_endedAgreements {providers : List Address} {cursor limit : UInt64}
    {maxEnded : Option Nat} {out : Option (List AgreementId × UInt64)}
    (run : RunsOver counts (endedAgreements providers cursor limit maxEnded) tr (some out)) :
    ∃ ended cursor', out = some (ended, cursor') ∧
      Scanned (readable counts providers) limit maxEnded cursor tr ended cursor' := by
  obtain ⟨entries, tr1, tr2, _, run1, run2, rfl⟩ := Prog.runs_bind (fun _ => trivial) run
  obtain ⟨rfl, hReads1⟩ := runs_readCounts run1
  have hReads : reads (tr1 ++ tr2) = reads tr2 := by rw [reads_append, hReads1]; rfl
  dsimp only at run2
  by_cases hNothing : totalOf (readable counts providers) = 0 ∨ limit = 0
  · rw [if_pos hNothing] at run2
    obtain ⟨rfl, rfl, -⟩ := Prog.runs_pure run2
    have hNone : reads (tr1 ++ []) = [] := hReads
    refine ⟨[], cursor, rfl, by rw [hNone]; rfl, ?_, by rw [hNone]; exact Nat.zero_le _,
      List.nodup_nil, fun _ _ => Nat.zero_le _, fun hEarly => ?_⟩
    · rw [hNone]
      simp [turn, mod_mod_self]
    · rw [hNone] at hEarly
      rcases hNothing with h | h <;> simp [h] at hEarly
  · rw [if_neg hNothing] at run2
    obtain ⟨found, tr3, tr4, _, run3, run4, rfl⟩ := Prog.runs_bind (fun _ => trivial) run2
    have hStart : FoundSoFar maxEnded [] ∅ := ⟨List.nodup_nil, nofun, fun _ _ => Nat.zero_le _⟩
    obtain ⟨ended, number, rfl, hChecks⟩ :=
      runs_checkPositions (fun h => hNothing (.inl h)) _ hStart run3
    obtain ⟨rfl, rfl, -⟩ := Prog.runs_pure run4
    rw [List.append_nil] at hReads ⊢
    have hLength : (reads (tr1 ++ tr3)).length = number := by
      rw [hReads]
      have := congrArg List.length hChecks.reads
      simpa using this
    have hMin := UInt64.toNat_min limit (totalOf (readable counts providers))
    refine ⟨ended, _, rfl, ?_, ?_, ?_, hChecks.distinct, hChecks.released, ?_⟩
    · rw [hLength, hReads, hChecks.reads]
      simp only [turn, UInt64.zero_add]
    · rw [hLength, mod_mod_self, UInt64.zero_add, turn]
    · rw [hLength, ← hMin]
      exact hChecks.most
    · rw [hLength, ← hMin]
      exact hChecks.early

/-- Sweeps one after another over the same counts, with the places each checked. -/
inductive Scans (counts : Address → Option UInt64) (providers : List Address) (limit : UInt64)
    (maxEnded : Option Nat) : UInt64 → List (List (Address × Nat)) → UInt64 → Prop
  | done {cursor : UInt64} : Scans counts providers limit maxEnded cursor [] cursor
  | next {cursor cursor1 cursor' : UInt64} {tr : List (Action Unit Op)} {ended : List AgreementId}
      {checks : List (List (Address × Nat))} :
      RunsOver counts (endedAgreements providers cursor limit maxEnded) tr
        (some (some (ended, cursor1))) →
      Scans counts providers limit maxEnded cursor1 checks cursor' →
      Scans counts providers limit maxEnded cursor (reads tr :: checks) cursor'

/-- The scan goes round the agreements: from any cursor, the places that sweeps over the same
counts check follow one another, and start again after the last; a sweep makes all the checks it
may, unless it finds as many ended agreements as may be released; and sweeps that make all of them
get to every agreement in as many as it takes. -/
structure GoesRound (counts : Address → Option UInt64) (providers : List Address) (limit : UInt64)
    (maxEnded : Option Nat) : Prop where
  consecutive : ∀ cursor checks cursor',
    Scans counts providers limit maxEnded cursor checks cursor' →
    checks.flatten.map some = (List.range checks.flatten.length).map fun i =>
      (places (readable counts providers))[
        (cursor.toNat + i) % numberOf (readable counts providers)]?
  full : ∀ cursor tr ended cursor',
    RunsOver counts (endedAgreements providers cursor limit maxEnded) tr
      (some (some (ended, cursor'))) →
    (reads tr).length < min limit.toNat (numberOf (readable counts providers)) →
    ∃ most ∈ maxEnded, ended.length = most
  covers : ∀ cursor checks cursor', Scans counts providers limit maxEnded cursor checks cursor' →
    limit ≠ 0 →
    (∀ check ∈ checks, check.length = min limit.toNat (numberOf (readable counts providers))) →
    checks.length = (numberOf (readable counts providers) + limit.toNat - 1) / limit.toNat →
    ∀ place ∈ places (readable counts providers), place ∈ checks.flatten

section Fits

variable {providers : List Address} {entries : List (Address × UInt64)}
  {limit cursor cursor' : UInt64} {maxEnded : Option Nat} {checks : List (List (Address × Nat))}

/-- The sums of a sweep fit: the number of agreements, and the last position with those checked
after it. -/
def SumsFit (entries : List (Address × UInt64)) (limit : UInt64) : Prop :=
  numberOf entries + min limit.toNat (numberOf entries) ≤ 2 ^ 64

theorem SumsFit.total (h : SumsFit entries limit) (hLimit : limit ≠ 0) :
    (totalOf entries).toNat = numberOf entries := by
  have hPos : limit.toNat ≠ 0 := fun hZero => hLimit (UInt64.toNat_inj.mp hZero)
  rw [toNat_totalOf]
  unfold SumsFit at h
  exact Nat.mod_eq_of_lt (by omega)

theorem toNat_turn {total cursor : UInt64} {i : Nat}
    (hFits : cursor.toNat % total.toNat + i < 2 ^ 64) :
    (turn total cursor i).toNat = (cursor.toNat + i) % total.toNat := by
  unfold turn
  rw [UInt64.toNat_mod, UInt64.toNat_add, UInt64.toNat_mod, UInt64.toNat_ofNat', Nat.add_mod_mod,
    Nat.mod_eq_of_lt hFits, Nat.mod_add_mod]

theorem SumsFit.turn (h : SumsFit entries limit) (hLimit : limit ≠ 0) {i : Nat}
    (hi : i ≤ min limit.toNat (totalOf entries).toNat) :
    (Escrow.turn (totalOf entries) cursor i).toNat =
      (cursor.toNat + i) % numberOf entries := by
  have hTotal := h.total hLimit
  rw [← hTotal]
  refine toNat_turn ?_
  unfold SumsFit at h
  rw [hTotal] at hi ⊢
  rcases Nat.eq_zero_or_pos (numberOf entries) with hNone | hSome
  · have := cursor.toNat_lt
    rw [hNone] at hi ⊢
    rw [Nat.mod_zero]
    omega
  · have := Nat.mod_lt cursor.toNat hSome
    omega

theorem Scans.nothing (h : Scans counts providers 0 maxEnded cursor checks cursor') :
    checks.flatten = [] := by
  induction h with
  | done => rfl
  | next run _ ih =>
    obtain ⟨_, _, -, hScanned⟩ := runs_endedAgreements run
    have hNone : (reads _).length ≤ 0 := hScanned.most.trans (Nat.min_le_left _ _)
    rw [List.flatten_cons, List.length_eq_zero_iff.mp (Nat.le_zero.mp hNone), ih]
    rfl

theorem Scans.consecutive (hFits : SumsFit (readable counts providers) limit) (hLimit : limit ≠ 0)
    (h : Scans counts providers limit maxEnded cursor checks cursor') :
    checks.flatten.map some = (List.range checks.flatten.length).map fun i =>
      (places (readable counts providers))[
        (cursor.toNat + i) % numberOf (readable counts providers)]? := by
  induction h with
  | done => rfl
  | @next cursor cursor1 cursor' tr ended checks run _ ih =>
    obtain ⟨ended', cursor1', hOut, hScanned⟩ := runs_endedAgreements run
    obtain ⟨rfl, rfl⟩ := Prod.mk.inj (Option.some.inj hOut)
    have hNext : cursor1.toNat % numberOf (readable counts providers) =
        (cursor.toNat + (reads tr).length) % numberOf (readable counts providers) := by
      rw [← hFits.turn hLimit hScanned.most, ← hScanned.next, UInt64.toNat_mod, hFits.total hLimit]
    rw [List.flatten_cons, List.map_append, List.length_append, List.range_add, List.map_append,
      hScanned.reads, ih, List.map_map]
    congr 1
    · refine List.map_congr_left fun i hi => ?_
      have hMost := hScanned.most
      rw [hFits.turn hLimit ((List.mem_range.mp hi).le.trans hMost)]
    · refine List.map_congr_left fun i _ => ?_
      simp only [Function.comp_apply]
      rw [← Nat.mod_add_mod, hNext, Nat.mod_add_mod, Nat.add_assoc]

theorem length_flatten_of_all {α : Type} {lists : List (List α)} {k : Nat}
    (h : ∀ l ∈ lists, l.length = k) : lists.flatten.length = lists.length * k := by
  induction lists with
  | nil => simp
  | cons l lists ih =>
    rw [List.flatten_cons, List.length_append, h l List.mem_cons_self,
      ih fun l' hl' => h l' (List.mem_cons_of_mem _ hl'), List.length_cons, Nat.add_mul,
      Nat.one_mul, Nat.add_comm]

theorem le_ceil_mul_min {total limit : Nat} (hLimit : 0 < limit) :
    total ≤ (total + limit - 1) / limit * min limit total := by
  rcases Nat.eq_zero_or_pos total with rfl | hTotal
  · exact Nat.zero_le _
  rcases Nat.le_total total limit with hLe | hLe
  · rw [Nat.min_eq_right hLe]
    have hOne : 1 ≤ (total + limit - 1) / limit :=
      (Nat.one_le_div_iff hLimit).mpr (by omega)
    exact Nat.le_mul_of_pos_left total hOne
  · rw [Nat.min_eq_left hLe]
    have hDiv := Nat.lt_div_mul_add (a := total + limit - 1) hLimit
    omega

theorem exists_turn (cursor : Nat) {total pos : Nat} (h : pos < total) :
    ∃ i < total, (cursor + i) % total = pos := by
  have hTotal : 0 < total := by omega
  have hStart := Nat.mod_lt cursor hTotal
  refine ⟨(pos + total - cursor % total) % total, Nat.mod_lt _ hTotal, ?_⟩
  rw [Nat.add_mod_mod, ← Nat.mod_add_mod,
    show cursor % total + (pos + total - cursor % total) = pos + total by omega,
    Nat.add_mod_right, Nat.mod_eq_of_lt h]

theorem Scans.covers (hFits : SumsFit (readable counts providers) limit) (hLimit : limit ≠ 0)
    (h : Scans counts providers limit maxEnded cursor checks cursor')
    (hFull : ∀ check ∈ checks,
      check.length = min limit.toNat (numberOf (readable counts providers)))
    (hEnough : (numberOf (readable counts providers) + limit.toNat - 1) / limit.toNat ≤
      checks.length) {place : Address × Nat} (hPlace : place ∈ places (readable counts providers)) :
    place ∈ checks.flatten := by
  have hPos : 0 < limit.toNat := Nat.pos_of_ne_zero fun hZero => hLimit (UInt64.toNat_inj.mp hZero)
  have hLength : numberOf (readable counts providers) ≤ checks.flatten.length := by
    rw [length_flatten_of_all hFull]
    exact (le_ceil_mul_min hPos).trans (Nat.mul_le_mul_right _ hEnough)
  obtain ⟨pos, hLt, rfl⟩ := List.mem_iff_getElem.mp hPlace
  rw [length_places] at hLt
  obtain ⟨i, hi, hTurn⟩ := exists_turn cursor.toNat hLt
  have hMem : some (places (readable counts providers))[pos] ∈ checks.flatten.map some := by
    rw [h.consecutive hFits hLimit]
    refine List.mem_map.mpr ⟨i, List.mem_range.mpr (by omega), ?_⟩
    rw [hTurn, List.getElem?_eq_getElem]
  obtain ⟨place', hMem', hSame⟩ := List.mem_map.mp hMem
  exact Option.some.inj hSame ▸ hMem'

theorem SumsFit.goesRound (hFits : SumsFit (readable counts providers) limit) (hLimit : limit ≠ 0) :
    GoesRound counts providers limit maxEnded where
  consecutive _ _ _ hScans := hScans.consecutive hFits hLimit
  full cursor tr ended cursor' run hEarly := by
    obtain ⟨ended', _, hOut, hScanned⟩ := runs_endedAgreements run
    obtain ⟨rfl, -⟩ := Prod.mk.inj (Option.some.inj hOut)
    rw [← hFits.total hLimit] at hEarly
    exact hScanned.early hEarly
  covers _ _ _ hScans _ hFull hSweeps _ hPlace :=
    hScans.covers hFits hLimit hFull (le_of_eq hSweeps.symm) hPlace

theorem goesRound_zero : GoesRound counts providers 0 maxEnded where
  consecutive _ _ _ hScans := by
    rw [hScans.nothing]
    rfl
  full _ _ _ _ _ hEarly := absurd hEarly (by simp)
  covers _ _ _ _ hLimit := absurd rfl hLimit

end Fits

section Wraps

variable {providers : List Address} {limit : UInt64} {maxEnded : Option Nat}

theorem exists_runs_readCounts (counts : Address → Option UInt64) (providers : List Address) :
    ∃ tr, RunsOver counts (readCounts providers) tr (some (readable counts providers)) := by
  induction providers with
  | nil => exact ⟨[], .ret trivial⟩
  | cons provider rest ih =>
    obtain ⟨tr, hRest⟩ := ih
    cases hCount : counts provider with
    | none =>
      have hReadable : readable counts (provider :: rest) = readable counts rest :=
        List.filterMap_cons_none (by rw [hCount]; rfl)
      have hAsk : RunsOver counts (trackedAgreementCount provider)
          [⟨(), .getAgreementCount provider, ()⟩] (some (.error (.rpcError ""))) := by
        refine .op (r := .error (.rpcError "")) trivial ?_ (.ret trivial)
        change none = (counts provider).map UInt64.toNat
        rw [hCount]
        rfl
      rw [hReadable]
      exact ⟨_, hAsk.and_then hRest⟩
    | some count =>
      have hReadable : readable counts (provider :: rest) =
          (provider, count) :: readable counts rest :=
        List.filterMap_cons_some (by rw [hCount]; rfl)
      have hFits : count.toNat ≤ maxU64 := Nat.le_pred_of_lt count.toNat_lt
      have hAsk : RunsOver counts (trackedAgreementCount provider)
          [⟨(), .getAgreementCount provider, ()⟩] (some (.ok count)) := by
        have hOk : (countOf "agreement" count.toNat).map UInt64.ofNat = .ok count := by
          simp [countOf, hFits, Except.map]
        refine .op (r := .ok count.toNat) trivial ?_ (hOk ▸ .ret trivial)
        change (some count.toNat).filter (· ≤ maxU64) = (counts provider).map UInt64.toNat
        simp [hCount, hFits]
      rw [hReadable]
      exact ⟨_, hAsk.and_then (hRest.and_then (.ret trivial))⟩

theorem exists_runs_checkPositions (counts : Address → Option UInt64) (maxEnded : Option Nat)
    {entries : List (Address × UInt64)} (start : UInt64) (hTotal : totalOf entries ≠ 0)
    (remaining : Nat) (checked : UInt64) :
    ∃ tr checked', RunsOver counts (checkPositions entries (totalOf entries) start maxEnded
      remaining checked [] ∅) tr (some (some ([], checked'))) := by
  induction remaining generalizing checked with
  | zero => exact ⟨[], checked, .ret trivial⟩
  | succ remaining ih =>
    unfold checkPositions
    split
    · exact ⟨[], checked, .ret trivial⟩
    · obtain ⟨provider, index, hPlace, -⟩ := exists_locate
        (toNat_mod_totalOf_lt hTotal (start + checked))
      rw [hPlace]
      obtain ⟨tr, checked', hRest⟩ := ih (checked + 1)
      have hRead : RunsOver counts (call (.getAgreementAt provider index.toNat))
          [⟨(), .getAgreementAt provider index.toNat, ()⟩] (some (.error (.rpcError ""))) :=
        .op trivial trivial (.ret trivial)
      exact ⟨_, checked', hRead.and_then hRest⟩

theorem exists_scan (counts : Address → Option UInt64) (providers : List Address)
    (cursor limit : UInt64) (maxEnded : Option Nat) : ∃ tr cursor',
      RunsOver counts (endedAgreements providers cursor limit maxEnded) tr
        (some (some ([], cursor'))) := by
  obtain ⟨tr1, hCounts⟩ := exists_runs_readCounts counts providers
  by_cases hNothing : totalOf (readable counts providers) = 0 ∨ limit = 0
  · refine ⟨tr1 ++ [], cursor, hCounts.and_then ?_⟩
    dsimp only
    rw [if_pos hNothing]
    exact .ret trivial
  · obtain ⟨tr2, checked, hChecks⟩ := exists_runs_checkPositions counts maxEnded
      (cursor % totalOf (readable counts providers)) (fun h => hNothing (.inl h))
      (min limit (totalOf (readable counts providers))).toNat 0
    refine ⟨tr1 ++ (tr2 ++ []), (cursor % totalOf (readable counts providers) + checked) %
      totalOf (readable counts providers), hCounts.and_then ?_⟩
    dsimp only
    rw [if_neg hNothing]
    exact hChecks.and_then (.ret trivial)

theorem sweepBudget_ne_zero (batchSize : Int) : sweepBudget batchSize ≠ some 0 := by
  unfold sweepBudget
  split
  · intro h
    have := Option.some.inj h
    omega
  · exact nofun

/-- A sweep after which the scan goes on where it should: the turn it comes to, computed in words,
is the one counted from the cursor. -/
theorem GoesRound.turn_eq (h : GoesRound counts providers limit maxEnded)
    (hDistinct : providers.Nodup) (hLimit : limit ≠ 0) (hBudget : maxEnded ≠ some 0)
    (cursor : UInt64) (hTotal : totalOf (readable counts providers) ≠ 0) :
    (turn (totalOf (readable counts providers)) cursor
      (min limit.toNat (totalOf (readable counts providers)).toNat)).toNat =
    (cursor.toNat + min limit.toNat (totalOf (readable counts providers)).toNat) %
      numberOf (readable counts providers) := by
  generalize hEntries : readable counts providers = entries at *
  -- Two sweeps that find nothing; neither stops early, so the second begins with that turn.
  have hAll : ∀ {cursor cursor' : UInt64} {tr : List (Action Unit Op)},
      Scanned entries limit maxEnded cursor tr [] cursor' →
      (reads tr).length = min limit.toNat (totalOf entries).toNat := by
    intro cursor cursor' tr hScanned
    refine le_antisymm hScanned.most (Nat.le_of_not_lt fun hEarly => ?_)
    obtain ⟨most, hMost, hZero⟩ := hScanned.early hEarly
    exact hBudget (by rw [Option.mem_def.mp hMost, ← hZero]; rfl)
  obtain ⟨tr1, cursor1, run1⟩ := exists_scan counts providers cursor limit maxEnded
  obtain ⟨tr2, cursor2, run2⟩ := exists_scan counts providers cursor1 limit maxEnded
  obtain ⟨_, _, hOut1, hScanned1⟩ := runs_endedAgreements run1
  obtain ⟨rfl, rfl⟩ := Prod.mk.inj (Option.some.inj hOut1)
  obtain ⟨_, _, hOut2, hScanned2⟩ := runs_endedAgreements run2
  obtain ⟨rfl, rfl⟩ := Prod.mk.inj (Option.some.inj hOut2)
  rw [hEntries] at hScanned1 hScanned2
  have hPos : 0 < min limit.toNat (totalOf entries).toNat := by
    have h1 : limit.toNat ≠ 0 := fun hZero => hLimit (UInt64.toNat_inj.mp hZero)
    have h2 : (totalOf entries).toNat ≠ 0 := fun hZero => hTotal (UInt64.toNat_inj.mp hZero)
    omega
  have hConsecutive := h.consecutive _ _ _ (.next run1 (.next run2 .done))
  have hLength1 := hAll hScanned1
  have hLength2 := hAll hScanned2
  have hAt := congrArg (fun l => l[(reads tr1).length]?) hConsecutive
  have hLt : (turn (totalOf entries) cursor1 0).toNat < numberOf entries :=
    toNat_mod_totalOf_lt hTotal _
  have hFirst2 : ((reads tr2).map some)[0]? =
      some (places entries)[(turn (totalOf entries) cursor1 0).toNat]? := by
    rw [hScanned2.reads, List.getElem?_map, List.getElem?_range (by omega)]
    rfl
  rw [List.flatten_cons, List.flatten_cons, List.flatten_nil, List.append_nil, List.map_append,
    List.getElem?_append_right (by simp), List.length_map, Nat.sub_self, hFirst2,
    List.getElem?_map, List.getElem?_range (by rw [List.length_append]; omega), hEntries] at hAt
  have hSame := (List.getElem?_inj (by rw [length_places]; exact hLt)
    (nodup_places (hEntries ▸ nodup_readable hDistinct))).mp (Option.some.inj hAt)
  rw [← hLength1, ← hSame, ← hScanned1.next]
  simp only [turn, show UInt64.ofNat 0 = 0 from rfl, UInt64.add_zero, mod_mod_self]

theorem GoesRound.sumsFit (h : GoesRound counts providers limit maxEnded)
    (hDistinct : providers.Nodup) (hLimit : limit ≠ 0) (hBudget : maxEnded ≠ some 0) :
    SumsFit (readable counts providers) limit := by
  have hTurn := h.turn_eq hDistinct hLimit hBudget
  obtain ⟨tr, cursor', run⟩ := exists_scan counts providers 0 limit maxEnded
  obtain ⟨_, _, hOut, hScanned⟩ := runs_endedAgreements run
  obtain ⟨rfl, rfl⟩ := Prod.mk.inj (Option.some.inj hOut)
  have hFull := h.full _ _ _ _ run
  have hMost := hScanned.most
  unfold SumsFit
  have hWrapped := toNat_totalOf (readable counts providers)
  have hSome : limit.toNat ≠ 0 := fun hZero => hLimit (UInt64.toNat_inj.mp hZero)
  generalize hNumber : numberOf (readable counts providers) = number at *
  generalize hTotal : totalOf (readable counts providers) = total at *
  by_contra hOver
  by_cases hZero : total = 0
  · -- The number of agreements wraps to none, so that a sweep checks nothing.
    subst hZero
    obtain ⟨most, hLimited, hEnded⟩ := hFull (by simp at hMost; rw [hMost]; simp; omega)
    exact hBudget (by rw [Option.mem_def.mp hLimited, ← hEnded]; rfl)
  · -- From the last position, the turn wraps, or comes round before the agreements do.
    have hTurn := hTurn (total - 1) hZero
    have hPos : total.toNat ≠ 0 := fun h => hZero (UInt64.toNat_inj.mp h)
    have hLast : (total - 1).toNat = total.toNat - 1 :=
      UInt64.toNat_sub_of_le _ _ (UInt64.le_iff_toNat_le.mpr (Nat.one_le_iff_ne_zero.mpr hPos))
    unfold turn at hTurn
    rw [UInt64.toNat_mod, UInt64.toNat_add, UInt64.toNat_mod, UInt64.toNat_ofNat', Nat.add_mod_mod,
      hLast, Nat.mod_eq_of_lt (show total.toNat - 1 < total.toNat by omega)] at hTurn
    rcases Nat.lt_or_ge number (2 ^ 64) with hFits | hMany
    · rw [Nat.mod_eq_of_lt hFits] at hWrapped
      rw [hWrapped] at hTurn hPos
      have hLeft : (number - 1 + min limit.toNat number) % 2 ^ 64 % number =
          number - 1 + min limit.toNat number - 2 ^ 64 := by
        rw [show (number - 1 + min limit.toNat number) % 2 ^ 64 =
          number - 1 + min limit.toNat number - 2 ^ 64 by omega]
        exact Nat.mod_eq_of_lt (by omega)
      have hRight : (number - 1 + min limit.toNat number) % number =
          min limit.toNat number - 1 := by
        rw [show number - 1 + min limit.toNat number = min limit.toNat number - 1 + number by omega,
          Nat.add_mod_right]
        exact Nat.mod_eq_of_lt (by omega)
      omega
    · have hBelow : total.toNat - 1 + min limit.toNat total.toNat < number := by omega
      rw [Nat.mod_eq_of_lt hBelow] at hTurn
      have hRound := Nat.mod_lt ((total.toNat - 1 + min limit.toNat total.toNat) % 2 ^ 64)
        (Nat.pos_of_ne_zero hPos)
      omega

end Wraps

/-- The scan for ended agreements.  Each position is at a place of its own, so that the unreachable
case is never reached, and each sweep finds distinct agreements, no more than may be released.  The
scan goes round if and only if it is off, or a `u64` can hold the number of agreements together
with what is checked after the last of them. -/
theorem ended_scan_goes_round (counts : Address → Option UInt64) {providers : List Address}
    (hDistinct : providers.Nodup) (limit : UInt64) (batchSize : Int) :
    (∀ pos < totalOf (readable counts providers), ∃ provider index count,
      locate (readable counts providers) pos = some (provider, index) ∧
      (provider, count) ∈ readable counts providers ∧ index < count) ∧
    (∀ pos < totalOf (readable counts providers), ∀ pos' < totalOf (readable counts providers),
      locate (readable counts providers) pos = locate (readable counts providers) pos' →
      pos = pos') ∧
    (∀ cursor tr out, RunsOver counts (endedAgreements providers cursor limit
        (sweepBudget batchSize)) tr (some out) →
      ∃ ended cursor', out = some (ended, cursor') ∧ ended.Nodup ∧
        ∀ most ∈ sweepBudget batchSize, ended.length ≤ most) ∧
    (GoesRound counts providers limit (sweepBudget batchSize) ↔
      limit = 0 ∨ SumsFit (readable counts providers) limit) := by
  have hBelow : ∀ {pos : UInt64}, pos < totalOf (readable counts providers) →
      pos.toNat < numberOf (readable counts providers) :=
    fun h => (UInt64.lt_iff_toNat_lt.mp h).trans_le (toNat_totalOf_le _)
  refine ⟨fun pos hPos => ?_, fun pos hPos pos' _ hSame =>
    locate_inj (nodup_readable hDistinct) (hBelow hPos) hSame, fun cursor tr out run => ?_, ?_, ?_⟩
  · obtain ⟨provider, index, hLocate, hMem⟩ := exists_locate (hBelow hPos)
    obtain ⟨count, hCount, hLt⟩ := mem_places.mp hMem
    exact ⟨provider, index, count, hLocate, hCount, UInt64.lt_iff_toNat_lt.mpr hLt⟩
  · obtain ⟨ended, cursor', hOut, hScanned⟩ := runs_endedAgreements run
    exact ⟨ended, cursor', hOut, hScanned.distinct, hScanned.released⟩
  · exact fun h => or_iff_not_imp_left.mpr fun hLimit =>
      h.sumsFit hDistinct hLimit (sweepBudget_ne_zero batchSize)
  · rintro (rfl | hFits)
    · exact goesRound_zero
    · by_cases hLimit : limit = 0
      · exact hLimit ▸ goesRound_zero
      · exact hFits.goesRound hLimit

def sampleCounts (provider : Address) : Option UInt64 :=
  if provider = 1 then some 2 else if provider = 2 then some 1 else none

instance (counts : Address → Option UInt64) (s : Unit) (o : Op) (r : Res o) (s' : Unit) :
    Decidable (CountsAre counts s o r s') := by
  unfold CountsAre
  split <;> infer_instance

def countsAnswered (counts : Address → Option UInt64) (s : Unit) (o : Op)
    (answer : (o : Op) × Res o) : Option (Res o × Unit) :=
  (answered s o answer).filter fun r => CountsAre counts s o r.1 r.2

theorem Scans.played {counts : Address → Option UInt64} {limit cursor cursor' : UInt64}
    {maxEnded : Option Nat} {checks : List (List (Address × Nat))} (ended : List AgreementId)
    (answers : List ((o : Op) × Res o)) (cursor1 : UInt64)
    (hOut : ((endedAgreements [1, 2] cursor limit maxEnded).play (countsAnswered counts) ()
      answers).2.1 = some (some (ended, cursor1)))
    (hRest : Scans counts [1, 2] limit maxEnded cursor1 checks cursor') :
    Scans counts [1, 2] limit maxEnded cursor
      (reads ((endedAgreements [1, 2] cursor limit maxEnded).play (countsAnswered counts) ()
        answers).1 :: checks) cursor' := by
  have hRun : RunsOver counts (endedAgreements [1, 2] cursor limit maxEnded) _ _ :=
    Prog.runs_play (fun _ => trivial)
      (fun s o c r s' (h : countsAnswered counts s o c = some (r, s')) =>
        of_decide_eq_true (Option.filter_eq_some_iff.mp h).2)
      (endedAgreements [1, 2] cursor limit maxEnded) () answers
  rw [hOut] at hRun
  exact .next hRun hRest

/-- From cursor 7 two sweeps of two checks each go round the three agreements, the last of which
has ended; one entry cannot be read. -/
theorem scan_of_three_agreements :
    ∃ checks, Scans sampleCounts [1, 2] 2 (some 5) 7 checks 2 ∧
      checks.flatten = [(1, 1), (2, 0), (1, 0), (1, 1)] ∧ (1, 0) ∈ checks.flatten := by
  have hScans : Scans sampleCounts [1, 2] 2 (some 5) 7 _ 2 :=
    .played [20]
      [⟨.getAgreementCount 1, .ok 2⟩, ⟨.getAgreementCount 2, .ok 1⟩, ⟨.getAgreementAt 1 1, .ok 11⟩,
        ⟨.getMaxNextClaim 11, .ok 5⟩, ⟨.getAgreementAt 2 0, .ok 20⟩, ⟨.getMaxNextClaim 20, .ok 0⟩]
      0 (by decide +kernel)
      (.played []
        [⟨.getAgreementCount 1, .ok 2⟩, ⟨.getAgreementCount 2, .ok 1⟩,
          ⟨.getAgreementAt 1 0, .error (.rpcError "reverted")⟩, ⟨.getAgreementAt 1 1, .ok 11⟩,
          ⟨.getMaxNextClaim 11, .ok 5⟩]
        2 (by decide +kernel) .done)
  have hRound : GoesRound sampleCounts [1, 2] 2 (some 5) :=
    (ended_scan_goes_round sampleCounts (by decide) 2 5).2.2.2.mpr
      (.inr (by unfold SumsFit; decide +kernel))
  exact ⟨_, hScans, by decide +kernel, hRound.covers _ _ _ hScans (by decide) (by decide +kernel)
    (by decide +kernel) _ (by decide +kernel)⟩

/-- Provider 1 has as many agreements as a `u64` can count, and provider 2 has two more. -/
def manyCounts (provider : Address) : Option UInt64 :=
  if provider = 1 then some (UInt64.ofNat maxU64) else if provider = 2 then some 2 else none

/-- The counts, and the one entry that is looked at, which cannot be read. -/
def oneRead : List ((o : Op) × Res o) :=
  [⟨.getAgreementCount 1, .ok maxU64⟩, ⟨.getAgreementCount 2, .ok 2⟩,
    ⟨.getAgreementAt 1 0, .error (.rpcError "reverted")⟩]

/-- The number of agreements wraps to one, and each sweep checks the first agreement alone. -/
theorem first_agreement_checked_twice :
    Scans manyCounts [1, 2] 10 none 0 [[(1, 0)], [(1, 0)]] 0 ∧
      ¬ GoesRound manyCounts [1, 2] 10 none := by
  have hScans : Scans manyCounts [1, 2] 10 none 0 _ 0 :=
    .played [] oneRead 0 (by decide +kernel) (.played [] oneRead 0 (by decide +kernel) .done)
  refine ⟨hScans, fun h => ?_⟩
  have hSecond := congrArg (fun l => l[1]?) (h.consecutive _ _ _ hScans)
  have hTurn : (0 + 1) % numberOf (readable manyCounts [1, 2]) = 1 := by decide +kernel
  have hHere : (places (readable manyCounts [1, 2]))[1]? = some (1, 1) :=
    (locate_eq _ 1).symm.trans (by decide +kernel)
  change some (some (1, 0)) = some (places _)[(0 + 1) % numberOf _]? at hSecond
  rw [hTurn, hHere] at hSecond
  exact absurd hSecond (by decide)

end Reads

end Escrow

end Dipper
