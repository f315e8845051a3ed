import Dipper.Listing
import Dipper.Subgraph
import Mathlib.Data.Finmap
import Mathlib.Data.String.Basic

/-! The cache of entity counts, which a background service refreshes from the subgraph page by page.
A page that cannot be read ends the loop with what was gathered before it. -/

namespace Dipper

namespace EntityCounts

open Listing

structure LatestEntity where
  id : String
  indexer : String
  subgraphDeploymentId : String
  entities : String
  deriving DecidableEq, Repr

abbrev EntityCountKey : Type := IndexerId × DeploymentId

abbrev EntityCountCache : Type := Finmap fun _ : EntityCountKey => Nat

structure PageResponse where
  data : Option (List LatestEntity)
  errors : Option (List String)
  deriving DecidableEq, Repr

/-- What comes of a request: no response, or one with a status and a body that decodes or not. -/
inductive Reply : Type
  | unreachable
  | response (status : Nat) (body : Option PageResponse)
  deriving DecidableEq, Repr

inductive FetchError : Type
  | query
  | status (status : Nat)
  | decode
  deriving DecidableEq, Repr

def fetchPage : Reply → Except FetchError PageResponse
  | .unreachable => .error .query
  | .response status body =>
    if 200 ≤ status ∧ status < 300 then
      match body with
      | some json => .ok json
      | none => .error .decode
    else .error (.status status)

def pageSize : Nat := 1000

-- The deployment id's own parser, of an IPFS hash or of hex digits.
variable (parseDeployment : String → Option DeploymentId)

/-- An entry with a field that does not parse is skipped. -/
def parseEntityEntry (entry : LatestEntity) : Option (EntityCountKey × Nat) := do
  let indexerId ← parseAddress entry.indexer
  let deploymentId ← parseDeployment entry.subgraphDeploymentId
  let entities ← parseU64 entry.entities
  return ((indexerId, deploymentId), entities)

/-- The cursor passes an entry whether it parses or not. -/
def readEntry (s : String × EntityCountCache) (entry : LatestEntity) : String × EntityCountCache :=
  (entry.id,
    match parseEntityEntry parseDeployment entry with
    | some (key, entities) => s.2.insert key entities
    | none => s.2)

/-- The loop of `fetchAllEntityCounts`, where `serve` gives what comes of a request by its number
and its cursor. -/
def fetchFrom (serve : Nat → String → Reply) :
    Nat → Nat → String × EntityCountCache → Option EntityCountCache
  | 0, _, _ => none
  | fuel + 1, request, (lastId, result) =>
    match fetchPage (serve request lastId) with
    | .error _ => some result
    | .ok json =>
      match json.data with
      | none => some result
      | some page =>
        let s := page.foldl (readEntry parseDeployment) (lastId, result)
        if page.length < pageSize then some s.2 else fetchFrom serve fuel (request + 1) s

def fetchAllEntityCounts (fuel : Nat) (serve : Nat → String → Reply) : Option EntityCountCache :=
  fetchFrom parseDeployment serve fuel 0 ("", ∅)

/-- Nothing gathered keeps the cache. -/
def replaceCounts (cache counts : EntityCountCache) : EntityCountCache :=
  if counts = ∅ then cache else counts

def refreshCache (fuel : Nat) (serve : Nat → String → Reply) (cache : EntityCountCache) :
    Option EntityCountCache :=
  (fetchAllEntityCounts parseDeployment fuel serve).map (replaceCounts cache)

/-- The entities of the subgraph, in the order of their ids. -/
structure Entities where
  rows : List LatestEntity
  sorted : rows.Pairwise fun a b => a.id < b.id

namespace Entities

/-- What the paginated query lists from its first cursor on. -/
def listing (g : Entities) : List LatestEntity := above LatestEntity.id g.rows ""

def page (g : Entities) (lastId : String) : List LatestEntity :=
  (above LatestEntity.id g.rows lastId).take pageSize

/-- The number of the last request that a refresh makes. -/
def lastRequest (g : Entities) : Nat := g.listing.length / pageSize

/-- The loop's cursor and result after so many pages. -/
def stateAt (g : Entities) (pages : Nat) : String × EntityCountCache :=
  (g.listing.take (pageSize * pages)).foldl (readEntry parseDeployment) ("", ∅)

def gathered (g : Entities) (pages : Nat) : EntityCountCache := (g.stateAt parseDeployment pages).2

/-- The parsable entries of the whole listing. -/
def whole (g : Entities) : EntityCountCache :=
  (g.listing.foldl (readEntry parseDeployment) ("", ∅)).2

end Entities

def received (reply : Reply) : Option (List LatestEntity) :=
  match fetchPage reply with
  | .error _ => none
  | .ok json => json.data

/-- The replies of a subgraph that does not change: a page that comes is the page asked for. -/
def Serves (g : Entities) (serve : Nat → String → Reply) : Prop :=
  ∀ request lastId page, received (serve request lastId) = some page → page = g.page lastId

/-- The first request of a refresh that brings no page. -/
def Entities.firstFailure (g : Entities) (serve : Nat → String → Reply) : Option Nat :=
  (List.range (g.lastRequest + 1)).find? fun request =>
    (received (serve request (g.stateAt parseDeployment request).1)).isNone

section Loop

variable {parseDeployment} {g : Entities} {serve : Nat → String → Reply} {fuel k n : Nat}
  {cache : EntityCountCache} {s : String × EntityCountCache}

theorem fetchFrom_succ : fetchFrom parseDeployment serve (fuel + 1) k s =
    match received (serve k s.1) with
    | none => some s.2
    | some page =>
      if page.length < pageSize then some (page.foldl (readEntry parseDeployment) s).2
      else fetchFrom parseDeployment serve fuel (k + 1)
        (page.foldl (readEntry parseDeployment) s) := by
  obtain ⟨lastId, result⟩ := s
  rw [fetchFrom]
  unfold received
  cases fetchPage (serve k lastId) with
  | error e => rfl
  | ok json => cases json.data <;> rfl

namespace Entities

theorem listing_sorted : g.listing.Pairwise fun a b => a.id < b.id := g.sorted.filter _

theorem above_cursor (hLe : n ≤ g.listing.length) :
    above LatestEntity.id g.rows
      ((g.listing.take n).foldl (readEntry parseDeployment) ("", ∅)).1 = g.listing.drop n := by
  rcases List.eq_nil_or_concat' (g.listing.take n) with hNil | ⟨before, x, hTake⟩
  · have hZero : n = 0 ∨ g.listing = [] := by
      rw [List.take_eq_nil_iff] at hNil
      exact hNil
    have hDrop : g.listing.drop n = g.listing := by
      rcases hZero with rfl | hEmpty
      · rfl
      · rw [hEmpty, List.drop_nil]
    rw [hNil, hDrop]
    rfl
  · have hSplit : g.listing = before ++ x :: g.listing.drop n := by
      have hBoth := List.take_append_drop n g.listing
      rw [hTake, List.append_assoc] at hBoth
      exact hBoth.symm
    have hPast : "" < x.id := by
      have hMem : x ∈ g.listing := by
        rw [hSplit]
        exact List.mem_append_right _ List.mem_cons_self
      simpa using (List.mem_filter.mp hMem).2
    rw [hTake, List.foldl_append]
    change above LatestEntity.id g.rows x.id = _
    rw [← above_above (le_of_lt hPast)]
    change above LatestEntity.id g.listing x.id = _
    have hSorted := g.listing_sorted
    rw [hSplit] at hSorted
    rw [hSplit]
    refine (above_of_append hSorted).trans ?_
    rw [← hSplit]

theorem listing_eq_rows (h : ∀ e ∈ g.rows, "" < e.id) : g.listing = g.rows :=
  List.filter_eq_self.mpr fun e he => decide_eq_true (h e he)

theorem page_stateAt (hLe : pageSize * k ≤ g.listing.length) :
    g.page (g.stateAt parseDeployment k).1 = (g.listing.drop (pageSize * k)).take pageSize := by
  unfold page stateAt
  rw [above_cursor hLe]

theorem stateAt_succ :
    ((g.listing.drop (pageSize * k)).take pageSize).foldl (readEntry parseDeployment)
      (g.stateAt parseDeployment k) = g.stateAt parseDeployment (k + 1) := by
  unfold stateAt
  rw [← List.foldl_append, Nat.mul_add, Nat.mul_one, List.take_add]

/-- The last page that is asked for is the only one that is not full. -/
theorem length_page (hLe : k ≤ g.lastRequest) :
    pageSize * k ≤ g.listing.length ∧
      (((g.listing.drop (pageSize * k)).take pageSize).length < pageSize ↔ k = g.lastRequest) := by
  unfold lastRequest pageSize at *
  rw [List.length_take, List.length_drop]
  omega

theorem gathered_lastRequest :
    g.gathered parseDeployment (g.lastRequest + 1) = g.whole parseDeployment := by
  have hAll : g.listing.length ≤ pageSize * (g.lastRequest + 1) := by
    unfold lastRequest pageSize
    omega
  unfold gathered stateAt whole
  rw [List.take_of_length_le hAll]

end Entities

theorem fetchFrom_stateAt (hServes : Serves g serve) (hLe : k ≤ g.lastRequest) :
    fetchFrom parseDeployment serve (fuel + 1) k (g.stateAt parseDeployment k) =
      if (received (serve k (g.stateAt parseDeployment k).1)).isNone then
        some (g.gathered parseDeployment k)
      else if k = g.lastRequest then some (g.whole parseDeployment)
      else fetchFrom parseDeployment serve fuel (k + 1) (g.stateAt parseDeployment (k + 1)) := by
  obtain ⟨hBound, hShort⟩ := Entities.length_page hLe
  rw [fetchFrom_succ]
  cases hReply : received (serve k (g.stateAt parseDeployment k).1) with
  | none => rfl
  | some page =>
    have hPage := (hServes _ _ _ hReply).trans (Entities.page_stateAt hBound)
    have hNext : page.foldl (readEntry parseDeployment) (g.stateAt parseDeployment k) =
        g.stateAt parseDeployment (k + 1) := by
      rw [hPage]
      exact Entities.stateAt_succ
    simp only [hNext, Option.isNone_some, Bool.false_eq_true, if_false]
    rw [hPage]
    by_cases hEnd : k = g.lastRequest
    · rw [if_pos (hShort.mpr hEnd), if_pos hEnd, hEnd]
      exact congrArg some Entities.gathered_lastRequest
    · rw [if_neg fun h => hEnd (hShort.mp h), if_neg hEnd]

/-- The loop ends before the first page that fails, or with the whole listing. -/
theorem fetchFrom_eq (hServes : Serves g serve) (d : Nat) (hLast : k + d = g.lastRequest)
    (hFuel : d < fuel) :
    fetchFrom parseDeployment serve fuel k (g.stateAt parseDeployment k) =
      some (((List.range' k (d + 1)).find? fun request =>
        (received (serve request (g.stateAt parseDeployment request).1)).isNone).elim
          (g.whole parseDeployment) (g.gathered parseDeployment)) := by
  induction d generalizing k fuel with
  | zero =>
    obtain ⟨fuel, rfl⟩ : ∃ fuel', fuel = fuel' + 1 := ⟨fuel - 1, by omega⟩
    have hEnd : k = g.lastRequest := hLast
    rw [fetchFrom_stateAt hServes (Nat.le_of_eq hEnd), if_pos hEnd, Nat.zero_add, List.range'_one,
      List.find?_singleton]
    split <;> rfl
  | succ d ih =>
    obtain ⟨fuel, rfl⟩ : ∃ fuel', fuel = fuel' + 1 := ⟨fuel - 1, by omega⟩
    rw [fetchFrom_stateAt hServes (by omega), List.range'_succ, List.find?_cons]
    cases (received (serve k (g.stateAt parseDeployment k).1)).isNone with
    | true => rfl
    | false =>
      have hMore : k ≠ g.lastRequest := by omega
      simp only [Bool.false_eq_true, if_false, hMore]
      exact ih (by omega) (by omega)

theorem fetchAllEntityCounts_eq (hServes : Serves g serve) (hFuel : g.lastRequest < fuel) :
    fetchAllEntityCounts parseDeployment fuel serve =
      some ((g.firstFailure parseDeployment serve).elim (g.whole parseDeployment)
        (g.gathered parseDeployment)) := by
  unfold Entities.firstFailure
  rw [List.range_eq_range']
  exact fetchFrom_eq hServes g.lastRequest (Nat.zero_add _) hFuel

end Loop

/-- A refresh ends after at most as many requests as the listing has pages.  It then leaves a
partial cache exactly if a page fails and what came before it is something, but neither all that
parses nor what the cache held. -/
theorem refresh_never_partial_iff (g : Entities) (serve : Nat → String → Reply)
    (hServes : Serves g serve) (cache : EntityCountCache) (fuel : Nat)
    (hFuel : g.lastRequest < fuel) :
    ∃ cache', refreshCache parseDeployment fuel serve cache = some cache' ∧
      ((cache' = g.whole parseDeployment ∨ cache' = cache) ↔
        ∀ k, g.firstFailure parseDeployment serve = some k →
          g.gathered parseDeployment k = ∅ ∨
          g.gathered parseDeployment k = g.whole parseDeployment ∨
          g.gathered parseDeployment k = cache) := by
  unfold refreshCache
  rw [fetchAllEntityCounts_eq hServes hFuel]
  refine ⟨_, rfl, ?_⟩
  cases hFailure : g.firstFailure parseDeployment serve with
  | none =>
    refine ⟨fun _ k hk => ?_, fun _ => ?_⟩
    · cases hk
    · change replaceCounts cache (g.whole parseDeployment) = _ ∨
        replaceCounts cache (g.whole parseDeployment) = _
      unfold replaceCounts
      split
      · exact .inr rfl
      · exact .inl rfl
  | some k =>
    simp only [Option.some.injEq, forall_eq']
    change replaceCounts cache (g.gathered parseDeployment k) = _ ∨
      replaceCounts cache (g.gathered parseDeployment k) = _ ↔ _
    unfold replaceCounts
    split
    · rename_i hEmpty
      exact ⟨fun _ => .inl hEmpty, fun _ => .inr rfl⟩
    · rename_i hSome
      exact ⟨.inr, fun h => h.resolve_left hSome⟩

section Sample

def sampleDeployment : DeploymentId := "QmTXzATwNfgGVukV1fX2T6xw9f6LAYRVWpsdXyRWzUR2H9"

def sampleParse (s : String) : Option DeploymentId := if s = sampleDeployment then some s else none

/-- The first entity and entity `last` have an indexer, and those between have none that parses. -/
def sampleEntity (last n : Nat) : LatestEntity where
  id := String.ofList (List.replicate (n + 1) 'a')
  indexer :=
    if n = 0 then "0x0000000000000000000000000000000000000001"
    else if n = last then "0x0000000000000000000000000000000000000002"
    else ""
  subgraphDeploymentId := sampleDeployment
  entities := "5000"

theorem sampleEntity_lt {last m n : Nat} (h : m < n) :
    (sampleEntity last m).id < (sampleEntity last n).id := by
  have hLonger : ∀ m n : Nat, m < n → List.replicate m 'a' < List.replicate n 'a' := by
    intro m
    induction m with
    | zero =>
      intro n hLt
      obtain ⟨n, rfl⟩ : ∃ n', n = n' + 1 := ⟨n - 1, by omega⟩
      exact List.nil_lt_cons _ _
    | succ m ih =>
      intro n hLt
      obtain ⟨n, rfl⟩ : ∃ n', n = n' + 1 := ⟨n - 1, by omega⟩
      rw [List.replicate_succ, List.replicate_succ]
      exact List.cons_lt_cons_self.mpr (ih n (by omega))
  rw [String.lt_iff_toList_lt]
  simpa [sampleEntity] using hLonger (m + 1) (n + 1) (by omega)

def sampleEntities (last : Nat) : Entities where
  rows := (List.range (last + 1)).map (sampleEntity last)
  sorted := List.pairwise_map.mpr (List.pairwise_lt_range.imp sampleEntity_lt)

/-- The first page comes and the second is refused. -/
def refusedPage (g : Entities) (request : Nat) (lastId : String) : Reply :=
  if request = 0 then .response 200 (some ⟨some (g.page lastId), none⟩) else .response 429 none

theorem serves_refusedPage (g : Entities) : Serves g (refusedPage g) := by
  intro request lastId page hPage
  unfold refusedPage at hPage
  split at hPage
  · exact (Option.some.inj hPage).symm
  · cases hPage

theorem foldl_readEntry_unparsable {entries : List LatestEntity} {s : String × EntityCountCache}
    (h : ∀ e ∈ entries, parseEntityEntry parseDeployment e = none) :
    (entries.foldl (readEntry parseDeployment) s).2 = s.2 := by
  induction entries generalizing s with
  | nil => rfl
  | cons e entries ih =>
    rw [List.foldl_cons, ih fun e' he' => h e' (List.mem_cons_of_mem _ he')]
    simp only [readEntry, h e List.mem_cons_self]

variable {last : Nat}

theorem listing_sampleEntities :
    (sampleEntities last).listing = (List.range (last + 1)).map (sampleEntity last) := by
  refine Entities.listing_eq_rows fun e he => ?_
  obtain ⟨n, -, rfl⟩ := List.mem_map.mp he
  rw [String.lt_iff_toList_lt]
  simp [sampleEntity, List.replicate_succ]

def sampleFirst : EntityCountCache := (∅ : EntityCountCache).insert (1, sampleDeployment) 5000

def sampleBoth : EntityCountCache := sampleFirst.insert (2, sampleDeployment) 5000

theorem parse_sampleEntry :
    parseEntityEntry sampleParse
        ⟨"a", "0x0000000000000000000000000000000000000001", sampleDeployment, "5000"⟩ =
      some ((1, sampleDeployment), 5000) ∧
    parseEntityEntry sampleParse
        ⟨"a", "0x0000000000000000000000000000000000000002", sampleDeployment, "5000"⟩ =
      some ((2, sampleDeployment), 5000) := by
  decide +kernel

theorem foldl_sampleEntity (hLast : 0 < last) :
    (((List.range last).map (sampleEntity last)).foldl (readEntry sampleParse) ("", ∅)).2 =
      sampleFirst := by
  obtain ⟨k, rfl⟩ : ∃ k, last = k + 1 := ⟨last - 1, by omega⟩
  rw [List.range_eq_range', List.range'_succ, List.map_cons, List.foldl_cons,
    foldl_readEntry_unparsable]
  · have hParse : parseEntityEntry sampleParse (sampleEntity (k + 1) 0) =
        some ((1, sampleDeployment), 5000) := parse_sampleEntry.1
    simp only [readEntry, hParse]
    rfl
  · intro e he
    obtain ⟨n, hn, rfl⟩ := List.mem_map.mp he
    obtain ⟨hLo, hHi⟩ := List.mem_range'_1.mp hn
    have hIndexer : (sampleEntity (k + 1) n).indexer = "" := by
      simp only [sampleEntity]
      rw [if_neg (by omega), if_neg (by omega)]
    unfold parseEntityEntry
    rw [hIndexer]
    rfl

theorem gathered_sampleEntities (hLast : last = pageSize) :
    (sampleEntities last).gathered sampleParse 1 = sampleFirst := by
  have hPos : 0 < last := by
    rw [hLast]
    decide
  unfold Entities.gathered Entities.stateAt
  rw [listing_sampleEntities, Nat.mul_one, ← hLast, ← List.map_take, List.take_range,
    Nat.min_eq_left (Nat.le_succ last)]
  exact foldl_sampleEntity hPos

theorem whole_sampleEntities (hLast : 0 < last) :
    (sampleEntities last).whole sampleParse = sampleBoth := by
  have hParse : parseEntityEntry sampleParse (sampleEntity last last) =
      some ((2, sampleDeployment), 5000) := by
    have hIndexer : (sampleEntity last last).indexer =
        "0x0000000000000000000000000000000000000002" := by
      simp only [sampleEntity]
      rw [if_neg (by omega), if_pos trivial]
    unfold parseEntityEntry
    rw [hIndexer]
    exact parse_sampleEntry.2
  unfold Entities.whole
  rw [listing_sampleEntities, List.range_succ, List.map_append, List.foldl_append,
    List.map_singleton, List.foldl_cons, List.foldl_nil]
  simp only [readEntry, hParse, foldl_sampleEntity hLast]
  rfl

theorem lastRequest_sampleEntities (hLast : last = pageSize) :
    (sampleEntities last).lastRequest = 1 := by
  unfold Entities.lastRequest
  rw [listing_sampleEntities, List.length_map, List.length_range, hLast]
  rfl

theorem firstFailure_refusedPage (hLast : last = pageSize) :
    (sampleEntities last).firstFailure sampleParse (refusedPage (sampleEntities last)) =
      some 1 := by
  unfold Entities.firstFailure
  rw [lastRequest_sampleEntities hLast]
  rfl

theorem sampleFirst_ne_sampleBoth : sampleFirst ≠ sampleBoth := by
  intro hEq
  have hLookup := congrArg (fun counts => counts.lookup (2, sampleDeployment)) hEq
  rw [show sampleBoth.lookup (2, sampleDeployment) = some 5000 from
    Finmap.lookup_insert _] at hLookup
  have hNone : sampleFirst.lookup (2, sampleDeployment) = none := by decide +kernel
  rw [hNone] at hLookup
  cases hLookup

theorem sampleFirst_ne_empty : sampleFirst ≠ ∅ := by
  intro hEmpty
  have hLookup := congrArg (fun counts => counts.lookup (1, sampleDeployment)) hEmpty
  rw [show sampleFirst.lookup (1, sampleDeployment) = some 5000 from
    Finmap.lookup_insert _] at hLookup
  cases hLookup

theorem refresh_refusedPage (hLast : last = pageSize) :
    refreshCache sampleParse 2 (refusedPage (sampleEntities last)) sampleBoth =
      some sampleFirst := by
  have hFuel : (sampleEntities last).lastRequest < 2 := by
    rw [lastRequest_sampleEntities hLast]
    decide
  unfold refreshCache
  rw [fetchAllEntityCounts_eq (serves_refusedPage _) hFuel, firstFailure_refusedPage hLast,
    Option.elim_some, Option.map_some, gathered_sampleEntities hLast, replaceCounts,
    if_neg sampleFirst_ne_empty]

end Sample

/-- The second page is refused: the entry on it is lost from a cache that had it. -/
theorem entry_lost_after_refused_page :
    Serves (sampleEntities pageSize) (refusedPage (sampleEntities pageSize)) ∧
    (sampleEntities pageSize).whole sampleParse = sampleBoth ∧
    refreshCache sampleParse 2 (refusedPage (sampleEntities pageSize)) sampleBoth =
      some sampleFirst ∧ sampleFirst ≠ sampleBoth :=
  ⟨serves_refusedPage _, whole_sampleEntities (by decide), refresh_refusedPage rfl,
    sampleFirst_ne_sampleBoth⟩

def servedPage (g : Entities) (_ : Nat) (lastId : String) : Reply :=
  .response 200 (some ⟨some (g.page lastId), none⟩)

/-- Of two pages, the first of them full, both come, and the cache that had the entry of the first
gets that of the second; or the second is refused, and the cache stays as it was. -/
theorem refresh_never_partial_two_pages :
    (∃ cache', refreshCache sampleParse 2 (servedPage (sampleEntities pageSize)) sampleFirst =
        some cache' ∧
      (cache' = (sampleEntities pageSize).whole sampleParse ∨ cache' = sampleFirst)) ∧
    ∃ cache', refreshCache sampleParse 2 (refusedPage (sampleEntities pageSize)) sampleFirst =
        some cache' ∧
      (cache' = (sampleEntities pageSize).whole sampleParse ∨ cache' = sampleFirst) := by
  have hFuel : (sampleEntities pageSize).lastRequest < 2 := by
    rw [lastRequest_sampleEntities rfl]
    decide
  have hServes : Serves (sampleEntities pageSize) (servedPage (sampleEntities pageSize)) :=
    fun _ _ _ hPage => (Option.some.inj hPage).symm
  constructor
  · obtain ⟨cache', hRefresh, hIff⟩ :=
      refresh_never_partial_iff sampleParse _ _ hServes sampleFirst 2 hFuel
    refine ⟨cache', hRefresh, hIff.mpr fun k hk => ?_⟩
    have hCame := List.find?_some hk
    cases hCame
  · obtain ⟨cache', hRefresh, hIff⟩ :=
      refresh_never_partial_iff sampleParse _ _ (serves_refusedPage _) sampleFirst 2 hFuel
    refine ⟨cache', hRefresh, hIff.mpr fun k hk => .inr (.inr ?_)⟩
    obtain rfl := Option.some.inj (hk.symm.trans (firstFailure_refusedPage rfl))
    exact gathered_sampleEntities rfl

end EntityCounts

end Dipper
