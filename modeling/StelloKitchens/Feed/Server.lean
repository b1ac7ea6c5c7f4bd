import StelloKitchens.Edge.Catalog
import StelloKitchens.Lib.ChangeFeed
import StelloKitchens.Shared.Service

/-!
# The catalog feed

The cloud keeps, for every row of an outlet's offline catalog, an entry with a digest of its content and
the sequence number of its last change. A refresh reads the catalog anew: rows that are new or have
another digest, and entries whose row is gone, take the next sequence numbers. It runs under the lock of
the outlet's feed, and is left out when one ran a short time before. A device reads the entries beyond
its cursor, in the order of their numbers, a page at a time.

## Main definitions

* `FeedState` — the entries of an outlet, and the last number that was given.
* `refresh` — a refresh.
* `feedPage` — one page.

## Main results

* `refresh_spec` — what a refresh does.
* `copyOf_applyFeed`, `le_cursor_of_last` — what a page does to a device's copy.
-/

namespace StelloKitchens.Feed

open ChangeFeed

variable {H : Type}

/-! ### Entries -/

/-- The last change of a catalog row. The digest of a deleted row is none. -/
structure EdgeFeedEntry (H : Type) where
  key : CatalogKey
  hash : Option H
  seq : ℕ
  deleted : Bool
  data : Option CatalogData
  deriving DecidableEq

/-- A row of the catalog, as a refresh reads it. -/
structure Row where
  key : CatalogKey
  data : CatalogData
  deriving DecidableEq

/-- The rows that a refresh reads: ids are unique in their tables. -/
abbrev CurrentRows := KeyedTable Row.key

structure FeedState (H : Type) where
  lastSeq : ℕ
  refreshedAt : Time
  entries : KeyedTable (EdgeFeedEntry.key (H := H))
  /-- What the last refresh read. -/
  described : CurrentRows

namespace EdgeFeedEntry

/-- What a device is told of an entry. -/
def live (e : EdgeFeedEntry H) : Option CatalogData := if e.deleted then none else e.data

def change (e : EdgeFeedEntry H) : EdgeFeedChange := ⟨e.key, e.seq, e.live⟩

end EdgeFeedEntry

/-! ### A refresh -/

/-- The numbers given so far, and the entries. -/
abbrev Progress (H : Type) := ℕ × KeyedTable (EdgeFeedEntry.key (H := H))

/-- A row that is new, or has another content, takes the next number. -/
def refreshRow [DecidableEq H] (hashOf : CatalogData → H)
    (stored : KeyedTable (EdgeFeedEntry.key (H := H))) (p : Progress H) (row : Row) : Progress H :=
  let written : EdgeFeedEntry H := ⟨row.key, some (hashOf row.data), p.1 + 1, false, some row.data⟩
  match stored.find? row.key with
  | none => (p.1 + 1, p.2.put written)
  | some prev =>
    if prev.hash ≠ some (hashOf row.data) ∨ prev.deleted then (p.1 + 1, p.2.put written) else p

/-- An entry whose row is gone takes the next number. -/
def removeEntry (seen : CatalogKey → Bool) (p : Progress H) (prev : EdgeFeedEntry H) : Progress H :=
  if !prev.deleted && !seen prev.key then (p.1 + 1, p.2.put ⟨prev.key, none, p.1 + 1, true, none⟩)
  else p

/-- Recompute the catalog and record what changed, unless that was done a short time before. -/
def refresh [DecidableEq H] (hashOf : CatalogData → H) (minIntervalMs now : Time) (current : CurrentRows)
    (s : FeedState H) : FeedState H :=
  if now - s.refreshedAt < minIntervalMs then s
  else
    let changed := current.rows.foldl (refreshRow hashOf s.entries) (s.lastSeq, s.entries)
    let seen := fun key => (current.find? key).isSome
    let removed := s.entries.rows.foldl (removeEntry seen) changed
    ⟨removed.1, now, removed.2, current⟩

/-! ### A page -/

/-- The entries beyond a cursor, in the order of their numbers. -/
def beyond (s : FeedState H) (start : ℕ) : List (EdgeFeedEntry H) :=
  (s.entries.rows.filter fun e => start < e.seq).insertionSort fun a b => a.seq ≤ b.seq

/-- Where the page of a request begins. -/
def startOf (cursor lastSeq : ℕ) : ℕ := if lastSeq < cursor then 0 else cursor

/-- A page of the feed; where the cursor is ahead of the feed, the device has to start from zero. -/
def feedPage (s : FeedState H) (cursor lastSeq limit : ℕ) : EdgeFeed :=
  let start := startOf cursor lastSeq
  let rows := (beyond s start).take (limit + 1)
  let page := rows.take limit
  { cursor := cursorOf EdgeFeedEntry.seq start page
    changes := page.map EdgeFeedEntry.change
    hasMore := decide (limit < rows.length)
    reset := decide (lastSeq < cursor) }

/-! ### What a refresh does -/

/-- What the entries say of every row that has been there. -/
def viewOf (t : KeyedTable (EdgeFeedEntry.key (H := H))) : View CatalogKey CatalogData := fun k =>
  (t.find? k).map fun e => (e.seq, e.live)

def FeedState.view (s : FeedState H) : View CatalogKey CatalogData := viewOf s.entries

/-- A digest tells contents apart. -/
def EdgeFeedEntry.WellFormed (hashOf : CatalogData → H) (e : EdgeFeedEntry H) : Prop :=
  e.deleted = false → ∃ d, e.data = some d ∧ e.hash = some (hashOf d)

/-- The entries have numbers of their own, up to the last that was given. -/
structure Numbered (hashOf : CatalogData → H) (p : Progress H) : Prop where
  numbers : ∀ e ∈ p.2, 0 < e.seq ∧ e.seq ≤ p.1
  distinct : ∀ e ∈ p.2, ∀ e' ∈ p.2, e.seq = e'.seq → e = e'
  wellFormed : ∀ e ∈ p.2, e.WellFormed hashOf

/-- What holds of a feed between refreshes. -/
structure FeedState.Sound (hashOf : CatalogData → H) (s : FeedState H) : Prop where
  numbered : Numbered hashOf (s.lastSeq, s.entries)
  described : ∀ k, (s.view k).bind Prod.snd = (s.described.find? k).map Row.data

/-- How far a refresh has come. -/
structure Reaches (hashOf : CatalogData → H) (s : FeedState H) (p : Progress H) : Prop
    extends Numbered hashOf p where
  le : s.lastSeq ≤ p.1
  later : Later s.lastSeq s.view (viewOf p.2)

section Refresh

variable {hashOf : CatalogData → H} {s : FeedState H} {p : Progress H}

theorem viewOf_put (t : KeyedTable (EdgeFeedEntry.key (H := H))) (e : EdgeFeedEntry H) (k : CatalogKey) :
    viewOf (t.put e) k = if k = e.key then some (e.seq, e.live) else viewOf t k := by
  unfold viewOf
  by_cases hk : k = e.key
  · rw [if_pos hk, hk, KeyedTable.find?_put_self]
    rfl
  · rw [if_neg hk, KeyedTable.find?_put_of_ne hk]

/-- One entry takes the next number. -/
theorem Reaches.put (h : Reaches hashOf s p) {e : EdgeFeedEntry H} (hseq : e.seq = p.1 + 1)
    (he : e.WellFormed hashOf) : Reaches hashOf s (p.1 + 1, p.2.put e) := by
  have hlt : ∀ e' ∈ p.2, e'.seq < e.seq := fun e' he' => hseq ▸ Nat.lt_succ_of_le (h.numbers e' he').2
  refine ⟨⟨fun e' he' => ?_, fun a ha b hb hab => ?_, fun e' he' => ?_⟩,
    Nat.le_succ_of_le h.le, fun k => ?_⟩
  · rcases KeyedTable.mem_put.mp he' with rfl | ⟨he', -⟩
    · exact ⟨hseq ▸ Nat.succ_pos _, hseq.le⟩
    · exact ⟨(h.numbers e' he').1, Nat.le_succ_of_le (h.numbers e' he').2⟩
  · rcases KeyedTable.mem_put.mp ha with rfl | ⟨haold, -⟩
    · rcases KeyedTable.mem_put.mp hb with rfl | ⟨hbold, -⟩
      · rfl
      · exact absurd hab (hlt b hbold).ne'
    · rcases KeyedTable.mem_put.mp hb with rfl | ⟨hbold, -⟩
      · exact absurd hab (hlt a haold).ne
      · exact h.distinct a haold b hbold hab
  · rcases KeyedTable.mem_put.mp he' with rfl | ⟨he', -⟩
    · exact he
    · exact h.wellFormed e' he'
  · rw [viewOf_put]
    by_cases hk : k = e.key
    · rw [if_pos hk]
      exact .inr ⟨e.seq, e.live, rfl, hseq ▸ Nat.lt_succ_of_le h.le⟩
    · rw [if_neg hk]
      exact h.later k

/-- Once a row was gone through, its entry has it. -/
theorem refreshRow_spec [DecidableEq H] (hinj : Function.Injective hashOf)
    (hs : Numbered hashOf (s.lastSeq, s.entries)) (r : Row) (h : Reaches hashOf s p)
    (hold : viewOf p.2 r.key = s.view r.key) :
    Reaches hashOf s (refreshRow hashOf s.entries p r) ∧
      (viewOf (refreshRow hashOf s.entries p r).2 r.key).bind Prod.snd = some r.data ∧
      ∀ k, k ≠ r.key → viewOf (refreshRow hashOf s.entries p r).2 k = viewOf p.2 k := by
  have hwrite : Reaches hashOf s
        (p.1 + 1, p.2.put ⟨r.key, some (hashOf r.data), p.1 + 1, false, some r.data⟩) ∧
      (viewOf (p.2.put ⟨r.key, some (hashOf r.data), p.1 + 1, false, some r.data⟩) r.key).bind
        Prod.snd = some r.data ∧
      ∀ k, k ≠ r.key → viewOf (p.2.put ⟨r.key, some (hashOf r.data), p.1 + 1, false, some r.data⟩) k =
        viewOf p.2 k := by
    refine ⟨h.put rfl fun _ => ⟨r.data, rfl, rfl⟩, ?_, fun k hk => ?_⟩
    · rw [viewOf_put, if_pos rfl]
      rfl
    · rw [viewOf_put, if_neg hk]
  unfold refreshRow
  dsimp only
  cases hprev : s.entries.find? r.key with
  | none => exact hwrite
  | some prev =>
    dsimp only
    split
    · exact hwrite
    · rename_i hsame
      obtain ⟨hhash, hlive⟩ := not_or.mp hsame
      have hdeleted : prev.deleted = false := by simpa using hlive
      refine ⟨h, ?_, fun k _ => rfl⟩
      obtain ⟨d, hd, hd'⟩ := hs.wellFormed prev (KeyedTable.find?_eq_some.mp hprev).1 hdeleted
      have hdata : r.data = d := hinj (Option.some.inj ((not_not.mp hhash).symm.trans hd'))
      rw [hold, FeedState.view, viewOf, hprev]
      simp [EdgeFeedEntry.live, hdeleted, hd, hdata]

/-- Once an entry was gone through, it is deleted if its row is gone. -/
theorem removeEntry_spec {seen : CatalogKey → Bool} {base : View CatalogKey CatalogData}
    {e : EdgeFeedEntry H} (he : e ∈ s.entries) (h : Reaches hashOf s p)
    (hbase : viewOf p.2 e.key = base e.key) (hold : seen e.key = false → base e.key = s.view e.key) :
    Reaches hashOf s (removeEntry seen p e) ∧
      ((seen e.key = true → viewOf (removeEntry seen p e).2 e.key = base e.key) ∧
        (seen e.key = false → (viewOf (removeEntry seen p e).2 e.key).bind Prod.snd = none)) ∧
      ∀ k, k ≠ e.key → viewOf (removeEntry seen p e).2 k = viewOf p.2 k := by
  unfold removeEntry
  split
  · rename_i hgone
    have hseen : seen e.key = false := by
      rw [Bool.and_eq_true, Bool.not_eq_true', Bool.not_eq_true'] at hgone
      exact hgone.2
    refine ⟨h.put rfl (by simp [EdgeFeedEntry.WellFormed]), ⟨fun hs => ?_, fun _ => ?_⟩, fun k hk => ?_⟩
    · exact absurd (hseen.symm.trans hs) Bool.false_ne_true
    · rw [viewOf_put, if_pos rfl]
      rfl
    · rw [viewOf_put, if_neg hk]
  · rename_i hstay
    refine ⟨h, ⟨fun _ => hbase, fun hseen => ?_⟩, fun k _ => rfl⟩
    have hdeleted : e.deleted = true := by
      rw [Bool.and_eq_true, Bool.not_eq_true', Bool.not_eq_true'] at hstay
      simpa using fun hnot => hstay ⟨hnot, hseen⟩
    rw [hbase, hold hseen, FeedState.view, viewOf, KeyedTable.find?_of_mem he]
    simp [EdgeFeedEntry.live, hdeleted]

/-- A refresh keeps the feed sound, gives what it changes numbers beyond those given before, and then
describes the rows it read. -/
theorem refresh_spec [DecidableEq H] (hinj : Function.Injective hashOf) (hs : s.Sound hashOf)
    (minIntervalMs now : Time) (current : CurrentRows) :
    (refresh hashOf minIntervalMs now current s).Sound hashOf ∧
      s.lastSeq ≤ (refresh hashOf minIntervalMs now current s).lastSeq ∧
      Later s.lastSeq s.view (refresh hashOf minIntervalMs now current s).view := by
  unfold refresh
  split
  · exact ⟨hs, le_rfl, .refl _ _⟩
  · have hstart : Reaches hashOf s (s.lastSeq, s.entries) := ⟨hs.numbered, le_rfl, .refl _ _⟩
    obtain ⟨hreach, hrows, hothers⟩ := @foldl_keyed _ _ _ _ (Reaches hashOf s) (fun p => viewOf p.2)
      Row.key (refreshRow hashOf s.entries) (fun r v => v.bind Prod.snd = some r.data)
      s.view current.rows (fun r _ p => refreshRow_spec hinj hs.numbered r) current.nodup_keys _ hstart fun r _ => rfl
    have hseen : ∀ k, (current.find? k).isSome = false → k ∉ current.rows.map Row.key := by
      intro k hk hmem
      obtain ⟨r, hr, rfl⟩ := List.mem_map.mp hmem
      rw [KeyedTable.find?_of_mem hr] at hk
      cases hk
    let seen : CatalogKey → Bool := fun k => (current.find? k).isSome
    set changed := current.rows.foldl (refreshRow hashOf s.entries) (s.lastSeq, s.entries)
    obtain ⟨hreach', hgone, hothers'⟩ := @foldl_keyed _ _ _ _ (Reaches hashOf s) (fun p => viewOf p.2)
      EdgeFeedEntry.key (removeEntry seen) (fun e v => (seen e.key = true → v = viewOf changed.2 e.key) ∧
        (seen e.key = false → v.bind Prod.snd = none)) (viewOf changed.2) s.entries.rows
      (fun e he p hp hbase => removeEntry_spec he hp hbase fun hk => hothers e.key (hseen e.key hk))
      s.entries.nodup_keys _ hreach fun e _ => rfl
    refine ⟨⟨hreach'.toNumbered, fun k => ?_⟩, hreach'.le, hreach'.later⟩
    change (viewOf _ k).bind Prod.snd = _
    by_cases hmem : k ∈ s.entries.rows.map EdgeFeedEntry.key
    · obtain ⟨e, he, rfl⟩ := List.mem_map.mp hmem
      cases hk : current.find? e.key with
      | some r =>
        obtain ⟨hr, hkey⟩ := KeyedTable.find?_eq_some.mp hk
        rw [(hgone e he).1 (congrArg Option.isSome hk), ← hkey]
        exact hrows r hr
      | none => exact (hgone e he).2 (congrArg Option.isSome hk)
    · rw [hothers' k hmem]
      cases hk : current.find? k with
      | some r =>
        obtain ⟨hr, rfl⟩ := KeyedTable.find?_eq_some.mp hk
        exact hrows r hr
      | none =>
        have hnone : s.entries.find? k = none :=
          KeyedTable.find?_eq_none.mpr fun e he heq => hmem (heq ▸ List.mem_map_of_mem he)
        rw [hothers k (hseen k (congrArg Option.isSome hk)), viewOf, hnone]
        rfl

end Refresh

/-! ### What a page does -/

/-- The content of every row of a device's copy. -/
def copyOf (cat : Catalog) : CatalogKey → Option CatalogData := fun k =>
  (cat.find? k).map CatalogRow.data

theorem copyOf_applyChange (cat : Catalog) (c : EdgeFeedChange) (k : CatalogKey) :
    copyOf (cat.applyChange c) k = if k = c.key then c.data else copyOf cat k := by
  unfold copyOf Catalog.applyChange
  cases hdata : c.data with
  | none =>
    dsimp only
    by_cases hk : k = c.key
    · rw [if_pos hk, KeyedTable.find?_delete, Option.map_eq_none_iff, Option.filter_eq_none_iff]
      intro r hr
      simp [(KeyedTable.find?_eq_some.mp hr).2, hk]
    · rw [if_neg hk, KeyedTable.find?_delete_of_not]
      intro r _ hr
      simp [hr, hk]
  | some data =>
    have hset : ∀ r : CatalogRow, r.key = c.key →
        ({ r with data := data, seq := c.seq } : CatalogRow).key = c.key := fun _ h => h
    dsimp only
    by_cases hk : k = c.key
    · rw [if_pos hk, hk]
      refine (congrArg (Option.map CatalogRow.data)
        (@KeyedTable.find?_upsert_self _ _ _ _ cat ⟨c.key, data, c.seq⟩ _ hset)).trans ?_
      rw [Option.map_some]
      cases cat.find? c.key <;> rfl
    · rw [if_neg hk]
      exact congrArg (Option.map CatalogRow.data)
        (@KeyedTable.find?_upsert_of_ne _ _ _ _ cat ⟨c.key, data, c.seq⟩ _ hset k hk)

/-- The copy after the changes of a page, each of another row. -/
theorem copyOf_changes {changes : List EdgeFeedChange} (hnodup : (changes.map (·.key)).Nodup)
    (cat : Catalog) :
    (∀ c ∈ changes, copyOf (changes.foldl Catalog.applyChange cat) c.key = c.data) ∧
    ∀ k, k ∉ changes.map (·.key) → copyOf (changes.foldl Catalog.applyChange cat) k = copyOf cat k := by
  refine (@foldl_keyed _ _ _ _ (fun _ => True) copyOf (·.key) Catalog.applyChange (fun c v => v = c.data)
    (copyOf cat) changes (fun c _ cat _ _ => ⟨trivial, ?_, fun k hk => ?_⟩) hnodup cat trivial
    fun c _ => rfl).2
  · rw [copyOf_applyChange, if_pos rfl]
  · rw [copyOf_applyChange, if_neg hk]

section Page

variable {hashOf : CatalogData → H} {s : FeedState H}

theorem mem_beyond {start : ℕ} {e : EdgeFeedEntry H} :
    e ∈ beyond s start ↔ e ∈ s.entries ∧ start < e.seq := by
  rw [beyond, List.mem_insertionSort, List.mem_filter, decide_eq_true_eq]
  rfl

theorem beyond_sorted (hs : s.Sound hashOf) (start : ℕ) :
    (beyond s start).Pairwise fun a b => a.seq < b.seq := by
  have hnodup : (beyond s start).Nodup := by
    refine (List.perm_insertionSort _ _).nodup_iff.mpr ?_
    exact s.entries.nodup_keys.of_map.filter _
  have hsorted : (beyond s start).Pairwise fun a b => a.seq ≤ b.seq := List.pairwise_insertionSort _ _
  refine (hsorted.and hnodup).imp_of_mem fun {a b} ha hb h => ?_
  refine lt_of_le_of_ne h.1 fun heq => h.2 ?_
  exact hs.numbered.distinct a (mem_beyond.mp ha).1 b (mem_beyond.mp hb).1 heq

variable (hs : s.Sound hashOf) (cursor lastSeq limit : ℕ)

theorem cursor_feedPage : (feedPage s cursor lastSeq limit).cursor =
    cursorOf EdgeFeedEntry.seq (startOf cursor lastSeq)
      ((beyond s (startOf cursor lastSeq)).take limit) := by
  simp only [feedPage, List.take_take, Nat.min_eq_left (Nat.le_succ limit)]

theorem changes_feedPage : (feedPage s cursor lastSeq limit).changes =
    ((beyond s (startOf cursor lastSeq)).take limit).map EdgeFeedEntry.change := by
  simp only [feedPage, List.take_take, Nat.min_eq_left (Nat.le_succ limit)]

include hs

/-- The entries of a page are those beyond where it begins, up to its cursor. -/
theorem mem_page {e : EdgeFeedEntry H} :
    e ∈ (beyond s (startOf cursor lastSeq)).take limit ↔ e ∈ s.entries ∧
      startOf cursor lastSeq < e.seq ∧ e.seq ≤ (feedPage s cursor lastSeq limit).cursor := by
  rw [mem_take_iff (beyond_sorted hs _) (fun r hr => (mem_beyond.mp hr).2) limit, mem_beyond,
    cursor_feedPage, and_assoc]

/-- A page without a next one ends with the last change. -/
theorem le_cursor_of_last (hmore : (feedPage s cursor lastSeq limit).hasMore = false) :
    ∀ e ∈ s.entries, e.seq ≤ (feedPage s cursor lastSeq limit).cursor := by
  intro e he
  by_cases hstart : startOf cursor lastSeq < e.seq
  · have hlength : (beyond s (startOf cursor lastSeq)).length ≤ limit := by
      have := of_decide_eq_false hmore
      rw [List.length_take] at this
      omega
    have hmem : e ∈ (beyond s (startOf cursor lastSeq)).take limit := by
      rw [List.take_of_length_le hlength]
      exact mem_beyond.mpr ⟨he, hstart⟩
    exact ((mem_page hs cursor lastSeq limit).mp hmem).2.2
  · rw [cursor_feedPage]
    exact (Nat.not_lt.mp hstart).trans (le_cursorOf (fun r hr => (mem_beyond.mp hr).2) limit)

/-- A page does not end beyond the last number. -/
theorem cursor_le_lastSeq (hstart : startOf cursor lastSeq ≤ s.lastSeq) :
    (feedPage s cursor lastSeq limit).cursor ≤ s.lastSeq := by
  rw [cursor_feedPage, cursorOf]
  cases hlast : ((beyond s (startOf cursor lastSeq)).take limit).getLast? with
  | none => exact hstart
  | some e =>
    have hmem := (mem_page hs cursor lastSeq limit).mp (List.mem_of_getLast? hlast)
    exact (hs.numbered.numbers e hmem.1).2

/-- Applying a page writes the changes it covers to the copy. -/
theorem copyOf_applyFeed (cat : Catalog) : copyOf (cat.applyFeed (feedPage s cursor lastSeq limit)) =
    overlay s.view (startOf cursor lastSeq) (feedPage s cursor lastSeq limit).cursor
      (if lastSeq < cursor then fun _ => none else copyOf cat) := by
  have hbase : copyOf (if (feedPage s cursor lastSeq limit).reset then .empty else cat) =
      if lastSeq < cursor then fun _ => none else copyOf cat := by
    by_cases hreset : lastSeq < cursor
    · simp only [feedPage, hreset, decide_true, if_true]
      rfl
    · simp only [feedPage, hreset, decide_false, Bool.false_eq_true, if_false]
  have hnodup : ((feedPage s cursor lastSeq limit).changes.map (·.key)).Nodup := by
    rw [changes_feedPage, List.map_map]
    refine ((List.take_sublist _ _).map _).nodup ?_
    refine ((List.perm_insertionSort _ _).map _).nodup_iff.mpr ?_
    exact (List.filter_sublist.map _).nodup s.entries.nodup_keys
  obtain ⟨hchanged, hothers⟩ := copyOf_changes hnodup
    (if (feedPage s cursor lastSeq limit).reset then .empty else cat)
  rw [hbase] at hothers
  funext k
  unfold overlay Catalog.applyFeed FeedState.view viewOf
  cases hfind : s.entries.find? k with
  | none =>
    refine hothers k fun hmem => ?_
    rw [changes_feedPage, List.map_map] at hmem
    obtain ⟨e, he, hek⟩ := List.mem_map.mp hmem
    exact KeyedTable.find?_eq_none.mp hfind e ((mem_page hs cursor lastSeq limit).mp he).1 hek
  | some e =>
    obtain ⟨he, rfl⟩ := KeyedTable.find?_eq_some.mp hfind
    rw [Option.map_some]
    dsimp only
    by_cases hcovered : startOf cursor lastSeq < e.seq ∧ e.seq ≤ (feedPage s cursor lastSeq limit).cursor
    · rw [if_pos hcovered]
      have hmem := (mem_page hs cursor lastSeq limit).mpr ⟨he, hcovered⟩
      refine hchanged e.change ?_
      rw [changes_feedPage]
      exact List.mem_map_of_mem hmem
    · rw [if_neg hcovered]
      refine hothers e.key fun hmem => ?_
      rw [changes_feedPage, List.map_map] at hmem
      obtain ⟨e', he', hek⟩ := List.mem_map.mp hmem
      have hpage := (mem_page hs cursor lastSeq limit).mp he'
      rw [KeyedTable.eq_of_mem hpage.1 he hek] at hpage
      exact hcovered hpage.2

end Page

end StelloKitchens.Feed
