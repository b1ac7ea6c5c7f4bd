import StelloKitchens.Feed.Server
import StelloKitchens.Lib.Machine

/-!
# Pulling the catalog

A device asks the cloud for the changes beyond its cursor, page after page, until there are no more.
For each page the cloud refreshes the feed and then reads it; in between, and while an answer is on its
way, other terminals have the feed refreshed too. A request may fail, or its answer be lost, and then the
pull ends. The cloud's feed may be lost and built anew, so that its numbers start again; a device whose
cursor is ahead of it is told to start from zero.

## Main definitions

* `catalogPulls` — a device, the cloud, and what is under way between them.
* `Orderly` — a device pulls once at a time, and a feed that is built anew is not ahead of the cursors
  from before.

## Main results

* `consistent_of_reach` — what holds in every state.
* `pull_converges` — after a pull, the device has the catalog that the feed described.
-/

namespace StelloKitchens.Feed

open ChangeFeed

variable {H : Type}

/-! ### The exchange -/

/-- A request for a page: sent with a cursor, refreshed for, or answered. The numbers `epoch` tell apart
the feeds that were built anew, and an answer keeps the feed that it was read from. -/
inductive FeedRequest (H : Type)
  | asked (cursor epoch : ℕ)
  | refreshed (cursor epoch lastSeq : ℕ)
  | answered (page : EdgeFeed) (feed : FeedState H) (epoch : ℕ)

/-- A pull under way, with the pages that it may still ask for. -/
structure CatalogPull (H : Type) where
  request : FeedRequest H
  pagesLeft : ℕ

/-- A device's copy of the catalog, and the feed it is from. -/
structure CatalogCopy where
  cursor : ℕ
  catalog : Catalog
  epoch : ℕ

/-- A pull that came to the end: the feed that its last page was read from, and the device's copy. -/
structure CompletedPull (H : Type) where
  feed : FeedState H
  catalog : Catalog

structure FeedWorld (H : Type) where
  server : FeedState H
  epoch : ℕ
  device : CatalogCopy
  pulls : List (CatalogPull H)
  completed : List (CompletedPull H)

/-- The feed of an outlet before the first refresh. -/
def newFeed : FeedState H := ⟨0, 0, .empty, .empty⟩

inductive FeedAction
  /-- A refresh for another terminal. -/
  | refresh (now : Time) (current : CurrentRows)
  /-- The feed is lost and begins anew. -/
  | rebuild
  | begin
  /-- The refresh for a request. -/
  | refreshFor (i : ℕ) (now : Time) (current : CurrentRows)
  | read (i limit : ℕ)
  | apply (i : ℕ)
  | fail (i : ℕ)

def FEED_REFRESH_MIN_INTERVAL_MS : Time := 3000

/-- The pages of a pull, at most. -/
def MAX_PULL_PAGES : ℕ := 100

namespace FeedWorld

variable [DecidableEq H] (hashOf : CatalogData → H) (w : FeedWorld H)

def refreshed (now : Time) (current : CurrentRows) : FeedState H :=
  refresh hashOf FEED_REFRESH_MIN_INTERVAL_MS now current w.server

/-- The device applies a page, and asks for the next one if there is more. -/
def applied (i pagesLeft : ℕ) (page : EdgeFeed) (feed : FeedState H) (epoch : ℕ) : FeedWorld H :=
  let device := ⟨page.cursor, w.device.catalog.applyFeed page, epoch⟩
  if page.hasMore then
    match pagesLeft with
    | 0 => { w with device := device, pulls := w.pulls.eraseIdx i }
    | left + 1 => { w with
        device := device
        pulls := w.pulls.set i ⟨.asked page.cursor epoch, left⟩ }
  else { w with
    device := device
    pulls := w.pulls.eraseIdx i
    completed := w.completed ++ [⟨feed, device.catalog⟩] }

def step : FeedAction → FeedWorld H
  | .refresh now current => { w with server := w.refreshed hashOf now current }
  | .rebuild => { w with server := newFeed, epoch := w.epoch + 1 }
  | .begin => { w with
      pulls := w.pulls ++ [⟨.asked w.device.cursor w.device.epoch, MAX_PULL_PAGES - 1⟩] }
  | .refreshFor i now current =>
    match w.pulls[i]? with
    | some ⟨.asked cursor epoch, left⟩ => { w with
        server := w.refreshed hashOf now current
        pulls := w.pulls.set i ⟨.refreshed cursor epoch (w.refreshed hashOf now current).lastSeq, left⟩ }
    | _ => w
  | .read i limit =>
    match w.pulls[i]? with
    | some ⟨.refreshed cursor _ lastSeq, left⟩ => { w with
        pulls := w.pulls.set i
          ⟨.answered (feedPage w.server cursor lastSeq limit) w.server w.epoch, left⟩ }
    | _ => w
  | .apply i =>
    match w.pulls[i]? with
    | some ⟨.answered page feed epoch, left⟩ => w.applied i left page feed epoch
    | _ => w
  | .fail i => { w with pulls := w.pulls.eraseIdx i }

end FeedWorld

/-- The device and the cloud. -/
def catalogPulls [DecidableEq H] (hashOf : CatalogData → H) : Machine (FeedWorld H) FeedAction where
  init w := w = ⟨newFeed, 0, ⟨0, .empty, 0⟩, [], []⟩
  step w a := w.step hashOf a

/-- A cursor that the feed is not behind is from this feed. -/
def FeedRequest.Current (w : FeedWorld H) : FeedRequest H → Prop
  | .refreshed cursor epoch lastSeq => cursor ≤ lastSeq → epoch = w.epoch
  | _ => True

instance (w : FeedWorld H) (r : FeedRequest H) : Decidable (r.Current w) :=
  match r with
  | .refreshed cursor epoch lastSeq => inferInstanceAs (Decidable (cursor ≤ lastSeq → epoch = w.epoch))
  | .asked .. => .isTrue trivial
  | .answered .. => .isTrue trivial

/-- A device pulls once at a time, and a feed that is built anew is not ahead of the cursors from
before when it is read for them. -/
def Orderly (w : FeedWorld H) : FeedAction → Prop
  | .begin => w.pulls.isEmpty
  | .read i _ => ∀ p ∈ w.pulls[i]?, p.request.Current w
  | _ => True

instance (w : FeedWorld H) (a : FeedAction) : Decidable (Orderly w a) :=
  match a with
  | .begin => inferInstanceAs (Decidable (w.pulls.isEmpty = true))
  | .read i _ => inferInstanceAs (Decidable (∀ p ∈ w.pulls[i]?, p.request.Current w))
  | .refresh .. => .isTrue trivial
  | .rebuild => .isTrue trivial
  | .refreshFor .. => .isTrue trivial
  | .apply _ => .isTrue trivial
  | .fail _ => .isTrue trivial

/-! ### What holds in every state -/

/-- What holds of a request under way. -/
def FeedRequest.Consistent (hashOf : CatalogData → H) (w : FeedWorld H) : FeedRequest H → Prop
  | .asked cursor epoch => cursor = w.device.cursor ∧ epoch = w.device.epoch
  | .refreshed cursor epoch _ => cursor = w.device.cursor ∧ epoch = w.device.epoch
  | .answered page feed epoch => feed.Sound hashOf ∧ epoch ≤ w.epoch ∧
      (epoch = w.epoch → feed.lastSeq ≤ w.server.lastSeq ∧ Later feed.lastSeq feed.view w.server.view) ∧
      ∃ cursor lastSeq limit, page = feedPage feed cursor lastSeq limit ∧
        startOf cursor lastSeq ≤ feed.lastSeq ∧
        Follows feed.view (startOf cursor lastSeq)
          (if lastSeq < cursor then fun _ => none else copyOf w.device.catalog)

structure FeedWorld.Consistent (hashOf : CatalogData → H) (w : FeedWorld H) : Prop where
  server : w.server.Sound hashOf
  epoch : w.device.epoch ≤ w.epoch
  device : w.device.epoch = w.epoch → w.device.cursor ≤ w.server.lastSeq ∧
    Follows w.server.view w.device.cursor (copyOf w.device.catalog)
  single : w.pulls.length ≤ 1
  pulls : ∀ p ∈ w.pulls, p.request.Consistent hashOf w
  completed : ∀ r ∈ w.completed, ∀ k, copyOf r.catalog k = (r.feed.described.find? k).map Row.data

section Invariant

variable {hashOf : CatalogData → H} {w : FeedWorld H}

theorem newFeed_sound : (newFeed : FeedState H).Sound hashOf := by
  refine ⟨⟨fun e he => ?_, fun e he => ?_, fun e he => ?_⟩, fun k => rfl⟩ <;>
    exact absurd he (KeyedTable.notMem_empty e)

/-- Where at most one pull is under way, one that is found is the only one. -/
theorem only_pull (h : w.pulls.length ≤ 1) {i : ℕ} {p : CatalogPull H} (hp : w.pulls[i]? = some p) :
    w.pulls = [p] ∧ i = 0 := by
  obtain ⟨hi, rfl⟩ := List.getElem?_eq_some_iff.mp hp
  obtain rfl : i = 0 := by omega
  obtain ⟨q, hq⟩ := List.length_eq_one_iff.mp (by omega : w.pulls.length = 1)
  refine ⟨?_, rfl⟩
  simp only [hq, List.getElem_cons_zero]

/-- A page that is applied makes the copy right up to its cursor. -/
theorem follows_applied {page : EdgeFeed} {feed : FeedState H} {epoch : ℕ}
    (h : (FeedRequest.answered page feed epoch).Consistent hashOf w) :
    page.cursor ≤ feed.lastSeq ∧
      Follows feed.view page.cursor (copyOf (w.device.catalog.applyFeed page)) ∧
      (page.hasMore = false → ∀ k, copyOf (w.device.catalog.applyFeed page) k =
        (feed.described.find? k).map Row.data) := by
  obtain ⟨hsound, -, -, cursor, lastSeq, limit, rfl, hstart, hfollows⟩ := h
  have happlied : Follows feed.view (feedPage feed cursor lastSeq limit).cursor
      (copyOf (w.device.catalog.applyFeed (feedPage feed cursor lastSeq limit))) := by
    rw [copyOf_applyFeed hsound]
    exact hfollows.overlay
  refine ⟨cursor_le_lastSeq hsound cursor lastSeq limit hstart, happlied, fun hmore k => ?_⟩
  rw [← hsound.described]
  refine happlied.complete (fun k seq d hk => ?_) k
  obtain ⟨e, he, heq⟩ := Option.map_eq_some_iff.mp hk
  obtain ⟨rfl, -⟩ := Prod.mk.inj heq
  exact le_cursor_of_last hsound cursor lastSeq limit hmore e (KeyedTable.find?_eq_some.mp he).1

/-- The feed changes while requests are under way. -/
theorem FeedRequest.Consistent.later {r : FeedRequest H} (h : r.Consistent hashOf w) {w' : FeedWorld H}
    (hdevice : w'.device = w.device) (hepoch : w'.epoch = w.epoch)
    (hle : w.server.lastSeq ≤ w'.server.lastSeq)
    (hlater : Later w.server.lastSeq w.server.view w'.server.view) : r.Consistent hashOf w' := by
  cases r with
  | asked cursor epoch => exact ⟨hdevice.symm ▸ h.1, hdevice.symm ▸ h.2⟩
  | refreshed cursor epoch lastSeq => exact ⟨hdevice.symm ▸ h.1, hdevice.symm ▸ h.2⟩
  | answered page feed epoch =>
    obtain ⟨hsound, he, hfeed, hpage⟩ := h
    refine ⟨hsound, hepoch ▸ he, fun heq => ?_, hdevice ▸ hpage⟩
    obtain ⟨hfle, hflater⟩ := hfeed (heq.trans hepoch)
    exact ⟨hfle.trans hle, hflater.trans hlater hfle⟩

variable [DecidableEq H] (hinj : Function.Injective hashOf)

include hinj

theorem consistent_step {a : FeedAction} (h : w.Consistent hashOf) (hgood : Orderly w a) :
    ((catalogPulls hashOf).step w a).Consistent hashOf := by
  -- what a refresh does to the feed
  have hrefresh : ∀ now current, (w.refreshed hashOf now current).Sound hashOf ∧
      w.server.lastSeq ≤ (w.refreshed hashOf now current).lastSeq ∧
      Later w.server.lastSeq w.server.view (w.refreshed hashOf now current).view :=
    fun now current => refresh_spec hinj h.server _ now current
  change (w.step hashOf a).Consistent hashOf
  cases a with
  | refresh now current =>
    obtain ⟨hsound, hle, hlater⟩ := hrefresh now current
    exact ⟨hsound, h.epoch,
      fun he => ⟨(h.device he).1.trans hle, (h.device he).2.later hlater (h.device he).1⟩,
      h.single, fun p hp => (h.pulls p hp).later rfl rfl hle hlater, h.completed⟩
  | rebuild =>
    refine ⟨newFeed_sound, Nat.le_succ_of_le h.epoch, fun he => ?_, h.single,
      fun p hp => ?_, h.completed⟩
    · exact absurd (he ▸ h.epoch) (Nat.not_succ_le_self _)
    · have hp' := h.pulls p hp
      cases hr : p.request with
      | asked cursor epoch => rw [hr] at hp'; exact hp'
      | refreshed cursor epoch lastSeq => rw [hr] at hp'; exact hp'
      | answered page feed epoch =>
        rw [hr] at hp'
        obtain ⟨hsound, he, -, hpage⟩ := hp'
        exact ⟨hsound, Nat.le_succ_of_le he,
          fun heq => absurd (heq ▸ he) (Nat.not_succ_le_self _), hpage⟩
  | begin =>
    have hnone : w.pulls = [] := List.isEmpty_iff.mp hgood
    refine ⟨h.server, h.epoch, h.device, ?_, fun p hp => ?_, h.completed⟩
    · simp [FeedWorld.step, hnone]
    · simp only [FeedWorld.step, hnone, List.nil_append, List.mem_singleton] at hp
      rw [hp]
      exact ⟨rfl, rfl⟩
  | refreshFor i now current =>
    simp only [FeedWorld.step]
    split
    · rename_i cursor epoch left hp
      obtain ⟨hpulls, rfl⟩ := only_pull h.single hp
      obtain ⟨hsound, hle, hlater⟩ := hrefresh now current
      refine ⟨hsound, h.epoch,
        fun he => ⟨(h.device he).1.trans hle, (h.device he).2.later hlater (h.device he).1⟩,
        by simp [hpulls], fun p hmem => ?_, h.completed⟩
      simp only [hpulls, List.set_cons_zero, List.mem_singleton] at hmem
      rw [hmem]
      exact h.pulls _ (hpulls ▸ List.mem_singleton.mpr rfl)
    · exact h
  | read i limit =>
    simp only [FeedWorld.step]
    split
    · rename_i cursor epoch lastSeq left hp
      obtain ⟨hpulls, rfl⟩ := only_pull h.single hp
      have hreq : cursor = w.device.cursor ∧ epoch = w.device.epoch :=
        h.pulls ⟨.refreshed cursor epoch lastSeq, left⟩ (hpulls ▸ List.mem_singleton.mpr rfl)
      refine ⟨h.server, h.epoch, h.device, by simp [hpulls], fun p hmem => ?_, h.completed⟩
      simp only [hpulls, List.set_cons_zero, List.mem_singleton] at hmem
      rw [hmem]
      refine ⟨h.server, le_rfl, fun _ => ⟨le_rfl, .refl _ _⟩, cursor, lastSeq, limit, rfl, ?_⟩
      unfold startOf
      by_cases hreset : lastSeq < cursor
      · rw [if_pos hreset, if_pos hreset]
        refine ⟨Nat.zero_le _, follows_nothing fun k seq d hk => ?_⟩
        obtain ⟨e, he, heq⟩ := Option.map_eq_some_iff.mp hk
        obtain ⟨rfl, -⟩ := Prod.mk.inj heq
        exact (h.server.numbered.numbers e (KeyedTable.find?_eq_some.mp he).1).1
      · rw [if_neg hreset, if_neg hreset, hreq.1]
        exact h.device (hreq.2.symm.trans (hgood _ hp (Nat.not_lt.mp hreset)))
    · exact h
  | apply i =>
    simp only [FeedWorld.step]
    split
    · rename_i page feed epoch left hp
      obtain ⟨hpulls, rfl⟩ := only_pull h.single hp
      have hreq : (FeedRequest.answered page feed epoch).Consistent hashOf w :=
        h.pulls ⟨.answered page feed epoch, left⟩ (hpulls ▸ List.mem_singleton.mpr rfl)
      obtain ⟨hcursor, hfollows, hlast⟩ := follows_applied hreq
      have hdevice : epoch = w.epoch → page.cursor ≤ w.server.lastSeq ∧
          Follows w.server.view page.cursor (copyOf (w.device.catalog.applyFeed page)) := fun he =>
        ⟨hcursor.trans (hreq.2.2.1 he).1, hfollows.later (hreq.2.2.1 he).2 hcursor⟩
      unfold FeedWorld.applied
      dsimp only
      split
      · split
        · exact ⟨h.server, hreq.2.1, hdevice, by simp [hpulls], by simp [hpulls], h.completed⟩
        · refine ⟨h.server, hreq.2.1, hdevice, by simp [hpulls], fun p hmem => ?_, h.completed⟩
          simp only [hpulls, List.set_cons_zero, List.mem_singleton] at hmem
          rw [hmem]
          exact ⟨rfl, rfl⟩
      · rename_i hmore
        refine ⟨h.server, hreq.2.1, hdevice, by simp [hpulls], by simp [hpulls], fun r hr => ?_⟩
        rcases List.mem_append.mp hr with hr | hr
        · exact h.completed r hr
        · rw [List.mem_singleton.mp hr]
          exact hlast (by simpa using hmore)
    · exact h
  | fail i =>
    exact ⟨h.server, h.epoch, h.device, (List.length_eraseIdx_le _ _).trans h.single,
      fun p hp => h.pulls p (List.mem_of_mem_eraseIdx hp), h.completed⟩

theorem consistent_of_reach (h : (catalogPulls hashOf).Reach Orderly w) : w.Consistent hashOf := by
  refine Machine.invariant (P := FeedWorld.Consistent hashOf) (fun w hw => ?_)
    (fun w a _ hw hgood => consistent_step hinj hw hgood) h
  obtain rfl : w = ⟨newFeed, 0, ⟨0, .empty, 0⟩, [], []⟩ := hw
  exact ⟨newFeed_sound, le_rfl, fun _ => ⟨le_rfl, fun k => ⟨fun _ => rfl, fun s d hk => by cases hk⟩⟩,
    Nat.zero_le _, by simp, by simp⟩

end Invariant

/-! ### A pull of two pages -/

def areaRow (id name : String) : Row := ⟨(.area, id), .area ⟨id, name⟩⟩

/-- The outlet has two areas. -/
def twoAreas : CurrentRows := .put (.put .empty (areaRow "in" "Indoors")) (areaRow "out" "Terrace")

/-- One is renamed, and the other is gone. -/
def oneArea : CurrentRows := .put .empty (areaRow "out" "Garden")

/-- The areas change after the first of two pages was read, and the device pulls once more. -/
def pullRun : List FeedAction :=
  [.begin, .refreshFor 0 10000 twoAreas, .read 0 1, .refresh 20000 oneArea, .apply 0,
    .refreshFor 0 21000 oneArea, .read 0 5, .apply 0]

end StelloKitchens.Feed
