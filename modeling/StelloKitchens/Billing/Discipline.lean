import StelloKitchens.Billing.Frames
import StelloKitchens.Billing.Requests

/-!
# The locking discipline of bills

What holds of the billing tables between transactions, and what a commit does to them: one move
of the bills, and lines written only on bills that are locked and neither split nor checks. What
a transaction has read stays true as far as it holds the locks for it.

## Main definitions

* `Sound` — what holds of the billing tables.
* `Commit` — what a commit does.
* `billingDiscipline` — the discipline of the two.

## Main results

* `Sound.commit` — a commit keeps the tables sound.
* `stable_frame`, `stable_checks`, `stable_free`, `stable_fresh` — what locks and numbers protect.
-/

namespace StelloKitchens.Billing

open Checked Discipline

/-! ### The tables -/

/-- The outlet of a bill is there, and its table is one of the outlet's. -/
def Placed (db : BillingDb) (F : Frame) : Prop :=
  (db.outlets.find? F.outletId).isSome ∧
    ∀ t, F.tableId = some t → ∃ T ∈ db.tables, T.id = t ∧ T.outletId = F.outletId

/-- What holds of the billing tables, with the next number to draw. -/
structure Sound (db : BillingDb) (n : ℕ) : Prop where
  frames : FramesInv db.frames
  placed : ∀ F ∈ db.frames, Placed db F
  drawn : ∀ F ∈ db.frames, F.id.stamp < n
  items : ∀ i ∈ db.items, i.id.stamp < n ∧ ∃ F ∈ db.frames, F.id = i.orderId
  kots : ∀ k ∈ db.kots, k.id.stamp < n
  /-- Checks that were removed stay away. -/
  removed : ∀ u ∈ db.unsplits, ∀ id ∈ u.removedChecks, id.stamp < n ∧ ∀ F ∈ db.frames, F.id ≠ id
  codes : ∀ c ∈ db.coupons, ∀ d ∈ db.coupons, c.outletId = d.outletId → c.code = d.code → c = d
  /-- A coupon's counter counts the settled bills that carry it. -/
  used : ∀ c ∈ db.coupons, c.rule.usedCount = uses db.frames c.outletId c.code

/-- No row has a number. -/
structure Fresh (m : ℕ) (db : BillingDb) : Prop where
  frames : ∀ F ∈ db.frames, F.id.stamp ≠ m
  items : ∀ i ∈ db.items, i.id.stamp ≠ m
  kots : ∀ k ∈ db.kots, k.id.stamp ≠ m
  removed : ∀ u ∈ db.unsplits, ∀ id ∈ u.removedChecks, id.stamp ≠ m

theorem Sound.fresh {db : BillingDb} {n : ℕ} (h : Sound db n) : Fresh n db :=
  ⟨fun F hF => (h.drawn F hF).ne, fun i hi => (h.items i hi).1.ne, fun k hk => (h.kots k hk).ne,
    fun u hu id hid => (h.removed u hu id hid).1.ne⟩

/-! ### Commits -/

/-- What a commit enters in the log of undone splits. -/
def BillEvent.entries : BillEvent → List Unsplit
  | .unsplit u => [u]
  | _ => []

/-- A coupon with some more uses. -/
def Coupon.count (c : Coupon) (k : ℕ) : Coupon :=
  { c with rule := { c.rule with usedCount := c.rule.usedCount + k } }

/-- What a commit does to the lines. -/
structure LinesStep (L : Hold LockKey → Prop) (s s' : BillingDb) : Prop where
  /-- Lines are written only on bills that are locked and neither split nor checks. -/
  items : ∀ F ∈ s.frames, ¬L (.lock (.order F.id)) ∨ ¬F.Plain →
    (∀ i : OrderItem, i.orderId = F.id → (i ∈ s'.items ↔ i ∈ s.items)) ∨ ∀ F' ∈ s'.frames, F'.id ≠ F.id
  home : ∀ i ∈ s'.items, ∃ F ∈ s'.frames, F.id = i.orderId
  itemIds : ∀ i ∈ s'.items, L (.number i.id.stamp) ∨ ∃ j ∈ s.items, j.id = i.id

/-- What the commit of a transaction that holds certain locks and numbers does. -/
structure Commit (L : Hold LockKey → Prop) (e : BillEvent) (s s' : BillingDb) : Prop
    extends LinesStep L s s' where
  move : BillMove L s.frames e s'.frames
  fresh : ∀ m, L (.number m) → Fresh m s
  placed : ∀ F ∈ s'.frames, Placed s F
  log : s'.unsplits = s.unsplits ++ e.entries
  kotIds : ∀ k ∈ s'.kots, L (.number k.id.stamp) ∨ ∃ j ∈ s.kots, j.id = k.id
  coupons : ∀ c', c' ∈ s'.coupons ↔ ∃ c ∈ s.coupons, c' = c.count (e.uses c.outletId c.code)
  couponLocks : ∀ c ∈ s.coupons, e.uses c.outletId c.code = 0 ∨ L (.lock (.coupon c.id))
  tables : s'.tables = s.tables
  outlets : ∀ id, (s.outlets.find? id).isSome → (s'.outlets.find? id).isSome

section Commit

variable {L : Locks} {e : BillEvent} {s s' : BillingDb} {n : ℕ}

theorem BillingDb.nodup_frames (db : BillingDb) : (db.frames.map Frame.id).Nodup := by
  have h := db.orders.nodup_keys
  rw [BillingDb.frames, List.map_map]
  exact h

theorem Commit.frameStep (hc : Commit L e s s') (hs : Sound s n) : FrameStep L s.frames s'.frames :=
  hc.move.step hs.frames s.unique_frames

/-- A commit keeps the tables sound. -/
theorem Sound.commit (hs : Sound s n) (hdrawn : ∀ m, L (.number m) → m < n)
    (hc : Commit L e s s') : Sound s' n := by
  have hstep := hc.frameStep hs
  have hold : ∀ {id : RowId}, L (.number id.stamp) ∨ id.stamp < n → id.stamp < n :=
    fun h => h.elim (hdrawn _) id
  refine ⟨hc.move.inv hs.frames s.unique_frames, fun F hF => ?_, fun F hF => ?_, fun i hi => ?_,
    fun k hk => ?_, fun u hu id hid => ?_, fun c hc' d hd hout hcode => ?_, fun c hc' => ?_⟩
  · obtain ⟨hout, htab⟩ := hc.placed F hF
    exact ⟨hc.outlets _ hout, fun t ht => hc.tables ▸ htab t ht⟩
  · refine hold ((hstep.origin F hF).imp_right ?_)
    rintro ⟨G, hG, hid, -⟩
    exact hid ▸ hs.drawn G hG
  · refine ⟨hold ((hc.itemIds i hi).imp_right ?_), hc.home i hi⟩
    rintro ⟨j, hj, hid⟩
    exact hid ▸ (hs.items j hj).1
  · refine hold ((hc.kotIds k hk).imp_right ?_)
    rintro ⟨j, hj, hid⟩
    exact hid ▸ hs.kots j hj
  · rw [hc.log, List.mem_append] at hu
    rcases hu with hu | hu
    · obtain ⟨hlt, haway⟩ := hs.removed u hu id hid
      refine ⟨hlt, fun F hF hFid => ?_⟩
      rcases hstep.origin F hF with hL | ⟨G, hG, hGid, -⟩
      · exact (hc.fresh _ hL).removed u hu id hid (hFid ▸ rfl)
      · exact haway G hG (hGid.trans hFid)
    · obtain rfl : e = .unsplit u := by
        cases e <;> simp [BillEvent.entries] at hu
        rw [hu]
      obtain ⟨hthere, -, -, hgone⟩ := hc.move.of_unsplit hs.frames
      obtain ⟨C, hC, rfl⟩ := hthere id hid
      exact ⟨hs.drawn C hC, fun F hF hFid => hgone F hF (hFid ▸ hid)⟩
  · obtain ⟨c₀, hc₀, rfl⟩ := (hc.coupons c).mp hc'
    obtain ⟨d₀, hd₀, rfl⟩ := (hc.coupons d).mp hd
    rw [hs.codes c₀ hc₀ d₀ hd₀ hout hcode]
  · obtain ⟨c₀, hc₀, rfl⟩ := (hc.coupons c).mp hc'
    have huses := hc.move.uses hs.frames s.nodup_frames c₀.outletId c₀.code
    change c₀.rule.usedCount + _ = (uses s'.frames c₀.outletId c₀.code : ℤ)
    rw [huses, hs.used c₀ hc₀]
    push_cast
    rfl

end Commit

/-- Some lines were written, each anew or in the place of the line with its id. -/
structure Puts (rows : List OrderItem) (s s' : BillingDb) : Prop where
  mem : ∀ i ∈ s'.items, i ∈ rows ∨ (i ∈ s.items ∧ ∀ r ∈ rows, r.id ≠ i.id)
  keep : ∀ i ∈ s.items, (∀ r ∈ rows, r.id ≠ i.id) → i ∈ s'.items

theorem Puts.nil (h : s'.items = s.items) : Puts [] s s' :=
  ⟨fun i hi => .inr ⟨h ▸ hi, by simp⟩, fun i hi _ => h ▸ hi⟩

theorem Puts.append {rows rows' : List OrderItem} {s'' : BillingDb} (h : Puts rows s s')
    (h' : Puts rows' s' s'') : Puts (rows ++ rows') s s'' := by
  refine ⟨fun i hi => ?_, fun i hi hne => ?_⟩
  · rcases h'.mem i hi with hi | ⟨hi, hne'⟩
    · exact .inl (List.mem_append_right _ hi)
    · rcases h.mem i hi with hi | ⟨hi, hne⟩
      · exact .inl (List.mem_append_left _ hi)
      · exact .inr ⟨hi, fun r hr => (List.mem_append.mp hr).elim (hne r) (hne' r)⟩
  · exact h'.keep i (h.keep i hi fun r hr => hne r (List.mem_append_left _ hr))
      fun r hr => hne r (List.mem_append_right _ hr)

/-- A bill one may write lines on: locked and neither split nor a check, or one's own. -/
def Writable (L : Hold LockKey → Prop) (s : BillingDb) (id : RowId) : Prop :=
  L (.number id.stamp) ∨ ∃ F ∈ s.frames, F.id = id ∧ L (.lock (.order id)) ∧ F.Plain

theorem Puts.linesStep {rows : List OrderItem} (hputs : Puts rows s s') (hs : Sound s n)
    (hfresh : ∀ m, L (.number m) → Fresh m s)
    (hstay : ∀ F ∈ s.frames, ∃ F' ∈ s'.frames, F'.id = F.id)
    (hrows : ∀ r ∈ rows, Writable L s r.orderId ∧ (∃ F ∈ s'.frames, F.id = r.orderId) ∧
      (L (.number r.id.stamp) ∨ ∃ j ∈ s.items, j.id = r.id ∧ Writable L s j.orderId)) :
    LinesStep L s s' := by
  refine ⟨fun F hF hnot => .inl fun i hi => ?_, fun i hi => ?_, fun i hi => ?_⟩
  · have hclosed : ¬Writable L s F.id := by
      rintro (hL | ⟨G, hG, hid, hlock, hplain⟩)
      · exact (hfresh _ hL).frames F hF rfl
      · rw [s.unique_frames G hG F hF hid] at hplain
        exact hnot.elim (fun h => h hlock) fun h => h hplain
    refine ⟨fun hmem => ?_, fun hmem => hputs.keep i hmem fun r hr hid => ?_⟩
    · rcases hputs.mem i hmem with hrow | ⟨hmem, -⟩
      · exact absurd (hi ▸ (hrows i hrow).1) hclosed
      · exact hmem
    · rcases (hrows r hr).2.2 with hL | ⟨j, hj, hjid, hwrite⟩
      · exact (hfresh _ hL).items i hmem (hid ▸ rfl)
      · rw [KeyedTable.eq_of_mem hj hmem (hjid.trans hid), hi] at hwrite
        exact hclosed hwrite
  · rcases hputs.mem i hi with hrow | ⟨hmem, -⟩
    · exact (hrows i hrow).2.1
    · obtain ⟨F, hF, hid⟩ := (hs.items i hmem).2
      obtain ⟨F', hF', hid'⟩ := hstay F hF
      exact ⟨F', hF', hid'.trans hid⟩
  · rcases hputs.mem i hi with hrow | ⟨hmem, -⟩
    · exact (hrows i hrow).2.2.imp_right fun ⟨j, hj, hid, _⟩ => ⟨j, hj, hid⟩
    · exact .inr ⟨i, hmem, rfl⟩

/-- What most commits leave alone. -/
structure Rest (s s' : BillingDb) : Prop where
  coupons : s'.coupons = s.coupons
  tables : s'.tables = s.tables
  unsplits : s'.unsplits = s.unsplits
  outlets : ∀ id, ((s'.outlets.find? id).isSome ↔ (s.outlets.find? id).isSome)

@[simp] theorem Coupon.count_zero (c : Coupon) : c.count 0 = c := by
  simp [Coupon.count]

/-- A commit that leaves coupons, tables and the log alone. -/
theorem LinesStep.commit (hlines : LinesStep L s s') (hmove : BillMove L s.frames .none s'.frames)
    (hfresh : ∀ m, L (.number m) → Fresh m s) (hplaced : ∀ F ∈ s'.frames, Placed s F)
    (hkots : ∀ k ∈ s'.kots, L (.number k.id.stamp) ∨ ∃ j ∈ s.kots, j.id = k.id)
    (hrest : Rest s s') : Commit L .none s s' where
  toLinesStep := hlines
  move := hmove
  fresh := hfresh
  placed := hplaced
  log := by simp [hrest.unsplits, BillEvent.entries]
  kotIds := hkots
  coupons c' := by simp [hrest.coupons, BillEvent.uses]
  couponLocks c hc := .inl rfl
  tables := hrest.tables
  outlets id := (hrest.outlets id).mpr

/-- The discipline of the billing tables. -/
def billingDiscipline : Discipline BillingDb LockKey where
  inv := Sound
  step L s s' := ∃ e, Commit L e s s'
  inv_mono hle h := { h with
    drawn := fun F hF => (h.drawn F hF).trans_le hle
    items := fun i hi => ⟨(h.items i hi).1.trans_le hle, (h.items i hi).2⟩
    kots := fun k hk => (h.kots k hk).trans_le hle
    removed := fun u hu id hid =>
      ⟨(h.removed u hu id hid).1.trans_le hle, (h.removed u hu id hid).2⟩ }

/-- Where no bill is yet, the tables are sound. -/
theorem NoBills.sound {db : BillingDb} (h : NoBills db) (n : ℕ) : Sound db n := by
  have hframes : db.frames = [] := by
    rw [BillingDb.frames, h.orders]
    rfl
  refine ⟨?_, ?_, ?_, ?_, ?_, ?_, h.codes, fun c hc => ?_⟩
  · rw [hframes]
    exact ⟨fun F hF => by simp at hF, fun F hF => by simp at hF, fun F hF => by simp at hF,
      fun F hF => by simp at hF⟩
  · simp [hframes]
  · simp [hframes]
  · simp [h.items]
  · simp [h.kots]
  · simp [h.unsplits]
  · rw [h.unused c hc, hframes]
    rfl

/-- What is to hold after a statement: of what is held and known then, of the writes so far and of what
it returns. -/
abbrev Post (α : Type) := Locks → (BillingDb → Prop) → (BillingDb → BillingDb) → α → Prop

/-- What was written may be committed. -/
abbrev committed {α : Type} : Post α := fun L K f _ => billingDiscipline.Commits L K f

/-! ### What locks protect -/

/-- The table is one of the outlet's. -/
abbrev BillingDb.HasTable (db : BillingDb) (outletId tableId : String) : Prop :=
  ∃ T ∈ db.tables, T.id = tableId ∧ T.outletId = outletId

section Stable

variable {L : Locks}

/-- A bill that is locked stays as it is. -/
theorem stable_frame {F : Frame} (hL : L (.lock (.order F.id))) :
    billingDiscipline.Stable L fun s => F ∈ s.frames := by
  rintro L' s n s' n' hs - hother ⟨e, hc⟩ hF
  exact ((hc.frameStep hs).kept F hF (hother _ hL)).1

/-- A bill that is locked keeps its checks. -/
theorem stable_checks {P : Frame} {cs : List Frame} (hL : L (.lock (.order P.id))) :
    billingDiscipline.Stable L fun s => P ∈ s.frames ∧
      ∀ C : Frame, C.parentOrderId = some P.id → (C ∈ s.frames ↔ C ∈ cs) := by
  rintro L' s n s' n' hs - hother ⟨e, hc⟩ ⟨hP, hcs⟩
  obtain ⟨hP', hkept⟩ := (hc.frameStep hs).kept P hP (hother _ hL)
  exact ⟨hP', fun C hC => (hkept C hC).trans (hcs C hC)⟩

/-- A bill that is locked keeps its lines. -/
theorem stable_items {F : Frame} {lines : List OrderItem} (hL : L (.lock (.order F.id))) :
    billingDiscipline.Stable L fun s => F ∈ s.frames ∧
      ∀ i : OrderItem, i.orderId = F.id → (i ∈ s.items ↔ i ∈ lines) := by
  rintro L' s n s' n' hs - hother ⟨e, hc⟩ ⟨hF, hlines⟩
  have hF' := ((hc.frameStep hs).kept F hF (hother _ hL)).1
  refine ⟨hF', fun i hi => ?_⟩
  rcases hc.items F hF (.inl (hother _ hL)) with hsame | hgone
  · exact (hsame i hi).trans (hlines i hi)
  · exact absurd rfl (hgone F hF')

/-- A free table that is locked stays free. -/
theorem stable_free {t : String} (hL : L (.lock (.table t))) :
    billingDiscipline.Stable L fun s => Free s.frames t := by
  rintro L' s n s' n' hs - hother ⟨e, hc⟩ hfree
  exact (hc.frameStep hs).table t (hother _ hL) hfree

theorem stable_table {t outletId : String} :
    billingDiscipline.Stable L fun s => ∃ T ∈ s.tables, T.id = t ∧ T.outletId = outletId := by
  rintro L' s n s' n' - - - ⟨e, hc⟩ h
  rw [hc.tables]
  exact h

theorem stable_outlet {id : String} :
    billingDiscipline.Stable L fun s => (s.outlets.find? id).isSome = true := by
  rintro L' s n s' n' - - - ⟨e, hc⟩ h
  exact hc.outlets id h

/-- A number stays unused by the others. -/
theorem stable_fresh {m : ℕ} (hL : L (.number m)) : billingDiscipline.Stable L (Fresh m) := by
  rintro L' s n s' n' hs - hother ⟨e, hc⟩ hm
  have hnot : ∀ {id : RowId}, L' (.number id.stamp) → id.stamp ≠ m := by
    rintro id hL' rfl
    exact hother _ hL hL'
  refine ⟨fun F hF => ?_, fun i hi => ?_, fun k hk => ?_, fun u hu id hid => ?_⟩
  · rcases (hc.frameStep hs).origin F hF with h | ⟨G, hG, hid, -⟩
    · exact hnot h
    · exact hid ▸ hm.frames G hG
  · rcases hc.itemIds i hi with h | ⟨j, hj, hid⟩
    · exact hnot h
    · exact hid ▸ hm.items j hj
  · rcases hc.kotIds k hk with h | ⟨j, hj, hid⟩
    · exact hnot h
    · exact hid ▸ hm.kots j hj
  · rw [hc.log, List.mem_append] at hu
    rcases hu with hu | hu
    · exact hm.removed u hu id hid
    · obtain rfl : e = .unsplit u := by
        cases e <;> simp [BillEvent.entries] at hu
        rw [hu]
      obtain ⟨C, hC, rfl⟩ := (hc.move.of_unsplit hs.frames).1 id hid
      exact hm.frames C hC

theorem stable_coupon {id outletId code : String} : billingDiscipline.Stable L fun s =>
    ∃ c ∈ s.coupons, c.id = id ∧ c.outletId = outletId ∧ c.code = code := by
  rintro L' s n s' n' - - - ⟨e, hc⟩ ⟨c, hmem, h⟩
  exact ⟨_, (hc.coupons _).mpr ⟨c, hmem, rfl⟩, h⟩

/-- A bill is there, or it was a check that was removed. -/
def Known (F : Frame) (db : BillingDb) : Prop :=
  (∃ G ∈ db.frames, F.Same G) ∨ ∃ u ∈ db.unsplits, F.id ∈ u.removedChecks

theorem stable_known {F : Frame} : billingDiscipline.Stable L (Known F) := by
  rintro L' s n s' n' - - - ⟨e, hc⟩ (⟨G, hG, hsame⟩ | ⟨u, hu, hmem⟩)
  · rcases hc.move.stays hG with ⟨G', hG', hsame'⟩ | ⟨u, rfl, hmem⟩
    · exact .inl ⟨G', hG', hsame.trans hsame'⟩
    · exact .inr ⟨u, by rw [hc.log]; simp [BillEvent.entries], hsame.1 ▸ hmem⟩
  · exact .inr ⟨u, by rw [hc.log]; simp [hu], hmem⟩

/-- What is known of a bill that is there. -/
theorem Sound.same {db : BillingDb} {n : ℕ} (h : Sound db n) {F G : Frame} (hF : Known F db)
    (hG : G ∈ db.frames) (hid : G.id = F.id) : F.Same G := by
  rcases hF with ⟨G', hG', hsame⟩ | ⟨u, hu, hmem⟩
  · rwa [db.unique_frames G hG G' hG' (hid.trans hsame.1)]
  · exact absurd hid ((h.removed u hu _ hmem).2 G hG)

end Stable

end StelloKitchens.Billing
