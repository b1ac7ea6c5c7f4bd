import StelloKitchens.Billing.Effects

/-!
# The transactions keep the discipline

Each transaction on bills, statement by statement, keeps the locking discipline: what it reads
under its locks stays true until it commits, and what it commits is one move of the bills.

## Main results

* `settle_safe` — settling a bill keeps the discipline.
* `BillingRequest.safe` (in `OpenBills`) — so does the transaction of every request.
-/

namespace StelloKitchens.Billing

open Checked Tx Discipline

variable {L : Locks} {K : BillingDb → Prop}

/-! ### Rules -/

section Rules

/-- A part of a transaction that writes on the side. -/
theorem wp_aside {α : Type} {t : BillingTx α} {f : BillingDb → BillingDb} {post : Post α}
    (ht : t.Does fun w _ => Aside w) (hK : billingDiscipline.Stable L K)
    (h : ∀ L' w a, Extends L L' → Aside w → billingDiscipline.Stable L' K → post L' K (w ∘ f) a) :
    billingDiscipline.wp t L K f post :=
  wp_does ht hK fun L' w a hL hw => h L' w a hL hw (hK.anti hL.holds)

theorem wp_recompute {orderId : RowId} {discount : Option Binary64} {plain : Bool}
    {f : BillingDb → BillingDb} {post : Post OrderFigures} (hK : billingDiscipline.Stable L K)
    (h : ∀ L' w a, Extends L L' → Aside w → billingDiscipline.Stable L' K → post L' K (w ∘ f) a) :
    billingDiscipline.wp (recomputeTotals orderId discount plain) L K f post :=
  wp_aside ((does_recomputeTotals orderId discount plain).mono fun _ figures hw =>
    hw ▸ aside_setFigures orderId figures) hK h

theorem wp_requireOrder {user : AuthUser} {orderId : RowId}
    {post : Post Order}
    (hK : billingDiscipline.Stable L K)
    (h : ∀ o : Order, o.id = orderId → billingDiscipline.Stable L (fun s => K s ∧ Known o.frame s) →
      post L (fun s => K s ∧ Known o.frame s) id o) :
    billingDiscipline.wp (requireOrder user orderId) L K id post := by
  simp only [requireOrder, wp_bind]
  refine wp_query hK fun s n hs hKs => ?_
  cases hrow : s.orders.find? orderId with
  | none =>
    refine ⟨fun _ => True, stable_true, trivial, ?_⟩
    exact wp_require fun o ho => by rw [id, hrow] at ho; cases ho
  | some row =>
    obtain ⟨hmem, hid⟩ := KeyedTable.find?_eq_some.mp hrow
    refine ⟨Known row.frame, stable_known,
      .inl ⟨row.frame, (mem_frames s).mpr ⟨row, hmem, rfl⟩, rfl, rfl, rfl⟩, ?_⟩
    refine wp_require fun o ho => ?_
    obtain rfl : row = o := by
      rw [id, hrow] at ho
      exact Option.some.inj ho
    exact wp_ofExcept fun _ _ => h row hid (hK.and stable_known)

theorem wp_lockTable {outletId tableId : String}
    {post : Post Unit}
    (hK : billingDiscipline.Stable L K)
    (h : billingDiscipline.Stable (add L (.lock (.table tableId)))
        (fun s => K s ∧ s.HasTable outletId tableId) →
      post (add L (.lock (.table tableId)))
        (fun s => K s ∧ s.HasTable outletId tableId) id ()) :
    billingDiscipline.wp (lockTable outletId tableId) L K id post := by
  simp only [lockTable, wp_bind, wp_acquire]
  refine wp_query (hK.add _) fun s n hs hKs => ?_
  by_cases hT : s.HasTable outletId tableId
  · refine ⟨_, stable_table, hT, wp_check fun _ => h ((hK.add _).and stable_table)⟩
  · refine ⟨fun _ => True, stable_true, trivial, wp_check fun hany => absurd ?_ hT⟩
    obtain ⟨T, hfind, hout⟩ := (Option.any_eq_true _ _).mp hany
    obtain ⟨hmem, hid⟩ := KeyedTable.find?_eq_some.mp hfind
    exact ⟨T, hmem, hid, of_decide_eq_true hout⟩

theorem wp_lockOpenOrder {user : AuthUser} {orderId : RowId}
    {post : Post Order}
    (hK : billingDiscipline.Stable L K)
    (h : ∀ o : Order, o.id = orderId → o.status = .opened →
      billingDiscipline.Stable (add L (.lock (.order orderId)))
        (fun s => K s ∧ o.frame ∈ s.frames) →
      post (add L (.lock (.order orderId))) (fun s => K s ∧ o.frame ∈ s.frames) id o) :
    billingDiscipline.wp (lockOpenOrder user orderId) L K id post := by
  simp only [lockOpenOrder, wp_bind, wp_acquire]
  refine wp_query (hK.add _) fun s n hs hKs => ?_
  cases hrow : s.orders.find? orderId with
  | none =>
    refine ⟨fun _ => True, stable_true, trivial, ?_⟩
    exact wp_require fun o ho => by rw [id, hrow] at ho; cases ho
  | some row =>
    obtain ⟨hmem, rfl⟩ := KeyedTable.find?_eq_some.mp hrow
    have hstable : billingDiscipline.Stable (add L (.lock (.order row.id)))
        fun s => row.frame ∈ s.frames := stable_frame (.inl rfl)
    refine ⟨_, hstable, (mem_frames s).mpr ⟨row, hmem, rfl⟩, ?_⟩
    refine wp_require fun o ho => ?_
    obtain rfl : row = o := by
      rw [id, hrow] at ho
      exact Option.some.inj ho
    refine wp_ofExcept fun _ _ => wp_check fun hopen => ?_
    exact h row rfl hopen ((hK.add _).and hstable)

theorem wp_lockTables {outletId : String} {tableIds : List (Option String)}
    {post : Post Unit}
    (hK : billingDiscipline.Stable L K)
    (h : ∀ L' K', Extends L L' → billingDiscipline.Stable L' K' → (∀ s, K' s → K s) →
      (∀ t, some t ∈ tableIds → t ≠ "" → L' (.lock (.table t)) ∧
        ∀ s, K' s → s.HasTable outletId t) →
      post L' K' id ()) :
    billingDiscipline.wp (lockTables outletId tableIds) L K id post := by
  have heach : ∀ (ids : List String) (L : Locks) (K : BillingDb → Prop),
      billingDiscipline.Stable L K →
      billingDiscipline.wp (lockTables.lockEach outletId ids) L K id fun L' K' f _ => f = id ∧
        Extends L L' ∧ (∀ t ∈ ids, L' (.lock (.table t))) ∧ billingDiscipline.Stable L' K' ∧
        ∀ s, K' s → K s ∧ ∀ t ∈ ids, s.HasTable outletId t := by
    intro ids
    induction ids with
    | nil =>
      intro L K hK
      exact ⟨rfl, .refl L, fun t ht => (by cases ht), hK, fun s hs => ⟨hs, fun t ht => by cases ht⟩⟩
    | cons t ids ih =>
      intro L K hK
      simp only [lockTables.lockEach, wp_bind]
      refine wp_lockTable hK fun hK' => wp_mono (ih _ _ hK') ?_
      rintro L' K' f - ⟨rfl, hL, hids, hstable, hknow⟩
      refine ⟨rfl, (Extends.lock L _).trans hL, fun u hu => ?_, hstable, fun s hs => ?_⟩
      · rcases List.mem_cons.mp hu with rfl | hu
        · exact hL.holds _ (.inl rfl)
        · exact hids u hu
      · obtain ⟨⟨hKs, hT⟩, hall⟩ := hknow s hs
        refine ⟨hKs, fun u hu => ?_⟩
        rcases List.mem_cons.mp hu with rfl | hu
        · exact hT
        · exact hall u hu
  have hmem : ∀ t, some t ∈ tableIds → t ≠ "" →
      t ∈ (tableIds.filterMap truthy).dedup.insertionSort (· ≤ ·) := by
    intro t ht hne
    rw [List.mem_insertionSort, List.mem_dedup, List.mem_filterMap]
    exact ⟨some t, ht, by simp [truthy, hne]⟩
  refine wp_mono (heach _ L K hK) ?_
  rintro L' K' f - ⟨rfl, hL, hids, hstable, hknow⟩
  exact h L' K' hL hstable (fun s hs => (hknow s hs).1) fun t ht hne =>
    ⟨hids t (hmem t ht hne), fun s hs => (hknow s hs).2 t (hmem t ht hne)⟩

/-- Bills that are locked one after another are there, and their rows are read under the locks. -/
theorem wp_lockOrders {user : AuthUser} {ids : List RowId}
    {post : Post (List Order)}
    (hK : billingDiscipline.Stable L K)
    (h : ∀ L' K' rows, Extends L L' → billingDiscipline.Stable L' K' → (∀ s, K' s → K s) →
      (∀ id ∈ ids, L' (.lock (.order id)) ∧ ∀ s, K' s → ∃ F ∈ s.frames, F.id = id) →
      (∀ o ∈ rows, o.id ∈ ids ∧ ∀ s, K' s → o.frame ∈ s.frames) → post L' K' id rows) :
    billingDiscipline.wp (lockOrders user ids) L K id post := by
  have heach : ∀ (ids : List RowId) (L : Locks) (K : BillingDb → Prop),
      billingDiscipline.Stable L K →
      billingDiscipline.wp (lockOrders.lockEach ids) L K id fun L' K' f _ => f = id ∧
        Extends L L' ∧ billingDiscipline.Stable L' K' ∧ (∀ s, K' s → K s) ∧
        ∀ id ∈ ids, L' (.lock (.order id)) ∧ ∀ s, K' s → ∃ F ∈ s.frames, F.id = id := by
    intro ids
    induction ids with
    | nil =>
      intro L K hK
      exact ⟨rfl, .refl L, hK, fun s hs => hs, fun t ht => by cases ht⟩
    | cons orderId ids ih =>
      intro L K hK
      simp only [lockOrders.lockEach, wp_bind, wp_acquire]
      refine wp_query (hK.add _) fun s n hs hKs => ?_
      cases hrow : s.orders.find? orderId with
      | none =>
        refine ⟨fun _ => True, stable_true, trivial, wp_check fun hsome => ?_⟩
        rw [id, hrow] at hsome
        cases hsome
      | some row =>
        obtain ⟨hmem, rfl⟩ := KeyedTable.find?_eq_some.mp hrow
        have hstable : billingDiscipline.Stable (add L (.lock (.order row.id)))
            fun s => row.frame ∈ s.frames := stable_frame (.inl rfl)
        refine ⟨_, hstable, (mem_frames s).mpr ⟨row, hmem, rfl⟩, wp_check fun _ => ?_⟩
        refine wp_mono (ih _ _ ((hK.add _).and hstable)) ?_
        rintro L' K' f - ⟨rfl, hL, hstable', hback, hids⟩
        refine ⟨rfl, (Extends.lock L _).trans hL, hstable', fun s hs => (hback s hs).1,
          fun x hx => ?_⟩
        rcases List.mem_cons.mp hx with rfl | hx
        · exact ⟨hL.holds _ (.inl rfl), fun s hs => ⟨row.frame, (hback s hs).2, rfl⟩⟩
        · exact hids x hx
  have hsorted : ∀ x, x ∈ ids.dedup.insertionSort (fun a b => a.le b) ↔ x ∈ ids := fun x => by
    rw [List.mem_insertionSort, List.mem_dedup]
  simp only [lockOrders, wp_bind]
  refine wp_mono (heach _ L K hK) ?_
  rintro L' K' f - ⟨rfl, hL, hstable, hback, hids⟩
  refine wp_query hstable fun s n hs hKs => ?_
  -- every row read is of a bill that is locked
  have hrows : ∀ o ∈ s.orders.rows.filter fun o => decide (o.id ∈ ids.dedup.insertionSort
      fun a b => a.le b), o.id ∈ ids ∧ o.frame ∈ s.frames := by
    intro o ho
    obtain ⟨ho, hid⟩ := List.mem_filter.mp ho
    exact ⟨(hsorted _).mp (of_decide_eq_true hid), (mem_frames s).mpr ⟨o, ho, rfl⟩⟩
  have hframes : billingDiscipline.Stable L' fun s' =>
      ∀ o ∈ s.orders.rows.filter (fun o => decide (o.id ∈ ids.dedup.insertionSort
        fun a b => a.le b)), o.frame ∈ s'.frames := by
    intro M t n t' n' ht ht' hM hstep hall o ho
    have hlock := (hids o.id ((hsorted _).mpr (hrows o ho).1)).1
    exact (stable_frame hlock) M t n t' n' ht ht' hM hstep (hall o ho)
  refine ⟨_, hframes, fun o ho => (hrows o ho).2, wp_check fun _ => ?_⟩
  rw [wp_pure]
  refine h L' _ _ hL (hstable.and hframes) (fun s hs => hback s hs.1) (fun x hx => ?_)
    fun o ho => ⟨(hrows o ho).1, fun s hs => hs.2 o ho⟩
  obtain ⟨hlock, hthere⟩ := hids x ((hsorted x).mpr hx)
  exact ⟨hlock, fun s hs => hthere s hs.1⟩

end Rules

/-! ### Commits -/

section Commits

variable {s s' : BillingDb} {n : ℕ}

theorem commits {f : BillingDb → BillingDb}
    (h : ∀ s n, Sound s n → K s → ∃ e, Commit L e s (f s)) : billingDiscipline.Commits L K f := by
  intro s n hs hdrawn hK
  obtain ⟨e, hc⟩ := h s n hs hK
  exact ⟨hs.commit hdrawn hc, e, hc⟩

theorem assertNotSplit_eq_ok {o : Order} {action : String} {u : Unit}
    (h : assertNotSplit o action = .ok u) : o.frame.Plain := by
  rw [assertNotSplit, bind_eq_ok] at h
  obtain ⟨_, hsplit, h⟩ := h
  exact ⟨ensure_eq_ok.mp hsplit, ensure_eq_ok.mp h⟩

theorem assertMergeable_eq_ok {o : Order} {label : String} {u : Unit}
    (h : assertMergeable o label = .ok u) : o.status = .opened ∧ o.frame.Plain := by
  rw [assertMergeable, bind_eq_ok] at h
  obtain ⟨_, hopen, h⟩ := h
  exact ⟨ensure_eq_ok.mp hopen, assertNotSplit_eq_ok h⟩

/-- A change that leaves bills in their outlet and at their table leaves them in place. -/
theorem placed_edit (hs : Sound s n) {p : Frame → Prop} [DecidablePred p] {f : Frame → Frame}
    (hf : ∀ F, (f F).outletId = F.outletId ∧ (f F).tableId = F.tableId) :
    ∀ F ∈ edit p f s.frames, Placed s F := by
  intro F hF
  obtain ⟨G, hG, ⟨-, rfl⟩ | ⟨-, rfl⟩⟩ := mem_edit.mp hF
  · obtain ⟨hout, htab⟩ := hs.placed G hG
    exact ⟨(hf G).1 ▸ hout, fun t ht => (hf G).1 ▸ htab t ((hf G).2 ▸ ht)⟩
  · exact hs.placed F hG

theorem stay_edit {p : Frame → Prop} [DecidablePred p] {f : Frame → Frame} {fs : List Frame}
    (hf : ∀ F : Frame, F.Same (f F)) : ∀ F ∈ fs, ∃ F' ∈ edit p f fs, F'.id = F.id := by
  intro F hF
  obtain ⟨F', hF', hsame⟩ := @stays_edit p _ f fs hf F hF
  exact ⟨F', hF', hsame.1.symm⟩

theorem edit_congr {p q : Frame → Prop} [DecidablePred p] [DecidablePred q] {f : Frame → Frame}
    {fs : List Frame} (h : ∀ F ∈ fs, p F ↔ q F) : edit p f fs = edit q f fs := by
  rw [edit, edit]
  refine List.map_congr_left fun F hF => ?_
  by_cases hp : p F
  · rw [if_pos hp, if_pos ((h F hF).mp hp)]
  · rw [if_neg hp, if_neg fun hq => hp ((h F hF).mpr hq)]

theorem Aside.rest {w : BillingDb → BillingDb} (hw : Aside w) (hrest : Rest s s') :
    Rest s (w s') where
  coupons := (hw.coupons _).trans hrest.coupons
  tables := (hw.tables _).trans hrest.tables
  unsplits := (hw.unsplits _).trans hrest.unsplits
  outlets id := by rw [hw.outlets]; exact hrest.outlets id

theorem Rest.refl (s : BillingDb) : Rest s s := ⟨rfl, rfl, rfl, fun _ => Iff.rfl⟩

theorem Aside.puts {w : BillingDb → BillingDb} (hw : Aside w) {rows : List OrderItem}
    (hputs : Puts rows s s') : Puts rows s (w s') := by
  refine ⟨fun i hi => hputs.mem i ?_, fun i hi hne => ?_⟩
  · rwa [hw.items] at hi
  · rw [hw.items]
    exact hputs.keep i hi hne

theorem puts_putItems (s : BillingDb) (rows : List OrderItem) : Puts rows s (s.putItems rows) :=
  ⟨fun _ hi => mem_putItems s hi, fun _ hi hne => mem_putItems_of_mem s hi hne⟩

section Punch

variable (t : PunchTarget) (number : ℕ) (lines : List OrderItem) (choices : List ComboChoice)

theorem punchWrites_puts : Puts lines s (punchWrites t number lines choices s) := by
  have h := puts_putItems ((s.updateOutlet t.outletId
    (fun o => { o with nextKotNumber := o.nextKotNumber + 1 }) fun _ => rfl).insertKot
      ⟨t.kotId, t.outletId, t.orderId, number⟩) lines
  exact ⟨h.mem, h.keep⟩

theorem punchWrites_rest : Rest s (punchWrites t number lines choices s) := by
  refine ⟨rfl, rfl, rfl, fun id => ?_⟩
  rw [← @isSome_updateOutlet s t.outletId
    (fun o => { o with nextKotNumber := o.nextKotNumber + 1 }) (fun _ => rfl) id]
  rfl

theorem punchWrites_kots : ∀ k ∈ (punchWrites t number lines choices s).kots,
    k.id = t.kotId ∨ k ∈ s.kots := by
  intro k hk
  rcases KeyedTable.mem_put.mp hk with rfl | ⟨hk, -⟩
  · exact .inl rfl
  · exact .inr hk

end Punch

/-- A commit that leaves bills where they are and writes lines. -/
theorem commit_stay {rows : List OrderItem} (hs : Sound s n)
    (hfresh : ∀ m, L (.number m) → Fresh m s) (hframes : s'.frames = s.frames)
    (hputs : Puts rows s s') (hrows : ∀ r ∈ rows, (∃ F ∈ s.frames, F.id = r.orderId ∧
      L (.lock (.order r.orderId)) ∧ F.Plain) ∧ L (.number r.id.stamp))
    (hkots : ∀ k ∈ s'.kots, L (.number k.id.stamp) ∨ ∃ j ∈ s.kots, j.id = k.id)
    (hrest : Rest s s') : Commit L .none s s' := by
  refine LinesStep.commit (hputs.linesStep hs hfresh ?_ fun r hr => ?_) (hframes ▸ .stay) hfresh
    (hframes ▸ hs.placed) hkots hrest
  · exact fun F hF => ⟨F, hframes ▸ hF, rfl⟩
  · obtain ⟨⟨F, hF, hid, hplain⟩, hstamp⟩ := hrows r hr
    exact ⟨.inr ⟨F, hF, hid, hplain⟩, ⟨F, hframes ▸ hF, hid⟩, .inl hstamp⟩

/-- A commit that changes bills that are locked and neither split nor checks. -/
theorem commit_edit {p : Frame → Prop} [DecidablePred p] {f : Frame → Frame} (hs : Sound s n)
    (hL : ∀ m, ¬L (.number m)) (hframes : s'.frames = edit p f s.frames)
    (hmove : BillMove L s.frames .none (edit p f s.frames)) (hf : ∀ F : Frame, F.Same (f F))
    (hplaced : ∀ F ∈ edit p f s.frames, Placed s F) (hitems : s'.items = s.items)
    (hkots : s'.kots = s.kots) (hrest : Rest s s') : Commit L .none s s' := by
  have hfresh : ∀ m, L (.number m) → Fresh m s := fun m hm => absurd hm (hL m)
  refine LinesStep.commit ((Puts.nil hitems).linesStep hs hfresh (hframes ▸ stay_edit hf) ?_)
    (hframes ▸ hmove) hfresh (hframes ▸ hplaced) (fun k hk => .inr ⟨k, hkots ▸ hk, rfl⟩) hrest
  simp

theorem not_number (hL : Extends (fun _ => False) L) (m : ℕ) : ¬L (.number m) := hL.numbers m

end Commits

/-! ### Closing bills -/

theorem cancel_safe (user : AuthUser) (orderId : RowId) :
    billingDiscipline.Safe (cancel user orderId) := by
  unfold Safe
  simp only [cancel, wp_bind]
  refine wp_lockOpenOrder stable_true fun o hid hopen _ => wp_ofExcept fun _ hsplit => ?_
  rw [wp_update]
  refine commits fun s n hs hk => ⟨.none, ?_⟩
  have hplain := assertNotSplit_eq_ok hsplit
  have hframes : (s.updateOrder orderId (fun o => { o with status := .cancelled })
      fun _ => rfl).frames = edit (·.id ∈ [orderId]) (fun F => { F with status := .cancelled })
        s.frames := by
    rw [frames_updateOrder s (g := fun F => { F with status := .cancelled }) fun _ => rfl]
    exact edit_congr fun F _ => by simp
  refine commit_edit hs (not_number (Extends.lock _ _)) hframes ?_ (fun _ => ⟨rfl, rfl, rfl⟩)
    (placed_edit hs fun _ => ⟨rfl, rfl⟩) rfl rfl ⟨rfl, rfl, rfl, fun _ => Iff.rfl⟩
  refine .close [orderId] .cancelled (.inl rfl) fun F hF hmem => ?_
  obtain rfl : F = o.frame := s.unique_frames F hF o.frame hk.2
    ((List.mem_singleton.mp hmem).trans hid.symm)
  exact ⟨.inl (congrArg (fun x => Hold.lock (LockKey.order x)) hid), hopen, hplain⟩

theorem setServiceCharge_safe (user : AuthUser) (orderId : RowId) (waive : Bool) :
    billingDiscipline.Safe (setServiceCharge user orderId waive) := by
  unfold Safe
  simp only [setServiceCharge, wp_bind]
  refine wp_lockOpenOrder stable_true fun o hid hopen hK => wp_check fun hsplit => ?_
  rw [wp_update]
  refine wp_recompute hK fun L' w _ hL hw _ => ?_
  rw [wp_pure]
  refine commits fun s n hs hk => ⟨.none, ?_⟩
  have hwaive : Aside fun db => db.updateOrder orderId
      (fun o => { o with serviceChargeWaived := waive }) fun _ => rfl :=
    aside_updateOrder fun _ => rfl
  have haside := hwaive.comp hw
  have hnone := not_number ((Extends.lock _ _).trans hL)
  refine commit_stay hs (fun m hm => absurd hm (hnone m)) (haside.frames s)
    (haside.puts (Puts.nil rfl)) (by simp) (fun k hk => .inr ⟨k, haside.kots s ▸ hk, rfl⟩)
    (haside.rest (.refl s))

/-! ### Settling -/

theorem id_countUse (c : Coupon) :
    ({ c with rule := { c.rule with usedCount := c.rule.usedCount + 1 } } : Coupon).id = c.id := rfl

/-- The write that counts a use of a coupon, if there is one. -/
def countWrites (coupon : Option (String × String)) (db : BillingDb) : BillingDb :=
  { db with
    coupons := db.coupons.modify (fun c => decide (some c.id = coupon.map (·.1)))
      (fun c => { c with rule := { c.rule with usedCount := c.rule.usedCount + 1 } }) id_countUse }

theorem wp_countCoupon {coupon : Option (String × String)} {f : BillingDb → BillingDb}
    {post : Post Unit}
    (h : ∀ L', Extends L L' → (∀ c, coupon = some c → L' (.lock (.coupon c.1))) →
      post L' K (countWrites coupon ∘ f) ()) :
    billingDiscipline.wp (coupon.forM fun c => countCoupon c.1) L K f post := by
  cases coupon with
  | none =>
    have hid : countWrites none = id := by
      funext db
      simp only [countWrites, Option.map_none, reduceCtorEq, decide_false, id]
      congr 1
      apply KeyedTable.ext
      simp [KeyedTable.modify]
    have := h L (.refl L) (by simp)
    rwa [hid, Function.id_comp] at this
  | some c =>
    have hcount : countWrites (some c) = fun db => { db with
        coupons := db.coupons.modify (fun d => d.id = c.1)
          (fun d => { d with rule := { d.rule with usedCount := d.rule.usedCount + 1 } })
          fun _ => rfl } := by
      funext db
      simp [countWrites]
    have := h _ (Extends.lock L (.coupon c.1)) fun d hd => .inl (by rw [Option.some.inj hd])
    rw [hcount] at this
    change billingDiscipline.wp (countCoupon c.1) L K f post
    rw [countCoupon, wp_bind, wp_acquire, wp_update]
    exact this

/-- The coupon that a settlement found is there. -/
def CouponKnown (outletId : String) (coupon : Option (String × String)) (db : BillingDb) : Prop :=
  ∀ id code, coupon = some (id, code) →
    ∃ c ∈ db.coupons, c.id = id ∧ c.outletId = outletId ∧ c.code = code

theorem stable_couponKnown {outletId : String} {coupon : Option (String × String)} :
    billingDiscipline.Stable L (CouponKnown outletId coupon) :=
  fun L' s n s' n' hs hs' hother hstep h id code hc =>
    stable_coupon L' s n s' n' hs hs' hother hstep (h id code hc)

theorem wp_resolveDiscounts {order : Order} {input : SettlePreviewInput} {pointValue : Binary64}
    {phone : String} {now : Time}
    {post : Post Discounts}
    (hK : billingDiscipline.Stable L K)
    (h : ∀ d : Discounts, billingDiscipline.Stable L
        (fun s => K s ∧ CouponKnown order.outletId d.coupon s) →
      post L (fun s => K s ∧ CouponKnown order.outletId d.coupon s) id d) :
    billingDiscipline.wp (resolveDiscounts order input pointValue phone now) L K id post := by
  have hcoupon : billingDiscipline.wp (resolveCoupon order input.couponCode now) L K id
      fun L' K' f r => L' = L ∧ f = id ∧ K' = fun s => K s ∧ CouponKnown order.outletId r.1 s := by
    unfold resolveCoupon
    cases truthy input.couponCode with
    | none =>
      refine ⟨rfl, rfl, ?_⟩
      funext s
      simp [CouponKnown]
    | some code =>
      simp only [wp_bind]
      refine wp_query hK fun s n hs hKs => ?_
      refine ⟨CouponKnown order.outletId ((s.coupons.rows.find? fun c =>
        decide (c.outletId = order.outletId ∧ c.code = code.toUpper)).map fun c => (c.id, c.code)),
        stable_couponKnown, fun id code' hc => ?_, wp_check fun _ => ⟨rfl, rfl, rfl⟩⟩
      obtain ⟨c, hfind, hpair⟩ := Option.map_eq_some_iff.mp hc
      cases hpair
      have hmatch : c.outletId = order.outletId ∧ c.code = code.toUpper := by
        simpa using List.find?_some hfind
      exact ⟨c, List.mem_of_find?_eq_some hfind, rfl, hmatch.1, rfl⟩
  simp only [resolveDiscounts, wp_bind]
  refine wp_mono hcoupon ?_
  rintro L' K' f ⟨coupon, discount⟩ ⟨rfl, rfl, rfl⟩
  refine wp_check fun _ => ?_
  rw [wp_pure]
  exact h ⟨coupon, discount, _, _⟩ (hK.and stable_couponKnown)

/-- Whether a bill has an open check. -/
theorem openChecks_pos {db : BillingDb} {p : RowId} :
    0 < ((db.checksOf p).filter fun o => decide (o.status = .opened)).length ↔
      ∃ C ∈ db.frames, C.parentOrderId = some p ∧ C.status = .opened := by
  rw [List.length_pos_iff_exists_mem]
  constructor
  · rintro ⟨o, ho⟩
    obtain ⟨ho, hst⟩ := List.mem_filter.mp ho
    obtain ⟨ho, hp⟩ := BillingDb.mem_checksOf.mp ho
    exact ⟨o.frame, (mem_frames db).mpr ⟨o, ho, rfl⟩, hp, of_decide_eq_true hst⟩
  · rintro ⟨C, hC, hp, hst⟩
    obtain ⟨o, ho, rfl⟩ := (mem_frames db).mp hC
    exact ⟨o, List.mem_filter.mpr ⟨BillingDb.mem_checksOf.mpr ⟨ho, hp⟩, decide_eq_true hst⟩⟩

theorem id_splitStatus (o : Order) : ({ o with status := .split } : Order).id = o.id := rfl

/-- The write that closes a split bill. -/
def closeSplitWrites (p : RowId) (last : Bool) (db : BillingDb) : BillingDb :=
  if last then db.updateOrder p (fun o => { o with status := .split }) id_splitStatus else db

/-- After a check has settled, its parent is closed if that was its last open check. -/
theorem wp_closeSplitParentIfDone {F : Frame} {p : RowId} {coupon : Option String}
    {f : BillingDb → BillingDb}
    {post : Post Unit}
    (hK : billingDiscipline.Stable L K) (hF : ∀ s, K s → F ∈ s.frames) (hopen : F.status = .opened)
    (hparent : F.parentOrderId = some p)
    (hf : ∀ s, (f s).frames = edit (·.id = F.id)
      (fun F => { F with status := .settled, couponCode := coupon }) s.frames)
    (h : ∀ (P : Frame) (last : Bool) K', P.id = p → (∀ s, K' s → K s ∧ P ∈ s.frames ∧
      (last = true ↔ ∀ C ∈ s.frames, C.parentOrderId = some P.id → C.status = .opened →
        C.id = F.id)) → post (add L (.lock (.order p))) K' (closeSplitWrites p last ∘ f) ()) :
    billingDiscipline.wp (closeSplitParentIfDone p) L K f post := by
  simp only [closeSplitParentIfDone, wp_bind, wp_acquire]
  refine wp_query (hK.add _) fun s n hs hKs => ?_
  obtain ⟨-, -, -, P, hP, rfl, hsplit⟩ := hs.frames.check F (hF s hKs) p hparent
  have hFs := hF s hKs
  have hstatus := (hs.frames.parent_opened s.unique_frames hFs hP hparent hopen).2
  have hchecks : billingDiscipline.Stable (add L (.lock (.order P.id))) fun s' => P ∈ s'.frames ∧
      ∀ C : Frame, C.parentOrderId = some P.id → (C ∈ s'.frames ↔ C ∈ s.frames) :=
    stable_checks (.inl rfl)
  refine ⟨_, hchecks, ⟨hP, fun _ _ => Iff.rfl⟩, ?_⟩
  have hpos : 0 < (((f s).checksOf P.id).filter fun o => decide (o.status = .opened)).length ↔
      ∃ C ∈ s.frames, C.parentOrderId = some P.id ∧ C.status = .opened ∧ C.id ≠ F.id := by
    rw [openChecks_pos, hf]
    constructor
    · rintro ⟨C, hC, hCp, hCo⟩
      obtain ⟨G, hG, ⟨-, rfl⟩ | ⟨hne, rfl⟩⟩ := mem_edit.mp hC
      · cases hCo
      · exact ⟨C, hG, hCp, hCo, hne⟩
    · rintro ⟨C, hC, hCp, hCo, hne⟩
      exact ⟨C, mem_edit_of_mem hC hne, hCp, hCo⟩
  have hlater : ∀ s' : BillingDb, (∀ C : Frame, C.parentOrderId = some P.id → (C ∈ s'.frames ↔ C ∈ s.frames)) →
      ((∃ C ∈ s.frames, C.parentOrderId = some P.id ∧ C.status = .opened ∧ C.id ≠ F.id) ↔
        ¬∀ C ∈ s'.frames, C.parentOrderId = some P.id → C.status = .opened → C.id = F.id) := by
    intro s' hsame
    push Not
    refine exists_congr fun C => ?_
    constructor
    · rintro ⟨hC, hp, hrest⟩
      exact ⟨(hsame C hp).mpr hC, hp, hrest⟩
    · rintro ⟨hC, hp, hrest⟩
      exact ⟨(hsame C hp).mp hC, hp, hrest⟩
  by_cases hmany : 0 < (((f s).checksOf P.id).filter fun o => decide (o.status = .opened)).length
  · rw [if_pos hmany, wp_pure]
    refine h P false _ rfl fun s' hs' => ⟨hs'.1, hs'.2.1, ?_⟩
    have hnot := (hlater s' hs'.2.2).mp (hpos.mp hmany)
    simp [hnot]
  · rw [if_neg hmany, wp_bind]
    refine wp_query ((hK.add _).and hchecks) fun s₁ n₁ hs₁ hK₁ => ?_
    refine ⟨fun _ => True, stable_true, trivial, ?_⟩
    rw [wp_bind]
    refine wp_require fun parent hrow => ?_
    -- the parent is still open
    obtain ⟨hmem, hid⟩ := KeyedTable.find?_eq_some.mp hrow
    have hframe : parent.frame ∈ (f s₁).frames := (mem_frames _).mpr ⟨parent, hmem, rfl⟩
    have hstill : parent.status = .opened := by
      rw [hf] at hframe
      obtain ⟨G, hG, ⟨hGF, hG'⟩ | ⟨-, hG'⟩⟩ := mem_edit.mp hframe
      · have hFP : F.id = P.id := by
          rw [← hid, ← hGF]
          exact (congrArg Frame.id hG').symm
        have hFs₁ := hF s₁ hK₁.1
        rw [s₁.unique_frames F hFs₁ P hK₁.2.1 hFP] at hparent
        exact absurd hparent (by simp [(hs₁.frames.parent P hK₁.2.1 hsplit).1])
      · have hGP : G = P := s₁.unique_frames G hG P hK₁.2.1 (by rw [← hG']; exact hid)
        rw [← hstatus, ← hGP, ← hG']
        rfl
    rw [if_neg (by simp [hstill]), wp_update]
    have hlast : ∀ s' : BillingDb, ((K s' ∧ P ∈ s'.frames ∧
        ∀ C : Frame, C.parentOrderId = some P.id → (C ∈ s'.frames ↔ C ∈ s.frames)) ∧ True) →
        K s' ∧ P ∈ s'.frames ∧ (true = true ↔ ∀ C ∈ s'.frames, C.parentOrderId = some P.id →
          C.status = .opened → C.id = F.id) := by
      rintro s' ⟨⟨hKs', hPs', hsame⟩, -⟩
      refine ⟨hKs', hPs', iff_of_true rfl ?_⟩
      have := mt (hlater s' hsame).mpr (fun h => hmany (hpos.mpr h))
      exact not_not.mp this
    exact h P true _ rfl hlast

/-- Counting a coupon is what a sale does to the coupons. -/
theorem count_eq {s : BillingDb} {n : ℕ} (hs : Sound s n) {outletId : String}
    {coupon : Option (String × String)} (hknown : CouponKnown outletId coupon s) {c : Coupon}
    (hc : c ∈ s.coupons) :
    (if decide (some c.id = coupon.map (·.1)) = true then
      { c with rule := { c.rule with usedCount := c.rule.usedCount + 1 } } else c) =
      c.count ((BillEvent.sale outletId (coupon.map (·.2))).uses c.outletId c.code) := by
  cases coupon with
  | none => simp [BillEvent.uses]
  | some pair =>
    obtain ⟨d, hd, hid, hout, hcode⟩ := hknown pair.1 pair.2 rfl
    have hiff : some c.id = some pair.1 ↔ outletId = c.outletId ∧ pair.2 = c.code := by
      rw [← hid, ← hout, ← hcode, Option.some.injEq]
      constructor
      · intro h
        rw [KeyedTable.eq_of_mem hc hd h]
        exact ⟨rfl, rfl⟩
      · rintro ⟨ho, hco⟩
        rw [hs.codes d hd c hc ho hco]
    simp only [Option.map_some, BillEvent.uses, hiff]
    by_cases hmatch : outletId = c.outletId ∧ pair.2 = c.code
    · simp [hmatch, Coupon.count]
    · simp [hmatch]

theorem commit_sale {s s' : BillingDb} {n : ℕ} {outletId : String}
    {coupon : Option (String × String)} (hs : Sound s n) (hL : ∀ m, ¬L (.number m))
    (hmove : BillMove L s.frames (.sale outletId (coupon.map (·.2))) s'.frames)
    (hstay : ∀ F ∈ s.frames, ∃ F' ∈ s'.frames, F'.id = F.id)
    (hplaced : ∀ F ∈ s'.frames, Placed s F) (hitems : s'.items = s.items)
    (hkots : s'.kots = s.kots) (hknown : CouponKnown outletId coupon s)
    (hlock : ∀ c, coupon = some c → L (.lock (.coupon c.1)))
    (hcoupons : s'.coupons = (countWrites coupon s).coupons) (htables : s'.tables = s.tables)
    (hlog : s'.unsplits = s.unsplits)
    (houtlets : ∀ id, (s.outlets.find? id).isSome → (s'.outlets.find? id).isSome) :
    Commit L (.sale outletId (coupon.map (·.2))) s s' where
  toLinesStep := (Puts.nil hitems).linesStep hs (fun m hm => absurd hm (hL m)) hstay (by simp)
  move := hmove
  fresh m hm := absurd hm (hL m)
  placed := hplaced
  log := by simp [hlog, BillEvent.entries]
  kotIds k hk := .inr ⟨k, hkots ▸ hk, rfl⟩
  coupons c' := by
    rw [hcoupons, countWrites, KeyedTable.mem_modify]
    exact exists_congr fun c => and_congr_right fun hc => by rw [count_eq hs hknown hc]
  couponLocks c hc := by
    cases coupon with
    | none => exact .inl rfl
    | some pair =>
      by_cases hmatch : outletId = c.outletId ∧ pair.2 = c.code
      · obtain ⟨d, hd, hid, hout, hcode⟩ := hknown pair.1 pair.2 rfl
        rw [← hs.codes d hd c hc (hout.trans hmatch.1) (hcode.trans hmatch.2), hid]
        exact .inr (hlock pair rfl)
      · exact .inl (by simp [BillEvent.uses, hmatch])
  tables := htables
  outlets := houtlets

theorem frames_closeSplitWrites (db : BillingDb) (p : RowId) (last : Bool) :
    (closeSplitWrites p last db).frames =
      edit (fun G => G.id = p ∧ last = true) (fun G => { G with status := .split }) db.frames := by
  cases last with
  | false =>
    rw [edit]
    exact ((List.map_congr_left fun F _ => by simp).trans (List.map_id db.frames)).symm
  | true =>
    rw [closeSplitWrites, if_pos rfl,
      frames_updateOrder db (g := fun G => { G with status := .split }) fun _ => rfl]
    exact edit_congr fun F _ => by simp

theorem rest_closeSplitWrites (db : BillingDb) (p : RowId) (last : Bool) :
    Rest db (closeSplitWrites p last db) ∧ (closeSplitWrites p last db).items = db.items ∧
      (closeSplitWrites p last db).kots = db.kots := by
  cases last <;> exact ⟨⟨rfl, rfl, rfl, fun _ => Iff.rfl⟩, rfl, rfl⟩

/-- What a settlement has written once it has closed its bill. -/
structure Sells (F : Frame) (coupon : Option (String × String)) (s s' : BillingDb) : Prop where
  frames : s'.frames = edit (·.id = F.id)
    (fun G => { G with status := .settled, couponCode := coupon.map (·.2) }) s.frames
  items : s'.items = s.items
  kots : s'.kots = s.kots
  coupons : s'.coupons = (countWrites coupon s).coupons
  tables : s'.tables = s.tables
  unsplits : s'.unsplits = s.unsplits
  outlets : ∀ id, (s.outlets.find? id).isSome → (s'.outlets.find? id).isSome

/-- Closing the parent changes nothing else that a settlement has written. -/
theorem Sells.closeSplit {F : Frame} {coupon : Option (String × String)} {s s' : BillingDb}
    (h : Sells F coupon s s') (p : RowId) (last : Bool) :
    (closeSplitWrites p last s').frames =
      edit (fun G => G.id = p ∧ last = true) (fun G => { G with status := .split })
        (edit (·.id = F.id)
          (fun G => { G with status := .settled, couponCode := coupon.map (·.2) }) s.frames) ∧
    (closeSplitWrites p last s').items = s.items ∧ (closeSplitWrites p last s').kots = s.kots ∧
    (closeSplitWrites p last s').coupons = (countWrites coupon s).coupons ∧
    (closeSplitWrites p last s').tables = s.tables ∧
    (closeSplitWrites p last s').unsplits = s.unsplits ∧
    ∀ id, (s.outlets.find? id).isSome → ((closeSplitWrites p last s').outlets.find? id).isSome := by
  obtain ⟨hrest, hitems, hkots⟩ := rest_closeSplitWrites s' p last
  exact ⟨by rw [frames_closeSplitWrites, h.frames], hitems.trans h.items, hkots.trans h.kots,
    hrest.coupons.trans h.coupons, hrest.tables.trans h.tables, hrest.unsplits.trans h.unsplits,
    fun id hid => (hrest.outlets id).mpr (h.outlets id hid)⟩

theorem settle_safe (user : AuthUser) (now : Time) (orderId : RowId) (input : SettleOrderInput) :
    billingDiscipline.Safe (settle user now orderId input) := by
  unfold Safe
  simp only [settle, wp_bind]
  refine wp_lockOpenOrder stable_true fun o hid hopen hK => wp_check fun hsplit => ?_
  refine wp_query_any hK fun row => wp_require fun outlet _ => ?_
  refine wp_resolveDiscounts hK fun d hK => ?_
  refine wp_aside (does_consumeOtp _ _ _ _ _) hK fun L₁ w₁ _ hL₁ hw₁ hK => ?_
  refine wp_recompute hK fun L₂ w₂ _ hL₂ hw₂ hK => ?_
  refine wp_aside (does_takePayments _ _ _ _) hK fun L₃ w₃ _ hL₃ hw₃ hK => ?_
  refine wp_aside (does_nextBillNumber _) hK fun L₄ w₄ number hL₄ hw₄ hK => ?_
  refine wp_aside (does_whenever (fun _ => does_redeemCustomerPoints _ _ _) Aside.id) hK
    fun L₅ w₅ _ hL₅ hw₅ hK => ?_
  generalize settlePhone o input.toSettlePreviewInput = phone
  refine wp_aside (does_whenever (fun _ => does_earnCustomerPoints _ _ _ _ _) Aside.id) hK
    fun L₆ w₆ _ hL₆ hw₆ hK₆ => ?_
  have hL := ((Extends.lock _ _).trans hL₁).trans
    (hL₂.trans (hL₃.trans (hL₄.trans (hL₅.trans hL₆))))
  have hlock : L₆ (.lock (.order orderId)) :=
    (hL₁.trans (hL₂.trans (hL₃.trans (hL₄.trans (hL₅.trans hL₆))))).holds _ (.inl rfl)
  obtain ⟨w, hw, hpending⟩ : ∃ w, Aside w ∧ w = w₆ ∘ w₅ ∘ w₄ ∘ w₃ ∘ w₂ ∘ w₁ ∘ id :=
    ⟨_, ((((((Aside.id.comp hw₁).comp hw₂).comp hw₃).comp hw₄).comp hw₅).comp hw₆), rfl⟩
  rw [← hpending]
  refine wp_countCoupon fun L₇ hL₇ hcoupon => ?_
  rw [wp_update]
  subst hid
  have hsells : ∀ s, Sells o.frame d.coupon s
      (((fun db => db.closeBill o.id ("B-" ++ toString number) (input.customerName.or o.customerName)
        phone (d.coupon.map (·.2))) ∘ countWrites d.coupon ∘ w) s) := by
    refine fun s => ⟨?_, hw.items s, hw.kots s, ?_, hw.tables s, hw.unsplits s, fun id hsome => ?_⟩
    · exact (frames_updateOrder _ (g := fun G => { G with
        status := .settled, couponCode := d.coupon.map (·.2) }) fun _ => rfl).trans
          (congrArg _ (hw.frames s))
    · change (countWrites d.coupon (w s)).coupons = _
      simp only [countWrites, hw.coupons s]
    · exact (hw.outlets s id).symm ▸ hsome
  have hnone : ∀ m, ¬L₇ (.number m) := not_number (hL.trans hL₇)
  have hlock₇ : L₇ (.lock (.order o.id)) := hL₇.holds _ hlock
  have hsame : ∀ G : Frame, G.Same { G with
    status := .settled, couponCode := d.coupon.map (·.2) } := fun _ => ⟨rfl, rfl, rfl⟩
  cases hparent : o.parentOrderId with
  | none =>
    refine commits fun s n hs hk => ⟨.sale o.outletId (d.coupon.map (·.2)), ?_⟩
    have hsell := hsells s
    refine commit_sale hs hnone ?_ ?_ ?_ hsell.items hsell.kots hk.2 hcoupon hsell.coupons
      hsell.tables hsell.unsplits hsell.outlets
    · exact hsell.frames ▸ .settle o.frame _ hk.1.2 hlock₇ hopen ⟨hsplit, hparent⟩
    · exact hsell.frames ▸ stay_edit hsame
    · exact hsell.frames ▸ placed_edit hs fun _ => ⟨rfl, rfl⟩
  | some p =>
    refine wp_closeSplitParentIfDone (hK₆.anti hL₇.holds) (F := o.frame) (fun s hs => hs.1.2) hopen
      hparent (fun s => (hsells s).frames) fun P last K' hP hk => ?_
    subst hP
    refine commits fun s n hs hK' => ⟨.sale o.outletId (d.coupon.map (·.2)), ?_⟩
    obtain ⟨hk, hPs, hlast⟩ := hk s hK'
    obtain ⟨hframes, hitems, hkots, hcoupons, htables, hlog, houtlets⟩ :=
      (hsells s).closeSplit P.id last
    refine commit_sale hs (fun m hm => hnone m ?_) ?_ ?_ ?_ hitems hkots hk.2
      (fun c hc => .inr (hcoupon c hc)) hcoupons htables hlog houtlets
    · exact hm.resolve_left (by simp)
    · exact hframes ▸ .settleCheck o.frame P _ last hk.1.2 (.inr hlock₇) hopen hparent hPs
        (.inl rfl) hlast
    · intro F hF
      obtain ⟨F₁, hF₁, hid₁⟩ := stay_edit (p := (·.id = o.frame.id)) hsame F hF
      obtain ⟨F₂, hF₂, hid₂⟩ := stay_edit (p := fun G => G.id = P.id ∧ last = true)
        (f := fun G => { G with status := .split }) (fun _ => ⟨rfl, rfl, rfl⟩) F₁ hF₁
      exact ⟨F₂, hframes ▸ hF₂, hid₂.trans hid₁⟩
    · rw [Function.comp_apply, hframes]
      intro F hF
      have hplaced := placed_edit hs (p := (·.id = o.frame.id)) (f := fun G => { G with
        status := .settled, couponCode := d.coupon.map (·.2) }) fun _ => ⟨rfl, rfl⟩
      obtain ⟨G, hG, ⟨-, rfl⟩ | ⟨-, rfl⟩⟩ := mem_edit.mp hF
      · exact hplaced G hG
      · exact hplaced F hG

/-! ### Adding rounds -/

/-- Once one number is drawn, it is the only one. -/
theorem number_of_draw {L₀ L : Locks} {n : ℕ} (h₀ : ∀ m, ¬L₀ (.number m))
    (hL : Extends (Discipline.add L₀ (.number n)) L) {m : ℕ} (hm : L (.number m)) : m = n := by
  rcases hL.numbers m hm with h | h
  · exact Hold.number.inj h
  · exact absurd h (h₀ m)

/-- A number that is drawn is fresh. -/
theorem wp_drawFresh
    {post : Post ℕ}
    {f : BillingDb → BillingDb} (hK : billingDiscipline.Stable L K)
    (h : ∀ n, billingDiscipline.Stable (Discipline.add L (.number n)) (fun s => K s ∧ Fresh n s) →
      post (Discipline.add L (.number n)) (fun s => K s ∧ Fresh n s) f n) :
    billingDiscipline.wp (draw : BillingTx ℕ) L K f post :=
  wp_draw hK fun _ n hs _ => ⟨Fresh n, stable_fresh (.inl rfl), Sound.fresh hs,
    h n ((hK.add _).and (stable_fresh (.inl rfl)))⟩

/-- A round on an open bill that is locked. -/
theorem wp_round {menu : Menu} {o : Order} {outletId : String} {stamp : ℕ} {opts : PunchOptions}
    {items : List OrderItemInput} {combos : List ComboOrderInput} {L₀ : Locks}
    (h₀ : ∀ m, ¬L₀ (.number m)) (hlock : L₀ (.lock (.order o.id))) (hplain : o.frame.Plain)
    (hK : billingDiscipline.Stable (Discipline.add L₀ (.number stamp)) K)
    (hframe : ∀ s, K s → o.frame ∈ s.frames ∧ Fresh stamp s) :
    billingDiscipline.wp (punchItems menu ⟨o.id, outletId, stamp⟩ opts items combos)
      (Discipline.add L₀ (.number stamp)) K id fun L K f _ =>
        billingDiscipline.wp (recomputeTotals o.id none false) L K f committed := by
  refine wp_does (does_punchItems _ _ _ _ _) hK fun L₁ w _ hL₁ hw => ?_
  obtain ⟨number, lines, choices, hlines, rfl⟩ := hw
  refine wp_recompute (hK.anti hL₁.holds) fun L' w _ hL' hw _ => ?_
  refine commits fun s n hs hk => ⟨.none, ?_⟩
  have hL := hL₁.trans hL'
  have hown : L' (.number stamp) := hL.holds _ (.inl rfl)
  refine commit_stay hs (fun m hm => ?_) (hw.frames _) (hw.puts (punchWrites_puts _ number lines choices))
    (fun r hr => ?_) (fun k hk => ?_) (hw.rest (punchWrites_rest _ number lines choices))
  · rw [number_of_draw h₀ hL hm]
    exact (hframe s hk).2
  · have hline := punchLines_spec hlines r hr
    rw [hline.orderId, hline.stamp]
    exact ⟨⟨o.frame, (hframe s hk).1, rfl, hL.holds _ (.inr hlock), hplain⟩, hown⟩
  · rcases punchWrites_kots _ number lines choices k (hw.kots _ ▸ hk) with hkot | hkot
    · rw [hkot]
      exact .inl hown
    · exact .inr ⟨k, hkot, rfl⟩

theorem addItems_safe (user : AuthUser) (menu : Menu) (orderId : RowId) (round : RoundInput) :
    billingDiscipline.Safe (addItems user menu orderId round) := by
  unfold Safe
  simp only [addItems, wp_bind]
  refine wp_requireOrder stable_true fun order _ hK => ?_
  refine wp_lockOpenOrder hK fun o hid hopen hK => wp_ofExcept fun _ hsplit => ?_
  subst hid
  refine wp_drawFresh hK fun stamp hK => ?_
  exact wp_round (not_number (Extends.lock _ _)) (.inl rfl) (assertNotSplit_eq_ok hsplit) hK
    fun s hs => ⟨hs.1.2, hs.2⟩

end StelloKitchens.Billing
