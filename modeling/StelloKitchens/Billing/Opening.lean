import StelloKitchens.Billing.Safety

/-!
# Opening bills keeps the discipline

The transactions that open bills, and those that add to the bill of a table. A bill is opened with
its first round under the lock of its table, on which no bill is open then. A diner's round goes to
the open bill of the table when there still is one once its lock is held, and to a new bill
otherwise.

## Main results

* `create_safe`, `ingestAggregatorOrder_safe`, `applySyncedOrder_safe`, `ingestScanOrder_safe` — the
  transactions that open bills.
-/

namespace StelloKitchens.Billing

open Checked Tx Discipline

variable {L : Locks} {K : BillingDb → Prop}

/-! ### A new bill with its first round -/

section Open

variable {s : BillingDb} {n : ℕ} {o : Order} {stamp number : ℕ} {lines : List OrderItem}
  {choices : List ComboChoice} {a w : BillingDb → BillingDb}

/-- What has to hold of a bill as it is opened. -/
structure Openable (o : Order) (L : Hold LockKey → Prop) (s : BillingDb) : Prop where
  outlet : (s.outlets.find? o.outletId).isSome
  table : ∀ t, o.tableId = some t → (o.status = .opened → L (.lock (.table t)) ∧ Free s.frames t) ∧
    ∃ T ∈ s.tables, T.id = t ∧ T.outletId = o.outletId

/-- A bill that is neither split nor a check, and carries no coupon. -/
structure PlainOrder (o : Order) : Prop where
  plain : o.frame.Plain
  status : o.status ≠ .split
  coupon : o.couponCode = none

theorem plainOrder_newOrder (id : RowId) (outletId : String) (orderType : OrderType)
    (tableId customerName customerPhone : Option String) :
    PlainOrder (newOrder id outletId orderType tableId customerName customerPhone) :=
  ⟨⟨rfl, rfl⟩, by simp [newOrder], rfl⟩

/-- The tables with the bill that lines are written to, which may have been opened for them. -/
structure Prepared (L : Hold LockKey → Prop) (s s' : BillingDb) (targetId : RowId) : Prop where
  items : s'.items = s.items
  kots : s'.kots = s.kots
  rest : Rest s s'
  writable : Writable L s targetId
  move : BillMove L s.frames .none s'.frames
  stay : ∀ F ∈ s.frames, F ∈ s'.frames
  there : ∃ F ∈ s'.frames, F.id = targetId
  placed : ∀ F ∈ s'.frames, Placed s F

theorem Prepared.opens (hs : Sound s n) (hown : L (.number stamp)) (hfresh : Fresh stamp s)
    (hid : o.id.stamp = stamp) (ho : PlainOrder o) (hopen : Openable o L s) (ha : Aside a) :
    Prepared L s ((a s).insertOrder o) o.id := by
  have hnew : ∀ G ∈ s.frames, G.id ≠ o.id := fun G hG heq => hfresh.frames G hG (heq ▸ hid)
  have hframes : ((a s).insertOrder o).frames = s.frames ++ [o.frame] :=
    (frames_insertOrder (a s) (ha.frames s ▸ hnew)).trans (congrArg (· ++ [o.frame]) (ha.frames s))
  refine ⟨ha.items s, ha.kots s, ⟨ha.coupons s, ha.tables s, ha.unsplits s,
    fun id => iff_of_eq (congrArg (· = true) (ha.outlets s id))⟩, .inl (hid ▸ hown), ?_, fun F hF => ?_,
    ⟨o.frame, ?_, rfl⟩, fun F hF => ?_⟩
  · rw [hframes]
    exact .add o.frame (hid ▸ hown) hnew ho.plain ho.status ho.coupon
      fun t ht hst => (hopen.table t ht).1 hst
  · rw [hframes]
    exact List.mem_append_left _ hF
  · rw [hframes]
    exact List.mem_append_right _ (List.mem_singleton.mpr rfl)
  · rw [hframes] at hF
    rcases List.mem_append.mp hF with hF | hF
    · exact hs.placed F hF
    · rw [List.mem_singleton.mp hF]
      exact ⟨hopen.outlet, fun t ht => (hopen.table t ht).2⟩

/-- A commit that writes lines to a bill, and to others that may be written. -/
theorem Prepared.commit {s₁ s' : BillingDb} {targetId : RowId} (h : Prepared L s s₁ targetId)
    (hs : Sound s n) (hstamp : ∀ m, L (.number m) → m = stamp) (hown : L (.number stamp))
    (hfresh : Fresh stamp s) (hframes : s'.frames = s₁.frames) (hputs : Puts lines s₁ s')
    (hlines : ∀ r ∈ lines, (r.orderId = targetId ∨
        Writable L s r.orderId ∧ ∃ F ∈ s.frames, F.id = r.orderId) ∧
      (r.id.stamp = stamp ∨ ∃ j ∈ s.items, j.id = r.id ∧ Writable L s j.orderId))
    (hkots : ∀ k ∈ s'.kots, k.id.stamp = stamp ∨ ∃ j ∈ s₁.kots, j.id = k.id) (hrest : Rest s₁ s') :
    Commit L .none s s' := by
  have hall : ∀ m, L (.number m) → Fresh m s := fun m hm => hstamp m hm ▸ hfresh
  have hputs' : Puts lines s s' :=
    ⟨fun i hi => h.items ▸ hputs.mem i hi, fun i hi => hputs.keep i (h.items.symm ▸ hi)⟩
  have hstay : ∀ F ∈ s.frames, F ∈ s'.frames := fun F hF => hframes ▸ h.stay F hF
  refine LinesStep.commit (hputs'.linesStep hs hall (fun F hF => ⟨F, hstay F hF, rfl⟩) fun r hr => ?_)
    (hframes ▸ h.move) hall (hframes ▸ h.placed) (fun k hk => ?_)
    ⟨hrest.coupons.trans h.rest.coupons, hrest.tables.trans h.rest.tables,
      hrest.unsplits.trans h.rest.unsplits, fun id => (hrest.outlets id).trans (h.rest.outlets id)⟩
  · obtain ⟨horder, hid⟩ := hlines r hr
    refine ⟨?_, ?_, hid.imp_left fun heq : r.id.stamp = stamp => heq ▸ hown⟩
    · rcases horder with heq | ⟨hwrite, -⟩
      · exact heq ▸ h.writable
      · exact hwrite
    · rcases horder with heq | ⟨-, F, hF, hFid⟩
      · rw [heq, hframes]
        exact h.there
      · exact ⟨F, hstay F hF, hFid⟩
  · exact (hkots k hk).imp (fun hk : k.id.stamp = stamp => hk ▸ hown) fun hk => h.kots ▸ hk

end Open

/-! ### The parts -/

/-- A punch finds the outlet, which stays. -/
theorem wp_punchItems {menu : Menu} {t : PunchTarget} {opts : PunchOptions}
    {items : List OrderItemInput} {combos : List ComboOrderInput} {f : BillingDb → BillingDb}
    {post : Post Unit}
    (hf : ∀ s id, ((f s).outlets.find? id).isSome = (s.outlets.find? id).isSome)
    (hK : billingDiscipline.Stable L K)
    (h : ∀ L' number lines choices, Extends L L' →
      punchLines menu t opts items combos = .ok (lines, choices) →
      billingDiscipline.Stable L' (fun s => K s ∧ (s.outlets.find? t.outletId).isSome = true) →
      post L' (fun s => K s ∧ (s.outlets.find? t.outletId).isSome = true)
        (punchWrites t number lines choices ∘ f) ()) :
    billingDiscipline.wp (punchItems menu t opts items combos) L K f post := by
  simp only [punchItems, wp_bind]
  refine wp_query hK fun s n hs hKs => ?_
  cases hout : (s.outlets.find? t.outletId).isSome with
  | false =>
    refine ⟨fun _ => True, stable_true, trivial, wp_require fun a ha => ?_⟩
    rw [← hf, ha] at hout
    cases hout
  | true =>
    refine ⟨_, stable_outlet, hout, wp_require fun _ _ => ?_⟩
    have hK' := hK.and (@stable_outlet L t.outletId)
    refine wp_does (does_drawNumber _ _ _ id_advanceKot) hK' fun L' w number hL' hw => ?_
    rw [wp_update]
    refine wp_ofExcept fun punched hlines => ?_
    obtain ⟨lines, choices⟩ := punched
    rw [wp_update, hw]
    exact h L' number lines choices hL' hlines (hK'.anti hL'.holds)

/-- A bill that is opened, punched to and computed. -/
theorem wp_openBill {o : Order} {stamp : ℕ} {menu : Menu} {opts : PunchOptions}
    {items : List OrderItemInput} {combos : List ComboOrderInput} {discount : Option Binary64}
    {plain : Bool} {a : BillingDb → BillingDb}
    {post : Post OrderFigures}
    (ha : Aside a) (hK : billingDiscipline.Stable L K)
    (h : ∀ L' number lines choices w figures, Extends L L' →
      (∀ l ∈ lines, l.orderId = o.id ∧ l.id.stamp = stamp) → Aside w →
      billingDiscipline.Stable L' (fun s => K s ∧ (s.outlets.find? o.outletId).isSome = true) →
      post L' (fun s => K s ∧ (s.outlets.find? o.outletId).isSome = true)
        (w ∘ punchWrites ⟨o.id, o.outletId, stamp⟩ number lines choices ∘ (fun s => s.insertOrder o) ∘ a)
        figures) :
    billingDiscipline.wp (update fun db => db.insertOrder o : BillingTx Unit) L K a fun L K f _ =>
      billingDiscipline.wp (punchItems menu ⟨o.id, o.outletId, stamp⟩ opts items combos) L K f
        fun L K f _ => billingDiscipline.wp (recomputeTotals o.id discount plain) L K f post := by
  rw [wp_update]
  refine wp_punchItems ha.outlets hK fun L₁ number lines choices hL₁ hlines hK₁ => ?_
  refine wp_recompute hK₁ fun L₂ w figures hL₂ hw hK₂ => ?_
  refine h L₂ number lines choices w figures (hL₁.trans hL₂) (fun l hl => ?_) hw hK₂
  have hline := punchLines_spec hlines l hl
  exact ⟨hline.orderId, hline.stamp⟩

/-- A table of the outlet on which no open bill is found is free. -/
theorem free_of_findOpen {s : BillingDb} {n : ℕ} {outletId tableId : String} (hs : Sound s n)
    (htable : s.HasTable outletId tableId)
    (h : s.findOpen outletId tableId = none) : Free s.frames tableId := by
  intro F hF hopen htab
  obtain ⟨o, ho, rfl⟩ := (mem_frames s).mp hF
  obtain ⟨T, hT, hid, hout⟩ := htable
  obtain ⟨T', hT', hid', hout'⟩ := (hs.placed o.frame hF).2 tableId htab
  have hsame : T' = T := KeyedTable.eq_of_mem hT' hT (hid'.trans hid.symm)
  refine BillingDb.findOpen_eq_none.mp h o ho ⟨?_, htab, hopen⟩
  rw [← hout, ← hsame, hout']
  rfl

/-- Where no bill is open on a table, its lock keeps it that way. -/
theorem wp_findOpen_none {outletId tableId : String} {e : BillingError}
    {post : Post Unit}
    (hK : billingDiscipline.Stable L K) (hL : L (.lock (.table tableId)))
    (htable : ∀ s, K s → s.HasTable outletId tableId)
    (h : billingDiscipline.Stable L (fun s => K s ∧ Free s.frames tableId) →
      post L (fun s => K s ∧ Free s.frames tableId) id ()) :
    billingDiscipline.wp (query fun db => db.findOpen outletId tableId : BillingTx (Option Order))
      L K id fun L K f existing =>
        billingDiscipline.wp (check (existing = none) e : BillingTx Unit) L K f post := by
  refine wp_query hK fun s n hs hKs => ?_
  by_cases hnone : s.findOpen outletId tableId = none
  · have hfree := free_of_findOpen hs (htable s hKs) hnone
    exact ⟨_, stable_free hL, hfree, wp_check fun _ => h (hK.and (stable_free hL))⟩
  · exact ⟨fun _ => True, stable_true, trivial, wp_check fun heq => absurd heq hnone⟩

/-! ### At the counter and from an aggregator -/

/-- What is committed once a bill is opened, from when its number was drawn. -/
theorem open_commits {o : Order} {stamp : ℕ} {L₀ L' : Locks} {K' : BillingDb → Prop}
    {number : ℕ} {lines : List OrderItem} {choices : List ComboChoice} {a w : BillingDb → BillingDb}
    (h₀ : ∀ m, ¬L₀ (.number m)) (hL : Extends (add L₀ (.number stamp)) L')
    (hid : o.id = ⟨stamp, 0⟩) (ho : PlainOrder o)
    (hlines : ∀ l ∈ lines, l.orderId = o.id ∧ l.id.stamp = stamp) (ha : Aside a) (hw : Aside w)
    (hK : ∀ s, K' s → Fresh stamp s ∧ (s.outlets.find? o.outletId).isSome = true ∧
      ∀ t, o.tableId = some t → (o.status = .opened → L₀ (.lock (.table t)) ∧ Free s.frames t) ∧
        s.HasTable o.outletId t) :
    billingDiscipline.Commits L' K' (w ∘
      punchWrites ⟨o.id, o.outletId, stamp⟩ number lines choices ∘ (fun s => s.insertOrder o) ∘ a) := by
  refine commits fun s n hs hk => ⟨.none, ?_⟩
  obtain ⟨hfresh, hout, htable⟩ := hK s hk
  have hown : L' (.number stamp) := hL.holds _ (.inl rfl)
  have hopen : Openable o L' s := ⟨hout, fun t ht => ⟨fun hst => ?_, (htable t ht).2⟩⟩
  · have hprep := Prepared.opens hs hown hfresh (congrArg RowId.stamp hid) ho hopen ha
    refine hprep.commit hs (fun m hm => number_of_draw h₀ hL hm) hown hfresh (hw.frames _)
      (hw.puts (punchWrites_puts _ number lines choices))
      (fun l hl => ⟨.inl (hlines l hl).1, .inl (hlines l hl).2⟩) (fun k hk => ?_)
      (hw.rest (punchWrites_rest _ number lines choices))
    rcases punchWrites_kots _ number lines choices k (hw.kots _ ▸ hk) with hkot | hkot
    · exact .inl (congrArg RowId.stamp hkot)
    · exact .inr ⟨k, hkot, rfl⟩
  · obtain ⟨hlock, hfree⟩ := (htable t ht).1 hst
    exact ⟨hL.holds _ (.inr hlock), hfree⟩

/-- A bill is opened with its first round at a free table of the outlet, or at none. -/
theorem wp_openNew {menu : Menu} {opts : PunchOptions} {items : List OrderItemInput}
    {combos : List ComboOrderInput} {outletId : String} {orderType : OrderType}
    {tableId name phone : Option String} (h₀ : ∀ m, ¬L (.number m)) (hK : billingDiscipline.Stable L K)
    (htable : ∀ s, K s → ∀ t, tableId = some t → (L (.lock (.table t)) ∧ Free s.frames t) ∧
      s.HasTable outletId t) :
    billingDiscipline.wp (draw : BillingTx ℕ) L K id fun L K f stamp =>
      billingDiscipline.wp (update fun db => db.insertOrder
          (newOrder ⟨stamp, 0⟩ outletId orderType tableId name phone) : BillingTx Unit) L K f
        fun L K f _ =>
          billingDiscipline.wp (punchItems menu ⟨⟨stamp, 0⟩, outletId, stamp⟩ opts items combos) L K f
            fun L K f _ => billingDiscipline.wp (recomputeTotals ⟨stamp, 0⟩ none false) L K f
              committed := by
  refine wp_drawFresh hK fun stamp hK => ?_
  exact wp_openBill .id hK fun L' number lines choices w figures hL hlines hw _ =>
    open_commits h₀ hL rfl (plainOrder_newOrder _ _ _ _ _ _) hlines .id hw fun s hs =>
      ⟨hs.1.2, hs.2, fun t ht => ⟨fun _ => (htable s hs.1.1 t ht).1, (htable s hs.1.1 t ht).2⟩⟩

theorem create_safe (user : AuthUser) (menu : Menu) (input : CreateOrderInput) :
    billingDiscipline.Safe (create user menu input) := by
  unfold Safe
  simp only [create, wp_bind]
  refine wp_ofExcept fun _ _ => ?_
  by_cases hdine : input.orderType = .dineIn
  · rw [if_pos hdine]
    simp only [wp_bind]
    refine wp_require fun tableId _ => wp_lockTable stable_true fun hK => ?_
    refine wp_findOpen_none hK (.inl rfl) (fun s hs => hs.2) fun hK' => ?_
    refine wp_openNew (not_number (Extends.lock _ _)) hK' fun s hs t ht => ?_
    obtain rfl := Option.some.inj ht
    exact ⟨⟨.inl rfl, hs.2⟩, hs.1.2⟩
  · rw [if_neg hdine]
    simp only [wp_bind]
    exact wp_openNew (fun m hm => hm) stable_true fun s _ t ht => by cases ht

theorem ingestAggregatorOrder_safe (menu : Menu) (input : AggregatorInput) :
    billingDiscipline.Safe (ingestAggregatorOrder menu input) := by
  unfold Safe
  simp only [ingestAggregatorOrder, wp_bind]
  refine wp_drawFresh stable_true fun stamp hK => ?_
  refine wp_openBill .id hK fun L' number lines choices w figures hL hlines hw hK' => ?_
  refine wp_query_any hK' fun _ => ?_
  rw [wp_pure]
  exact open_commits (fun m hm => hm) hL rfl (plainOrder_newOrder _ _ _ _ _ _) hlines .id hw fun s hs =>
    ⟨hs.1.2, hs.2, fun t ht => by cases ht⟩

/-! ### Synchronised orders -/

theorem aside_payments (rows : List OrderPayment) :
    Aside fun db => { db with payments := db.payments ++ rows } := by
  constructor <;> intros <;> rfl

theorem commits_unchanged (h : ∀ m, ¬L (.number m)) :
    billingDiscipline.Commits L K id := by
  refine commits fun s n hs _ => ⟨.none, ?_⟩
  exact commit_stay hs (fun m hm => absurd hm (h m)) rfl (Puts.nil rfl) (by simp)
    (fun k hk => .inr ⟨k, hk, rfl⟩) (.refl s)

theorem insertSynced_commits {menu : Menu} {outletId deviceId : String} {order : SyncedOrderInput}
    {tableId : Option String} (hnone : ∀ m, ¬L (.number m)) (hK : billingDiscipline.Stable L K)
    (htable : ∀ s, K s → ∀ t, tableId = some t →
      (order.status = .opened → L (.lock (.table t)) ∧ Free s.frames t) ∧
        s.HasTable outletId t) :
    billingDiscipline.wp (insertSynced menu outletId deviceId order tableId) L K id
      committed := by
  unfold insertSynced
  extract_lets paid insert
  -- the rest of the transaction, whatever its bill number
  have hinsert : ∀ number L' a, Extends L L' → Aside a →
      billingDiscipline.wp (insert number) L' K a committed := by
    intro number L' a hL ha
    simp only [insert, wp_bind, wp_acquire]
    have hL' := hL.trans (Extends.lock L' (.syncKey deviceId order.clientId))
    refine wp_query_any (hK.anti hL'.holds) fun _ => wp_check fun _ => ?_
    refine wp_drawFresh (hK.anti hL'.holds) fun stamp hK₁ => ?_
    refine wp_openBill ha hK₁ fun L₂ n₂ lines choices w figures hL₂ hlines hw hK₂ => ?_
    refine wp_check fun _ => ?_
    refine wp_does (does_mapM Aside.id (fun _ _ => Aside.comp) fun p _ => ?_) hK₂
      fun L₃ w' payments hL₃ hw' => ?_
    · simp [Aside.id]
    · rw [wp_update]
      have hnone' : ∀ m, ¬(add L' (.lock (.syncKey deviceId order.clientId))) (.number m) :=
        fun m hm => hnone m (hL'.numbers m hm)
      have hrows : Aside fun db : BillingDb => { db with
          payments := db.payments ++ if order.status = .settled then payments else [] } :=
        aside_payments _
      refine open_commits hnone' (hL₂.trans hL₃) rfl ⟨⟨rfl, rfl⟩, ?_, rfl⟩ hlines ha
        ((hw.comp hw').comp hrows) fun s hs => ⟨hs.1.2, hs.2, fun t ht => ⟨fun hst => ?_, ?_⟩⟩
      · cases hstatus : order.status <;> simp [syncedStatus]
      · have hopened : order.status = .opened := by
          cases hstatus : order.status <;> simp_all [syncedStatus]
        obtain ⟨hlock, hfree⟩ := (htable s hs.1.1 t ht).1 hopened
        exact ⟨hL'.holds _ hlock, hfree⟩
      · exact (htable s hs.1.1 t ht).2
  split
  · rw [wp_bind, wp_map]
    exact wp_does (does_nextBillNumber outletId) hK fun L' a number hL ha =>
      hinsert (some number) L' _ hL (Aside.id.comp ha)
  · rw [wp_bind, wp_pure]
    exact hinsert none L id (.refl L) Aside.id

theorem applySyncedOrder_safe (menu : Menu) (outletId deviceId : String) (order : SyncedOrderInput) :
    billingDiscipline.Safe (applySyncedOrder menu outletId deviceId order) := by
  unfold Safe
  rw [applySyncedOrder]
  by_cases hdine : order.orderType = .dineIn
  · rw [if_pos hdine]
    simp only [checkSyncedTable, wp_bind]
    refine wp_require fun tableId _ => wp_lockTable stable_true fun hK => ?_
    have hnone := not_number (Extends.lock (fun _ => False) (LockKey.table tableId))
    refine wp_query_any hK fun previous => ?_
    cases hprevious : previous.isSome with
    | true => exact commits_unchanged hnone
    | false =>
      simp only [Bool.false_eq_true, if_false, wp_bind]
      refine wp_query hK fun s n hs hKs => ?_
      by_cases hbusy : order.status = .opened ∧ (s.findOpen outletId tableId).isSome
      · exact ⟨fun _ => True, stable_true, trivial, wp_check fun hnot => absurd hbusy hnot⟩
      · have hfree : order.status = .opened → Free s.frames tableId := fun hopen =>
          free_of_findOpen hs hKs.2 (by simpa using not_and.mp hbusy hopen)
        have hstable : billingDiscipline.Stable (add (fun _ => False) (.lock (.table tableId)))
            fun s => order.status = .opened → Free s.frames tableId :=
          fun L' s₁ n₁ s₂ n₂ h₁ h₂ hother hstep hs₁ hopen =>
            stable_free (.inl rfl) L' s₁ n₁ s₂ n₂ h₁ h₂ hother hstep (hs₁ hopen)
        refine ⟨_, hstable, hfree, wp_check fun _ => ?_⟩
        refine insertSynced_commits hnone (hK.and hstable) fun s hs t ht => ?_
        obtain rfl := Option.some.inj ht
        exact ⟨fun hopen => ⟨.inl rfl, hs.2 hopen⟩, hs.1.2⟩
  · rw [if_neg hdine]
    exact insertSynced_commits (fun m hm => hm) stable_true fun s _ t ht => by cases ht

/-! ### From a scanned table -/

/-- Who has not locked a table opens no bill on it, and moves none to it. -/
theorem BillMove.table_origin {fs fs' : List Frame} {e : BillEvent} {t : String}
    (hmove : BillMove L fs e fs') (hL : ¬L (.lock (.table t))) {F' : Frame} (hF' : F' ∈ fs')
    (hopen : F'.status = .opened) (htab : F'.tableId = some t) :
    ∃ F ∈ fs, F.id = F'.id ∧ F.status = .opened ∧ F.tableId = some t := by
  have hsame : F' ∈ fs → ∃ F ∈ fs, F.id = F'.id ∧ F.status = .opened ∧ F.tableId = some t :=
    fun hF => ⟨F', hF, rfl, hopen, htab⟩
  cases hmove with
  | stay => exact hsame hF'
  | add F _ _ _ _ _ htable =>
    rcases List.mem_append.mp hF' with hF | hF
    · exact hsame hF
    · obtain rfl := List.mem_singleton.mp hF
      exact absurd (htable t htab hopen).1 hL
  | close ids st hst =>
    obtain ⟨G, hG, ⟨-, rfl⟩ | ⟨-, rfl⟩⟩ := mem_edit.mp hF'
    · rcases hst with rfl | rfl <;> cases hopen
    · exact hsame hG
  | settle F coupon =>
    obtain ⟨G, hG, ⟨-, rfl⟩ | ⟨-, rfl⟩⟩ := mem_edit.mp hF'
    · cases hopen
    · exact hsame hG
  | settleCheck F P coupon last =>
    obtain ⟨G, hG, ⟨-, rfl⟩ | ⟨-, rfl⟩⟩ := mem_edit.mp hF'
    · cases hopen
    · obtain ⟨H, hH, ⟨-, rfl⟩ | ⟨-, rfl⟩⟩ := mem_edit.mp hG
      · cases hopen
      · exact hsame hH
  | retable F t' _ _ _ _ htable =>
    obtain ⟨G, hG, ⟨-, rfl⟩ | ⟨-, rfl⟩⟩ := mem_edit.mp hF'
    · obtain rfl := Option.some.inj htab
      exact absurd htable hL
    · exact hsame hG
  | split P checks k _ _ _ _ _ _ hcheck =>
    have hback : ∀ G ∈ fs ++ checks, G.tableId = some t → G ∈ fs := by
      intro G hG ht
      rcases List.mem_append.mp hG with hG | hG
      · exact hG
      · rw [(hcheck G hG).2.2.1] at ht
        cases ht
    obtain ⟨G, hG, ⟨-, rfl⟩ | ⟨-, rfl⟩⟩ := mem_edit.mp hF'
    · exact ⟨G, hback G hG htab, rfl, hopen, htab⟩
    · exact hsame (hback F' hG htab)
  | unsplit P ids =>
    obtain ⟨G, hG, ⟨-, rfl⟩ | ⟨-, rfl⟩⟩ := mem_edit.mp hF'
    · exact ⟨G, (List.mem_filter.mp hG).1, rfl, hopen, htab⟩
    · exact hsame (List.mem_filter.mp hG).1

/-- The open bill of a table that is locked stays the only one. -/
theorem stable_only {t : String} {id : RowId} (hL : L (.lock (.table t))) :
    billingDiscipline.Stable L fun s =>
      ∀ F ∈ s.frames, F.status = .opened → F.tableId = some t → F.id = id := by
  rintro L' s n s' n' hs - hother ⟨e, hc⟩ honly F' hF' hopen htab
  obtain ⟨F, hF, hid, hopen', htab'⟩ := hc.move.table_origin (hother _ hL) hF' hopen htab
  exact hid ▸ honly F hF hopen' htab'

/-- The open bill of the table is locked and neither split nor a check, or there is none. -/
theorem wp_runningBill {outletId tableId : String}
    {post : Post (Option Order)}
    (hK : billingDiscipline.Stable L K)
    (hnone : ∀ L' K', Extends L L' → L' (.lock (.table tableId)) → billingDiscipline.Stable L' K' →
      (∀ s, K' s → K s ∧ s.HasTable outletId tableId ∧
        Free s.frames tableId) → post L' K' id none)
    (hsome : ∀ L' K' o, Extends L L' → L' (.lock (.order o.id)) → billingDiscipline.Stable L' K' →
      o.frame.Plain → (∀ s, K' s → K s ∧ o.frame ∈ s.frames) → post L' K' id (some o)) :
    billingDiscipline.wp (runningBill outletId tableId) L K id post := by
  simp only [runningBill, wp_bind]
  refine wp_lockTable hK fun hK₁ => ?_
  refine wp_query hK₁ fun s n hs hKs => ?_
  have hL₁ := Extends.lock L (LockKey.table tableId)
  have hlock₁ : add L (.lock (.table tableId)) (.lock (.table tableId)) := .inl rfl
  simp only [id]
  cases hfind : s.findOpen outletId tableId with
  | none =>
    have hstable := stable_free (L := add L (.lock (.table tableId))) hlock₁
    refine ⟨_, hstable, free_of_findOpen hs hKs.2 hfind, ?_⟩
    exact hnone _ _ hL₁ hlock₁ (hK₁.and hstable) fun s hs => ⟨hs.1.1, hs.1.2, hs.2⟩
  | some found =>
    obtain ⟨hmem, -, htab, hopen⟩ := BillingDb.findOpen_eq_some hfind
    have hF : found.frame ∈ s.frames := (mem_frames s).mpr ⟨found, hmem, rfl⟩
    have honly : ∀ F ∈ s.frames, F.status = .opened → F.tableId = some tableId → F.id = found.id :=
      fun F hF' ho ht => congrArg Frame.id
        (hs.frames.tables F hF' found.frame hF ho hopen (by simp [ht]) (ht.trans htab.symm))
    have hstable := (@stable_only _ _ found.id hlock₁).and (stable_known (F := found.frame))
    refine ⟨_, hstable, ⟨honly, .inl ⟨found.frame, hF, rfl, rfl, rfl⟩⟩, ?_⟩
    have hchild : found.parentOrderId = none := by
      by_contra hne
      obtain ⟨p, hp⟩ := Option.ne_none_iff_exists'.mp hne
      have hnotab := (hs.frames.check found.frame hF p hp).1
      rw [show found.frame.tableId = some tableId from htab] at hnotab
      cases hnotab
    have hK₂ := (hK₁.and hstable).add (.lock (LockKey.order found.id))
    have hL₂ := hL₁.trans (Extends.lock _ (LockKey.order found.id))
    rw [wp_bind, wp_acquire, wp_bind]
    refine wp_query hK₂ fun s n hs hKs => ?_
    simp only [id]
    by_cases hrow : ∃ o ∈ s.orders, o.id = found.id ∧ o.status = .opened
    · obtain ⟨o, horder, hid, hstatus⟩ := hrow
      have hframe : o.frame ∈ s.frames := (mem_frames s).mpr ⟨o, horder, rfl⟩
      have hlock : add (add L (.lock (.table tableId))) (.lock (.order found.id))
          (.lock (.order o.frame.id)) := .inl (congrArg (fun x => Hold.lock (LockKey.order x)) hid)
      simp only [KeyedTable.find?_eq_some.mpr ⟨horder, hid⟩, Option.filter_some, hstatus, decide_true,
        if_true, Option.all_some]
      refine ⟨_, stable_frame hlock, hframe, ?_⟩
      rw [wp_bind]
      refine wp_check fun hsplit => ?_
      have hplain : o.frame.Plain :=
        ⟨show o.splitCount = none by simpa using hsplit,
          (hs.same hKs.2.2 hframe hid).2.2.symm.trans hchild⟩
      exact hsome _ _ o hL₂ hlock (hK₂.and (stable_frame hlock)) hplain fun s hs => ⟨hs.1.1.1, hs.2⟩
    · have hfree : Free s.frames tableId := by
        intro F hF ho ht
        obtain ⟨o, horder, rfl⟩ := (mem_frames s).mp hF
        exact hrow ⟨o, horder, hKs.2.1 o.frame hF ho ht, ho⟩
      have hnorow : (s.orders.find? found.id).filter (fun o => decide (o.status = .opened)) = none := by
        refine Option.filter_eq_none_iff.mpr fun o ho hst => ?_
        obtain ⟨horder, hid⟩ := KeyedTable.find?_eq_some.mp ho
        exact hrow ⟨o, horder, hid, of_decide_eq_true hst⟩
      have hstable' := stable_free (L := add (add L (.lock (.table tableId)))
        (.lock (.order found.id))) (.inr hlock₁)
      simp only [hnorow]
      refine ⟨_, hstable', hfree, ?_⟩
      rw [wp_bind]
      refine wp_check fun _ => ?_
      exact hnone _ _ hL₂ (.inr hlock₁) (hK₂.and hstable') fun s hs =>
        ⟨hs.1.1.1, hs.1.1.2, hs.2⟩

theorem ingestScanOrder_safe (menu : Menu) (input : ScanInput) :
    billingDiscipline.Safe (ingestScanOrder menu input) := by
  unfold Safe ingestScanOrder
  extract_lets orderType insert
  by_cases hdine : input.dineIn
  · rw [if_pos hdine]
    simp only [wp_bind]
    refine wp_require fun tableId _ => wp_runningBill stable_true ?_ ?_
    · intro L' K' hL hlock hK hs
      rw [wp_pure]
      simp only [insert, wp_bind]
      refine wp_openNew (not_number hL) hK fun s hk t ht => ?_
      obtain rfl := Option.some.inj ht
      exact ⟨⟨hlock, (hs s hk).2.2⟩, (hs s hk).2.1⟩
    · intro L' K' o hL hlock hK hplain hs
      rw [wp_pure]
      simp only [insert, wp_bind]
      refine wp_drawFresh hK fun stamp hK => ?_
      rw [wp_pure]
      exact wp_round (not_number hL) hlock hplain hK fun s hk => ⟨(hs s hk.1).2, hk.2⟩
  · rw [if_neg hdine]
    simp only [wp_bind, wp_pure]
    simp only [insert, wp_bind]
    exact wp_openNew (fun m hm => hm) stable_true fun s _ t ht => by cases ht

end StelloKitchens.Billing
