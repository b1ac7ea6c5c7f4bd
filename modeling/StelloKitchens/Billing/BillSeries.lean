import StelloKitchens.Billing.EdgeBills
import StelloKitchens.Billing.Touches
import StelloKitchens.Lib.Guarded
import StelloKitchens.Lib.Numbering

/-!
# The bill series of an outlet is gapless

Settlements, synchronised orders and sales that devices bring in draw from the series of an outlet.
Each draws under the lock of the outlet, and what it draws is committed together with the bill that
holds it, or not at all. A number that a device gave its bill is not of the outlet's kind.

## Main definitions

* `Series` — the bills with their numbers, and the next number of each outlet.
* `Series.Sound`, `seriesDiscipline` — what holds of them, and what a commit does to them.

## Main results

* `series_safe` — every request keeps the series.
* `bill_series` — the numbers that are held, over all interleavings.
-/

namespace StelloKitchens.Billing

open Checked Tx Discipline

/-! ### Bills and their numbers -/

/-- What of a bill its number goes with. -/
structure NumberedBill where
  outletId : String
  status : BillStatus
  number : Option String

def Order.numbered (o : Order) : NumberedBill := ⟨o.outletId, o.status, o.billNumber⟩

/-- The bills with their numbers, and the next number of each outlet. -/
@[ext] structure Series where
  bill : RowId → Option NumberedBill
  next : String → Option ℕ

def BillingDb.series (db : BillingDb) : Series where
  bill id := (db.orders.find? id).map (·.numbered)
  next outletId := (db.outlets.find? outletId).map (·.nextBillNumber)

/-- The numbers of the outlets' series. -/
def bNumber (k : ℕ) : String := "B-" ++ toString k

/-- A number that looks like one of an outlet's series. -/
def IsBNumber (n : String) : Prop := ['B', '-'] <+: n.toList

theorem toList_bNumber (k : ℕ) : (bNumber k).toList = 'B' :: '-' :: (toString k).toList :=
  String.toList_append

theorem isBNumber_bNumber (k : ℕ) : IsBNumber (bNumber k) := by
  rw [IsBNumber, toList_bNumber]
  exact ⟨_, rfl⟩

theorem bNumber_injective : Function.Injective bNumber := by
  intro k m h
  have htext : (toString k).toList = (toString m).toList := by
    have hlist := congrArg String.toList h
    rw [toList_bNumber, toList_bNumber] at hlist
    exact (List.cons.inj (List.cons.inj hlist).2).2
  have hdigits : Nat.toDigits 10 k = Nat.toDigits 10 m :=
    Nat.toList_repr.symm.trans (htext.trans Nat.toList_repr)
  rw [← Nat.ofDigitChars_ten_toDigits (n := k), hdigits, Nat.ofDigitChars_ten_toDigits]

/-- The numbers of the devices' series begin with another letter. -/
theorem not_isBNumber_of_series {series fy n : String} {seq : ℕ} (hseries : isEdgeSeries series)
    (h : formatEdgeBillNumber series fy seq = .ok n) : ¬IsBNumber n := by
  unfold formatEdgeBillNumber at h
  dsimp only at h
  split at h
  · cases h
  cases h
  obtain ⟨cs, hcs⟩ : ∃ cs, series.toList = 'E' :: cs := by
    unfold isEdgeSeries at hseries
    split at hseries
    · exact ⟨_, ‹_›⟩
    · cases hseries
  rintro ⟨rest, hrest⟩
  simp [String.toList_append, hcs] at hrest

namespace Series

variable {S S' S'' : Series} {id : RowId} {outletId : String} {n k : ℕ}
  {L : Hold LockKey → Prop}

/-- A bill is inserted or replaced. -/
def put (S : Series) (id : RowId) (b : NumberedBill) : Series :=
  { S with bill := fun i => if i = id then some b else S.bill i }

/-- A bill is changed, if it is there. -/
def edit (S : Series) (id : RowId) (f : NumberedBill → NumberedBill) : Series :=
  { S with bill := fun i => if i = id then (S.bill i).map f else S.bill i }

/-- An outlet counts on. -/
def advance (S : Series) (outletId : String) : Series :=
  { S with next := fun o => if o = outletId then (S.next o).map (· + 1) else S.next o }

/-- Which bill holds which number. -/
def numbering (S : Series) : SeriesNumbering RowId String String where
  held id := (S.bill id).bind fun b => b.number.map fun v => (b.outletId, v)
  next := S.next

theorem numbering_put (b : NumberedBill) :
    (S.put id b).numbering = S.numbering.hold id (b.number.map fun v => (b.outletId, v)) := by
  refine congrArg (fun held => (⟨held, S.next⟩ : SeriesNumbering RowId String String)) (funext fun i => ?_)
  rw [Function.update_apply]
  by_cases hi : i = id
  · simp [put, hi]
  · simp [put, hi, numbering]

theorem edit_of_some {f : NumberedBill → NumberedBill} {b : NumberedBill} (h : S.bill id = some b) :
    S.edit id f = S.put id (f b) := by
  ext1
  · funext i
    by_cases hi : i = id
    · simp [edit, put, hi, h]
    · simp [edit, put, hi]
  · rfl

theorem held_of_unnumbered {b : NumberedBill} (h : S.bill id = some b) (hb : b.number = none) :
    S.numbering.held id = none := by
  simp [numbering, h, hb]

/-- What holds of the series. -/
structure Sound (S : Series) (n : ℕ) : Prop where
  gapless : S.numbering.Gapless bNumber IsBNumber
  settled : ∀ id b, S.bill id = some b → b.number ≠ none → b.status = .settled
  fresh : ∀ id, S.bill id ≠ none → id.stamp < n

/-- What the commit of who holds these does to the series. -/
structure Step (L : Hold LockKey → Prop) (S S' : Series) : Prop where
  bills : ∀ id b, S.bill id = some b → ¬L (.lock (.order id)) → S'.bill id = some b
  next : ∀ o, ¬L (.lock (.outlet o)) → S'.next o = S.next o
  origin : ∀ id, S.bill id = none → S'.bill id ≠ none → L (.number id.stamp)

theorem Step.refl (S : Series) : S.Step L S :=
  ⟨fun _ _ h _ => h, fun _ _ => rfl, fun _ h h' => absurd h h'⟩

theorem Step.trans (h : S.Step L S') (h' : S'.Step L S'') : S.Step L S'' := by
  refine ⟨fun id b hb hL => h'.bills id b (h.bills id b hb hL) hL,
    fun o ho => (h'.next o ho).trans (h.next o ho), fun id hnone hsome => ?_⟩
  by_cases hmid : S'.bill id = none
  · exact h'.origin id hmid hsome
  · exact h.origin id hnone hmid

theorem step_put {b : NumberedBill} (hnew : S.bill id = none → L (.number id.stamp))
    (hold : S.bill id ≠ none → L (.lock (.order id))) : S.Step L (S.put id b) := by
  refine ⟨fun i c hc hL => ?_, fun _ _ => rfl, fun i hnone hsome => ?_⟩
  · by_cases hi : i = id
    · subst hi
      exact absurd (hold (by simp [hc])) hL
    · simpa [put, hi] using hc
  · by_cases hi : i = id
    · subst hi
      exact hnew hnone
    · exact absurd (by simpa [put, hi] using hnone) hsome

theorem step_advance (hlock : L (.lock (.outlet outletId))) : S.Step L (S.advance outletId) := by
  refine ⟨fun _ _ h _ => h, fun o ho => ?_, fun _ h h' => absurd h h'⟩
  have hne : o ≠ outletId := by
    rintro rfl
    exact ho hlock
  simp [advance, hne]

/-- A bill without a number, or with one of a device, is written. -/
theorem Sound.put (h : S.Sound n) (hid : id.stamp < n) (hheld : S.numbering.held id = none)
    {b : NumberedBill} (hb : ∀ v ∈ b.number, ¬IsBNumber v ∧ b.status = .settled) :
    (S.put id b).Sound n := by
  refine ⟨?_, fun i c hc hnumber => ?_, fun i hi => ?_⟩
  · rw [numbering_put]
    refine h.gapless.hold hheld fun x hx => ?_
    obtain ⟨v, hv, rfl⟩ := Option.map_eq_some_iff.mp hx
    exact (hb v hv).1
  · by_cases hi : i = id
    · obtain rfl : b = c := by simpa [Series.put, hi] using hc
      obtain ⟨v, hv⟩ := Option.ne_none_iff_exists'.mp hnumber
      exact (hb v hv).2
    · exact h.settled i c (by simpa [Series.put, hi] using hc) hnumber
  · by_cases heq : i = id
    · exact heq ▸ hid
    · exact h.fresh i (by simpa [Series.put, heq] using hi)

/-- A bill is closed under the next number of its outlet. -/
theorem Sound.issue (h : S.Sound n) (hid : id.stamp < n) (hheld : S.numbering.held id = none)
    (hnext : S.next outletId = some k) :
    ((S.advance outletId).put id ⟨outletId, .settled, some (bNumber k)⟩).Sound n := by
  refine ⟨?_, fun i c hc hnumber => ?_, fun i hi => ?_⟩
  · rw [numbering_put]
    exact h.gapless.issue bNumber_injective isBNumber_bNumber hheld hnext
  · by_cases hi : i = id
    · obtain rfl : (⟨outletId, .settled, some (bNumber k)⟩ : NumberedBill) = c := by
        simpa [Series.put, hi] using hc
      rfl
    · exact h.settled i c (by simpa [Series.put, advance, hi] using hc) hnumber
  · by_cases heq : i = id
    · exact heq ▸ hid
    · exact h.fresh i (by simpa [Series.put, advance, heq] using hi)

end Series

/-- The discipline of the series. -/
def seriesDiscipline : Discipline BillingDb LockKey where
  inv db n := db.series.Sound n
  step L s s' := s.series.Step L s'.series
  inv_mono hle h := { h with fresh := fun id hid => (h.fresh id hid).trans_le hle }

/-! ### Writes -/

section Writes

variable {db : BillingDb}

theorem series_updateOrder {id : RowId} {f : Order → Order} {hf : ∀ o, (f o).id = o.id}
    {g : NumberedBill → NumberedBill} (hg : ∀ o, (f o).numbered = g o.numbered) :
    (db.updateOrder id f hf).series = db.series.edit id g := by
  ext1
  · funext i
    change ((db.orders.modify _ f hf).find? i).map _ = _
    rw [KeyedTable.find?_modify]
    cases hfind : db.orders.find? i with
    | none => simp [BillingDb.series, Series.edit, hfind]
    | some o =>
      obtain ⟨-, rfl⟩ := KeyedTable.find?_eq_some.mp hfind
      by_cases hi : o.id = id
      · simp [BillingDb.series, Series.edit, hi, hi ▸ hfind, hg]
      · simp [BillingDb.series, Series.edit, hi, hfind]
  · rfl

/-- A bill is changed in other ways. -/
theorem series_updateOrder_same {id : RowId} {f : Order → Order} {hf : ∀ o, (f o).id = o.id}
    (h : ∀ o, (f o).numbered = o.numbered) : (db.updateOrder id f hf).series = db.series := by
  rw [series_updateOrder (g := fun b => b) h]
  ext1
  · funext i
    simp [Series.edit]
  · rfl

theorem series_insertOrder (o : Order) :
    (db.insertOrder o).series = db.series.put o.id o.numbered := by
  ext1
  · funext i
    change ((db.orders.put o).find? i).map _ = _
    by_cases hi : i = o.id
    · subst hi
      simp [Series.put, KeyedTable.find?_put_self]
    · simp [Series.put, hi, KeyedTable.find?_put_of_ne hi, BillingDb.series]
  · rfl

theorem series_updateOutlet {id : String} {f : Outlet → Outlet} {hf : ∀ o, (f o).id = o.id}
    {g : ℕ → ℕ} (hg : ∀ o, (f o).nextBillNumber = g o.nextBillNumber) :
    (db.updateOutlet id f hf).series =
      { db.series with next := fun o => if o = id then (db.series.next o).map g
        else db.series.next o } := by
  ext1
  · rfl
  · funext i
    change ((db.outlets.modify _ f hf).find? i).map _ = _
    rw [KeyedTable.find?_modify]
    cases hfind : db.outlets.find? i with
    | none => simp [BillingDb.series, hfind]
    | some o =>
      obtain ⟨-, rfl⟩ := KeyedTable.find?_eq_some.mp hfind
      by_cases hi : o.id = id
      · simp [BillingDb.series, hi, hi ▸ hfind, hg]
      · simp [BillingDb.series, hi, hfind]

/-- A write that changes neither the bills' numbers nor the counters. -/
abbrev Quiet (w : BillingDb → BillingDb) : Prop := Leaves BillingDb.series w

theorem quiet_of_touches (ts : List Table) {w : BillingDb → BillingDb} (h : Touches ts w)
    (horders : .orders ∉ ts) (houtlets : .outlets ∉ ts) : Quiet w := by
  intro db
  have ho : (w db).orders = db.orders := h db .orders horders
  have hn : (w db).outlets = db.outlets := h db .outlets houtlets
  rw [BillingDb.series, ho, hn]
  rfl

theorem quiet_setFigures (orderId : RowId) (figures : OrderFigures) :
    Quiet fun db => db.setFigures orderId figures :=
  fun _ => series_updateOrder_same fun _ => rfl

theorem quiet_advanceKot (outletId : String) : Quiet fun db => db.updateOutlet outletId
    (fun o => { o with nextKotNumber := o.nextKotNumber + 1 }) fun _ => rfl := by
  intro db
  refine (series_updateOutlet (f := fun o => { o with nextKotNumber := o.nextKotNumber + 1 })
    (g := fun n => n) fun _ => rfl).trans ?_
  ext1
  · rfl
  · funext i
    simp

/-- Writes to other columns. -/
theorem quiet_of_same {w : BillingDb → BillingDb} (horders : ∀ db, (w db).orders = db.orders)
    (houtlets : ∀ db, (w db).outlets = db.outlets) : Quiet w := by
  intro db
  rw [BillingDb.series, horders, houtlets]
  rfl

theorem quiet_punchItems (menu : Menu) (t : PunchTarget) (opts : PunchOptions)
    (items : List OrderItemInput) (combos : List ComboOrderInput) :
    (punchItems menu t opts items combos).Writes Quiet := by
  refine (writes_query _).bind fun _ => (writes_require _ _).bind fun _ =>
    (writes_drawNumber (quiet_advanceKot _)).bind fun _ =>
    (writes_update (quiet_of_same (fun _ => rfl) fun _ => rfl)).bind fun _ =>
    (writes_liftM _).bind fun _ => ?_
  exact (writes_update (quiet_of_same (fun _ => rfl) fun _ => rfl)).bind fun _ =>
    writes_update (quiet_of_same (fun _ => rfl) fun _ => rfl)

end Writes

/-! ### Statements -/

section Statements

/-- Where a transaction stands, and what its writes so far do to the series. -/
abbrev SeriesRunning := seriesDiscipline.Running BillingDb.series

variable {α : Type} {L : Hold LockKey → Prop} {K : BillingDb → Prop} {f : BillingDb → BillingDb}
  {g : Series → Series} {post : (Hold LockKey → Prop) → (BillingDb → Prop) →
    (BillingDb → BillingDb) → α → Prop}

theorem stable_bill {id : RowId} (hlock : L (.lock (.order id))) (b : NumberedBill) :
    seriesDiscipline.Stable L fun s => s.series.bill id = some b :=
  fun _ _ _ _ _ _ _ hother hstep hb => hstep.bills id b hb (hother _ hlock)

theorem outlet_guards (outletId : String) :
    seriesDiscipline.Guards (.outlet outletId) fun s => s.series.next outletId :=
  fun _ _ _ hstep hL => hstep.next outletId hL

/-- A bill that is locked and open has no number. -/
theorem wp_lockOpenOrder_series {user : AuthUser} {orderId : RowId}
    {post : (Hold LockKey → Prop) → (BillingDb → Prop) → (BillingDb → BillingDb) → Order → Prop}
    (hrun : SeriesRunning L K f fun S => S)
    (h : ∀ o : Order, SeriesRunning (Discipline.add L (.lock (.order orderId)))
        (fun s => K s ∧ s.series.bill orderId = some ⟨o.outletId, .opened, none⟩) f (fun S => S) →
      post (Discipline.add L (.lock (.order orderId)))
        (fun s => K s ∧ s.series.bill orderId = some ⟨o.outletId, .opened, none⟩) f o) :
    seriesDiscipline.wp (lockOpenOrder user orderId) L K f post := by
  unfold lockOpenOrder
  simp only [Discipline.wp_bind, wp_acquire]
  refine wp_query (hrun.stable.add _) fun s n hs _ => ?_
  cases hfind : (f s).orders.find? orderId with
  | none => exact ⟨fun _ => True, stable_true, trivial, wp_require fun _ h => by cases h⟩
  | some o =>
    have hbill : s.series.bill orderId = some o.numbered := by
      have heffect := congrArg (fun S : Series => S.bill orderId) (hrun.effect s)
      exact heffect.symm.trans (by simp [BillingDb.series, hfind])
    have hstable := stable_bill (L := Discipline.add L (.lock (.order orderId))) (.inl rfl)
      o.numbered
    refine ⟨_, hstable, hbill, wp_require fun o' ho => wp_ofExcept fun _ _ => wp_check fun hopen => ?_⟩
    obtain rfl := Option.some.inj ho
    have hnone : o.billNumber = none := by
      by_contra hsome
      have hsettled : o.status = .settled := hs.settled orderId o.numbered hbill hsome
      rw [hopen] at hsettled
      cases hsettled
    have heq : o.numbered = ⟨o.outletId, .opened, none⟩ := by
      rw [Order.numbered, hopen, hnone]
    rw [heq] at hstable ⊢
    exact h o ((hrun.add _).and hstable)

/-- The next number of an outlet. -/
theorem wp_nextBillNumber_series {outletId : String}
    {post : (Hold LockKey → Prop) → (BillingDb → Prop) → (BillingDb → BillingDb) → ℕ → Prop}
    (hrun : SeriesRunning L K f fun S => S)
    (h : ∀ f' k, SeriesRunning (Discipline.add L (.lock (.outlet outletId)))
        (fun s => K s ∧ s.series.next outletId = some k) f' (fun S => S.advance outletId) →
      post (Discipline.add L (.lock (.outlet outletId)))
        (fun s => K s ∧ s.series.next outletId = some k) f' k) :
    seriesDiscipline.wp (nextBillNumber outletId) L K f post := by
  unfold nextBillNumber drawNumber
  simp only [Discipline.wp_bind, wp_acquire, wp_update, Discipline.wp_pure]
  refine wp_query (hrun.stable.add _) fun s n hs _ => ?_
  cases hfind : (f s).outlets.find? outletId with
  | none => exact ⟨fun _ => True, stable_true, trivial, wp_require fun _ h => by cases h⟩
  | some o =>
    have hnext : s.series.next outletId = some o.nextBillNumber := by
      have heffect := congrArg (fun S : Series => S.next outletId) (hrun.effect s)
      exact heffect.symm.trans (by simp [BillingDb.series, hfind])
    have hstable := (outlet_guards outletId).stable
      (L := Discipline.add L (.lock (.outlet outletId))) (.inl rfl) (· = some o.nextBillNumber)
    refine ⟨_, hstable, hnext, wp_require fun o' ho => ?_⟩
    obtain rfl := Option.some.inj ho
    exact h _ _ (((hrun.add _).and hstable).write fun db =>
      series_updateOutlet (g := (· + 1)) fun _ => rfl)

/-- The bill that a check is of is closed, if it is open and no check of it is. -/
theorem wp_closeSplitParent_series {parentId : RowId}
    {post : (Hold LockKey → Prop) → (BillingDb → Prop) → (BillingDb → BillingDb) → Unit → Prop}
    (hrun : SeriesRunning L K f g)
    (hg : ∀ S b, (g S).bill parentId = some b → b.status = .opened → S.bill parentId = some b)
    (hstay : ∀ L', (∀ k, L k → L' k) → SeriesRunning L' K f g → post L' K f ())
    (hclose : ∀ f' o, (∃ S b, (g S).bill parentId = some b ∧ b.status = .opened) →
      SeriesRunning (Discipline.add L (.lock (.order parentId)))
        (fun s => K s ∧ s.series.bill parentId = some ⟨o, .opened, none⟩) f'
        (fun S => (g S).edit parentId fun b => { b with status := .split }) →
      post (Discipline.add L (.lock (.order parentId)))
        (fun s => K s ∧ s.series.bill parentId = some ⟨o, .opened, none⟩) f' ()) :
    seriesDiscipline.wp (closeSplitParentIfDone parentId) L K f post := by
  have hrun' := hrun.add (.lock (.order parentId))
  unfold closeSplitParentIfDone
  simp only [Discipline.wp_bind, wp_acquire]
  refine wp_query_any hrun'.stable fun checks => ?_
  split
  · exact hstay _ (fun _ => .inr) hrun'
  simp only [Discipline.wp_bind]
  refine wp_query hrun'.stable fun s n hs _ => ?_
  cases hfind : (f s).orders.find? parentId with
  | none => exact ⟨fun _ => True, stable_true, trivial, wp_require fun _ h => by cases h⟩
  | some P =>
    have hbill : (g s.series).bill parentId = some P.numbered := by
      rw [← hrun.effect s]
      simp [BillingDb.series, hfind]
    by_cases hopen : P.status = .opened
    · have hfound := hg _ _ hbill hopen
      have hnone : P.billNumber = none := by
        by_contra hsome
        have hsettled : P.status = .settled := hs.settled parentId P.numbered hfound hsome
        rw [hopen] at hsettled
        cases hsettled
      have heq : P.numbered = ⟨P.outletId, .opened, none⟩ := by
        rw [Order.numbered, hopen, hnone]
      rw [heq] at hbill hfound
      have hstable := stable_bill (L := Discipline.add L (.lock (.order parentId))) (.inl rfl)
        ⟨P.outletId, .opened, none⟩
      refine ⟨_, hstable, hfound, wp_require fun P' hP' => ?_⟩
      obtain rfl := Option.some.inj hP'
      rw [if_neg (by simp [hopen]), wp_update]
      exact hclose _ _ ⟨_, _, hbill, rfl⟩ ((hrun'.and hstable).write
        (e := fun S => S.edit parentId fun b => { b with status := .split }) fun db =>
          series_updateOrder fun _ => rfl)
    · refine ⟨fun _ => True, stable_true, trivial, wp_require fun P' hP' => ?_⟩
      obtain rfl := Option.some.inj hP'
      rw [if_pos hopen, wp_pure]
      simp only [and_true]
      exact hstay _ (fun _ => .inr) hrun'

/-- What may be committed. -/
theorem SeriesRunning.commits (hrun : SeriesRunning L K f g)
    (h : ∀ s n, s.series.Sound n → (∀ m, L (.number m) → m < n) → K s →
      (g s.series).Sound n ∧ s.series.Step L (g s.series)) : seriesDiscipline.Commits L K f := by
  intro s n hs hdrawn hK
  change (f s).series.Sound n ∧ s.series.Step L (f s).series
  rw [hrun.effect s]
  exact h s n hs hdrawn hK

/-- A bill is inserted under a number that was drawn, and the rest leaves the series alone. -/
theorem wp_insertBill {o : ℕ → Order} (ho : ∀ n, (o n).id = ⟨n, 0⟩) {t : ℕ → BillingTx α}
    (ht : ∀ n, (t n).Writes Quiet) (hrun : SeriesRunning L K f g)
    (h : ∀ L' s n stamp, (∀ k, L k → L' k) → L' (.number stamp) → stamp < n → s.series.Sound n →
      K s → s.series.bill ⟨stamp, 0⟩ = none →
        ((g s.series).put ⟨stamp, 0⟩ (o stamp).numbered).Sound n ∧
          s.series.Step L' ((g s.series).put ⟨stamp, 0⟩ (o stamp).numbered)) :
    seriesDiscipline.wp (draw >>= fun stamp =>
      update (fun db => db.insertOrder (o stamp)) >>= fun _ => t stamp) L K f
      fun L K f _ => seriesDiscipline.Commits L K f := by
  simp only [Discipline.wp_bind, wp_update]
  refine wp_draw hrun.stable fun s stamp hs _ => ?_
  have hnew : s.series.bill ⟨stamp, 0⟩ = none := by
    by_contra hsome
    exact Nat.lt_irrefl _ (hs.fresh _ hsome)
  -- no one else inserts a bill under the number
  have hstable : seriesDiscipline.Stable (Discipline.add L (.number stamp))
      fun s => s.series.bill ⟨stamp, 0⟩ = none := by
    intro L' s n s' n' _ _ hother hstep hnone
    by_contra hsome
    exact hother _ (.inl rfl) (hstep.origin _ hnone hsome)
  refine ⟨_, hstable, hnew, ?_⟩
  have hwrite := ((hrun.add (.number stamp)).and
    hstable).write (w := fun db => db.insertOrder (o stamp))
      (e := fun S => S.put ⟨stamp, 0⟩ (o stamp).numbered) fun db => by
        rw [series_insertOrder, ho]
  refine wp_leaves (ht stamp) hwrite fun L' f' _ hL' hrun' => SeriesRunning.commits hrun' ?_
  rintro s n hs hdrawn ⟨hK, hnone⟩
  exact h L' s n stamp (fun k hk => hL' k (.inr hk)) (hL' _ (.inl rfl))
    (hdrawn stamp (hL' _ (.inl rfl))) hs hK hnone

end Statements

/-! ### Requests -/

section Requests

/-- A bill that was open is closed under the next number of its outlet. -/
theorem Series.close_spec {S : Series} {n k : ℕ} {L : Hold LockKey → Prop} {id : RowId}
    {outletId : String} (hS : S.Sound n) (hbill : S.bill id = some ⟨outletId, .opened, none⟩)
    (hnext : S.next outletId = some k) (horder : L (.lock (.order id)))
    (houtlet : L (.lock (.outlet outletId))) :
    (S.advance outletId).edit id (fun b => { b with status := .settled, number := some (bNumber k) })
      = (S.advance outletId).put id ⟨outletId, .settled, some (bNumber k)⟩ ∧
    ((S.advance outletId).put id ⟨outletId, .settled, some (bNumber k)⟩).Sound n ∧
    S.Step L ((S.advance outletId).put id ⟨outletId, .settled, some (bNumber k)⟩) := by
  have hsome : S.bill id ≠ none := by simp [hbill]
  refine ⟨Series.edit_of_some (S := S.advance outletId) hbill, hS.issue (hS.fresh id hsome) (Series.held_of_unnumbered hbill rfl) hnext,
    (Series.step_advance houtlet).trans (Series.step_put (fun h => absurd h hsome) fun _ => horder)⟩

theorem settle_series (user : AuthUser) (now : Time) (orderId : RowId) (input : SettleOrderInput) :
    seriesDiscipline.Safe (settle user now orderId input) := by
  unfold Safe
  simp only [settle, Discipline.wp_bind]
  refine wp_lockOpenOrder_series .start fun o hrun => wp_check fun _ => ?_
  refine wp_query_any hrun.stable fun row => wp_require fun outlet _ => ?_
  refine wp_leaves (writes_resolveDiscounts _ _ _ _ _) hrun fun L₁ f₁ d hL₁ hrun => ?_
  refine wp_leaves (writes_consumeOtp _ _ _ _ _ fun _ => quiet_of_touches [.otps]
    (touches_useOtp (by decide) _ _ _) (by decide) (by decide)) hrun fun L₂ f₂ otpId hL₂ hrun => ?_
  refine wp_leaves (writes_recomputeTotals _ _ _ fun _ => quiet_setFigures _ _) hrun
    fun L₃ f₃ figures hL₃ hrun => ?_
  refine wp_leaves ((writes_takePayments _ _ _ _).mono fun w hw =>
    quiet_of_touches [] hw (by decide) (by decide)) hrun fun L₄ f₄ _ hL₄ hrun => ?_
  refine wp_nextBillNumber_series hrun fun f₅ k hrun => ?_
  refine wp_leaves (writes_whenever (writes_redeemCustomerPoints _ _ _ (quiet_of_touches
    [.customers] (touches_redeemPoints (by decide) _ _) (by decide) (by decide)))) hrun
      fun L₆ f₆ _ hL₆ hrun => ?_
  generalize settlePhone o input.toSettlePreviewInput = phone
  refine wp_leaves (writes_whenever (writes_earnCustomerPoints _ _ _ _ _ (quiet_of_touches
    [.customers] (touches_earnPoints (by decide) _ _ _ _ _) (by decide) (by decide)))) hrun
      fun L₇ f₇ _ hL₇ hrun => ?_
  refine wp_leaves (writes_forM (fun _ => (writes_countCoupon _).mono fun w hw =>
    quiet_of_touches [] hw (by decide) (by decide)) _) hrun fun L₈ f₈ _ hL₈ hrun => ?_
  rw [wp_update]
  have horder : L₈ (.lock (.order orderId)) :=
    hL₈ _ (hL₇ _ (hL₆ _ (.inr (hL₄ _ (hL₃ _ (hL₂ _ (hL₁ _ (.inl rfl))))))))
  have houtlet : L₈ (.lock (.outlet o.outletId)) := hL₈ _ (hL₇ _ (hL₆ _ (.inl rfl)))
  have hclosed := hrun.write (w := fun db => db.closeBill orderId ("B-" ++ toString k)
      (input.customerName.or o.customerName) phone (d.coupon.map (·.2)))
    (e := fun S => S.edit orderId fun b =>
      { b with status := .settled, number := some (bNumber k) }) fun db =>
        series_updateOrder fun _ => rfl
  cases o.parentOrderId with
  | none =>
    refine SeriesRunning.commits hclosed fun s n hs _ hK => ?_
    obtain ⟨heq, hsound, hstep⟩ := Series.close_spec hs hK.1.2 hK.2 horder houtlet
    rw [heq]
    exact ⟨hsound, hstep⟩
  | some p =>
    refine wp_closeSplitParent_series hclosed (fun S b hb hopen => ?_)
      (fun L' hL' hrun => SeriesRunning.commits hrun fun s n hs _ hK => ?_)
      fun f' out hread hrun => SeriesRunning.commits hrun fun s n hs _ hK => ?_
    · by_cases hp : p = orderId
      · simp only [Series.edit, hp, if_true] at hb
        obtain ⟨c, -, rfl⟩ := Option.map_eq_some_iff.mp hb
        cases hopen
      · simpa [Series.edit, hp, Series.advance] using hb
    · obtain ⟨heq, hsound, hstep⟩ := Series.close_spec hs hK.1.2 hK.2 (hL' _ horder) (hL' _ houtlet)
      rw [heq]
      exact ⟨hsound, hstep⟩
    · -- the parent is another bill than the check
      have hp : p ≠ orderId := by
        rintro rfl
        obtain ⟨S, b, hb, hopen⟩ := hread
        simp only [Series.edit, if_true] at hb
        obtain ⟨c, -, rfl⟩ := Option.map_eq_some_iff.mp hb
        cases hopen
      obtain ⟨⟨⟨-, hbill⟩, hnext⟩, hparent⟩ := hK
      obtain ⟨heq, hsound, hstep⟩ := Series.close_spec (L := Discipline.add L₈ (.lock (.order p))) hs
        hbill hnext (.inr horder) (.inr houtlet)
      rw [heq]
      have hparent' : ((s.series.advance o.outletId).put orderId
          ⟨o.outletId, .settled, some (bNumber k)⟩).bill p = some ⟨out, .opened, none⟩ := by
        simpa [Series.put, hp, Series.advance] using hparent
      rw [Series.edit_of_some hparent']
      have hsome := Option.ne_none_iff_exists'.mpr ⟨_, hparent'⟩
      refine ⟨hsound.put (hsound.fresh p hsome) (Series.held_of_unnumbered hparent' rfl) (by simp),
        hstep.trans (Series.step_put (fun h => absurd h hsome) fun _ => .inl rfl)⟩

/-- A new bill of a device without one of the outlet's numbers. -/
theorem Series.insert_spec {S : Series} {n stamp : ℕ} {L : Hold LockKey → Prop} {b : NumberedBill}
    (hS : S.Sound n) (hnew : S.bill ⟨stamp, 0⟩ = none) (hstamp : stamp < n)
    (hnumber : L (.number stamp)) (hb : ∀ v ∈ b.number, ¬IsBNumber v ∧ b.status = .settled) :
    (S.put ⟨stamp, 0⟩ b).Sound n ∧ S.Step L (S.put ⟨stamp, 0⟩ b) := by
  have hheld : S.numbering.held ⟨stamp, 0⟩ = none := by simp [Series.numbering, hnew]
  exact ⟨hS.put hstamp hheld hb, Series.step_put (fun _ => hnumber) fun h => absurd hnew h⟩

/-- A new bill of a device under the next number of its outlet. -/
theorem Series.issue_spec {S : Series} {n stamp k : ℕ} {L : Hold LockKey → Prop} {outletId : String}
    (hS : S.Sound n) (hnew : S.bill ⟨stamp, 0⟩ = none) (hstamp : stamp < n)
    (hnumber : L (.number stamp)) (hnext : S.next outletId = some k)
    (houtlet : L (.lock (.outlet outletId))) :
    ((S.advance outletId).put ⟨stamp, 0⟩ ⟨outletId, .settled, some (bNumber k)⟩).Sound n ∧
      S.Step L ((S.advance outletId).put ⟨stamp, 0⟩ ⟨outletId, .settled, some (bNumber k)⟩) := by
  have hheld : S.numbering.held ⟨stamp, 0⟩ = none := by simp [Series.numbering, hnew]
  exact ⟨hS.issue hstamp hheld hnext, (Series.step_advance houtlet).trans
    (Series.step_put (fun _ => hnumber) fun h => absurd hnew h)⟩

/-- What a synchronised order writes once its bill is inserted. -/
theorem quiet_fillSynced (menu : Menu) (outletId : String) (order : SyncedOrderInput) (stamp : ℕ) :
    (do
      punchItems menu ⟨⟨stamp, 0⟩, outletId, stamp⟩ ⟨.sync order.orderType, true⟩ order.items []
      let figures ← recomputeTotals ⟨stamp, 0⟩ (some (order.discountAmount.getD 0)) true
      let paidPaise := order.payments.foldl (fun s p => s + toPaise p.amount) 0
      check (order.status = .settled → order.payments ≠ [] ∧
          paidPaise = toPaise figures.total.toNumber)
        (.badRequest "Offline settled order payments do not match the server total")
      let payments ← order.payments.mapM fun p =>
        return (⟨⟨stamp, 0⟩, .tender p.mode, ← store p.amount⟩ : OrderPayment)
      update fun db => { db with
        payments := db.payments ++ if order.status = .settled then payments else [] } :
      BillingTx Unit).Writes Quiet := by
  refine (quiet_punchItems _ _ _ _ _).bind fun _ =>
    (writes_recomputeTotals _ _ _ fun _ => quiet_setFigures _ _).bind fun _ =>
    (writes_check _ _).bind fun _ => ?_
  exact (writes_mapM (fun _ => (writes_liftM _).bind fun _ => writes_pure _) _).bind fun _ =>
    writes_update (quiet_of_same (fun _ => rfl) fun _ => rfl)

theorem wp_insertSynced_series (menu : Menu) (outletId deviceId : String) (order : SyncedOrderInput)
    (tableId : Option String) {L : Hold LockKey → Prop} {K : BillingDb → Prop}
    {f : BillingDb → BillingDb} (hrun : SeriesRunning L K f fun S => S) :
    seriesDiscipline.wp (insertSynced menu outletId deviceId order tableId) L K f
      fun L K f _ => seriesDiscipline.Commits L K f := by
  unfold insertSynced
  by_cases hsettled : order.status = .settled
  · rw [if_pos hsettled, Discipline.wp_bind, Discipline.wp_map]
    refine wp_nextBillNumber_series hrun fun f' k hrun => ?_
    rw [Discipline.wp_bind, wp_acquire, Discipline.wp_bind]
    have hrun := hrun.add (.lock (.syncKey deviceId order.clientId))
    refine wp_query_any hrun.stable fun taken => ?_
    rw [Discipline.wp_bind]
    refine wp_check fun _ => wp_insertBill (fun _ => rfl) (quiet_fillSynced menu outletId order) hrun
      fun L' s n stamp hL' hnumber hstamp hs hK hnew => ?_
    have hspec := Series.issue_spec hs hnew hstamp hnumber hK.2 (hL' _ (.inr (.inl rfl)))
    simpa [Order.numbered, newOrder, syncedStatus, hsettled, bNumber] using hspec
  · rw [if_neg hsettled, Discipline.wp_bind, Discipline.wp_pure, Discipline.wp_bind, wp_acquire,
      Discipline.wp_bind]
    have hrun := hrun.add (.lock (.syncKey deviceId order.clientId))
    refine wp_query_any hrun.stable fun taken => ?_
    rw [Discipline.wp_bind]
    exact wp_check fun _ => wp_insertBill (fun _ => rfl) (quiet_fillSynced menu outletId order) hrun
      fun L' s n stamp hL' hnumber hstamp hs hK hnew =>
        Series.insert_spec hs hnew hstamp hnumber (by simp [Order.numbered])

theorem applySyncedOrder_series (menu : Menu) (outletId deviceId : String)
    (order : SyncedOrderInput) :
    seriesDiscipline.Safe (applySyncedOrder menu outletId deviceId order) := by
  unfold Safe applySyncedOrder
  split
  · rw [Discipline.wp_bind]
    refine wp_require fun tableId _ => ?_
    rw [Discipline.wp_bind]
    have hchecks : (checkSyncedTable outletId deviceId order tableId).Writes Quiet := by
      refine ((writes_acquire _).bind fun _ => (writes_query _).bind fun _ =>
        writes_check _ _).bind fun _ => (writes_query _).bind fun _ => ?_
      split
      · exact writes_pure _
      · exact (writes_query _).bind fun _ => (writes_check _ _).bind fun _ => writes_pure _
    refine wp_leaves hchecks .start fun L' f' previous hL' hrun => ?_
    split
    · exact SeriesRunning.commits hrun fun s n hs _ _ => ⟨hs, .refl _⟩
    · exact wp_insertSynced_series _ _ _ _ _ hrun
  · exact wp_insertSynced_series _ _ _ _ _ .start

/-- The number of a device is not of the outlet's kind. -/
theorem does_deviceNumber (device : EdgeDeviceContext) (sale : EdgeSale) :
    (deviceNumber device sale).Does fun w i => w = id ∧ ∀ j ∈ i, ¬IsBNumber j.billNumber := by
  unfold deviceNumber
  split
  · simp
  next b hb =>
  dsimp only
  split
  · next owner expected _ hformat =>
    split
    · simp
    · next hexpected =>
      simp only [does_bind, does_query, does_pure]
      refine fun s => ⟨rfl, fun j hj => ?_⟩
      split at hj
      · cases hj
      · obtain rfl := Option.some.inj hj
        rw [not_not] at hexpected
        exact hexpected ▸ not_isBNumber_of_series (sale.schema.billNo b hb).series hformat
  · simp

/-- The number of a sale, with what makes it fit the series. -/
theorem wp_saleNumber_series {device : EdgeDeviceContext} {sale : EdgeSale}
    {L : Hold LockKey → Prop} {K : BillingDb → Prop} {f : BillingDb → BillingDb}
    {post : (Hold LockKey → Prop) → (BillingDb → Prop) → (BillingDb → BillingDb) →
      InvoiceNumber → Prop} (hrun : SeriesRunning L K f fun S => S)
    (h : ∀ L' K' f' g r, SeriesRunning L' K' f' g → (∀ L'' s n stamp, (∀ k, L' k → L'' k) →
        L'' (.number stamp) → stamp < n → s.series.Sound n → K' s →
        s.series.bill ⟨stamp, 0⟩ = none →
          ((g s.series).put ⟨stamp, 0⟩
            ⟨device.outletId, syncedStatus sale.order.status, r.1⟩).Sound n ∧
          s.series.Step L'' ((g s.series).put ⟨stamp, 0⟩
            ⟨device.outletId, syncedStatus sale.order.status, r.1⟩)) → post L' K' f' r) :
    seriesDiscipline.wp (saleNumber device sale) L K f post := by
  unfold saleNumber
  split
  · next hsettled =>
    rw [Discipline.wp_bind]
    refine wp_does (does_deviceNumber device sale) hrun.stable fun L₁ w i hL₁ hi => ?_
    obtain ⟨rfl, hforeign⟩ := hi
    have hrun := hrun.anti hL₁.holds
    cases i with
    | some i =>
      refine h L₁ K f _ _ hrun fun L'' s n stamp hL hnumber hstamp hs _ hnew => ?_
      refine Series.insert_spec hs hnew hstamp hnumber fun v hv => ?_
      obtain rfl := Option.some.inj hv
      exact ⟨hforeign i rfl, by rw [hsettled]; rfl⟩
    | none =>
      dsimp only
      rw [Discipline.wp_bind]
      refine wp_nextBillNumber_series hrun fun f₂ k hrun => ?_
      refine h _ _ _ _ _ hrun fun L'' s n stamp hL hnumber hstamp hs hK hnew => ?_
      rw [hsettled]
      exact Series.issue_spec hs hnew hstamp hnumber hK.2 (hL _ (.inl rfl))
  · exact h L K f _ _ hrun fun L'' s n stamp _ hnumber hstamp hs _ hnew =>
      Series.insert_spec hs hnew hstamp hnumber (by simp)

theorem quiet_lockSaleTable (outletId : String) (order : EdgeOrderInput) :
    (lockSaleTable outletId order).Writes Quiet := by
  unfold lockSaleTable
  split
  · exact (writes_acquire _).bind fun _ => (writes_query _).bind fun _ => writes_pure _
  · exact writes_pure _

theorem quiet_countSaleCoupon (outletId : String) (order : EdgeOrderInput) :
    (countSaleCoupon outletId order).Writes Quiet := by
  unfold countSaleCoupon
  split
  · exact writes_pure _
  · refine (writes_query _).bind fun _ => (writes_forM (fun _ => writes_acquire _) _).bind fun _ =>
      (writes_query _).bind fun _ => (writes_forM (fun _ => ?_) _).bind fun _ => writes_pure _
    exact (writes_countCoupon _).mono fun w hw =>
      quiet_of_touches [] hw (by decide) (by decide)

/-- What a sale writes once its bill is inserted. -/
theorem quiet_enterInvoice (i : EdgeInvoice) : (enterInvoice i).Writes Quiet :=
  (writes_acquire _).bind fun _ => (writes_query _).bind fun _ => (writes_check _ _).bind fun _ =>
    writes_update (quiet_of_same (fun _ => rfl) fun _ => rfl)

theorem insertSale_series (device : EdgeDeviceContext) (sale : EdgeSale)
    {L : Hold LockKey → Prop} {K : BillingDb → Prop} {f : BillingDb → BillingDb}
    (hrun : SeriesRunning L K f fun S => S) : seriesDiscipline.wp (insertSale device sale) L K f
      fun L K f _ => seriesDiscipline.Commits L K f := by
  unfold insertSale
  dsimp only
  rw [Discipline.wp_bind]
  refine wp_leaves (quiet_lockSaleTable _ _) hrun fun L₁ f₁ tableId _ hrun => ?_
  rw [Discipline.wp_bind]
  refine wp_ofExcept fun totals _ => ?_
  rw [Discipline.wp_bind]
  refine wp_leaves (quiet_countSaleCoupon _ _) hrun fun L₂ f₂ couponCode _ hrun => ?_
  rw [Discipline.wp_bind]
  refine wp_saleNumber_series hrun fun L₃ K₃ f₃ g r hrun hspec => ?_
  obtain ⟨billNumber, invoice⟩ := r
  dsimp only
  rw [Discipline.wp_bind]
  refine wp_ofExcept fun figures _ => ?_
  rw [Discipline.wp_bind, wp_acquire, Discipline.wp_bind]
  have hrun := hrun.add (.lock (.syncKey device.terminalId sale.order.clientId))
  refine wp_query_any hrun.stable fun taken => ?_
  rw [Discipline.wp_bind]
  refine wp_check fun _ => wp_insertBill (fun _ => rfl) (fun stamp => ?_) hrun
    fun L' s n stamp hL hnumber hstamp hs hK hnew =>
      hspec L' s n stamp (fun k hk => hL k (.inr hk)) hnumber hstamp hs hK hnew
  refine (writes_drawNumber (quiet_advanceKot _)).bind fun _ =>
    (writes_update (quiet_of_same (fun _ => rfl) fun _ => rfl)).bind fun _ =>
    (writes_liftM _).bind fun _ => (writes_forM quiet_enterInvoice _).bind fun _ => ?_
  exact (writes_mapM (fun _ => (writes_liftM _).bind fun _ => writes_pure _) _).bind fun _ =>
    writes_update (quiet_of_same (fun _ => rfl) fun _ => rfl)

theorem ingestEdgeBill_series (device : EdgeDeviceContext) (sale : EdgeSale) :
    seriesDiscipline.Safe (ingestEdgeBill device sale) := by
  unfold Safe ingestEdgeBill
  rw [Discipline.wp_bind]
  refine wp_query_any stable_true fun existing => ?_
  split
  · exact SeriesRunning.commits .start fun s n hs _ _ => ⟨hs, .refl _⟩
  · exact insertSale_series device sale .start

/-- Every request keeps the series. -/
theorem series_safe (r : SeriesRequest) : seriesDiscipline.Safe r.run := by
  cases r with
  | settle user now orderId input =>
    unfold Safe SeriesRequest.run
    rw [Discipline.wp_map]
    exact settle_series user now orderId input
  | applySyncedOrder menu outletId deviceId order =>
    exact applySyncedOrder_series menu outletId deviceId order
  | ingestEdgeBill device sale => exact ingestEdgeBill_series device sale

end Requests

/-! ### All interleavings -/

theorem NoNumbers.sound {db : BillingDb} {n : ℕ} (h : NoNumbers db n) : db.series.Sound n := by
  have hbill : ∀ id b, db.series.bill id = some b → b.number = none ∧ id.stamp < n := by
    intro id b hb
    obtain ⟨o, ho, rfl⟩ := Option.map_eq_some_iff.mp hb
    obtain ⟨hmem, rfl⟩ := KeyedTable.find?_eq_some.mp ho
    exact h.orders o hmem
  have hheld : ∀ id, db.series.numbering.held id = none := by
    intro id
    cases hb : db.series.bill id with
    | none => simp [Series.numbering, hb]
    | some b => exact Series.held_of_unnumbered hb (hbill id b hb).1
  have hnext : ∀ o k, db.series.next o = some k → k = 1 := by
    intro o k hk
    obtain ⟨outlet, ho, rfl⟩ := Option.map_eq_some_iff.mp hk
    exact h.outlets outlet (KeyedTable.find?_eq_some.mp ho).1
  refine ⟨⟨fun o k hk => (hnext o k hk).ge, fun i o v hi => ?_, fun i j o v hi => ?_,
    fun o n k hk h1 hlt => ?_⟩, fun id b hb hnumber => ?_, fun id hid => ?_⟩
  · rw [hheld] at hi
    cases hi
  · rw [hheld] at hi
    cases hi
  · rw [hnext o n hk] at hlt
    omega
  · exact absurd (hbill id b hb).1 hnumber
  · obtain ⟨b, hb⟩ := Option.ne_none_iff_exists'.mp hid
    exact (hbill id b hb).2

theorem held_of_mem {db : BillingDb} {o : Order} (ho : o ∈ db.orders) {v : String}
    (hv : o.billNumber = some v) : db.series.numbering.held o.id = some (o.outletId, v) := by
  simp [Series.numbering, BillingDb.series, KeyedTable.find?_of_mem ho, Order.numbered, hv]

theorem mem_of_held {db : BillingDb} {id : RowId} {outletId v : String}
    (h : db.series.numbering.held id = some (outletId, v)) :
    ∃ o ∈ db.orders, o.outletId = outletId ∧ o.billNumber = some v := by
  obtain ⟨b, hb, hnumber⟩ := Option.bind_eq_some_iff.mp h
  obtain ⟨o, ho, rfl⟩ := Option.map_eq_some_iff.mp hb
  obtain ⟨w, hw, heq⟩ := Option.map_eq_some_iff.mp hnumber
  obtain ⟨rfl, rfl⟩ := Prod.mk.inj heq
  exact ⟨o, (KeyedTable.find?_eq_some.mp ho).1, rfl, hw⟩

/-- In every state that settlements, synchronised orders and the sales of devices lead to, side by
side: the numbers of an outlet's kind that its orders hold are those from 1 to before the next, each
held by one order, and only orders that were settled hold one. -/
theorem bill_series
    {w : World BillingDb LockKey Unit Empty Empty (Except BillingError Unit)}
    (h : billSeries.Reachable w) :
    ∀ outlet ∈ w.db.outlets,
      (∀ v, (IsBNumber v ∧ ∃ o ∈ w.db.orders, o.outletId = outlet.id ∧ o.billNumber = some v) ↔
        ∃ k, 1 ≤ k ∧ k < outlet.nextBillNumber ∧ v = bNumber k) ∧
      (∀ v, IsBNumber v → ∀ o ∈ w.db.orders, ∀ o' ∈ w.db.orders, o.outletId = outlet.id →
        o'.outletId = outlet.id → o.billNumber = some v → o'.billNumber = some v → o = o') ∧
      ∀ o ∈ w.db.orders, o.outletId = outlet.id → o.billNumber ≠ none → o.status = .settled := by
  have hsound : seriesDiscipline.inv w.db w.next :=
    inv_of_serve series_safe (fun _ _ => NoNumbers.sound) h
  intro outlet houtlet
  have hnext : w.db.series.next outlet.id = some outlet.nextBillNumber := by
    simp [BillingDb.series, KeyedTable.find?_of_mem houtlet]
  refine ⟨fun v => ⟨?_, ?_⟩, fun v hv o ho o' ho' hout hout' hb hb' => ?_, fun o ho _ hnumber => ?_⟩
  · rintro ⟨hv, o, ho, hout, hb⟩
    obtain ⟨n, k, hn, h1, hk, rfl⟩ :=
      hsound.gapless.drawn o.id outlet.id v (hout ▸ held_of_mem ho hb) hv
    exact ⟨k, h1, Option.some.inj (hn.symm.trans hnext) ▸ hk, rfl⟩
  · rintro ⟨k, h1, hk, rfl⟩
    obtain ⟨id, hid⟩ := hsound.gapless.given outlet.id _ k hnext h1 hk
    exact ⟨isBNumber_bNumber k, mem_of_held hid⟩
  · exact KeyedTable.eq_of_mem ho ho' (hsound.gapless.once o.id o'.id outlet.id v
      (hout ▸ held_of_mem ho hb) (hout' ▸ held_of_mem ho' hb') hv)
  · exact hsound.settled o.id o.numbered (by simp [BillingDb.series, KeyedTable.find?_of_mem ho])
      hnumber

/-! ### A settlement, a sale and a synchronised order -/

/-- An outlet with an open bill of 100. -/
def openBill : BillingDb where
  outlets := .put .empty ⟨"o", 1, 1, 1, 1, none⟩
  tables := .empty
  orders := .put .empty (newOrder ⟨0, 0⟩ "o" .takeaway none none none)
  items := .put .empty ⟨⟨0, 1⟩, ⟨0, 0⟩, "dosa", .one, .hundred, .hundred, 0,
    none, none, false, none, none, ⟨"Dosa", none, none, none, none, .pending, none, none, []⟩⟩
  kots := .empty
  payments := []
  coupons := .empty
  customers := .empty
  otps := .empty
  giftCards := .empty
  unsplits := []
  comboChoices := []
  loyaltyTransactions := []
  otpUses := []
  edgeInvoices := []

/-- The bill is settled in cash. -/
def settleOpenBill : SeriesRequest :=
  .settle ⟨"u", ["o"]⟩ 0 ⟨0, 0⟩
    { discountAmount := none
      discount_nonneg := noDiscount_nonneg
      couponCode := none
      redeemPoints := 0
      customerPhone := none
      payments := [⟨.tender .cash, 100, by decide +kernel, ⟨10000, by decide +kernel⟩, none, cash_hasCode⟩]
      payments_ne := by simp
      redeemOtp := none
      customerName := none }

/-- A sale of 50 without a number. -/
def legacyOrder : EdgeOrderInput where
  clientId := "sale"
  orderType := .takeaway
  tableId := none
  customerName := none
  customerPhone := none
  deliveryAddress := none
  items := [⟨"dosa", none, [], 1, none, 50, 0, .pending, none⟩]
  combos := []
  status := .settled
  payments := [⟨.cash, 50, none⟩]
  manualDiscount := 0
  couponCode := none
  couponDiscount := 0
  subtotal := 50
  taxAmount := 0
  total := 50
  billNo := none
  createdAt := .iso 0
  closedAt := .iso 0
  createdByStaffId := none
  closedByStaffId := none
  cancelReason := none

theorem legacyOrder_schema : EdgeOrderSchema legacyOrder := by
  unfold legacyOrder
  have hfifty : MoneySchema 50 := ⟨by decide +kernel, 5000, by decide +kernel⟩
  have hzero : MoneySchema 0 := ⟨by decide +kernel, 0, by decide +kernel⟩
  refine ⟨⟨by decide +kernel, by decide +kernel⟩, by simp [MaxLength], by simp [MaxLength],
    by simp [MaxLength], ?_,
    by simp, by simp, ?_, hzero, by simp [MaxLength], hzero, hfifty, hzero, hfifty, by simp,
    by simp [MaxLength], by simp⟩
  · intro l hl
    rw [List.mem_singleton.mp hl]
    exact ⟨by decide +kernel, ⟨by decide +kernel, by decide +kernel⟩, by simp [MaxLength],
      hfifty, by decide +kernel, by decide +kernel⟩
  · intro p hp
    rw [List.mem_singleton.mp hp]
    exact ⟨⟨by decide +kernel, hfifty.2⟩, by simp [MaxLength]⟩

/-- A device brings in a sale of 50 without a number of its own. -/
def legacySale : SeriesRequest :=
  .ingestEdgeBill ⟨"device", "t", "o", "terminal", "E01"⟩
    { order := legacyOrder
      schema := legacyOrder_schema
      formerOwner := none
      catalog := .ok () }

/-- A device synchronises an order of 50 that it settled. -/
def syncedOrder : SeriesRequest :=
  .applySyncedOrder ⟨[⟨"dosa", "o", "Dosa", ⟨5000, by decide⟩, 0, true, none, none, [], [], none⟩], [],
      [], [], 0⟩ "o" "tablet"
    { clientId := "order"
      orderType := .takeaway
      tableId := none
      customerName := none
      customerPhone := none
      items := [⟨"dosa", none, [], 1, Nat.one_pos, none, none, none⟩]
      items_ne := by simp
      payments := [⟨.cash, 50⟩]
      status := .settled
      discountAmount := none }

/-- The settlement draws a number and is held up, the sale waits for it, and the order comes last. -/
def seriesRun : List (WorldAction SeriesRequest Empty) :=
  .start 0 settleOpenBill :: WorldAction.steps 0 20 ++ .start 1 legacySale :: WorldAction.steps 1 20 ++
    WorldAction.steps 0 20 ++ WorldAction.steps 1 30 ++ .start 2 syncedOrder :: WorldAction.steps 2 30

/-- Each of the three has a number. -/
theorem bill_series_seriesRun :
    let w := billSeries.run (.atRest openBill 1) seriesRun
    w.db.orders.rows.map (·.billNumber) = [some "B-1", some "B-2", some "B-3"] ∧
      ∀ outlet ∈ w.db.outlets,
        (∀ v, (IsBNumber v ∧ ∃ o ∈ w.db.orders, o.outletId = outlet.id ∧ o.billNumber = some v) ↔
          ∃ k, 1 ≤ k ∧ k < outlet.nextBillNumber ∧ v = bNumber k) ∧
        (∀ v, IsBNumber v → ∀ o ∈ w.db.orders, ∀ o' ∈ w.db.orders, o.outletId = outlet.id →
          o'.outletId = outlet.id → o.billNumber = some v → o'.billNumber = some v → o = o') ∧
        ∀ o ∈ w.db.orders, o.outletId = outlet.id → o.billNumber ≠ none → o.status = .settled := by
  have hstart : NoNumbers openBill 1 := by
    refine ⟨fun o ho => ?_, fun o ho => ?_⟩
    · obtain rfl | ⟨ho, -⟩ := KeyedTable.mem_put.mp ho
      · exact ⟨rfl, Nat.zero_lt_one⟩
      · exact absurd ho (KeyedTable.notMem_empty o)
    · obtain rfl | ⟨ho, -⟩ := KeyedTable.mem_put.mp ho
      · rfl
      · exact absurd ho (KeyedTable.notMem_empty o)
  exact ⟨by decide +kernel, bill_series (Machine.reachable_run seriesRun (.init ⟨hstart, rfl, rfl⟩))⟩

end StelloKitchens.Billing
