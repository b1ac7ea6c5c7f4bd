import StelloKitchens.Billing.Discipline

/-!
# What the parts of the transactions write

Most of what a transaction on bills writes leaves alone where bills stand: figures, numbers,
payments, points, gift cards. The lemmas here say of each part of a transaction what it writes,
whatever it reads, and what that leaves alone.

## Main definitions

* `Aside` — writes that leave bills, lines, kitchen tickets, coupons and tables alone.

## Main results

* `does_recomputeTotals`, `does_punchItems`, `does_moveAll` — what these parts write.
-/

namespace StelloKitchens.Billing

open Checked Tx

/-! ### Views of the tables after a write -/

section Views

variable (db : BillingDb)

theorem frames_updateOrder {id : RowId} {f : Order → Order} {hf : ∀ o, (f o).id = o.id}
    {g : Frame → Frame} (h : ∀ o, (f o).frame = g o.frame) :
    (db.updateOrder id f hf).frames = edit (·.id = id) g db.frames := by
  simp only [BillingDb.frames, BillingDb.updateOrder, KeyedTable.modify, edit, List.map_map]
  refine List.map_congr_left fun o _ => ?_
  have hframe : o.frame.id = o.id := rfl
  by_cases hid : o.id = id
  · simp only [Function.comp_apply, hframe, hid, decide_true, if_true, h]
  · simp only [Function.comp_apply, hframe, hid, decide_false, Bool.false_eq_true, if_false]

theorem edit_id (p : Frame → Prop) [DecidablePred p] (fs : List Frame) : edit p id fs = fs := by
  rw [edit]
  refine (List.map_congr_left fun F _ => ?_).trans (List.map_id fs)
  simp

/-- An update that leaves where a bill stands. -/
theorem frames_updateOrder_same {id : RowId} {f : Order → Order} {hf : ∀ o, (f o).id = o.id}
    (h : ∀ o, (f o).frame = o.frame) : (db.updateOrder id f hf).frames = db.frames :=
  (frames_updateOrder db (g := fun F => F) h).trans (edit_id _ _)

theorem frames_insertOrder {o : Order} (h : ∀ F ∈ db.frames, F.id ≠ o.id) :
    (db.insertOrder o).frames = db.frames ++ [o.frame] := by
  have hnone : db.orders.find? o.id = none := by
    rw [KeyedTable.find?_eq_none]
    exact fun p hp => h p.frame (List.mem_map_of_mem hp)
  rw [BillingDb.frames, BillingDb.insertOrder, KeyedTable.put,
    KeyedTable.rows_upsert_of_none _ hnone, List.map_append]
  rfl

theorem isSome_updateOutlet {id : String} {f : Outlet → Outlet} {hf : ∀ o, (f o).id = o.id}
    (id' : String) :
    ((db.updateOutlet id f hf).outlets.find? id').isSome = (db.outlets.find? id').isSome := by
  rw [BillingDb.updateOutlet, KeyedTable.find?_modify, Option.isSome_map]

theorem mem_frames {F : Frame} : F ∈ db.frames ↔ ∃ o ∈ db.orders, o.frame = F := List.mem_map

/-- The lines after some were written. -/
theorem mem_putItems {rows : List OrderItem} {i : OrderItem} (h : i ∈ (db.putItems rows).items) :
    i ∈ rows ∨ (i ∈ db.items ∧ ∀ r ∈ rows, r.id ≠ i.id) := by
  unfold BillingDb.putItems at h
  dsimp only at h
  generalize db.items = t at h ⊢
  induction rows generalizing t with
  | nil => exact .inr ⟨h, fun r hr => by cases hr⟩
  | cons r rows ih =>
    rcases ih _ h with hi | ⟨hi, hne⟩
    · exact .inl (List.mem_cons_of_mem _ hi)
    · rcases KeyedTable.mem_put.mp hi with rfl | ⟨hi, hner⟩
      · exact .inl List.mem_cons_self
      · refine .inr ⟨hi, fun x hx => ?_⟩
        rcases List.mem_cons.mp hx with rfl | hx
        · exact hner.symm
        · exact hne x hx

/-- A line that none of the written ones replaces stays. -/
theorem mem_putItems_of_mem {rows : List OrderItem} {i : OrderItem} (hi : i ∈ db.items)
    (hne : ∀ r ∈ rows, r.id ≠ i.id) : i ∈ (db.putItems rows).items := by
  unfold BillingDb.putItems
  dsimp only
  generalize db.items = t at hi ⊢
  induction rows generalizing t with
  | nil => exact hi
  | cons r rows ih =>
    exact ih (fun x hx => hne x (List.mem_cons_of_mem _ hx)) _
      (KeyedTable.mem_put.mpr (.inr ⟨hi, (hne r List.mem_cons_self).symm⟩))

end Views

/-! ### Writes on the side -/

/-- Writes that leave alone where bills stand, their lines and tickets, and what they refer to. -/
structure Aside (w : BillingDb → BillingDb) : Prop where
  frames : ∀ db, (w db).frames = db.frames
  items : ∀ db, (w db).items = db.items
  kots : ∀ db, (w db).kots = db.kots
  coupons : ∀ db, (w db).coupons = db.coupons
  tables : ∀ db, (w db).tables = db.tables
  unsplits : ∀ db, (w db).unsplits = db.unsplits
  choices : ∀ db, (w db).comboChoices = db.comboChoices
  outlets : ∀ db id, ((w db).outlets.find? id).isSome = (db.outlets.find? id).isSome

theorem Aside.id : Aside id := by constructor <;> intros <;> rfl

theorem Aside.comp {v w : BillingDb → BillingDb} (hv : Aside v) (hw : Aside w) : Aside (w ∘ v) where
  frames db := (hw.frames _).trans (hv.frames db)
  items db := (hw.items _).trans (hv.items db)
  kots db := (hw.kots _).trans (hv.kots db)
  coupons db := (hw.coupons _).trans (hv.coupons db)
  tables db := (hw.tables _).trans (hv.tables db)
  unsplits db := (hw.unsplits _).trans (hv.unsplits db)
  choices db := (hw.choices _).trans (hv.choices db)
  outlets db id := (hw.outlets _ id).trans (hv.outlets db id)

theorem aside_updateOrder {id : RowId} {f : Order → Order} {hf : ∀ o, (f o).id = o.id}
    (h : ∀ o, (f o).frame = o.frame) : Aside fun db => db.updateOrder id f hf where
  frames db := frames_updateOrder_same db h
  items _ := rfl
  kots _ := rfl
  coupons _ := rfl
  tables _ := rfl
  unsplits _ := rfl
  choices _ := rfl
  outlets _ _ := rfl

theorem aside_setFigures (id : RowId) (figures : OrderFigures) :
    Aside fun db => db.setFigures id figures :=
  aside_updateOrder fun _ => rfl

theorem aside_updateOutlet {id : String} {f : Outlet → Outlet} {hf : ∀ o, (f o).id = o.id} :
    Aside fun db => db.updateOutlet id f hf where
  frames _ := rfl
  items _ := rfl
  kots _ := rfl
  coupons _ := rfl
  tables _ := rfl
  unsplits _ := rfl
  choices _ := rfl
  outlets db id' := isSome_updateOutlet db id'

/-! ### The parts -/

/-- Recomputing writes the figures of the bill. -/
theorem does_recomputeTotals (orderId : RowId) (discount : Option Binary64) (plain : Bool) :
    (recomputeTotals orderId discount plain).Does
      fun w figures => w = fun db => db.setFigures orderId figures := by
  simp [recomputeTotals, billFor, loadBillingRules]

theorem does_drawNumber (outletId : String) (counter : Outlet → ℕ) (advance : Outlet → Outlet)
    (hadvance : ∀ o, (advance o).id = o.id) :
    (drawNumber outletId counter advance hadvance).Does
      fun w _ => w = fun db => db.updateOutlet outletId advance hadvance := by
  simp [drawNumber]

theorem does_nextBillNumber (outletId : String) : (nextBillNumber outletId).Does fun w _ => Aside w :=
  (does_drawNumber outletId _ _ _).mono fun _ _ hw => hw ▸ aside_updateOutlet

theorem id_advanceKot (o : Outlet) :
    ({ o with nextKotNumber := o.nextKotNumber + 1 } : Outlet).id = o.id := rfl

/-- The writes of a punch: the counter of the outlet, the kitchen ticket, the lines. -/
def punchWrites (t : PunchTarget) (number : ℕ) (lines : List OrderItem) (choices : List ComboChoice)
    (db : BillingDb) : BillingDb :=
  (((db.updateOutlet t.outletId (fun o => { o with nextKotNumber := o.nextKotNumber + 1 })
    id_advanceKot).insertKot ⟨t.kotId, t.outletId, t.orderId, number⟩).putItems lines).recordChoices
      choices

theorem does_punchItems (menu : Menu) (t : PunchTarget) (opts : PunchOptions)
    (items : List OrderItemInput) (combos : List ComboOrderInput) :
    (punchItems menu t opts items combos).Does fun w _ => ∃ number lines choices,
      punchLines menu t opts items combos = .ok (lines, choices) ∧
      w = punchWrites t number lines choices := by
  simp only [punchItems, nextKotNumber, does_bind, does_query, does_require, does_liftM, does_update]
  intro _ _ _
  refine (does_drawNumber _ _ _ _).mono fun w number hw => ?_
  rintro ⟨lines, choices⟩ hlines
  exact ⟨number, lines, choices, hlines, by rw [hw]; rfl⟩

theorem does_consumeOtp (outletId phone : String) (input : SettleOrderInput) (now : Time)
    (orderId : RowId) : (consumeOtp outletId phone input now orderId).Does fun w _ => Aside w := by
  unfold consumeOtp
  split
  · simp only [verifyAndConsume, does_map, does_bind, does_query, does_require, does_check,
      does_acquire, does_update, does_pure]
    intros
    constructor <;> intros <;> rfl
  · exact Aside.id

theorem does_redeemGiftCard (now : Time) (code : String) (amount : Binary64) :
    (redeemGiftCard now code amount).Does fun w _ => Aside w := by
  simp only [redeemGiftCard, does_bind, does_acquire, does_query, does_require, does_check,
    does_liftM, does_update]
  intros
  constructor <;> intros <;> rfl

theorem does_takePayments (now : Time) (orderId : RowId) (total : Binary64)
    (payments : List SettlePayment) :
    (takePayments now orderId total payments).Does fun w _ => Aside w := by
  simp only [takePayments, redeemGiftCards, does_bind, does_check]
  intro _
  refine (does_foldlM Aside.id (fun _ _ => Aside.comp)
    (fun _ code _ => does_redeemGiftCard now code _) ()).mono fun w _ hw => ?_
  refine (does_mapM Aside.id (fun _ _ => Aside.comp) fun p _ => ?_).mono fun w' rows hw' => ?_
  · simp [Aside.id]
  · rw [does_update]
    refine hw.comp (hw'.comp ?_)
    constructor <;> intros <;> rfl

theorem does_redeemCustomerPoints (outletId phone : String) (points : ℕ) :
    (redeemCustomerPoints outletId phone points).Does fun w _ => Aside w := by
  simp only [redeemCustomerPoints, does_bind]
  refine (does_updateWhere Aside.id ?_).mono fun w hit hw => ?_
  · constructor <;> intros <;> rfl
  · rw [does_check]
    exact fun _ => hw

theorem does_earnCustomerPoints (outletId phone : String) (orderId : RowId) (points : ℤ)
    (redeemed : ℕ) :
    (earnCustomerPoints outletId phone orderId points redeemed).Does fun w _ => Aside w := by
  simp only [earnCustomerPoints, does_bind, does_acquire, does_update]
  constructor <;> intros <;> rfl

theorem does_takeCustomer (sourceIds : List RowId) (target : Order) :
    (takeCustomer sourceIds target).Does fun w _ => Aside w := by
  simp only [takeCustomer, does_bind, does_query]
  intro _
  refine does_forM (fun donor _ => ?_) Aside.id
  exact aside_updateOrder fun _ => rfl

/-- Moving all of some bills reassigns their lines and tickets and closes them. -/
theorem does_moveAll (sourceIds : List RowId) (target : Order) :
    (moveAll sourceIds target).Does fun w _ => ∃ v, Aside v ∧
      w = (fun db => db.closeMerged sourceIds target.id) ∘ v ∘
        fun db => db.reassign sourceIds target.id := by
  simp only [moveAll, does_bind, does_update]
  exact (does_whenever (fun _ => does_takeCustomer sourceIds target) Aside.id).mono
    fun v _ hv => ⟨v, hv, rfl⟩

end StelloKitchens.Billing
