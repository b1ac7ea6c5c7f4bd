import StelloKitchens.Billing.Loyalty
import StelloKitchens.Billing.Touches
import StelloKitchens.Lib.Guarded
import StelloKitchens.Lib.Ledger

/-!
# The ledger of the points

The points of a customer move together with entries in the ledger: a settlement enters what it
redeemed and what it earned, an adjustment what it changed. A settlement redeems points only from
who holds them when its update is made. An adjustment looks before, and not when it is made.

## Main definitions

* `Points`, `Points.Sound` — the balances and the ledger, and what holds of them.
* `pointsTerms` — the terms of the points.

## Main results

* `points_kept` — every request keeps the terms.
* `points_ledger` — the balances over all interleavings.
-/

namespace StelloKitchens.Billing

open Checked Tx Process Discipline

/-! ### Balances and the ledger -/

/-- The balances of the customers, the ledger, and what the outlets give for a rupee. -/
@[ext] structure Points where
  balance : String × String → Option ℤ
  entries : List LoyaltyTransaction
  rate : String → Option Binary64

def BillingDb.points (db : BillingDb) : Points where
  balance key := (db.customers.find? key).map (·.loyaltyPoints)
  entries := db.loyaltyTransactions
  rate outletId := (db.outlets.find? outletId).map (·.loyaltyEarnRate)

namespace Points

/-- What a customer's entries add up to. -/
def total (P : Points) (key : String × String) : ℤ :=
  Ledger.total LoyaltyTransaction.customer LoyaltyTransaction.points P.entries key

/-- A balance is changed, and entries are made. -/
def change (P : Points) (key : String × String) (f : Option ℤ → Option ℤ)
    (rows : List LoyaltyTransaction) : Points :=
  { P with
    balance := fun k => if k = key then f (P.balance k) else P.balance k
    entries := P.entries ++ rows }

/-- What holds of the points. -/
structure Sound (P : Points) : Prop where
  balance : ∀ key p, P.balance key = some p → p = P.total key ∧ 0 ≤ p
  entered : ∀ t ∈ P.entries, P.balance t.customer ≠ none
  rates : ∀ o r, P.rate o = some r → 0 ≤ r

/-- What the commit of who holds these does to the balances. -/
structure Step (L : Hold LockKey → Prop) (P P' : Points) : Prop where
  balance : ∀ key : String × String, ¬L (.lock (.customer key.1 key.2)) →
    P'.balance key = P.balance key
  kept : ∀ key, P.balance key ≠ none → P'.balance key ≠ none

variable {P : Points} {key : String × String} {L : Hold LockKey → Prop}

theorem Step.refl (P : Points) : P.Step L P := ⟨fun _ _ => rfl, fun _ h => h⟩

theorem Step.trans {P' P'' : Points} (h : P.Step L P') (h' : P'.Step L P'') : P.Step L P'' :=
  ⟨fun k hk => (h'.balance k hk).trans (h.balance k hk), fun k hk => h'.kept k (h.kept k hk)⟩

theorem step_change {f : Option ℤ → Option ℤ} {rows : List LoyaltyTransaction}
    (hlock : L (.lock (.customer key.1 key.2))) (hf : ∀ b, b ≠ none → f b ≠ none) :
    P.Step L (P.change key f rows) := by
  refine ⟨fun k hk => ?_, fun k hk => ?_⟩
  · have hne : k ≠ key := by
      rintro rfl
      exact hk hlock
    simp [change, hne]
  · by_cases heq : k = key
    · simpa [change, heq] using hf _ (heq ▸ hk)
    · simpa [change, heq] using hk

/-- To take nothing off. -/
theorem change_zero (P : Points) (key : String × String) :
    P.change key (·.map (· - ((0 : ℕ) : ℤ))) [] = P := by
  ext1
  · funext k
    simp [change]
  · exact List.append_nil _
  · rfl

/-- A balance and its entries change alike. -/
theorem Sound.change (h : P.Sound) {f : Option ℤ → Option ℤ} {rows : List LoyaltyTransaction}
    {p : ℤ} (hf : f (P.balance key) = some p) (hp : 0 ≤ p)
    (hrows : ∀ t ∈ rows, t.customer = key)
    (hsum : p = P.total key + (rows.map (·.points)).sum) : (P.change key f rows).Sound := by
  have htotal : ∀ k, (P.change key f rows).total k =
      P.total k + if k = key then (rows.map (·.points)).sum else 0 := by
    intro k
    change Ledger.total _ _ (P.entries ++ rows) k = _
    rw [Ledger.total_append]
    congr 1
    by_cases hk : k = key
    · rw [if_pos hk, Ledger.total, Ledger.entries, List.filter_eq_self.mpr fun t ht => by
        simp [hrows t ht, hk]]
    · rw [if_neg hk, Ledger.total, Ledger.entries_of_ne fun t ht (heq : t.customer = k) =>
        hk (heq.symm.trans (hrows t ht))]
      rfl
  refine ⟨fun k q hq => ?_, fun t ht => ?_, h.rates⟩
  · by_cases hk : k = key
    · subst hk
      obtain rfl : p = q := by simpa [Points.change, hf] using hq
      rw [htotal, if_pos rfl]
      exact ⟨hsum, hp⟩
    · rw [htotal, if_neg hk, add_zero]
      exact h.balance k q (by simpa [Points.change, hk] using hq)
  · by_cases hk : t.customer = key
    · simp [Points.change, hk, hf]
    · rcases List.mem_append.mp ht with ht | ht
      · simpa [Points.change, hk] using h.entered t ht
      · exact absurd (hrows t ht) hk

/-- Who is not there has no entries. -/
theorem Sound.total_of_none (h : P.Sound) (hnone : P.balance key = none) : P.total key = 0 := by
  rw [total, Ledger.total, Ledger.entries_of_ne fun t ht (heq : t.customer = key) =>
    h.entered t ht (heq ▸ hnone)]
  rfl

/-- What a settlement enters in the ledger. -/
theorem sum_loyaltyRows (outletId phone : String) (orderId : RowId) {earned : ℤ} (redeemed : ℕ)
    (h : 0 ≤ earned) :
    ((loyaltyRows outletId phone orderId earned redeemed).map (·.points)).sum = earned - redeemed := by
  unfold loyaltyRows
  by_cases he : 0 < earned <;> by_cases hr : 0 < redeemed <;> simp [he, hr] <;> omega

theorem customer_of_mem_loyaltyRows {outletId phone : String} {orderId : RowId} {earned : ℤ}
    {redeemed : ℕ} {t : LoyaltyTransaction}
    (h : t ∈ loyaltyRows outletId phone orderId earned redeemed) : t.customer = (outletId, phone) := by
  unfold loyaltyRows at h
  rcases List.mem_append.mp h with h | h
  · split at h
    · rw [List.mem_singleton.mp h]
      rfl
    · cases h
  · split at h
    · rw [List.mem_singleton.mp h]
      rfl
    · cases h

/-- What a settlement does to the points of a customer. -/
def settle (P : Points) (outletId phone : String) (orderId : RowId) (earned : ℤ) (redeemed : ℕ) :
    Points :=
  (P.change (outletId, phone) (·.map (· - redeemed)) []).change (outletId, phone)
    (fun b => some (b.elim earned (· + earned)))
    (loyaltyRows outletId phone orderId earned redeemed)

theorem step_settle {outletId phone : String} {orderId : RowId} {earned : ℤ} {redeemed : ℕ}
    (hlock : L (.lock (.customer outletId phone))) :
    P.Step L (P.settle outletId phone orderId earned redeemed) :=
  (step_change hlock fun b hb => by cases b <;> simp_all).trans
    (step_change hlock fun b _ => Option.some_ne_none _)

/-- A settlement keeps the points sound, if the points it redeems are there. -/
theorem Sound.settle (h : P.Sound) {outletId phone : String} {orderId : RowId} {earned : ℤ}
    {redeemed : ℕ} (hearned : 0 ≤ earned) (hthere : 0 < redeemed →
      ∃ p, P.balance (outletId, phone) = some p ∧ redeemed ≤ p) :
    (P.settle outletId phone orderId earned redeemed).Sound := by
  have heq : P.settle outletId phone orderId earned redeemed = P.change (outletId, phone)
      (fun b => some (b.elim earned (· - redeemed + earned)))
      (loyaltyRows outletId phone orderId earned redeemed) := by
    ext1
    · funext k
      by_cases hk : k = (outletId, phone)
      · cases hb : P.balance k <;> simp [Points.settle, Points.change, hk, hk ▸ hb]
      · simp [Points.settle, Points.change, hk]
    · simp [Points.settle, Points.change]
    · rfl
  rw [heq]
  cases hb : P.balance (outletId, phone) with
  | none =>
    have hzero : redeemed = 0 := by
      by_contra hne
      obtain ⟨p, hp, -⟩ := hthere (Nat.pos_of_ne_zero hne)
      rw [hb] at hp
      cases hp
    refine h.change (p := earned) (by rw [hb]; rfl) hearned (fun t => customer_of_mem_loyaltyRows) ?_
    rw [h.total_of_none hb, sum_loyaltyRows _ _ _ _ hearned, hzero]
    simp
  | some p =>
    obtain ⟨hp, hnonneg⟩ := h.balance _ p hb
    have hle : (redeemed : ℤ) ≤ p := by
      by_cases hr : 0 < redeemed
      · obtain ⟨q, hq, hle⟩ := hthere hr
        rw [hb, Option.some.injEq] at hq
        exact hq ▸ hle
      · omega
    refine h.change (p := p - redeemed + earned) (by rw [hb]; rfl) (by omega)
      (fun t => customer_of_mem_loyaltyRows) ?_
    rw [← hp, sum_loyaltyRows _ _ _ _ hearned]
    omega

end Points

/-! ### The terms -/

/-- The terms of the points: an adjustment that commits leaves a balance that is not negative. -/
def pointsTerms : Terms BillingDb LockKey LoyaltyNote (Except BillingError LoyaltyNote) where
  inv db _ := db.points.Sound
  step L s s' := s.points.Step L s'.points
  inv_mono _ h := h
  admits note _ db := match note with
    | .adjusted outletId phone points =>
      ∀ c ∈ db.customers.rows, c.key = (outletId, phone) → 0 ≤ c.loyaltyPoints + points
    | _ => True
  said _ _ := True
  said_step _ _ _ h := h

instance (note : LoyaltyNote) (held : List (Hold LockKey)) (db : BillingDb) :
    Decidable (pointsTerms.admits note (· ∈ held) db) :=
  match note with
  | .adjusted outletId phone points => inferInstanceAs (Decidable
      (∀ c ∈ db.customers.rows, c.key = (outletId, phone) → 0 ≤ c.loyaltyPoints + points))
  | .settled _ => .isTrue trivial
  | .requested => .isTrue trivial

theorem customer_guards (outletId phone : String) :
    pointsTerms.toDiscipline.Guards (.customer outletId phone)
      fun s => s.points.balance (outletId, phone) :=
  fun _ _ _ hstep hL => hstep.balance (outletId, phone) hL

/-! ### Writes -/

section Writes

variable {db : BillingDb}

theorem leaves_points (ts : List Table) {w : BillingDb → BillingDb} (h : Touches ts w)
    (hcustomers : .customers ∉ ts) (houtlets : .outlets ∉ ts) : Leaves BillingDb.points w := by
  intro db
  obtain ⟨hc, ht⟩ : (w db).customers = db.customers ∧
    (w db).loyaltyTransactions = db.loyaltyTransactions := h db .customers hcustomers
  have ho : (w db).outlets = db.outlets := h db .outlets houtlets
  rw [BillingDb.points, hc, ht, ho]
  rfl

theorem leaves_updateOutlet {id : String} {f : Outlet → Outlet} (hf : ∀ o, (f o).id = o.id)
    (hrate : ∀ o, (f o).loyaltyEarnRate = o.loyaltyEarnRate) :
    Leaves BillingDb.points fun db => db.updateOutlet id f hf := by
  intro db
  ext1
  · rfl
  · rfl
  · funext i
    change ((db.outlets.modify _ f hf).find? i).map _ = (db.outlets.find? i).map _
    rw [KeyedTable.find?_modify, Option.map_map]
    congr 1
    funext o
    rw [Function.comp_apply]
    split
    · exact hrate o
    · rfl

theorem balance_modify {key : String × String} {f : Customer → Customer}
    (hf : ∀ c, (f c).key = c.key) {g : ℤ → ℤ} (hg : ∀ c, (f c).loyaltyPoints = g c.loyaltyPoints)
    (k : String × String) :
    ((db.customers.modify (fun c => c.key = key) f hf).find? k).map (·.loyaltyPoints) =
      if k = key then (db.points.balance k).map g else db.points.balance k := by
  rw [KeyedTable.find?_modify, Option.map_map]
  cases hfind : db.customers.find? k with
  | none => simp [BillingDb.points, hfind]
  | some c =>
    obtain ⟨-, rfl⟩ := KeyedTable.find?_eq_some.mp hfind
    by_cases hk : c.key = key
    · simp [BillingDb.points, hk, hk ▸ hfind, hg]
    · simp [BillingDb.points, hfind, hk]

theorem points_redeemPoints (key : String × String) (points : ℕ) :
    (db.redeemPoints key points).points = db.points.change key (·.map (· - points)) [] := by
  ext1
  · funext k
    exact balance_modify (f := fun c => { c with loyaltyPoints := c.loyaltyPoints - points })
      (g := (· - (points : ℤ))) (fun _ => rfl) (fun _ => rfl) k
  · exact (List.append_nil _).symm
  · rfl

theorem points_adjustPoints (key : String × String) (points : ℤ) :
    (db.adjustPoints key points).points = db.points.change key (·.map (· + points))
      [⟨key.1, key.2, if 0 < points then .topup else .adjust, points, none⟩] := by
  ext1
  · funext k
    exact balance_modify (f := fun c => { c with loyaltyPoints := c.loyaltyPoints + points })
      (g := (· + points)) (fun _ => rfl) (fun _ => rfl) k
  · rfl
  · rfl

theorem points_earnPoints (outletId phone : String) (orderId : RowId) (points : ℤ) (redeemed : ℕ) :
    (db.earnPoints outletId phone orderId points redeemed).points =
      db.points.change (outletId, phone) (fun b => some (b.elim points (· + points)))
        (loyaltyRows outletId phone orderId points redeemed) := by
  have hset : ∀ c : Customer, c.key = (⟨outletId, phone, points⟩ : Customer).key →
      ({ c with loyaltyPoints := c.loyaltyPoints + points } : Customer).key = (outletId, phone) :=
    fun _ h => h
  ext1
  · funext k
    by_cases hk : k = (outletId, phone)
    · subst hk
      refine (congrArg (Option.map _) (KeyedTable.find?_upsert_self hset)).trans ?_
      cases hfind : db.customers.find? (outletId, phone) <;>
        simp [Points.change, BillingDb.points, Customer.key, hfind]
    · refine (congrArg (Option.map _) (KeyedTable.find?_upsert_of_ne hset hk)).trans ?_
      simp [Points.change, hk, BillingDb.points]
  · rfl
  · rfl

end Writes

/-! ### Statements -/

section Statements

/-- Where a transaction stands, and what its writes so far do to the points. -/
abbrev PointsRunning := pointsTerms.toDiscipline.Running BillingDb.points

variable {α : Type} {L : Hold LockKey → Prop} {K : BillingDb → Prop} {f : BillingDb → BillingDb}
  {g : Points → Points}

theorem pointsRunning_start : PointsRunning nothing (fun _ => True) id fun P => P := .start

/-- A customer who is there stays. -/
theorem stable_entered (key : String × String) :
    pointsTerms.Stable L fun s => s.points.balance key ≠ none :=
  fun _ _ _ _ _ _ _ _ hstep h => hstep.kept key h

/-- The commit of a transaction whose writes have this effect on the points. -/
theorem commits_points {note : LoyaltyNote} (hrun : PointsRunning L K f g)
    (h : ∀ s, s.points.Sound → K s → pointsTerms.admits note L s →
      (g s.points).Sound ∧ s.points.Step L (g s.points)) :
    ∃ J, CommitsTo pointsTerms.toDiscipline pointsTerms.admits note L K f J := by
  refine ⟨fun _ => True, stable_true, fun s n hs _ hK hadmits => ?_⟩
  obtain ⟨hsound, hstep⟩ := h s hs hK hadmits
  rw [← hrun.effect s] at hsound hstep
  exact ⟨hsound, hstep, trivial⟩

/-- Points are redeemed for a phone. -/
theorem wp_resolveDiscounts_points {order : Order} {input : SettlePreviewInput}
    {pointValue : Binary64} {phone : String} {now : Time}
    {post : (Hold LockKey → Prop) → (BillingDb → Prop) → (BillingDb → BillingDb) → Discounts → Prop}
    (hrun : PointsRunning L K f g) (h : ∀ L' f' d, (0 < input.redeemPoints → phone ≠ "") →
      PointsRunning L' K f' g → post L' K f' d) :
    pointsTerms.wp (resolveDiscounts order input pointValue phone now) L K f post := by
  simp only [resolveDiscounts, Discipline.wp_bind]
  refine wp_leaves (writes_resolveCoupon _ _ _) hrun fun L' f' _ _ hrun => wp_check fun hphone => ?_
  exact h L' f' _ hphone hrun

/-- Payments that match the total are of a total that is not negative. -/
theorem wp_takePayments_points {now : Time} {orderId : RowId} {total : Amount}
    {payments : List SettlePayment}
    {post : (Hold LockKey → Prop) → (BillingDb → Prop) → (BillingDb → BillingDb) → Unit → Prop}
    (hrun : PointsRunning L K f g) (h : ∀ L' f', 0 ≤ total.scaled → PointsRunning L' K f' g →
      post L' K f' ()) :
    pointsTerms.wp (takePayments now orderId total.toNumber payments) L K f post := by
  have hpaid : ∀ (ps : List SettlePayment) (s : Binary64), 0 ≤ s →
      0 ≤ ps.foldl (fun s p => s + toPaise p.amount) s := by
    intro ps
    induction ps with
    | nil => exact fun s hs => hs
    | cons p ps ih =>
      exact fun s hs => ih _ (Binary64.zero_le_add hs (zero_le_toPaise p.positive.le))
  have hpaise := zero_le_toPaise (zero_le_fromPaise (hpaid payments 0 (le_refl _)))
  by_cases hnonneg : 0 ≤ total.scaled
  · refine wp_leaves ((writes_takePayments _ _ _ _).mono fun w hw =>
      leaves_points [] hw (by decide) (by decide)) hrun fun L' f' _ _ hrun => h L' f' hnonneg hrun
  · rw [takePayments, Discipline.wp_bind]
    refine wp_check fun hmatch => absurd ?_ hnonneg
    rw [hmatch, Binary64.nonneg_iff, val_toPaise_toNumber] at hpaise
    exact_mod_cast hpaise

/-- The points that a bill earns. -/
theorem earned_nonneg {total : Amount} {rate : Binary64} (htotal : 0 ≤ total.scaled)
    (hrate : 0 ≤ rate) : 0 ≤ ⌊(total.toNumber * rate).nearestInt.val⌋ := by
  have hnumber : 0 ≤ total.toNumber := by
    rw [Binary64.nonneg_iff, Decimal.toNumber, Binary64.val_ofRat]
    exact Binary64.round_nonneg (by positivity)
  exact Int.floor_nonneg.mpr
    (Binary64.nonneg_iff.mp (Binary64.zero_le_nearestInt (Binary64.zero_le_mul hnumber hrate)))

/-- A settlement redeems points and gives points: that keeps the points sound. -/
theorem wp_movePoints {outletId phone : String} {orderId : RowId} {earned : ℤ} {redeemed : ℕ}
    {post : (Hold LockKey → Prop) → (BillingDb → Prop) → (BillingDb → BillingDb) → Unit → Prop}
    (hrun : PointsRunning L K f fun P => P) (hphone : 0 < redeemed → phone ≠ "")
    (hearned : 0 ≤ earned)
    (h : ∀ L' K' f' g, PointsRunning L' K' f' g →
      (∀ L'' s, (∀ k, L' k → L'' k) → K' s → s.points.Sound →
        (g s.points).Sound ∧ s.points.Step L'' (g s.points)) → post L' K' f' ()) :
    pointsTerms.wp (whenever (0 < redeemed) (redeemCustomerPoints outletId phone redeemed)) L K f
      fun L K f _ => pointsTerms.wp
        (whenever (phone ≠ "") (earnCustomerPoints outletId phone orderId earned redeemed)) L K f
        post := by
  -- the points that are redeemed are there
  have hearn : ∀ L K f, PointsRunning L K f
      (fun P => P.change (outletId, phone) (·.map (· - redeemed)) []) →
      (∀ s, K s → 0 < redeemed →
        ∃ p, s.points.balance (outletId, phone) = some p ∧ (redeemed : ℤ) ≤ p) →
      pointsTerms.wp (earnCustomerPoints outletId phone orderId earned redeemed) L K f post := by
    intro L K f hrun hthere
    simp only [earnCustomerPoints, Discipline.wp_bind, wp_acquire, wp_update]
    refine h _ _ _ _ ((hrun.add _).write (e := fun P => P.change (outletId, phone)
      (fun b => some (b.elim earned (· + earned))) (loyaltyRows outletId phone orderId earned redeemed))
      fun s => points_earnPoints outletId phone orderId earned redeemed) fun L'' s hL hK hs => ?_
    exact ⟨hs.settle hearned (hthere s hK), Points.step_settle (hL _ (.inl rfl))⟩
  refine wp_whenever (fun hr => ?_) fun hr => wp_whenever (fun _ => ?_) fun hp => ?_
  · rw [redeemCustomerPoints, Discipline.wp_bind]
    refine wp_updateWhere_guarded (customer_guards outletId phone) hrun.stable
      (c := fun b => b.any ((redeemed : ℤ) ≤ ·)) (fun s _ => ?_) (fun _ _ => wp_check fun h => by cases h)
      (wp_check fun _ => wp_whenever (fun _ => ?_) fun hp => absurd (hphone hr) hp)
    · have heq : (f s).points.balance (outletId, phone) = s.points.balance (outletId, phone) :=
        congrArg (fun P : Points => P.balance (outletId, phone)) (hrun.effect s)
      rw [← heq]
      simp [BillingDb.points, Option.any_map, Function.comp_def]
    · refine hearn _ _ _ (((hrun.add _).and ?_).write fun s =>
        points_redeemPoints (outletId, phone) redeemed) fun s hs _ => ?_
      · exact (customer_guards outletId phone).stable (.inl rfl)
          (fun b => b.any ((redeemed : ℤ) ≤ ·) = true)
      · obtain ⟨p, hp, hle⟩ := (Option.any_eq_true _ _).mp hs.2
        exact ⟨p, hp, of_decide_eq_true hle⟩
  · refine hearn _ _ _ ⟨hrun.stable, fun s => ?_⟩ fun s _ hlt => absurd hlt hr
    rw [hrun.effect s, Nat.eq_zero_of_not_pos hr, Points.change_zero]
  · exact h L K f _ hrun fun L'' s _ _ hs => ⟨hs, .refl _⟩

end Statements

/-! ### Requests -/

section Requests

theorem settle_points (user : AuthUser) (now : Time) (orderId : RowId) (input : SettleOrderInput) :
    pointsTerms.wp (settle user now orderId input) nothing (fun _ => True) id fun L K f otpId =>
      ∃ J, CommitsTo pointsTerms.toDiscipline pointsTerms.admits (.settled otpId) L K f J := by
  simp only [settle, Discipline.wp_bind]
  refine wp_leaves (writes_lockOpenOrder _ _) pointsRunning_start fun L₁ f₁ o _ hrun =>
    wp_check fun _ => ?_
  refine wp_query hrun.stable fun s n hs _ => ⟨fun _ => True, stable_true, trivial,
    wp_require fun outlet houtlet => ?_⟩
  have hrate : 0 ≤ outlet.loyaltyEarnRate := by
    have heq : (f₁ s).points.rate = s.points.rate := congrArg Points.rate (hrun.effect s)
    refine hs.rates o.outletId _ ?_
    rw [← heq]
    exact congrArg (Option.map (·.loyaltyEarnRate)) houtlet
  refine wp_resolveDiscounts_points (hrun.and stable_true) fun L₂ f₂ d hphone hrun => ?_
  refine wp_leaves (writes_consumeOtp _ _ _ _ _ fun _ => leaves_points [.otps]
    (touches_useOtp (by decide) _ _ _) (by decide) (by decide)) hrun fun L₃ f₃ otpId _ hrun => ?_
  refine wp_leaves (writes_recomputeTotals _ _ _ fun _ => leaves_points [.orders]
    (touches_updateOrder (by decide) _ _ _) (by decide) (by decide)) hrun
      fun L₄ f₄ figures _ hrun => ?_
  refine wp_takePayments_points hrun fun L₅ f₅ htotal hrun => ?_
  refine wp_leaves (writes_drawNumber (leaves_updateOutlet
    (f := fun o => { o with nextBillNumber := o.nextBillNumber + 1 }) (fun _ => rfl) fun _ => rfl))
      hrun fun L₆ f₆ number _ hrun => ?_
  refine wp_movePoints hrun hphone (earned_nonneg htotal hrate) fun L₇ K f₇ g hrun hkeep => ?_
  -- what follows leaves the points alone
  refine wp_leaves (writes_forM (fun _ => (writes_countCoupon _).mono fun w hw =>
    leaves_points [] hw (by decide) (by decide)) _) hrun fun L₈ f₈ _ hL₈ hrun => ?_
  refine wp_leaves (writes_update (leaves_points [.orders]
    (touches_updateOrder (by decide) _ _ _) (by decide) (by decide))) hrun
      fun L₉ f₉ _ hL₉ hrun => ?_
  refine wp_leaves (writes_forM (fun _ => writes_closeSplitParentIfDone _ (leaves_points
    [.orders] (touches_updateOrder (by decide) _ _ _) (by decide) (by decide))) _) hrun
      fun L₁₀ f₁₀ _ hL₁₀ hrun => ?_
  exact commits_points hrun fun s hs hK _ =>
    hkeep L₁₀ s (fun k hk => hL₁₀ k (hL₉ k (hL₈ k hk))) hK hs

theorem requestOtp_points (user : AuthUser) (outletId phone : String) (code : OtpCode)
    (now : Time) :
    pointsTerms.wp (requestOtp user outletId phone code now) nothing (fun _ => True) id
      fun L K f _ => ∃ J, CommitsTo pointsTerms.toDiscipline pointsTerms.admits .requested L K f J := by
  refine wp_leaves (t := requestOtp user outletId phone code now) ?_ pointsRunning_start
    fun L f _ _ hrun => commits_points hrun fun s hs _ _ => ⟨hs, .refl _⟩
  exact (writes_liftM _).bind fun _ => (writes_query _).bind fun _ => (writes_require _ _).bind
    fun _ => (writes_check _ _).bind fun _ => writes_draw.bind fun _ =>
    (writes_update fun _ => rfl).bind fun _ => writes_pure _

theorem adjustLoyalty_points (user : AuthUser) (outletId phone : String) (points : ℤ) :
    pointsTerms.wp (adjustLoyalty user outletId phone points) nothing (fun _ => True) id
      fun L K f _ => ∃ J, CommitsTo pointsTerms.toDiscipline pointsTerms.admits
        (.adjusted outletId phone points) L K f J := by
  simp only [adjustLoyalty, Discipline.wp_bind]
  refine wp_ofExcept fun _ _ => wp_query stable_true fun s n _ _ => ?_
  cases hfind : s.customers.find? (outletId, phone) with
  | none => exact ⟨fun _ => True, stable_true, trivial, wp_require fun _ h => by simp [hfind] at h⟩
  | some c =>
    refine ⟨_, stable_entered (outletId, phone), by simp [BillingDb.points, hfind],
      wp_require fun _ _ => wp_check fun _ => ?_⟩
    rw [wp_acquire, wp_update, Discipline.wp_pure]
    refine commits_points (((pointsRunning_start.anti fun _ => .inr).and
      (stable_entered (outletId, phone))).write (e := fun P => P.change (outletId, phone)
        (·.map (· + points)) [⟨outletId, phone, if 0 < points then .topup else .adjust, points, none⟩])
        fun s => points_adjustPoints (outletId, phone) points)
      fun s hs hK hadmits => ?_
    obtain ⟨p, hp⟩ := Option.ne_none_iff_exists'.mp hK.2
    obtain ⟨htotal, -⟩ := hs.balance _ p hp
    obtain ⟨c, hc, rfl⟩ := Option.map_eq_some_iff.mp hp
    obtain ⟨hc, hkey⟩ := KeyedTable.find?_eq_some.mp hc
    refine ⟨hs.change (p := c.loyaltyPoints + points) (by rw [hp]; rfl) (hadmits c hc hkey)
      (fun t ht => by rw [List.mem_singleton.mp ht]; rfl) ?_, Points.step_change (.inl rfl) ?_⟩
    · simp [htotal]
    · intro b hb
      simpa using hb

/-- Every request keeps the terms of the points. -/
theorem points_kept (r : LoyaltyRequest) : pointsTerms.Kept
    (.transaction (fun note => note) r.run :
      Process BillingDb LockKey LoyaltyNote Empty Empty (Except BillingError LoyaltyNote)) := by
  refine Terms.kept_transaction ?_ fun _ _ => trivial
  cases r with
  | settle user now orderId input =>
    unfold LoyaltyRequest.run
    rw [Discipline.wp_map]
    exact settle_points user now orderId input
  | requestOtp user outletId phone code now =>
    unfold LoyaltyRequest.run
    rw [Discipline.wp_map]
    exact requestOtp_points user outletId phone code now
  | adjustLoyalty user outletId phone points =>
    unfold LoyaltyRequest.run
    rw [Discipline.wp_map]
    exact adjustLoyalty_points user outletId phone points

end Requests

/-! ### All interleavings -/

theorem NoPoints.sound {db : BillingDb} (h : NoPoints db) : db.points.Sound := by
  refine ⟨fun key p hp => ?_, fun t ht => ?_, fun o r hr => ?_⟩
  · obtain ⟨c, hc, rfl⟩ := Option.map_eq_some_iff.mp hp
    rw [h.customers c (KeyedTable.find?_eq_some.mp hc).1]
    refine ⟨?_, le_refl _⟩
    change 0 = Ledger.total _ _ db.loyaltyTransactions key
    rw [h.loyaltyTransactions, Ledger.total_nil]
  · change t ∈ db.loyaltyTransactions at ht
    rw [h.loyaltyTransactions] at ht
    cases ht
  · obtain ⟨x, hx, rfl⟩ := Option.map_eq_some_iff.mp hr
    exact h.rates x (KeyedTable.find?_eq_some.mp hx).1

/-- In every run in which an adjustment that commits leaves a balance that is not negative: the
points of every customer are not negative, and they are what the customer's entries add up to. -/
theorem points_ledger {w : LoyaltyWorld} (h : loyalty.Reach (World.Admits pointsTerms.admits) w) :
    ∀ c ∈ w.db.customers, 0 ≤ c.loyaltyPoints ∧ c.loyaltyPoints =
      ((w.db.loyaltyTransactions.filter fun t => t.customer = c.key).map (·.points)).sum := by
  have hsound := (Terms.holds_of_reach points_kept (fun _ _ h => h.sound) h).inv
  intro c hc
  obtain ⟨htotal, hnonneg⟩ := hsound.balance c.key c.loyaltyPoints (by
    change (w.db.customers.find? c.key).map _ = _
    rw [KeyedTable.find?_of_mem hc]
    rfl)
  exact ⟨hnonneg, htotal⟩

/-- All points are taken off by hand; a settlement redeems some of them before that commits. -/
def adjustRun : List (WorldAction LoyaltyRequest Empty) :=
  codeRun ++ .start 0 (.adjustLoyalty cashier "o" "98" (-100)) :: WorldAction.steps 0 1 ++
    .start 1 (redeemFifty ⟨0, 0⟩) :: WorldAction.steps 1 40 ++ WorldAction.steps 0 5

/-- Points can become negative. -/
theorem not_points_ledger : ¬∀ w, loyalty.Reachable w →
    ∀ c ∈ w.db.customers.rows, 0 ≤ c.loyaltyPoints := by
  intro h
  have hreach := Machine.reachable_run adjustRun (.init ⟨noPoints_twoBills, rfl, rfl⟩ :
    loyalty.Reachable (.atRest twoBills 1))
  have hnonneg := h _ hreach
  revert hnonneg
  decide +kernel

/-- A settlement redeems points, and another takes the rest off by hand. -/
theorem points_ledger_adjustRun :
    let w := loyalty.run (.atRest twoBills 1) (codeRun ++
      .start 0 (redeemFifty ⟨0, 0⟩) :: WorldAction.steps 0 40 ++
      .start 0 (.adjustLoyalty cashier "o" "98" (-50)) :: WorldAction.steps 0 5)
    w.db.loyaltyTransactions.map (·.points) = [100, -50, -50] ∧
      ∀ c ∈ w.db.customers, 0 ≤ c.loyaltyPoints ∧ c.loyaltyPoints =
        ((w.db.loyaltyTransactions.filter fun t => t.customer = c.key).map (·.points)).sum :=
  ⟨by decide +kernel, points_ledger (Machine.reach_run _ (.init ⟨noPoints_twoBills, rfl, rfl⟩)
    (by decide +kernel))⟩

end StelloKitchens.Billing
