import StelloKitchens.Payments.Parts

/-!
# The terms of refunds

A refund is reserved under the lock of its bill, against what is paid for the bill and not yet
reserved. From then on what is reserved of the bill never grows, as long as no refund request
writes a new status to a refund whose status is final: the other writers of a refund first look,
under its lock, at what it has become.

## Main definitions

* `PaymentsDb.reserved`, `PaymentsDb.paid` — what is reserved of a bill, and paid for it.
* `refundTerms` — the terms of refunds, for the statuses that are to be final.

## Main results

* `commitsTo_updateRefund`, `commitsTo_putRefund` — writes to refunds.
* `commitsTo_settle`, `commitsTo_ingest` — bills that are settled, and that come in settled.
-/

namespace StelloKitchens.Payments

open Checked Tx Method Discipline Process
open Billing (SettlePayment)

/-! ### What is reserved and paid -/

/-- What a refund reserves of a bill. -/
def Refund.reserves (r : Refund) (orderId : ℕ) : ℤ :=
  if r.orderId = orderId ∧ r.status ≠ .failed then r.amount.scaled else 0

/-- What is reserved of a bill. -/
def PaymentsDb.reserved (db : PaymentsDb) (orderId : ℕ) : ℤ :=
  (db.refunds.rows.map (·.reserves orderId)).sum

/-- What is paid for a bill. -/
def PaymentsDb.paid (db : PaymentsDb) (orderId : ℕ) : ℤ :=
  ((db.paymentsOf orderId).map (·.amount.scaled)).sum

/-- What is reserved is what the refunds add up to that have not failed. -/
theorem reserved_eq (db : PaymentsDb) (orderId : ℕ) :
    db.reserved orderId = ((db.refunds.rows.filter fun r =>
      r.orderId = orderId ∧ r.status ≠ .failed).map (·.amount.scaled)).sum := by
  unfold PaymentsDb.reserved Refund.reserves
  induction db.refunds.rows with
  | nil => rfl
  | cons r rows ih =>
    by_cases h : r.orderId = orderId ∧ r.status ≠ .failed
    · rw [List.filter_cons_of_pos (by simpa using h)]
      simp [h, ih]
    · rw [List.filter_cons_of_neg (by simpa using h)]
      simp [h, ih]

/-- The refunds are covered, with the next number to draw. -/
structure RefundsSound (db : PaymentsDb) (n : ℕ) : Prop where
  orders : ∀ o ∈ db.orders, o.id < n ∧ 0 ≤ o.total.scaled
  payments : ∀ p ∈ db.payments, 0 ≤ p.amount.scaled ∧ ∃ o ∈ db.orders, o.id = p.orderId
  refunds : ∀ r ∈ db.refunds, r.id < n ∧ 0 ≤ r.amount.scaled
  /-- A refund is of a settled bill. -/
  home : ∀ r ∈ db.refunds, ∃ o ∈ db.orders, o.id = r.orderId ∧ o.tenantId = r.tenantId ∧
    o.outletId = r.outletId ∧ o.status = .settled
  covered : ∀ o ∈ db.orders, db.reserved o.id ≤ min o.total.scaled (db.paid o.id)

/-- What the commit of who holds these does to bills and refunds, where some statuses are final. -/
structure RefundsStep (final : List RefundStatus) (L : Hold LockKey → Prop) (s s' : PaymentsDb) :
    Prop where
  orders : ∀ o ∈ s.orders, ¬L (.lock (.order o.id)) ∨ o.status = .settled → o ∈ s'.orders
  orderIds : ∀ o ∈ s'.orders, L (.number o.id) ∨ ∃ o₀ ∈ s.orders, o₀.id = o.id
  refunds : ∀ r ∈ s.refunds, ¬L (.lock (.refund r.id)) → r ∈ s'.refunds
  refundIds : ∀ r ∈ s'.refunds, L (.number r.id) ∨ ∃ r₀ ∈ s.refunds, r₀.id = r.id
  reserved : ∀ o ∈ s.orders, ¬L (.lock (.order o.id)) → s'.reserved o.id ≤ s.reserved o.id
  paid : ∀ o ∈ s.orders, o.status = .settled → s'.paid o.id = s.paid o.id
  final : ∀ r ∈ s.refunds, r.status ∈ final → ∃ r' ∈ s'.refunds, r'.id = r.id ∧ r'.status = r.status

/-- The terms of refunds: a refund request completes a refund with a final status only by writing
that status. -/
def refundTerms (final : List RefundStatus) :
    Terms PaymentsDb LockKey Note (Except PaymentError (Option String)) where
  inv := RefundsSound
  step := RefundsStep final
  inv_mono hle h := { h with
    orders := fun o ho => ⟨(h.orders o ho).1.trans_le hle, (h.orders o ho).2⟩
    refunds := fun r hr => ⟨(h.refunds r hr).1.trans_le hle, (h.refunds r hr).2⟩ }
  admits note _ db := match note with
    | .completion id status => ∀ r ∈ db.refunds, r.id = id → r.status ∈ final → status = r.status
    | _ => True
  said _ _ := True
  said_step _ _ _ h := h

instance (final : List RefundStatus) (note : Note) (held : List (Hold LockKey)) (db : PaymentsDb) :
    Decidable ((refundTerms final).admits note (· ∈ held) db) :=
  match note with
  | .completion id status => inferInstanceAs (Decidable
      (∀ r ∈ db.refunds.rows, r.id = id → r.status ∈ final → status = r.status))
  | .plain | .collectFailed _ | .redelivery _ | .drawerOpened _ | .movement _ => .isTrue trivial

section Same

variable {s s' : PaymentsDb} {n : ℕ} {final : List RefundStatus} {L : Hold LockKey → Prop}

theorem reserved_congr (h : s'.refunds = s.refunds) : s'.reserved = s.reserved := by
  funext o
  rw [PaymentsDb.reserved, h, PaymentsDb.reserved]

theorem paid_congr (h : s'.payments = s.payments) : s'.paid = s.paid := by
  funext o
  rw [PaymentsDb.paid, PaymentsDb.paymentsOf, h, PaymentsDb.paid, PaymentsDb.paymentsOf]

theorem RefundsSound.same (h : RefundsSound s n) (horders : Table.orders.Same s s')
    (hrefunds : Table.refunds.Same s s') : RefundsSound s' n := by
  have hr : s'.reserved = s.reserved := reserved_congr hrefunds
  have hp : s'.paid = s.paid := paid_congr horders.2
  constructor <;> simp only [horders.1, horders.2, hr, hp, show s'.refunds = s.refunds from hrefunds]
  · exact h.orders
  · exact h.payments
  · exact h.refunds
  · exact h.home
  · exact h.covered

theorem RefundsStep.same {s'' : PaymentsDb} (h : RefundsStep final L s s')
    (horders : Table.orders.Same s' s'') (hrefunds : Table.refunds.Same s' s'') :
    RefundsStep final L s s'' := by
  have hr : s''.reserved = s'.reserved := reserved_congr hrefunds
  have hp : s''.paid = s'.paid := paid_congr horders.2
  constructor <;> simp only [horders.1, hr, hp, show s''.refunds = s'.refunds from hrefunds]
  · exact h.orders
  · exact h.orderIds
  · exact h.refunds
  · exact h.refundIds
  · exact h.reserved
  · exact h.paid
  · exact h.final

theorem RefundsStep.refl (final : List RefundStatus) (L : Hold LockKey → Prop) (s : PaymentsDb) :
    RefundsStep final L s s :=
  ⟨fun _ ho _ => ho, fun o ho => .inr ⟨o, ho, rfl⟩, fun _ hr _ => hr,
    fun r hr => .inr ⟨r, hr, rfl⟩, fun _ _ _ => le_rfl, fun _ _ _ => rfl,
    fun r hr _ => ⟨r, hr, rfl, rfl⟩⟩

theorem about_refunds (final : List RefundStatus) :
    About (refundTerms final).toDiscipline [.orders, .refunds] := by
  intro ts f hf hts L s n hs
  have horders := hf.same s .orders (hts _ (by simp))
  have hrefunds := hf.same s .refunds (hts _ (by simp))
  exact ⟨hs.same horders hrefunds, (RefundsStep.refl final L s).same horders hrefunds⟩

/-- Commits that are the same on bills and refunds. -/
theorem commitsTo_congr {K : PaymentsDb → Prop} {f g : PaymentsDb → PaymentsDb} {note : Note}
    (h : CommitsTo (refundTerms final).toDiscipline (refundTerms final).admits note L K f
      fun _ => True)
    (hsame : ∀ s, Table.orders.Same (f s) (g s) ∧ Table.refunds.Same (f s) (g s)) :
    CommitsTo (refundTerms final).toDiscipline (refundTerms final).admits note L K g
      fun _ => True := by
  refine ⟨stable_true, fun s n hs hdrawn hK hgood => ?_⟩
  obtain ⟨hinv, hstep, -⟩ := h.2 s n hs hdrawn hK hgood
  exact ⟨hinv.same (hsame s).1 (hsame s).2, RefundsStep.same hstep (hsame s).1 (hsame s).2, trivial⟩

end Same

/-! ### Writes to a refund -/

/-- The refund is of the same bill and amount. -/
structure SameRefund (r r' : Refund) : Prop where
  id : r'.id = r.id
  tenantId : r'.tenantId = r.tenantId
  outletId : r'.outletId = r.outletId
  orderId : r'.orderId = r.orderId
  amount : r'.amount = r.amount

theorem SameRefund.refl (r : Refund) : SameRefund r r := ⟨rfl, rfl, rfl, rfl, rfl⟩

/-- A refund that stays of the same bill and amount, and failed if it has, reserves no more. -/
theorem SameRefund.reserves_le {r r' : Refund} (h : SameRefund r r') (hnonneg : 0 ≤ r.amount.scaled)
    (hfailed : r.status = .failed → r'.status = .failed) (orderId : ℕ) :
    r'.reserves orderId ≤ r.reserves orderId := by
  unfold Refund.reserves
  rw [h.orderId, h.amount]
  split_ifs with h₁ h₂
  · exact le_rfl
  · exact absurd ⟨h₁.1, fun hf => h₁.2 (hfailed hf)⟩ h₂
  · exact hnonneg
  · exact le_rfl

section Update

variable {final : List RefundStatus} {L : Hold LockKey → Prop} {K : PaymentsDb → Prop}
  (hfailed : .failed ∈ final)

include hfailed in
/-- The row of a refund that is locked is written; a final status stays. -/
theorem commitsTo_updateRefund {id : ℕ} (hlock : L (.lock (.refund id))) {f : Refund → Refund}
    (hf : ∀ r, SameRefund r (f r)) {note : Note}
    (h : ∀ s, K s → (refundTerms final).admits note L s → ∀ r ∈ s.refunds, r.id = id →
      r.status ∈ final → (f r).status = r.status) :
    CommitsTo (refundTerms final).toDiscipline (refundTerms final).admits note L K
      (fun db => db.updateRefund id f fun r => (hf r).id) fun _ => True := by
  refine ⟨stable_true, fun s n hs _ hK hgood => ?_⟩
  have hmem : ∀ {r'}, r' ∈ (s.updateRefund id f fun r => (hf r).id).refunds →
      ∃ r ∈ s.refunds, SameRefund r r' ∧ (r.id ≠ id → r' = r) := by
    intro r' hr'
    obtain ⟨r, hr, rfl⟩ := (KeyedTable.mem_modify fun r => (hf r).id).mp hr'
    refine ⟨r, hr, ?_⟩
    split
    · rename_i hid
      exact ⟨hf r, fun hne => absurd (of_decide_eq_true hid) hne⟩
    · exact ⟨.refl r, fun _ => rfl⟩
  have hreserved : ∀ o, (s.updateRefund id f fun r => (hf r).id).reserved o ≤ s.reserved o := by
    intro o
    change (List.map _ (List.map _ s.refunds.rows)).sum ≤ (List.map _ s.refunds.rows).sum
    rw [List.map_map]
    refine List.sum_le_sum fun r hr => ?_
    simp only [Function.comp_apply]
    split
    · rename_i hid
      refine (hf r).reserves_le (hs.refunds r hr).2 (fun hstatus => ?_) o
      rw [h s hK hgood r hr (of_decide_eq_true hid) (hstatus ▸ hfailed), hstatus]
    · exact le_rfl
  refine ⟨⟨hs.orders, hs.payments, fun r' hr' => ?_, fun r' hr' => ?_,
    fun o ho => (hreserved o.id).trans (hs.covered o ho)⟩, ⟨fun o ho _ => ho,
    fun o ho => .inr ⟨o, ho, rfl⟩, fun r hr hfree => ?_, fun r' hr' => ?_,
    fun o _ _ => hreserved o.id, fun _ _ _ => rfl, fun r hr hfinal => ?_⟩, trivial⟩
  · obtain ⟨r, hr, hsame, -⟩ := hmem hr'
    rw [hsame.id, hsame.amount]
    exact hs.refunds r hr
  · obtain ⟨r, hr, hsame, -⟩ := hmem hr'
    rw [hsame.orderId, hsame.tenantId, hsame.outletId]
    exact hs.home r hr
  · refine (KeyedTable.mem_modify fun r => (hf r).id).mpr ⟨r, hr, (if_neg ?_).symm⟩
    exact fun hid => hfree (of_decide_eq_true hid ▸ hlock)
  · obtain ⟨r, hr, hsame, -⟩ := hmem hr'
    exact .inr ⟨r, hr, hsame.id.symm⟩
  · refine ⟨if r.id = id then f r else r, ?_, ?_⟩
    · exact (KeyedTable.mem_modify fun r => (hf r).id).mpr ⟨r, hr, by simp⟩
    · split
      · exact ⟨(hf r).id, h s hK hgood r hr ‹_› hfinal⟩
      · exact ⟨rfl, rfl⟩

/-- A condition on the row of a refund that is locked stays true. -/
theorem stable_refund {id : ℕ} (hlock : L (.lock (.refund id))) (p : Refund → Bool) :
    (refundTerms final).Stable L fun s => (s.refunds.find? id).any p = true := by
  rintro L' s n s' n' - - hother hstep hp
  cases hfind : s.refunds.find? id with
  | none => simp [hfind] at hp
  | some r =>
    obtain ⟨hr, rfl⟩ := KeyedTable.find?_eq_some.mp hfind
    rw [KeyedTable.find?_of_mem (RefundsStep.refunds hstep r hr (hother _ hlock)), ← hfind]
    exact hp

include hfailed in
/-- A conditional update of a refund that leaves its status, or that excludes final ones. -/
theorem keeps_updateRefundWhere {id : ℕ} {p : Refund → Bool} {f : Refund → Refund}
    (hf : ∀ r, SameRefund r (f r))
    (hp : ∀ r, p r = true → r.status ∈ final → (f r).status = r.status)
    {w : PaymentsDb → PaymentsDb} (hw : ∀ db,
      Table.orders.Same (db.updateRefund id f fun r => (hf r).id) (w db) ∧
      Table.refunds.Same (db.updateRefund id f fun r => (hf r).id) (w db)) :
    (autocommit (updateWhere (.refund id)
      (fun db : PaymentsDb => (db.refunds.find? id).any p) w)).Keeps
      (refundTerms final).toDiscipline (refundTerms final).admits := by
  refine keeps_atomically fun L K _ hK => wp_updateWhere hK (fun L' _ => ?_)
    fun s n hs hKs hcond => ?_
  · exact ⟨_, (about_refunds final).commitsTo touches_id (fun _ _ => List.not_mem_nil) _⟩
  · refine ⟨_, stable_refund (.inl rfl) p, hcond, fun _ => True, ?_⟩
    refine commitsTo_congr (g := w) (commitsTo_updateRefund hfailed (.inl rfl) hf
      fun s hKs _ r hr hid hfinal => hp r ?_ hfinal) hw
    have h := hKs.2
    rwa [← hid, KeyedTable.find?_of_mem hr] at h

end Update

/-! ### Settled bills -/

section Bills

variable {final : List RefundStatus} {L : Hold LockKey → Prop} {K : PaymentsDb → Prop}

/-- No bill and no refund has a number. -/
structure Unused (m : ℕ) (db : PaymentsDb) : Prop where
  orders : ∀ o ∈ db.orders, o.id ≠ m
  refunds : ∀ r ∈ db.refunds, r.id ≠ m

/-- A number that was just drawn is unused. -/
theorem wp_drawUnused {f : PaymentsDb → PaymentsDb} (hK : (refundTerms final).Stable L K)
    {post : (Hold LockKey → Prop) → (PaymentsDb → Prop) → (PaymentsDb → PaymentsDb) → ℕ → Prop}
    (hpost : ∀ n, (refundTerms final).Stable (Discipline.add L (.number n))
        (fun s => K s ∧ Unused n s) →
      post (Discipline.add L (.number n)) (fun s => K s ∧ Unused n s) f n) :
    (refundTerms final).wp (draw : PaymentTx ℕ) L K f post := by
  refine wp_draw hK fun s n hs hKs => ?_
  have hstable : (refundTerms final).Stable (Discipline.add L (.number n)) (Unused n) := by
    rintro L' s m s' m' - - hother hstep ⟨horders, hrefunds⟩
    refine ⟨fun o ho hid => ?_, fun r hr hid => ?_⟩
    · rcases RefundsStep.orderIds hstep o ho with hL' | ⟨o₀, ho₀, hid₀⟩
      · exact hother _ (.inl rfl) (hid ▸ hL')
      · exact horders o₀ ho₀ (hid₀.trans hid)
    · rcases RefundsStep.refundIds hstep r hr with hL' | ⟨r₀, hr₀, hid₀⟩
      · exact hother _ (.inl rfl) (hid ▸ hL')
      · exact hrefunds r₀ hr₀ (hid₀.trans hid)
  exact ⟨_, hstable, ⟨fun o ho => (hs.orders o ho).1.ne, fun r hr => (hs.refunds r hr).1.ne⟩,
    hpost n ((hK.add _).and hstable)⟩

theorem paid_nonneg {s : PaymentsDb} (h : ∀ p ∈ s.payments, 0 ≤ p.amount.scaled) (orderId : ℕ) :
    0 ≤ s.paid orderId := by
  refine List.sum_nonneg fun x hx => ?_
  obtain ⟨p, hp, rfl⟩ := List.mem_map.mp hx
  exact h p (List.mem_filter.mp hp).1

theorem reserved_nonneg {s : PaymentsDb} (h : ∀ r ∈ s.refunds, 0 ≤ r.amount.scaled) (orderId : ℕ) :
    0 ≤ s.reserved orderId := by
  refine List.sum_nonneg fun x hx => ?_
  obtain ⟨r, hr, rfl⟩ := List.mem_map.mp hx
  unfold Refund.reserves
  split
  · exact h r hr
  · exact le_rfl

/-- Nothing is reserved of a bill that has no refunds. -/
theorem reserved_eq_zero {s : PaymentsDb} {orderId : ℕ} (h : ∀ r ∈ s.refunds, r.orderId ≠ orderId) :
    s.reserved orderId = 0 := by
  refine List.sum_eq_zero fun x hx => ?_
  obtain ⟨r, hr, rfl⟩ := List.mem_map.mp hx
  exact if_neg fun hr' => h r hr hr'.1

/-- Payments of one bill, none of them negative. -/
def PaidBy (orderId : ℕ) (rows : List OrderPayment) : Prop :=
  ∀ p ∈ rows, p.orderId = orderId ∧ 0 ≤ p.amount.scaled

theorem paidBy_paymentRows {orderId : ℕ} {payments : List (Billing.SettleMode × Binary64)}
    (hpos : ∀ p ∈ payments, 0 < p.2) {rows : List OrderPayment}
    (h : paymentRows orderId payments = .ok rows) : PaidBy orderId rows := by
  intro row hrow
  obtain ⟨p, hp, hstore⟩ := forall_mem_of_mapM h row hrow
  obtain ⟨amount, hamount, hrow⟩ := bind_eq_ok.mp hstore
  cases hrow
  exact ⟨rfl, Decimal.scaled_nonneg_of_ofNumber (Binary64.nonneg_iff.mp (hpos p hp).le)
    (orThrow_eq_ok.mp hamount)⟩

theorem paid_append_of_ne {s : PaymentsDb} {orderId : ℕ} {rows : List OrderPayment}
    (hrows : PaidBy orderId rows) {k : ℕ} (hne : k ≠ orderId) {s' : PaymentsDb}
    (hs' : s'.payments = s.payments ++ rows) : s'.paid k = s.paid k := by
  have hnone : rows.filter (fun p => p.orderId = k) = [] := by
    rw [List.filter_eq_nil_iff]
    intro p hp
    simpa [(hrows p hp).1] using hne.symm
  rw [PaymentsDb.paid, PaymentsDb.paymentsOf, hs', List.filter_append, hnone, List.append_nil]
  rfl

/-- A bill that is locked and open is settled, with payments for it. -/
theorem commitsTo_settle {o : Order} (hlock : L (.lock (.order o.id))) (hopen : o.status = .opened)
    (hK : ∀ s, K s → o ∈ s.orders) {rows : List OrderPayment} (hrows : PaidBy o.id rows)
    {f : Order → Order} (hf : ∀ x, (f x).id = x.id) (htotal : ∀ x, 0 ≤ (f x).total.scaled)
    (note : Note) :
    CommitsTo (refundTerms final).toDiscipline (refundTerms final).admits note L K
      (fun db => { db with
        payments := db.payments ++ rows
        orders := db.orders.modify (fun x => x.id = o.id) f hf }) fun _ => True := by
  refine ⟨stable_true, fun s n hs _ hKs _ => ?_⟩
  have ho := hK s hKs
  have hstay : ∀ x ∈ s.orders, x.id ≠ o.id → x ∈ s.orders.modify (fun x => x.id = o.id) f hf :=
    fun x hx hne => (KeyedTable.mem_modify hf).mpr ⟨x, hx, by simp [hne]⟩
  have hsettled : ∀ x ∈ s.orders, x.status = .settled → x.id ≠ o.id := by
    intro x hx hstatus hid
    rw [KeyedTable.eq_of_mem hx ho hid, hopen] at hstatus
    cases hstatus
  have hpaid : ∀ p ∈ s.payments ++ rows, 0 ≤ p.amount.scaled := fun p hp =>
    (List.mem_append.mp hp).elim (fun hp => (hs.payments p hp).1) fun hp => (hrows p hp).2
  refine ⟨⟨fun x hx => ?_, fun p hp => ⟨hpaid p hp, ?_⟩, hs.refunds, fun r hr => ?_,
    fun x hx => ?_⟩, ⟨fun x hx hfree => ?_, fun x hx => ?_, fun r hr _ => hr,
    fun r hr => .inr ⟨r, hr, rfl⟩, fun _ _ _ => le_rfl, fun x hx hstatus => ?_,
    fun r hr _ => ⟨r, hr, rfl, rfl⟩⟩, trivial⟩
  · obtain ⟨y, hy, rfl⟩ := (KeyedTable.mem_modify hf).mp hx
    split
    · rw [hf]
      exact ⟨(hs.orders y hy).1, htotal y⟩
    · exact hs.orders y hy
  · have hthere : ∃ x ∈ s.orders, x.id = p.orderId := by
      rcases List.mem_append.mp hp with hp | hp
      · exact (hs.payments p hp).2
      · exact ⟨o, ho, (hrows p hp).1.symm⟩
    obtain ⟨x, hx, hid⟩ := hthere
    refine ⟨_, (KeyedTable.mem_modify hf).mpr ⟨x, hx, rfl⟩, ?_⟩
    split
    · rw [hf, hid]
    · exact hid
  · obtain ⟨x, hx, hid, htenant, houtlet, hstatus⟩ := hs.home r hr
    exact ⟨x, hstay x hx (hsettled x hx hstatus), hid, htenant, houtlet, hstatus⟩
  · obtain ⟨y, hy, rfl⟩ := (KeyedTable.mem_modify hf).mp hx
    by_cases hid : y.id = o.id
    · -- the bill was open, so nothing was reserved of it
      rw [if_pos (by simpa using hid), hf]
      have hnone : s.reserved y.id = 0 := reserved_eq_zero fun r hr hrid => by
        obtain ⟨z, hz, hzid, -, -, hstatus⟩ := hs.home r hr
        exact hsettled z hz hstatus (hzid.trans (hrid.trans hid))
      change s.reserved y.id ≤ _
      rw [hnone]
      exact le_min (htotal y) (paid_nonneg hpaid y.id)
    · rw [if_neg (by simpa using hid), paid_append_of_ne (s := s) hrows hid rfl]
      exact hs.covered y hy
  · exact hstay x hx fun hid => hfree.elim (fun hL => hL (hid ▸ hlock))
      fun hstatus => hsettled x hx hstatus hid
  · obtain ⟨y, hy, rfl⟩ := (KeyedTable.mem_modify hf).mp hx
    refine .inr ⟨y, hy, ?_⟩
    split
    · rw [hf]
    · rfl
  · exact paid_append_of_ne (s := s) hrows (hsettled x hx hstatus) rfl

/-- A settled bill is inserted under a number of its own, with payments for it. -/
theorem commitsTo_ingest {o : Order} (hn : L (.number o.id)) (hK : ∀ s, K s → Unused o.id s)
    (htotal : 0 ≤ o.total.scaled) {rows : List OrderPayment} (hrows : PaidBy o.id rows)
    (note : Note) :
    CommitsTo (refundTerms final).toDiscipline (refundTerms final).admits note L K
      (fun db => { db with
        orders := db.orders.put o
        payments := db.payments ++ rows }) fun _ => True := by
  refine ⟨stable_true, fun s n hs hdrawn hKs _ => ?_⟩
  have hnew := (hK s hKs).orders
  have hstay : ∀ x ∈ s.orders, x ∈ s.orders.put o :=
    fun x hx => KeyedTable.mem_put.mpr (.inr ⟨hx, hnew x hx⟩)
  have hpaid : ∀ p ∈ s.payments ++ rows, 0 ≤ p.amount.scaled := fun p hp =>
    (List.mem_append.mp hp).elim (fun hp => (hs.payments p hp).1) fun hp => (hrows p hp).2
  refine ⟨⟨fun x hx => ?_, fun p hp => ⟨hpaid p hp, ?_⟩, hs.refunds, fun r hr => ?_,
    fun x hx => ?_⟩, ⟨fun x hx _ => hstay x hx, fun x hx => ?_, fun r hr _ => hr,
    fun r hr => .inr ⟨r, hr, rfl⟩, fun _ _ _ => le_rfl, fun x hx _ => ?_,
    fun r hr _ => ⟨r, hr, rfl, rfl⟩⟩, trivial⟩
  · rcases KeyedTable.mem_put.mp hx with rfl | ⟨hx, -⟩
    · exact ⟨hdrawn _ hn, htotal⟩
    · exact hs.orders x hx
  · rcases List.mem_append.mp hp with hp | hp
    · obtain ⟨x, hx, hid⟩ := (hs.payments p hp).2
      exact ⟨x, hstay x hx, hid⟩
    · exact ⟨o, KeyedTable.mem_put.mpr (.inl rfl), (hrows p hp).1.symm⟩
  · obtain ⟨x, hx, hhome⟩ := hs.home r hr
    exact ⟨x, hstay x hx, hhome⟩
  · rcases KeyedTable.mem_put.mp hx with rfl | ⟨hx, hne⟩
    · have hnone : s.reserved x.id = 0 := reserved_eq_zero fun r hr hrid => by
        obtain ⟨y, hy, hyid, -⟩ := hs.home r hr
        exact hnew y hy (hyid.trans hrid)
      change s.reserved x.id ≤ _
      rw [hnone]
      exact le_min htotal (paid_nonneg hpaid x.id)
    · rw [paid_append_of_ne (s := s) hrows hne rfl]
      exact hs.covered x hx
  · rcases KeyedTable.mem_put.mp hx with rfl | ⟨hx, -⟩
    · exact .inl hn
    · exact .inr ⟨x, hx, rfl⟩
  · exact paid_append_of_ne (s := s) hrows (hnew x hx) rfl

/-- A refund of a settled bill that is locked is inserted, under a number of its own, within what
is left of the bill. -/
theorem commitsTo_putRefund {o : Order} {r : Refund} {R P : ℤ} (hlock : L (.lock (.order o.id)))
    (hn : L (.number r.id)) (hsettled : o.status = .settled)
    (hK : ∀ s, K s → o ∈ s.orders ∧ Unused r.id s ∧ s.reserved o.id ≤ R ∧ s.paid o.id = P)
    (hhome : r.orderId = o.id ∧ r.tenantId = o.tenantId ∧ r.outletId = o.outletId)
    (hnonneg : 0 ≤ r.amount.scaled) (hcovered : R + r.amount.scaled ≤ min o.total.scaled P)
    (note : Note) :
    CommitsTo (refundTerms final).toDiscipline (refundTerms final).admits note L K
      (fun db => { db with refunds := db.refunds.put r }) fun _ => True := by
  refine ⟨stable_true, fun s n hs hdrawn hKs _ => ?_⟩
  obtain ⟨ho, hunused, hR, hP⟩ := hK s hKs
  have hnew : ∀ x ∈ s.refunds, x.id ≠ r.id := hunused.refunds
  have hstay : ∀ x ∈ s.refunds, x ∈ s.refunds.put r :=
    fun x hx => KeyedTable.mem_put.mpr (.inr ⟨hx, hnew x hx⟩)
  have hreserved : ∀ k, PaymentsDb.reserved { s with refunds := s.refunds.put r } k =
      s.reserved k + r.reserves k := by
    intro k
    simp only [PaymentsDb.reserved, KeyedTable.rows_put_of_new hnew, List.map_append,
      List.sum_append, List.map_cons, List.map_nil, List.sum_cons, List.sum_nil, add_zero]
  have hother : ∀ k, k ≠ o.id → r.reserves k = 0 :=
    fun k hk => if_neg fun hr => hk (hr.1.symm.trans hhome.1)
  refine ⟨⟨hs.orders, hs.payments, fun x hx => ?_, fun x hx => ?_, fun x hx => ?_⟩,
    ⟨fun x hx _ => hx, fun x hx => .inr ⟨x, hx, rfl⟩, fun x hx _ => hstay x hx, fun x hx => ?_,
      fun x hx hfree => ?_, fun _ _ _ => rfl, fun x hx _ => ⟨x, hstay x hx, rfl, rfl⟩⟩, trivial⟩
  · rcases KeyedTable.mem_put.mp hx with rfl | ⟨hx, -⟩
    · exact ⟨hdrawn _ hn, hnonneg⟩
    · exact hs.refunds x hx
  · rcases KeyedTable.mem_put.mp hx with rfl | ⟨hx, -⟩
    · exact ⟨o, ho, hhome.1.symm, hhome.2.1.symm, hhome.2.2.symm, hsettled⟩
    · exact hs.home x hx
  · rw [hreserved]
    by_cases hid : x.id = o.id
    · rw [KeyedTable.eq_of_mem hx ho hid]
      have hle : r.reserves o.id ≤ r.amount.scaled := by
        unfold Refund.reserves
        split
        · exact le_rfl
        · exact hnonneg
      change _ ≤ min o.total.scaled (s.paid o.id)
      rw [hP]
      omega
    · rw [hother _ hid, add_zero]
      exact hs.covered x hx
  · rcases KeyedTable.mem_put.mp hx with rfl | ⟨hx, -⟩
    · exact .inl hn
    · exact .inr ⟨x, hx, rfl⟩
  · rw [hreserved, hother x.id fun hid => hfree (hid ▸ hlock), add_zero]

end Bills

end StelloKitchens.Payments
