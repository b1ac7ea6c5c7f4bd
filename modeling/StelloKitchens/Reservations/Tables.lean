import StelloKitchens.Reservations.Bookings

/-!
# No table is booked twice

Whoever lets a reservation hold a table that it did not hold at the time holds the lock of the
table. While it does, no other reservation comes to hold the table, so that one that found no other
reservation in the way may commit. The check looks back as long as a reservation can last, so that
it finds all that overlap. A party that sits down at a table that is not of its reservation holds
the lock too, but has only looked for a running order.

## Main definitions

* `ReservationDb.Free` — no reservation holds a table in an interval.
* `Sound`, `BookingStep` — what holds of the reservations, and what a commit does to them.
* `bookingTerms` — the terms of the methods.

## Main results

* `free_of_clashes` — the check finds every reservation that overlaps.
* `booking_kept` — every method keeps the terms.
* `no_double_booking` — the reservations over all interleavings.
-/

namespace StelloKitchens.Reservations

open Checked Tx Process Method Discipline Service

/-! ### Who holds a table -/

/-- No reservation of the outlet, but perhaps for one, holds the table in the interval. -/
def ReservationDb.Free (db : ReservationDb) (tenantId outletId : String) (startAt : Time)
    (minutes : ℤ) (excludeId : Option ℕ) (tableId : String) : Prop :=
  ∀ q ∈ db.reservations.rows, q.tenantId = tenantId → q.outletId = outletId → q.Blocks →
    intervalsOverlap startAt minutes q.startAt q.duration.minutes → some q.id ≠ excludeId →
      tableId ∉ q.tables

instance (db : ReservationDb) (tenantId outletId : String) (startAt : Time) (minutes : ℤ)
    (excludeId : Option ℕ) (tableId : String) :
    Decidable (db.Free tenantId outletId startAt minutes excludeId tableId) :=
  inferInstanceAs (Decidable (∀ q ∈ db.reservations.rows, _))

/-- No other reservation holds the table at the time of this one. -/
abbrev ReservationDb.FreeFor (db : ReservationDb) (r : Reservation) (tableId : String) : Prop :=
  db.Free r.tenantId r.outletId r.startAt r.duration.minutes (some r.id) tableId

/-- No two reservations of an outlet whose times overlap hold the same table. -/
def NoDoubleBooking (db : ReservationDb) : Prop :=
  ∀ r ∈ db.reservations.rows, ∀ q ∈ db.reservations.rows, r.id ≠ q.id →
    r.tenantId = q.tenantId → r.outletId = q.outletId → r.Blocks → q.Blocks → r.Overlaps q →
      ∀ t ∈ r.tables, t ∉ q.tables

instance (db : ReservationDb) : Decidable (NoDoubleBooking db) :=
  inferInstanceAs (Decidable (∀ r ∈ db.reservations.rows, _))

theorem noDoubleBooking_iff {db : ReservationDb} : NoDoubleBooking db ↔
    ∀ r ∈ db.reservations, r.Blocks → ∀ t ∈ r.tables, db.FreeFor r t := by
  constructor
  · intro h r hr hblocks t ht q hq htenant houtlet hq' hoverlap hne
    exact h r hr q hq (fun heq => hne (congrArg some heq.symm)) htenant.symm houtlet.symm hblocks
      hq' hoverlap t ht
  · intro h r hr q hq hne htenant houtlet hblocks hq' hoverlap t ht
    exact h r hr hblocks t ht q hq htenant.symm houtlet.symm hq' hoverlap
      fun heq => hne (Option.some.inj heq).symm

theorem intervalsOverlap_comm {a m b k : ℤ} :
    intervalsOverlap a m b k ↔ intervalsOverlap b k a m := And.comm

/-- What overlaps begins no earlier than the longest reservation before the start. -/
theorem lt_of_intervalsOverlap {a m b k : ℤ} (h : intervalsOverlap a m b k) (hk : k ≤ 480) :
    a - maxDurationMin * 60000 < b := by
  have hstart := h.1
  unfold maxDurationMin
  omega

/-- The check sees every reservation that is in the way. -/
theorem mem_clashes {db : ReservationDb} {tenantId outletId : String} {ids : List String}
    {startAt : Time} {minutes : ℤ} {excludeId : Option ℕ} {q : Reservation} (hq : q ∈ db.reservations)
    (htenant : q.tenantId = tenantId) (houtlet : q.outletId = outletId) (hblocks : q.Blocks)
    (hoverlap : intervalsOverlap startAt minutes q.startAt q.duration.minutes)
    (hid : some q.id ≠ excludeId) {t : String} (ht : t ∈ q.tables) (htids : t ∈ ids) :
    q ∈ db.clashes tenantId outletId ids startAt minutes excludeId := by
  have hbound : (q.duration.minutes : ℤ) ≤ 480 := by exact_mod_cast q.duration.bound.2
  exact List.mem_filter.mpr ⟨List.mem_filter.mpr ⟨hq, decide_eq_true ⟨htenant, houtlet, hblocks,
    lt_of_intervalsOverlap hoverlap hbound, hoverlap.2, ⟨t, ht, htids⟩, hid⟩⟩,
    decide_eq_true hoverlap⟩

/-- Where nothing clashes, the tables are free. -/
theorem free_of_clashes {db : ReservationDb} {tenantId outletId : String} {ids : List String}
    {startAt : Time} {minutes : ℤ} {excludeId : Option ℕ}
    (h : db.clashes tenantId outletId ids startAt minutes excludeId = []) :
    ∀ t ∈ ids, db.Free tenantId outletId startAt minutes excludeId t := by
  intro t ht q hq htenant houtlet hblocks hoverlap hid htq
  have hmem := mem_clashes hq htenant houtlet hblocks hoverlap hid htq ht
  rw [h] at hmem
  cases hmem

/-- A reservation held the table already, at the same time. -/
structure Reservation.Held (r r' : Reservation) (tableId : String) : Prop where
  id : r.id = r'.id
  tenantId : r.tenantId = r'.tenantId
  outletId : r.outletId = r'.outletId
  startAt : r.startAt = r'.startAt
  duration : r.duration = r'.duration
  blocks : r.Blocks
  mem : tableId ∈ r.tables

/-- What holds of the reservations. -/
structure Sound (db : ReservationDb) (n : ℕ) : Prop where
  fresh : ∀ r ∈ db.reservations, r.id < n
  single : ∀ r ∈ db.reservations, r.Blocks → ∀ t ∈ r.tables, db.FreeFor r t

/-- What the commit of who holds these does to the reservations. -/
structure BookingStep (L : Hold LockKey → Prop) (db db' : ReservationDb) : Prop where
  rows : TableStep .reservation L db.reservations db'.reservations
  /-- No one comes to hold a table that is not locked. -/
  tables : ∀ t, ¬L (.lock (.table t)) → ∀ r' ∈ db'.reservations, r'.Blocks → t ∈ r'.tables →
    ∃ r ∈ db.reservations, r.Held r' t

theorem BookingStep.refl (L : Hold LockKey → Prop) (db : ReservationDb) : BookingStep L db db :=
  ⟨.refl _, fun _ _ r hr hblocks ht => ⟨r, hr, rfl, rfl, rfl, rfl, rfl, hblocks, ht⟩⟩

/-- One reservation changes or is made: the tables that it holds it has held, or they are locked
and free. -/
theorem keeping_row {L : Hold LockKey → Prop} {s s' : ReservationDb} {n : ℕ} (hs : Sound s n)
    {r' : Reservation} (hid : r'.id < n)
    (hrows : TableStep .reservation L s.reservations s'.reservations)
    (hmem : ∀ q ∈ s'.reservations, q = r' ∨ q ∈ s.reservations ∧ q.id ≠ r'.id)
    (hold : r'.Blocks → ∀ t ∈ r'.tables,
      (∃ r ∈ s.reservations, r.Held r' t) ∨ L (.lock (.table t)) ∧ s.FreeFor r' t) :
    Sound s' n ∧ BookingStep L s s' := by
  have hfree : r'.Blocks → ∀ t ∈ r'.tables, s.FreeFor r' t := by
    intro hblocks t ht
    rcases hold hblocks t ht with ⟨r, hr, heq⟩ | ⟨-, h⟩
    · have h := hs.single r hr heq.blocks t heq.mem
      rwa [ReservationDb.FreeFor, heq.id, heq.tenantId, heq.outletId, heq.startAt,
        heq.duration] at h
    · exact h
  refine ⟨⟨fun q hq => ?_, ?_⟩, hrows, fun t hlock q hq hblocks ht => ?_⟩
  · rcases hmem q hq with rfl | ⟨hq, -⟩
    · exact hid
    · exact hs.fresh q hq
  · intro r hr hblocks t ht q hq htenant houtlet hq' hoverlap hne htq
    rcases hmem r hr with rfl | ⟨hr, hrne⟩ <;> rcases hmem q hq with rfl | ⟨hq, hqne⟩
    · exact hne rfl
    · exact hfree hblocks t ht q hq htenant houtlet hq' hoverlap hne htq
    · exact hfree hq' t htq r hr htenant.symm houtlet.symm hblocks
        (intervalsOverlap_comm.mp hoverlap) (fun heq => hne heq.symm) ht
    · exact hs.single r hr hblocks t ht q hq htenant houtlet hq' hoverlap hne htq
  · rcases hmem q hq with rfl | ⟨hq, -⟩
    · rcases hold hblocks t ht with hheld | ⟨hlocked, -⟩
      · exact hheld
      · exact absurd hlocked hlock
    · exact ⟨q, hq, rfl, rfl, rfl, rfl, rfl, hblocks, ht⟩

/-! ### The terms -/

/-- What a party is to find when it sits down at a table that is not of its reservation. -/
def Admits : Note → (Hold LockKey → Prop) → ReservationDb → Prop
  | .plain, _, _ => True
  | .seated id tableId, _, db =>
    ∀ r ∈ db.reservations.rows, r.id = id → tableId ∉ r.tables → db.FreeFor r tableId

instance (note : Note) (L : Hold LockKey → Prop) (db : ReservationDb) :
    Decidable (Admits note L db) :=
  match note with
  | .plain => .isTrue trivial
  | .seated _ _ => inferInstanceAs (Decidable (∀ r ∈ db.reservations.rows, _))

/-- The terms of the methods. -/
def bookingTerms : Terms ReservationDb LockKey Note (Except ServiceError Unit) where
  inv := Sound
  step := BookingStep
  inv_mono hle h := ⟨fun r hr => Nat.lt_of_lt_of_le (h.fresh r hr) hle, h.single⟩
  admits := Admits
  said _ _ := True
  said_step _ _ _ _ := trivial

section Statements

variable {L : Hold LockKey → Prop} {K : ReservationDb → Prop}

/-- The lock of a reservation guards it. -/
theorem reservation_guards (id : ℕ) : bookingTerms.Guards (.reservation id) fun db =>
    db.findReservation id :=
  fun _ _ _ hstep hid => hstep.rows.rows id hid

/-- A table that is locked stays free. -/
theorem stable_free {tenantId outletId : String} {startAt : Time} {minutes : ℤ}
    {excludeId : Option ℕ} {tableId : String} (hlock : L (.lock (.table tableId))) :
    bookingTerms.Stable L fun db => db.Free tenantId outletId startAt minutes excludeId tableId := by
  intro L' s n s' n' _ _ hother hstep hfree q hq htenant houtlet hblocks hoverlap hid ht
  obtain ⟨r, hr, heq⟩ := hstep.tables tableId (hother _ hlock) q hq hblocks ht
  refine hfree r hr (heq.tenantId.trans htenant) (heq.outletId.trans houtlet) heq.blocks ?_ ?_ heq.mem
  · rwa [heq.startAt, heq.duration]
  · rwa [heq.id]

theorem stable_forall_free {tenantId outletId : String} {startAt : Time} {minutes : ℤ}
    {excludeId : Option ℕ} {ids : List String} (hlock : ∀ t ∈ ids, L (.lock (.table t))) :
    bookingTerms.Stable L fun db =>
      ∀ t ∈ ids, db.Free tenantId outletId startAt minutes excludeId t :=
  fun L' s n s' n' hs hs' hother hstep hfree t ht =>
    stable_free (hlock t ht) L' s n s' n' hs hs' hother hstep (hfree t ht)

theorem mem_unique {ids : List String} {t : String} : t ∈ unique ids ↔ t ∈ ids := by
  simp [unique]

/-- After the check the tables are locked, and stay free. -/
theorem wp_lockAndCheck {tenantId outletId : String} {tableIds : List String} {startAt : Time}
    {minutes : ℤ} {excludeId : Option ℕ} (hK : bookingTerms.Stable L K)
    {post : (Hold LockKey → Prop) → (ReservationDb → Prop) → (ReservationDb → ReservationDb) →
      Unit → Prop}
    (hpost : ∀ L' J, Extends L L' → bookingTerms.Stable L' J →
      (∀ t ∈ tableIds, L' (.lock (.table t))) →
      (∀ s, J s → K s ∧ ∀ t ∈ tableIds, s.Free tenantId outletId startAt minutes excludeId t) →
      post L' J id ()) :
    bookingTerms.wp (lockAndCheck tenantId outletId tableIds startAt minutes excludeId) L K id
      post := by
  set ids := (unique tableIds).insertionSort (· ≤ ·) with hids
  have hsub : ∀ t ∈ tableIds, t ∈ ids :=
    fun t ht => (List.perm_insertionSort _ _).mem_iff.mpr (mem_unique.mpr ht)
  unfold lockAndCheck
  rw [← hids]
  refine wp_whenever (fun _ => ?_) fun hnil => ?_
  · simp only [Discipline.wp_bind]
    refine wp_acquireAll fun L' hL hlocked => ?_
    have hlocked : ∀ t ∈ ids, L' (.lock (.table t)) :=
      fun t ht => hlocked _ (List.mem_map_of_mem ht)
    have hK' := hK.anti hL.holds
    refine wp_query_any hK' fun locked => wp_check fun _ => ?_
    refine wp_query hK' fun s n _ _ => ?_
    by_cases hclash : s.clashes tenantId outletId ids startAt minutes excludeId = []
    · have hstable := @stable_forall_free L' tenantId outletId startAt minutes excludeId ids hlocked
      refine ⟨_, hstable, free_of_clashes hclash, wp_ofExcept fun _ _ => ?_⟩
      exact hpost L' _ hL (hK'.and hstable) (fun t ht => hlocked t (hsub t ht))
        fun s hs => ⟨hs.1, fun t ht => hs.2 t (hsub t ht)⟩
    · refine ⟨_, stable_true, trivial, wp_ofExcept fun _ hok => ?_⟩
      obtain ⟨clash, rest, hcons⟩ := List.exists_cons_of_ne_nil hclash
      simp only [id, hcons, List.head?_cons, Option.elim_some] at hok
      cases hok
  · have hempty : ∀ t, t ∉ tableIds := by
      intro t ht
      have := hsub t ht
      rw [not_not.mp hnil] at this
      cases this
    exact hpost L K (.refl L) hK (fun t ht => absurd ht (hempty t))
      fun s hs => ⟨hs, fun t ht => absurd ht (hempty t)⟩

/-- A reservation that was locked stays as it was read. -/
theorem wp_lockReservation {tenantId outletId : String} {id' : ℕ} (hK : bookingTerms.Stable L K)
    {post : (Hold LockKey → Prop) → (ReservationDb → Prop) → (ReservationDb → ReservationDb) →
      Reservation → Prop}
    (hpost : ∀ r, r.id = id' → r.tenantId = tenantId → r.outletId = outletId →
      bookingTerms.Stable (add L (.lock (.reservation id')))
        (fun s => K s ∧ s.findReservation id' = some r) →
      post (add L (.lock (.reservation id'))) (fun s => K s ∧ s.findReservation id' = some r) id r) :
    bookingTerms.wp (lockReservation tenantId outletId id') L K id post := by
  unfold lockReservation
  simp only [Discipline.wp_bind, Discipline.wp_acquire]
  refine wp_query (hK.add _) fun s n _ _ => ?_
  have hstable := (reservation_guards id').stable (L := add L (.lock (.reservation id'))) (.inl rfl)
    (· = s.findReservation id')
  refine ⟨_, hstable, rfl, wp_require fun r hr => ?_⟩
  obtain ⟨hfind, hr⟩ := Option.filter_eq_some_iff.mp hr
  obtain ⟨htenant, houtlet⟩ := of_decide_eq_true hr
  obtain ⟨-, hid⟩ := KeyedTable.find?_eq_some.mp hfind
  rw [id] at hfind
  rw [hfind] at hstable ⊢
  exact hpost r hid htenant houtlet ((hK.add _).and hstable)

/-- A reservation that was read under its lock is changed. -/
theorem keeping_updateReservation {s : ReservationDb} {n : ℕ} (hs : Sound s n) {r : Reservation}
    {f : Reservation → Reservation} (hf : ∀ r, (f r).id = r.id)
    (hfind : s.findReservation r.id = some r) (hlock : L (.lock (.reservation r.id)))
    (hold : (f r).Blocks → ∀ t ∈ (f r).tables,
      r.Held (f r) t ∨ L (.lock (.table t)) ∧ s.FreeFor (f r) t) :
    Sound (s.updateReservation r.id f hf) n ∧
      BookingStep L s (s.updateReservation r.id f hf) := by
  obtain ⟨hr, -⟩ := KeyedTable.find?_eq_some.mp hfind
  refine @keeping_row L s _ n hs (f r) ((hf r).symm ▸ hs.fresh r hr) (.modify hf fun q _ hq => ?_)
    (fun q hq => ?_) fun hblocks t ht => (hold hblocks t ht).imp_left fun h => ⟨r, hr, h⟩
  · rwa [of_decide_eq_true hq]
  · obtain ⟨q', hq', rfl⟩ := (KeyedTable.mem_modify hf).mp hq
    by_cases hid : q'.id = r.id
    · rw [if_pos (decide_eq_true hid), KeyedTable.eq_of_mem hq' hr hid]
      exact .inl rfl
    · rw [if_neg (by simpa using hid)]
      exact .inr ⟨hq', fun heq => hid (heq.trans (hf r))⟩

/-- A reservation is made that holds tables which are free. -/
theorem keeping_putReservation {s : ReservationDb} {n : ℕ} (hs : Sound s n) {r : Reservation}
    (hid : r.id < n) (hlock : L (.lock (.reservation r.id))) (hnumber : L (.number r.id))
    (hold : ∀ t ∈ r.tables, L (.lock (.table t)) ∧ s.FreeFor r t) :
    Sound { s with reservations := s.reservations.put r } n ∧
      BookingStep L s { s with reservations := s.reservations.put r } :=
  keeping_row hs hid (.put hlock fun _ => hnumber) (fun _ hq => KeyedTable.mem_put.mp hq)
    fun _ t ht => .inr (hold t ht)

end Statements

/-! ### Methods -/

section Methods

variable {L : Hold LockKey → Prop} {K : ReservationDb → Prop} (user : AuthUser) (outletId : String)

theorem keeps_assertOutlet :
    (assertOutlet user outletId : ReservationMethod Unit).Keeps bookingTerms.toDiscipline Admits :=
  keeps_guardOr _ _

theorem create_keeps (input : ReservationInput) :
    (create user outletId input).Keeps bookingTerms.toDiscipline Admits := by
  unfold create
  refine (keeps_assertOutlet user outletId).bind fun _ => keeps_atomically fun L K _ hK => ?_
  simp only [createTx, Discipline.wp_bind]
  refine wp_lockAndCheck hK fun L₁ J _ hJ hlocked hfree => ?_
  refine wp_query_any hJ fun customerId => wp_draw hJ fun s n _ _ =>
    ⟨fun _ => True, stable_true, trivial, ?_⟩
  rw [Discipline.wp_acquire, Discipline.wp_update]
  refine ⟨_, Commits.to fun s m hs hdrawn hJs => ?_⟩
  have hnumber : add (add L₁ (.number n)) (.lock (.reservation n)) (.number n) := .inr (.inl rfl)
  refine keeping_putReservation hs (hdrawn n hnumber) (.inl rfl) hnumber fun t ht => ?_
  have ht := mem_unique.mp ht
  refine ⟨.inr (.inr (hlocked t ht)), fun q hq htenant houtlet hblocks hoverlap _ => ?_⟩
  exact (hfree s hJs.1.1).2 t ht q hq htenant houtlet hblocks hoverlap (Option.some_ne_none _)

/-- The tables of a reservation that is changed are those that were checked. -/
theorem mem_tables_apply {input : UpdateReservationInput} {customerId : Option String}
    {r : Reservation} {t : String} :
    t ∈ (input.apply customerId r).tables ↔ t ∈ input.tableIds.getD r.tables := by
  unfold UpdateReservationInput.apply
  cases input.tableIds with
  | none => rfl
  | some ids => exact mem_unique

theorem update_keeps (id' : ℕ) (input : UpdateReservationInput) :
    (update user outletId id' input).Keeps bookingTerms.toDiscipline Admits := by
  unfold update
  refine (keeps_assertOutlet user outletId).bind fun _ => keeps_atomically fun L K _ hK => ?_
  simp only [updateTx, Discipline.wp_bind]
  refine wp_lockReservation hK fun r hid htenant houtlet hr => wp_check fun _ => ?_
  subst hid houtlet
  rw [← htenant]
  refine wp_lockAndCheck hr fun L₁ J hL hJ hlocked hfree => wp_query_any hJ fun customerId => ?_
  rw [Discipline.wp_update]
  refine ⟨_, Commits.to fun s n hs _ hJs => ?_⟩
  obtain ⟨⟨-, hfind⟩, hfree⟩ := hfree s hJs.1
  refine keeping_updateReservation hs _ hfind (hL.holds _ (.inl rfl)) fun _ t ht => .inr ?_
  have ht := mem_tables_apply.mp ht
  exact ⟨hlocked t ht, hfree t ht⟩

/-- What does not hold its tables can only be reinstated. -/
theorem eq_booked_of_mem_transitions {before status : ReservationStatus}
    (h : status ∈ reservationTransitions before) (hnot : before ∉ blockingReservationStatuses) :
    status = .booked := by
  cases before <;> simp_all [reservationTransitions, blockingReservationStatuses]

theorem setStatus_keeps (id' : ℕ) (status : ReservationStatus) :
    (setStatus user outletId id' status).Keeps bookingTerms.toDiscipline Admits := by
  unfold setStatus
  refine (keeps_assertOutlet user outletId).bind fun _ => (keeps_guardOr _ _).bind fun _ =>
    keeps_atomically fun L K _ hK => ?_
  simp only [setStatusTx, Discipline.wp_bind]
  refine wp_lockReservation hK fun r hid htenant houtlet hr => wp_check fun hmoves => ?_
  subst hid houtlet
  rw [← htenant]
  refine wp_whenever (fun _ => ?_) fun hnot => ?_
  · -- it claims its tables again
    refine wp_lockAndCheck hr fun L₁ J hL hJ hlocked hfree => ?_
    rw [Discipline.wp_update]
    refine ⟨_, Commits.to fun s n hs _ hJs => ?_⟩
    obtain ⟨⟨-, hfind⟩, hfree⟩ := hfree s hJs.1
    exact keeping_updateReservation hs _ hfind (hL.holds _ (.inl rfl)) fun _ t ht =>
      .inr ⟨hlocked t ht, hfree t ht⟩
  · rw [Discipline.wp_update]
    refine ⟨_, Commits.to fun s n hs _ hJs => ?_⟩
    have hblocks : r.Blocks := by
      by_contra hb
      exact hnot ⟨eq_booked_of_mem_transitions hmoves hb, hb⟩
    exact keeping_updateReservation hs _ hJs.1.2 (.inl rfl) fun _ t ht =>
      .inl ⟨rfl, rfl, rfl, rfl, rfl, hblocks, ht⟩

theorem mem_tables_seat {tableId t : String} {now : Time} {r : Reservation}
    (h : t ∈ (r.seat tableId now).tables) : t ∈ r.tables ∨ t = tableId ∧ tableId ∉ r.tables := by
  unfold Reservation.seat at h
  by_cases hmem : tableId ∈ r.tables
  · simp only [if_pos hmem] at h
    exact .inl h
  · simp only [if_neg hmem, List.mem_append, List.mem_singleton] at h
    exact h.imp_right fun h => ⟨h, hmem⟩

theorem seat_keeps (id' : ℕ) (tableId : Option String) (now : Time) :
    (seat user outletId id' tableId now).Keeps bookingTerms.toDiscipline Admits := by
  unfold seat
  refine (keeps_assertOutlet user outletId).bind fun _ =>
    (keeps_atomically fun L K _ hK => ?_).bind fun _ => keeps_pure _
  simp only [seatTx, assertTableFree, Discipline.wp_bind, Discipline.wp_acquire]
  refine wp_lockReservation hK fun r hid htenant houtlet hr => wp_check fun hstatus => ?_
  subst hid houtlet
  refine wp_require fun target _ => ?_
  refine wp_query_any (hr.add _) fun _ => wp_check fun _ => ?_
  refine wp_query_any (hr.add _) fun _ => wp_check fun _ => ?_
  rw [Discipline.wp_update, Discipline.wp_pure]
  refine ⟨_, Commits.to fun s n hs _ hKs => ?_⟩
  obtain ⟨⟨-, hfind⟩, hadmits⟩ := hKs
  have hblocks : r.Blocks := by
    rcases hstatus with h | h <;> simp [Reservation.Blocks, h, blockingReservationStatuses]
  refine keeping_updateReservation hs _ hfind (.inr (.inl rfl)) fun _ t ht => ?_
  rcases mem_tables_seat ht with ht | ⟨rfl, hnot⟩
  · exact .inl ⟨rfl, rfl, rfl, rfl, rfl, hblocks, ht⟩
  · exact .inr ⟨.inl rfl, hadmits r (KeyedTable.find?_eq_some.mp hfind).1 rfl hnot⟩

theorem setOrders_keeps (orders : List TableOrder) :
    (setOrders orders).Keeps bookingTerms.toDiscipline Admits := by
  refine keeps_atomically fun L K _ _ => ?_
  rw [Discipline.wp_update]
  refine ⟨_, Commits.to fun s n hs _ _ => ⟨⟨hs.fresh, hs.single⟩, ?_⟩⟩
  have hstep := BookingStep.refl L s
  exact ⟨hstep.rows, hstep.tables⟩

theorem booking_kept (r : ReservationRequest) : bookingTerms.Kept r.run.run := by
  refine Terms.kept_of_keeps ?_ fun _ _ => trivial
  cases r with
  | create user outletId input => exact create_keeps user outletId input
  | update user outletId id input => exact update_keeps user outletId id input
  | setStatus user outletId id status => exact setStatus_keeps user outletId id status
  | seat user outletId id tableId now => exact seat_keeps user outletId id tableId now
  | setOrders orders => exact setOrders_keeps orders

end Methods

/-! ### All interleavings -/

theorem sound_init {db : ReservationDb} {n : ℕ} (h : db.reservations = .empty) : Sound db n := by
  have hnone : ∀ r, r ∉ db.reservations := by
    rw [h]
    exact KeyedTable.notMem_empty
  exact ⟨fun r hr => absurd hr (hnone r), fun r hr => absurd hr (hnone r)⟩

/-- In every run in which no party sits down at a table that another reservation of the outlet
holds at the time, unless it is one of its own: no table is booked twice. -/
theorem no_double_booking {w : ReservationWorld}
    (h : reservations.Reach (World.Admits Admits) w) : NoDoubleBooking w.db :=
  noDoubleBooking_iff.mpr
    (Terms.holds_of_reach (T := bookingTerms) booking_kept (fun _ _ h => sound_init h) h).inv.single

/-- An outlet with two tables and no reservations. -/
def twoTables : ReservationDb where
  reservations := .empty
  diningTables := ⟨[⟨"t1", "t", "o", "T1"⟩, ⟨"t2", "t", "o", "T2"⟩], by decide⟩
  customers := []
  orders := []

def host : AuthUser := ⟨"u", "t", ["o"]⟩

/-- A party books a table for an hour. -/
def bookFor (guestName tableId : String) : ReservationRequest :=
  .create host "o" ⟨guestName, "9800000000", 2, 0, ⟨60, by decide⟩, [tableId], none, .phone⟩

/-- Two parties book a table each for the same hour, and one of them is seated. -/
def seatRun (tableId : Option String) : List (WorldAction ReservationRequest Empty) :=
  .start 0 (bookFor "Asha" "t1") :: .start 1 (bookFor "Ravi" "t2") :: WorldAction.steps 0 12 ++
    WorldAction.steps 1 12 ++ .start 0 (.seat host "o" 1 tableId 0) :: WorldAction.steps 0 12

/-- Who is seated at a table that is not its own can double book it. -/
theorem not_no_double_booking : ¬∀ w, reservations.Reachable w → NoDoubleBooking w.db := by
  intro h
  have hreach := Machine.reachable_run (seatRun (some "t2")) (.init ⟨rfl, rfl, rfl⟩ :
    reservations.Reachable (.atRest twoTables 1))
  have hsingle := h _ hreach
  revert hsingle
  decide +kernel

/-- A party is seated at its own table. -/
theorem no_double_booking_seatRun :
    let w := reservations.run (.atRest twoTables 1) (seatRun none)
    w.db.reservations.rows.map (fun r => (r.status, r.tables)) =
      [(.seated, ["t1"]), (.booked, ["t2"])] ∧ NoDoubleBooking w.db :=
  ⟨by decide +kernel, no_double_booking (Machine.reach_run _ (.init ⟨rfl, rfl, rfl⟩)
    (by decide +kernel))⟩

end StelloKitchens.Reservations
