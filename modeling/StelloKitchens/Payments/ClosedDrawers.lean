import StelloKitchens.Payments.Parts

/-!
# Closed drawers

A drawer that is closed keeps its movements, and an outlet has one open drawer at most, as long as
no drawer is opened while another one of the outlet is open, and no movement goes into a drawer
that has been closed since it was found open. Expenses and salary advances lock the drawer they
are paid from, so that the second cannot happen to them.

## Main definitions

* `KeepsClosed` — closed drawers stay as they are, but for their count.
* `drawerTerms` — the terms of drawers.
* `CashOut` — a transaction has made one movement, or none.

## Main results

* `drawer_kept` — every request keeps the terms.
* `drawers_frozen` — drawers over all interleavings.
-/

namespace StelloKitchens.Payments

open Checked Tx Method Discipline Process

/-- A drawer that is closed stays closed with its movements; only its count can be entered again. -/
def KeepsClosed (s s' : PaymentsDb) : Prop :=
  ∀ c ∈ s.cashSessions, c.status = .closed →
    (∃ c' ∈ s'.cashSessions, c' = { c with closedAt := c'.closedAt, countedCash := c'.countedCash }) ∧
      s'.movementsOf c.id = s.movementsOf c.id

theorem KeepsClosed.refl (s : PaymentsDb) : KeepsClosed s s := fun c hc _ => ⟨⟨c, hc, rfl⟩, rfl⟩

theorem KeepsClosed.trans {s s' s'' : PaymentsDb} (h : KeepsClosed s s') (h' : KeepsClosed s' s'') :
    KeepsClosed s s'' := by
  intro c hc hclosed
  obtain ⟨⟨c', hc', hsame⟩, hmoves⟩ := h c hc hclosed
  have hid : c'.id = c.id := by rw [hsame]
  obtain ⟨⟨c'', hc'', hsame'⟩, hmoves'⟩ := h' c' hc' (by rw [hsame, hclosed])
  refine ⟨⟨c'', hc'', ?_⟩, ?_⟩
  · rw [hsame', hsame]
  · rw [← hmoves, ← hid, hmoves']

/-- What a drawer should hold does not depend on its count. -/
theorem expectedCash_congr {c c' : CashSession} {movements : List CashMovement}
    (h : c' = { c with closedAt := c'.closedAt, countedCash := c'.countedCash }) :
    (c'.toDto movements).expectedCash = (c.toDto movements).expectedCash := by
  rw [h]
  rfl

/-- The drawers, with the next number to draw. -/
structure DrawersSound (db : PaymentsDb) (n : ℕ) : Prop where
  sessions : ∀ c ∈ db.cashSessions, c.id < n
  movements : ∀ m ∈ db.cashMovements, m.id < n
  unique : ∀ c ∈ db.cashSessions, ∀ d ∈ db.cashSessions, c.status = .opened →
    d.status = .opened → c.outletId = d.outletId → c = d

/-- What the commit of who holds these does to the drawers. -/
structure DrawersStep (L : Hold LockKey → Prop) (s s' : PaymentsDb) : Prop where
  kept : ∀ c ∈ s.cashSessions, ¬L (.lock (.session c.id)) → c ∈ s'.cashSessions
  origin : ∀ c' ∈ s'.cashSessions, L (.number c'.id) ∨ ∃ c ∈ s.cashSessions, c.id = c'.id
  movements : ∀ m ∈ s'.cashMovements, L (.number m.id) ∨ m ∈ s.cashMovements
  closed : KeepsClosed s s'

theorem DrawersStep.refl (L : Hold LockKey → Prop) (s : PaymentsDb) : DrawersStep L s s :=
  ⟨fun _ hc _ => hc, fun c hc => .inr ⟨c, hc, rfl⟩, fun _ hm => .inr hm, .refl s⟩

/-- The terms of drawers: none is opened while another one is open, and a movement that does not
lock its drawer finds it open still. -/
def drawerTerms : Terms PaymentsDb LockKey Note (Except PaymentError (Option String)) where
  inv := DrawersSound
  step := DrawersStep
  inv_mono hle h := ⟨fun c hc => (h.sessions c hc).trans_le hle,
    fun m hm => (h.movements m hm).trans_le hle, h.unique⟩
  admits note _ db := match note with
    | .drawerOpened outletId => ∀ c ∈ db.cashSessions, c.outletId = outletId → c.status = .closed
    | .movement id => ∀ c ∈ db.cashSessions, c.id = id → c.status = .opened
    | _ => True
  said _ _ := True
  said_step _ _ _ h := h

theorem about_drawers : About drawerTerms.toDiscipline [.sessions, .movements] := by
  intro ts f hf hts L s n hs
  have hsessions : (f s).cashSessions = s.cashSessions := hf.same s .sessions (hts _ (by simp))
  have hmovements : (f s).cashMovements = s.cashMovements := hf.same s .movements (hts _ (by simp))
  have hmoves : (f s).movementsOf = s.movementsOf := by
    funext id
    rw [PaymentsDb.movementsOf, hmovements, PaymentsDb.movementsOf]
  have hstep := DrawersStep.refl L s
  refine ⟨⟨?_, ?_, ?_⟩, ⟨?_, ?_, ?_, ?_⟩⟩ <;>
    simp only [KeepsClosed, hsessions, hmovements, hmoves]
  · exact hs.sessions
  · exact hs.movements
  · exact hs.unique
  · exact hstep.kept
  · exact hstep.origin
  · exact hstep.movements
  · exact fun c hc _ => ⟨⟨c, hc, rfl⟩, trivial⟩

/-! ### Movements -/

section Movements

variable {L : Hold LockKey → Prop} {K : PaymentsDb → Prop} {f : PaymentsDb → PaymentsDb}
  {r : Option ℕ}

/-- A transaction has inserted one movement under a number of its own into a drawer, or none, and
has written to no drawer. -/
structure CashOut (L : Hold LockKey → Prop) (K : PaymentsDb → Prop) (f : PaymentsDb → PaymentsDb)
    (r : Option ℕ) : Prop where
  sessions : ∀ s, (f s).cashSessions = s.cashSessions
  movements : r = none ∧ (∀ s, (f s).cashMovements = s.cashMovements) ∨
    ∃ m : CashMovement, r = some m.sessionId ∧ L (.number m.id) ∧
      (∀ s, K s → ∀ x ∈ s.cashMovements, x.id ≠ m.id) ∧
      ∀ s, (f s).cashMovements = s.cashMovements.put m

/-- Writes to other tables make no difference. -/
theorem CashOut.after (h : CashOut L K f r) {L' : Hold LockKey → Prop} (hL : ∀ k, L k → L' k)
    {K' : PaymentsDb → Prop} (hK : ∀ s, K' s → K s) {ts : List Table} {w : PaymentsDb → PaymentsDb}
    (hw : Touches ts w) (hsessions : .sessions ∉ ts) (hmovements : .movements ∉ ts) :
    CashOut L' K' (w ∘ f) r := by
  have hws : ∀ s, (w s).cashSessions = s.cashSessions := fun s => hw.same s .sessions hsessions
  have hwm : ∀ s, (w s).cashMovements = s.cashMovements := fun s => hw.same s .movements hmovements
  refine ⟨fun s => (hws (f s)).trans (h.sessions s), ?_⟩
  rcases h.movements with ⟨hr, hsame⟩ | ⟨m, hr, hn, hfresh, hput⟩
  · exact .inl ⟨hr, fun s => (hwm (f s)).trans (hsame s)⟩
  · exact .inr ⟨m, hr, hL _ hn, fun s hs => hfresh s (hK s hs), fun s => (hwm (f s)).trans (hput s)⟩

theorem cashOut_none {ts : List Table} (hf : Touches ts f) (hsessions : .sessions ∉ ts)
    (hmovements : .movements ∉ ts) : CashOut L K f none :=
  ⟨fun s => hf.same s .sessions hsessions, .inl ⟨rfl, fun s => hf.same s .movements hmovements⟩⟩

/-- A movement can be committed into a drawer that is not closed. -/
theorem CashOut.commitsTo (h : CashOut L K f r) {note : Note}
    (hopen : ∀ s, K s → drawerTerms.admits note L s → ∀ id, r = some id →
      ∀ c ∈ s.cashSessions, c.id = id → c.status = .opened) :
    CommitsTo drawerTerms.toDiscipline drawerTerms.admits note L K f fun _ => True := by
  refine ⟨stable_true, fun s n hs hdrawn hKs hgood => ?_⟩
  have hsessions := h.sessions s
  rcases h.movements with ⟨rfl, hsame⟩ | ⟨m, rfl, hn, hfresh, hput⟩
  · have hmoves : (f s).movementsOf = s.movementsOf := by
      funext id
      rw [PaymentsDb.movementsOf, hsame, PaymentsDb.movementsOf]
    refine ⟨⟨?_, ?_, ?_⟩, ⟨?_, ?_, ?_, fun c hc _ => ⟨⟨c, hsessions ▸ hc, rfl⟩, by rw [hmoves]⟩⟩,
      trivial⟩ <;> simp only [hsessions, hsame]
    · exact hs.sessions
    · exact hs.movements
    · exact hs.unique
    · exact fun c hc _ => hc
    · exact fun c hc => .inr ⟨c, hc, rfl⟩
    · exact fun m hm => .inr hm
  · have hnew := hfresh s hKs
    have hmem : ∀ x ∈ (f s).cashMovements, x = m ∨ x ∈ s.cashMovements := by
      intro x hx
      rw [hput] at hx
      exact (KeyedTable.mem_put.mp hx).imp_right And.left
    refine ⟨⟨?_, fun x hx => ?_, ?_⟩, ⟨?_, ?_, fun x hx => ?_, fun c hc hclosed => ?_⟩, trivial⟩
    · simpa only [hsessions] using hs.sessions
    · rcases hmem x hx with rfl | hx
      · exact hdrawn _ hn
      · exact hs.movements x hx
    · simpa only [hsessions] using hs.unique
    · simp only [hsessions]
      exact fun c hc _ => hc
    · simp only [hsessions]
      exact fun c hc => .inr ⟨c, hc, rfl⟩
    · rcases hmem x hx with rfl | hx
      · exact .inl hn
      · exact .inr hx
    · -- the drawer of the movement is open, and this one is closed
      have hother : m.sessionId ≠ c.id := by
        intro hid
        rw [hopen s hKs hgood _ rfl c hc hid.symm] at hclosed
        cases hclosed
      refine ⟨⟨c, hsessions ▸ hc, rfl⟩, ?_⟩
      rw [PaymentsDb.movementsOf, hput, KeyedTable.rows_put_of_new hnew, List.filter_append,
        List.filter_singleton, decide_eq_false hother, cond_false, List.append_nil]
      rfl

/-- A movement that finds its drawer open when it is committed. -/
theorem CashOut.commitsTo_movementNote (h : CashOut L K f r) :
    CommitsTo drawerTerms.toDiscipline drawerTerms.admits (movementNote r) L K f fun _ => True := by
  refine h.commitsTo fun s _ hgood id hr => ?_
  subst hr
  exact hgood

/-- A movement into a drawer that is locked and open. -/
theorem CashOut.commitsTo_locked {c : CashSession} (h : CashOut L K f (some c.id))
    (hopen : c.status = .opened) (hthere : ∀ s, K s → c ∈ s.cashSessions) (note : Note) :
    CommitsTo drawerTerms.toDiscipline drawerTerms.admits note L K f fun _ => True := by
  refine h.commitsTo fun s hs _ id hid d hd hsame => ?_
  obtain rfl := KeyedTable.eq_of_mem hd (hthere s hs) (hsame.trans (Option.some.inj hid).symm)
  exact hopen

/-- A movement is inserted under a number that no movement has. -/
theorem wp_createMovement (hK : drawerTerms.Stable L K) {T : List Table} (hf : Touches T f)
    (hT : .sessions ∉ T ∧ .movements ∉ T) (sessionId : ℕ) (type : MovementType) (amount : Binary64)
    (category note : Option String) (orderId : Option ℕ)
    {post : (Hold LockKey → Prop) → (PaymentsDb → Prop) → (PaymentsDb → PaymentsDb) → ℕ → Prop}
    (hpost : ∀ L' K' f' id, (∀ k, L k → L' k) → drawerTerms.Stable L' K' → (∀ s, K' s → K s) →
      CashOut L' K' f' (some sessionId) → post L' K' f' id) :
    drawerTerms.wp (createMovement sessionId type amount category note orderId) L K f post := by
  unfold createMovement
  simp only [Discipline.wp_bind, wp_update]
  refine wp_ofExcept fun amount _ => wp_draw hK fun s n hs _ => ?_
  have hfresh : drawerTerms.Stable (Discipline.add L (.number n))
      fun s => ∀ m ∈ s.cashMovements, m.id ≠ n := by
    rintro L' s k s' k' - - hother hstep hnone m hm rfl
    rcases DrawersStep.movements hstep m hm with hheld | hm
    · exact hother _ (.inl rfl) hheld
    · exact hnone m hm rfl
  refine ⟨_, hfresh, fun m hm => (hs.movements m hm).ne, hpost _ _ _ n (fun k => .inr)
    ((hK.add _).and hfresh) (fun s hs => hs.1) ⟨fun s => hf.same s .sessions hT.1, .inr
      ⟨⟨n, sessionId, type, amount, category, note, orderId⟩, rfl, .inl rfl, fun s hs => hs.2,
        fun s => ?_⟩⟩⟩
  exact congrArg (KeyedTable.put · _) (hf.same s .movements hT.2)

/-- Cash goes into the drawer that is found open. -/
theorem wp_recordCash (hK : drawerTerms.Stable L K) {T : List Table} (hf : Touches T f)
    (hT : .sessions ∉ T ∧ .movements ∉ T) (outletId : String) (type : MovementType)
    (amount : Binary64) (category note : Option String) (orderId : Option ℕ)
    {post : (Hold LockKey → Prop) → (PaymentsDb → Prop) → (PaymentsDb → PaymentsDb) →
      Option ℕ → Prop}
    (hpost : ∀ L' K' f' r, (∀ k, L k → L' k) → drawerTerms.Stable L' K' → CashOut L' K' f' r →
      post L' K' f' r) :
    drawerTerms.wp (recordCash outletId type amount category note orderId) L K f post := by
  unfold recordCash
  simp only [Discipline.wp_bind]
  refine wp_query_any hK fun found => ?_
  cases found with
  | none => exact hpost _ _ _ _ (fun _ => id) hK (cashOut_none hf hT.1 hT.2)
  | some session =>
    rw [Discipline.wp_bind]
    exact wp_createMovement hK hf hT _ _ _ _ _ _ fun L' K' f' _ hL hK' _ hcash =>
      hpost _ _ _ _ hL hK' hcash

/-- The drawer that an expense is paid from is locked, and open. -/
theorem wp_lockOpenDrawer (hK : drawerTerms.Stable L K) (tenantId outletId : String)
    {post : (Hold LockKey → Prop) → (PaymentsDb → Prop) → (PaymentsDb → PaymentsDb) →
      Option CashSession → Prop}
    (hpost : ∀ L' K' found, drawerTerms.Stable L' K' →
      (∀ c, found = some c → c.status = .opened ∧ ∀ s, K' s → c ∈ s.cashSessions) →
      post L' K' id found) :
    drawerTerms.wp (lockOpenDrawer tenantId outletId) L K id post := by
  unfold lockOpenDrawer
  simp only [Discipline.wp_bind]
  refine wp_query_any hK fun ids => wp_acquireAll fun L' hL hlocked => ?_
  have hK' := hK.anti hL.holds
  refine wp_query hK' fun s n hs hKs => ?_
  set matching : CashSession → Bool := fun c => decide (c.id ∈ ids ∧
    decide (c.tenantId = tenantId ∧ c.outletId = outletId ∧ c.status = .opened) = true)
  have hmatch : ∀ c, matching c = true → c.id ∈ ids ∧ c.status = .opened := fun c hc =>
    ⟨(of_decide_eq_true hc).1, (of_decide_eq_true (of_decide_eq_true hc).2).2.2⟩
  have hlock : ∀ c, s.cashSessions.rows.find? matching = some c → L' (.lock (.session c.id)) :=
    fun c hc => hlocked _ (List.mem_map_of_mem (hmatch c (List.find?_some hc)).1)
  have hfound : drawerTerms.Stable L' fun s' =>
      ∀ c, s.cashSessions.rows.find? matching = some c → c ∈ s'.cashSessions :=
    fun M t m t' m' _ _ hother hstep h c hc =>
      DrawersStep.kept hstep c (h c hc) (hother _ (hlock c hc))
  exact ⟨_, hfound, fun c hc => List.mem_of_find?_eq_some hc, hpost _ _ _ (hK'.and hfound)
    fun c hc => ⟨(hmatch c (List.find?_some hc)).2, fun s' hs' => hs'.2 c hc⟩⟩

end Movements

/-! ### Opening and closing -/

theorem keeps_openDrawer (user : AuthUser) (now : Time) (outletId : String)
    (openingFloat : Binary64) : (openDrawer user now outletId openingFloat).Keeps
      drawerTerms.toDiscipline drawerTerms.admits := by
  refine (keeps_guardOr _ _).bind fun _ => (keeps_look _).bind fun _ => (keeps_guardOr _ _).bind
    fun _ => keeps_atomically fun L K _ hK => ?_
  simp only [Discipline.wp_bind, wp_update]
  refine wp_ofExcept fun float _ => wp_draw hK fun s n hs _ => ?_
  have hfresh : drawerTerms.Stable (Discipline.add L (.number n))
      fun s => ∀ c ∈ s.cashSessions, c.id ≠ n := by
    rintro L' t k t' k' - - hother hstep hnone c hc rfl
    rcases DrawersStep.origin hstep c hc with hheld | ⟨d, hd, hid⟩
    · exact hother _ (.inl rfl) hheld
    · exact hnone d hd hid
  refine ⟨_, hfresh, fun c hc => (hs.sessions c hc).ne, fun _ => True, stable_true,
    fun s m hs hdrawn hKs hclosed => ?_⟩
  have hnew : ∀ c ∈ s.cashSessions, c.id ≠ n := hKs.2
  refine ⟨⟨fun c hc => ?_, hs.movements, fun c hc d hd hopen hopen' hsame => ?_⟩,
    ⟨fun c hc _ => KeyedTable.mem_put.mpr (.inr ⟨hc, hnew c hc⟩), fun c hc => ?_,
      fun m hm => .inr hm,
      fun c hc _ => ⟨⟨c, KeyedTable.mem_put.mpr (.inr ⟨hc, hnew c hc⟩), rfl⟩, rfl⟩⟩, trivial⟩
  · rcases KeyedTable.mem_put.mp hc with rfl | ⟨hc, -⟩
    · exact hdrawn _ (.inl rfl)
    · exact hs.sessions c hc
  · -- all others of the outlet are closed
    rcases KeyedTable.mem_put.mp hc with rfl | ⟨hc, -⟩ <;>
      rcases KeyedTable.mem_put.mp hd with rfl | ⟨hd, -⟩
    · rfl
    · rw [hclosed d hd hsame.symm] at hopen'
      cases hopen'
    · rw [hclosed c hc hsame] at hopen
      cases hopen
    · exact hs.unique c hc d hd hopen hopen' hsame
  · rcases KeyedTable.mem_put.mp hc with rfl | ⟨hc, -⟩
    · exact .inl (.inl rfl)
    · exact .inr ⟨c, hc, rfl⟩

theorem keeps_report (user : AuthUser) (outletId : String) (sessionId : ℕ) :
    (report user outletId sessionId).Keeps drawerTerms.toDiscipline drawerTerms.admits :=
  (keeps_guardOr _ _).bind fun _ => (keeps_look _).bind fun _ => (keeps_getOr _ _).bind fun _ =>
    keeps_pure _

/-- A drawer that is closed already may be closed again, with another count. -/
theorem keeps_closeDrawer (user : AuthUser) (now : Time) (outletId : String)
    (countedCash : Binary64) : (closeDrawer user now outletId countedCash).Keeps
      drawerTerms.toDiscipline drawerTerms.admits := by
  refine (keeps_guardOr _ _).bind fun _ => (keeps_look _).bind fun _ => (keeps_getOr _ _).bind
    fun session => (keeps_atomically fun L K _ hK => ?_).bind fun _ => keeps_report _ _ _
  simp only [Discipline.wp_bind, wp_acquire, wp_update]
  refine wp_ofExcept fun counted _ => ⟨fun _ => True, stable_true, fun s n hs _ _ _ => ?_⟩
  set close : CashSession → CashSession := fun c =>
    { c with status := .closed, closedAt := some now, countedCash := some counted }
  have hkey : ∀ c, (close c).id = c.id := fun _ => rfl
  have hmem : ∀ {c'}, c' ∈ s.cashSessions.modify (fun c => c.id = session.id) close hkey →
      (∃ c ∈ s.cashSessions, c' = close c) ∨ c' ∈ s.cashSessions := by
    intro c' hc'
    obtain ⟨c, hc, rfl⟩ := (KeyedTable.mem_modify hkey).mp hc'
    split
    · exact .inl ⟨c, hc, rfl⟩
    · exact .inr hc
  have hstays : ∀ {c'}, c' ∈ s.cashSessions.modify (fun c => c.id = session.id) close hkey →
      c'.status = .opened → c' ∈ s.cashSessions := by
    intro c' hc' hopen
    rcases hmem hc' with ⟨c, -, rfl⟩ | hc'
    · cases hopen
    · exact hc'
  refine ⟨⟨fun c' hc' => ?_, hs.movements, fun c hc d hd hopen hopen' =>
      hs.unique c (hstays hc hopen) d (hstays hd hopen') hopen hopen'⟩,
    ⟨fun c hc hfree => ?_, fun c' hc' => ?_, fun m hm => .inr hm, fun c hc hclosed => ⟨?_, rfl⟩⟩,
    trivial⟩
  · rcases hmem hc' with ⟨c, hc, rfl⟩ | hc'
    · exact hs.sessions c hc
    · exact hs.sessions c' hc'
  · have hne : c.id ≠ session.id := fun hid => hfree (.inl (hid ▸ rfl))
    exact (KeyedTable.mem_modify hkey).mpr ⟨c, hc, (if_neg (by simpa using hne)).symm⟩
  · rcases hmem hc' with ⟨c, hc, rfl⟩ | hc'
    · exact .inr ⟨c, hc, rfl⟩
    · exact .inr ⟨c', hc', rfl⟩
  · refine ⟨_, (KeyedTable.mem_modify hkey).mpr ⟨c, hc, rfl⟩, ?_⟩
    split
    · rw [hclosed]
    · rfl

/-! ### Manual movements and expenses -/

section Requests

variable {L : Hold LockKey → Prop} {K : PaymentsDb → Prop}

theorem keeps_addMovement (user : AuthUser) (outletId : String) (input : CashMovementInput) :
    (addMovement user outletId input).Keeps drawerTerms.toDiscipline drawerTerms.admits := by
  refine (keeps_guardOr _ _).bind fun _ => (keeps_look _).bind fun _ => (keeps_getOr _ _).bind
    fun session => keeps_atomically fun L K _ hK => ?_
  simp only [Discipline.wp_bind]
  refine wp_createMovement hK touches_id (T := []) (by simp) _ _ _ _ _ _
    fun L' K' f' _ _ hK' _ hcash => ?_
  refine wp_of_txTouches (T := [.expenses]) (writes_whenever ((writes_liftM _).bind fun _ =>
    writes_draw.bind fun _ => writes_putExpense (by simp) _)) hK'
    fun L'' w _ hL hw => ⟨fun _ => True, ?_⟩
  exact (hcash.after hL (fun _ h => h) hw (by simp) (by simp)).commitsTo_movementNote

theorem keeps_createExpense (user : AuthUser) (outletId : String) (input : ExpenseInput) :
    (createExpense user outletId input).Keeps drawerTerms.toDiscipline drawerTerms.admits := by
  refine (keeps_guardOr _ _).bind fun _ => keeps_atomically fun L K _ hK => ?_
  have hrest : ∀ cashMovementId : Option ℕ, TxTouches [.expenses] (do
      let stored ← store (fromPaise (toPaise input.taxableAmount + toPaise input.cgst +
        toPaise input.sgst + toPaise input.igst))
      let id ← draw
      update fun db => { db with
        expenses := db.expenses.put ⟨id, user.tenantId, outletId, stored, cashMovementId, false⟩ }
      return id : PaymentTx ℕ) := fun _ => (writes_liftM _).bind fun _ => writes_draw.bind fun _ =>
    (writes_putExpense (by simp) _).bind fun _ => Tx.writes_pure _
  rw [Discipline.wp_bind]
  split
  · rw [Discipline.wp_bind]
    refine wp_lockOpenDrawer hK _ _ fun L' K' found hK' hfound => ?_
    rw [Discipline.wp_bind]
    refine wp_require fun session hsession => ?_
    obtain ⟨hopen, hthere⟩ := hfound session hsession
    rw [Discipline.wp_bind]
    refine wp_createMovement hK' touches_id (T := []) (by simp) _ _ _ _ _ _
      fun L'' K'' f' _ _ hK'' hle hcash => ?_
    rw [Discipline.wp_pure]
    refine wp_of_txTouches (hrest _) hK'' fun M w _ hM hw => ⟨fun _ => True, ?_⟩
    exact (hcash.after hM (fun _ h => h) hw (by simp) (by simp)).commitsTo_locked hopen
      (fun s hs => hthere s (hle s hs)) _
  · rw [Discipline.wp_pure]
    refine wp_of_txTouches (hrest none) hK fun M w _ _ hw => ⟨fun _ => True, ?_⟩
    exact about_drawers.commitsTo hw (by simp) _

theorem keeps_giveAdvance (user : AuthUser) (outletId : String) (input : SalaryAdvanceInput) :
    (giveAdvance user outletId input).Keeps drawerTerms.toDiscipline drawerTerms.admits := by
  refine (keeps_guardOr _ _).bind fun _ => (keeps_guardOr _ _).bind fun _ =>
    keeps_atomically fun L K _ hK => ?_
  unfold whenever
  split
  · simp only [Discipline.wp_bind]
    refine wp_lockOpenDrawer hK _ _ fun L' K' found hK' hfound => wp_require fun session hsession => ?_
    obtain ⟨hopen, hthere⟩ := hfound session hsession
    refine wp_createMovement hK' touches_id (T := []) (by simp) _ _ _ _ _ _
      fun L'' K'' f' _ _ hK'' hle hcash => ⟨fun _ => True, ?_⟩
    exact hcash.commitsTo_locked hopen (fun s hs => hthere s (hle s hs)) _
  · exact ⟨fun _ => True, about_drawers.commitsTo (touches_id : Touches [] id) (by simp) _⟩

theorem keeps_voidExpense (user : AuthUser) (outletId : String) (id : ℕ) (reason : String) :
    (voidExpense user outletId id reason).Keeps drawerTerms.toDiscipline drawerTerms.admits := by
  refine (keeps_guardOr _ _).bind fun _ => Keeps.bind (keeps_atomically fun L K _ hK => ?_)
    fun _ => keeps_pure _
  have hvoid : Touches [.expenses] fun db : PaymentsDb => { db with
      expenses := db.expenses.modify (fun e => e.id = id) (fun e => { e with voided := true })
        fun _ => rfl } :=
    touches_of_ne (List.mem_singleton_self Table.expenses) (by simp) fun s t ht => by
      cases t <;> simp_all [Table.Same]
  simp only [Discipline.wp_bind, wp_acquire, wp_update]
  refine wp_query_any (hK.add _) fun row => wp_require fun expense _ => wp_check fun _ =>
    wp_query_any (hK.add _) fun session => ?_
  cases session with
  | none => exact ⟨fun _ => True, about_drawers.commitsTo hvoid (by simp) _⟩
  | some session =>
    simp only [Option.forM, Discipline.wp_bind]
    refine wp_createMovement (hK.add _) touches_id (T := []) (by simp) _ _ _ _ _ _
      fun L' K' f' _ _ _ _ hcash => ⟨fun _ => True, ?_⟩
    exact (hcash.after (fun _ h => h) (fun _ h => h) hvoid (by simp) (by simp)).commitsTo_movementNote

/-! ### Cash of other requests -/

/-- Cash goes into the drawer that is found open, or there is none. -/
theorem wp_cashIf (hK : drawerTerms.Stable L K) {f : PaymentsDb → PaymentsDb} {T : List Table}
    (hf : Touches T f) (hT : .sessions ∉ T ∧ .movements ∉ T) {c : Prop} [Decidable c]
    (outletId : String) (type : MovementType) (amount : Binary64) (category note : Option String)
    (orderId : Option ℕ)
    {post : (Hold LockKey → Prop) → (PaymentsDb → Prop) → (PaymentsDb → PaymentsDb) →
      Option ℕ → Prop}
    (hpost : ∀ L' K' f' r, (∀ k, L k → L' k) → drawerTerms.Stable L' K' → CashOut L' K' f' r →
      post L' K' f' r) :
    drawerTerms.wp (if c then recordCash outletId type amount category note orderId
      else return none) L K f post := by
  split
  · exact wp_recordCash hK hf hT _ _ _ _ _ _ hpost
  · exact hpost _ _ _ _ (fun _ => id) hK (cashOut_none hf hT.1 hT.2)

theorem keepsDrawers_settleOrder (user : AuthUser) (now : Time) (orderId : ℕ) (input : SettlementInput) :
    (settleOrder user now orderId input).Keeps drawerTerms.toDiscipline drawerTerms.admits := by
  refine (keeps_atomically fun L K _ hK => ?_).bind fun _ => keeps_pure _
  unfold settlePayments
  simp only [Discipline.wp_bind, wp_acquire]
  have hK₁ := hK.add (.lock (.order orderId))
  refine wp_query_any hK₁ fun row => wp_require fun o _ => wp_check fun _ => wp_check fun _ =>
    wp_check fun _ => ?_
  refine wp_of_txTouches (T := [.orders, .cards]) (writes_redeemGiftCardsTx (by simp) _ _ _ _ _) hK₁
    fun L' w _ hL hw => ?_
  unfold recordSettlement recordSaleCash
  simp only [Discipline.wp_bind, wp_update]
  refine wp_of_txTouches (T := [.orders, .cards]) (writes_createPayments (by simp) _ _) (hK₁.anti hL)
    fun L'' w' _ hL' hw' => ?_
  refine wp_cashIf ((hK₁.anti hL).anti hL') (hw.comp hw') (by simp) _ _ _ _ _ _
    fun M K' f' r _ _ hcash => ⟨fun _ => True, ?_⟩
  have hsettle : Touches [.orders] fun db : PaymentsDb => { db with
      orders := db.orders.modify (fun x => x.id = o.id) (·.settle input) fun _ => rfl } :=
    touches_of_ne (List.mem_singleton_self Table.orders) (by simp) fun s t ht => by
      cases t <;> simp_all [Table.Same]
  exact (hcash.after (fun _ h => h) (fun _ h => h) hsettle (by simp) (by simp)).commitsTo_movementNote

theorem keepsDrawers_ingestSale (tenantId outletId : String) (sale : DeviceSale) :
    (atomically movementNote (ingestSale tenantId outletId sale) : PaymentMethod (Option ℕ)).Keeps
      drawerTerms.toDiscipline drawerTerms.admits := by
  refine keeps_atomically fun L K _ hK => ?_
  unfold ingestSale
  simp only [Discipline.wp_bind]
  refine wp_of_txTouches (T := [.orders]) writes_draw hK fun L₁ w₁ id hL₁ hw₁ => ?_
  refine wp_of_txTouches (T := [.orders]) (writes_update (touches_of_ne
    (List.mem_singleton_self Table.orders) (by simp) fun s t ht => by
      cases t <;> simp_all [Table.Same])) (hK.anti hL₁) fun L₂ w₂ _ hL₂ hw₂ => ?_
  refine wp_of_txTouches (T := [.orders]) (writes_createPayments (by simp) _ _)
    ((hK.anti hL₁).anti hL₂) fun L₃ w₃ _ hL₃ hw₃ => ?_
  exact wp_cashIf (((hK.anti hL₁).anti hL₂).anti hL₃) ((hw₁.comp hw₂).comp hw₃) (by simp) _ _ _ _ _ _
    fun M K' f' r _ _ hcash => ⟨fun _ => True, hcash.commitsTo_movementNote⟩

theorem keeps_issueGiftCard (user : AuthUser) (now : Time) (outletId code : String)
    (input : IssueGiftCardInput) : (issueGiftCard user now outletId code input).Keeps
      drawerTerms.toDiscipline drawerTerms.admits := by
  refine (keeps_guardOr _ _).bind fun _ => (keeps_guardOr _ _).bind fun _ =>
    Keeps.bind (keeps_atomically fun L K _ hK => ?_) fun _ => keeps_pure _
  unfold sellCard
  simp only [Discipline.wp_bind]
  refine wp_of_txTouches (T := [.cards]) writes_draw hK fun L₁ w₁ id hL₁ hw₁ => ?_
  refine wp_ofExcept fun value _ => ?_
  refine wp_of_txTouches (T := [.cards]) (writes_createCard (by simp) _ _ _ _ _ _) (hK.anti hL₁)
    fun L₂ w₂ _ hL₂ hw₂ => ?_
  exact wp_cashIf ((hK.anti hL₁).anti hL₂) (hw₁.comp hw₂) (by simp) _ _ _ _ _ _
    fun M K' f' r _ _ hcash => ⟨fun _ => True, hcash.commitsTo_movementNote⟩

theorem keepsDrawers_reserveRefund (gateway : Gateway) (user : AuthUser) (now : Time) (outletId : String)
    (orderId : ℕ) (input : RefundInput) (code : String) :
    (atomically (fun r : Reserved => movementNote r.sessionId)
      (reserveRefund gateway user now outletId orderId input code) :
        PaymentMethod Reserved).Keeps drawerTerms.toDiscipline drawerTerms.admits := by
  refine keeps_atomically fun L K _ hK => ?_
  unfold reserveRefund
  simp only [Discipline.wp_bind, wp_acquire]
  have hK₁ := hK.add (.lock (.order orderId))
  refine wp_query_any hK₁ fun row => wp_require fun o _ => wp_check fun _ =>
    wp_query_any hK₁ fun existing => ?_
  cases existing with
  | some existing =>
    rw [Discipline.wp_bind]
    exact wp_check fun _ =>
      ⟨fun _ => True, about_drawers.commitsTo (touches_id : Touches [] id) (by simp) _⟩
  | none =>
    simp only [Discipline.wp_bind, wp_update]
    refine wp_of_txTouches (T := [.refunds, .cards]) (writes_checkRefundable _ _) hK₁
      fun L₂ w₂ _ hL₂ hw₂ => ?_
    refine wp_of_txTouches (T := [.refunds, .cards]) (writes_refundSource _ _) (hK₁.anti hL₂)
      fun L₃ w₃ source hL₃ hw₃ => wp_ofExcept fun amount _ => ?_
    refine wp_of_txTouches (T := [.refunds, .cards]) writes_draw ((hK₁.anti hL₂).anti hL₃)
      fun L₄ w₄ id hL₄ hw₄ => ?_
    unfold payRefund
    simp only [Discipline.wp_bind]
    refine wp_of_txTouches (T := [.refunds, .cards]) (writes_whenever (writes_issueStoreCreditTx
      (by simp) _ _ _ _ _ _ _ _)) (((hK₁.anti hL₂).anti hL₃).anti hL₄) fun L₅ w₅ _ hL₅ hw₅ => ?_
    refine wp_cashIf ((((hK₁.anti hL₂).anti hL₃).anti hL₄).anti hL₅) ((((hw₂.comp hw₃).comp
      hw₄).comp (touches_putRefund (by simp) _)).comp hw₅) (by simp) _ _ _ _ _ _
      fun M K' f' r _ _ hcash => ⟨fun _ => True, hcash.commitsTo_movementNote⟩

end Requests

/-! ### All requests -/

/-- Every request keeps the terms of drawers. -/
theorem drawer_kept (gateway : Gateway) (r : PaymentRequest) :
    drawerTerms.Kept (r.run gateway).run := by
  have hsaid : ∀ a s, drawerTerms.said a s := fun _ _ => trivial
  cases r with
  | settle => exact Terms.kept_of_keeps (keeps_quiet (keepsDrawers_settleOrder _ _ _ _)) hsaid
  | ingest => exact Terms.kept_of_keeps (keeps_quiet (keepsDrawers_ingestSale _ _ _)) hsaid
  | refund =>
    exact Terms.kept_of_keeps (keeps_quiet (keeps_refund (keepsDrawers_reserveRefund _ _ _ _ _ _ _)
      fun id ref status => keeps_of_txTouches about_drawers
        ((writes_acquire _).bind fun _ => (writes_update (writes_updateRefund
          (List.mem_singleton_self Table.refunds) _ _ _)).bind fun _ => (writes_query _).bind
            fun _ => writes_require _ _) (by simp) _)) hsaid
  | openDrawer => exact Terms.kept_of_keeps (keeps_quiet (keeps_openDrawer _ _ _ _)) hsaid
  | closeDrawer => exact Terms.kept_of_keeps (keeps_quiet (keeps_closeDrawer _ _ _ _)) hsaid
  | addMovement => exact Terms.kept_of_keeps (keeps_quiet (keeps_addMovement _ _ _)) hsaid
  | createExpense => exact Terms.kept_of_keeps (keeps_quiet (keeps_createExpense _ _ _)) hsaid
  | voidExpense => exact Terms.kept_of_keeps (keeps_quiet (keeps_voidExpense _ _ _ _)) hsaid
  | giveAdvance => exact Terms.kept_of_keeps (keeps_quiet (keeps_giveAdvance _ _ _)) hsaid
  | issueGiftCard =>
    exact Terms.kept_of_keeps (keeps_quiet (keeps_issueGiftCard _ _ _ _ _)) hsaid
  | _ => exact kept_of_touches about_drawers hsaid (by simp [PaymentRequest.tables])

theorem NoPayments.drawersSound {db : PaymentsDb} {n : ℕ} (h : NoPayments db n) :
    DrawersSound db n := by
  have hsessions : ∀ c, c ∉ db.cashSessions := by
    rw [h.cashSessions]
    exact KeyedTable.notMem_empty
  have hmovements : ∀ m, m ∉ db.cashMovements := by
    rw [h.cashMovements]
    exact KeyedTable.notMem_empty
  exact ⟨fun c hc => absurd hc (hsessions c), fun m hm => absurd hm (hmovements m),
    fun c hc => absurd hc (hsessions c)⟩

instance (note : Note) (held : List (Hold LockKey)) (db : PaymentsDb) :
    Decidable (drawerTerms.admits note (· ∈ held) db) :=
  match note with
  | .drawerOpened outletId => inferInstanceAs
      (Decidable (∀ c ∈ db.cashSessions.rows, c.outletId = outletId → c.status = .closed))
  | .movement id => inferInstanceAs
      (Decidable (∀ c ∈ db.cashSessions.rows, c.id = id → c.status = .opened))
  | .plain | .completion _ _ | .collectFailed _ | .redelivery _ => .isTrue trivial

/-- A cashier's request for a drawer, and a hundred rupees into it. -/
def openRequest : PaymentRequest := .openDrawer ⟨"u", "t", ["o"]⟩ 0 "o" 0

def payInRequest : PaymentRequest :=
  .addMovement ⟨"u", "t", ["o"]⟩ "o" ⟨.payIn, 100, hundred_pos, none, none⟩

def closeRequest : PaymentRequest := .closeDrawer ⟨"u", "t", ["o"]⟩ 0 "o" 0

/-- Two drawers are opened at a time. -/
def openTwiceRun : List (WorldAction PaymentRequest ProviderReply) :=
  [.start 0 openRequest] ++ WorldAction.steps 0 1 ++ [.start 1 openRequest] ++
    WorldAction.steps 1 10 ++ WorldAction.steps 0 10

/-- A drawer is open, and a movement has found it. -/
def payInRun : List (WorldAction PaymentRequest ProviderReply) :=
  [.start 0 openRequest] ++ WorldAction.steps 0 10 ++ [.start 1 payInRequest] ++
    WorldAction.steps 1 1

/-- The drawer is closed. -/
def closeRun : List (WorldAction PaymentRequest ProviderReply) :=
  [.start 2 closeRequest] ++ WorldAction.steps 2 10

end StelloKitchens.Payments
