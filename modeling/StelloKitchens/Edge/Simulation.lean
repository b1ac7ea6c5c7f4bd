import StelloKitchens.Edge.LedgerInvariant

/-!
# The device and its ledger

Every operation of the device is, on its ledger, a sequence of effects, so the invariant of the
ledger holds in every reachable state. An answer is applied to the entries it was sent for, which
needs that these are still in the outbox when it comes: nothing takes them out in between.

## Main results

* `EdgeState.ownStep` — what an operation of the device's own does.
* `awaitingKept` — the entries of a request in flight stay in the outbox.
* `edgeEngine_simulated` — every operation of the device is a sequence of effects.
* `edgeEngine_inv` — the invariant of the ledger holds in every reachable state.
-/

namespace StelloKitchens

open Checked

/-! ### Operations of its own -/

/-- The action is no part of an exchange with the cloud. -/
def EdgeAction.isOwn : EdgeAction → Bool
  | .pushSend _ | .pushReply .. | .pushFail | .applyFeed _ | .restart => false
  | _ => true

/-- What a conflict says: its order, its kind and its message. -/
def DeviceConflict.says (x : DeviceConflict) : Uuid × EdgeConflictKind × String :=
  (x.clientId, x.kind, x.message)

/-- The action is a purge that removes the conflict. -/
def EdgeAction.drops (x : DeviceConflict) : EdgeAction → Bool
  | .purge now orderDays _ => x.acknowledgedAt.any (· < now - orderDays * dayMs)
  | _ => false

/-- What an operation of the device's own does to its outbox and its conflicts. -/
structure EdgeState.OwnStep (s : EdgeState) (a : EdgeAction) (t : EdgeState) : Prop where
  awaiting : t.awaiting = s.awaiting
  /-- An entry that is not accepted stays as it is. -/
  kept : ∀ x ∈ s.db.outbox, x.Kept → x ∈ t.db.outbox
  /-- A new entry is pending, and an order's was running. -/
  added : ∀ y ∈ t.db.outbox, y ∈ s.db.outbox ∨ y.status = .pending ∧
    ∀ c, y.key = .order c → ∃ r ∈ s.db.orders, r.clientId = c ∧ r.status = .opened
  conflicts : ∀ x ∈ s.db.conflicts, a.drops x = false → ∃ y ∈ t.db.conflicts, y.says = x.says

namespace EdgeState.OwnStep

variable {s t : EdgeState} {a : EdgeAction}

theorem of_outbox (hawait : t.awaiting = s.awaiting) (houtbox : t.db.outbox = s.db.outbox)
    (hconflicts : t.db.conflicts = s.db.conflicts) : s.OwnStep a t :=
  ⟨hawait, fun _ hx _ => houtbox ▸ hx, fun _ hy => .inl (houtbox ▸ hy),
    fun x hx _ => ⟨x, hconflicts ▸ hx, rfl⟩⟩

/-- An operation that queues an entry. -/
theorem of_enqueue (db : EdgeDb) {now : Time} {key : OutboxKey} {payload : List KotStatusLine}
    {issued : List Uuid} (hdb : db.outbox = s.db.outbox)
    (hconflicts : db.conflicts = s.db.conflicts)
    (hopen : ∀ c, key = .order c → ∃ r ∈ s.db.orders, r.clientId = c ∧ r.status = .opened) :
    s.OwnStep a { s with db := db.enqueue now key payload, issued := issued } := by
  have houtbox : (db.enqueue now key payload).outbox = (db.insertOutbox now key payload).outbox := by
    cases key <;> rfl
  have hsame : (db.enqueue now key payload).conflicts = s.db.conflicts := by
    rw [← hconflicts]
    cases key <;> rfl
  refine ⟨rfl, fun x hx _ => ?_, fun y hy => ?_, fun x hx _ => ⟨x, hsame ▸ hx, rfl⟩⟩
  · change x ∈ (db.enqueue now key payload).outbox
    rw [houtbox, EdgeDb.insertOutbox, KeyedTable.mem_upsert, hdb]
    by_cases hkey : x.key = key
    · left
      subst hkey
      rw [KeyedTable.find?_of_mem hx]
      rfl
    · exact .inr ⟨hx, hkey⟩
  · change y ∈ (db.enqueue now key payload).outbox at hy
    rw [houtbox, EdgeDb.insertOutbox, KeyedTable.mem_upsert, hdb] at hy
    rcases hy with rfl | ⟨hy, -⟩
    · cases hold : s.db.outbox.find? key with
      | none => exact .inr ⟨rfl, hopen⟩
      | some old => exact .inl (KeyedTable.find?_eq_some.mp hold).1
    · exact .inl hy

end EdgeState.OwnStep

/-- What an operation of the device's own does. -/
theorem EdgeState.ownStep (s : EdgeState) {a : EdgeAction} (ha : a.isOwn) :
    s.OwnStep a (s.step a) := by
  cases a with
  | create now c input =>
    simp only [EdgeState.step, EdgeState.drawing]
    split
    · rename_i db hdb
      obtain ⟨⟨order, db'⟩, hok, rfl⟩ := map_eq_ok.mp hdb
      obtain ⟨-, -, -, kots, -, -, -, -, rfl⟩ := EdgeDb.createOrder_spec hok
      split <;> exact .of_outbox rfl rfl rfl
    · exact .of_outbox rfl rfl rfl
  | addItems now c input =>
    simp only [EdgeState.step, EdgeState.commit]
    split
    · rename_i order db hdb
      obtain ⟨row, lines, kots, -, -, -, -, -, rfl⟩ := EdgeDb.addItems_spec hdb
      exact .of_outbox rfl rfl rfl
    · exact .of_outbox rfl rfl rfl
  | settle now c input =>
    simp only [EdgeState.step, EdgeState.commit]
    split
    · rename_i order db hdb
      obtain ⟨row, set, billNo, db₁, hrow, hopen, -, hdraw, rfl, rfl⟩ :=
        EdgeDb.settleOrder_spec hdb
      obtain ⟨hmem, rfl⟩ := KeyedTable.find?_eq_some.mp hrow
      obtain ⟨houtbox, hconflicts⟩ : (db₁.printedRef billNo).2.outbox = s.db.outbox ∧
          (db₁.printedRef billNo).2.conflicts = s.db.conflicts := by
        rcases EdgeDb.drawBillNo_spec hdraw with ⟨rfl, rfl⟩ | ⟨_, _, _, -, -, -, rfl, rfl⟩ <;>
          exact ⟨rfl, rfl⟩
      refine .of_enqueue ((db₁.printedRef billNo).2.save _) houtbox hconflicts
        fun c hc => ?_
      exact ⟨row, hmem, OutboxKey.order.inj hc, hopen⟩
    · exact .of_outbox rfl rfl rfl
  | cancel now c staffId reason =>
    simp only [EdgeState.step, EdgeState.commit]
    split
    · rename_i order db hdb
      obtain ⟨row, hrow, hopen, rfl, rfl⟩ := EdgeDb.cancelOrder_spec hdb
      obtain ⟨hmem, rfl⟩ := KeyedTable.find?_eq_some.mp hrow
      refine .of_enqueue ((s.db.save _).cancelTickets now _) rfl rfl fun c hc => ?_
      exact ⟨row, hmem, OutboxKey.order.inj hc, hopen⟩
    · exact .of_outbox rfl rfl rfl
  | advance now u kotId toStatus =>
    simp only [EdgeState.step, EdgeState.drawing]
    split
    · rename_i db hdb
      obtain ⟨kots, status, items, ⟨-, rfl⟩ | ⟨row, -, rfl⟩⟩ := EdgeDb.advanceTicket_spec hdb
      · split <;> exact .of_outbox rfl rfl rfl
      · split
        · exact .of_outbox rfl rfl rfl
        · unfold EdgeDb.saveBump
          dsimp only
          split
          · exact .of_enqueue (EdgeDb.save { s.db with kots := kots } _) rfl rfl
              fun _ h => nomatch h
          · exact .of_outbox rfl rfl rfl
    · exact .of_outbox rfl rfl rfl
  | purge now orderDays outboxDays =>
    refine ⟨rfl, fun x hx hkept => KeyedTable.mem_delete.mpr ⟨hx, ?_⟩,
      fun y hy => .inl (KeyedTable.mem_delete.mp hy).1, fun x hx hdrop => ⟨x, ?_, rfl⟩⟩
    · rcases hkept with h | h <;> simp [OutboxEntry.purgeable, h]
    · exact List.mem_filter.mpr ⟨hx, congrArg Bool.not hdrop⟩
  | bootstrap outlets outletId act =>
    simp only [EdgeState.step]
    split
    · rename_i db hdb
      simp only [EdgeDb.bootstrap, bind_eq_ok, pure_eq_ok] at hdb
      obtain ⟨target, -, rfl⟩ := hdb
      exact .of_outbox rfl rfl rfl
    · exact .of_outbox rfl rfl rfl
  | acknowledge now id staffId =>
    refine ⟨rfl, fun _ hx _ => hx, fun _ hy => .inl hy, fun x hx _ => ?_⟩
    refine ⟨_, List.mem_map.mpr ⟨x, hx, rfl⟩, ?_⟩
    split <;> rfl
  | pushSend now => cases ha
  | pushReply now random reply => cases ha
  | pushFail => cases ha
  | applyFeed feed => cases ha
  | restart => cases ha

/-! ### Requests in flight -/

/-- The outbox still has the row, and a purge would keep it. -/
def KeptInOutbox (outbox : KeyedTable OutboxEntry.key) (e : OutboxEntry) : Prop :=
  ∃ x ∈ outbox, x.id = e.id ∧ x.key = e.key ∧ x.payload = e.payload ∧ x.Kept

theorem KeptInOutbox.rejectMissing {db : EdgeDb} {due : List OutboxEntry} {e : OutboxEntry}
    (h : KeptInOutbox db.outbox e) : KeptInOutbox (db.rejectMissing due).outbox e := by
  obtain ⟨x, hx, hid, hkey, hpayload, hkept⟩ := h
  refine ⟨_, (KeyedTable.mem_modify OutboxEntry.key_missing).mpr ⟨x, hx, rfl⟩, ?_⟩
  split
  · exact ⟨hid, hkey, hpayload, .inr rfl⟩
  · exact ⟨hid, hkey, hpayload, hkept⟩

theorem mem_of_mem_dueEntries {db : EdgeDb} {now : Time} {e : OutboxEntry}
    (h : e ∈ db.dueEntries now) : e ∈ db.outbox ∧ e.status = .pending ∧ e.nextAttemptAt ≤ now := by
  have h := List.mem_filter.mp (List.mem_of_mem_take h)
  exact ⟨h.1, by simpa using h.2⟩

/-- Every entry in flight is still in the outbox. -/
def EdgeState.AwaitingKept (s : EdgeState) : Prop :=
  ∀ req ∈ s.awaiting, ∀ e ∈ req.due, KeptInOutbox s.db.outbox e

/-- The entries of a request stay in the outbox until it is answered or given up. -/
theorem awaitingKept_step (s : EdgeState) (a : EdgeAction) (h : s.AwaitingKept) :
    (s.step a).AwaitingKept := by
  have hnone : ∀ db, EdgeState.AwaitingKept { s with db := db, awaiting := none } := by
    intro db req hreq
    cases hreq
  by_cases ha : a.isOwn
  · have hown := s.ownStep ha
    intro req hreq e he
    rw [hown.awaiting] at hreq
    obtain ⟨x, hx, hid, hkey, hpayload, hkept⟩ := h req hreq e he
    exact ⟨x, hown.kept x hx hkept, hid, hkey, hpayload, hkept⟩
  cases a with
  | pushSend now =>
    simp only [EdgeState.step, EdgeState.send]
    split
    · exact h
    · intro req hreq e he
      rw [EdgeDb.pushSend] at hreq ⊢
      split at hreq
      · cases hreq
      · cases hreq
        obtain ⟨hmem, hpending, -⟩ := mem_of_mem_dueEntries he
        exact KeptInOutbox.rejectMissing ⟨e, hmem, rfl, rfl, rfl, .inl hpending⟩
  | pushReply now random reply =>
    simp only [EdgeState.step, EdgeState.receive]
    split
    · exact h
    · exact hnone _
  | pushFail => exact hnone _
  | applyFeed feed => exact h
  | restart => exact hnone _
  | _ => exact absurd rfl ha

theorem awaitingKept {s : EdgeState} (h : edgeEngine.Reachable s) : s.AwaitingKept := by
  refine Machine.invariant ?_ (fun s a _ ih _ => awaitingKept_step s a ih) h
  rintro s ⟨deviceId, rfl⟩ req hreq
  cases hreq

/-! ### An answer, result by result -/

namespace EdgeDb

/-- A property of the database that each result keeps is kept by an answer. -/
theorem applyReply_induction (P : EdgeDb → Prop) {db : EdgeDb} {now : Time}
    {random : ℕ → Binary64} {req : PushRequest} {reply : PushReply}
    (hskew : P (db.recordSkew now req.sentAt reply.serverTime))
    (hstep : ∀ db i r, ∀ e ∈ req.due, e.key.text = r.key → r ∈ reply.results → P db →
      P (db.applyResult now (random i) e r)) :
    P (db.applyReply now random req reply) := by
  unfold applyReply
  dsimp only
  generalize hres : reply.results.zipIdx = results
  have hmem : ∀ p ∈ results, p.1 ∈ reply.results := by
    intro p hp
    subst hres
    exact List.mem_of_getElem? (List.mem_zipIdx_iff_getElem?.mp hp)
  clear hres
  generalize db.recordSkew now req.sentAt reply.serverTime = d at hskew
  induction results generalizing d with
  | nil => exact hskew
  | cons p results ih =>
    refine ih (fun q hq => hmem q (List.mem_cons_of_mem _ hq)) _ ?_
    dsimp only
    cases he : entryOf req.due p.1 with
    | none => exact hskew
    | some e =>
      have hfind := List.find?_some he
      have hdue := List.mem_of_find?_eq_some he
      exact hstep d p.2 p.1 e (List.mem_reverse.mp hdue) (by simpa using hfind)
        (hmem p List.mem_cons_self) hskew

end EdgeDb

/-! ### The simulation -/

section Simulation

variable {s : EdgeState}

private abbrev Effects := Relation.ReflTransGen Ledger.Effect

theorem tableBusy_eq_false {db : EdgeDb} {id : String} :
    db.tableBusy id = false ↔ ∀ r ∈ db.orders, r.tableId ≠ some id := by
  simp [EdgeDb.tableBusy, KeyedTable.mem_def]

private theorem create_effects {now : Time} {c : Uuid} {input : EdgeDb.CreateInput} :
    Effects s.ledger (s.step (.create now c input)).ledger := by
  simp only [EdgeState.step, EdgeState.drawing]
  split
  · rename_i db hdb
    obtain ⟨⟨order, db'⟩, hok, rfl⟩ := map_eq_ok.mp hdb
    obtain ⟨orderType, table, lines, kots, hne, hlines, rfl, hfree, rfl⟩ :=
      EdgeDb.createOrder_spec hok
    split
    · exact .refl
    · rename_i hnew
      exact .single (.opened now c orderType table input lines hnew hne hlines
        fun id hid => tableBusy_eq_false.mp (hfree id hid))
  · exact .refl

private theorem addItems_effects {now : Time} {c : Uuid} {input : EdgeDb.AddInput} :
    Effects s.ledger (s.step (.addItems now c input)).ledger := by
  simp only [EdgeState.step, EdgeState.commit]
  split
  · rename_i order db hdb
    obtain ⟨row, lines, kots, hrow, hopen, hne, hlines, rfl, rfl⟩ := EdgeDb.addItems_spec hdb
    exact .single (.extended row now input.staffId lines (KeyedTable.find?_eq_some.mp hrow).1 hopen
      hne hlines)
  · exact .refl

private theorem settle_effects {now : Time} {c : Uuid} {input : EdgeDb.SettleInput} :
    Effects s.ledger (s.step (.settle now c input)).ledger := by
  simp only [EdgeState.step, EdgeState.commit]
  split
  · rename_i order db hdb
    obtain ⟨row, set, billNo, db₁, hrow, hopen, hset, hdraw, rfl, rfl⟩ :=
      EdgeDb.settleOrder_spec hdb
    have hmem := (KeyedTable.find?_eq_some.mp hrow).1
    rcases EdgeDb.drawBillNo_spec hdraw with
      ⟨rfl, rfl⟩ | ⟨series, fy, number, -, rfl, hnumber, rfl, rfl⟩
    · exact .single (.settled row now set input.staffId none _ _ hmem hopen hset .none)
    · exact .single (.settled row now set input.staffId _ _ _ hmem hopen hset
        (.next series number _ hnumber))
  · exact .refl

private theorem cancel_effects {now : Time} {c : Uuid} {staffId reason : Option String} :
    Effects s.ledger (s.step (.cancel now c staffId reason)).ledger := by
  simp only [EdgeState.step, EdgeState.commit]
  split
  · rename_i order db hdb
    obtain ⟨row, hrow, hopen, rfl, rfl⟩ := EdgeDb.cancelOrder_spec hdb
    exact .single (.cancelled row now staffId reason (KeyedTable.find?_eq_some.mp hrow).1 hopen)
  · exact .refl

private theorem advance_effects {now : Time} {u : Uuid} {kotId : KotId} {toStatus : String} :
    Effects s.ledger (s.step (.advance now u kotId toStatus)).ledger := by
  simp only [EdgeState.step, EdgeState.drawing]
  split
  swap
  · exact .refl
  rename_i db hdb
  split
  · exact .refl
  rename_i hnew
  have hdrew := Ledger.Effect.drew (l := s.ledger) u hnew
  obtain ⟨kots, status, items, ⟨-, rfl⟩ | ⟨row, hrow, rfl⟩⟩ := EdgeDb.advanceTicket_spec hdb
  · exact .single hdrew
  have hmem := (KeyedTable.find?_eq_some.mp hrow).1
  have hbumped := Ledger.Effect.bumped (l := { s.ledger with issued := u :: s.issued }) row status
    now items hmem
  have hboth := Relation.ReflTransGen.tail (.single hdrew) hbumped
  unfold EdgeDb.saveBump
  dsimp only
  split
  · rename_i hsent
    -- the entry of the order is there, and answered
    rw [EdgeDb.orderSent, Option.any_eq_true] at hsent
    obtain ⟨e, he, hstatus⟩ := hsent
    obtain ⟨hein, hekey⟩ := KeyedTable.find?_eq_some.mp he
    refine hboth.tail (.updateQueued (row.withState (EdgeDb.markTicket row.state status now items))
      now u e ?_ hein hekey (by simpa using hstatus))
    have hself := @KeyedTable.find?_upsert_self _ _ _ _ s.db.orders _ _
      (@OrderRow.clientId_withState (EdgeDb.markTicket row.state status now items))
    have hold : s.db.orders.find?
        (OrderRow.fresh (EdgeDb.markTicket row.state status now items)).clientId = some row :=
      KeyedTable.find?_of_mem hmem
    rw [hold] at hself
    exact (KeyedTable.find?_eq_some.mp hself).1
  · exact hboth

/-- No due entry is without its order. -/
theorem buildOp_ne_none (hinv : s.ledger.Inv) {now : Time} {e : OutboxEntry}
    (he : e ∈ s.db.dueEntries now) : s.db.buildOp e ≠ none := by
  obtain ⟨hmem, hpending, -⟩ := mem_of_mem_dueEntries he
  unfold EdgeDb.buildOp
  split
  · rename_i c hkey
    obtain ⟨r, hr, hc⟩ := hinv.sync.waiting e hmem c hkey (.inl hpending)
    have hget : s.db.get c = some r := KeyedTable.find?_eq_some.mpr ⟨hr, hc⟩
    rw [hget]
    exact fun h => nomatch h
  · exact fun h => nomatch h

theorem rejectMissing_dueEntries (hinv : s.ledger.Inv) {now : Time} :
    s.db.rejectMissing (s.db.dueEntries now) = s.db := by
  have hfilter : (s.db.dueEntries now).filter (fun d => s.db.buildOp d = none) = [] := by
    rw [List.filter_eq_nil_iff]
    intro e he
    simpa using buildOp_ne_none hinv he
  rw [EdgeDb.rejectMissing, hfilter]
  have houtbox : s.db.outbox.modify (fun e => ([] : List OutboxEntry).any (·.id = e.id))
      OutboxEntry.missing OutboxEntry.key_missing = s.db.outbox := by
    apply KeyedTable.ext
    simp [KeyedTable.modify]
  rw [houtbox]

private theorem send_effects {now : Time} (hinv : s.ledger.Inv) :
    Effects s.ledger (s.step (.pushSend now)).ledger := by
  simp only [EdgeState.step, EdgeState.send]
  split
  · exact .refl
  · rw [EdgeDb.pushSend, rejectMissing_dueEntries hinv]
    exact .refl

/-- The row of an entry is in the outbox, and the order it is about on the device. -/
private def Answerable (db : EdgeDb) (e : OutboxEntry) : Prop :=
  (∃ x ∈ db.outbox, x.id = e.id ∧ x.key = e.key) ∧
    ∀ c, e.key = .order c → ∃ row ∈ db.orders, row.clientId = c

private theorem applyResult_effects {db : EdgeDb} {now : Time} {random : Binary64}
    {e : OutboxEntry} {r : EdgeOpResult} (he : Answerable db e) :
    Effects { s with db := db }.ledger
        { s with db := db.applyResult now random e r }.ledger ∧
      ∀ d, Answerable db d → Answerable (db.applyResult now random e r) d := by
  obtain ⟨⟨x, hx, hid, hkey⟩, horder⟩ := he
  unfold EdgeDb.applyResult
  split
  · refine ⟨.single (.postponed e _ _ r), fun d ⟨⟨y, hy, hyid, hykey⟩, hd⟩ => ⟨?_, hd⟩⟩
    refine ⟨_, (KeyedTable.mem_modify (OutboxEntry.key_postponed _ _ _)).mpr ⟨y, hy, rfl⟩, ?_⟩
    split <;> exact ⟨hyid, hykey⟩
  · have hanswer := Ledger.Effect.answered (l := { s with db := db }.ledger) now e x r hx hid hkey
      horder
    have hkeep : ∀ d, Answerable db d →
        ∃ x ∈ (db.closeEntry now e r).outbox, x.id = d.id ∧ x.key = d.key := by
      rintro d ⟨⟨y, hy, hyid, hykey⟩, -⟩
      refine ⟨_, (KeyedTable.mem_modify (OutboxEntry.key_closed _ _)).mpr ⟨y, hy, rfl⟩, ?_⟩
      split <;> exact ⟨hyid, hykey⟩
    dsimp only
    split
    · rename_i c hc
      rw [Ledger.answer, hc] at hanswer
      refine ⟨.single hanswer, fun d hd => ⟨hkeep d hd, fun c' hkey' => ?_⟩⟩
      obtain ⟨row, hrow, hrc⟩ := hd.2 c' hkey'
      refine ⟨_, (KeyedTable.mem_modify (OrderRow.clientId_answered r)).mpr ⟨row, hrow, rfl⟩, ?_⟩
      split <;> exact hrc
    · rename_i c u hc
      rw [Ledger.answer, hc] at hanswer
      exact ⟨.single hanswer, fun d hd => ⟨hkeep d hd, hd.2⟩⟩

private theorem receive_effects {now : Time} {random : ℕ → Binary64} {reply : PushReply}
    (hkept : s.AwaitingKept) (hinv : s.ledger.Inv) :
    Effects s.ledger (s.step (.pushReply now random reply)).ledger := by
  simp only [EdgeState.step, EdgeState.receive]
  split
  · exact .refl
  rename_i req hreq
  have hdue : ∀ e ∈ req.due, Answerable s.db e := by
    intro e he
    obtain ⟨x, hx, hid, hkey, -, hx'⟩ := hkept req hreq e he
    exact ⟨⟨x, hx, hid, hkey⟩, fun c hc => hinv.sync.waiting x hx c (hkey.trans hc) hx'⟩
  refine (EdgeDb.applyReply_induction (fun db => Effects s.ledger { s with db := db }.ledger ∧
    ∀ e ∈ req.due, Answerable db e) ?_ ?_).1
  · unfold EdgeDb.recordSkew
    split <;> exact ⟨.refl, hdue⟩
  · rintro db i r e he - - ⟨hseq, hin⟩
    obtain ⟨hstep, hkeep⟩ := applyResult_effects (s := s) (r := r) (hin e he)
    exact ⟨hseq.trans hstep, fun d hd => hkeep d (hin d hd)⟩

end Simulation

/-- Every operation of the device is a sequence of effects on its ledger. -/
theorem edgeEngine_simulated :
    edgeEngine.SimulatedBy EdgeState.ledger Ledger.Inv Ledger.Effect := by
  intro s a hs hinv
  change Relation.ReflTransGen Ledger.Effect s.ledger (s.step a).ledger
  cases a with
  | create now c input => exact create_effects
  | addItems now c input => exact addItems_effects
  | settle now c input => exact settle_effects
  | cancel now c staffId reason => exact cancel_effects
  | advance now u kotId toStatus => exact advance_effects
  | pushSend now => exact send_effects hinv
  | pushReply now random reply => exact receive_effects (awaitingKept hs) hinv
  | pushFail => exact .refl
  | purge now orderDays outboxDays => exact .single (.purged _ _)
  | applyFeed feed => exact .refl
  | bootstrap outlets outletId act =>
    simp only [EdgeState.step]
    split
    · rename_i db hdb
      simp only [EdgeDb.bootstrap, bind_eq_ok, pure_eq_ok] at hdb
      obtain ⟨target, -, rfl⟩ := hdb
      exact .refl
    · exact .refl
  | acknowledge now id staffId => exact .refl
  | restart => exact .refl

theorem ledger_inv_fresh (deviceId : String) : (EdgeState.fresh deviceId).ledger.Inv := by
  have hor : ∀ r, r ∉ (EdgeState.fresh deviceId).ledger.orders := KeyedTable.notMem_empty
  have hen : ∀ e, e ∉ (EdgeState.fresh deviceId).ledger.outbox := KeyedTable.notMem_empty
  exact ⟨⟨List.Pairwise.nil, fun e he => absurd he (hen e)⟩,
    ⟨fun r hr => absurd hr (hor r), fun e he => absurd he (hen e), fun o ho => nomatch ho⟩,
    ⟨fun e he => absurd he (hen e), fun r hr => absurd hr (hor r), fun e he => absurd he (hen e)⟩,
    fun r hr => absurd hr (hor r)⟩

/-- The invariant holds in every reachable state of the device. -/
theorem edgeEngine_inv {s : EdgeState} (h : edgeEngine.Reachable s) : s.ledger.Inv :=
  edgeEngine_simulated.reach (by rintro s ⟨deviceId, rfl⟩; exact ledger_inv_fresh deviceId)
    (fun _ _ heffect => heffect.inv) h

end StelloKitchens
