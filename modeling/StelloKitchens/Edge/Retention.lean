import StelloKitchens.Edge.Simulation

/-!
# What a purge removes

The device next to the record of every answer it got. A purge takes out closed orders that the
cloud has accepted and outbox entries that it has answered: of an entry that is gone the record
holds an answer that says applied, duplicate or conflict, and the order of an entry that waits
or was rejected is always there. A conflict is an accepted sale that someone has to look at, so
its entry goes as well.

## Main definitions

* `edgeHistory` — the device with the answers of the cloud so far.
* `AnsweredBy` — an answer that settles an entry as accepted.

## Main results

* `entries_answered` — an entry marked as accepted has its answer in the record.
* `purge_accepted` — a purge removes only what the cloud has accepted.
-/

namespace StelloKitchens

open Checked

/-! ### The answers so far -/

/-- The results that an operation brings in: those of an answer the device waits for. -/
def EdgeAction.results (s : EdgeState) : EdgeAction → List EdgeOpResult
  | .pushReply _ _ reply => if s.awaiting.isSome then reply.results else []
  | _ => []

/-- The device with the answers of the cloud so far. -/
def edgeHistory : Machine (EdgeState × List EdgeOpResult) EdgeAction where
  init h := edgeEngine.init h.1 ∧ h.2 = []
  step h a := (h.1.step a, h.2 ++ a.results h.1)

theorem edgeHistory_reachable {h : EdgeState × List EdgeOpResult} (hh : edgeHistory.Reachable h) :
    edgeEngine.Reachable h.1 := by
  refine Machine.invariant (P := fun h => edgeEngine.Reachable h.1) ?_
    (fun h a _ ih _ => .step a ih trivial) hh
  rintro h ⟨hinit, -⟩
  exact .init hinit

/-- The cloud has taken the operation of an entry in: it says applied, duplicate, or applied with
something to look at. -/
def EdgeOpStatus.Accepts (s : EdgeOpStatus) : Prop := s = .applied ∨ s = .duplicate ∨ s = .conflict

/-- The answer accepts the entry. -/
def AnsweredBy (e : OutboxEntry) (r : EdgeOpResult) : Prop := r.key = e.key.text ∧ r.status.Accepts

/-- The entry is marked as accepted. -/
def OutboxEntry.Accepted (e : OutboxEntry) : Prop := e.status = .done ∨ e.status = .conflict

/-- Every entry marked as accepted has its answer in the record. -/
def EntriesAnswered (outbox : KeyedTable OutboxEntry.key) (log : List EdgeOpResult) : Prop :=
  ∀ e ∈ outbox, e.Accepted → ∃ r ∈ log, AnsweredBy e r

/-! ### What each write does to the marks -/

namespace EntriesAnswered

variable {db : EdgeDb} {now : Time} {log : List EdgeOpResult}

theorem append (h : EntriesAnswered db.outbox log) (more : List EdgeOpResult) :
    EntriesAnswered db.outbox (log ++ more) := fun e he hacc =>
  let ⟨r, hr, hans⟩ := h e he hacc
  ⟨r, List.mem_append_left _ hr, hans⟩

/-- A new entry is pending. -/
theorem enqueue {key : OutboxKey} {payload : List KotStatusLine}
    (h : EntriesAnswered db.outbox log) :
    EntriesAnswered (db.enqueue now key payload).outbox log := by
  have houtbox : (db.enqueue now key payload).outbox = (db.insertOutbox now key payload).outbox := by
    cases key <;> rfl
  intro e he hacc
  rw [houtbox, EdgeDb.insertOutbox, KeyedTable.mem_upsert] at he
  rcases he with rfl | ⟨he, -⟩
  · cases hold : db.outbox.find? key with
    | none =>
      rw [hold] at hacc
      rcases hacc with hacc | hacc <;> cases hacc
    | some old =>
      rw [hold] at hacc
      exact h old (KeyedTable.find?_eq_some.mp hold).1 hacc
  · exact h e he hacc

theorem saveBump {u : Uuid} {order : Order} (h : EntriesAnswered db.outbox log) :
    EntriesAnswered (db.saveBump now u order).outbox log := by
  unfold EdgeDb.saveBump
  dsimp only
  split
  · exact @enqueue (db.save order) now log _ _ h
  · exact h

/-- An update of some entries that does not mark them as accepted. -/
theorem modify {p : OutboxEntry → Bool} {f : OutboxEntry → OutboxEntry}
    (hf : ∀ x, (f x).key = x.key) (hmark : ∀ x, (f x).Accepted → x.Accepted)
    (h : EntriesAnswered db.outbox log) : EntriesAnswered (db.outbox.modify p f hf) log := by
  intro e he hacc
  obtain ⟨x, hx, rfl⟩ := (KeyedTable.mem_modify hf).mp he
  by_cases hp : p x = true
  · rw [if_pos hp] at hacc ⊢
    obtain ⟨r, hr, hkey, hans⟩ := h x hx (hmark x hacc)
    exact ⟨r, hr, by rw [hkey, hf], hans⟩
  · rw [if_neg hp] at hacc ⊢
    exact h x hx hacc

/-- One result marks the row of the entry it answers. -/
theorem applyResult {random : Binary64} {e : OutboxEntry} {r : EdgeOpResult}
    (hrow : ∀ x ∈ db.outbox, x.id = e.id → x.key = e.key) (hr : r ∈ log)
    (hkey : e.key.text = r.key) (h : EntriesAnswered db.outbox log) :
    EntriesAnswered (db.applyResult now random e r).outbox log := by
  have hclose : r.status ≠ .retry → EntriesAnswered (db.closeEntry now e r).outbox log := by
    intro hretry y hy hacc
    obtain ⟨x, hx, rfl⟩ := (KeyedTable.mem_modify (OutboxEntry.key_closed _ _)).mp hy
    by_cases hid : x.id = e.id
    · rw [if_pos (by simpa using hid)] at hacc ⊢
      refine ⟨r, hr, ?_, ?_⟩
      · rw [← hkey, OutboxEntry.key_closed, hrow x hx hid]
      · have hmark : OutboxStatus.ofResult r.status = .done ∨
            OutboxStatus.ofResult r.status = .conflict := hacc
        cases hs : r.status with
        | applied => exact .inl rfl
        | duplicate => exact .inr (.inl rfl)
        | conflict => exact .inr (.inr rfl)
        | rejected =>
          rw [hs] at hmark
          rcases hmark with hmark | hmark <;> cases hmark
        | retry => exact absurd hs hretry
    · rw [if_neg (by simpa using hid)] at hacc ⊢
      exact h x hx hacc
  unfold EdgeDb.applyResult
  split
  · exact modify (OutboxEntry.key_postponed _ _ _) (fun _ hx => hx) h
  · rename_i hretry
    dsimp only
    split <;> exact hclose hretry

end EntriesAnswered

/-! ### The record -/

/-- A result leaves the ids and keys of the outbox as they are. -/
theorem keyOf_applyResult {db : EdgeDb} {now : Time} {random : Binary64} {e d : OutboxEntry}
    {r : EdgeOpResult} (h : ∀ x ∈ db.outbox, x.id = d.id → x.key = d.key) :
    ∀ x ∈ (db.applyResult now random e r).outbox, x.id = d.id → x.key = d.key := by
  have hmodify : ∀ (p : OutboxEntry → Bool) (f : OutboxEntry → OutboxEntry)
      (hf : ∀ x, (f x).key = x.key), (∀ x, (f x).id = x.id) →
      ∀ y ∈ db.outbox.modify p f hf, y.id = d.id → y.key = d.key := by
    intro p f hf hid y hy
    obtain ⟨x, hx, rfl⟩ := (KeyedTable.mem_modify hf).mp hy
    split
    · rw [hid, hf]
      exact h x hx
    · exact h x hx
  unfold EdgeDb.applyResult
  split
  · exact hmodify _ _ (OutboxEntry.key_postponed _ _ _) fun _ => rfl
  · dsimp only
    split <;> exact hmodify _ _ (OutboxEntry.key_closed _ _) fun _ => rfl

/-- Every entry marked as accepted has its answer in the record, in every reachable state. -/
theorem entries_answered {h : EdgeState × List EdgeOpResult} (hh : edgeHistory.Reachable h) :
    EntriesAnswered h.1.db.outbox h.2 := by
  refine Machine.invariant (P := fun h => EntriesAnswered h.1.db.outbox h.2) ?_ ?_ hh
  · rintro ⟨s, log⟩ ⟨⟨deviceId, rfl⟩, rfl⟩ e he
    exact absurd he (KeyedTable.notMem_empty e)
  · rintro ⟨s, log⟩ a hreach ih -
    have hs : edgeEngine.Reachable s := edgeHistory_reachable hreach
    have hinv := edgeEngine_inv hs
    have hsame : ∀ t : EdgeState, t.db.outbox = s.db.outbox →
        EntriesAnswered t.db.outbox (log ++ []) := by
      intro t ht
      rw [ht]
      exact ih.append []
    cases a with
    | create now c input =>
      change EntriesAnswered (s.drawing c _).db.outbox _
      simp only [EdgeState.drawing]
      split
      · rename_i db hdb
        obtain ⟨⟨order, db'⟩, hok, rfl⟩ := map_eq_ok.mp hdb
        obtain ⟨-, -, -, kots, -, -, -, -, rfl⟩ := EdgeDb.createOrder_spec hok
        split <;> exact hsame _ rfl
      · exact hsame _ rfl
    | addItems now c input =>
      change EntriesAnswered (s.commit _).db.outbox _
      simp only [EdgeState.commit]
      split
      · rename_i order db hdb
        obtain ⟨row, lines, kots, -, -, -, -, -, rfl⟩ := EdgeDb.addItems_spec hdb
        exact hsame _ rfl
      · exact hsame _ rfl
    | settle now c input =>
      change EntriesAnswered (s.commit _).db.outbox _
      simp only [EdgeState.commit]
      split
      · rename_i order db hdb
        obtain ⟨row, set, billNo, db₁, -, -, -, hdraw, -, rfl⟩ := EdgeDb.settleOrder_spec hdb
        have houtbox : (db₁.printedRef billNo).2.outbox = s.db.outbox := by
          rcases EdgeDb.drawBillNo_spec hdraw with ⟨rfl, rfl⟩ | ⟨_, _, _, -, -, -, rfl, rfl⟩ <;> rfl
        refine (EntriesAnswered.enqueue ?_).append []
        change EntriesAnswered (db₁.printedRef billNo).2.outbox log
        rw [houtbox]
        exact ih
      · exact hsame _ rfl
    | cancel now c staffId reason =>
      change EntriesAnswered (s.commit _).db.outbox _
      simp only [EdgeState.commit]
      split
      · rename_i order db hdb
        obtain ⟨row, -, -, -, rfl⟩ := EdgeDb.cancelOrder_spec hdb
        exact (@EntriesAnswered.enqueue ((s.db.save order).cancelTickets now c) _ _ _ _ ih).append []
      · exact hsame _ rfl
    | advance now u kotId toStatus =>
      change EntriesAnswered (s.drawing u _).db.outbox _
      simp only [EdgeState.drawing]
      split
      · rename_i db hdb
        obtain ⟨kots, status, items, ⟨-, rfl⟩ | ⟨row, -, rfl⟩⟩ := EdgeDb.advanceTicket_spec hdb
        · split <;> exact hsame _ rfl
        · split
          · exact hsame _ rfl
          · exact (@EntriesAnswered.saveBump { s.db with kots := kots } _ _ _ _ ih).append []
      · exact hsame _ rfl
    | pushSend now =>
      change EntriesAnswered (s.send now).db.outbox _
      simp only [EdgeState.send]
      split
      · exact hsame _ rfl
      · rw [EdgeDb.pushSend, rejectMissing_dueEntries hinv]
        exact hsame _ rfl
    | pushReply now random reply =>
      change EntriesAnswered (s.receive now random reply).db.outbox
        (log ++ if s.awaiting.isSome then reply.results else [])
      simp only [EdgeState.receive]
      split
      · rename_i hnone
        rw [hnone]
        exact hsame _ rfl
      rename_i req hreq
      rw [hreq, Option.isSome_some, if_pos rfl]
      -- the rows sent are still there under their keys, so every result finds its own
      have hdue : ∀ e ∈ req.due, ∀ x ∈ s.db.outbox, x.id = e.id → x.key = e.key := by
        intro e he x hx hid
        obtain ⟨y, hy, hyid, hykey, -, -⟩ := awaitingKept hs req hreq e he
        rw [hinv.ids.eq_of_id hx hy (hid.trans hyid.symm), hykey]
      refine (EdgeDb.applyReply_induction
        (fun db => EntriesAnswered db.outbox (log ++ reply.results) ∧
          ∀ e ∈ req.due, ∀ x ∈ db.outbox, x.id = e.id → x.key = e.key) ?_ ?_).1
      · unfold EdgeDb.recordSkew
        split <;> exact ⟨ih.append _, hdue⟩
      · rintro db i r e he hkey hr ⟨hans, hkeys⟩
        exact ⟨hans.applyResult (hkeys e he) (List.mem_append_right _ hr) hkey,
          fun d hd => keyOf_applyResult (hkeys d hd)⟩
    | pushFail => exact hsame _ rfl
    | purge now orderDays outboxDays =>
      refine @EntriesAnswered.append (s.db.purge now orderDays outboxDays) _ ?_ []
      intro e he hacc
      exact ih e (KeyedTable.mem_delete.mp he).1 hacc
    | applyFeed feed => exact hsame _ rfl
    | bootstrap outlets outletId act =>
      change EntriesAnswered (s.step (.bootstrap outlets outletId act)).db.outbox _
      simp only [EdgeState.step]
      split
      · rename_i db hdb
        simp only [EdgeDb.bootstrap, bind_eq_ok, pure_eq_ok] at hdb
        obtain ⟨target, -, rfl⟩ := hdb
        exact hsame _ rfl
      · exact hsame _ rfl
    | acknowledge now id staffId => exact hsame _ rfl
    | restart => exact hsame _ rfl

/-! ### Retention -/

/-- An order that a purge removes is closed and waits for nothing. -/
theorem purged_order {s : EdgeState} (hs : edgeEngine.Reachable s) {now : Time}
    {orderDays outboxDays : ℤ} {r : OrderRow} (hr : r ∈ s.db.orders)
    (hgone : r ∉ (s.db.purge now orderDays outboxDays).orders) :
    r.status ≠ .opened ∧ ∀ e ∈ s.db.outbox, e.key = .order r.clientId → ¬e.Kept := by
  have hpurgeable : r.purgeable (now - orderDays * dayMs) = true := by
    by_contra hnot
    exact hgone (KeyedTable.mem_delete.mpr ⟨hr, by simpa using hnot⟩)
  simp only [OrderRow.purgeable, decide_eq_true_eq] at hpurgeable
  obtain ⟨hclosed, hsync, -⟩ := hpurgeable
  refine ⟨hclosed, fun e he hkey hkept => ?_⟩
  have hmark := ((edgeEngine_inv hs).sync.entry_sync e he r hr hkey).2
  rcases hkept with hstatus | hstatus <;> rw [hmark, hstatus] at hsync <;>
    rcases hsync with hsync | hsync <;> cases hsync

/-- An outbox entry that a purge removes is marked as accepted. -/
theorem purged_entry {db : EdgeDb} {now : Time} {orderDays outboxDays : ℤ} {e : OutboxEntry}
    (he : e ∈ db.outbox) (hgone : e ∉ (db.purge now orderDays outboxDays).outbox) :
    e.Accepted := by
  have hpurgeable : e.purgeable (now - outboxDays * dayMs) = true := by
    by_contra hnot
    exact hgone (KeyedTable.mem_delete.mpr ⟨he, by simpa using hnot⟩)
  simp only [OutboxEntry.purgeable, decide_eq_true_eq] at hpurgeable
  exact hpurgeable.1

/-- A purge removes no running order, no order whose entry waits or was rejected, and no entry
that the cloud has not acknowledged as applied, duplicate or conflict; and an entry that waits
or was rejected has its order on the device. -/
theorem purge_accepted {h : EdgeState × List EdgeOpResult} (hh : edgeHistory.Reachable h)
    (now : Time) (orderDays outboxDays : ℤ) :
    (∀ r ∈ h.1.db.orders, r ∉ (h.1.db.purge now orderDays outboxDays).orders →
      r.status ≠ .opened ∧ ∀ e ∈ h.1.db.outbox, e.key = .order r.clientId → ¬e.Kept) ∧
    (∀ e ∈ h.1.db.outbox, e ∉ (h.1.db.purge now orderDays outboxDays).outbox →
      ∃ a ∈ h.2, a.key = e.key.text ∧
        (a.status = .applied ∨ a.status = .duplicate ∨ a.status = .conflict)) ∧
    ∀ e ∈ h.1.db.outbox, ∀ c, e.key = .order c → e.Kept →
      ∃ r ∈ h.1.db.orders, r.clientId = c := by
  have hs := edgeHistory_reachable hh
  exact ⟨fun r hr hgone => purged_order hs hr hgone,
    fun e he hgone => entries_answered hh e he (purged_entry he hgone),
    (edgeEngine_inv hs).sync.waiting⟩

/-- The first day, and the cloud takes the sale with a conflict to look at. -/
def conflictDay : List EdgeAction :=
  sampleDay ++ [.pushSend 1793000002000, .pushReply 1793000003000 (fun _ => 0)
    ⟨[⟨sampleClientId.text, .conflict, some "order", none,
      [⟨.priceDrift, "Billed at another price"⟩], none⟩], .iso 1793000003000⟩]

/-- Where the history stands after the first day. -/
theorem edgeHistory_conflictDay :
    edgeHistory.Reachable (edgeHistory.run (.fresh "D-0", []) conflictDay) :=
  Machine.reachable_run conflictDay (.init ⟨⟨"D-0", rfl⟩, rfl⟩)

/-- Eight days later the entry is purged, and so it was acknowledged. -/
theorem purge_accepted_conflictDay :
    ∃ e ∈ (edgeHistory.run (.fresh "D-0", []) conflictDay).1.db.outbox,
      ∃ a ∈ (edgeHistory.run (.fresh "D-0", []) conflictDay).2, a.key = e.key.text ∧
        (a.status = .applied ∨ a.status = .duplicate ∨ a.status = .conflict) := by
  obtain ⟨e, he, hgone⟩ : ∃ e ∈ (edgeHistory.run (.fresh "D-0", []) conflictDay).1.db.outbox.rows,
      e ∉ ((edgeHistory.run (.fresh "D-0", []) conflictDay).1.db.purge
        (1793000003000 + 8 * dayMs) 30 7).outbox.rows := by
    decide +kernel
  exact ⟨e, he, (purge_accepted edgeHistory_conflictDay _ 30 7).2.1 e he hgone⟩

/-- The answer that took it in says neither applied nor duplicate. -/
theorem purge_conflict_entry :
    ∃ e ∈ (edgeHistory.run (.fresh "D-0", []) conflictDay).1.db.outbox,
      e ∉ ((edgeHistory.run (.fresh "D-0", []) conflictDay).1.db.purge
        (1793000003000 + 8 * dayMs) 30 7).outbox ∧
      ∀ a ∈ (edgeHistory.run (.fresh "D-0", []) conflictDay).2,
        a.status ≠ .applied ∧ a.status ≠ .duplicate := by
  have h : ∃ e ∈ (edgeHistory.run (.fresh "D-0", []) conflictDay).1.db.outbox.rows,
      e ∉ ((edgeHistory.run (.fresh "D-0", []) conflictDay).1.db.purge
        (1793000003000 + 8 * dayMs) 30 7).outbox.rows ∧
      ∀ a ∈ (edgeHistory.run (.fresh "D-0", []) conflictDay).2,
        a.status ≠ .applied ∧ a.status ≠ .duplicate := by decide +kernel
  exact h

end StelloKitchens
