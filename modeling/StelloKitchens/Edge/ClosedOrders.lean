import StelloKitchens.Edge.Simulation

/-!
# Running and closed orders

A table has one running order at most; an order is queued for the cloud when it is closed and
only then; and from then on nothing of it changes but its kitchen and sync marks.

## Main results

* `Ledger.Follows.relation` — over any run, a row is new or follows a row of before.
* `orders_guarded` — the three guarantees in every reachable state and over every run.
-/

namespace StelloKitchens

open Checked

theorem OrderRow.Follows.trans {r r' r'' : OrderRow} (h : r.Follows r') (h' : r'.Follows r'') :
    r.Follows r'' := by
  refine ⟨h'.clientId_eq.trans h.clientId_eq, ?_, fun hclosed => ?_⟩
  · rcases h'.tableId_eq with ht | ht
    · exact .inl ht
    · exact h.tableId_eq.imp ht.trans ht.trans
  · have hserved := h.closed hclosed
    have hserved_status : r'.state.served.status = r.state.served.status := by rw [hserved]
    have hstatus : r'.status = r.status := hserved_status
    exact (h'.closed (hstatus ▸ hclosed)).trans hserved

namespace Ledger

/-- Every row of the second ledger is new or follows a row of the first. -/
structure Follows (l l' : Ledger) : Prop where
  issued : ∀ u ∈ l.issued, u ∈ l'.issued
  rows : ∀ r' ∈ l'.orders, r'.clientId ∉ l.issued ∨ ∃ r ∈ l.orders, r.Follows r'

theorem Follows.refl (l : Ledger) : l.Follows l :=
  ⟨fun _ hu => hu, fun r hr => .inr ⟨r, hr, .refl r⟩⟩

theorem Follows.trans {l l' l'' : Ledger} (h : l.Follows l') (h' : l'.Follows l'') :
    l.Follows l'' := by
  refine ⟨fun u hu => h'.issued u (h.issued u hu), fun r'' hr'' => ?_⟩
  rcases h'.rows r'' hr'' with hnew | ⟨r', hr', hfollows'⟩
  · exact .inl fun hu => hnew (h.issued _ hu)
  · rcases h.rows r' hr' with hnew | ⟨r, hr, hfollows⟩
    · exact .inl (hfollows'.clientId_eq ▸ hnew)
    · exact .inr ⟨r, hr, hfollows.trans hfollows'⟩

theorem Effect.follows {l l' : Ledger} (h : Effect l l') (hl : l.Inv) : l.Follows l' :=
  ⟨fun _ => h.issued_subset, fun _ hr' => (h.row_origin hr' hl.issued.orders).imp And.left id⟩

/-- A closed order that is still there is the order that was closed. -/
theorem Follows.served_eq {l l' : Ledger} (h : l.Follows l') (hl : l.IssuedOk) {r r' : OrderRow}
    (hr : r ∈ l.orders) (hr' : r' ∈ l'.orders) (hid : r'.clientId = r.clientId)
    (hclosed : r.status ≠ .opened) : r'.state.served = r.state.served := by
  rcases h.rows r' hr' with hnew | ⟨s, hs, hfollows⟩
  · exact absurd (hid ▸ hl.orders r hr) hnew
  · have hsr := KeyedTable.eq_of_mem hs hr (hfollows.clientId_eq.symm.trans hid)
    subst hsr
    exact hfollows.closed hclosed

end Ledger

/-- Over any run, a row is new or follows a row of before. -/
theorem Ledger.Follows.relation {s t : EdgeState} (hs : edgeEngine.Reachable s)
    (hst : edgeEngine.Steps s t) : s.ledger.Follows t.ledger :=
  edgeEngine_simulated.relation
    (by rintro s ⟨deviceId, rfl⟩; exact ledger_inv_fresh deviceId)
    (fun _ _ heffect => heffect.inv) Ledger.Follows.refl (fun _ _ _ => Ledger.Follows.trans)
    (fun _ _ heffect => heffect.follows) hs hst

theorem OrderRow.status_of_ne_opened {r : OrderRow} (h : r.status ≠ .opened) :
    r.status = .settled ∨ r.status = .cancelled := by
  cases hs : r.status with
  | opened => exact absurd hs h
  | settled => exact .inl rfl
  | cancelled => exact .inr rfl

/-- An order that is closed and not accepted has its entry in the outbox. -/
theorem Ledger.SyncOk.exists_entry {l : Ledger} (hl : l.SyncOk) {r : OrderRow}
    (hr : r ∈ l.orders) (hclosed : r.status ≠ .opened)
    (hsync : r.syncState ≠ .synced ∧ r.syncState ≠ .conflict) :
    ∃ e ∈ l.outbox, e.key = .order r.clientId := by
  by_contra hnone
  push Not at hnone
  rcases hl.unsent r hr hnone with ⟨hopen, -⟩ | ⟨-, hs | hs⟩
  · exact hclosed hopen
  · exact hsync.1 hs
  · exact hsync.2 hs

/-- In every reachable state a table has at most one running order, only closed orders are in
the outbox, and a closed order that the cloud has not accepted is there exactly once. In every
later state a closed order is as it was, up to its kitchen marks. -/
theorem orders_guarded {s : EdgeState} (hs : edgeEngine.Reachable s) :
    (∀ r₁ ∈ s.db.orders, ∀ r₂ ∈ s.db.orders, ∀ id,
      r₁.tableId = some id → r₂.tableId = some id → r₁ = r₂) ∧
    (∀ r ∈ s.db.orders, (∃ e ∈ s.db.outbox, e.key = .order r.clientId) →
      r.status = .settled ∨ r.status = .cancelled) ∧
    (∀ r ∈ s.db.orders, r.status ≠ .opened → r.syncState ≠ .synced ∧ r.syncState ≠ .conflict →
      ∃! e, e ∈ s.db.outbox ∧ e.key = .order r.clientId) ∧
    ∀ t, edgeEngine.Steps s t → ∀ r ∈ s.db.orders, r.status ≠ .opened →
      ∀ r' ∈ t.db.orders, r'.clientId = r.clientId → r'.state.served = r.state.served := by
  have hinv := edgeEngine_inv hs
  refine ⟨hinv.tables, ?_, ?_, ?_⟩
  · rintro r hr ⟨e, he, hkey⟩
    exact OrderRow.status_of_ne_opened (hinv.sync.entry_sync e he r hr hkey).1
  · intro r hr hclosed hsync
    obtain ⟨e, he, hkey⟩ := hinv.sync.exists_entry hr hclosed hsync
    refine ⟨e, ⟨he, hkey⟩, ?_⟩
    rintro e' ⟨he', hkey'⟩
    exact KeyedTable.eq_of_mem he' he (hkey'.trans hkey.symm)
  · intro t hst r hr hclosed r' hr' hid
    exact (Ledger.Follows.relation hs hst).served_eq hinv.issued hr hr' hid hclosed

/-- On the first day the sold order is in the outbox once, and whatever happens next it stays the
order that was sold. -/
theorem orders_guarded_sampleDay :
    (∃! e, e ∈ (edgeEngine.run (.fresh "D-0") sampleDay).db.outbox ∧
      e.key = .order (sampleUuid 0)) ∧
    ∀ t, edgeEngine.Steps (edgeEngine.run (.fresh "D-0") sampleDay) t →
      ∀ r' ∈ t.db.orders, r'.clientId = sampleUuid 0 →
        r'.status = .settled ∧ r'.state.totals.total = .ofRat (860 / 100) := by
  obtain ⟨-, -, hentry, hsame⟩ := orders_guarded
    (Machine.reachable_run sampleDay (.init ⟨"D-0", rfl⟩))
  have hsold : ((edgeEngine.run (.fresh "D-0") sampleDay).db.get (sampleUuid 0)).map
      (fun r => (r.status, r.syncState, r.state.totals.total)) =
        some (.settled, .queued, .ofRat (860 / 100)) := by decide +kernel
  obtain ⟨r, hget, hr⟩ := Option.map_eq_some_iff.mp hsold
  obtain ⟨hstatus, hsync, htotal⟩ : r.status = .settled ∧ r.syncState = .queued ∧
      r.state.totals.total = .ofRat (860 / 100) := by simpa using hr
  obtain ⟨hmem, hid⟩ := KeyedTable.find?_eq_some.mp hget
  have hclosed : r.status ≠ .opened := by simp [hstatus]
  refine ⟨?_, fun t ht r' hr' hid' => ?_⟩
  · have h := hentry r hmem hclosed (by simp [hsync])
    rwa [hid] at h
  · have hserved := hsame t ht r hmem hclosed r' hr' (hid'.trans hid.symm)
    have hstatus' : r'.state.served.status = r.state.served.status := by rw [hserved]
    have htotal' : r'.state.served.totals = r.state.served.totals := by rw [hserved]
    exact ⟨hstatus'.trans hstatus, (congrArg OrderTotals.total htotal').trans htotal⟩

end StelloKitchens
