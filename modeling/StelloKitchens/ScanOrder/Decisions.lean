import StelloKitchens.Lib.Obligations
import StelloKitchens.ScanOrder.Requests

/-!
# Every request is decided once

A request is claimed under a number of the accept that claims it, and while it is being processed
no one else changes it or punches a round for it, but for a reject that read it before. So the
accept knows how many rounds there are, and it owes the request a decision: it either puts it
back without a round or accepts it with one, if nothing fails after the round is committed.

## Main definitions

* `Sound`, `DecisionStep` — what holds of requests and rounds, and what a commit does to them.
* `Owes` — a request is being processed under a number.
* `decisionTerms` — the terms of accepts and rejects.

## Main results

* `decision_discharged` — every method keeps the terms, and owes no decision when it ends.
* `decided_once` — requests and their rounds, over all interleavings.
-/

namespace StelloKitchens.ScanOrder

open Checked Tx Process Method Discipline Service
open Billing (Menu RowId)

/-! ### The invariant -/

/-- The rounds that were punched for a request. -/
def ScanDb.roundsOf (db : ScanDb) (requestId : ℕ) : List Round :=
  db.rounds.filter fun x => x.requestId = requestId

/-- How many rounds there can be for a request of this status. -/
def RequestStatus.Fits : RequestStatus → ℕ → Prop
  | pending, rounds => rounds = 0
  | processing, rounds => rounds ≤ 1
  | accepted, rounds => rounds = 1
  | rejected, rounds => rounds = 0

theorem RequestStatus.Fits.le_one {status : RequestStatus} {rounds : ℕ} (h : status.Fits rounds) :
    rounds ≤ 1 := by
  cases status with
  | processing => exact h
  | _ => exact (le_of_eq h).trans (by decide)

/-- The accept with this number has a request to decide. -/
def Owes (handler : ℕ) (db : ScanDb) : Prop :=
  ∃ r ∈ db.orderRequests.rows, r.status = .processing ∧ r.handler = some handler

instance (handler : ℕ) (db : ScanDb) : Decidable (Owes handler db) :=
  inferInstanceAs (Decidable (∃ r ∈ db.orderRequests.rows, _))

/-- What holds of the requests and their rounds. -/
structure Sound (db : ScanDb) (n : ℕ) : Prop where
  fresh : ∀ r ∈ db.orderRequests, r.id < n ∧ ∀ c, r.handler = some c → c < n
  known : ∀ x ∈ db.rounds, ∃ r ∈ db.orderRequests, r.id = x.requestId
  handled : ∀ r ∈ db.orderRequests, r.status = .processing → r.handler ≠ none
  /-- An accept has one request to decide. -/
  single : ∀ r ∈ db.orderRequests, ∀ r' ∈ db.orderRequests, r.status = .processing →
    r'.status = .processing → r.handler = r'.handler → r = r'
  fits : ∀ r ∈ db.orderRequests, r.status.Fits (db.roundsOf r.id).length

/-- What the commit of who holds these does to the requests and their rounds. -/
structure DecisionStep (L : Hold LockKey → Prop) (s s' : ScanDb) : Prop where
  requests : TableStep LockKey.request L s.orderRequests s'.orderRequests
  /-- The requests that others process stay as they are. -/
  processed : ∀ r ∈ s.orderRequests, r.status = .processing →
    (∀ c, r.handler = some c → ¬L (.number c)) →
      r ∈ s'.orderRequests ∧ s'.roundsOf r.id = s.roundsOf r.id
  owed : ∀ c, Owes c s' → Owes c s ∨ L (.number c)

/-- The terms of accepts and rejects. A request is claimed by an accept of which nothing fails but
the transaction of the order, and it is rejected while it is pending. -/
def decisionTerms : Terms ScanDb LockKey Note (Except ServiceError Unit) where
  inv := Sound
  step := DecisionStep
  inv_mono hle h := { h with
    fresh := fun r hr => ⟨(h.fresh r hr).1.trans_le hle, fun c hc => ((h.fresh r hr).2 c hc).trans_le hle⟩ }
  admits note _ db := match note with
    | .claimed _ fails => ∀ p ∈ fails, p = .ingest
    | .rejected requestId => ∀ r ∈ db.orderRequests.rows, r.id = requestId → r.status = .pending
    | _ => True
  said _ _ := True
  said_step _ _ _ h := h

instance (note : Note) (held : List (Hold LockKey)) (db : ScanDb) :
    Decidable (decisionTerms.admits note (· ∈ held) db) :=
  match note with
  | .claimed _ fails => inferInstanceAs (Decidable (∀ p ∈ fails, p = .ingest))
  | .rejected requestId => inferInstanceAs
      (Decidable (∀ r ∈ db.orderRequests.rows, r.id = requestId → r.status = .pending))
  | .plain => .isTrue trivial
  | .punched _ => .isTrue trivial
  | .putBack _ => .isTrue trivial
  | .accepted _ _ => .isTrue trivial

theorem DecisionStep.refl (L : Hold LockKey → Prop) (s : ScanDb) : DecisionStep L s s :=
  ⟨.refl _, fun _ hr _ _ => ⟨hr, rfl⟩, fun _ => .inl⟩

theorem request_guards (id : ℕ) :
    decisionTerms.toDiscipline.Guards (.request id) fun db => db.findRequest id :=
  @TableStep.guards _ _ _ _ _ decisionTerms.toDiscipline ScanDb.orderRequests
    (fun _ _ _ h => h.requests) id

/-! ### Writes -/

section Writes

variable {L : Hold LockKey → Prop} {s : ScanDb} {n : ℕ}

/-- The tables are kept sound, and a commit may do this. -/
def Keeping (L : Hold LockKey → Prop) (s : ScanDb) (n : ℕ) (s' : ScanDb) : Prop :=
  Sound s' n ∧ DecisionStep L s s'

/-- What the terms are about. -/
def ScanDb.decisions (db : ScanDb) : KeyedTable OrderRequest.id × List Round :=
  (db.orderRequests, db.rounds)

theorem Keeping.congr {s' s'' : ScanDb} (h : Keeping L s n s') (heq : s''.decisions = s'.decisions) :
    Keeping L s n s'' := by
  cases s'
  cases s''
  cases heq
  exact ⟨⟨h.1.fresh, h.1.known, h.1.handled, h.1.single, h.1.fits⟩,
    ⟨h.2.requests, h.2.processed, h.2.owed⟩⟩

theorem mem_updateRequest {id : ℕ} {f : OrderRequest → OrderRequest} (hf : ∀ r, (f r).id = r.id)
    {x : OrderRequest} : x ∈ (s.updateRequest id f hf).orderRequests ↔
      ∃ r ∈ s.orderRequests, x = if r.id = id then f r else r := by
  refine (KeyedTable.mem_modify hf).trans ?_
  simp only [decide_eq_true_eq]

/-- The rows after the update of a request are the others and the new one. -/
theorem mem_updateRequest_of_mem {f : OrderRequest → OrderRequest} (hf : ∀ r, (f r).id = r.id)
    {r x : OrderRequest} (hr : r ∈ s.orderRequests) :
    x ∈ (s.updateRequest r.id f hf).orderRequests ↔
      x = f r ∨ (x ∈ s.orderRequests ∧ x.id ≠ r.id) := by
  rw [mem_updateRequest]
  constructor
  · rintro ⟨q, hq, rfl⟩
    by_cases hid : q.id = r.id
    · rw [if_pos hid, KeyedTable.eq_of_mem hq hr hid]
      exact .inl rfl
    · rw [if_neg hid]
      exact .inr ⟨hq, hid⟩
  · rintro (rfl | ⟨hx, hid⟩)
    · exact ⟨r, hr, (if_pos rfl).symm⟩
    · exact ⟨x, hx, (if_neg hid).symm⟩

/-- A request is updated that is locked and is not processed by anyone else. -/
theorem keeping_updateRequest (hs : Sound s n) {r : OrderRequest} (hr : r ∈ s.orderRequests)
    (hlock : L (.lock (.request r.id))) {f : OrderRequest → OrderRequest}
    (hf : ∀ r, (f r).id = r.id)
    (hmine : r.status = .processing → ∀ c, r.handler = some c → L (.number c))
    (hnew : (f r).status = .processing →
      ∃ c, (f r).handler = some c ∧ L (.number c) ∧ ¬Owes c s)
    (hlt : ∀ c, (f r).handler = some c → c < n)
    (hfits : (f r).status.Fits (s.roundsOf r.id).length) :
    Keeping L s n (s.updateRequest r.id f hf) := by
  have hmem := fun x => mem_updateRequest_of_mem (x := x) hf hr
  refine ⟨⟨fun x hx => ?_, fun x hx => ?_, fun x hx hstatus => ?_, fun x hx y hy hsx hsy heq => ?_,
    fun x hx => ?_⟩, .modify hf fun _ _ hp => of_decide_eq_true hp ▸ hlock, fun q hq hstatus hc => ?_,
    fun c hc => ?_⟩
  · rcases (hmem x).mp hx with rfl | ⟨hx, -⟩
    · rw [hf]
      exact ⟨(hs.fresh r hr).1, hlt⟩
    · exact hs.fresh x hx
  · obtain ⟨q, hq, hid⟩ := hs.known x hx
    by_cases hqr : q.id = r.id
    · exact ⟨f r, (hmem _).mpr (.inl rfl), (hf r).trans (hqr.symm.trans hid)⟩
    · exact ⟨q, (hmem _).mpr (.inr ⟨hq, hqr⟩), hid⟩
  · rcases (hmem x).mp hx with rfl | ⟨hx, -⟩
    · obtain ⟨c, hc, -⟩ := hnew hstatus
      rw [hc]
      exact Option.some_ne_none c
    · exact hs.handled x hx hstatus
  · -- no one else has a request to decide under the new number
    have hother : ∀ q ∈ s.orderRequests, q.status = .processing → (f r).status = .processing →
        (f r).handler ≠ q.handler := by
      intro q hq hsq hsr heq
      obtain ⟨c, hc, -, hnot⟩ := hnew hsr
      exact hnot ⟨q, hq, hsq, heq ▸ hc⟩
    rcases (hmem x).mp hx with rfl | ⟨hx, -⟩ <;> rcases (hmem y).mp hy with rfl | ⟨hy, -⟩
    · rfl
    · exact absurd heq (hother y hy hsy hsx)
    · exact absurd heq.symm (hother x hx hsx hsy)
    · exact hs.single x hx y hy hsx hsy heq
  · rcases (hmem x).mp hx with rfl | ⟨hx, -⟩
    · rw [hf]
      exact hfits
    · exact hs.fits x hx
  · have hid : q.id ≠ r.id := by
      intro hid
      obtain rfl := KeyedTable.eq_of_mem hq hr hid
      obtain ⟨c, hhandler⟩ := Option.ne_none_iff_exists'.mp (hs.handled q hq hstatus)
      exact hc c hhandler (hmine hstatus c hhandler)
    exact ⟨(hmem q).mpr (.inr ⟨hq, hid⟩), rfl⟩
  · obtain ⟨q, hq, hstatus, hhandler⟩ := hc
    rcases (hmem q).mp hq with rfl | ⟨hq, -⟩
    · obtain ⟨c', hc', hheld, -⟩ := hnew hstatus
      obtain rfl := Option.some.inj (hc'.symm.trans hhandler)
      exact .inr hheld
    · exact .inl ⟨q, hq, hstatus, hhandler⟩

/-- A request that is not processed any more is owed by no one. -/
theorem not_owes_updateRequest (hs : Sound s n) {r : OrderRequest} (hr : r ∈ s.orderRequests)
    {f : OrderRequest → OrderRequest} (hf : ∀ r, (f r).id = r.id) (hstatus : r.status = .processing)
    {c : ℕ} (hhandler : r.handler = some c) (hnew : (f r).status ≠ .processing) :
    ¬Owes c (s.updateRequest r.id f hf) := by
  rintro ⟨q, hq, hsq, hcq⟩
  rcases (mem_updateRequest_of_mem hf hr).mp hq with rfl | ⟨hq, hid⟩
  · exact hnew hsq
  · exact hid (congrArg OrderRequest.id
      (hs.single q hq r hr hsq hstatus (hcq.trans hhandler.symm)))

/-- A request is created under a number that was drawn. -/
theorem keeping_putRequest (hs : Sound s n) {r : OrderRequest} (hlt : r.id < n)
    (hlock : L (.lock (.request r.id))) (hnumber : L (.number r.id))
    (hnone : s.orderRequests.find? r.id = none) (hstatus : r.status = .pending)
    (hhandler : r.handler = none) :
    Keeping L s n { s with orderRequests := s.orderRequests.put r } := by
  have hne : ∀ x ∈ s.orderRequests, x.id ≠ r.id := KeyedTable.find?_eq_none.mp hnone
  have hold : ∀ x ∈ s.orderRequests, x ∈ s.orderRequests.put r := fun x hx =>
    KeyedTable.mem_put.mpr (.inr ⟨hx, hne x hx⟩)
  have hmem : ∀ x ∈ s.orderRequests.put r, x = r ∨ x ∈ s.orderRequests := fun x hx =>
    (KeyedTable.mem_put.mp hx).imp_right And.left
  have hpending : r.status ≠ .processing := by simp [hstatus]
  refine ⟨⟨fun x hx => ?_, fun x hx => ?_, fun x hx hsx => ?_, fun x hx y hy hsx hsy => ?_,
    fun x hx => ?_⟩, .put hlock fun _ => hnumber, fun q hq _ _ => ⟨hold q hq, rfl⟩, fun c hc => ?_⟩
  · rcases hmem x hx with rfl | hx
    · exact ⟨hlt, fun c hc => by simp [hhandler] at hc⟩
    · exact hs.fresh x hx
  · obtain ⟨q, hq, hid⟩ := hs.known x hx
    exact ⟨q, hold q hq, hid⟩
  · rcases hmem x hx with rfl | hx
    · exact absurd hsx hpending
    · exact hs.handled x hx hsx
  · rcases hmem x hx with rfl | hx
    · exact absurd hsx hpending
    · rcases hmem y hy with rfl | hy
      · exact absurd hsy hpending
      · exact hs.single x hx y hy hsx hsy
  · rcases hmem x hx with rfl | hx
    · have hempty : s.roundsOf x.id = [] := by
        refine List.filter_eq_nil_iff.mpr fun y hy hid => ?_
        obtain ⟨q, hq, hqid⟩ := hs.known y hy
        exact hne q hq (hqid.trans (of_decide_eq_true hid))
      rw [hstatus]
      exact congrArg List.length hempty
    · exact hs.fits x hx
  · obtain ⟨q, hq, hsq, hcq⟩ := hc
    rcases hmem q hq with rfl | hq
    · exact absurd hsq hpending
    · exact .inl ⟨q, hq, hsq, hcq⟩

/-- A round is punched for a request that has none and is being processed. -/
theorem keeping_punch (hs : Sound s n) {r : OrderRequest} (hr : r ∈ s.orderRequests)
    (hstatus : r.status = .processing) {c : ℕ} (hhandler : r.handler = some c)
    (hnumber : L (.number c)) (hnone : (s.roundsOf r.id).length = 0) (orderId : Billing.RowId) :
    Keeping L s n { s with rounds := s.rounds ++ [⟨r.id, orderId⟩] } ∧
      (ScanDb.roundsOf { s with rounds := s.rounds ++ [⟨r.id, orderId⟩] } r.id).length = 1 := by
  set s' : ScanDb := { s with rounds := s.rounds ++ [⟨r.id, orderId⟩] } with hs'
  have hself : s'.roundsOf r.id = s.roundsOf r.id ++ [⟨r.id, orderId⟩] := by
    simp [ScanDb.roundsOf, hs', List.filter_append]
  have hother : ∀ q ∈ s.orderRequests, q.id ≠ r.id → s'.roundsOf q.id = s.roundsOf q.id := by
    intro q _ hid
    simp [ScanDb.roundsOf, hs', List.filter_append, hid.symm]
  have hone : (s'.roundsOf r.id).length = 1 := by
    rw [hself, List.length_append, hnone]
    rfl
  refine ⟨⟨⟨hs.fresh, fun x hx => ?_, hs.handled, hs.single, fun q hq => ?_⟩, .refl _,
    fun q hq hsq hc => ⟨hq, ?_⟩, fun _ => .inl⟩, hone⟩
  · rcases List.mem_append.mp hx with hx | hx
    · exact hs.known x hx
    · rw [List.mem_singleton.mp hx]
      exact ⟨r, hr, rfl⟩
  · by_cases hid : q.id = r.id
    · obtain rfl := KeyedTable.eq_of_mem hq hr hid
      rw [hstatus, hone]
      exact Nat.le_refl 1
    · rw [hother q hq hid]
      exact hs.fits q hq
  · refine hother q hq fun hid => ?_
    obtain rfl := KeyedTable.eq_of_mem hq hr hid
    exact hc c hhandler hnumber

end Writes

/-! ### What lasts -/

/-- No decision is owed under these numbers. -/
def Free (N : ℕ → Prop) (s : ScanDb) : Prop := ∀ m, N m → ¬Owes m s

/-- A request that is being processed under one of these numbers, with so many rounds; under the
others no decision is owed. -/
structure Claimed (c : ℕ) (r : OrderRequest) (rounds : ℕ) (N : ℕ → Prop) (s : ScanDb) : Prop where
  number : N c
  mem : r ∈ s.orderRequests
  rounds : (s.roundsOf r.id).length = rounds
  others : ∀ m, N m → m ≠ c → ¬Owes m s

theorem Claimed.congr {c k : ℕ} {r : OrderRequest} {N : ℕ → Prop} {s s' : ScanDb}
    (h : Claimed c r k N s) (heq : s'.decisions = s.decisions) : Claimed c r k N s' := by
  cases s
  cases s'
  cases heq
  exact ⟨h.number, h.mem, h.rounds, h.others⟩

theorem stable_free {L : Hold LockKey → Prop} : decisionTerms.Stable L (Free (drawn L)) := by
  intro L' s n s' n' _ _ hother hstep hfree m hm howes
  exact (hstep.owed m howes).elim (hfree m hm) (hother _ hm)

theorem not_owes_next {s : ScanDb} {n : ℕ} (hs : Sound s n) : ¬Owes n s := by
  rintro ⟨r, hr, -, hn⟩
  exact lt_irrefl n ((hs.fresh r hr).2 n hn)

theorem lasting_free : Lasting decisionTerms.toDiscipline Free where
  stable L := by
    rw [← drawn_numbers]
    exact stable_free
  fresh N s n hs hfree m hm := by
    rcases hm with rfl | hm
    · exact not_owes_next hs
    · exact hfree m hm

theorem free_nothing : (fun _ => True) = Free (drawn (nothing : Hold LockKey → Prop)) :=
  funext fun _ => propext ⟨fun _ _ h => h.elim, fun _ => trivial⟩

variable {c k : ℕ} {r : OrderRequest} (hstatus : r.status = .processing)
  (hhandler : r.handler = some c)

include hstatus hhandler

theorem stable_claimed {L : Hold LockKey → Prop} :
    decisionTerms.Stable L (Claimed c r k (drawn L)) := by
  intro L' s n s' n' _ _ hother hstep h
  obtain ⟨hmem, hrounds⟩ := hstep.processed r h.mem hstatus fun c' hc' => by
    obtain rfl := Option.some.inj (hc'.symm.trans hhandler)
    exact hother _ h.number
  refine ⟨h.number, hmem, hrounds ▸ h.rounds, fun m hm hmc howes => ?_⟩
  exact (hstep.owed m howes).elim (h.others m hm hmc) (hother _ hm)

theorem lasting_claimed : Lasting decisionTerms.toDiscipline (Claimed c r k) where
  stable L := by
    rw [← drawn_numbers]
    exact stable_claimed hstatus hhandler
  fresh N s n hs h := by
    refine ⟨.inr h.number, h.mem, h.rounds, fun m hm hmc => ?_⟩
    rcases hm with rfl | hm
    · exact not_owes_next hs
    · exact h.others m hm hmc

/-- The request is decided or put back by who has claimed it. -/
theorem Claimed.release {N : ℕ → Prop} {L : Hold LockKey → Prop} {s : ScanDb} {n : ℕ}
    (h : Claimed c r k N s) (hs : Sound s n) (hN : ∀ m, N m → L (.number m))
    (hlock : L (.lock (.request r.id))) {f : OrderRequest → OrderRequest}
    (hf : ∀ r, (f r).id = r.id) (hnew : (f r).status ≠ .processing)
    (hfr : (f r).handler = r.handler) (hfits : (f r).status.Fits k) :
    Sound (s.updateRequest r.id f hf) n ∧ DecisionStep L s (s.updateRequest r.id f hf) ∧
      Free N (s.updateRequest r.id f hf) := by
  obtain ⟨hsound, hstep⟩ := keeping_updateRequest hs h.mem hlock hf
    (fun _ c' hc' => Option.some.inj (hhandler.symm.trans hc') ▸ hN c h.number)
    (fun hp => absurd hp hnew) (fun c' hc' => (hs.fresh r h.mem).2 c' (hfr ▸ hc'))
    (h.rounds.symm ▸ hfits)
  refine ⟨hsound, hstep, fun m hm howes => ?_⟩
  by_cases hmc : m = c
  · subst hmc
    exact not_owes_updateRequest hs h.mem hf hstatus hhandler hnew howes
  · obtain ⟨q, hq, hsq, hcq⟩ := howes
    rcases (mem_updateRequest_of_mem hf h.mem).mp hq with rfl | ⟨hq, -⟩
    · exact hnew hsq
    · exact h.others m hm hmc ⟨q, hq, hsq, hcq⟩

omit hstatus hhandler

/-! ### Methods -/

/-- Where a method ends. -/
abbrev Ends := decisionTerms.Settled Owes

theorem ends_of_free {L : Hold LockKey → Prop} {f : ScanDb → ScanDb}
    (a : Except ServiceError Unit) : Ends L (Free (drawn L)) f a :=
  ⟨fun _ _ _ _ => trivial, fun _ _ _ hfree => hfree⟩

section Accept

variable {L : Hold LockKey → Prop}

theorem findRequest_of_mem {s : ScanDb} (h : r ∈ s.orderRequests) : s.findRequest r.id = some r :=
  KeyedTable.find?_of_mem h

/-- The request that was claimed is decided, or put back. -/
theorem claimed_updateWhere (hstatus : r.status = .processing) (hhandler : r.handler = some c)
    {cond : ScanDb → Bool} (hcond : ∀ s, s.findRequest r.id = some r → cond s = true)
    {f : OrderRequest → OrderRequest} {hf : ∀ r, (f r).id = r.id}
    (hnew : (f r).status ≠ .processing) (hfr : (f r).handler = r.handler)
    (hfits : (f r).status.Fits k) (note : Note)
    {post : (Hold LockKey → Prop) → (ScanDb → Prop) → (ScanDb → ScanDb) →
      Except ServiceError Bool → Prop}
    (hpost : ∀ L, Idle L → post L (Free (drawn L)) id (.ok true)) :
    (autocommit note (updateWhere (.request r.id) cond (·.updateRequest r.id f hf)) :
      ServiceMethod ScanDb LockKey Note Bool).run.wp decisionTerms.toDiscipline
      decisionTerms.admits L (Claimed c r k (drawn L)) id post := by
  refine wp_atomically_updateWhere_sure (stable_claimed hstatus hhandler)
    (fun s n _ hK => hcond s (findRequest_of_mem hK.mem)) ⟨stable_free, fun s n hs _ hK _ => ?_⟩
    (hpost _ (idle_numbers _))
  rw [drawn_numbers, drawn_add_lock]
  exact hK.release hstatus hhandler hs (fun _ => .inr) (.inl rfl) hf hnew hfr hfits

theorem leaves_billing {b : Billing.BillingDb → Billing.BillingDb} : Leaves ScanDb.decisions
    fun db : ScanDb => { db with billing := b db.billing } := fun _ => rfl

/-- The order of a request that was claimed: a round is punched, or nothing is changed. -/
theorem ingestScanOrder_claimed (hstatus : r.status = .processing) (hhandler : r.handler = some c)
    (menu : Menu) {fails : List Point} (hfails : ∀ p ∈ fails, p = .ingest) (hL : Idle L)
    {post : (Hold LockKey → Prop) → (ScanDb → Prop) → (ScanDb → ScanDb) →
      Except ServiceError RowId → Prop}
    (hpunched : ∀ L orderId, Idle L → post L (Claimed c r 1 (drawn L)) id (.ok orderId))
    (hfailed : ∀ L e, Idle L → post L (Claimed c r 0 (drawn L)) id (.error e)) :
    (ingestScanOrder r menu fails).run.wp decisionTerms.toDiscipline decisionTerms.admits L
      (Claimed c r 0 (drawn L)) id post := by
  have hreadBack : Point.readBack ∉ fails := fun h => by cases hfails _ h
  simp only [ingestScanOrder, attempt, guardOr_pos hreadBack, pure_bind, bind_pure]
  by_cases hingest : Point.ingest ∉ fails
  · rw [guardOr_pos hingest, pure_bind]
    refine wp_atomically_lasting (lasting_claimed hstatus hhandler) ?_ fun e L hL => hfailed L e hL
    simp only [punchTx, Discipline.wp_bind]
    refine wp_leaves (g := fun v => v) (show Tx.Writes (Leaves ScanDb.decisions) _ from
      writes_onPart _ _ _ _ (fun _ => leaves_billing) _)
      ⟨stable_claimed hstatus hhandler, fun _ => rfl⟩ fun L₁ f₁ orderId hsub hrun => ?_
    rw [Discipline.wp_update, Discipline.wp_pure]
    refine ⟨Claimed c r 1 (drawn (numbers L₁)), ⟨stable_claimed hstatus hhandler, ?_⟩,
      hpunched _ _ (idle_numbers L₁)⟩
    rintro s n hs _ ⟨-, hK⟩ _
    obtain ⟨hkeep, hone⟩ := keeping_punch hs hK.mem hstatus hhandler hK.number hK.rounds orderId
    -- the order's tables are not what the terms are about
    have heq : ScanDb.decisions { f₁ s with rounds := (f₁ s).rounds ++ [⟨r.id, orderId⟩] } =
        ScanDb.decisions { s with rounds := s.rounds ++ [⟨r.id, orderId⟩] } := by
      obtain ⟨hrequests, hrounds⟩ := Prod.mk.inj (hrun.effect s)
      simp only [ScanDb.decisions, hrequests, hrounds]
    have hclaimed : Claimed c r 1 (drawn L₁) { s with rounds := s.rounds ++ [⟨r.id, orderId⟩] } :=
      ⟨hK.number, hK.mem, hone, hK.others⟩
    obtain ⟨hsound, hstep⟩ := hkeep.congr heq
    rw [drawn_numbers]
    exact ⟨hsound, hstep, hclaimed.congr heq⟩
  · rw [guardOr_neg hingest]
    exact hfailed L _ hL

/-- A request that was claimed is put back, and the failure is passed on. -/
theorem putBack_claimed (hstatus : r.status = .processing) (hhandler : r.handler = some c)
    {fails : List Point} (hfails : ∀ p ∈ fails, p = .ingest) (e : ServiceError)
    {post : (Hold LockKey → Prop) → (ScanDb → Prop) → (ScanDb → ScanDb) →
      Except ServiceError RowId → Prop}
    (hpost : ∀ L, Idle L → post L (Free (drawn L)) id (.error e)) (hL : Idle L) :
    (putBack r.id fails e).run.wp decisionTerms.toDiscipline decisionTerms.admits L
      (Claimed c r 0 (drawn L)) id post := by
  have hputBack : Point.putBack ∉ fails := fun h => by cases hfails _ h
  simp only [putBack, attempt, guardOr_pos hputBack, pure_bind]
  rw [wp_method_bind]
  refine claimed_updateWhere (k := 0) (f := (·.putBack)) hstatus hhandler (fun s hs => ?_)
    RequestStatus.noConfusion rfl rfl _ hpost
  rw [hs, Option.any_some, hstatus]
  rfl

/-- What an accept does after it has claimed a request. -/
theorem accept_claimed (hstatus : r.status = .processing) (hhandler : r.handler = some c)
    {user : AuthUser} (htenant : r.tenantId = user.tenantId) (houtlet : r.outletId ∈ user.outletIds)
    (menu : Menu) (now : Time) {fails : List Point} (hfails : ∀ p ∈ fails, p = .ingest)
    (hL : Idle L) :
    (do
      attempt fails .found
      let req ← requireRequest user r.id
      let orderId ← tryCatch (ingestScanOrder req menu fails) (putBack req.id fails)
      attempt fails .lastToken
      let last ← look fun db => db.lastToken req.outletId
      attempt fails .finish
      let updated ← autocommit (.accepted req.id (last + 1))
        (decideTx req.id (·.accept orderId (last + 1) now) fun _ => rfl)
      guardOr (updated = true) .database : ScanMethod Unit).run.wp decisionTerms.toDiscipline
      decisionTerms.admits L (Claimed c r 0 (drawn L)) id Ends := by
  have hpasses : ∀ p ≠ Point.ingest, p ∉ fails := fun p hp h => hp (hfails p h)
  simp only [attempt, guardOr_pos (hpasses .found (by decide)),
    guardOr_pos (hpasses .lastToken (by decide)), guardOr_pos (hpasses .finish (by decide)),
    pure_bind, requireRequest, assertOutlet, LawfulMonad.bind_assoc]
  rw [wp_method_bind]
  refine wp_look (stable_claimed hstatus hhandler) fun s n _ hK => ⟨fun _ => True, stable_true, trivial, ?_⟩
  have hfound : (s.findRequest r.id).filter (fun r => r.tenantId = user.tenantId) = some r := by
    rw [findRequest_of_mem hK.mem]
    exact Option.filter_some_pos (decide_eq_true htenant)
  simp only [id, hfound, getOr_some, pure_bind, guardOr_pos houtlet, and_true]
  rw [wp_method_bind, wp_tryCatch]
  refine ingestScanOrder_claimed hstatus hhandler menu hfails hL (fun L orderId hL => ?_)
    fun L e hL => putBack_claimed hstatus hhandler hfails e (fun L _ => ends_of_free _) hL
  simp only [onOk]
  rw [wp_method_bind]
  refine wp_look_any (stable_claimed hstatus hhandler) fun last => ?_
  rw [wp_method_bind]
  refine claimed_updateWhere (k := 1) (f := (·.accept orderId (last + 1) now)) hstatus hhandler
    (fun s hs => ?_) RequestStatus.noConfusion rfl rfl _ fun L _ => ?_
  · rw [hs]
    rfl
  · exact ends_of_free _

end Accept

/-- An accept keeps the terms, and owes no decision when it ends. -/
theorem accept_discharged (user : AuthUser) (requestId : ℕ) (menu : Menu) (now : Time)
    (fails : List Point) :
    decisionTerms.Discharges Owes (accept user requestId menu now fails).run := by
  unfold Terms.Discharges accept
  rw [free_nothing, wp_method_bind]
  refine wp_atomically_lasting lasting_free ?_ fun e L _ => ends_of_free _
  simp only [claimTx, Discipline.wp_bind]
  refine wp_draw stable_free fun s n hs _ => ⟨fun s => ¬Owes n s, ?_, not_owes_next hs, ?_⟩
  · intro L' s n' s' n'' _ _ hother hstep hnot howes
    exact (hstep.owed n howes).elim hnot (hother _ (.inl rfl))
  have hstable : decisionTerms.Stable (add nothing (.number n)) fun s =>
      Free (drawn (nothing : Hold LockKey → Prop)) s ∧ ¬Owes n s := by
    refine (stable_free.add _).and ?_
    intro L' s n' s' n'' _ _ hother hstep hnot howes
    exact (hstep.owed n howes).elim hnot (hother _ (.inl rfl))
  refine wp_updateWhere hstable (fun L' hL' => ?_) fun s m hs _ hcond => ?_
  · refine ⟨Free (drawn (numbers L')), ⟨stable_free, fun s n hs _ hK _ => ⟨hs, .refl _ s, ?_⟩⟩, ?_⟩
    · rw [drawn_numbers]
      exact hK.2
    · exact ends_of_free _
  obtain ⟨r, hfind, hr⟩ := (Option.any_eq_true _ _).mp hcond
  obtain ⟨htenant, houtlet, hpending⟩ := of_decide_eq_true hr
  obtain ⟨-, rfl⟩ := KeyedTable.find?_eq_some.mp hfind
  refine ⟨fun s => s.findRequest r.id = some r, (request_guards r.id).stable (.inl rfl) (· = some r),
    hfind, ?_⟩
  set L := add (add (nothing : Hold LockKey → Prop) (.number n)) (.lock (.request r.id)) with hL
  by_cases hfails : ∀ p ∈ fails, p = .ingest
  · refine ⟨Claimed n (r.claim n) 0 (drawn (numbers L)),
      ⟨stable_claimed rfl rfl, fun s m hs hdrawn hK _ => ?_⟩,
      accept_claimed (r := r.claim n) rfl rfl htenant
        houtlet menu now hfails (idle_numbers L)⟩
    obtain ⟨⟨⟨-, hnot⟩, hfind⟩, -⟩ := hK
    obtain ⟨hmem, -⟩ := KeyedTable.find?_eq_some.mp hfind
    have hnone : (s.roundsOf r.id).length = 0 := by
      have hfits := hs.fits r hmem
      rwa [hpending] at hfits
    have hnumber : L (.number n) := .inr (.inl rfl)
    obtain ⟨hsound, hstep⟩ := keeping_updateRequest (f := (·.claim n)) hs hmem (.inl rfl)
      (fun _ => rfl) (fun hp => by simp [hpending] at hp) (fun _ => ⟨n, rfl, hnumber, hnot⟩)
      (fun c hc => Option.some.inj hc ▸ hdrawn n hnumber) (Nat.le_of_eq hnone |>.trans (Nat.zero_le 1))
    refine ⟨hsound, hstep, ?_⟩
    rw [drawn_numbers]
    refine ⟨hnumber, (mem_updateRequest_of_mem _ hmem).mpr (.inl rfl), hnone, fun m hm hmn => ?_⟩
    rcases hm with hm | hm | hm
    · cases hm
    · exact absurd (Hold.number.inj hm) hmn
    · exact hm.elim
  · exact ⟨fun _ => False, ⟨fun _ _ _ _ _ _ _ _ _ h => h, fun _ _ _ _ _ hadmits => absurd hadmits hfails⟩,
      wp_absurd _ fun _ _ _ => ⟨fun _ _ _ h => h.elim, fun _ _ _ h => h.elim⟩⟩

/-- A reject keeps the terms, and owes no decision. -/
theorem reject_discharged (user : AuthUser) (requestId : ℕ) (now : Time) :
    decisionTerms.Discharges Owes (reject user requestId now).run := by
  unfold Terms.Discharges reject
  simp only [free_nothing, requireRequest, assertOutlet, LawfulMonad.bind_assoc, pure_bind]
  rw [wp_method_bind]
  refine wp_look_any stable_free fun row => ?_
  rw [wp_method_bind]
  refine wp_getOr (fun req _ => ?_) (ends_of_free _)
  rw [wp_method_bind]
  refine wp_guardOr (fun _ => ?_) (ends_of_free _)
  rw [wp_method_bind]
  refine wp_guardOr (fun _ => ?_) (ends_of_free _)
  rw [wp_method_bind]
  generalize req.id = id'
  refine wp_atomically_lasting lasting_free ?_ fun e L _ => ends_of_free _
  refine wp_updateWhere stable_free (fun L' _ => ?_) fun s n hs _ hcond => ?_
  · refine ⟨Free (drawn (numbers L')), ⟨stable_free, fun s n hs _ hK _ => ⟨hs, .refl _ s, ?_⟩⟩, ?_⟩
    · rw [drawn_numbers]
      exact hK.2
    · exact ends_of_free _
  obtain ⟨r, hfind⟩ := Option.isSome_iff_exists.mp hcond
  obtain ⟨-, rfl⟩ := KeyedTable.find?_eq_some.mp hfind
  set L := add (nothing : Hold LockKey → Prop) (.lock (.request r.id)) with hL
  refine ⟨fun s => s.findRequest r.id = some r, (request_guards r.id).stable (.inl rfl) (· = some r),
    hfind, Free (drawn (numbers L)), ⟨stable_free, ?_⟩, ends_of_free _⟩
  rintro s n hs _ ⟨⟨-, hfind⟩, hfree⟩ hadmits
  obtain ⟨hr, -⟩ := KeyedTable.find?_eq_some.mp hfind
  have hpending : r.status = .pending := hadmits r hr rfl
  have hfits := hs.fits r hr
  rw [hpending] at hfits
  obtain ⟨hsound, hstep⟩ := keeping_updateRequest (L := L) (f := (·.reject now)) hs hr (.inl rfl)
    (fun _ => rfl) (fun hp => by simp [hpending] at hp) RequestStatus.noConfusion
    (hs.fresh r hr).2 hfits
  refine ⟨hsound, hstep, fun m hm => ?_⟩
  rcases hm.1 with hm | hm
  · cases hm
  · exact hm.elim

/-- To create a request keeps the terms, and owes no decision. -/
theorem createRequest_discharged (sender : Sender) (menu : Menu) (input : SubmitOrderRequestInput) :
    decisionTerms.Discharges Owes (createRequest sender menu input).run := by
  unfold Terms.Discharges createRequest
  rw [free_nothing, wp_method_bind]
  change onOk _ _ nothing (Free (drawn nothing)) id (checkRound menu sender.outletId input.round)
  cases checkRound menu sender.outletId input.round with
  | error e => exact ends_of_free _
  | ok u => ?_
  refine wp_atomically_lasting lasting_free ?_ fun e L _ => ends_of_free _
  simp only [createRequestTx, Discipline.wp_bind]
  refine wp_draw stable_free fun s n hs _ => ⟨fun s => s.orderRequests.find? n = none, ?_, ?_, ?_⟩
  · have hrequests : ∀ L s s', decisionTerms.step L s s' →
        TableStep .request L s.orderRequests s'.orderRequests := fun _ _ _ h => h.requests
    exact TableStep.stable_absent hrequests (.inl rfl)
  · exact KeyedTable.find?_eq_none.mpr fun r hr => (hs.fresh r hr).1.ne
  rw [Discipline.wp_acquire, Discipline.wp_update]
  set L := add (add (nothing : Hold LockKey → Prop) (.number n)) (.lock (.request n)) with hL
  refine ⟨Free (drawn (numbers L)), ⟨stable_free, ?_⟩, ends_of_free _⟩
  rintro s m hs hdrawn ⟨⟨-, hnone⟩, hfree⟩ -
  have hnumber : L (.number n) := .inr (.inl rfl)
  obtain ⟨hsound, hstep⟩ := keeping_putRequest (L := L) (r := sender.request input n) hs
    (hdrawn n hnumber) (.inl rfl) hnumber hnone rfl rfl
  refine ⟨hsound, hstep, ?_⟩
  rw [drawn_numbers]
  rintro c hc ⟨q, hq, hsq, hcq⟩
  rcases KeyedTable.mem_put.mp hq with rfl | ⟨hq, -⟩
  · cases hsq
  · exact hfree c hc ⟨q, hq, hsq, hcq⟩

theorem decision_discharged (r : ScanRequest) : decisionTerms.Discharges Owes r.run.run := by
  cases r with
  | createRequest sender menu input => exact createRequest_discharged sender menu input
  | accept user requestId menu now fails => exact accept_discharged user requestId menu now fails
  | reject user requestId now => exact reject_discharged user requestId now

/-! ### All interleavings -/

/-- Every request is decided once, and by the end of the accept that claimed it. -/
structure DecidedOnce (w : ScanWorld) : Prop where
  once : ∀ r ∈ w.db.orderRequests, (w.db.roundsOf r.id).length ≤ 1
  rejected : ∀ r ∈ w.db.orderRequests, r.status = .rejected → w.db.roundsOf r.id = []
  accepted : ∀ r ∈ w.db.orderRequests, r.status = .accepted → (w.db.roundsOf r.id).length = 1
  /-- The accept that has claimed the request is in progress. -/
  attended : ∀ r ∈ w.db.orderRequests, r.status = .processing →
    ∃ c, r.handler = some c ∧ ∃ p ∈ w.sessions, .number c ∈ p.2.held

theorem not_owes_init {db : ScanDb} (h : db.orderRequests = .empty) (c : ℕ) : ¬Owes c db := by
  rintro ⟨r, hr, -⟩
  rw [h] at hr
  cases hr

theorem sound_init {db : ScanDb} {n : ℕ} (h : db.orderRequests = .empty ∧ db.rounds = []) :
    Sound db n := by
  have hnone : ∀ r, r ∉ db.orderRequests := by
    rw [h.1]
    exact KeyedTable.notMem_empty
  refine ⟨fun r hr => absurd hr (hnone r), fun x hx => ?_, fun r hr => absurd hr (hnone r),
    fun r hr => absurd hr (hnone r), fun r hr => absurd hr (hnone r)⟩
  rw [h.2] at hx
  cases hx

/-- The order is committed but not read back, so that the request is put back and accepted
again. -/
def acceptTwiceRun : List (WorldAction ScanRequest Empty) :=
  .start 0 askForDosa :: WorldAction.steps 0 10 ++
    .start 0 (acceptRequest 1 [.readBack]) :: WorldAction.steps 0 60 ++
    .start 0 (acceptRequest 1 []) :: WorldAction.steps 0 60

end StelloKitchens.ScanOrder
