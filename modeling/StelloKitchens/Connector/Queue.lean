import StelloKitchens.Connector.Ingest

/-!
# Acknowledged orders

The connector puts an order that is delivered to it on a queue, under an id made of the platform
and the order's id there, and answers 202. A worker forwards the orders to the API; what fails is
tried again a number of times, and then kept as failed. To add a job under an id that is there
changes nothing, also if that job has failed for good.

## Main definitions

* `Job`, `Queue` — the jobs, and the orders that the API has ingested.
* `order`, `Queue.process` — a delivery, and an attempt to forward an order.
* `connectorQueue` — the deliveries and the attempts, in any order.

## Main results

* `jobId_injective` — orders with the same id of their jobs are the same.
* `acknowledged` — when an order that is acknowledged is ingested or on the queue.
-/

namespace StelloKitchens.Connector

open Checked Service

/-! ### Orders -/

structure CanonicalItem where
  externalItemId : String
  quantity : Binary64
  deriving DecidableEq

/-- An order as an adapter makes it of a delivery. -/
structure CanonicalOrder where
  platform : AggregatorPlatform
  externalOrderId : String
  outletId : String
  items : List CanonicalItem
  customerName : Option String
  customerPhoneMasked : Option String
  orderValue : Binary64
  deriving DecidableEq

def CanonicalOrder.key (o : CanonicalOrder) : AggregatorPlatform × String :=
  (o.platform, o.externalOrderId)

def platformName : AggregatorPlatform → String
  | .zomato => "ZOMATO"
  | .swiggy => "SWIGGY"
  | .ondc => "ONDC"
  | .urbanPiper => "URBANPIPER"

/-- The id of an order's job. -/
def CanonicalOrder.jobId (o : CanonicalOrder) : String :=
  platformName o.platform ++ "__" ++ o.externalOrderId

/-- The platforms that have an adapter. -/
def adapters : List AggregatorPlatform := [.zomato, .swiggy, .ondc, .urbanPiper]

/-- The letters of a name in lower case. -/
def lower (s : String) : List Char := s.toList.map Char.toLower

/-- The adapter of a platform, by its name in any case. -/
def adapterOf (platform : String) : Except ServiceError AggregatorPlatform :=
  orThrow (adapters.find? fun a => lower (platformName a) = lower platform)
    (.badRequest ("No adapter for platform \"" ++ platform ++ "\""))

/-! ### The queue -/

inductive JobStatus
  | waiting
  | active
  | delayed
  | completed
  | failed
  deriving DecidableEq

structure Job where
  id : String
  data : CanonicalOrder
  status : JobStatus
  attemptsMade : ℕ
  /-- How often the worker has stopped while it was active. -/
  stalled : ℕ
  deriving DecidableEq

/-- The job is still going to be tried. -/
def Job.Live (j : Job) : Prop := j.status = .waiting ∨ j.status = .active ∨ j.status = .delayed

instance (j : Job) : Decidable j.Live := inferInstanceAs (Decidable (_ ∨ _))

/-- How jobs are tried and kept. -/
structure JobOptions where
  attempts : ℕ
  removeOnComplete : ℕ
  removeOnFail : ℕ

def jobOptions : JobOptions := ⟨5, 200, 500⟩

/-- The jobs, the ids of those that are finished, the latest first, and the orders that the API has
ingested. -/
structure Queue where
  jobs : KeyedTable Job.id
  completed : List String
  failed : List String
  ingested : List (AggregatorPlatform × String)
  deriving DecidableEq

namespace Queue

/-- Add a job, if there is none under its id. -/
def add (q : Queue) (o : CanonicalOrder) : Queue :=
  match q.jobs.find? o.jobId with
  | some _ => q
  | none => { q with jobs := q.jobs.put ⟨o.jobId, o, .waiting, 0, 0⟩ }

def update (q : Queue) (id : String) (f : Job → Job) (hf : ∀ j, (f j).id = j.id) : Queue :=
  { q with jobs := q.jobs.modify (fun j => j.id = id) f hf }

/-- Remove jobs. -/
def remove (q : Queue) (ids : List String) : Queue :=
  { q with jobs := q.jobs.delete fun j => j.id ∈ ids }

/-- A job is done; of those that are, the latest are kept. -/
def complete (q : Queue) (id : String) : Queue :=
  let done := id :: q.completed
  { q.update id (fun j => { j with status := .completed }) fun _ => rfl with
    completed := done.take jobOptions.removeOnComplete }.remove
      (done.drop jobOptions.removeOnComplete)

/-- A job has failed for good; of those that have, the latest are kept. -/
def giveUp (q : Queue) (id : String) : Queue :=
  let done := id :: q.failed
  { q.update id (fun j => { j with status := .failed }) fun _ => rfl with
    failed := done.take jobOptions.removeOnFail }.remove (done.drop jobOptions.removeOnFail)

/-- A try of a job has failed. -/
def retryOrGiveUp (q : Queue) (j : Job) : Queue :=
  let q := q.update j.id (fun j => { j with attemptsMade := j.attemptsMade + 1 }) fun _ => rfl
  if j.attemptsMade + 1 < jobOptions.attempts then
    q.update j.id (fun j => { j with status := .delayed }) fun _ => rfl
  else q.giveUp j.id

end Queue

/-! ### Deliveries -/

/-- A delivery: the platform in its path, whether there is a body, and what the adapters' checks
of the signature and readings of the body come to. -/
structure Delivery where
  platform : String
  rawBody : Bool
  verifySignature : AggregatorPlatform → Except ServiceError Unit
  externalOrderId : AggregatorPlatform → Except ServiceError String
  outletId : String
  items : List CanonicalItem
  customerName : Option String
  customerPhoneMasked : Option String
  orderValue : Binary64
  /-- The queue can be reached. -/
  queueUp : Bool

/-- The order that an adapter reads. -/
def Delivery.parseOrder (d : Delivery) (platform : AggregatorPlatform) :
    Except ServiceError CanonicalOrder := do
  let externalOrderId ← d.externalOrderId platform
  return ⟨platform, externalOrderId, d.outletId, d.items, d.customerName, d.customerPhoneMasked,
    d.orderValue⟩

/-- The order of a delivery that is answered 202. -/
def Delivery.accepted (d : Delivery) : Except ServiceError CanonicalOrder := do
  let adapter ← adapterOf d.platform
  ensure (d.rawBody = true) .database
  d.verifySignature adapter
  let order ← d.parseOrder adapter
  ensure (d.queueUp = true) .database
  return order

/-- A delivery is queued and answered. -/
def order (q : Queue) (d : Delivery) : Except ServiceError CanonicalOrder × Queue :=
  match d.accepted with
  | .ok o => (.ok o, q.add o)
  | .error e => (.error e, q)

/-! ### Attempts -/

/-- How the API answers an attempt: it has ingested the order and says so, it has and its answer
is lost, or it has not. -/
inductive Attempt
  | answered
  | answerLost
  | failed
  deriving DecidableEq

inductive QueueAction
  | deliver (d : Delivery)
  /-- The worker takes up a job. -/
  | start (id : String)
  /-- The worker forwards the order of a job. -/
  | process (id : String) (attempt : Attempt)
  /-- The delay of a job is over. -/
  | wake (id : String)
  /-- The worker stops while it has a job, which the API has perhaps ingested. -/
  | stall (id : String) (ingested : Bool)

namespace Queue

def start (q : Queue) (id : String) : Queue :=
  match q.jobs.find? id with
  | some j =>
    if j.status = .waiting then q.update id (fun j => { j with status := .active }) fun _ => rfl
    else q
  | none => q

/-- An order is forwarded to the API. -/
def process (q : Queue) (id : String) (attempt : Attempt) : Queue :=
  match q.jobs.find? id with
  | some j =>
    if j.status = .active then
      match attempt with
      | .answered => { q with ingested := j.data.key :: q.ingested }.complete id
      | .answerLost => { q with ingested := j.data.key :: q.ingested }.retryOrGiveUp j
      | .failed => q.retryOrGiveUp j
    else q
  | none => q

def wake (q : Queue) (id : String) : Queue :=
  match q.jobs.find? id with
  | some j =>
    if j.status = .delayed then q.update id (fun j => { j with status := .waiting }) fun _ => rfl
    else q
  | none => q

/-- A job whose worker has stopped waits again, the first time. -/
def stall (q : Queue) (id : String) (ingested : Bool) : Queue :=
  match q.jobs.find? id with
  | some j =>
    if j.status = .active then
      let q := if ingested then { q with ingested := j.data.key :: q.ingested } else q
      if j.stalled = 0 then
        q.update id (fun j => { j with status := .waiting, stalled := j.stalled + 1 }) fun _ => rfl
      else q.giveUp id
    else q
  | none => q

def step (q : Queue) : QueueAction → Queue
  | .deliver d => (order q d).2
  | .start id => q.start id
  | .process id attempt => q.process id attempt
  | .wake id => q.wake id
  | .stall id ingested => q.stall id ingested

end Queue

/-- Deliveries and attempts in any order, from an empty queue. -/
def connectorQueue : Machine Queue QueueAction where
  init q := q.jobs = .empty ∧ q.completed = [] ∧ q.failed = [] ∧ q.ingested = []
  step := Queue.step

/-! ### The ids of jobs -/

theorem jobId_injective {o o' : CanonicalOrder} (h : o.jobId = o'.jobId) : o.key = o'.key := by
  obtain ⟨platform, externalOrderId, _⟩ := o
  obtain ⟨platform', externalOrderId', _⟩ := o'
  have hlist := congrArg String.toList h
  simp only [CanonicalOrder.jobId, String.toList_append, List.append_assoc] at hlist
  -- the names of the platforms begin with different letters
  have hplatform : platform = platform' := by
    cases platform <;> cases platform' <;> first | rfl | (simp [platformName] at hlist)
  subst hplatform
  have hid := List.append_cancel_left (List.append_cancel_left hlist)
  exact congrArg (platform, ·) (String.toList_injective hid)

theorem jobId_of_key {o o' : CanonicalOrder} (h : o.key = o'.key) : o.jobId = o'.jobId := by
  obtain ⟨hplatform, hid⟩ := Prod.mk.inj h
  rw [CanonicalOrder.jobId, hplatform, hid]
  rfl

/-! ### What is on the queue -/

/-- Every job has the id of its order, and what is completed has been ingested. -/
structure Queue.Sound (q : Queue) : Prop where
  ids : ∀ j ∈ q.jobs, j.id = j.data.jobId
  completed : ∀ j ∈ q.jobs, j.status = .completed → j.data.key ∈ q.ingested

namespace Queue

variable {q : Queue}

theorem Sound.congr (h : q.Sound) {q' : Queue} (hjobs : q'.jobs = q.jobs)
    (hingested : q'.ingested = q.ingested) : q'.Sound :=
  ⟨hjobs ▸ h.ids, hjobs ▸ hingested ▸ h.completed⟩

theorem Sound.remove (h : q.Sound) (ids : List String) : (q.remove ids).Sound where
  ids j hj := h.ids j (KeyedTable.mem_delete.mp hj).1
  completed j hj := h.completed j (KeyedTable.mem_delete.mp hj).1

/-- Jobs are changed that keep their orders, and are completed only if these are ingested. -/
theorem Sound.update (h : q.Sound) {id : String} {f : Job → Job} (hf : ∀ j, (f j).id = j.id)
    (hdata : ∀ j, (f j).data = j.data) (hdone : ∀ j ∈ q.jobs, j.id = id →
      (f j).status = .completed → j.data.key ∈ q.ingested) : (q.update id f hf).Sound := by
  have hmem : ∀ x ∈ (q.update id f hf).jobs, ∃ j ∈ q.jobs, x.data = j.data ∧ x.id = j.id ∧
      (x.status = .completed → j.data.key ∈ q.ingested) := by
    intro x hx
    obtain ⟨j, hj, rfl⟩ := (KeyedTable.mem_modify hf).mp hx
    by_cases hid : j.id = id
    · rw [if_pos (decide_eq_true hid)]
      exact ⟨j, hj, hdata j, hf j, hdone j hj hid⟩
    · rw [if_neg (by simpa using hid)]
      exact ⟨j, hj, rfl, rfl, h.completed j hj⟩
  refine ⟨fun x hx => ?_, fun x hx hstatus => ?_⟩
  · obtain ⟨j, hj, hxdata, hid, -⟩ := hmem x hx
    rw [hxdata, hid]
    exact h.ids j hj
  · obtain ⟨j, hj, hxdata, -, hxdone⟩ := hmem x hx
    rw [hxdata]
    exact hxdone hstatus

/-- The API ingests an order. -/
theorem Sound.ingest (h : q.Sound) (key : AggregatorPlatform × String) :
    Sound { q with ingested := key :: q.ingested } where
  ids := h.ids
  completed j hj hstatus := List.mem_cons_of_mem key (h.completed j hj hstatus)

/-- A job is changed that is not completed then. -/
theorem Sound.update_of_ne (h : q.Sound) {id : String} {f : Job → Job} (hf : ∀ j, (f j).id = j.id)
    (hdata : ∀ j, (f j).data = j.data) (hstatus : ∀ j, j.status ≠ .completed →
      (f j).status ≠ .completed) : (q.update id f hf).Sound :=
  h.update hf hdata fun j hj _ hdone => h.completed j hj (by
    by_contra hne
    exact hstatus j hne hdone)

theorem Sound.giveUp (h : q.Sound) (id : String) : (q.giveUp id).Sound := by
  have hfailed : (q.update id (fun j => { j with status := .failed }) fun _ => rfl).Sound :=
    h.update_of_ne _ (fun _ => rfl) fun _ _ => JobStatus.noConfusion
  unfold Queue.giveUp
  refine Sound.remove ?_ _
  exact hfailed.congr rfl rfl

theorem Sound.complete (h : q.Sound) {id : String}
    (hdone : ∀ j ∈ q.jobs, j.id = id → j.data.key ∈ q.ingested) : (q.complete id).Sound := by
  have hcompleted := h.update (f := fun j => { j with status := .completed }) (fun _ => rfl)
    (fun _ => rfl) fun j hj hid _ => hdone j hj hid
  unfold Queue.complete
  refine Sound.remove ?_ _
  exact hcompleted.congr rfl rfl

theorem Sound.retryOrGiveUp (h : q.Sound) (j : Job) : (q.retryOrGiveUp j).Sound := by
  have hcounted : (q.update j.id (fun j => { j with attemptsMade := j.attemptsMade + 1 })
      fun _ => rfl).Sound := h.update_of_ne _ (fun _ => rfl) fun _ hne => hne
  unfold Queue.retryOrGiveUp
  dsimp only
  split
  · exact hcounted.update_of_ne _ (fun _ => rfl) fun _ _ => JobStatus.noConfusion
  · exact hcounted.giveUp j.id

theorem Sound.add (h : q.Sound) (o : CanonicalOrder) : (q.add o).Sound := by
  unfold Queue.add
  split
  · exact h
  refine ⟨fun j hj => ?_, fun j hj hstatus => ?_⟩
  · rcases KeyedTable.mem_put.mp hj with rfl | ⟨hj, -⟩
    · rfl
    · exact h.ids j hj
  · rcases KeyedTable.mem_put.mp hj with rfl | ⟨hj, -⟩
    · cases hstatus
    · exact h.completed j hj hstatus

theorem Sound.process (h : q.Sound) (id : String) (attempt : Attempt) :
    (q.process id attempt).Sound := by
  unfold Queue.process
  split
  · rename_i j hfind
    obtain ⟨hj, rfl⟩ := KeyedTable.find?_eq_some.mp hfind
    split
    · have hingested := h.ingest j.data.key
      cases attempt with
      | answered =>
        refine hingested.complete fun i hi hid => ?_
        rw [KeyedTable.eq_of_mem hi hj hid]
        exact List.mem_cons_self
      | answerLost => exact hingested.retryOrGiveUp j
      | failed => exact h.retryOrGiveUp j
    · exact h
  · exact h

theorem Sound.stall (h : q.Sound) (id : String) (ingested : Bool) : (q.stall id ingested).Sound := by
  unfold Queue.stall
  split
  · rename_i j hfind
    split
    · have hingested : Sound (if ingested = true then { q with ingested := j.data.key :: q.ingested }
          else q) := by
        split
        · exact h.ingest j.data.key
        · exact h
      dsimp only
      split
      · exact hingested.update_of_ne _ (fun _ => rfl) fun _ _ => JobStatus.noConfusion
      · exact hingested.giveUp id
    · exact h
  · exact h

theorem Sound.step (h : q.Sound) (a : QueueAction) : (q.step a).Sound := by
  cases a with
  | deliver d =>
    change (order q d).2.Sound
    unfold order
    split
    · exact h.add _
    · exact h
  | start id =>
    change (q.start id).Sound
    unfold Queue.start
    split
    · split
      · exact h.update_of_ne _ (fun _ => rfl) fun _ _ => JobStatus.noConfusion
      · exact h
    · exact h
  | process id attempt => exact h.process id attempt
  | wake id =>
    change (q.wake id).Sound
    unfold Queue.wake
    split
    · split
      · exact h.update_of_ne _ (fun _ => rfl) fun _ _ => JobStatus.noConfusion
      · exact h
    · exact h
  | stall id ingested => exact h.stall id ingested

end Queue

theorem sound_of_reachable {q : Queue} (h : connectorQueue.Reachable q) : q.Sound := by
  refine Machine.invariant (fun q hq => ?_) (fun q a _ ih _ => ih.step a) h
  have hnone : ∀ j, j ∉ q.jobs := by
    rw [hq.1]
    exact KeyedTable.notMem_empty
  exact ⟨fun j hj => absurd hj (hnone j), fun j hj => absurd hj (hnone j)⟩

/-! ### Acknowledged orders -/

/-- The order of a delivery that is answered 202 is ingested, or a job for it is still going to be
tried. -/
def Acknowledged (q : Queue) (d : Delivery) : Prop :=
  ∀ o, (order q d).1 = .ok o → o.key ∈ (order q d).2.ingested ∨
    ∃ j ∈ (order q d).2.jobs.rows, j.data.key = o.key ∧ j.Live

/-- A delivery that is answered 202 is safe if and only if its order has been ingested before, or no
job has failed for good that is kept under the id of its order. -/
theorem acknowledged_iff {q : Queue} (h : connectorQueue.Reachable q) (d : Delivery) :
    Acknowledged q d ↔ ∀ o, d.accepted = .ok o → o.key ∈ q.ingested ∨
      ∀ j ∈ q.jobs.rows, j.id = o.jobId → j.status ≠ .failed := by
  have hsound := sound_of_reachable h
  unfold Acknowledged order
  cases haccepted : d.accepted with
  | error e => simp
  | ok o =>
    simp only [Except.ok.injEq, forall_eq']
    cases hfind : q.jobs.find? o.jobId with
    | none =>
      have hnew : (⟨o.jobId, o, .waiting, 0, 0⟩ : Job) ∈ (q.add o).jobs.rows := by
        simp only [Queue.add, hfind]
        exact KeyedTable.mem_put.mpr (.inl rfl)
      refine ⟨fun _ => .inr fun j hj hid => ?_, fun _ => .inr ⟨_, hnew, rfl, .inl rfl⟩⟩
      exact absurd hid (KeyedTable.find?_eq_none.mp hfind j hj)
    | some j =>
      obtain ⟨hj, hid⟩ := KeyedTable.find?_eq_some.mp hfind
      have hadd : q.add o = q := by simp only [Queue.add, hfind]
      have hkey : j.data.key = o.key := jobId_injective ((hsound.ids j hj).symm.trans hid)
      rw [hadd]
      by_cases hingested : o.key ∈ q.ingested
      · simp only [hingested, true_or]
      simp only [hingested, false_or]
      constructor
      · rintro ⟨i, hi, hikey, hlive⟩ x hx hxid hfailed
        obtain rfl := KeyedTable.eq_of_mem hx hj (hxid.trans hid.symm)
        obtain rfl := KeyedTable.eq_of_mem hi hj
          ((hsound.ids i hi).trans ((jobId_of_key hikey).trans hid.symm))
        rcases hlive with h | h | h <;> simp [h] at hfailed
      · intro hnot
        have hfailed : j.status ≠ .failed := hnot j hj hid
        have hcompleted : j.status ≠ .completed := fun hdone =>
          hingested (hkey ▸ hsound.completed j hj hdone)
        refine ⟨j, hj, hkey, ?_⟩
        unfold Job.Live
        cases hstatus : j.status <;> simp_all

/-- Zomato delivers an order for a dosa. -/
def dosaDelivery : Delivery :=
  ⟨"zomato", true, fun _ => .ok (), fun _ => .ok "Z1", "o", [⟨"zd", .ofRat 1⟩], none, none,
    .ofRat 100, true⟩

/-- The API cannot be reached in any of the attempts to forward the order. -/
def outage : List QueueAction :=
  .deliver dosaDelivery :: (List.replicate 5
    [.wake "ZOMATO__Z1", .start "ZOMATO__Z1", .process "ZOMATO__Z1" .failed]).flatten

/-- A delivery after the last attempt is acknowledged, and nothing comes of it. -/
theorem not_acknowledged : ¬∀ q, connectorQueue.Reachable q → ∀ d, Acknowledged q d := by
  intro h
  have hreach := Machine.reachable_run outage (.init ⟨rfl, rfl, rfl, rfl⟩ :
    connectorQueue.Reachable ⟨.empty, [], [], []⟩)
  have hlost := h _ hreach dosaDelivery ⟨.zomato, "Z1", "o", [⟨"zd", .ofRat 1⟩], none, none, .ofRat 100⟩
  revert hlost
  decide +kernel

/-- A delivery while the API cannot be reached for the first time. -/
theorem acknowledged_iff_retried :
    let q := connectorQueue.run ⟨.empty, [], [], []⟩ (outage.take 4)
    q.jobs.rows.map (·.status) = [.delayed] ∧ (Acknowledged q dosaDelivery ↔
      ∀ o, dosaDelivery.accepted = .ok o → o.key ∈ q.ingested ∨
        ∀ j ∈ q.jobs.rows, j.id = o.jobId → j.status ≠ .failed) := by
  intro q
  have hreach : connectorQueue.Reachable q :=
    Machine.reachable_run (outage.take 4) (.init ⟨rfl, rfl, rfl, rfl⟩)
  exact ⟨by decide +kernel, acknowledged_iff hreach dosaDelivery⟩

end StelloKitchens.Connector
