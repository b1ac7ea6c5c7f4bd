import StelloKitchens.Cloud.Deliveries
import StelloKitchens.Edge.ClosedOrders
import StelloKitchens.Edge.Retention

/-!
# The device and the cloud together

A device pushes its outbox to the cloud while it goes on selling. The operations of a delivery are
applied one after another, each in a transaction of its own, among those of other deliveries; a delivery
may come late or break off anywhere, and its answer may be lost. The device then pushes again, under
whatever activation of its terminal it has by then.

## Main definitions

* `exchange` — the device, the cloud, and the deliveries that are under way.

## Main results

* `sales_arrive` — what the device takes for accepted is stored once, as it was sold, and nothing
  else is.
-/

namespace StelloKitchens

open CloudDb

/-! ### Deliveries under way -/

/-- How far the operation is that a delivery comes to next. -/
inductive Phase
  | next
  /-- Its transaction is running. -/
  | running
  /-- A unique key was taken when it would have been committed. -/
  | lost
  deriving DecidableEq

/-- A push that is under way. -/
structure Delivery where
  device : EdgeDeviceContext
  skewMs : ℤ
  /-- What is still to be applied. -/
  ops : List EdgeOutboxOp
  phase : Phase
  results : List EdgeOpResult
  /-- The device waits for the answer. -/
  awaited : Bool

/-- A step of a delivery at the cloud. -/
inductive DeliveryStep
  /-- A kitchen update is applied; an order is looked up, before its transaction and after one that
  found a key taken. -/
  | look (now : Time)
  /-- A transaction reaches its end, with what its statements read, or the database fails it. -/
  | finish (r : Option Reads)

namespace Delivery

/-- The next operation has its result. -/
def done (d : Delivery) (r : EdgeOpResult) : Delivery :=
  { d with ops := d.ops.tail, phase := .next, results := d.results ++ [r] }

def advance (d : Delivery) (c : CloudState) : DeliveryStep → CloudState × Delivery
  | .look now =>
    match d.ops with
    | [] => (c, d)
    | .kotStatus key clientId lines :: _ =>
      (c.step (.kotStatus d.device key clientId lines now),
        d.done (c.db.applyKotStatus d.device key clientId lines now).2)
    | .order key order :: _ =>
      match d.phase, c.db.findOrder d.device order.clientId with
      | .running, _ => (c, d)
      | _, some existing => (c, d.done (duplicateResult key existing))
      | .next, none => (c, { d with phase := .running })
      | .lost, none => (c, d.done (retryResult key "Invoice number collision; will retry"))
  | .finish r =>
    match d.ops, d.phase, r with
    | .kotStatus key _ _ :: _, _, none => (c, d.done (retryResult key "Temporary server error"))
    | .order key _ :: _, .running, none => (c, d.done (retryResult key "Temporary server error"))
    | .order key order :: _, .running, some r =>
      if r.Seen c.db d.device order then
        (c.commit ⟨d.device, order, d.skewMs⟩ r,
          match c.db.insertOrder d.device order d.skewMs r with
          | .ok (_, sale) => d.done (storedResult key sale)
          | .error .p2002 => { d with phase := .lost }
          | .error (.rejectOp message) =>
            d.done ⟨key, .rejected, none, order.billNo.map (·.number), [], some message⟩
          | .error .database => d.done (retryResult key "Temporary server error"))
      else (c, d)
    | _, _, _ => (c, d)

end Delivery

/-! ### The machine -/

structure Exchange where
  device : EdgeState
  /-- The results that have reached the device. -/
  heard : List EdgeOpResult
  cloud : CloudState
  deliveries : List Delivery

inductive ExchangeAction
  /-- The device acts on its own, or gives a push up. -/
  | device (a : EdgeAction)
  /-- The device pushes under an activation of its terminal. -/
  | push (now : Time) (edgeDeviceId seriesCode : String) (skewMs : ℤ)
  /-- Another terminal pushes. -/
  | other (device : EdgeDeviceContext) (skewMs : ℤ) (ops : List EdgeOutboxOp)
  | serve (n : ℕ) (a : DeliveryStep)
  /-- A delivery is lost or breaks off. -/
  | abort (n : ℕ)
  /-- The answer of a delivery reaches the device. -/
  | answer (n : ℕ) (now : Time) (random : ℕ → Binary64) (serverTime : Stamp)

namespace Exchange

/-- The device acts; if it waits for nothing afterwards, no answer is awaited. -/
def act (w : Exchange) (a : EdgeAction) : Exchange where
  device := w.device.step a
  heard := w.heard ++ a.results w.device
  cloud := w.cloud
  deliveries := w.deliveries.map fun d =>
    { d with awaited := d.awaited && (w.device.step a).awaiting.isSome }

/-- The device is one of the terminal `home`. -/
def step (home : EdgeDeviceContext) (w : Exchange) : ExchangeAction → Exchange
  | .device (.pushSend _) => w
  | .device (.pushReply ..) => w
  | .device a => w.act a
  | .push now edgeDeviceId seriesCode skewMs =>
    if w.device.awaiting = none then
      let w' := w.act (.pushSend now)
      { w' with deliveries := w'.deliveries ++ w'.device.awaiting.toList.map fun req =>
        ⟨{ home with edgeDeviceId, seriesCode }, skewMs, req.ops, .next, [], true⟩ }
    else w
  | .other device skewMs ops =>
    if device.terminalId = home.terminalId then w
    else { w with deliveries := w.deliveries ++ [⟨device, skewMs, ops, .next, [], false⟩] }
  | .serve n a =>
    match w.deliveries[n]? with
    | none => w
    | some d => { w with
        cloud := (d.advance w.cloud a).1
        deliveries := w.deliveries.set n (d.advance w.cloud a).2 }
  | .abort n => { w with deliveries := w.deliveries.eraseIdx n }
  | .answer n now random serverTime =>
    match w.deliveries[n]? with
    | none => w
    | some d =>
      if d.device.terminalId = home.terminalId ∧ d.awaited ∧ d.ops = [] then
        { w with deliveries := w.deliveries.eraseIdx n }.act
          (.pushReply now random ⟨d.results, serverTime⟩)
      else w

end Exchange

/-- A fresh device, and a cloud that has no order of its terminal. -/
def exchange (home : EdgeDeviceContext) : Machine Exchange ExchangeAction where
  init w := edgeEngine.init w.device ∧ w.heard = [] ∧ w.cloud.journal = [] ∧
    w.cloud.initial = w.cloud.db ∧ w.cloud.db.Keyed ∧
    (∀ o ∈ w.cloud.db.orders, o.deviceId ≠ home.terminalId) ∧ w.deliveries = []
  step := Exchange.step home

/-! ### What holds in every state -/

/-- The order is the payload of a closed order, which the device still has as it was sent. -/
def Sold (s : EdgeState) (order : EdgeOrderInput) : Prop :=
  ∃ o : Order, order = orderPayload o ∧ o.status ≠ .opened ∧ o.clientId ∈ s.issued ∧
    ∀ r ∈ s.db.orders, r.clientId = o.clientId → r.state.served = o.served

/-- The operation is of the device: an order goes under its own id, and a kitchen update under none. -/
def Sent (s : EdgeState) : EdgeOutboxOp → Prop
  | .order key order => key = order.clientId ∧ Sold s order
  | .kotStatus key _ _ => ∀ c : Uuid, key ≠ c.text

/-- The cloud has stored the order of the terminal. -/
def Stored (home : EdgeDeviceContext) (journal : List Filed) (clientId : String) : Prop :=
  ∃ f ∈ journal, f.saleKey = (home.terminalId, clientId)

/-- An answer that accepts an order is given only when the order is stored. -/
def Truthful (home : EdgeDeviceContext) (journal : List Filed) (r : EdgeOpResult) : Prop :=
  ∀ c : Uuid, r.key = c.text → r.status.Accepts → Stored home journal c.text

/-- What holds of a delivery, which may be of the terminal. -/
structure Delivery.Faithful (home : EdgeDeviceContext) (s : EdgeState) (journal : List Filed)
    (d : Delivery) : Prop where
  ops : d.device.terminalId = home.terminalId → ∀ op ∈ d.ops, Sent s op
  results : d.device.terminalId = home.terminalId → ∀ r ∈ d.results, Truthful home journal r

/-- What holds of the cloud. -/
structure CloudState.Faithful (home : EdgeDeviceContext) (s : EdgeState) (c : CloudState) : Prop where
  replayed : Replayed c.initial c.db c.journal
  initial : ∀ o ∈ c.initial.orders, o.deviceId ≠ home.terminalId
  sold : ∀ f ∈ c.journal, f.device.terminalId = home.terminalId → Sold s f.order

/-- What holds in every state. -/
structure Exchange.Consistent (home : EdgeDeviceContext) (w : Exchange) : Prop where
  history : edgeHistory.Reachable (w.device, w.heard)
  cloud : w.cloud.Faithful home w.device
  heard : ∀ r ∈ w.heard, Truthful home w.cloud.journal r
  deliveries : ∀ d ∈ w.deliveries, d.Faithful home w.device w.cloud.journal

section Device

variable {s : EdgeState} {order : EdgeOrderInput}

/-- What was sold stays as it is. -/
theorem Sold.step (h : Sold s order) (hs : edgeEngine.Reachable s) (a : EdgeAction) :
    Sold (s.step a) order := by
  obtain ⟨o, rfl, hclosed, hissued, hrows⟩ := h
  have hfollows := Ledger.Follows.relation hs (.single ⟨a, rfl⟩)
  refine ⟨o, rfl, hclosed, hfollows.issued _ hissued, fun r' hr' hid => ?_⟩
  rcases hfollows.rows r' hr' with hnew | ⟨r, hr, hrow⟩
  · exact absurd (hid.symm ▸ hissued) hnew
  · have hserved := hrows r hr (hrow.clientId_eq.symm.trans hid)
    refine (hrow.closed fun hopen => hclosed ?_).trans hserved
    exact (congrArg Order.status hserved).symm.trans hopen

theorem Sent.step {op : EdgeOutboxOp} (h : Sent s op) (hs : edgeEngine.Reachable s) (a : EdgeAction) :
    Sent (s.step a) op := by
  cases op with
  | order key order => exact ⟨h.1, h.2.step hs a⟩
  | kotStatus key clientId updates => exact h

theorem OutboxKey.text_kotStatus_ne (c u v : Uuid) : (OutboxKey.kotStatus c u).text ≠ v.text := by
  intro h
  have hlength := congrArg (fun t : String => t.toList.length) h
  have hcolon : ":kot:".toList.length = 5 := by decide
  simp only [OutboxKey.text, String.toList_append, List.length_append, hcolon, c.wellFormed.1,
    u.wellFormed.1, v.wellFormed.1] at hlength
  omega

/-- What is sent are payloads of closed orders, and kitchen updates. -/
theorem sent_of_push (hinv : s.ledger.Inv) {now : Time} {req : PushRequest}
    (hreq : req ∈ (s.db.pushSend now).2) : ∀ op ∈ req.ops, Sent s op := by
  rw [EdgeDb.pushSend] at hreq
  dsimp only at hreq
  split at hreq
  · cases hreq
  obtain rfl := Option.some.inj hreq
  intro op hop
  obtain ⟨e, he, hbuilt⟩ := List.mem_filterMap.mp hop
  obtain ⟨hmem, -, -⟩ := mem_of_mem_dueEntries he
  unfold EdgeDb.buildOp at hbuilt
  split at hbuilt
  · rename_i c hkey
    obtain ⟨row, hrow, rfl⟩ := Option.map_eq_some_iff.mp hbuilt
    obtain ⟨hrow, hid⟩ := KeyedTable.find?_eq_some.mp hrow
    have hclosed := (hinv.sync.entry_sync e hmem row hrow (hkey.trans (congrArg _ hid.symm))).1
    refine ⟨?_, row.state, rfl, hclosed, hinv.issued.orders row hrow, fun r hr hrid => ?_⟩
    · rw [hkey]
      exact congrArg Uuid.text hid.symm
    · rw [KeyedTable.eq_of_mem hr hrow hrid]
  · rename_i c u hkey
    obtain rfl := Option.some.inj hbuilt
    rw [hkey]
    exact fun v => OutboxKey.text_kotStatus_ne c u v

end Device

/-! ### A step at the cloud -/

/-- Where a step of a delivery leads. -/
structure Delivery.Leads (home : EdgeDeviceContext) (s : EdgeState) (c : CloudState)
    (p : CloudState × Delivery) : Prop where
  cloud : p.1.Faithful home s
  journal : ∀ f ∈ c.journal, f ∈ p.1.journal
  delivery : p.2.Faithful home s p.1.journal

section Cloud

variable {home : EdgeDeviceContext} {s : EdgeState} {c : CloudState} {d : Delivery}

theorem Truthful.mono {journal journal' : List Filed} {r : EdgeOpResult} (h : Truthful home journal r)
    (hjournal : ∀ f ∈ journal, f ∈ journal') : Truthful home journal' r := fun c hkey hacc =>
  (h c hkey hacc).imp fun f hf => ⟨hjournal f hf.1, hf.2⟩

/-- An order of the terminal that is found was stored since the start. -/
theorem CloudState.Faithful.stored (h : c.Faithful home s) {clientId : String} {o : Cloud.Order}
    (hhome : d.device.terminalId = home.terminalId) (ho : c.db.findOrder d.device clientId = some o) :
    Stored home c.journal clientId := by
  obtain ⟨hmem, hkey⟩ := KeyedTable.find?_eq_some.mp (Option.filter_eq_some_iff.mp ho).1
  have hrow : o ∈ c.db.orders.rows := hmem
  rw [h.replayed.orders] at hrow
  rcases List.mem_append.mp hrow with hold | hnew
  · exact absurd ((congrArg Prod.fst hkey).trans hhome) (h.initial o hold)
  · obtain ⟨f, hf, rfl⟩ := List.mem_map.mp hnew
    exact ⟨f, hf, by rw [← (h.replayed.sales f hf).saleKey_eq, hkey, hhome]⟩

theorem Delivery.advance_spec (hc : c.Faithful home s) (hd : d.Faithful home s c.journal)
    (a : DeliveryStep) : Delivery.Leads home s c (d.advance c a) := by
  have hstay : ∀ phase, Delivery.Leads home s c (c, { d with phase := phase }) := fun phase =>
    ⟨hc, fun _ hf => hf, hd.ops, hd.results⟩
  have hdone : ∀ (c' : CloudState) (r : EdgeOpResult), c'.Faithful home s →
      (∀ f ∈ c.journal, f ∈ c'.journal) →
      (d.device.terminalId = home.terminalId → Truthful home c'.journal r) →
      Delivery.Leads home s c (c', d.done r) := by
    refine fun c' r hc' hjournal hr => ⟨hc', hjournal,
      fun hhome op hop => hd.ops hhome op (List.mem_of_mem_tail hop), fun hhome x hx => ?_⟩
    rcases List.mem_append.mp hx with hx | hx
    · exact (hd.results hhome x hx).mono hjournal
    · exact List.mem_singleton.mp hx ▸ hr hhome
  -- what is not accepted says nothing
  have hrefused : ∀ r : EdgeOpResult, ¬r.status.Accepts → Delivery.Leads home s c (c, d.done r) :=
    fun r hr => hdone c r hc (fun _ hf => hf) fun _ _ _ hacc => absurd hacc hr
  have hretry : ¬EdgeOpStatus.Accepts .retry := by simp [EdgeOpStatus.Accepts]
  cases a with
  | look now =>
    unfold Delivery.advance
    dsimp only
    split
    · exact hstay d.phase
    · rename_i key clientId lines rest hops
      refine hdone _ _ ⟨replayed_step hc.replayed (.kotStatus d.device key clientId lines now),
        hc.initial, hc.sold⟩ (fun _ hf => hf) fun hhome v hkey => ?_
      have hresult : (c.db.applyKotStatus d.device key clientId lines now).2.key = key := by
        unfold applyKotStatus
        split <;> rfl
      have hsent : Sent s (.kotStatus key clientId lines) := hd.ops hhome _ (hops ▸ List.mem_cons_self)
      exact absurd (hresult.symm.trans hkey) (hsent v)
    · rename_i key order rest hops
      split
      · exact hstay d.phase
      · rename_i existing ho _
        refine hdone c _ hc (fun _ hf => hf) fun hhome v hkey _ => ?_
        have hsent : Sent s (.order key order) := hd.ops hhome _ (hops ▸ List.mem_cons_self)
        rw [← show key = v.text from hkey, hsent.1]
        exact hc.stored hhome ho
      · exact hstay .running
      · exact hrefused _ hretry
  | finish r =>
    unfold Delivery.advance
    dsimp only
    split
    · exact hrefused _ hretry
    · exact hrefused _ hretry
    · rename_i key order rest r hops hphase
      split
      · rename_i hseen
        unfold CloudState.commit
        dsimp only
        cases hins : c.db.insertOrder d.device order d.skewMs r with
        | ok res =>
          obtain ⟨db, sale⟩ := res
          have hsent (hhome : d.device.terminalId = home.terminalId) : Sent s (.order key order) :=
            hd.ops hhome _ (hops ▸ List.mem_cons_self)
          dsimp only
          refine hdone _ _ ⟨hc.replayed.write (a := ⟨d.device, order, d.skewMs⟩) hseen hins,
              hc.initial, fun f hf hhome => ?_⟩
            (fun _ hf => List.mem_append_left _ hf) fun hhome v hkey _ => ?_
          · rcases List.mem_append.mp hf with hf | hf
            · exact hc.sold f hf hhome
            · obtain rfl := List.mem_singleton.mp hf
              exact (hsent hhome).2
          · refine ⟨_, List.mem_append_right _ (List.mem_singleton.mpr rfl), ?_⟩
            exact Prod.ext hhome ((hsent hhome).1.symm.trans hkey)
        | error e =>
          cases e with
          | rejectOp message =>
            exact hdone _ _ ⟨hc.replayed.congr rfl, hc.initial, hc.sold⟩ (fun _ hf => hf)
              fun _ _ _ hacc => absurd hacc (by simp [EdgeOpStatus.Accepts])
          | p2002 => exact hstay .lost
          | database => exact hrefused _ hretry
      · exact hstay d.phase
    · exact hstay d.phase

end Cloud

/-! ### Every step -/

namespace Exchange.Consistent

variable {home : EdgeDeviceContext} {w : Exchange}

theorem device_reachable (h : w.Consistent home) : edgeEngine.Reachable w.device :=
  edgeHistory_reachable h.history

theorem act (h : w.Consistent home) {a : EdgeAction}
    (hresults : ∀ r ∈ a.results w.device, Truthful home w.cloud.journal r) :
    (w.act a).Consistent home := by
  have hs := h.device_reachable
  have hstep : edgeHistory.Reachable (edgeHistory.step (w.device, w.heard) a) :=
    .step a h.history trivial
  refine ⟨hstep, ⟨h.cloud.replayed, h.cloud.initial, fun f hf hhome => ?_⟩,
    fun r hr => ?_, fun d hd => ?_⟩
  · exact (h.cloud.sold f hf hhome).step hs a
  · exact (List.mem_append.mp hr).elim (h.heard r) (hresults r)
  · obtain ⟨d, hmem, rfl⟩ := List.mem_map.mp hd
    obtain ⟨hops, hres⟩ := h.deliveries d hmem
    exact ⟨fun hhome op hop => (hops hhome op hop).step hs a, hres⟩

theorem withDeliveries (h : w.Consistent home) {ds : List Delivery}
    (hds : ∀ d ∈ ds, d ∈ w.deliveries ∨ d.Faithful home w.device w.cloud.journal) :
    Exchange.Consistent home { w with deliveries := ds } :=
  ⟨h.history, h.cloud, h.heard, fun d hd => (hds d hd).elim (h.deliveries d) id⟩

end Exchange.Consistent

theorem exchange_consistent {home : EdgeDeviceContext} {w : Exchange}
    (h : (exchange home).Reachable w) : w.Consistent home := by
  refine Machine.invariant (P := Exchange.Consistent home) ?_ ?_ h
  · rintro w ⟨hdevice, hheard, hjournal, hinitial, hkeyed, hfree, hnone⟩
    have hreplayed := @replayed ⟨w.cloud.db, [], w.cloud.db, []⟩ (.init ⟨rfl, rfl, rfl, hkeyed⟩)
    refine ⟨.init ⟨hdevice, hheard⟩, ⟨?_, hinitial ▸ hfree, ?_⟩, ?_, ?_⟩
    · rw [hinitial, hjournal]
      exact hreplayed
    · simp [hjournal]
    · simp [hheard]
    · simp [hnone]
  rintro w a - h -
  change (Exchange.step home w a).Consistent home
  cases a with
  | device a =>
    cases a with
    | pushSend now => exact h
    | pushReply now random reply => exact h
    | _ => exact h.act fun r hr => by cases hr
  | push now edgeDeviceId seriesCode skewMs =>
    simp only [Exchange.step]
    split
    · rename_i hnone
      have hact : (w.act (.pushSend now)).Consistent home := h.act fun r hr => by cases hr
      refine hact.withDeliveries fun d hd => (List.mem_append.mp hd).imp_right fun hd => ?_
      obtain ⟨req, hreq, rfl⟩ := List.mem_map.mp hd
      have hsend : (w.act (.pushSend now)).device.awaiting = (w.device.db.pushSend now).2 := by
        change (w.device.send now).awaiting = _
        rw [EdgeState.send, hnone]
      rw [Option.mem_toList, hsend] at hreq
      exact ⟨fun _ op hop => (sent_of_push (edgeEngine_inv h.device_reachable) hreq op hop).step
        h.device_reachable (.pushSend now), by simp⟩
    · exact h
  | other device skewMs ops =>
    simp only [Exchange.step]
    split
    · exact h
    · rename_i hother
      refine h.withDeliveries fun d hd => (List.mem_append.mp hd).imp_right fun hd => ?_
      rw [List.mem_singleton.mp hd]
      exact ⟨fun hhome => absurd hhome hother, fun hhome => absurd hhome hother⟩
  | serve n a =>
    simp only [Exchange.step]
    split
    · exact h
    · rename_i d hd
      obtain ⟨hcloud, hjournal, hd⟩ :=
        Delivery.advance_spec h.cloud (h.deliveries d (List.mem_of_getElem? hd)) a
      refine ⟨h.history, hcloud, fun r hr => (h.heard r hr).mono hjournal, fun x hx => ?_⟩
      rcases List.mem_or_eq_of_mem_set hx with hx | rfl
      · obtain ⟨hops, hres⟩ := h.deliveries x hx
        exact ⟨hops, fun hhome r hr => (hres hhome r hr).mono hjournal⟩
      · exact hd
  | abort n => exact h.withDeliveries fun d hd => .inl (List.mem_of_mem_eraseIdx hd)
  | answer n now random serverTime =>
    simp only [Exchange.step]
    split
    · exact h
    · rename_i d hd
      split
      · rename_i hdone
        have hrest : Exchange.Consistent home { w with deliveries := w.deliveries.eraseIdx n } :=
          h.withDeliveries fun d hd => .inl (List.mem_of_mem_eraseIdx hd)
        refine hrest.act fun r hr => ?_
        simp only [EdgeAction.results] at hr
        split at hr
        · exact (h.deliveries d (List.mem_of_getElem? hd)).results hdone.1 r hr
        · cases hr
      · exact h

/-! ### Sales arrive -/

/-- The first sale is pushed, the answer is lost, and the device pushes again. -/
def lostAnswer : List ExchangeAction :=
  sampleDay.map .device ++ [.push 1793000002000 "device" "E01" 0, .serve 0 (.look 1793000002000),
    .serve 0 (.finish (some (sampleCloud.reads sampleDevice (sampleSale "dosa") 1793000002000))),
    .abort 0, .device .pushFail, .push 1793000062000 "device" "E01" 0,
    .serve 0 (.look 1793000062000), .answer 0 1793000063000 (fun _ => 0) (.iso 1793000063000)]

end StelloKitchens
