import StelloKitchens.Messaging.Outbox
import Mathlib.Data.Finset.Basic

/-!
# Delivery receipts

A provider reports what becomes of a message: it is sent, delivered, read, or failed. A receipt
changes a message only to a status of higher rank, and only once the sender has stored the
provider's id of the message; a receipt that comes before is lost. The highest rank is that of a
failure.

## Main definitions

* `MessageEvent` — the sender records that the message is sent, or a receipt is applied.
* `Arrives` — an order in which a set of receipts can come, with repetitions.
* `Consistent` — the message ends in the same status whatever the order, and never goes back.

## Main results

* `rank_receipts` — after the record the status of the highest rank stays.
* `consistent_iff` — which sets of receipts are consistent.
-/

namespace StelloKitchens.Messaging

/-! ### Events -/

/-- The statuses that a provider reports. -/
def reported : Finset OutboxStatus := {.sent, .delivered, .read, .failed}

inductive MessageEvent
  | record (provider : String) (now : Time)
  | receipt (status : OutboxStatus) (error : Option String) (now : Time)

namespace MessageEvent

/-- It is the record of the sender. -/
def isRecord : MessageEvent → Bool
  | record _ _ => true
  | receipt _ _ _ => false

def status? : MessageEvent → Option OutboxStatus
  | record _ _ => none
  | receipt status _ _ => some status

/-- What an event makes of the message that the provider knows under an id. -/
def apply (messageId : String) (m : MessageOutbox) : MessageEvent → MessageOutbox
  | record provider now => m.markSent provider messageId now
  | receipt status error now =>
    if m.providerMessageId = some messageId ∧ ignoresReceipt status m.status = false then
      m.receive status error m.deliveredAt now
    else m

end MessageEvent

/-- What events make of a message, one after another. -/
def MessageOutbox.after (messageId : String) (m : MessageOutbox) (es : List MessageEvent) :
    MessageOutbox :=
  es.foldl (MessageEvent.apply messageId) m

/-- The receipts come in this order, with repetitions, and among them the sender's record. -/
structure Arrives (receipts : Finset OutboxStatus) (es : List MessageEvent) : Prop where
  record : es.countP MessageEvent.isRecord = 1
  receipts : ∀ s, s ∈ receipts ↔ ∃ e ∈ es, e.status? = some s

/-- Delivered or read. -/
def Arrived (s : OutboxStatus) : Prop := s = .delivered ∨ s = .read

/-- Once delivered or read, the message stays so. -/
def Forward (messageId : String) (m : MessageOutbox) (es : List MessageEvent) : Prop :=
  ∀ es₁ e es₂, es = es₁ ++ e :: es₂ → Arrived (m.after messageId es₁).status →
    Arrived (m.after messageId (es₁ ++ [e])).status

/-- Among the orders that satisfy a condition it makes no difference in which order the receipts
come, and the message goes back in none. -/
def Consistent (order : List MessageEvent → Prop) (messageId : String) (m : MessageOutbox)
    (receipts : Finset OutboxStatus) : Prop :=
  (∀ es es', order es → order es' → Arrives receipts es → Arrives receipts es' →
    (m.after messageId es).status = (m.after messageId es').status) ∧
  ∀ es, order es → Arrives receipts es → Forward messageId m es

/-- The sender's record comes first. -/
def RecordFirst (es : List MessageEvent) : Prop :=
  ∃ provider now es', es = .record provider now :: es'

/-! ### After the record -/

section After

variable {messageId : String} {m : MessageOutbox} {es : List MessageEvent}

theorem ignoresReceipt_iff {status current : OutboxStatus} :
    ignoresReceipt status current = true ↔ statusRank status ≤ statusRank current := by
  cases status <;> cases current <;> decide

/-- The ranks tell apart what a provider reports. -/
theorem eq_of_statusRank {s s' : OutboxStatus} (hs : s ∈ reported) (hs' : s' ∈ reported)
    (h : statusRank s = statusRank s') : s = s' := by
  cases s <;> cases s' <;> first | rfl | (revert h hs hs'; decide)

theorem apply_receipt (hid : m.providerMessageId = some messageId) (status : OutboxStatus)
    (error : Option String) (now : Time) :
    ((MessageEvent.receipt status error now).apply messageId m).providerMessageId = some messageId ∧
      ((MessageEvent.receipt status error now).apply messageId m).status =
        if statusRank status ≤ statusRank m.status then m.status else status := by
  dsimp only [MessageEvent.apply]
  by_cases hrank : statusRank status ≤ statusRank m.status
  · rw [if_neg fun h => Bool.false_ne_true (h.2.symm.trans (ignoresReceipt_iff.mpr hrank)),
      if_pos hrank]
    exact ⟨hid, rfl⟩
  · rw [if_pos ⟨hid, Bool.eq_false_iff.mpr fun h => hrank (ignoresReceipt_iff.mp h)⟩, if_neg hrank]
    exact ⟨hid, rfl⟩

/-- Receipts that come after the record leave the status of the highest rank. -/
theorem rank_receipts (hid : m.providerMessageId = some messageId)
    (hes : ∀ e ∈ es, e.isRecord = false) :
    (m.after messageId es).providerMessageId = some messageId ∧
      statusRank m.status ≤ statusRank (m.after messageId es).status ∧
      (∀ e ∈ es, ∀ s, e.status? = some s → statusRank s ≤ statusRank (m.after messageId es).status) ∧
      ((m.after messageId es).status = m.status ∨
        ∃ e ∈ es, e.status? = some (m.after messageId es).status) := by
  induction es generalizing m with
  | nil => exact ⟨hid, le_rfl, fun e he => absurd he List.not_mem_nil, .inl rfl⟩
  | cons e es ih =>
    have htail := fun e' he' => hes e' (List.mem_cons_of_mem e he')
    cases e with
    | record provider now => cases hes _ List.mem_cons_self
    | receipt status error now =>
      obtain ⟨hid', hstatus⟩ := apply_receipt hid status error now
      obtain ⟨hlast, hle, hall, hfrom⟩ := ih hid' htail
      set m' := (MessageEvent.receipt status error now).apply messageId m
      have hm : statusRank m.status ≤ statusRank m'.status ∧
          statusRank status ≤ statusRank m'.status := by
        rw [hstatus]
        split
        · exact ⟨le_rfl, ‹_›⟩
        · exact ⟨Nat.le_of_not_le ‹_›, le_rfl⟩
      refine ⟨hlast, hm.1.trans hle, fun e he s hs => ?_, ?_⟩
      · rcases List.mem_cons.mp he with rfl | he
        · rw [← Option.some.inj hs]
          exact hm.2.trans hle
        · exact hall e he s hs
      · rcases hfrom with hfrom | ⟨e, he, hs⟩
        · change (m'.after messageId es).status = _ ∨ _
          by_cases hrank : statusRank status ≤ statusRank m.status
          · left
            rw [hfrom, hstatus, if_pos hrank]
          · refine .inr ⟨_, List.mem_cons_self, ?_⟩
            rw [if_neg hrank] at hstatus
            exact congrArg some (hstatus.symm.trans hfrom.symm)
        · exact .inr ⟨e, List.mem_cons_of_mem _ he, hs⟩

end After

/-! ### Orders -/

section Orders

variable {messageId : String} {m : MessageOutbox} {receipts : Finset OutboxStatus}
  {es es' : List MessageEvent}

/-- An order is made of receipts, the record, and receipts. -/
theorem Arrives.split (h : Arrives receipts es) : ∃ es₁ provider now es₂,
    es = es₁ ++ .record provider now :: es₂ ∧ (∀ e ∈ es₁, e.isRecord = false) ∧
      ∀ e ∈ es₂, e.isRecord = false := by
  obtain ⟨e, he, hrecord⟩ := List.countP_pos_iff.mp (h.record ▸ Nat.one_pos)
  obtain ⟨es₁, es₂, rfl⟩ := List.append_of_mem he
  have hcount := h.record
  rw [List.countP_append, List.countP_cons_of_pos hrecord] at hcount
  cases e with
  | receipt status error now => cases hrecord
  | record provider now =>
    refine ⟨es₁, provider, now, es₂, rfl, fun e he => ?_, fun e he => ?_⟩
    · exact Bool.eq_false_iff.mpr (List.countP_eq_zero.mp (by omega) e he)
    · exact Bool.eq_false_iff.mpr (List.countP_eq_zero.mp (by omega) e he)

/-- Receipts that come before the record are lost. -/
theorem after_of_unsent (hid : m.providerMessageId = none) (hes : ∀ e ∈ es, e.isRecord = false) :
    m.after messageId es = m := by
  induction es with
  | nil => rfl
  | cons e es ih =>
    cases e with
    | record provider now => cases hes _ List.mem_cons_self
    | receipt status error now =>
      have hsame : (MessageEvent.receipt status error now).apply messageId m = m := by
        dsimp only [MessageEvent.apply]
        rw [if_neg fun h => by simp [hid] at h]
      rw [MessageOutbox.after, List.foldl_cons, hsame]
      exact ih fun e he => hes e (List.mem_cons_of_mem _ he)

theorem after_append : m.after messageId (es ++ es') = (m.after messageId es).after messageId es' :=
  List.foldl_append

/-- The receipts of a set, one after another. -/
noncomputable def receiptsOf (receipts : Finset OutboxStatus) : List MessageEvent :=
  receipts.toList.map fun s => .receipt s none 0

theorem receiptsOf_isRecord : ∀ e ∈ receiptsOf receipts, e.isRecord = false := by
  intro e he
  obtain ⟨s, -, rfl⟩ := List.mem_map.mp he
  rfl

theorem mem_receiptsOf {s : OutboxStatus} :
    s ∈ receipts ↔ ∃ e ∈ receiptsOf receipts, e.status? = some s := by
  constructor
  · exact fun hs => ⟨_, List.mem_map_of_mem (Finset.mem_toList.mpr hs), rfl⟩
  · rintro ⟨e, he, hs⟩
    obtain ⟨s', hs', rfl⟩ := List.mem_map.mp he
    exact Option.some.inj hs ▸ Finset.mem_toList.mp hs'

/-- All of a set and nothing else comes, with the record once. -/
theorem arrives_of (hcount : es.countP MessageEvent.isRecord = 1)
    (hmem : ∀ e ∈ es, ∀ s, e.status? = some s → s ∈ receipts) (hall : receiptsOf receipts ⊆ es) :
    Arrives receipts es := by
  refine ⟨hcount, fun s => ⟨fun hs => ?_, fun ⟨e, he, hs⟩ => hmem e he s hs⟩⟩
  obtain ⟨e, he, hs⟩ := mem_receiptsOf.mp hs
  exact ⟨e, hall he, hs⟩

theorem countP_receiptsOf : (receiptsOf receipts).countP MessageEvent.isRecord = 0 :=
  List.countP_eq_zero.mpr fun e he => Bool.eq_false_iff.mp (receiptsOf_isRecord e he)

theorem arrives_recordFirst : Arrives receipts (.record "" 0 :: receiptsOf receipts) := by
  refine arrives_of ?_ (fun e he s hs => ?_) (List.subset_cons_self _ _)
  · rw [List.countP_cons_of_pos rfl, countP_receiptsOf]
  · rcases List.mem_cons.mp he with rfl | he
    · cases hs
    · exact mem_receiptsOf.mpr ⟨e, he, hs⟩

theorem arrives_recordLast : Arrives receipts (receiptsOf receipts ++ [.record "" 0]) := by
  refine arrives_of ?_ (fun e he s hs => ?_) (List.subset_append_left _ _)
  · rw [List.countP_append, countP_receiptsOf, List.countP_cons_of_pos rfl, List.countP_nil]
  · rcases List.mem_append.mp he with he | he
    · exact mem_receiptsOf.mpr ⟨e, he, hs⟩
    · rw [List.mem_singleton.mp he] at hs
      cases hs

end Orders

/-! ### Consistent receipts -/

section Consistent

variable {messageId : String} {m : MessageOutbox} {receipts : Finset OutboxStatus}
  {es es' : List MessageEvent}

theorem Arrives.isRecord_tail {provider : String} {now : Time}
    (h : Arrives receipts (.record provider now :: es)) : ∀ e ∈ es, e.isRecord = false := by
  have hcount := h.record
  rw [List.countP_cons_of_pos rfl] at hcount
  exact fun e he => Bool.eq_false_iff.mpr (List.countP_eq_zero.mp (by omega) e he)

variable (messageId m) in
/-- What comes after the record: it is among the reported statuses, and of the highest rank. -/
theorem Arrives.after_record (hreported : receipts ⊆ reported) {provider : String} {now : Time}
    (h : Arrives receipts (.record provider now :: es)) :
    (m.after messageId (.record provider now :: es)).status ∈ reported ∧
      ((m.after messageId (.record provider now :: es)).status = .sent ∨
        (m.after messageId (.record provider now :: es)).status ∈ receipts) ∧
      ∀ s, s = .sent ∨ s ∈ receipts →
        statusRank s ≤ statusRank (m.after messageId (.record provider now :: es)).status := by
  have hes := h.isRecord_tail
  obtain ⟨-, hle, hall, hfrom⟩ := rank_receipts (m := m.markSent provider messageId now) rfl hes
  have hfrom' : (m.after messageId (.record provider now :: es)).status = .sent ∨
      (m.after messageId (.record provider now :: es)).status ∈ receipts := by
    refine hfrom.imp_right fun ⟨e, he, hs⟩ => ?_
    exact (h.receipts _).mpr ⟨e, List.mem_cons_of_mem _ he, hs⟩
  refine ⟨?_, hfrom', fun s hs => ?_⟩
  · rcases hfrom' with hsent | hmem
    · rw [hsent]
      decide
    · exact hreported hmem
  · rcases hs with rfl | hs
    · exact hle
    · obtain ⟨e, he, hs⟩ := (h.receipts s).mp hs
      rcases List.mem_cons.mp he with rfl | he
      · cases hs
      · exact hall e he s hs

/-- After the record the order of the receipts makes no difference to the last status. -/
theorem status_eq_of_recordFirst (hreported : receipts ⊆ reported) (h : Arrives receipts es)
    (hfirst : RecordFirst es) (h' : Arrives receipts es') (hfirst' : RecordFirst es') :
    (m.after messageId es).status = (m.after messageId es').status := by
  obtain ⟨provider, now, es, rfl⟩ := hfirst
  obtain ⟨provider', now', es', rfl⟩ := hfirst'
  obtain ⟨hmem, hfrom, hmax⟩ := h.after_record messageId m hreported
  obtain ⟨hmem', hfrom', hmax'⟩ := h'.after_record messageId m hreported
  exact eq_of_statusRank hmem hmem' (le_antisymm (hmax' _ hfrom) (hmax _ hfrom'))

/-- Of the statuses that are reported, only a read and a failed message rank above an arrived one. -/
theorem arrived_of_rank {s s' : OutboxStatus} (hs : Arrived s) (hs' : s' ∈ reported)
    (hfailed : s' ≠ .failed) (hrank : ¬statusRank s' ≤ statusRank s) : Arrived s' := by
  rcases hs with rfl | rfl <;> cases s' <;>
    first | exact .inr rfl | exact absurd rfl hfailed | (exfalso; revert hs' hrank; decide)

/-- If the record comes first, receipts are consistent unless a message that arrives also fails. -/
theorem consistent_recordFirst_iff (hstatus : m.status = .sending) (hreported : receipts ⊆ reported) :
    Consistent RecordFirst messageId m receipts ↔
      ¬(.failed ∈ receipts ∧ (.delivered ∈ receipts ∨ .read ∈ receipts)) := by
  constructor
  · rintro ⟨-, hforward⟩ ⟨hfailed, harrived⟩
    obtain ⟨a, ha, hmem⟩ : ∃ a, Arrived a ∧ a ∈ receipts :=
      harrived.elim (fun h => ⟨_, .inl rfl, h⟩) fun h => ⟨_, .inr rfl, h⟩
    have hgone := hforward (.record "" 0 :: .receipt a none 0 :: .receipt .failed none 0 ::
      receiptsOf receipts) ⟨_, _, _, rfl⟩ (arrives_of ?_ ?_ ?_)
      [.record "" 0, .receipt a none 0] (.receipt .failed none 0) _ rfl
    · obtain ⟨hid, hone⟩ := apply_receipt (m := m.markSent "" messageId 0) rfl a none 0
      obtain ⟨-, htwo⟩ := apply_receipt hid .failed none 0
      have hrank : ¬statusRank a ≤ statusRank .sent ∧ ¬statusRank .failed ≤ statusRank a := by
        rcases ha with rfl | rfl <;> decide
      rw [show (m.markSent "" messageId 0).status = .sent from rfl, if_neg hrank.1] at hone
      rw [hone, if_neg hrank.2] at htwo
      have hgone : Arrived ((MessageEvent.receipt a none 0).apply messageId
            (m.markSent "" messageId 0)).status →
          Arrived ((MessageEvent.receipt .failed none 0).apply messageId
            ((MessageEvent.receipt a none 0).apply messageId (m.markSent "" messageId 0))).status :=
        hgone
      rw [hone, htwo] at hgone
      exact (hgone ha).elim (fun h => by cases h) fun h => by cases h
    · rw [List.countP_cons_of_pos rfl, List.countP_cons_of_neg Bool.false_ne_true,
        List.countP_cons_of_neg Bool.false_ne_true, countP_receiptsOf]
    · intro e he s hs
      rcases List.mem_cons.mp he with rfl | he
      · cases hs
      rcases List.mem_cons.mp he with rfl | he
      · exact Option.some.inj hs ▸ hmem
      rcases List.mem_cons.mp he with rfl | he
      · exact Option.some.inj hs ▸ hfailed
      · exact mem_receiptsOf.mpr ⟨e, he, hs⟩
    · exact fun e he => List.mem_cons_of_mem _ (List.mem_cons_of_mem _ (List.mem_cons_of_mem _ he))
  · intro hno
    refine ⟨fun es es' hes hes' h h' => status_eq_of_recordFirst hreported h hes h' hes', ?_⟩
    rintro _ ⟨provider, now, es, rfl⟩ h es₁ e es₂ heq harrived
    cases es₁ with
    | nil =>
      rw [MessageOutbox.after, List.foldl_nil, hstatus] at harrived
      exact harrived.elim (fun h => by cases h) fun h => by cases h
    | cons e₁ es₁ =>
      obtain ⟨rfl, rfl⟩ := List.cons.inj heq
      have hes := h.isRecord_tail
      have hes₁ : ∀ e' ∈ es₁, e'.isRecord = false := fun e' he' => hes e' (List.mem_append_left _ he')
      obtain ⟨hid, -, -, hfrom⟩ := rank_receipts (m := m.markSent provider messageId now) rfl hes₁
      have hmem : ∀ e' ∈ es₁ ++ e :: es₂, ∀ s, e'.status? = some s → s ∈ receipts :=
        fun e' he' s hs => (h.receipts s).mpr ⟨e', List.mem_cons_of_mem _ he', hs⟩
      -- the message has arrived, so a failure is not among the receipts
      have hfailed : .failed ∉ receipts := by
        intro hfailed
        rcases hfrom with hsent | ⟨e', he', hs⟩
        · exact harrived.elim (fun h => by cases hsent.symm.trans h) fun h => by cases hsent.symm.trans h
        · have hs := hmem e' (List.mem_append_left _ he') _ hs
          exact hno ⟨hfailed, harrived.imp (fun h => by rwa [← h]) fun h => by rwa [← h]⟩
      cases e with
      | record provider' now' => cases hes _ (List.mem_append_right _ List.mem_cons_self)
      | receipt status error now' =>
        have hs := hmem _ (List.mem_append_right _ List.mem_cons_self) status rfl
        obtain ⟨-, hstatus'⟩ := apply_receipt hid status error now'
        have hnext : (m.after messageId (.record provider now :: es₁ ++
            [.receipt status error now'])).status = _ := (congrArg _ after_append).trans hstatus'
        rw [hnext]
        split
        · exact harrived
        · exact arrived_of_rank harrived (hreported hs) (fun h => hfailed (h ▸ hs)) ‹_›

/-- Receipts that only report that the message is sent do not make it arrive. -/
theorem not_arrived_after (hm : m.status = .sending ∨ m.status = .sent)
    (hes : ∀ e ∈ es, ∀ s, e.status? = some s → s = .sent) :
    (m.after messageId es).status = .sending ∨ (m.after messageId es).status = .sent := by
  induction es generalizing m with
  | nil => exact hm
  | cons e es ih =>
    refine ih ?_ fun e' he' => hes e' (List.mem_cons_of_mem _ he')
    cases e with
    | record provider now => exact .inr rfl
    | receipt status error now =>
      obtain rfl := hes _ List.mem_cons_self status rfl
      dsimp only [MessageEvent.apply]
      split
      · exact .inr rfl
      · exact hm

/-- Receipts are consistent in all orders if they only report that the message is sent. -/
theorem consistent_iff (hstatus : m.status = .sending) (hid : m.providerMessageId = none)
    (hreported : receipts ⊆ reported) :
    Consistent (fun _ => True) messageId m receipts ↔ receipts ⊆ {.sent} := by
  constructor
  · rintro ⟨hsame, -⟩ s hs
    have hlast := hsame _ _ trivial trivial arrives_recordLast arrives_recordFirst
    rw [after_append, after_of_unsent hid receiptsOf_isRecord] at hlast
    have hrank := (arrives_recordFirst.after_record messageId m hreported).2.2 s
      (.inr hs)
    rw [← hlast] at hrank
    have hs := hreported hs
    refine Finset.mem_singleton.mpr ?_
    change statusRank s ≤ 2 at hrank
    cases s <;> first | rfl | (exfalso; revert hs hrank; decide)
  · intro hsent
    have hes : ∀ {es}, Arrives receipts es → ∀ e ∈ es, ∀ s, e.status? = some s → s = .sent :=
      fun h e he s hs => Finset.mem_singleton.mp (hsent ((h.receipts s).mpr ⟨e, he, hs⟩))
    have hlast : ∀ {es}, Arrives receipts es → (m.after messageId es).status = .sent := by
      intro es h
      obtain ⟨es₁, provider, now, es₂, rfl, h₁, h₂⟩ := h.split
      rw [after_append, after_of_unsent hid h₁]
      obtain ⟨-, -, -, hfrom⟩ := rank_receipts (m := m.markSent provider messageId now) rfl h₂
      rcases hfrom with hfrom | ⟨e, he, hs⟩
      · exact hfrom
      · exact hes h e (List.mem_append_right _ (List.mem_cons_of_mem _ he)) _ hs
    refine ⟨fun es es' _ _ h h' => (hlast h).trans (hlast h').symm, ?_⟩
    rintro es - h es₁ e es₂ rfl harrived
    rcases not_arrived_after (.inl hstatus) fun e he => hes h e (List.mem_append_left _ he) with hs | hs
    · exact harrived.elim (fun h => by cases hs.symm.trans h) fun h => by cases hs.symm.trans h
    · exact harrived.elim (fun h => by cases hs.symm.trans h) fun h => by cases hs.symm.trans h

/-- A message that is being sent ends in the same status and never goes back, in whatever order
its receipts come, just when they only report that it is sent; and when they all come after the
sender's record, just when it does not both arrive and fail. -/
theorem receipts_consistent (messageId : String) (m : MessageOutbox) (hstatus : m.status = .sending)
    (hid : m.providerMessageId = none) (receipts : Finset OutboxStatus)
    (hreported : receipts ⊆ reported) :
    (Consistent (fun _ => True) messageId m receipts ↔ receipts ⊆ {.sent}) ∧
      (Consistent RecordFirst messageId m receipts ↔
        ¬(.failed ∈ receipts ∧ (.delivered ∈ receipts ∨ .read ∈ receipts))) :=
  ⟨consistent_iff hstatus hid hreported, consistent_recordFirst_iff hstatus hreported⟩

end Consistent

/-- A message that has been taken over. -/
def sendingMessage : MessageOutbox :=
  ⟨1, "t", some "o", none, .lowStock, .whatsapp, "9876543210", "", [], .sending, none, none, 1, 0, none,
    none, none, 0, none, none, some 2, false⟩

/-- A receipt that comes before the sender's record is lost. -/
theorem not_receipts_consistent :
    ¬∀ messageId (m : MessageOutbox), m.status = .sending → m.providerMessageId = none →
      ∀ receipts ⊆ reported, Consistent (fun _ => True) messageId m receipts := by
  intro h
  have hsame := (h "wamid" sendingMessage rfl rfl {.delivered} (by decide)).1
    [.receipt .delivered none 0, .record "meta" 1] [.record "meta" 1, .receipt .delivered none 2]
    trivial trivial ⟨rfl, by simp [MessageEvent.status?, eq_comm]⟩
    ⟨rfl, by simp [MessageEvent.status?, eq_comm]⟩
  revert hsame
  decide

theorem receipts_consistent_delivered :
    (Consistent (fun _ => True) "wamid" sendingMessage {.delivered} ↔
        ({.delivered} : Finset OutboxStatus) ⊆ {.sent}) ∧
      (Consistent RecordFirst "wamid" sendingMessage {.delivered} ↔
        ¬(OutboxStatus.failed ∈ ({.delivered} : Finset OutboxStatus) ∧
          (OutboxStatus.delivered ∈ ({.delivered} : Finset OutboxStatus) ∨
            OutboxStatus.read ∈ ({.delivered} : Finset OutboxStatus)))) :=
  receipts_consistent "wamid" sendingMessage rfl rfl {.delivered} (by decide)

end StelloKitchens.Messaging
