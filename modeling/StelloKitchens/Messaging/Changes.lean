import StelloKitchens.Messaging.Outbox
import StelloKitchens.Lib.Obligations

/-!
# What commits do to the messages

Everything that the services commit is one of a few changes of the tables, each with what the
process that makes it knows at that moment: a sender that finishes a message still holds it as it
took it over, unless the message has been taken over again in between; a receipt is for a message
that was sent; a message of a campaign is for a customer who has none of that send.

## Main definitions

* `messaging` — the services side by side.
* `Change` — what a commit does.
* `Sound` — what holds of the tables under all changes.

## Main results

* `Change.sound` — changes keep the tables sound.
* `Change.message`, `Change.held` — what changes leave of messages.
-/

namespace StelloKitchens.Messaging

open Tx Process Method Discipline Service

/-! ### Side by side -/

inductive MessagingRequest
  /-- Time passes. -/
  | tick (ms : ℕ)
  | optOut (user : AuthUser) (input : OptOutInput)
  | removeOptOut (user : AuthUser) (id : ℕ)
  /-- An alert that a material runs low. -/
  | lowStock (tenantId outletId : String) (channel : MessagingChannel) (recipient body : String)
      (vars : List String)
  | requestOtp (user : AuthUser) (outletId phone code : String)
  | createCampaign (user : AuthUser) (outletId : String) (input : CampaignInput)
  | sendCampaign (user : AuthUser) (outletId : String) (id : ℕ)
  | processOutbox (batch : ℕ) (skipped : List ℕ)
  | whatsAppWebhook (signatureOk : Bool) (changes : List WhatsAppChange)
  | msg91Report (items : List (String × List Msg91Report))

/-- The code for redeeming points is sent to a phone. -/
def requestOtp (user : AuthUser) (outletId phone code : String) : MessagingMethod Unit :=
  send .sms phone ("Your Stello Kitchens redemption OTP is " ++ code ++ ". Valid for 5 minutes.")
    ⟨user.tenantId, some outletId, .otp, some [code], none, true, none, none⟩

def MessagingRequest.run : MessagingRequest → MessagingMethod Unit
  | .tick ms => atomically (fun _ => .plain) (update fun db => { db with now := db.now + ms })
  | .optOut user input => Messaging.optOut user.tenantId input "STAFF"
  | .removeOptOut user id => Messaging.removeOptOut user id
  | .lowStock tenantId outletId channel recipient body vars => do
    let _ ← enqueue ⟨tenantId, some outletId, .lowStock, channel, recipient, body, vars, none, none,
      none⟩
    return ()
  | .requestOtp user outletId phone code => Messaging.requestOtp user outletId phone code
  | .createCampaign user outletId input => Messaging.createCampaign user outletId input
  | .sendCampaign user outletId id => do
    let _ ← Messaging.sendCampaign user outletId id
    return ()
  | .processOutbox batch skipped => do
    let _ ← Messaging.processOutbox batch skipped
    return ()
  | .whatsAppWebhook signatureOk changes => handleWhatsAppWebhook signatureOk changes
  | .msg91Report items => handleMsg91Report items

abbrev MessagingWorld :=
  World MessagingDb LockKey Note MessageCall DispatchReply (Except ServiceError Unit)

/-- Before the first message, opt-out and campaign. -/
structure NoMessages (db : MessagingDb) : Prop where
  outbox : db.outbox = .empty
  optOuts : db.optOuts = .empty
  campaigns : db.campaigns = .empty
  dispatches : db.dispatches = []
  counts : db.counts = []

/-- The services side by side. -/
def messaging : Machine MessagingWorld (WorldAction MessagingRequest DispatchReply) :=
  serve (fun r : MessagingRequest => r.run.run) fun db _ => NoMessages db

/-! ### Changes -/

/-- The same message, in perhaps another state. -/
structure MessageOutbox.Same (m m' : MessageOutbox) : Prop where
  id : m'.id = m.id
  tenantId : m'.tenantId = m.tenantId
  campaignId : m'.campaignId = m.campaignId
  purpose : m'.purpose = m.purpose
  channel : m'.channel = m.channel
  recipient : m'.recipient = m.recipient
  customer : m'.customer = m.customer
  send : m'.send = m.send

/-- A sender has taken the message over in this state, and holds it so, unless it has been taken
over again since. -/
structure MessagingDb.Held (s : MessagingDb) (m : MessageOutbox) (sender : ℕ) : Prop where
  status : m.status = .sending
  holder : m.holder = some sender
  found : ∃ x ∈ s.outbox, m.Same x ∧ (x.raced = false → x = m)

/-- The calls that a sender has made, and those of them for a tenant. -/
def MessagingDb.callsBy (s : MessagingDb) (sender : ℕ) : List Dispatch :=
  s.dispatches.filter fun d => d.sender = sender

def MessagingDb.callsOf (s : MessagingDb) (sender : ℕ) (tenantId : String) : ℕ :=
  (s.callsBy sender).countP fun d => d.tenantId = tenantId

/-- The counts that a pass has made. -/
def MessagingDb.countsBy (s : MessagingDb) (pass : ℕ) : List Count :=
  s.counts.filter fun c => c.pass = pass

/-- The messages that a tenant may send in a minute. -/
def MessagingDb.ratePerMinute (s : MessagingDb) (tenantId : String) : ℕ :=
  ((s.configs.find? tenantId).map (·.ratePerMinute)).getD 60

/-- No message was taken over while it was not queued any more. -/
def MessagingDb.Unraced (s : MessagingDb) : Prop := ∀ x ∈ s.outbox, x.raced = false

/-- A message as it is when it is queued. -/
structure MessageOutbox.Fresh (m : MessageOutbox) : Prop where
  status : m.status = .queued ∨ m.status = .skipped
  holder : m.holder = none
  raced : m.raced = false
  providerMessageId : m.providerMessageId = none
  sentAt : m.sentAt = none

/-- Every customer of the campaign's segment at this time has a message of the campaign. -/
def MessagingDb.Reached (s : MessagingDb) (c : Campaign) (t : Time) : Prop :=
  ∀ k ∈ recipients c (s.customersAt c.tenantId c.outletId) t,
    ∃ x ∈ s.outbox, x.campaignId = some c.id ∧ x.customer = some k.id

/-- What a commit with this note does to the tables, by who holds these. -/
inductive Change (L : Hold LockKey → Prop) (s : MessagingDb) : Note → MessagingDb → Prop
  | tick (ms : ℕ) : Change L s .plain { s with now := s.now + ms }
  | optOut (o : OptOut) (hnumber : L (.number o.id)) (hnew : ∀ x ∈ s.optOuts, x.id ≠ o.id)
      (hkey : o.phone = recordedKey o.channel o.given) :
      Change L s (.optOut o) { s with optOuts := s.optOuts.put o }
  | removeOptOut (id : ℕ) :
      Change L s .plain { s with optOuts := s.optOuts.delete fun o => o.id = id }
  | campaign (c : Campaign) (hnumber : L (.number c.id)) (hdraft : c.status = .draft)
      (hnew : ∀ x ∈ s.campaigns, x.id ≠ c.id) :
      Change L s .plain { s with campaigns := s.campaigns.put c }
  | campaignSent (id sentCount : ℕ)
      (hall : ∀ c ∈ s.campaigns, c.id = id → ∃ t ≤ s.now, s.Reached c t) :
      Change L s .plain (s.sendCampaign id sentCount)
  | create (m : MessageOutbox) (seen : List OptOut) (hnumber : L (.number m.id))
      (hlock : L (.lock (.message m.id))) (hnew : ∀ x ∈ s.outbox, x.id ≠ m.id) (hfresh : m.Fresh)
      (hcampaign : m.campaignId ≠ none → m.send ≠ none)
      (hseen : m.status = .queued → m.purpose = .campaign →
        ∀ o ∈ seen, o.hits m.tenantId m.channel m.recipient = false)
      (hsend : ∀ k, m.send = some k → L (.number k) ∧
        ∀ x ∈ s.outbox, x.send = some k → x.customer ≠ m.customer) :
      Change L s (.create m seen) { s with outbox := s.outbox.put m }
  | claim (ids : List ℕ) (pass : ℕ) (hnumber : L (.number pass))
      (hlock : ∀ id ∈ ids, L (.lock (.message id)))
      (hqueued : ∀ x ∈ s.outbox, x.id ∈ ids → x.status = .queued) :
      Change L s .plain (s.claim ids pass)
  | takeOver (id sender : ℕ) (hnumber : L (.number sender)) (hlock : L (.lock (.message id)))
      (hotp : ∀ x ∈ s.outbox, x.id = id → x.purpose = .otp) :
      Change L s (.takeover id) (s.updateMessage id (·.takeOver sender) fun _ => rfl)
  | dispatch (m : MessageOutbox) (sender : ℕ) (byPass : Bool) (hnumber : L (.number sender))
      (hheld : s.Held m sender) (hnew : ∀ d ∈ s.callsBy sender, d.message ≠ m.id)
      (hbudget : byPass = true → ∃ c ∈ s.countsBy sender, c.tenantId = m.tenantId ∧
        s.callsOf sender m.tenantId < c.rate - c.recent) :
      Change L s (.dispatch m.id sender byPass m.tenantId) (s.dispatch m sender byPass)
  | count (c : Count) (hnumber : L (.number c.pass)) (hnow : c.countedAt ≤ s.now)
      (hrate : c.rate = s.ratePerMinute c.tenantId)
      (hcounted : ∀ d ∈ c.counted, ∃ d' ∈ s.dispatches, d'.call = d.call)
      (hrecent : s.Unraced →
        (c.counted.filter fun d => c.countedAt - 60000 < d.calledAt).length ≤ c.recent) :
      Change L s .plain (s.count c)
  | recordSent (m : MessageOutbox) (sender : ℕ) (provider messageId : String) (sentAt : Time)
      (hnumber : L (.number sender)) (hlock : L (.lock (.message m.id))) (hheld : s.Held m sender)
      (hcalled : ∀ d ∈ s.callsBy sender, d.calledAt ≤ sentAt) :
      Change L s .plain (s.recordSent m.id sender provider messageId sentAt)
  | requeue (m : MessageOutbox) (sender : ℕ) (error : String) (nextAttemptAt : Time)
      (hnumber : L (.number sender)) (hlock : L (.lock (.message m.id))) (hheld : s.Held m sender)
      (hotp : m.purpose ≠ .otp) :
      Change L s .plain (s.updateMessage m.id (·.requeue error nextAttemptAt) fun _ => rfl)
  | fail (m : MessageOutbox) (sender : ℕ) (error : String)
      (hnumber : L (.number sender)) (hlock : L (.lock (.message m.id))) (hheld : s.Held m sender) :
      Change L s .plain (s.updateMessage m.id (·.fail error) fun _ => rfl)
  | defer (m : MessageOutbox) (sender : ℕ) (nextAttemptAt : Time)
      (hnumber : L (.number sender)) (hlock : L (.lock (.message m.id))) (hheld : s.Held m sender)
      (hnew : ∀ d ∈ s.callsBy sender, d.message ≠ m.id) :
      Change L s .plain (s.updateMessage m.id (·.defer nextAttemptAt) fun _ => rfl)
  | receive (id : ℕ) (status : OutboxStatus) (error : Option String) (deliveredAt : Option Time)
      (now : Time) (hlock : L (.lock (.message id)))
      (hstatus : status ∈ [OutboxStatus.sent, .delivered, .read, .failed])
      (hknown : ∃ x ∈ s.outbox, x.id = id ∧ x.providerMessageId ≠ none) :
      Change L s .plain (s.updateMessage id (·.receive status error deliveredAt now) fun _ => rfl)

/-! ### What holds of the tables -/

structure Sound (s : MessagingDb) (n : ℕ) : Prop where
  messages : ∀ x ∈ s.outbox, x.id < n
  holders : ∀ x ∈ s.outbox, ∀ h, x.holder = some h → h < n
  sends : ∀ x ∈ s.outbox, ∀ k, x.send = some k → k < n
  optOuts : ∀ o ∈ s.optOuts, o.id < n
  campaigns : ∀ c ∈ s.campaigns, c.id < n
  dispatches : ∀ d ∈ s.dispatches, d.sender < n
  counts : ∀ c ∈ s.counts, c.pass < n
  /-- Calls are made and counted in the past. -/
  called : ∀ d ∈ s.dispatches, d.calledAt ≤ s.now
  counted : ∀ c ∈ s.counts, c.countedAt ≤ s.now
  /-- A message that is being sent has been taken over. -/
  taken : ∀ x ∈ s.outbox, x.status = .sending → x.holder ≠ none
  /-- Only one-time codes are taken over while they are being sent. -/
  raced : ∀ x ∈ s.outbox, x.raced = true → x.purpose = .otp
  /-- What a provider knows is not to be sent any more, unless it has been taken over again. -/
  closed : ∀ x ∈ s.outbox, x.raced = false → x.providerMessageId ≠ none → ¬x.Open

  /-- Calls are for messages of their tenant. -/
  messaged : ∀ d ∈ s.dispatches, ∃ x ∈ s.outbox, x.id = d.message ∧ x.tenantId = d.tenantId
  /-- A sender makes one call for a message. -/
  single : s.dispatches.Pairwise fun d d' => d.message = d'.message → d.sender ≠ d'.sender
  /-- What is recorded as sent is so of the message too, unless it was taken over again. -/
  sent : ∀ d ∈ s.dispatches, ∀ t, d.sentAt = some t → ∀ x ∈ s.outbox, x.id = d.message →
    x.raced = false → x.sentAt = some t ∧ d.calledAt ≤ t ∧ ¬x.Open
  /-- A message is recorded as sent once, unless it was taken over again. -/
  once : s.Unraced → s.dispatches.Pairwise fun d d' =>
    d.message = d'.message → ¬(d.sentAt.isSome ∧ d'.sentAt.isSome)

theorem NoMessages.sound {db : MessagingDb} {n : ℕ} (h : NoMessages db) : Sound db n := by
  constructor <;> simp [h.outbox, h.optOuts, h.campaigns, h.dispatches, h.counts,
    KeyedTable.notMem_empty]

/-! ### What a change makes of one message -/

/-- What a commit does to a message. -/
inductive MessageStep (L : Hold LockKey → Prop) (s : MessagingDb) (x : MessageOutbox) :
    MessageOutbox → Prop
  | same : MessageStep L s x x
  | claim (pass : ℕ) (hnumber : L (.number pass)) (hlock : L (.lock (.message x.id)))
      (hqueued : x.status = .queued) : MessageStep L s x (x.claim pass)
  | takeOver (sender : ℕ) (hnumber : L (.number sender)) (hlock : L (.lock (.message x.id)))
      (hotp : x.purpose = .otp) : MessageStep L s x (x.takeOver sender)
  | markSent (sender : ℕ) (provider messageId : String) (sentAt : Time)
      (hnumber : L (.number sender)) (hlock : L (.lock (.message x.id)))
      (hheld : x.raced = false → x.status = .sending ∧ x.holder = some sender) :
      MessageStep L s x (x.markSent provider messageId sentAt)
  | requeue (sender : ℕ) (error : String) (nextAttemptAt : Time) (hnumber : L (.number sender))
      (hlock : L (.lock (.message x.id)))
      (hheld : x.raced = false → x.status = .sending ∧ x.holder = some sender)
      (hotp : x.purpose ≠ .otp) : MessageStep L s x (x.requeue error nextAttemptAt)
  | fail (sender : ℕ) (error : String) (hnumber : L (.number sender))
      (hlock : L (.lock (.message x.id)))
      (hheld : x.raced = false → x.status = .sending ∧ x.holder = some sender) :
      MessageStep L s x (x.fail error)
  | defer (sender : ℕ) (nextAttemptAt : Time) (hnumber : L (.number sender))
      (hlock : L (.lock (.message x.id)))
      (hheld : x.raced = false → x.status = .sending ∧ x.holder = some sender)
      (hnew : ∀ d ∈ s.callsBy sender, d.message ≠ x.id) :
      MessageStep L s x (x.defer nextAttemptAt)
  | receive (status : OutboxStatus) (error : Option String) (deliveredAt : Option Time) (now : Time)
      (hlock : L (.lock (.message x.id)))
      (hstatus : status ∈ [OutboxStatus.sent, .delivered, .read, .failed])
      (hknown : x.providerMessageId ≠ none) :
      MessageStep L s x (x.receive status error deliveredAt now)

namespace MessageStep

variable {L : Hold LockKey → Prop} {s : MessagingDb} {x x' : MessageOutbox}

theorem message (h : MessageStep L s x x') : x.Same x' := by
  cases h <;> constructor <;> rfl

/-- Only who holds its lock changes a message. -/
theorem locked (h : MessageStep L s x x') (hlock : ¬L (.lock (.message x.id))) : x' = x := by
  cases h with
  | same => rfl
  | _ => exact absurd ‹L (.lock (.message x.id))› hlock

/-- What a provider knows stays known. -/
theorem known (h : MessageStep L s x x') (hknown : x.providerMessageId ≠ none) :
    x'.providerMessageId ≠ none := by
  cases h with
  | markSent => exact Option.some_ne_none _
  | _ => exact hknown

theorem raced (h : MessageStep L s x x') (hraced : x.raced = true) : x'.raced = true := by
  cases h with
  | takeOver => simp [MessageOutbox.takeOver, hraced]
  | _ => exact hraced

/-- A message stays as its sender has taken it over, unless it is taken over again. -/
theorem held (h : MessageStep L s x x') {sender : ℕ} (hstatus : x.status = .sending)
    (hholder : x.holder = some sender) (hsender : ¬L (.number sender))
    (hclosed : x.raced = false → x.providerMessageId ≠ none → ¬x.Open) (hraced : x'.raced = false) :
    x' = x := by
  have hother : ∀ sender', L (.number sender') →
      (x.raced = false → x.status = .sending ∧ x.holder = some sender') → x.raced = true := by
    intro sender' hsender' hheld
    by_contra hfalse
    have hholder' := (hheld (Bool.eq_false_iff.mpr hfalse)).2
    exact hsender (Option.some.inj (hholder.symm.trans hholder') ▸ hsender')
  cases h with
  | same => rfl
  | claim pass _ _ hqueued => cases hstatus.symm.trans hqueued
  | takeOver => simp [MessageOutbox.takeOver, hstatus] at hraced
  | markSent sender' _ _ _ hnumber _ hheld =>
    cases (hother _ hnumber hheld).symm.trans hraced
  | requeue sender' _ _ hnumber _ hheld => cases (hother _ hnumber hheld).symm.trans hraced
  | fail sender' _ hnumber _ hheld => cases (hother _ hnumber hheld).symm.trans hraced
  | defer sender' _ hnumber _ hheld => cases (hother _ hnumber hheld).symm.trans hraced
  | receive _ _ _ _ _ _ hknown => exact absurd (.inr hstatus) (hclosed hraced hknown)

/-- Who takes a message over has the number for it. -/
theorem owed (h : MessageStep L s x x') {sender : ℕ} (hstatus : x'.status = .sending)
    (hholder : x'.holder = some sender) :
    x.status = .sending ∧ x.holder = some sender ∨ L (.number sender) := by
  cases h with
  | same => exact .inl ⟨hstatus, hholder⟩
  | claim pass hnumber => exact .inr (Option.some.inj hholder ▸ hnumber)
  | takeOver sender' hnumber => exact .inr (Option.some.inj hholder ▸ hnumber)
  | receive status _ _ _ _ hmem =>
    have hstatus : status = .sending := hstatus
    subst hstatus
    simp at hmem
  | _ => cases hstatus

end MessageStep

/-! ### Messages -/

section Messages

variable {L : Hold LockKey → Prop} {s s' : MessagingDb} {note : Note} {n : ℕ}

theorem mem_updateMessage {id : ℕ} {f : MessageOutbox → MessageOutbox} (hf : ∀ m, (f m).id = m.id)
    {x : MessageOutbox} : x ∈ (s.updateMessage id f hf).outbox ↔
      ∃ m ∈ s.outbox, x = if m.id = id then f m else m := by
  refine (KeyedTable.mem_modify hf).trans ?_
  simp only [decide_eq_true_eq]

theorem mem_claim {ids : List ℕ} {pass : ℕ} {x : MessageOutbox} :
    x ∈ (s.claim ids pass).outbox ↔
      ∃ m ∈ s.outbox, x = if m.id ∈ ids then m.claim pass else m := by
  refine (KeyedTable.mem_modify (f := MessageOutbox.claim pass) fun _ => rfl).trans ?_
  simp only [decide_eq_true_eq]

theorem mem_sendCampaign {id sentCount : ℕ} {x : Campaign} :
    x ∈ (s.sendCampaign id sentCount).campaigns ↔
      ∃ c ∈ s.campaigns, x = if c.id = id then c.markSent sentCount else c := by
  refine (KeyedTable.mem_modify (f := Campaign.markSent sentCount) fun _ => rfl).trans ?_
  simp only [decide_eq_true_eq]

/-- The message that a sender holds is the one with its id. -/
theorem MessagingDb.Held.of_mem {m x : MessageOutbox} {sender : ℕ} (h : s.Held m sender)
    (hx : x ∈ s.outbox) (hid : x.id = m.id) : m.Same x ∧ (x.raced = false → x = m) := by
  obtain ⟨y, hy, hsame, hheld⟩ := h.found
  obtain rfl := KeyedTable.eq_of_mem hx hy (hid.trans hsame.id.symm)
  exact ⟨hsame, hheld⟩

theorem MessagingDb.Held.unraced {m x : MessageOutbox} {sender : ℕ} (h : s.Held m sender)
    (hx : x ∈ s.outbox) (hid : x.id = m.id) (hraced : x.raced = false) :
    x.status = .sending ∧ x.holder = some sender := by
  rw [(h.of_mem hx hid).2 hraced]
  exact ⟨h.status, h.holder⟩

/-- Every change is, for each message, one of the steps, or the message is new. -/
theorem Change.messages (h : Change L s note s') :
    (∃ g : MessageOutbox → MessageOutbox, (∀ x ∈ s.outbox, MessageStep L s x (g x)) ∧
      ∀ x', x' ∈ s'.outbox ↔ ∃ x ∈ s.outbox, x' = g x) ∨
    ∃ m seen, note = .create m seen ∧ (∀ x ∈ s.outbox, x.id ≠ m.id) ∧
      s' = { s with outbox := s.outbox.put m } := by
  have hsame : (∃ g : MessageOutbox → MessageOutbox, (∀ x ∈ s.outbox, MessageStep L s x (g x)) ∧
      ∀ x', x' ∈ s.outbox ↔ ∃ x ∈ s.outbox, x' = g x) :=
    ⟨id, fun x _ => .same, fun x' => ⟨fun hx => ⟨x', hx, rfl⟩, fun ⟨x, hx, heq⟩ => heq ▸ hx⟩⟩
  have hupdate : ∀ {id : ℕ} {f : MessageOutbox → MessageOutbox} (hf : ∀ m, (f m).id = m.id),
      (∀ x ∈ s.outbox, x.id = id → MessageStep L s x (f x)) →
      ∃ g : MessageOutbox → MessageOutbox, (∀ x ∈ s.outbox, MessageStep L s x (g x)) ∧
        ∀ x', x' ∈ (s.updateMessage id f hf).outbox ↔ ∃ x ∈ s.outbox, x' = g x := by
    intro id f hf hstep
    refine ⟨fun x => if x.id = id then f x else x, fun x hx => ?_, fun x' => mem_updateMessage hf⟩
    dsimp only
    split
    · exact hstep x hx ‹_›
    · exact .same
  cases h with
  | tick | optOut | removeOptOut | campaign | campaignSent | dispatch | count => exact .inl hsame
  | create m seen _ _ hnew => exact .inr ⟨m, seen, rfl, hnew, rfl⟩
  | claim ids pass hnumber hlock hqueued =>
    refine .inl ⟨fun x => if x.id ∈ ids then x.claim pass else x, fun x hx => ?_, fun x' => mem_claim⟩
    dsimp only
    split
    · exact .claim pass hnumber (hlock x.id ‹_›) (hqueued x hx ‹_›)
    · exact .same
  | takeOver id sender hnumber hlock hotp =>
    exact .inl (hupdate _ fun x hx hid => .takeOver sender hnumber (hid ▸ hlock) (hotp x hx hid))
  | recordSent m sender provider messageId sentAt hnumber hlock hheld =>
    exact .inl (hupdate (f := (·.markSent provider messageId sentAt)) (fun _ => rfl) fun x hx hid =>
      .markSent sender provider messageId sentAt hnumber (hid ▸ hlock) (hheld.unraced hx hid))
  | requeue m sender error nextAttemptAt hnumber hlock hheld hotp =>
    exact .inl (hupdate _ fun x hx hid => .requeue sender error nextAttemptAt hnumber (hid ▸ hlock)
      (hheld.unraced hx hid) ((hheld.of_mem hx hid).1.purpose ▸ hotp))
  | fail m sender error hnumber hlock hheld =>
    exact .inl (hupdate _ fun x hx hid => .fail sender error hnumber (hid ▸ hlock)
      (hheld.unraced hx hid))
  | defer m sender nextAttemptAt hnumber hlock hheld hnew =>
    exact .inl (hupdate _ fun x hx hid => .defer sender nextAttemptAt hnumber (hid ▸ hlock)
      (hheld.unraced hx hid) (hid ▸ hnew))
  | receive id status error deliveredAt now hlock hstatus hknown =>
    refine .inl (hupdate _ fun x hx hid => .receive status error deliveredAt now (hid ▸ hlock) hstatus ?_)
    obtain ⟨y, hy, hyid, hyknown⟩ := hknown
    rwa [KeyedTable.eq_of_mem hx hy (hid.trans hyid.symm)]

/-- What becomes of a message that is there. -/
theorem Change.message (h : Change L s note s') {x : MessageOutbox} (hx : x ∈ s.outbox) :
    ∃ x' ∈ s'.outbox, MessageStep L s x x' := by
  rcases h.messages with ⟨g, hstep, hmem⟩ | ⟨m, seen, rfl, hnew, rfl⟩
  · exact ⟨g x, (hmem _).mpr ⟨x, hx, rfl⟩, hstep x hx⟩
  · exact ⟨x, KeyedTable.mem_put.mpr (.inr ⟨hx, hnew x hx⟩), .same⟩

/-- Where a message comes from. -/
theorem Change.origin (h : Change L s note s') {x' : MessageOutbox} (hx' : x' ∈ s'.outbox) :
    (∃ x ∈ s.outbox, MessageStep L s x x') ∨ ∃ seen, note = .create x' seen := by
  rcases h.messages with ⟨g, hstep, hmem⟩ | ⟨m, seen, rfl, hnew, rfl⟩
  · obtain ⟨x, hx, rfl⟩ := (hmem x').mp hx'
    exact .inl ⟨x, hx, hstep x hx⟩
  · rcases KeyedTable.mem_put.mp hx' with rfl | ⟨hx', -⟩
    · exact .inr ⟨seen, rfl⟩
    · exact .inl ⟨x', hx', .same⟩

/-- Messages stay, in perhaps another state. -/
theorem Change.same (h : Change L s note s') {x : MessageOutbox} (hx : x ∈ s.outbox) :
    ∃ x' ∈ s'.outbox, x.Same x' := by
  obtain ⟨x', hx', hstep⟩ := h.message hx
  exact ⟨x', hx', hstep.message⟩

end Messages

/-! ### What a change leaves of the rest -/

section Rest

variable {L : Hold LockKey → Prop} {s s' : MessagingDb} {note : Note}

theorem Change.now_le (h : Change L s note s') : s.now ≤ s'.now := by
  cases h with
  | tick ms =>
    have hms : (0 : ℤ) ≤ ms := Int.natCast_nonneg ms
    change s.now ≤ s.now + ms
    exact le_add_of_nonneg_right hms
  | _ => exact le_refl s.now

/-- The customers stay as they are. -/
theorem Change.customersAt (h : Change L s note s') (tenantId outletId : String) :
    s'.customersAt tenantId outletId = s.customersAt tenantId outletId := by
  cases h <;> rfl

/-- The rates of the tenants stay as they are. -/
theorem Change.ratePerMinute (h : Change L s note s') (tenantId : String) :
    s'.ratePerMinute tenantId = s.ratePerMinute tenantId := by
  cases h <;> rfl

/-- What is the same of the same call. -/
theorem Dispatch.of_call {α : Type} {d d' : Dispatch} (h : d.call = d'.call) (f : Dispatch → α)
    (hf : ∀ d : Dispatch, f d.call = f d) : f d = f d' :=
  (hf d).symm.trans ((congrArg f h).trans (hf d'))

/-- The call that is recorded is the same. -/
theorem Dispatch.recordSent_call (message sender : ℕ) (sentAt : Time) (d : Dispatch) :
    (d.recordSent message sender sentAt).call = d.call := by
  unfold Dispatch.recordSent
  split <;> rfl

theorem Dispatch.recordSent_message (message sender : ℕ) (sentAt : Time) (d : Dispatch) :
    (d.recordSent message sender sentAt).message = d.message :=
  Dispatch.of_call (d.recordSent_call message sender sentAt) Dispatch.message fun _ => rfl

theorem Dispatch.recordSent_sender (message sender : ℕ) (sentAt : Time) (d : Dispatch) :
    (d.recordSent message sender sentAt).sender = d.sender :=
  Dispatch.of_call (d.recordSent_call message sender sentAt) Dispatch.sender fun _ => rfl

theorem Dispatch.recordSent_tenantId (message sender : ℕ) (sentAt : Time) (d : Dispatch) :
    (d.recordSent message sender sentAt).tenantId = d.tenantId :=
  Dispatch.of_call (d.recordSent_call message sender sentAt) Dispatch.tenantId fun _ => rfl

theorem Dispatch.recordSent_calledAt (message sender : ℕ) (sentAt : Time) (d : Dispatch) :
    (d.recordSent message sender sentAt).calledAt = d.calledAt :=
  Dispatch.of_call (d.recordSent_call message sender sentAt) Dispatch.calledAt fun _ => rfl

/-- Calls stay. -/
theorem Change.called (h : Change L s note s') {d : Dispatch} (hd : d ∈ s.dispatches) :
    ∃ d' ∈ s'.dispatches, d'.call = d.call := by
  cases h with
  | dispatch => exact ⟨d, List.mem_append_left _ hd, rfl⟩
  | recordSent => exact ⟨_, List.mem_map.mpr ⟨d, hd, rfl⟩, Dispatch.recordSent_call ..⟩
  | _ => exact ⟨d, hd, rfl⟩

/-- Calls are those of before, or for a message that is there. -/
theorem Change.caller (h : Change L s note s') {d' : Dispatch} (hd' : d' ∈ s'.dispatches) :
    (∃ d ∈ s.dispatches, d.call = d'.call) ∨
      ∃ x ∈ s.outbox, x.id = d'.message ∧ x.tenantId = d'.tenantId := by
  cases h with
  | dispatch m sender byPass _ hheld =>
    rcases List.mem_append.mp hd' with hd | hd
    · exact .inl ⟨d', hd, rfl⟩
    · obtain ⟨x, hx, hsame, -⟩ := hheld.found
      rw [List.mem_singleton.mp hd]
      exact .inr ⟨x, hx, hsame.id, hsame.tenantId⟩
  | recordSent =>
    obtain ⟨d, hd, rfl⟩ := List.mem_map.mp hd'
    exact .inl ⟨d, hd, (Dispatch.recordSent_call ..).symm⟩
  | _ => exact .inl ⟨d', hd', rfl⟩

/-- A call that is recorded as sent was so before, or is for the message that is recorded. -/
theorem Change.recorded (h : Change L s note s') {d' : Dispatch} (hd' : d' ∈ s'.dispatches)
    {t : Time} (ht : d'.sentAt = some t) : d' ∈ s.dispatches ∨
      d'.calledAt ≤ t ∧ ∃ provider messageId, ∀ x' ∈ s'.outbox, x'.id = d'.message →
        ∃ x ∈ s.outbox, x' = x.markSent provider messageId t := by
  cases h with
  | dispatch m sender byPass =>
    rcases List.mem_append.mp hd' with hd | hd
    · exact .inl hd
    · rw [List.mem_singleton.mp hd] at ht
      cases ht
  | recordSent m sender provider messageId sentAt hnumber hlock hheld hcalled =>
    obtain ⟨d, hd, rfl⟩ := List.mem_map.mp hd'
    by_cases hsent : d.message = m.id ∧ d.sender = sender
    · rw [Dispatch.recordSent, if_pos hsent] at ht ⊢
      obtain rfl : sentAt = t := Option.some.inj ht
      refine .inr ⟨hcalled d (List.mem_filter.mpr ⟨hd, decide_eq_true hsent.2⟩), provider, messageId,
        fun x' hx' hid => ?_⟩
      obtain ⟨x, hx, rfl⟩ := (mem_updateMessage
        (f := (·.markSent provider messageId sentAt)) fun _ => rfl).mp hx'
      by_cases hxm : x.id = m.id
      · exact ⟨x, hx, if_pos hxm⟩
      · rw [if_neg hxm] at hid
        exact absurd (hid.trans hsent.1) hxm
    · rw [Dispatch.recordSent, if_neg hsent]
      exact .inl hd
  | _ => exact .inl hd'

/-- The calls of a sender and those of the others are recorded apart. -/
theorem callsBy_recordSent (s : MessagingDb) (id sender : ℕ) (provider messageId : String)
    (sentAt : Time) (k : ℕ) : (s.recordSent id sender provider messageId sentAt).callsBy k =
      (s.callsBy k).map (·.recordSent id sender sentAt) := by
  refine List.filter_map.trans (congrArg _ (List.filter_congr fun d _ => ?_))
  exact congrArg (fun k' => decide (k' = k)) (Dispatch.recordSent_sender id sender sentAt d)

/-- Only who has its number adds to what a sender has called, or records it. -/
theorem Change.callsBy (h : Change L s note s') {k : ℕ} (hk : ¬L (.number k)) :
    s'.callsBy k = s.callsBy k := by
  have hne : ∀ sender, L (.number sender) → sender ≠ k := fun sender hsender heq =>
    hk (heq ▸ hsender)
  cases h with
  | dispatch m sender byPass hnumber =>
    refine (List.filter_append ..).trans ?_
    rw [List.filter_singleton, decide_eq_false (hne sender hnumber)]
    exact List.append_nil _
  | recordSent m sender provider messageId sentAt hnumber =>
    rw [callsBy_recordSent]
    refine (List.map_congr_left fun d hd => if_neg fun hsent => ?_).trans (List.map_id _)
    have hsender : d.sender = k := of_decide_eq_true (List.mem_filter.mp hd).2
    exact hne sender hnumber (hsent.2.symm.trans hsender)
  | _ => rfl

/-- Only who has its number adds to what a pass has counted. -/
theorem Change.countsBy (h : Change L s note s') {k : ℕ} (hk : ¬L (.number k)) :
    s'.countsBy k = s.countsBy k := by
  cases h with
  | count c hnumber =>
    have hne : c.pass ≠ k := fun heq => hk (heq ▸ hnumber)
    refine (List.filter_append ..).trans ?_
    rw [List.filter_singleton, decide_eq_false hne]
    exact List.append_nil _
  | _ => rfl

end Rest

/-! ### Soundness is kept -/

namespace MessageStep

variable {L : Hold LockKey → Prop} {s : MessagingDb} {x x' : MessageOutbox} {n : ℕ}

theorem holders (h : MessageStep L s x x') {k : ℕ} (hholder : x'.holder = some k) :
    x.holder = some k ∨ L (.number k) := by
  cases h with
  | claim pass hnumber => exact .inr (Option.some.inj hholder ▸ hnumber)
  | takeOver sender hnumber => exact .inr (Option.some.inj hholder ▸ hnumber)
  | _ => exact .inl hholder

theorem not_open_of_receipt {status : OutboxStatus}
    (h : status ∈ [OutboxStatus.sent, .delivered, .read, .failed]) :
    ¬(status = .queued ∨ status = .sending) := by
  rintro (rfl | rfl) <;> simp at h

theorem unraced (h : MessageStep L s x x') (hraced : x'.raced = false) : x.raced = false :=
  Bool.eq_false_iff.mpr fun htrue => Bool.false_ne_true (hraced.symm.trans (h.raced htrue))

/-- A message that is to be sent after a step was to be sent before, unless it was taken over
again. -/
theorem was_open (h : MessageStep L s x x') (hraced : x'.raced = false) (hopen : x'.Open) :
    x.Open := by
  have hunraced := h.unraced hraced
  cases h with
  | same => exact hopen
  | claim _ _ _ hqueued => exact .inl hqueued
  | takeOver =>
    have hqueued : (x.raced || decide (x.status ≠ .queued)) = false := hraced
    rw [hunraced, Bool.false_or, decide_eq_false_iff_not, not_not] at hqueued
    exact .inl hqueued
  | markSent => exact absurd hopen (by simp [MessageOutbox.Open, MessageOutbox.markSent])
  | requeue _ _ _ _ _ hheld => exact .inr (hheld hunraced).1
  | fail _ _ _ _ hheld => exact .inr (hheld hunraced).1
  | defer _ _ _ _ hheld => exact .inr (hheld hunraced).1
  | receive _ _ _ _ _ hstatus => exact absurd hopen (not_open_of_receipt hstatus)

theorem taken (h : MessageStep L s x x') (hx : x.status = .sending → x.holder ≠ none)
    (hstatus : x'.status = .sending) : x'.holder ≠ none := by
  cases h with
  | same => exact hx hstatus
  | claim => exact Option.some_ne_none _
  | takeOver => exact Option.some_ne_none _
  | receive _ _ _ _ _ hmem => exact absurd (.inr hstatus) (not_open_of_receipt hmem)
  | _ => cases hstatus

theorem raced_otp (h : MessageStep L s x x') (hx : x.raced = true → x.purpose = .otp)
    (hraced : x'.raced = true) : x'.purpose = .otp := by
  cases h with
  | takeOver _ _ _ hotp => exact hotp
  | _ => exact hx hraced

theorem closed (h : MessageStep L s x x')
    (hx : x.raced = false → x.providerMessageId ≠ none → ¬x.Open) (hraced : x'.raced = false)
    (hknown : x'.providerMessageId ≠ none) : ¬x'.Open := by
  intro hopen
  have hwas := h.was_open hraced hopen
  have hunraced := h.unraced hraced
  cases h with
  | markSent => exact absurd hopen (by simp [MessageOutbox.Open, MessageOutbox.markSent])
  | _ => exact hx hunraced hknown hwas

end MessageStep

namespace MessageStep

variable {L : Hold LockKey → Prop} {s : MessagingDb} {x x' : MessageOutbox}

/-- When a message was sent stays, unless it was taken over again. -/
theorem sentAt (h : MessageStep L s x x') (hraced : x.raced = false) (hclosed : ¬x.Open) :
    x'.sentAt = x.sentAt := by
  cases h with
  | markSent _ _ _ _ _ _ hheld => exact absurd (.inr (hheld hraced).1) hclosed
  | _ => rfl

end MessageStep

section Sound

variable {L : Hold LockKey → Prop} {s s' : MessagingDb} {note : Note} {n : ℕ}

/-- What a message is when it is created, and what steps keep of it. -/
theorem Change.forall_message (h : Change L s note s') {P : MessageOutbox → Prop}
    (hs : ∀ x ∈ s.outbox, P x) (hstep : ∀ x ∈ s.outbox, ∀ x', MessageStep L s x x' → P x → P x')
    (hcreate : ∀ x seen, note = .create x seen → x.Fresh → L (.number x.id) →
      (∀ k, x.send = some k → L (.number k)) → P x) : ∀ x ∈ s'.outbox, P x := by
  intro x' hx'
  rcases h.origin hx' with ⟨x, hx, hstep'⟩ | ⟨seen, rfl⟩
  · exact hstep x hx x' hstep' (hs x hx)
  · cases h with
    | create _ _ hnumber _ _ hfresh _ _ hsend =>
      exact hcreate x' seen rfl hfresh hnumber fun k hk => (hsend k hk).1

theorem MessageOutbox.Fresh.not_sending {x : MessageOutbox} (h : x.Fresh) : x.status ≠ .sending := by
  rcases h.status with hstatus | hstatus <;> simp [hstatus]

/-- A message that was taken over again stays so. -/
theorem Change.unraced (h : Change L s note s') (hs' : s'.Unraced) : s.Unraced := by
  intro x hx
  obtain ⟨x', hx', hstep⟩ := h.message hx
  exact hstep.unraced (hs' x' hx')

theorem Change.messaged (h : Change L s note s') (hs : Sound s n) : ∀ d' ∈ s'.dispatches,
    ∃ x' ∈ s'.outbox, x'.id = d'.message ∧ x'.tenantId = d'.tenantId := by
  intro d' hd'
  obtain ⟨x, hx, hid, htenant⟩ : ∃ x ∈ s.outbox, x.id = d'.message ∧ x.tenantId = d'.tenantId := by
    rcases h.caller hd' with ⟨d, hd, hcall⟩ | hx
    · rw [← Dispatch.of_call hcall Dispatch.message fun _ => rfl,
        ← Dispatch.of_call hcall Dispatch.tenantId fun _ => rfl]
      exact hs.messaged d hd
    · exact hx
  obtain ⟨x', hx', hsame⟩ := h.same hx
  exact ⟨x', hx', hsame.id.trans hid, hsame.tenantId.trans htenant⟩

theorem Change.single (h : Change L s note s') (hs : Sound s n) :
    s'.dispatches.Pairwise fun d d' => d.message = d'.message → d.sender ≠ d'.sender := by
  cases h with
  | dispatch m sender byPass _ _ hnew =>
    refine List.pairwise_append.mpr ⟨hs.single, List.pairwise_singleton .., fun d hd d' hd' => ?_⟩
    rw [List.mem_singleton.mp hd']
    exact fun hid hsender => hnew d (List.mem_filter.mpr ⟨hd, decide_eq_true hsender⟩) hid
  | recordSent =>
    refine List.pairwise_map.mpr (hs.single.imp fun {d d'} hdd' => ?_)
    rwa [Dispatch.recordSent_message, Dispatch.recordSent_message, Dispatch.recordSent_sender,
      Dispatch.recordSent_sender]
  | _ => exact hs.single

theorem Change.sent (h : Change L s note s') (hs : Sound s n) : ∀ d' ∈ s'.dispatches, ∀ t,
    d'.sentAt = some t → ∀ x' ∈ s'.outbox, x'.id = d'.message → x'.raced = false →
      x'.sentAt = some t ∧ d'.calledAt ≤ t ∧ ¬x'.Open := by
  intro d' hd' t ht x' hx' hid hraced
  rcases h.recorded hd' ht with hd | ⟨hcalled, provider, messageId, hsent⟩
  · rcases h.origin hx' with ⟨x, hx, hstep⟩ | ⟨seen, rfl⟩
    · obtain ⟨hsentAt, hcalled, hclosed⟩ := hs.sent d' hd t ht x hx
        (hstep.message.id.symm.trans hid) (hstep.unraced hraced)
      exact ⟨(hstep.sentAt (hstep.unraced hraced) hclosed).trans hsentAt, hcalled,
        fun hopen => hclosed (hstep.was_open hraced hopen)⟩
    · obtain ⟨x, hx, hxd, -⟩ := hs.messaged d' hd
      cases h with
      | create _ _ _ _ hnew => exact absurd (hxd.trans hid.symm) (hnew x hx)
  · obtain ⟨x, hx, rfl⟩ := hsent x' hx' hid
    exact ⟨rfl, hcalled, by simp [MessageOutbox.Open, MessageOutbox.markSent]⟩

theorem Change.once (h : Change L s note s') (hs : Sound s n) (hunraced : s.Unraced) :
    s'.dispatches.Pairwise fun d d' =>
      d.message = d'.message → ¬(d.sentAt.isSome ∧ d'.sentAt.isSome) := by
  cases h with
  | dispatch m sender byPass =>
    refine List.pairwise_append.mpr ⟨hs.once hunraced, List.pairwise_singleton ..,
      fun d hd d' hd' => ?_⟩
    rw [List.mem_singleton.mp hd']
    exact fun _ hboth => Bool.false_ne_true hboth.2
  | recordSent m sender provider messageId sentAt hnumber hlock hheld =>
    obtain ⟨x, hx, hsame, hxm⟩ := hheld.found
    obtain rfl := hxm (hunraced x hx)
    -- the message is being sent, so no call for it has been recorded
    have hnone : ∀ d ∈ s.dispatches, d.message = x.id → d.sentAt = none := by
      intro d hd hid
      by_contra hsome
      obtain ⟨t, ht⟩ := Option.ne_none_iff_exists'.mp hsome
      exact (hs.sent d hd t ht x hx hid.symm (hunraced x hx)).2.2 (.inr hheld.status)
    have hother : ∀ d ∈ s.dispatches, d.message = x.id → d.sender ≠ sender →
        (d.recordSent x.id sender sentAt).sentAt = none := by
      intro d hd hid hsender
      rw [Dispatch.recordSent, if_neg fun hsent => hsender hsent.2]
      exact hnone d hd hid
    refine List.pairwise_map.mpr ((hs.single.and (hs.once hunraced)).imp_of_mem
      fun {d d'} hd hd' hdd' hid hboth => ?_)
    rw [Dispatch.recordSent_message, Dispatch.recordSent_message] at hid
    by_cases hdx : d.message = x.id
    · by_cases hsender : d.sender = sender
      · have hsender' : d'.sender ≠ sender := fun heq => hdd'.1 hid (hsender.trans heq.symm)
        rw [hother d' hd' (hid.symm.trans hdx) hsender'] at hboth
        exact Bool.false_ne_true hboth.2
      · rw [hother d hd hdx hsender] at hboth
        exact Bool.false_ne_true hboth.1
    · rw [Dispatch.recordSent, if_neg fun hsent => hdx hsent.1, Dispatch.recordSent,
        if_neg fun hsent => hdx (hid.trans hsent.1)] at hboth
      exact hdd'.2 hid hboth
  | _ => exact hs.once hunraced

/-- Changes keep the tables sound. -/
theorem Change.sound (h : Change L s note s') (hs : Sound s n)
    (hdrawn : ∀ m, L (.number m) → m < n) : Sound s' n where
  messages := h.forall_message hs.messages (fun x _ x' hstep hx => hstep.message.id.symm ▸ hx)
    fun x _ _ _ hnumber _ => hdrawn x.id hnumber
  holders := h.forall_message hs.holders
    (fun x _ x' hstep hx k hk => (hstep.holders hk).elim (hx k) (hdrawn k))
    fun x _ _ hfresh _ _ k hk => by simp [hfresh.holder] at hk
  sends := h.forall_message hs.sends (fun x _ x' hstep hx k hk => hx k (hstep.message.send ▸ hk))
    fun x _ _ _ _ hsend k hk => hdrawn k (hsend k hk)
  optOuts := by
    cases h with
    | optOut o hnumber =>
      intro x hx
      rcases KeyedTable.mem_put.mp hx with rfl | ⟨hx, -⟩
      · exact hdrawn _ hnumber
      · exact hs.optOuts x hx
    | removeOptOut id => exact fun x hx => hs.optOuts x (KeyedTable.mem_delete.mp hx).1
    | _ => exact hs.optOuts
  campaigns := by
    cases h with
    | campaign c hnumber =>
      intro x hx
      rcases KeyedTable.mem_put.mp hx with rfl | ⟨hx, -⟩
      · exact hdrawn _ hnumber
      · exact hs.campaigns x hx
    | campaignSent id sentCount =>
      intro x hx
      obtain ⟨c, hc, rfl⟩ := mem_sendCampaign.mp hx
      split <;> exact hs.campaigns c hc
    | _ => exact hs.campaigns
  dispatches := by
    intro d hd
    by_cases hk : L (.number d.sender)
    · exact hdrawn _ hk
    · have hmem : d ∈ s'.callsBy d.sender := List.mem_filter.mpr ⟨hd, decide_eq_true rfl⟩
      rw [h.callsBy hk] at hmem
      exact hs.dispatches d (List.mem_filter.mp hmem).1
  counts := by
    intro c hc
    by_cases hk : L (.number c.pass)
    · exact hdrawn _ hk
    · have hmem : c ∈ s'.countsBy c.pass := List.mem_filter.mpr ⟨hc, decide_eq_true rfl⟩
      rw [h.countsBy hk] at hmem
      exact hs.counts c (List.mem_filter.mp hmem).1
  called := by
    cases h with
    | tick ms => exact fun d hd => (hs.called d hd).trans (Change.tick (L := L) ms).now_le
    | dispatch m sender byPass =>
      intro d hd
      rcases List.mem_append.mp hd with hd | hd
      · exact hs.called d hd
      · rw [List.mem_singleton.mp hd]
        exact le_refl s.now
    | recordSent m sender provider messageId sentAt =>
      intro d' hd'
      obtain ⟨d, hd, rfl⟩ := List.mem_map.mp hd'
      rw [Dispatch.recordSent_calledAt]
      exact hs.called d hd
    | _ => exact hs.called
  counted := by
    cases h with
    | tick ms => exact fun c hc => (hs.counted c hc).trans (Change.tick (L := L) ms).now_le
    | count c _ hnow =>
      intro c hc
      rcases List.mem_append.mp hc with hc | hc
      · exact hs.counted c hc
      · rw [List.mem_singleton.mp hc]
        exact hnow
    | _ => exact hs.counted
  taken := h.forall_message hs.taken (fun x _ x' hstep hx => hstep.taken hx)
    fun x _ _ hfresh _ _ hstatus => absurd hstatus hfresh.not_sending
  raced := h.forall_message hs.raced (fun x _ x' hstep hx => hstep.raced_otp hx)
    fun x _ _ hfresh _ _ hraced => by simp [hfresh.raced] at hraced
  closed := h.forall_message hs.closed (fun x _ x' hstep hx => hstep.closed hx)
    fun x _ _ hfresh _ _ _ hknown => absurd hfresh.providerMessageId hknown
  messaged := h.messaged hs
  single := h.single hs
  sent := h.sent hs
  once hunraced := h.once hs (h.unraced hunraced)

/-- What was recorded as sent in the last minute is counted, unless a message was taken over again. -/
theorem Sound.recorded_le_recent (hs : Sound s n) (hunraced : s.Unraced) (tenantId : String)
    (now : Time) : ((s.recorded tenantId).filter fun d => now - 60000 < d.calledAt).length ≤
      (s.recent tenantId now).length := by
  set sent := (s.recorded tenantId).filter fun d => now - 60000 < d.calledAt with hsent
  have hmem : ∀ d ∈ sent, d ∈ s.dispatches ∧ d.tenantId = tenantId ∧ d.sentAt.isSome ∧
      now - 60000 < d.calledAt := by
    intro d hd
    obtain ⟨hd, hcalled⟩ := List.mem_filter.mp hd
    obtain ⟨hd, hrecorded⟩ := List.mem_filter.mp hd
    obtain ⟨-, htenant, hsome⟩ := of_decide_eq_true hrecorded
    exact ⟨hd, htenant, hsome, of_decide_eq_true hcalled⟩
  have hsublist : sent.Sublist s.dispatches := List.filter_sublist.trans List.filter_sublist
  have hnodup : (sent.map (·.message)).Nodup := by
    refine List.pairwise_map.mpr (((hs.once hunraced).sublist hsublist).imp_of_mem
      fun {d d'} hd hd' hdd' hid => ?_)
    exact hdd' hid ⟨(hmem d hd).2.2.1, (hmem d' hd').2.2.1⟩
  have hsubset : sent.map (·.message) ⊆ (s.recent tenantId now).map (·.id) := by
    intro id hid
    obtain ⟨d, hd, rfl⟩ := List.mem_map.mp hid
    obtain ⟨hd, htenant, hsome, hcalled⟩ := hmem d hd
    obtain ⟨t, ht⟩ := Option.isSome_iff_exists.mp hsome
    obtain ⟨x, hx, hxd, hxtenant⟩ := hs.messaged d hd
    obtain ⟨hsentAt, hle, -⟩ := hs.sent d hd t ht x hx hxd (hunraced x hx)
    refine List.mem_map.mpr ⟨x, List.mem_filter.mpr ⟨hx, decide_eq_true ⟨?_, ?_⟩⟩, hxd⟩
    · exact hxtenant.trans htenant
    · rw [hsentAt]
      exact decide_eq_true (lt_of_lt_of_le hcalled hle)
  have hle := (List.subperm_of_subset hnodup hsubset).length_le
  rwa [List.length_map, List.length_map] at hle

end Sound

end StelloKitchens.Messaging
