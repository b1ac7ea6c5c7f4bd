import StelloKitchens.Shared.Amount
import StelloKitchens.Shared.Service
import Mathlib.Data.List.Dedup
import Mathlib.Data.List.Infix
import Mathlib.Data.List.Sort

/-!
# Messages to customers

Messages are queued in an outbox. Campaigns and low-stock alerts are queued and sent later by
passes of a dispatcher, within a rate for each tenant; one-time codes are queued and sent at once.
A sender takes a message over, calls the provider, and records what that comes to: the message is
sent, or queued again for a later try, or failed for good. The provider reports on messages later,
by the id that it has given them. Campaigns are not queued for recipients who have opted out.

## Main definitions

* `MessageOutbox`, `OptOut`, `Campaign`, `MessagingDb` — the tables.
* `enqueue`, `sendNow`, `deliver`, `processOutbox` — sending.
* `applyDelivery`, `optOut` — what comes in.
-/

namespace StelloKitchens.Messaging

open Checked Tx Method Service

/-! ### Recipients -/

inductive MessagingChannel
  | sms
  | whatsapp
  | email
  deriving DecidableEq

/-- The letters of a text in lower case. -/
def lower (s : String) : String := String.ofList (s.toList.map Char.toLower)

/-- An Indian mobile number in its ten-digit form. -/
def nationalPhone (phone : String) : String :=
  let d := phone.toList.filter Char.isDigit
  String.ofList (d.drop (d.length - 10))

/-- The key under which a recipient is looked up among the opt-outs of a channel. -/
def optOutKey (channel : MessagingChannel) (phoneOrEmail : String) : String :=
  match channel with
  | .email => lower (trim phoneOrEmail)
  | .sms | .whatsapp => nationalPhone phoneOrEmail

inductive OptOutChannel
  | one (channel : MessagingChannel)
  | all
  deriving DecidableEq

/-- The key under which an opt-out is recorded. -/
def recordedKey (channel : OptOutChannel) (phone : String) : String :=
  match channel with
  | .one channel => optOutKey channel phone
  | .all => nationalPhone phone

/-- What tells recipients apart, whatever the channel: an address, or a phone. -/
def contactKey (phoneOrEmail : String) : String :=
  if '@' ∈ phoneOrEmail.toList then lower (trim phoneOrEmail) else nationalPhone phoneOrEmail

/-! ### Tables -/

inductive MessagingPurpose
  | otp
  | campaign
  | lowStock
  deriving DecidableEq

inductive OutboxStatus
  | queued
  | sending
  | sent
  | delivered
  | read
  | failed
  | skipped
  deriving DecidableEq

inductive OtpChannel
  | sms
  | whatsapp
  deriving DecidableEq

structure MessagingConfig where
  tenantId : String
  smsEnabled : Bool
  whatsappEnabled : Bool
  emailEnabled : Bool
  whatsappPhoneNumberId : Option String
  otpChannel : OtpChannel
  ratePerMinute : ℕ
  deriving DecidableEq

structure OptOut where
  id : ℕ
  tenantId : String
  phone : String
  channel : OptOutChannel
  source : String
  /-- The phone or address as it was given, which no statement reads. -/
  given : String
  deriving DecidableEq

/-- The unique key of an opt-out. -/
def OptOut.key (o : OptOut) : String × String × OptOutChannel := (o.tenantId, o.phone, o.channel)

structure MessageOutbox where
  id : ℕ
  tenantId : String
  outletId : Option String
  campaignId : Option ℕ
  purpose : MessagingPurpose
  channel : MessagingChannel
  recipient : String
  body : String
  vars : List String
  status : OutboxStatus
  provider : Option String
  providerMessageId : Option String
  attempts : ℤ
  nextAttemptAt : Time
  error : Option String
  sentAt : Option Time
  deliveredAt : Option Time
  createdAt : Time
  /-- The customer and the send of the campaign, which no statement reads. -/
  customer : Option ℕ
  send : Option ℕ
  /-- Who has taken the message over last, and whether it was taken over when it was not queued any
  more, which no statement reads. -/
  holder : Option ℕ
  raced : Bool
  deriving DecidableEq

inductive CustomerSegment
  | new
  | regular
  | vip
  | lapsed
  deriving DecidableEq

structure Customer where
  id : ℕ
  tenantId : String
  outletId : String
  phone : String
  email : Option String
  totalOrders : ℕ
  totalSpent : Decimal 12 2
  lastVisitAt : Option Time
  deriving DecidableEq

inductive CampaignStatus
  | draft
  | sent
  deriving DecidableEq

structure Campaign where
  id : ℕ
  tenantId : String
  outletId : String
  name : String
  channel : MessagingChannel
  /-- The segment, or all customers. -/
  segment : Option CustomerSegment
  message : String
  sentCount : ℕ
  status : CampaignStatus
  deriving DecidableEq

/-- The campaign has been sent to so many customers. -/
def Campaign.markSent (sentCount : ℕ) (c : Campaign) : Campaign :=
  { c with status := .sent, sentCount := sentCount }

/-- The call of a provider for a message. -/
structure Dispatch where
  message : ℕ
  attempt : ℤ
  /-- The sender, and whether it is a pass of the dispatcher. -/
  sender : ℕ
  byPass : Bool
  tenantId : String
  purpose : MessagingPurpose
  /-- An opt-out covered the recipient. -/
  optedOut : Bool
  calledAt : Time
  /-- When the message was recorded as sent. -/
  sentAt : Option Time
  deriving DecidableEq

/-- A pass counts what a tenant has sent in the last minute. -/
structure Count where
  pass : ℕ
  tenantId : String
  countedAt : Time
  rate : ℕ
  recent : ℕ
  /-- The calls of passes that were recorded as sent before. -/
  counted : List Dispatch
  deriving DecidableEq

structure MessagingDb where
  now : Time
  configs : KeyedTable MessagingConfig.tenantId
  customers : KeyedTable Customer.id
  campaigns : KeyedTable Campaign.id
  optOuts : KeyedTable OptOut.id
  outbox : KeyedTable MessageOutbox.id
  /-- The calls of the providers, and the counts, which no statement reads. -/
  dispatches : List Dispatch
  counts : List Count
  deriving DecidableEq

inductive LockKey
  | message (id : ℕ)
  | optOut (id : ℕ)
  /-- The unique key of an opt-out. -/
  | optOutKey (key : String × String × OptOutChannel)
  | campaign (id : ℕ)
  deriving DecidableEq

/-- What a commit is about: an opt-out that is recorded; a message that is queued, with the opt-outs
that were found before; a message that is taken over to be sent at once; a call of a provider. -/
inductive Note
  | plain
  | optOut (row : OptOut)
  | create (row : MessageOutbox) (seen : List OptOut)
  | takeover (id : ℕ)
  | dispatch (message sender : ℕ) (byPass : Bool) (tenantId : String)
  deriving DecidableEq

/-- A message as the provider is given it. -/
structure MessageCall where
  purpose : MessagingPurpose
  channel : MessagingChannel
  recipient : String
  body : String
  vars : List String

/-- What the call of a provider comes to: it takes the message, it answers with an error or not at
all, the message is refused before, or the call fails otherwise. -/
inductive DispatchReply
  | sent (provider messageId : String)
  | providerError (status : Option ℕ) (message : String)
  | badRequest (message : String)
  | failed (message : String)

abbrev MessagingTx (α : Type) := ServiceTx MessagingDb LockKey α

abbrev MessagingMethod := Method MessagingDb LockKey Note MessageCall DispatchReply ServiceError

/-! ### Statements -/

namespace MessageOutbox

/-- Still to be sent. -/
def Open (m : MessageOutbox) : Prop := m.status = .queued ∨ m.status = .sending

instance (m : MessageOutbox) : Decidable m.Open := inferInstanceAs (Decidable (_ ∨ _))

/-- A pass takes the message over. -/
def claim (pass : ℕ) (m : MessageOutbox) : MessageOutbox :=
  { m with status := .sending, attempts := m.attempts + 1, holder := some pass }

/-- It is taken over to be sent at once. -/
def takeOver (sender : ℕ) (m : MessageOutbox) : MessageOutbox :=
  { m with status := .sending, attempts := 1, holder := some sender,
           raced := m.raced || m.status ≠ .queued }

def markSent (provider messageId : String) (now : Time) (m : MessageOutbox) : MessageOutbox :=
  { m with status := .sent, provider := some provider, providerMessageId := some messageId,
           sentAt := some now, error := none }

def requeue (error : String) (nextAttemptAt : Time) (m : MessageOutbox) : MessageOutbox :=
  { m with status := .queued, error := some error, nextAttemptAt := nextAttemptAt }

def fail (error : String) (m : MessageOutbox) : MessageOutbox :=
  { m with status := .failed, error := some error }

/-- The message is put back because the tenant's rate is used up. -/
def defer (nextAttemptAt : Time) (m : MessageOutbox) : MessageOutbox :=
  { m with status := .queued, attempts := m.attempts - 1, nextAttemptAt := nextAttemptAt }

end MessageOutbox

/-- A call as it was made. -/
def Dispatch.call (d : Dispatch) : Dispatch := { d with sentAt := none }

/-- The calls of a sender for a message are recorded as sent. -/
def Dispatch.recordSent (message sender : ℕ) (sentAt : Time) (d : Dispatch) : Dispatch :=
  if d.message = message ∧ d.sender = sender then { d with sentAt := some sentAt } else d

/-- The opt-out is one for this recipient on this channel. -/
def OptOut.Covers (o : OptOut) (tenantId : String) (channel : MessagingChannel)
    (recipient : String) : Prop :=
  o.tenantId = tenantId ∧ (o.channel = .one channel ∨ o.channel = .all) ∧
    contactKey o.given = contactKey recipient

instance (o : OptOut) (tenantId : String) (channel : MessagingChannel) (recipient : String) :
    Decidable (o.Covers tenantId channel recipient) := by
  unfold OptOut.Covers
  infer_instance

namespace MessagingDb

def findMessage (db : MessagingDb) (id : ℕ) : Option MessageOutbox := db.outbox.find? id

/-- Update a message. -/
def updateMessage (id : ℕ) (f : MessageOutbox → MessageOutbox) (hf : ∀ m, (f m).id = m.id)
    (db : MessagingDb) : MessagingDb :=
  { db with outbox := db.outbox.modify (fun m => m.id = id) f hf }

/-- A pass takes messages over. -/
def claim (ids : List ℕ) (pass : ℕ) (db : MessagingDb) : MessagingDb :=
  { db with outbox := db.outbox.modify (fun m => m.id ∈ ids) (·.claim pass) fun _ => rfl }

/-- The messages that a pass can take over, oldest first. -/
def due (db : MessagingDb) (now : Time) : List MessageOutbox :=
  (db.outbox.rows.filter fun m => m.status = .queued ∧ m.nextAttemptAt ≤ now).insertionSort
    fun m m' => m.createdAt ≤ m'.createdAt

/-- An opt-out that covers the recipient is there. -/
def optedOut (db : MessagingDb) (tenantId : String) (channel : MessagingChannel)
    (recipient : String) : Bool :=
  db.optOuts.rows.any fun o => o.Covers tenantId channel recipient

/-- A provider is called for a message. -/
def dispatch (m : MessageOutbox) (sender : ℕ) (byPass : Bool) (db : MessagingDb) : MessagingDb :=
  { db with
    dispatches := db.dispatches ++ [⟨m.id, m.attempts, sender, byPass, m.tenantId, m.purpose,
      db.optedOut m.tenantId m.channel m.recipient, db.now, none⟩] }

/-- A pass has counted. -/
def count (c : Count) (db : MessagingDb) : MessagingDb := { db with counts := db.counts ++ [c] }

/-- A message is recorded as sent. -/
def recordSent (id sender : ℕ) (provider messageId : String) (sentAt : Time) (db : MessagingDb) :
    MessagingDb :=
  { db.updateMessage id (·.markSent provider messageId sentAt) fun _ => rfl with
    dispatches := db.dispatches.map (·.recordSent id sender sentAt) }

/-- A campaign is sent. -/
def sendCampaign (id sentCount : ℕ) (db : MessagingDb) : MessagingDb :=
  { db with
    campaigns := db.campaigns.modify (fun c => c.id = id) (·.markSent sentCount) fun _ => rfl }

def customersAt (db : MessagingDb) (tenantId outletId : String) : List Customer :=
  db.customers.rows.filter fun c => c.tenantId = tenantId ∧ c.outletId = outletId

/-- The messages that a tenant has sent in the last minute. -/
def recent (db : MessagingDb) (tenantId : String) (now : Time) : List MessageOutbox :=
  db.outbox.rows.filter fun m => m.tenantId = tenantId ∧ m.sentAt.any (now - 60000 < ·)

/-- The calls of passes for a tenant that are recorded as sent. -/
def recorded (db : MessagingDb) (tenantId : String) : List Dispatch :=
  db.dispatches.filter fun d => d.byPass ∧ d.tenantId = tenantId ∧ d.sentAt.isSome

end MessagingDb

/-- The values of a list, each where it comes first. -/
def distinct (l : List String) : List String := l.reverse.dedup.reverse

/-! ### Opt-outs -/

def rawConfig (tenantId : String) : MessagingMethod (Option MessagingConfig) :=
  look fun db => db.configs.find? tenantId

/-- The opt-outs that a recipient is found by. -/
def OptOut.hits (o : OptOut) (tenantId : String) (channel : MessagingChannel)
    (phoneOrEmail : String) : Bool :=
  o.tenantId = tenantId ∧ o.phone = optOutKey channel phoneOrEmail ∧
    (o.channel = .one channel ∨ o.channel = .all)

structure OptOutInput where
  phone : String
  channel : OptOutChannel

def optOutTx (row : ℕ → OptOut) (key : String × String × OptOutChannel) : MessagingTx Note := do
  acquire (.optOutKey key)
  let existing ← query fun db => db.optOuts.rows.any fun o => o.key = key
  if existing then return .plain
  else do
    let id ← draw
    acquire (.optOut id)
    update fun db => { db with optOuts := db.optOuts.put (row id) }
    return .optOut (row id)

/-- Record an opt-out, if it is not there. -/
def optOut (tenantId : String) (input : OptOutInput) (source : String) : MessagingMethod Unit := do
  let phone := recordedKey input.channel input.phone
  let _ ← atomically (fun note => note)
    (optOutTx (⟨·, tenantId, phone, input.channel, source, input.phone⟩)
      (tenantId, phone, input.channel))
  return ()

def removeOptOut (user : AuthUser) (id : ℕ) : MessagingMethod Unit := do
  let row ← look fun db => (db.optOuts.find? id).filter fun o => o.tenantId = user.tenantId
  let _ ← getOr row (.notFound "Opt-out not found")
  let deleted ← atomically (fun _ => .plain) (updateWhere (.optOut id)
    (fun db => (db.optOuts.find? id).isSome)
    fun db => { db with optOuts := db.optOuts.delete fun o => o.id = id })
  guardOr (deleted = true) .database

/-! ### Sending -/

structure SendRequest where
  tenantId : String
  outletId : Option String
  purpose : MessagingPurpose
  channel : MessagingChannel
  recipient : String
  body : String
  vars : List String
  campaignId : Option ℕ
  /-- The customer and the send of the campaign, which no statement reads. -/
  customer : Option ℕ
  send : Option ℕ

def MessagingConfig.enabled (c : MessagingConfig) : MessagingChannel → Bool
  | .sms => c.smsEnabled
  | .whatsapp => c.whatsappEnabled
  | .email => c.emailEnabled

def channelName : MessagingChannel → String
  | .sms => "SMS"
  | .whatsapp => "WHATSAPP"
  | .email => "EMAIL"

/-- Why a message is not queued, and the opt-outs that were found. -/
def skipReason (req : SendRequest) : MessagingMethod (Option String × List OptOut) := do
  let cfg ← rawConfig req.tenantId
  if (cfg.map (·.enabled req.channel)).getD true = false then
    return (some (channelName req.channel ++ " is disabled for this restaurant"), [])
  else if req.purpose = .campaign then do
    let seen ← look fun db => db.optOuts.rows
    if seen.any fun o => o.hits req.tenantId req.channel req.recipient then
      return (some "Recipient opted out", seen)
    else return (none, seen)
  else return (none, [])

/-- A message as it is queued. -/
def SendRequest.row (req : SendRequest) (skip : Option String) (id : ℕ)
    (nextAttemptAt createdAt : Time) : MessageOutbox where
  id := id
  tenantId := req.tenantId
  outletId := req.outletId
  campaignId := req.campaignId
  purpose := req.purpose
  channel := req.channel
  recipient := req.recipient
  body := req.body
  vars := req.vars
  status := if skip.isSome then .skipped else .queued
  provider := none
  providerMessageId := none
  attempts := 0
  nextAttemptAt := nextAttemptAt
  error := skip
  sentAt := none
  deliveredAt := none
  createdAt := createdAt
  customer := req.customer
  send := req.send
  holder := none
  raced := false

def createTx (row : ℕ → Time → MessageOutbox) : MessagingTx MessageOutbox := do
  let id ← draw
  acquire (.message id)
  let createdAt ← query (·.now)
  update fun db => { db with outbox := db.outbox.put (row id createdAt) }
  return row id createdAt

/-- Queue a message, or note that it is skipped. -/
def enqueue (req : SendRequest) : MessagingMethod MessageOutbox := do
  let (skip, seen) ← skipReason req
  let now ← look (·.now)
  atomically (.create · seen) (createTx (req.row skip · now))

def maxAttempts : ℤ := 5

/-- The call of the provider is worth no other try. -/
def DispatchReply.permanent : DispatchReply → Bool
  | .providerError (some status) _ => status < 500 ∧ status ≠ 429
  | .badRequest _ => true
  | _ => false

def DispatchReply.message : DispatchReply → String
  | .sent _ _ => ""
  | .providerError _ message => message
  | .badRequest message => message
  | .failed message => message

/-- Write to a message that is there. -/
def updateMessage (id : ℕ) (f : MessagingDb → MessagingDb) : MessagingMethod Unit := do
  let updated ← atomically (fun _ => .plain)
    (updateWhere (.message id) (fun db => (db.findMessage id).isSome) f)
  guardOr (updated = true) .database

/-- The call has failed: the message is queued again for a later try, or fails for good. -/
def recordFailure (row : MessageOutbox) (reply : DispatchReply) :
    MessagingMethod (OutboxStatus × Option String) := do
  let error := sliceUtf16 300 reply.message
  let now ← look (·.now)
  if reply.permanent = false ∧ row.attempts < maxAttempts ∧ row.purpose ≠ .otp then do
    updateMessage row.id (·.updateMessage row.id
      (·.requeue error (now + 30000 * 2 ^ (row.attempts - 1).toNat)) fun _ => rfl)
    return (.queued, some error)
  else do
    updateMessage row.id (·.updateMessage row.id (·.fail error) fun _ => rfl)
    return (.failed, some error)

/-- Call the provider for a message that was taken over, and record what that comes to: the status
of the message after it, and the error. -/
def deliver (sender : ℕ) (byPass : Bool) (row : MessageOutbox) :
    MessagingMethod (OutboxStatus × Option String) := do
  let _ ← rawConfig row.tenantId
  atomically (fun _ => .dispatch row.id sender byPass row.tenantId)
    (update (·.dispatch row sender byPass))
  match ← ask ⟨row.purpose, row.channel, row.recipient, row.body, row.vars⟩ with
  | .sent provider messageId => do
    let now ← look (·.now)
    updateMessage row.id (·.recordSent row.id sender provider messageId now)
    return (.sent, none)
  | reply => recordFailure row reply

def takeOverTx (id : ℕ) : MessagingTx (ℕ × MessageOutbox) := do
  let sender ← draw
  acquire (.message id)
  let row ← query (·.findMessage id)
  let row ← require row .database
  update (·.updateMessage id (·.takeOver sender) fun _ => rfl)
  return (sender, row.takeOver sender)

/-- Send at once. -/
def sendNow (req : SendRequest) : MessagingMethod Unit := do
  let row ← enqueue req
  guardOr (row.status ≠ .skipped) (.badRequest (row.error.getD "Message not allowed"))
  let (sender, claimed) ← atomically (fun _ => .takeover row.id) (takeOverTx row.id)
  let (status, error) ← deliver sender false claimed
  guardOr (status ≠ .failed ∧ status ≠ .queued) (.badRequest ("Could not send " ++
    (if req.channel = .whatsapp then "WhatsApp" else channelName req.channel) ++ " message: " ++
      error.getD "provider error"))

/-! ### The dispatcher -/

/-- Take over up to `batch` messages that are due, but for those that others have locked. -/
def claimTx (now : Time) (batch : ℕ) (skipped : List ℕ) : MessagingTx (ℕ × List MessageOutbox) := do
  let pass ← draw
  let picked ← query fun db =>
    (((db.due now).filter fun m => m.id ∉ skipped).take batch).map (·.id)
  acquireAll (picked.map .message)
  let rows ← query fun db => (db.due now).filter fun m => m.id ∈ picked
  update (·.claim (rows.map (·.id)) pass)
  return (pass, rows.map (·.claim pass))

/-- Count what the tenant has sent in the last minute. -/
def countTx (pass : ℕ) (tenantId : String) (rate : ℕ) (now : Time) : MessagingTx ℕ := do
  let (recent, counted) ← query fun db =>
    ((db.recent tenantId now).length, db.recorded tenantId)
  update (·.count ⟨pass, tenantId, now, rate, recent, counted⟩)
  return recent

/-- Send the messages of a tenant within its budget, and put back the rest: how many were sent and
deferred. -/
def sendRows (pass : ℕ) : ℕ → List MessageOutbox → MessagingMethod (ℕ × ℕ)
  | _, [] => return (0, 0)
  | 0, row :: rows => do
    let now ← look (·.now)
    updateMessage row.id (·.updateMessage row.id (·.defer (now + 10000)) fun _ => rfl)
    let (sent, deferred) ← sendRows pass 0 rows
    return (sent, deferred + 1)
  | budget + 1, row :: rows => do
    let (status, _) ← deliver pass true row
    let (sent, deferred) ← sendRows pass budget rows
    return (if status = .sent then sent + 1 else sent, deferred)

/-- The messages of one tenant after another. -/
def sendTenants (pass : ℕ) (claimed : List MessageOutbox) : List String → MessagingMethod (ℕ × ℕ)
  | [] => return (0, 0)
  | tenantId :: tenantIds => do
    let cfg ← rawConfig tenantId
    let perMinute := (cfg.map (·.ratePerMinute)).getD 60
    let now ← look (·.now)
    let recent ← atomically (fun _ => .plain) (countTx pass tenantId perMinute now)
    let rows := (claimed.filter fun m => m.tenantId = tenantId).insertionSort
      fun m m' => m.createdAt ≤ m'.createdAt
    let (sent, deferred) ← sendRows pass (perMinute - recent) rows
    let (sent', deferred') ← sendTenants pass claimed tenantIds
    return (sent + sent', deferred + deferred')

/-- One pass of the dispatcher. -/
def processOutbox (batch : ℕ) (skipped : List ℕ) : MessagingMethod (ℕ × ℕ) := do
  let now ← look (·.now)
  let (pass, claimed) ← atomically (fun _ => .plain) (claimTx now batch skipped)
  sendTenants pass claimed (distinct (claimed.map (·.tenantId)))

/-! ### Delivery receipts -/

def statusRank : OutboxStatus → ℕ
  | .queued => 0
  | .sending => 1
  | .sent => 2
  | .delivered => 3
  | .read => 4
  | .failed => 5
  | .skipped => 5

/-- A receipt does not change a message with this status. -/
def ignoresReceipt (status current : OutboxStatus) : Bool :=
  statusRank status ≤ statusRank current ∧ ¬(status = .failed ∧ current = .sent)

/-- What a receipt writes to a message that was found in this state. -/
def MessageOutbox.receive (status : OutboxStatus) (error : Option String)
    (deliveredAt : Option Time) (now : Time) (m : MessageOutbox) : MessageOutbox :=
  { m with
    status := status
    deliveredAt := if status = .delivered ∨ status = .read then some (deliveredAt.getD now)
      else m.deliveredAt
    error := ((truthy error).map (sliceUtf16 300)).or m.error }

/-- Apply a receipt to the messages with the provider's id: how many it changes. -/
def applyDelivery (providerMessageId : String) (status : OutboxStatus) (error : Option String) :
    MessagingMethod ℕ := do
  let rows ← look fun db => db.outbox.rows.filter fun m =>
    m.providerMessageId = some providerMessageId
  let changed ← rows.mapM fun r =>
    if ignoresReceipt status r.status then return 0
    else do
      let now ← look (·.now)
      updateMessage r.id (·.updateMessage r.id (·.receive status error r.deliveredAt now)
        fun _ => rfl)
      return 1
  return changed.sum

/-! ### Webhooks -/

structure WhatsAppStatus where
  id : String
  status : String
  error : Option String

structure WhatsAppMessage where
  sender : String
  text : String

structure WhatsAppChange where
  phoneNumberId : Option String
  statuses : List WhatsAppStatus
  messages : List WhatsAppMessage

/-- The statuses that WhatsApp reports. -/
def whatsAppStatus : String → Option OutboxStatus
  | "sent" => some .sent
  | "delivered" => some .delivered
  | "read" => some .read
  | "failed" => some .failed
  | _ => none

/-- The text asks for no more messages. -/
def isStop (text : String) : Bool :=
  String.ofList ((trim text).toList.map Char.toUpper) ∈ ["STOP", "UNSUBSCRIBE", "STOP PROMOTIONS"]

/-- The text ends with another. -/
def endsWith (text suffix : String) : Bool := suffix.toList.isSuffixOf text.toList

/-- Opt a phone out with the tenant that the receiving number belongs to, or with all that know
it. -/
def optOutEverywhere (sender : String) (channel : MessagingChannel) (source : String)
    (phoneNumberId : Option String) : MessagingMethod ℕ := do
  let phone := nationalPhone sender
  let owner ← look fun db => (truthy phoneNumberId).bind fun p =>
    db.configs.rows.find? fun c => c.whatsappPhoneNumberId = some p
  let known ← look fun db =>
    (db.customers.rows.filter fun c => endsWith c.phone phone).map (·.tenantId)
  let tenantIds := match owner with
    | some owner => [owner.tenantId]
    | none => distinct known
  let _ ← tenantIds.mapM fun tenantId => optOut tenantId ⟨phone, .one channel⟩ source
  return tenantIds.length

/-- The receipts and the inbound messages of one change. -/
def handleWhatsAppChange (v : WhatsAppChange) : MessagingMethod Unit := do
  let _ ← v.statuses.mapM fun s => match whatsAppStatus s.status with
    | some st => applyDelivery s.id st s.error
    | none => return 0
  let _ ← v.messages.mapM fun m =>
    if isStop m.text then optOutEverywhere m.sender .whatsapp "WHATSAPP_STOP" v.phoneNumberId
    else return 0
  return ()

def handleWhatsAppWebhook (signatureOk : Bool) (changes : List WhatsAppChange) :
    MessagingMethod Unit := do
  guardOr (signatureOk = true) (.badRequest "Invalid signature")
  let _ ← changes.mapM handleWhatsAppChange
  return ()

structure Msg91Report where
  code : Option ℕ
  desc : String

/-- The status that a report of MSG91 stands for. -/
def msg91Status (r : Msg91Report) : Option OutboxStatus :=
  let desc := r.desc.toList.map Char.toUpper
  if r.code = some 1 ∨ desc = "DELIVERED".toList then some .delivered
  else if r.code = some 2 ∨
      ["FAIL", "REJECT", "NDNC", "BLOCK"].any fun w => decide (w.toList <:+: desc) then
    some .failed
  else none

def handleMsg91Report (items : List (String × List Msg91Report)) : MessagingMethod Unit := do
  let _ ← items.mapM fun (requestId, reports) => reports.mapM fun rep =>
    match msg91Status rep with
    | some st =>
      if requestId ≠ "" then
        applyDelivery requestId st (if st = .failed then some rep.desc else none)
      else return 0
    | none => return 0
  return ()

/-! ### Notifications and campaigns -/

/-- Where a notification is routed. -/
structure NotificationMeta where
  tenantId : String
  outletId : Option String
  purpose : MessagingPurpose
  vars : Option (List String)
  campaignId : Option ℕ
  immediate : Bool
  /-- The customer and the send of the campaign, which no statement reads. -/
  customer : Option ℕ
  send : Option ℕ

/-- Send a notification: one-time codes at once, on the tenant's channel, and the rest through the
outbox. -/
def send (channel : MessagingChannel) (recipient message : String) (options : NotificationMeta) :
    MessagingMethod Unit := do
  let req : SendRequest := ⟨options.tenantId, options.outletId, options.purpose, channel, recipient,
    message, options.vars.getD [message], options.campaignId, options.customer, options.send⟩
  if options.purpose = .otp ∨ options.immediate = true then do
    let cfg ← rawConfig options.tenantId
    let preferred := if channel = .email then .email
      else if (cfg.map (·.otpChannel)).getD .sms = .whatsapp ∧
          (cfg.map (·.whatsappEnabled)).getD true then
        .whatsapp
      else .sms
    sendNow { req with channel := preferred }
  else do
    let _ ← enqueue req
    return ()

def lapsedDays : ℤ := 60

def segmentOf (c : Customer) (now : Time) : CustomerSegment :=
  if c.lastVisitAt.any fun t => now - t > lapsedDays * 86400000 then .lapsed
  else if c.totalSpent.toNumber ≥ 5000 ∨ c.totalOrders ≥ 10 then .vip
  else if c.totalOrders ≥ 3 then .regular
  else .new

def createCampaignTx (row : ℕ → Campaign) : MessagingTx Unit := do
  let id ← draw
  acquire (.campaign id)
  update fun db => { db with campaigns := db.campaigns.put (row id) }

structure CampaignInput where
  name : String
  channel : MessagingChannel
  segment : Option CustomerSegment
  message : String

def createCampaign (user : AuthUser) (outletId : String) (input : CampaignInput) :
    MessagingMethod Unit := do
  guardOr (outletId ∈ user.outletIds) (.forbidden "No access to outlet")
  atomically (fun _ => .plain) (createCampaignTx (⟨·, user.tenantId, outletId, input.name,
    input.channel, input.segment, input.message, 0, .draft⟩))

/-- The customers that a campaign is sent to. -/
def recipients (campaign : Campaign) (customers : List Customer) (now : Time) : List Customer :=
  customers.filter fun c => campaign.segment.all fun s => segmentOf c now = s

/-- Send a campaign: a message is queued for each customer of its segment. -/
def sendCampaign (user : AuthUser) (outletId : String) (id : ℕ) : MessagingMethod ℕ := do
  guardOr (outletId ∈ user.outletIds) (.forbidden "No access to outlet")
  let row ← look fun db => (db.campaigns.find? id).filter fun c =>
    c.outletId = outletId ∧ c.tenantId = user.tenantId
  let campaign ← getOr row (.notFound "Campaign not found")
  guardOr (campaign.status ≠ .sent) (.badRequest "Campaign already sent")
  -- the number of the send, which no statement reads
  let number ← atomically (fun _ => .plain) draw
  let customers ← look (·.customersAt user.tenantId outletId)
  let now ← look (·.now)
  let recipients := recipients campaign customers now
  let _ ← recipients.mapM fun c => send campaign.channel
    (if campaign.channel = .email then c.email.getD c.phone else c.phone) campaign.message
    ⟨user.tenantId, some outletId, .campaign, some [campaign.message], some campaign.id, false,
      some c.id, some number⟩
  let updated ← atomically (fun _ => .plain) (updateWhere (.campaign id)
    (fun db => (db.campaigns.find? id).isSome) (·.sendCampaign id recipients.length))
  guardOr (updated = true) .database
  return recipients.length

end StelloKitchens.Messaging
