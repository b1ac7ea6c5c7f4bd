import StelloKitchens.Billing.Store
import StelloKitchens.Lib.Ledger
import StelloKitchens.Lib.Process

/-!
# The payment tables of the cloud

The rows that the cash, gateway and gift card services of the API read and write: what is paid
for bills and refunded, collections at the payment gateway with the webhooks received for them,
cash drawers with their movements, the expenses paid from them, and gift cards with their ledger.

A row is named by the number that the process which inserts it has drawn.

## Main definitions

* `PaymentsDb` — the tables.
* `LockKey`, `Note`, `PaymentError` — what transactions lock, note on a commit and fail with.
* `ProviderCall`, `ProviderReply` — what is asked of the payment gateway, and what it answers.
* `PaymentTx`, `PaymentMethod` — transactions over the tables, and the services' methods.
-/

namespace StelloKitchens.Payments

open Billing (BillStatus SettleMode)

/-! ### Rows -/

/-- The columns of a bill that payments read. -/
structure Order where
  id : ℕ
  tenantId : String
  outletId : String
  status : BillStatus
  total : Amount
  billNumber : Option String
  customerName : Option String
  customerPhone : Option String
  deriving DecidableEq

structure OrderPayment where
  orderId : ℕ
  mode : SettleMode
  amount : Amount
  deriving DecidableEq

inductive RefundStatus
  | processed
  | failed
  | pending
  /-- Nothing is known of the provider's answer. -/
  | unknown
  /-- To be returned outside the system. -/
  | manual
  deriving DecidableEq

structure Refund where
  id : ℕ
  tenantId : String
  outletId : String
  orderId : ℕ
  amount : Amount
  mode : SettleMode
  reason : Option String
  gatewayRef : Option String
  status : RefundStatus
  requestKey : Option String
  /-- The captured payment that the refund draws from. -/
  gatewayPaymentId : Option ℕ
  createdAt : Time
  reconciledAt : Option Time
  deriving DecidableEq

inductive CollectKind
  | qr
  | link
  deriving DecidableEq

inductive CollectionStatus
  | created
  | paid
  | expired
  | cancelled
  | failed
  deriving DecidableEq

/-- A collection at the gateway for a bill. -/
structure GatewayPayment where
  id : ℕ
  tenantId : String
  outletId : String
  orderId : ℕ
  kind : CollectKind
  amount : Amount
  status : CollectionStatus
  providerRef : Option String
  /-- The provider's payment, once captured. -/
  paymentId : Option String
  imageUrl : Option String
  shortUrl : Option String
  upiString : Option String
  expiresAt : Option Time
  paidAt : Option Time
  createdAt : Time
  deriving DecidableEq

/-- A webhook delivery, under the provider's id of the event. -/
structure GatewayEvent where
  /-- The number of the process that received it. -/
  id : ℕ
  eventId : String
  event : String
  outcome : Option String
  processedAt : Option Time
  deriving DecidableEq

/-- What applying an event did. -/
inductive Effect
  | captured (collectionId : ℕ) (paymentId : String)
  | reconciled (refundId : ℕ) (status : RefundStatus)
  /-- There is no row to change, or it is not to be changed any more. -/
  | nothing (outcome : String)
  deriving DecidableEq

structure Applied where
  eventId : String
  effect : Effect
  deriving DecidableEq

inductive DrawerStatus
  | opened
  | closed
  deriving DecidableEq

structure CashSession where
  id : ℕ
  tenantId : String
  outletId : String
  openedById : String
  openingFloat : Amount
  openedAt : Time
  closedAt : Option Time
  countedCash : Option Amount
  status : DrawerStatus
  deriving DecidableEq

inductive MovementType
  | sale
  | payIn
  | payOut
  | expense
  | refund
  deriving DecidableEq

/-- Cash that went in, or out with a negative amount. -/
structure CashMovement where
  id : ℕ
  sessionId : ℕ
  type : MovementType
  amount : Amount
  category : Option String
  note : Option String
  orderId : Option ℕ
  deriving DecidableEq

/-- The columns of an expense that the drawer knows. -/
structure Expense where
  id : ℕ
  tenantId : String
  outletId : String
  total : Decimal 12 2
  cashMovementId : Option ℕ
  voided : Bool
  deriving DecidableEq

/-- The column of a gift card's money. -/
abbrev CardAmount := Decimal 12 2

inductive CardKind
  | giftCard
  | storeCredit
  deriving DecidableEq

inductive CardStatus
  | active
  | void
  deriving DecidableEq

structure GiftCard where
  id : ℕ
  tenantId : String
  issuedOutletId : String
  code : String
  kind : CardKind
  initialValue : CardAmount
  balance : CardAmount
  /-- The last day it is good for. -/
  expiresOn : Option ℤ
  status : CardStatus
  customerName : Option String
  customerPhone : Option String
  note : Option String
  deriving DecidableEq

inductive CardTxnType
  | issue
  | redeem
  | void
  | storeCredit
  deriving DecidableEq

inductive IssueMode
  | cash
  | card
  | upi
  | complimentary
  deriving DecidableEq

/-- An entry of a card's ledger. -/
structure GiftCardTxn where
  giftCardId : ℕ
  outletId : String
  type : CardTxnType
  amount : CardAmount
  balanceAfter : CardAmount
  orderId : Option ℕ
  paymentMode : Option IssueMode
  userId : Option String
  note : Option String
  deriving DecidableEq

structure PaymentsDb where
  orders : KeyedTable Order.id
  payments : List OrderPayment
  refunds : KeyedTable Refund.id
  gatewayPayments : KeyedTable GatewayPayment.id
  gatewayEvents : KeyedTable GatewayEvent.eventId
  /-- The events that have been applied, which no statement reads. -/
  applied : List Applied
  cashSessions : KeyedTable CashSession.id
  cashMovements : KeyedTable CashMovement.id
  expenses : KeyedTable Expense.id
  giftCards : KeyedTable GiftCard.id
  giftCardTxns : List GiftCardTxn
  deriving DecidableEq

/-! ### Locks, notes and failures -/

/-- What transactions lock. -/
inductive LockKey
  | order (id : ℕ)
  | refund (id : ℕ)
  | collection (id : ℕ)
  /-- The unique key of a webhook delivery. -/
  | event (eventId : String)
  | session (id : ℕ)
  | expense (id : ℕ)
  | card (id : ℕ)
  /-- The unique code of a gift card. -/
  | cardCode (tenantId code : String)
  deriving DecidableEq

/-- What a commit is. -/
inductive Note
  | plain
  /-- A refund request writes a status after the provider's answer, whatever the refund has
  become. -/
  | completion (refundId : ℕ) (status : RefundStatus)
  /-- A collect request writes that it failed, whatever the collection has become. -/
  | collectFailed (collectionId : ℕ)
  /-- A delivery finds its event recorded. -/
  | redelivery (eventId : String)
  /-- A drawer is opened for the outlet. -/
  | drawerOpened (outletId : String)
  /-- A movement goes into a drawer that was not locked. -/
  | movement (sessionId : ℕ)
  deriving DecidableEq

inductive PaymentError
  | unauthorized (message : String)
  | badRequest (message : String)
  | notFound (message : String)
  | forbidden (message : String)
  | badGateway (message : String)
  /-- A row that has to be there is not, or a value does not fit its column. -/
  | database
  /-- A unique key is taken. -/
  | p2002
  /-- A call to the payment gateway failed, perhaps after it took effect. -/
  | provider (uncertain : Bool)
  deriving DecidableEq

/-! ### The payment gateway -/

/-- The gateway and the environment the service runs in. -/
structure Gateway where
  /-- It talks to a real provider. -/
  live : Bool
  production : Bool

structure CollectRequest where
  kind : CollectKind
  amount : Binary64
  intentId : ℕ
  orderRef : String
  description : String
  expiresAt : Time
  customerPhone : Option String
  payeeVpa : String
  payeeName : String

structure CollectResult where
  providerRef : String
  imageUrl : Option String
  shortUrl : Option String
  upiString : Option String
  expiresAt : Time

inductive PolledStatus
  | paid
  | pending
  | expired
  | cancelled
  deriving DecidableEq

structure CollectStatus where
  status : PolledStatus
  paymentId : Option String
  amountPaise : Option Binary64

structure RefundResult where
  ref : String
  status : String

inductive ProviderCall
  | refund (amount : Binary64) (orderRef : String) (reason : Option String)
      (idempotencyKey : ℕ) (paymentId : Option String)
  | findRefund (paymentId : String) (idempotencyKey : ℕ)
  | createCollect (request : CollectRequest)
  | fetchCollectStatus (kind : CollectKind) (providerRef : String)
  | cancelCollect (kind : CollectKind) (providerRef : String)

inductive ProviderReply
  | failed (uncertain : Bool)
  | refund (result : RefundResult)
  | foundRefund (result : Option RefundResult)
  | collect (result : CollectResult)
  | status (result : CollectStatus)
  | done

/-! ### Transactions and methods -/

/-- The transactions over the payment tables. -/
abbrev PaymentTx (α : Type) := Tx PaymentsDb LockKey PaymentError α

/-- The methods of the payment services. -/
abbrev PaymentMethod := Method PaymentsDb LockKey Note ProviderCall ProviderReply PaymentError

/-- Statements that are a transaction of their own. -/
def autocommit {α : Type} (t : PaymentTx α) : PaymentMethod α :=
  Method.atomically (fun _ => .plain) t

structure AuthUser where
  id : String
  tenantId : String
  outletIds : List String
  deriving DecidableEq

/-- The rupees of a stored amount. -/
abbrev N {p s : ℕ} (d : Decimal p s) : Binary64 := d.toNumber

/-- Store a number in a column, or fail. -/
def store {p s : ℕ} (x : Binary64) : Except PaymentError (Decimal p s) :=
  Checked.orThrow (Decimal.ofNumber x) .database

/-- The user works at the outlet. -/
def assertOutlet (user : AuthUser) (outletId : String) : PaymentMethod Unit :=
  Method.guardOr (outletId ∈ user.outletIds) (.forbidden "No access to outlet")

/-- The sum of a column, as a double. -/
def sumAmounts (amounts : List Amount) : Binary64 :=
  .ofRat ((amounts.map (·.scaled)).sum / 10 ^ 2)

namespace PaymentsDb

/-! ### Statements -/

/-- The open drawer of an outlet. -/
def findOpenDrawer (db : PaymentsDb) (outletId : String) : Option CashSession :=
  db.cashSessions.rows.find? fun s => s.outletId = outletId ∧ s.status = .opened

/-- The movements of a drawer. -/
def movementsOf (db : PaymentsDb) (sessionId : ℕ) : List CashMovement :=
  db.cashMovements.rows.filter fun m => m.sessionId = sessionId

/-- The refunds of a bill that hold its balance. -/
def reservedRefunds (db : PaymentsDb) (order : Order) : List Refund :=
  db.refunds.rows.filter fun r => r.tenantId = order.tenantId ∧ r.outletId = order.outletId ∧
    r.orderId = order.id ∧ r.status ≠ .failed

/-- The payments recorded for a bill. -/
def paymentsOf (db : PaymentsDb) (orderId : ℕ) : List OrderPayment :=
  db.payments.filter fun p => p.orderId = orderId

/-- The ledger of a gift card. -/
def ledgerOf (db : PaymentsDb) (cardId : ℕ) : List GiftCardTxn :=
  Ledger.entries GiftCardTxn.giftCardId db.giftCardTxns cardId

def updateRefund (db : PaymentsDb) (id : ℕ) (f : Refund → Refund) (hf : ∀ r, (f r).id = r.id) :
    PaymentsDb :=
  { db with refunds := db.refunds.modify (fun r => r.id = id) f hf }

def updateCollection (db : PaymentsDb) (id : ℕ) (f : GatewayPayment → GatewayPayment)
    (hf : ∀ r, (f r).id = r.id) : PaymentsDb :=
  { db with gatewayPayments := db.gatewayPayments.modify (fun r => r.id = id) f hf }

def insertMovement (db : PaymentsDb) (m : CashMovement) : PaymentsDb :=
  { db with cashMovements := db.cashMovements.put m }

/-- Put a card row and its ledger entry. -/
def putCard (db : PaymentsDb) (c : GiftCard) (t : GiftCardTxn) : PaymentsDb :=
  { db with
    giftCards := db.giftCards.put c
    giftCardTxns := db.giftCardTxns ++ [t] }

end PaymentsDb

end StelloKitchens.Payments
