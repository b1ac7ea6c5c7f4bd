import StelloKitchens.Billing.Settle
import StelloKitchens.Payments.Drawer

/-!
# Gift cards

A card is sold over the counter or issued as store credit for a refund, pays for bills until its
balance is used up, and can be voided. Each of these writes the new balance and a ledger entry
with it, in one transaction that holds the card's row.

## Main definitions

* `redeemGiftCardsTx` — take payments off cards, within a settlement.
* `issueStoreCreditTx` — issue store credit, within a refund.
* `issueGiftCard`, `voidGiftCard` — sell a card, and void one.
-/

namespace StelloKitchens.Payments

open Checked Tx Method
open Billing (normaliseGiftCode)

/-- The Indian calendar day of an instant. -/
def istDay (now : Time) : ℤ := (now + 19800000) / 86400000

/-- The last day of a card is over. -/
def isExpired (now : Time) (expiresOn : Option ℤ) : Bool := expiresOn.any (· < istDay now)

/-- The display form of a code. -/
def formatGiftCode (code : String) : String :=
  let cs := code.toList
  if cs.length = 14 then
    String.ofList (cs.take 2 ++ '-' :: (cs.drop 2).take 4 ++ '-' :: (cs.drop 6).take 4 ++
      '-' :: cs.drop 10)
  else code

/-- A payment with a gift card. -/
structure CardPayment where
  code : String
  amount : Binary64
  positive : 0 < amount

/-- Lock the card with a code and take an amount in paise off it. -/
def redeemGiftCard (user : AuthUser) (now : Time) (outletId : String) (orderId : ℕ) (code : String)
    (amount : Binary64) : PaymentTx Unit := do
  let found ← query fun db : PaymentsDb =>
    db.giftCards.rows.find? fun c => c.tenantId = user.tenantId ∧ c.code = code
  let seen ← require found (.badRequest ("Gift card " ++ formatGiftCode code ++ " not found"))
  acquire (.card seen.id)
  let row ← query fun db : PaymentsDb => db.giftCards.find? seen.id
  let card ← require row (.badRequest ("Gift card " ++ formatGiftCode code ++ " not found"))
  check (card.status = .active) (.badRequest ("Gift card " ++ formatGiftCode code ++ " is void"))
  check (isExpired now card.expiresOn = false)
    (.badRequest ("Gift card " ++ formatGiftCode code ++ " has expired"))
  let balance := toPaise (N card.balance)
  check (amount ≤ balance)
    (.badRequest ("Gift card " ++ formatGiftCode code ++ " balance is ₹" ++ toFixed2 (fromPaise balance)))
  let after ← store (fromPaise (balance - amount))
  let taken ← store (-fromPaise amount)
  update fun db => db.putCard { card with balance := after }
    ⟨card.id, outletId, .redeem, taken, after, some orderId, none, some user.id, none⟩

/-- Take what each card pays off it, card by card in the order of the codes. -/
def redeemGiftCardsTx (user : AuthUser) (now : Time) (outletId : String) (orderId : ℕ)
    (payments : List CardPayment) : PaymentTx Unit :=
  let paid := payments.map fun p => (normaliseGiftCode p.code, toPaise p.amount)
  let codes := (paid.map (·.1)).dedup.insertionSort (· ≤ ·)
  codes.foldlM (fun _ code => redeemGiftCard user now outletId orderId code
    ((paid.filter fun p => p.1 = code).foldl (fun s p => s + p.2) 0)) ()

/-- Insert a card with its first ledger entry; its code must not be taken. -/
def createCard (card : GiftCard) (type : CardTxnType) (orderId : Option ℕ)
    (paymentMode : Option IssueMode) (userId note : Option String) : PaymentTx Unit := do
  acquire (.cardCode card.tenantId card.code)
  let taken ← query fun db : PaymentsDb =>
    db.giftCards.rows.find? fun c => c.tenantId = card.tenantId ∧ c.code = card.code
  check (taken = none) .p2002
  update fun db => db.putCard card ⟨card.id, card.issuedOutletId, type, card.balance, card.balance,
    orderId, paymentMode, userId, note⟩

/-- Issue store credit for a refund, under a code drawn at random. -/
def issueStoreCreditTx (user : AuthUser) (outletId code : String) (amount : Binary64)
    (orderId : ℕ) (note : String) (customerPhone customerName : Option String) :
    PaymentTx Unit := do
  let id ← draw
  let value ← store amount
  createCard ⟨id, user.tenantId, outletId, code, .storeCredit, value, value, none, .active,
    customerName, customerPhone, some note⟩ .storeCredit (some orderId) none (some user.id)
    (some note)

/-- What the schema of a sale accepts. -/
structure IssueGiftCardInput where
  amount : Binary64
  least : 1 ≤ amount
  most : amount ≤ 100000
  cents : IsMultipleOfCent amount
  paymentMode : IssueMode
  expiresOn : Option ℤ
  customerName : Option String
  customerPhone : Option String
  note : Option String

/-- Insert a card that is sold, and record what was paid for it in cash. -/
def sellCard (user : AuthUser) (outletId code : String) (input : IssueGiftCardInput) :
    PaymentTx (Option ℕ) := do
  let id ← draw
  let value ← store input.amount
  createCard ⟨id, user.tenantId, outletId, code, .giftCard, value, value, input.expiresOn,
    .active, input.customerName, input.customerPhone, input.note⟩ .issue none
    (some input.paymentMode) (some user.id) input.note
  if input.paymentMode = .cash then
    recordCash outletId .payIn input.amount (some "GIFT_CARD_SALE")
      (some ("Gift card " ++ formatGiftCode code)) none
  else return none

/-- Sell a card, under a code drawn at random. -/
def issueGiftCard (user : AuthUser) (now : Time) (outletId code : String)
    (input : IssueGiftCardInput) : PaymentMethod Unit := do
  assertOutlet user outletId
  guardOr (isExpired now input.expiresOn = false) (.badRequest "Expiry is in the past")
  let _ ← atomically movementNote (sellCard user outletId code input)

/-- Void the card with an id, under its lock. -/
def voidCard (user : AuthUser) (id : ℕ) (reason : String) : PaymentTx Unit := do
  acquire (.card id)
  let row ← query fun db : PaymentsDb => db.giftCards.find? id
  let card ← require (row.filter fun c => c.tenantId = user.tenantId)
    (.notFound "Gift card not found")
  check (card.status ≠ .void) (.badRequest "Gift card is already void")
  let forfeited ← store (-N card.balance)
  update fun db => db.putCard { card with status := .void, balance := 0 }
    ⟨card.id, card.issuedOutletId, .void, forfeited, 0, none, none, some user.id, some reason⟩

def voidGiftCard (user : AuthUser) (id : ℕ) (reason : String) : PaymentMethod Unit :=
  atomically (fun _ => .plain) (voidCard user id reason)

end StelloKitchens.Payments
