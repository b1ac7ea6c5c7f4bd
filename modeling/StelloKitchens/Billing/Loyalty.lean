import StelloKitchens.Billing.Orders
import StelloKitchens.Billing.Settle
import StelloKitchens.Lib.Process

/-!
# Points and one-time codes

A customer's points are earned and redeemed by settlements, and adjusted by hand. To redeem points
a settlement needs a one-time code, which is sent to the customer's phone on request.

## Main definitions

* `requestOtp`, `adjustLoyalty` — a code, and an adjustment by hand.
* `LoyaltyRequest`, `loyalty` — settlements, codes and adjustments, side by side.
-/

namespace StelloKitchens.Billing

open Checked Tx

/-- How long a code is good for. -/
def otpTtlMs : ℤ := 5 * 60 * 1000

/-- A code of six digits, as it is drawn at random. -/
structure OtpCode where
  value : ℕ
  sixDigits : 100000 ≤ value ∧ value < 1000000

/-- Make a code for redeeming points; the points there are. -/
def requestOtp (user : AuthUser) (outletId phone : String) (code : OtpCode) (now : Time) :
    BillingTx ℤ := do
  assertOutlet user outletId
  let row ← query fun db : BillingDb => db.customers.find? (outletId, phone)
  let customer ← require row (.badRequest "No loyalty account for this phone")
  check (0 < customer.loyaltyPoints) (.badRequest "No points to redeem")
  let id ← draw
  update fun db => { db with
    otps := db.otps.put ⟨id, outletId, phone, toString code.value, now, now + otpTtlMs, false⟩ }
  return customer.loyaltyPoints

/-- A customer's points are changed by hand. -/
def BillingDb.adjustPoints (db : BillingDb) (key : String × String) (points : ℤ) : BillingDb :=
  { db with
    customers := db.customers.modify (fun c => c.key = key)
      (fun c => { c with loyaltyPoints := c.loyaltyPoints + points }) fun _ => rfl
    loyaltyTransactions := db.loyaltyTransactions ++
      [⟨key.1, key.2, if 0 < points then .topup else .adjust, points, none⟩] }

/-- Change the points of a customer by hand; what they were, with the change. -/
def adjustLoyalty (user : AuthUser) (outletId phone : String) (points : ℤ) : BillingTx ℤ := do
  assertOutlet user outletId
  let row ← query fun db : BillingDb => db.customers.find? (outletId, phone)
  let customer ← require row (.notFound "Customer not found")
  check (0 ≤ customer.loyaltyPoints + points)
    (.badRequest "Adjustment would make balance negative")
  acquire (.customer outletId phone)
  update fun db => db.adjustPoints (outletId, phone) points
  return customer.loyaltyPoints + points

/-! ### Side by side -/

inductive LoyaltyRequest
  | settle (user : AuthUser) (now : Time) (orderId : RowId) (input : SettleOrderInput)
  | requestOtp (user : AuthUser) (outletId phone : String) (code : OtpCode) (now : Time)
  | adjustLoyalty (user : AuthUser) (outletId phone : String) (points : ℤ)

/-- What a commit is for. -/
inductive LoyaltyNote
  /-- A settlement, with the code that it uses up. -/
  | settled (otpId : Option ℕ)
  | requested
  | adjusted (outletId phone : String) (points : ℤ)
  deriving DecidableEq

/-- The transaction of a request. -/
def LoyaltyRequest.run : LoyaltyRequest → BillingTx LoyaltyNote
  | settle user now orderId input => LoyaltyNote.settled <$> Billing.settle user now orderId input
  | requestOtp user outletId phone code now =>
    (fun _ => .requested) <$> Billing.requestOtp user outletId phone code now
  | adjustLoyalty user outletId phone points =>
    (fun _ => .adjusted outletId phone points) <$> Billing.adjustLoyalty user outletId phone points

/-- Before the first points: customers have none, and no code has been made. -/
structure NoPoints (db : BillingDb) : Prop where
  customers : ∀ c ∈ db.customers, c.loyaltyPoints = 0
  loyaltyTransactions : db.loyaltyTransactions = []
  otps : db.otps = .empty
  otpUses : db.otpUses = []
  rates : ∀ o ∈ db.outlets, 0 ≤ o.loyaltyEarnRate

abbrev LoyaltyWorld :=
  World BillingDb LockKey LoyaltyNote Empty Empty (Except BillingError LoyaltyNote)

/-- Settlements, codes and adjustments side by side. -/
def loyalty : Machine LoyaltyWorld (WorldAction LoyaltyRequest Empty) :=
  serve (fun r => .transaction (fun note => note) r.run) fun db _ => NoPoints db

/-! ### Two bills and a customer -/

/-- Two open bills of 100, and a customer who earns nothing and whose points are worth a rupee. -/
def twoBills : BillingDb where
  outlets := .put .empty ⟨"o", 1, 1, 0, 1, none⟩
  tables := .empty
  orders := .put (.put .empty (hundred ⟨0, 0⟩)) (hundred ⟨0, 1⟩)
  items := .put (.put .empty (dosaLine ⟨0, 2⟩ ⟨0, 0⟩)) (dosaLine ⟨0, 3⟩ ⟨0, 1⟩)
  kots := .empty
  payments := []
  coupons := .empty
  customers := .put .empty ⟨"o", "98", 0⟩
  otps := .empty
  giftCards := .empty
  unsplits := []
  comboChoices := []
  loyaltyTransactions := []
  otpUses := []
  edgeInvoices := []
where
  hundred (id : RowId) : Order := { newOrder id "o" .takeaway none none none with
    figures := ⟨.hundred, 0, 0, 0, false, 0, 0, .hundred⟩ }
  dosaLine (id orderId : RowId) : OrderItem := ⟨id, orderId, "dosa", .one,
    .hundred, .hundred, 0, none, none, false, none, none,
    ⟨"Dosa", none, none, none, none, .pending, none, none, []⟩⟩

theorem noPoints_twoBills : NoPoints twoBills := by
  refine ⟨fun c hc => ?_, rfl, rfl, rfl, fun o ho => ?_⟩
  · obtain rfl | ⟨hc, -⟩ := KeyedTable.mem_put.mp hc
    · rfl
    · exact absurd hc (KeyedTable.notMem_empty c)
  · obtain rfl | ⟨ho, -⟩ := KeyedTable.mem_put.mp ho
    · exact le_refl _
    · exact absurd ho (KeyedTable.notMem_empty o)

def cashier : AuthUser := ⟨"u", ["o"]⟩

/-- A bill is settled with 50 points and 50 in cash. -/
def redeemFifty (orderId : RowId) : LoyaltyRequest :=
  .settle cashier 1000 orderId
    { discountAmount := none
      discount_nonneg := noDiscount_nonneg
      couponCode := none
      redeemPoints := 50
      customerPhone := some "98"
      payments := [⟨.tender .cash, 50, by decide +kernel, ⟨5000, by decide +kernel⟩, none, cash_hasCode⟩]
      payments_ne := by simp
      redeemOtp := some "123456"
      customerName := none }

/-- The customer is given 100 points and asks for a code. -/
def codeRun : List (WorldAction LoyaltyRequest Empty) :=
  .start 0 (.adjustLoyalty cashier "o" "98" 100) :: WorldAction.steps 0 5 ++
    .start 0 (.requestOtp cashier "o" "98" ⟨123456, by decide⟩ 0) :: WorldAction.steps 0 5

end StelloKitchens.Billing
