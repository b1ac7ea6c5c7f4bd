import StelloKitchens.Billing.BillSeries
import StelloKitchens.Invoices.Reconciles
import StelloKitchens.Invoices.StoredFigures

/-!
# The vouchers for Tally

The export writes a sales voucher for every settled order: what the party owes, against the sales,
the service charge, the output tax and the round-off. Each entry is written as a text with two
decimals. What can be zero is left out, and what is credited is written negated.

## Main definitions

* `tallyExport` — the export.
* `readPaise` — an amount read from its text.
* `Voucher.balance` — the sum of the entries of a voucher.

## Main results

* `readPaise_toFixed2` — an amount near whole paise is read back as these.
* `tally_balances` — the voucher of every order balances.
-/

namespace StelloKitchens.Invoices

open Billing

/-! ### The export -/

structure LedgerEntry where
  ledgerName : String
  isDeemedPositive : Bool
  amount : String
  deriving DecidableEq

structure Voucher where
  date : String
  voucherNumber : String
  partyLedgerName : String
  entries : List LedgerEntry
  deriving DecidableEq

/-- Escape a text. -/
def esc (s : String) : String :=
  String.ofList (s.toList.flatMap fun
    | '&' => "&amp;".toList
    | '<' => "&lt;".toList
    | '>' => "&gt;".toList
    | c => [c])

def modeText : SettleMode → String
  | .tender .cash => "CASH"
  | .tender .card => "CARD"
  | .tender .upi => "UPI"
  | .tender .wallet => "WALLET"
  | .tender .other => "OTHER"
  | .giftCard => "GIFT_CARD"

/-- The mode of the first of the largest payments. -/
def dominantMode (payments : List OrderPayment) : String :=
  ((payments.insertionSort fun a b => b.amount.toNumber ≤ a.amount.toNumber).head?).elim "CASH"
    fun p => modeText p.mode

/-- The ledger that owes the total. -/
def partyLedger (payments : List OrderPayment) : String :=
  let dominant := dominantMode payments
  if dominant = "CASH" then "Cash" else dominant ++ " Receivable"

/-- An entry that is credited. -/
def credit (ledger : String) (n : Binary64) : LedgerEntry := ⟨ledger, ¬0 ≤ n, toFixed2 (-n)⟩

/-- The entries of the output tax: one for the other state, or the two halves. -/
def taxEntries (gst : TaxSplit) : List LedgerEntry :=
  if gst.igst ≠ 0 then [credit "Output IGST" gst.igst]
  else [credit "Output CGST" gst.cgst, credit "Output SGST" gst.sgst]

/-- The entries of the voucher of an order. -/
def ledgerEntries (party : String) (f : OrderFigures) (gst : TaxSplit) : List LedgerEntry :=
  let taxable := f.subtotal.toNumber - f.discountAmount.toNumber
  let sc := f.serviceChargeAmount.toNumber
  let roundOff := f.roundOff.toNumber
  [⟨party, true, toFixed2 f.total.toNumber⟩, ⟨"Sales", false, "-" ++ toFixed2 taxable⟩] ++
    (if sc ≠ 0 then [credit "Service Charge" sc] else []) ++ taxEntries gst ++
    if roundOff ≠ 0 then [credit "Round Off" roundOff] else []

/-- The voucher of an order, which was opened on a day. -/
def voucherOf (sellerState buyerGstin : Option String) (date : String) (o : Billing.Order)
    (payments : List OrderPayment) : Voucher :=
  let party := partyLedger payments
  { date
    voucherNumber := esc (o.billNumber.getD "")
    partyLedgerName := esc party
    entries := ledgerEntries (esc party) o.figures
      (splitTax o.figures.taxAmount.toNumber sellerState buyerGstin) }

/-- What the export reads besides the orders: the outlet, the buyers of the invoices, and the days
of the orders in the range. -/
structure TallyReads where
  outletId : String
  outlet : InvoiceOutlet
  buyerOf : RowId → Option String
  dateOf : RowId → Option String

/-- The vouchers of the settled orders of an outlet in a range of days. -/
def vouchers (r : TallyReads) (db : BillingDb) : List Voucher :=
  let sellerState := r.outlet.placeOfSupply.or (stateOf r.outlet.gstin)
  (db.orders.rows.filter fun o => o.outletId = r.outletId ∧ o.status = .settled).filterMap fun o =>
    (r.dateOf o.id).map fun date => voucherOf sellerState (r.buyerOf o.id) date o
      (db.payments.filter fun p => p.orderId = o.id)

def LedgerEntry.xml (e : LedgerEntry) : String :=
  "\n     <ALLLEDGERENTRIES.LIST><LEDGERNAME>" ++ e.ledgerName ++
    "</LEDGERNAME><ISDEEMEDPOSITIVE>" ++
    (if e.isDeemedPositive then "Yes" else "No") ++ "</ISDEEMEDPOSITIVE><AMOUNT>" ++ e.amount ++
    "</AMOUNT></ALLLEDGERENTRIES.LIST>"

def Voucher.xml (v : Voucher) : String :=
  "   <TALLYMESSAGE>\n    <VOUCHER VCHTYPE=\"Sales\" ACTION=\"Create\">\n     <DATE>" ++ v.date ++
    "</DATE>\n     <VOUCHERTYPENAME>Sales</VOUCHERTYPENAME>\n     <VOUCHERNUMBER>" ++
    v.voucherNumber ++ "</VOUCHERNUMBER>\n     <PARTYLEDGERNAME>" ++ v.partyLedgerName ++
    "</PARTYLEDGERNAME>" ++ String.join (v.entries.map (·.xml)) ++
    "\n    </VOUCHER>\n   </TALLYMESSAGE>"

/-- The export as a text. -/
def tallyExport (r : TallyReads) (db : BillingDb) : String :=
  "<?xml version=\"1.0\" encoding=\"UTF-8\"?>\n<ENVELOPE>\n" ++
    " <HEADER><TALLYREQUEST>Import Data</TALLYREQUEST></HEADER>\n <BODY>\n  <IMPORTDATA>\n" ++
    "   <REQUESTDESC><REPORTNAME>Vouchers</REPORTNAME></REQUESTDESC>\n   <REQUESTDATA>\n" ++
    String.intercalate "\n" ((vouchers r db).map (·.xml)) ++
    "\n   </REQUESTDATA>\n  </IMPORTDATA>\n </BODY>\n</ENVELOPE>"

/-! ### Amounts read from their texts -/

/-- An amount without a sign: digits, a point and two digits. -/
def readUnsigned (cs : List Char) : Option ℕ :=
  match cs.takeWhile Char.isDigit, cs.dropWhile Char.isDigit with
  | whole@(_ :: _), ['.', a, b] =>
    if a.isDigit ∧ b.isDigit then
      some (Nat.ofDigitChars 10 whole 0 * 100 + Nat.ofDigitChars 10 [a, b] 0)
    else none
  | _, _ => none

/-- An amount in paise, with a sign if it is negative. -/
def readPaise (s : String) : Option ℤ :=
  match s.toList with
  | '-' :: cs => (readUnsigned cs).map fun n : ℕ => -(n : ℤ)
  | cs => (readUnsigned cs).map fun n : ℕ => (n : ℤ)

/-- The sum of the entries, in paise. -/
def Voucher.balance (v : Voucher) : Option ℤ :=
  (v.entries.mapM fun e => readPaise e.amount).map List.sum

example : readPaise "-12.05" = some (-1205) ∧ readPaise "--12.05" = none := by decide

theorem readUnsigned_append {whole : List Char} {a b : Char} (hne : whole ≠ [])
    (hwhole : ∀ c ∈ whole, c.isDigit) (ha : a.isDigit) (hb : b.isDigit) :
    readUnsigned (whole ++ ['.', a, b]) =
      some (Nat.ofDigitChars 10 whole 0 * 100 + Nat.ofDigitChars 10 [a, b] 0) := by
  have htake : (whole ++ ['.', a, b]).takeWhile Char.isDigit = whole := by
    rw [List.takeWhile_append_of_pos hwhole]
    simp
  have hdrop : (whole ++ ['.', a, b]).dropWhile Char.isDigit = ['.', a, b] := by
    rw [List.dropWhile_append_of_pos hwhole]
    rfl
  obtain ⟨c, cs, rfl⟩ := List.exists_cons_of_ne_nil hne
  rw [readUnsigned, htake, hdrop]
  exact if_pos ⟨ha, hb⟩

theorem toList_toString (n : ℕ) : (toString n).toList = Nat.toDigits 10 n := Nat.toList_repr

/-- An amount without a sign is read as it was written. -/
theorem readUnsigned_digits (n : ℕ) : readUnsigned ((toString (n / 100)).toList ++
    '.' :: (padStart 2 (toString (n % 100))).toList) = some n := by
  have hlength : (padStart 2 (toString (n % 100))).toList.length = 2 := by
    rw [length_padStart, max_eq_left]
    exact (Nat.length_toDigits_le_iff (by decide) (by decide)).mpr (Nat.mod_lt n (by decide))
  have hdigit : ∀ c ∈ (padStart 2 (toString (n % 100))).toList, c.isDigit :=
    fun c => isDigit_padStart
  have hpaise := ofDigitChars_padStart 2 (n % 100)
  obtain ⟨a, b, hab⟩ := List.length_eq_two.mp hlength
  rw [hab] at hdigit hpaise ⊢
  rw [readUnsigned_append (by rw [toList_toString]; exact Nat.toDigits_ne_nil)
    (fun c => isDigit_toString) (hdigit a (by simp)) (hdigit b (by simp)), hpaise, toList_toString,
    Nat.ofDigitChars_ten_toDigits, Nat.div_add_mod']

theorem readPaise_neg {s : String} {cs : List Char} (h : s.toList = '-' :: cs) :
    readPaise s = (readUnsigned cs).map fun n : ℕ => -(n : ℤ) := by
  rw [readPaise, h]
  rfl

theorem readPaise_digit {s : String} (h : ∀ c ∈ s.toList.head?, c.isDigit) :
    readPaise s = (readUnsigned s.toList).map fun n : ℕ => (n : ℤ) := by
  unfold readPaise
  split
  · rename_i heq
    rw [heq] at h
    exact absurd (h '-' rfl) (by decide)
  · rfl

theorem head_toString {n : ℕ} {cs : List Char} :
    ∀ c ∈ ((toString n).toList ++ cs).head?, c.isDigit := by
  obtain ⟨d, ds, hds⟩ := List.exists_cons_of_ne_nil
    (show (toString n).toList ≠ [] by rw [toList_toString]; exact Nat.toDigits_ne_nil)
  intro c hc
  rw [hds] at hc
  cases hc
  exact isDigit_toString (hds ▸ List.mem_cons_self)

/-- The text of an amount that is near whole paise, with its sign and without. -/
theorem toList_toFixed2 {x : Binary64} {k : ℤ} (h : |x.val - k / 100| < 1 / 200) :
    (toFixed2 x).toList = (if x.val < 0 then ['-'] else []) ++
      ((toString (k.natAbs / 100)).toList ++
        '.' :: (padStart 2 (toString (k.natAbs % 100))).toList) := by
  have hn : ⌊|x.val| * 100 + 1 / 2⌋ = (k.natAbs : ℤ) := by
    have hdist := (abs_abs_sub_abs_le x.val (k / 100)).trans_lt h
    rw [abs_div, show |(100 : ℚ)| = 100 by norm_num, abs_lt] at hdist
    rw [Int.floor_eq_iff, Int.natCast_natAbs]
    push_cast
    constructor <;> linarith
  rw [toFixed2, hn, Int.toNat_natCast]
  split <;> simp

/-- An amount that is near whole paise is written as these. -/
theorem readPaise_toFixed2 {x : Binary64} {k : ℤ} (h : |x.val - k / 100| < 1 / 200) :
    readPaise (toFixed2 x) = some k := by
  have hsign := abs_lt.mp h
  have htext := toList_toFixed2 h
  by_cases hneg : x.val < 0
  · rw [if_pos hneg, List.singleton_append] at htext
    rw [readPaise_neg htext, readUnsigned_digits, Option.map_some]
    have hk : (k : ℚ) < 1 := by linarith
    have : k < 1 := by exact_mod_cast hk
    congr 1
    omega
  · rw [if_neg hneg, List.nil_append] at htext
    rw [readPaise_digit (htext ▸ head_toString), htext, readUnsigned_digits, Option.map_some]
    have hk : (-1 : ℚ) < k := by linarith
    have : -1 < k := by exact_mod_cast hk
    congr 1
    omega

/-- An amount that is not negative is written, with a sign in front, as its negation. -/
theorem readPaise_minus_toFixed2 {x : Binary64} {k : ℤ} (h0 : 0 ≤ x.val)
    (h : |x.val - k / 100| < 1 / 200) : readPaise ("-" ++ toFixed2 x) = some (-k) := by
  have htext := toList_toFixed2 h
  rw [if_neg (not_lt.mpr h0), List.nil_append] at htext
  rw [@readPaise_neg _ (toFixed2 x).toList (by simp), htext, readUnsigned_digits,
    Option.map_some]
  have hk : (-1 : ℚ) < k := by linarith [(abs_lt.mp h).2]
  have : -1 < k := by exact_mod_cast hk
  congr 1
  omega

/-! ### The balance -/

/-- What is few roundings off whole paise is near them. -/
theorem near_of_approx {m : ℕ} {w : ℚ} {x : Binary64} {k : ℤ}
    (h : Binary64.Approx m (w / 100) x (k / 100)) (hm : m ≤ 8) (hw : w < 10 ^ 12) :
    |x.val - k / 100| < 1 / 200 := by
  have hw0 := weight_nonneg_of_approx h
  have hgrowth := growth_mul_lt hm hw0 hw
  have hmono := mul_le_mul_of_nonneg_right (Binary64.growth_mono (Nat.le_succ m)) hw0
  have herror := h.error
  linarith

theorem near_ofRat {x : Binary64} {k : ℤ} (hx : x = .ofRat (k / 10 ^ 2)) (hk : |k| < 10 ^ 12) :
    |x.val - k / 100| < 1 / 200 := by
  rw [hx]
  exact near_of_approx (approx_ofRat_paise k) (by omega) (by exact_mod_cast hk)

/-- A column is near its paise. -/
theorem near_toNumber (a : Amount) : |a.toNumber.val - a.scaled / 100| < 1 / 200 :=
  near_ofRat rfl (a.bound.trans (by norm_num))

/-- What is taxed is near its paise, and not negative. -/
theorem near_taxable {f : OrderFigures} (h : Footed f) :
    0 ≤ (f.subtotal.toNumber - f.discountAmount.toNumber).val ∧
      |(f.subtotal.toNumber - f.discountAmount.toNumber).val -
        ((f.subtotal.scaled - f.discountAmount.scaled : ℤ) : ℚ) / 100| < 1 / 200 := by
  have hs := f.subtotal.bound
  have hd := f.discountAmount.bound
  have hle : f.discountAmount.toNumber ≤ f.subtotal.toNumber := by
    refine Binary64.round_mono (div_le_div_of_nonneg_right ?_ (by norm_num))
    exact_mod_cast h.discount_le
  have happrox := (approx_ofRat_paise f.subtotal.scaled).sub
    (approx_ofRat_paise f.discountAmount.scaled)
  rw [← sub_div, ← add_div, ← Int.cast_sub, ← Int.cast_add] at happrox
  refine ⟨Binary64.nonneg_iff.mp (Binary64.zero_le_sub hle), near_of_approx happrox (by omega) ?_⟩
  have : |f.subtotal.scaled| + |f.discountAmount.scaled| < 10 ^ 12 := by omega
  exact_mod_cast this

/-- A credit is read as the negation of what is credited. -/
theorem readPaise_credit {ledger : String} {n : Binary64} {k : ℤ}
    (h : |n.val - k / 100| < 1 / 200) : readPaise (credit ledger n).amount = some (-k) := by
  refine readPaise_toFixed2 ?_
  rw [Binary64.val_neg]
  push_cast
  rw [neg_div, neg_sub_neg, abs_sub_comm]
  exact h

/-- The entries come to an amount. -/
def Comes (entries : List LedgerEntry) (k : ℤ) : Prop :=
  (entries.mapM fun e => readPaise e.amount).map List.sum = some k

theorem comes_nil : Comes [] 0 := rfl

theorem comes_singleton {e : LedgerEntry} {k : ℤ} (h : readPaise e.amount = some k) :
    Comes [e] k := by
  simp [Comes, h]

theorem Comes.append {es es' : List LedgerEntry} {k k' : ℤ} (h : Comes es k) (h' : Comes es' k') :
    Comes (es ++ es') (k + k') := by
  obtain ⟨xs, hxs, rfl⟩ := Option.map_eq_some_iff.mp h
  obtain ⟨ys, hys, rfl⟩ := Option.map_eq_some_iff.mp h'
  simp [Comes, List.mapM_append, hxs, hys]

/-- A credit that is left out when it is zero. -/
theorem comes_credit (ledger : String) (a : Amount) :
    Comes (if a.toNumber ≠ 0 then [credit ledger a.toNumber] else []) (-a.scaled) := by
  split
  · exact comes_singleton (readPaise_credit (near_toNumber a))
  · rename_i hzero
    have hval := val_toPaise_toNumber a
    rw [not_not.mp hzero, toPaise_zero, Binary64.val_zero] at hval
    have : a.scaled = 0 := by exact_mod_cast hval.symm
    rw [this]
    exact comes_nil

/-- The entries of the output tax come to all of it: the tax is either of the other state, or two
halves. -/
theorem comes_taxEntries {gst : TaxSplit} {c s i : ℤ} (h : Parts gst.cgst gst.sgst gst.igst c s i)
    (hc : |c| < 10 ^ 12) (hs : |s| < 10 ^ 12) (hi : |i| < 10 ^ 12)
    (hone : i = 0 ∨ (c = 0 ∧ s = 0)) : Comes (taxEntries gst) (-(c + s + i)) := by
  unfold taxEntries
  by_cases higst : gst.igst = 0
  · have hi0 : i = 0 := by
      have hval := val_toPaise_ofRat (m := i) (by omega)
      rw [← h.igst_eq, higst, toPaise_zero, Binary64.val_zero] at hval
      exact_mod_cast hval.symm
    rw [if_neg (not_not.mpr higst), show -(c + s + i) = -c + -s by omega]
    exact (comes_singleton (readPaise_credit (near_ofRat h.cgst_eq hc))).append
      (comes_singleton (readPaise_credit (near_ofRat h.sgst_eq hs)))
  · have hi0 : i ≠ 0 := by
      rintro rfl
      exact higst (h.igst_eq.trans zero_eq_ofRat.symm)
    obtain ⟨rfl, rfl⟩ := hone.resolve_left hi0
    rw [if_pos higst, zero_add, zero_add]
    exact comes_singleton (readPaise_credit (near_ofRat h.igst_eq hi))

/-- The entries of a voucher of figures that add up come to nothing. -/
theorem comes_ledgerEntries {f : OrderFigures} (h : Footed f) (party : String)
    (sellerState buyerGstin : Option String) :
    Comes (ledgerEntries party f (splitTax f.taxAmount.toNumber sellerState buyerGstin)) 0 := by
  have hbound := f.taxAmount.bound
  have hparts := splitTax_parts (x := f.taxAmount.toNumber) (A := f.taxAmount.scaled) rfl (by omega)
    sellerState buyerGstin
  rw [abs_lt] at hbound
  have htax : Comes (taxEntries (splitTax f.taxAmount.toNumber sellerState buyerGstin))
      (-f.taxAmount.scaled) := by
    have hcomes := comes_taxEntries hparts (by split <;> rw [abs_lt] <;> omega)
      (by split <;> rw [abs_lt] <;> omega) (by split <;> rw [abs_lt] <;> omega)
      (by split <;> simp)
    refine (congrArg (Comes _) ?_).mp hcomes
    split <;> omega
  obtain ⟨hnonneg, hnear⟩ := near_taxable h
  have hparty := comes_singleton (e := ⟨party, true, toFixed2 f.total.toNumber⟩)
    (readPaise_toFixed2 (near_toNumber f.total))
  have hsales := comes_singleton (e := ⟨"Sales", false, "-" ++
    toFixed2 (f.subtotal.toNumber - f.discountAmount.toNumber)⟩)
    (readPaise_minus_toFixed2 hnonneg hnear)
  have hall := ((((hparty.append hsales).append (comes_credit "Service Charge"
    f.serviceChargeAmount)).append htax).append (comes_credit "Round Off" f.roundOff))
  have hsum := h.sum
  refine (congrArg (Comes _) ?_).mp hall
  omega

/-- The voucher of every settled order balances to the paisa, however the order was settled, and
wherever it was supplied. -/
theorem tally_balances (w : World BillingDb LockKey Unit Empty Empty (Except BillingError Unit))
    (hreach : sales.Reachable w) (r : TallyReads) : ∀ v ∈ vouchers r w.db, v.balance = some 0 := by
  intro v hv
  obtain ⟨o, ho, hvoucher⟩ := List.mem_filterMap.mp hv
  obtain ⟨date, -, rfl⟩ := Option.map_eq_some_iff.mp hvoucher
  exact comes_ledgerEntries (footed_of_sales hreach (List.mem_filter.mp ho).1) _ _ _

/-! ### A device's sale -/

/-- An outlet that has not sold anything. -/
def freshOutlet : BillingDb := { openBill with orders := .empty, items := .empty }

theorem noBills_freshOutlet : NoBills freshOutlet where
  orders := rfl
  items := rfl
  kots := rfl
  unsplits := rfl
  comboChoices := rfl
  codes c hc := absurd hc (KeyedTable.notMem_empty c)
  unused c hc := absurd hc (KeyedTable.notMem_empty c)

/-- A device brings in a sale of 50. -/
def legacyRun : List (WorldAction SalesRequest Empty) :=
  .start 0 (.ingestEdgeBill ⟨"device", "t", "o", "terminal", "E01"⟩
    ⟨legacyOrder, legacyOrder_schema, none, .ok ()⟩) :: WorldAction.steps 0 30

/-- An outlet in Karnataka that exports the sales of a day. -/
def tallyReads : TallyReads := ⟨"o", bengaluru, fun _ => none, fun _ => some "20260401"⟩

/-- Its voucher has what is owed, the sales, and two halves of no tax. -/
theorem tally_balances_legacyRun :
    (vouchers tallyReads (sales.run (.atRest freshOutlet 0) legacyRun).db).map
        (fun v => (v.partyLedgerName, v.entries.map (·.amount))) =
      [("Cash", ["50.00", "-50.00", "0.00", "0.00"])] ∧
    ∀ v ∈ vouchers tallyReads (sales.run (.atRest freshOutlet 0) legacyRun).db,
      v.balance = some 0 :=
  ⟨by decide +kernel, tally_balances _
    (Machine.reachable_run legacyRun (.init ⟨noBills_freshOutlet, rfl, rfl⟩)) tallyReads⟩

end StelloKitchens.Invoices
