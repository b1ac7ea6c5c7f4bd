import Mathlib.Data.List.Sort
import StelloKitchens.Shared.Money

/-!
# Billing controls

The shared billing module: the full bill of an order with service charge and round-off, and the
two ways of dividing paise, a total in proportion to weights and a list of line totals into
equal shares.

## Main definitions

* `computeBill` — the figures of a bill.
* `allocatePaise` — a total divided in proportion to weights, by largest remainders.
* `splitLinesEqually` — every line's paise divided evenly, the leftover paise in rotation.

## Main results

* `computeBill_plain` — without service charge and round-off, the plain order totals.
-/

namespace StelloKitchens

/-! ### The bill -/

/-- The service charge an order attracts. -/
structure ServiceCharge where
  percent : Binary64
  taxable : Bool
  deriving DecidableEq

structure BillOptions where
  /-- Discount before tax, in rupees. -/
  discountRupees : Binary64
  serviceCharge : Option ServiceCharge
  /-- Round the payable total to whole rupees. -/
  roundOff : Bool
  deriving DecidableEq

/-- The figures of a bill, in rupees. -/
structure BillTotals extends OrderTotals where
  serviceChargeAmount : Binary64
  /-- What the rounding to whole rupees adds. -/
  roundOff : Binary64
  totalBeforeRoundOff : Binary64
  deriving DecidableEq, Inhabited

/-- The service charge on the discounted value, in paise. -/
def serviceChargePaise (taxable : Binary64) : Option ServiceCharge → Binary64
  | none => 0
  | some sc => if 0 < sc.percent then (taxable * sc.percent / 100).nearestInt else 0

/-- What is taxed: the discounted value, and the service charge where it is taxable. -/
def taxBasePaise (taxable scPaise : Binary64) (sc : Option ServiceCharge) : Binary64 :=
  taxable + if sc.any (·.taxable) then scPaise else 0

/-- The bill of an order: the service charge is a percentage of the discounted value, the tax
is taken at the blended rate of the lines, and the total may be rounded to whole rupees. -/
def computeBill (lines : List MoneyLine) (opts : BillOptions) : BillTotals :=
  let subtotal := subtotalPaise lines
  let discount := discountPaise subtotal opts.discountRupees
  let taxable := subtotal - discount
  let sc := serviceChargePaise taxable opts.serviceCharge
  let tax := taxPaise (rawTaxPaise lines) (taxBasePaise taxable sc opts.serviceCharge) subtotal
  let preRound := taxable + sc + tax
  let total := if opts.roundOff then (preRound / 100).nearestInt * 100 else preRound
  { subtotal := fromPaise subtotal
    discountAmount := fromPaise discount
    serviceChargeAmount := fromPaise sc
    taxAmount := fromPaise tax
    roundOff := fromPaise (total - preRound)
    totalBeforeRoundOff := fromPaise preRound
    total := fromPaise total }

theorem add_zero_binary64 (x : Binary64) : x + 0 = x := by
  apply Binary64.ext
  rw [Binary64.val_add, Binary64.val_zero, add_zero, x.representable]

/-- Without service charge and round-off the bill is the plain one. -/
theorem computeBill_plain (lines : List MoneyLine) (discount : Binary64) :
    (computeBill lines ⟨discount, none, false⟩).toOrderTotals = computeOrderTotals lines discount := by
  simp [computeBill, computeOrderTotals, serviceChargePaise, taxBasePaise, add_zero_binary64]

/-! ### A total in proportion to weights -/

/-- Of two positions with what their floors cut off, the one that gets a paisa first: the larger
cut, and of equal ones the earlier position. -/
def GetsFirst (a b : ℕ × Binary64) : Prop := b.2 < a.2 ∨ (a.2 = b.2 ∧ a.1 ≤ b.1)

instance : DecidableRel GetsFirst := fun a b =>
  inferInstanceAs (Decidable (b.2 < a.2 ∨ (a.2 = b.2 ∧ a.1 ≤ b.1)))

/-- Give a paisa each to the positions in turn, from the `k`-th of them on, until the rest is
given. -/
def giveRest (order : List ℕ) : ℕ → ℕ → List Binary64 → List Binary64
  | 0, _, parts => parts
  | rest + 1, k, parts =>
    giveRest order rest ((k + 1) % order.length) (parts.modify (order.getD k 0) (· + 1))

/-- The weights that count: the positive ones, or all alike when there is none. -/
def effectiveWeights (weights : List Binary64) : List Binary64 × Binary64 :=
  let sum := weights.foldl (fun s w => s + max 0 w) 0
  if 0 < sum then (weights.map (max 0), sum)
  else (weights.map fun _ => 1, .ofRat weights.length)

/-- Round the exact parts of a total: their floors, and what these leave of the total one paisa
each to the parts they cut most. -/
def roundParts (totalPaise : Binary64) (exact : List Binary64) : List Binary64 :=
  let parts := exact.map (·.floor)
  let rest := totalPaise - parts.foldl (· + ·) 0
  let order := (exact.mapIdx fun i x => (i, x - x.floor)).insertionSort GetsFirst
  -- the loop runs while the rest is positive, and takes one off it each time
  giveRest (order.map (·.1)) ⌈rest.val⌉.toNat 0 parts

/-- Divide a total in proportion to weights, by largest remainders. -/
def allocatePaise (totalPaise : Binary64) (weights : List Binary64) : List Binary64 :=
  if weights = [] then [] else
  let (w, wSum) := effectiveWeights weights
  roundParts totalPaise (w.map fun x => totalPaise * x / wSum)

/-! ### Equal shares -/

/-- One line's paise over the checks, the leftover paise from check `offset` on. -/
def splitLine (parts offset : ℕ) (p : Binary64) : List Binary64 × ℕ :=
  let base := (p / .ofRat parts).floor
  let rem := ⌈(p - base * .ofRat parts).val⌉.toNat
  ((List.range rem).foldl (fun col k => col.modify ((offset + k) % parts) (· + 1))
    (List.replicate parts base), (offset + rem) % parts)

/-- The shares of the lines, line by line, the leftover paise in rotation over the checks. -/
def splitColumns (parts : ℕ) : ℕ → List Binary64 → List (List Binary64)
  | _, [] => []
  | offset, p :: ps =>
    let (column, offset) := splitLine parts offset p
    column :: splitColumns parts offset ps

/-- The equal shares of the lines: for every check, its share of every line. -/
def splitLinesEqually (linePaise : List Binary64) (parts : ℕ) : List (List Binary64) :=
  let columns := splitColumns parts 0 linePaise
  (List.range parts).map fun c => columns.map fun column => column.getD c 0

end StelloKitchens
