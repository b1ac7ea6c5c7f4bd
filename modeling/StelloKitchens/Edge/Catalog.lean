import StelloKitchens.Lib.KeyedTable
import StelloKitchens.Shared.EdgeFeed

/-!
# The device's copy of the catalog

The catalog table of the device, the lookups its order code makes, and the application of one
page of the change feed.

## Main definitions

* `Catalog` — the rows, one for each entity and id.
* `Catalog.applyFeed` — one page of the feed.
-/

namespace StelloKitchens

structure CatalogRow where
  key : CatalogKey
  data : CatalogData
  seq : ℕ
  deriving DecidableEq

abbrev Catalog := KeyedTable CatalogRow.key

namespace Catalog

/-! ### Lookups -/

def item? (cat : Catalog) (id : String) : Option EdgeItemData :=
  match (cat.find? (.item, id)).map CatalogRow.data with
  | some (.item d) => some d
  | _ => none

def combo? (cat : Catalog) (id : String) : Option EdgeComboData :=
  match (cat.find? (.combo, id)).map CatalogRow.data with
  | some (.combo d) => some d
  | _ => none

def category? (cat : Catalog) (id : String) : Option EdgeCategoryData :=
  match (cat.find? (.category, id)).map CatalogRow.data with
  | some (.category d) => some d
  | _ => none

def table? (cat : Catalog) (id : String) : Option EdgeTableData :=
  match (cat.find? (.table, id)).map CatalogRow.data with
  | some (.table d) => some d
  | _ => none

/-- The coupons of the catalog, in the order of the rows. -/
def coupons (cat : Catalog) : List EdgeCouponData :=
  cat.rows.filterMap fun r => match r.data with
    | .coupon d => some d
    | _ => none

/-! ### The change feed -/

/-- One change: the row is written, or deleted when the change has no data. -/
def applyChange (cat : Catalog) (c : EdgeFeedChange) : Catalog :=
  match c.data with
  | none => cat.delete fun r => r.key = c.key
  | some data =>
    cat.upsert ⟨c.key, data, c.seq⟩ (fun r => { r with data := data, seq := c.seq }) fun _ h => h

/-- One page of the feed; a reset drops the rows the device has. -/
def applyFeed (cat : Catalog) (feed : EdgeFeed) : Catalog :=
  feed.changes.foldl applyChange (if feed.reset then .empty else cat)

end Catalog

end StelloKitchens
