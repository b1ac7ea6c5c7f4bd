import StelloKitchens.Shared.Coupon

/-!
# The catalog change feed

The rows of an outlet's offline catalog and the pages in which a device pulls their changes. A
change without data is a deletion.

## Main definitions

* `CatalogData` — what a row of each entity holds.
* `EdgeFeedChange`, `EdgeFeed` — one change and one page of changes.
-/

namespace StelloKitchens

inductive EdgeFeedEntity
  | settings
  | category
  | item
  | combo
  | area
  | table
  | staff
  | coupon
  deriving DecidableEq

structure EdgeSettingsData where
  outletId : String
  name : String
  address : Option String
  gstin : Option String
  placeOfSupply : Option String
  upiVpa : Option String
  themeId : String
  loyaltyEarnRate : Binary64
  loyaltyPointValue : Binary64
  deriving DecidableEq

structure EdgeCategoryData where
  id : String
  name : String
  sortOrder : ℤ
  stationId : Option String
  stationName : Option String
  deriving DecidableEq

/-- A variation or an add-on: a name and a price. -/
structure EdgePriced where
  id : String
  name : String
  price : Binary64
  deriving DecidableEq

structure EdgeAddonGroup where
  id : String
  name : String
  minSelect : ℤ
  maxSelect : ℤ
  addons : List EdgePriced
  deriving DecidableEq

structure EdgeItemData where
  id : String
  categoryId : String
  name : String
  shortCode : Option String
  price : Binary64
  isVeg : Bool
  inStock : Bool
  taxRate : Binary64
  sortOrder : ℤ
  variations : List EdgePriced
  addonGroups : List EdgeAddonGroup
  deriving DecidableEq

structure EdgeComboOption where
  id : String
  itemId : String
  name : String
  priceDelta : Binary64
  isDefault : Bool
  isVeg : Bool
  inStock : Bool
  deriving DecidableEq

structure EdgeComboSlot where
  id : String
  name : String
  options : List EdgeComboOption
  deriving DecidableEq

structure EdgeComboData where
  id : String
  categoryId : String
  name : String
  price : Binary64
  isVeg : Bool
  inStock : Bool
  taxRate : Binary64
  slots : List EdgeComboSlot
  deriving DecidableEq

structure EdgeAreaData where
  id : String
  name : String
  deriving DecidableEq

/-- A running order the cloud knows on a table, and the terminal it came from. -/
structure CloudOccupancy where
  orderId : String
  deviceId : Option String
  deriving DecidableEq

structure EdgeTableData where
  id : String
  areaId : String
  name : String
  seats : ℤ
  cloudOccupiedBy : Option CloudOccupancy
  deriving DecidableEq

structure EdgeStaffData where
  id : String
  name : String
  roleName : String
  permissions : List String
  isActive : Bool
  pinHash : Option String
  deriving DecidableEq

structure EdgeCouponData where
  id : String
  code : String
  rule : CouponRule
  deriving DecidableEq

/-- What a catalog row holds, by entity. -/
inductive CatalogData
  | settings (data : EdgeSettingsData)
  | category (data : EdgeCategoryData)
  | item (data : EdgeItemData)
  | combo (data : EdgeComboData)
  | area (data : EdgeAreaData)
  | table (data : EdgeTableData)
  | staff (data : EdgeStaffData)
  | coupon (data : EdgeCouponData)
  deriving DecidableEq

/-- What a catalog row is told apart by. -/
abbrev CatalogKey := EdgeFeedEntity × String

structure EdgeFeedChange where
  key : CatalogKey
  seq : ℕ
  /-- The new content; nothing for a deleted row. -/
  data : Option CatalogData
  deriving DecidableEq

structure EdgeFeed where
  cursor : ℕ
  changes : List EdgeFeedChange
  hasMore : Bool
  reset : Bool
  deriving DecidableEq

end StelloKitchens
