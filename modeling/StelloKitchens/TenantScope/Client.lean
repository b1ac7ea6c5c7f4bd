import StelloKitchens.Lib.Queries
import StelloKitchens.Shared.JsText

/-!
# The client that is scoped to a tenant

Every query of the database goes through an extension that looks up the tenant of the request. Where
the arguments take any condition it adds the tenant to them; a row found by a unique key is looked at
when it is there; what is created is given the tenant; and all else passes through. The database
itself is known by what it documents: how conditions, orders and selections are read, and that what
it does to rows that refer to others reaches no further than the references.

## Main definitions

* `Engine`, `Engine.query` — the client without the extension.
* `TenantStore` — the tenant of a request.
* `withTenantScope` — the extension.
-/

namespace StelloKitchens.TenantScope

open Queries

/-! ### Tables -/

inductive ColumnValue (α : Type)
  | text (s : String)
  | other (a : α)
  deriving DecidableEq

/-- A model of the schema. -/
structure ModelDef where
  name : String
  columns : List String
  relations : List (String × Relation String String)
  /-- The columns of each unique key. -/
  unique : List (List String)

abbrev Schema := List ModelDef

/-- The models that carry a tenant. -/
def tenantModels (schema : Schema) : List String :=
  (schema.filter fun m => m.columns.any fun c => c = "tenantId").map (·.name)

def Schema.relation (schema : Schema) (m c : String) : Option (Relation String String) :=
  (schema.find? fun d => d.name = m).bind fun d => d.relations.lookup c

variable {α F P R N : Type} [DecidableEq α]

abbrev DbRow (α : Type) := Row String (ColumnValue α)
abbrev DbTables (α : Type) := Tables String String (ColumnValue α)

/-- Two rows have the same values under a unique key, and none of these is null. -/
def SameKey (key : List String) (r r' : DbRow α) : Prop :=
  ∀ c ∈ key, (r.lookup c).isSome = true ∧ r'.lookup c = r.lookup c

/-- No two rows have the same unique key. -/
def UniqueKeys (schema : Schema) (T : DbTables α) : Prop :=
  ∀ d ∈ schema, ∀ key ∈ d.unique, (T d.name).Pairwise fun r r' => ¬SameKey key r r'

instance (key : List String) (r r' : DbRow α) : Decidable (SameKey key r r') :=
  inferInstanceAs (Decidable (∀ c ∈ key, (r.lookup c).isSome = true ∧ r'.lookup c = r.lookup c))

instance (schema : Schema) (T : DbTables α) : Decidable (UniqueKeys schema T) :=
  inferInstanceAs (Decidable (∀ d ∈ schema, ∀ key ∈ d.unique,
    (T d.name).Pairwise fun r r' => ¬SameKey key r r'))

structure Database (schema : Schema) (α : Type) [DecidableEq α] where
  tables : DbTables α
  unique : UniqueKeys schema tables

/-- Rows of a model, in the place of those that are there. -/
def setRows (T : DbTables α) (m : String) (rows : List (DbRow α)) : DbTables α :=
  fun m' => if m' = m then rows else T m'

/-- A row, of this model, holds a foreign key of a row of that model. -/
def Refers (schema : Schema) (T : DbTables α) (x y : String × DbRow α) : Prop :=
  ∃ c rel, schema.relation x.1 c = some rel ∧ rel.refers = true ∧ rel.target = y.1 ∧
    y.2 ∈ linked T rel x.2

/-! ### Arguments -/

inductive Operation
  | findFirst
  | findFirstOrThrow
  | findMany
  | findUnique
  | findUniqueOrThrow
  | count
  | aggregate
  | groupBy
  | create
  | createMany
  | createManyAndReturn
  | update
  | updateMany
  | updateManyAndReturn
  | upsert
  | delete
  | deleteMany
  deriving DecidableEq

inductive ColumnFilter (α F : Type)
  | equals (v : ColumnValue α)
  | other (f : F)

inductive Projection (α F P : Type)
  /-- These fields. -/
  | select (fields : Fields String (ColumnValue α) (ColumnFilter α F) P)
  /-- All columns but the omitted ones, and these relations. -/
  | including (omitted : List String) (fields : Fields String (ColumnValue α) (ColumnFilter α F) P)

/-- A row to be created, with what is written to the rows related to it. -/
structure RecordData (α N : Type) where
  columns : DbRow α
  nested : List N

inductive Data (α N : Type)
  | one (record : RecordData α N)
  | many (records : List (RecordData α N))

structure Args (α F P R N : Type) where
  /-- The unique columns that `where` names, where it has to name some. -/
  key : DbRow α
  filter : Option (Where String (ColumnFilter α F))
  page : Page String (ColumnValue α) P
  projection : Projection α F P
  data : Option (Data α N)
  /-- What an operation takes besides: what to aggregate, how to change rows, what to skip. -/
  rest : R

/-- The arguments, as a query. -/
def Args.query (args : Args α F P R N) :
    Query String (ColumnValue α) (ColumnFilter α F) P :=
  match args.projection with
  | .select fields => ⟨args.filter.getD .all, args.page, none, fields⟩
  | .including omitted fields => ⟨args.filter.getD .all, args.page, some omitted, fields⟩

abbrev OutputFields (α : Type) := List (String × Output String (ColumnValue α))

inductive Result (α : Type)
  /-- A row, and what is selected of it. -/
  | found (record : Option (DbRow α × OutputFields α))
  | records (records : List (DbRow α × OutputFields α))
  /-- What rows come to. -/
  | counted (rows : List (DbRow α)) (out : Output String (ColumnValue α))
  | changed (count : ℕ)

inductive QueryError
  /-- A record was not found. -/
  | p2025
  /-- A unique key is taken. -/
  | p2002
  /-- Another constraint of the database. -/
  | constraint
  | validation
  | notFoundException (message : String)
  deriving DecidableEq

/-! ### The client -/

/-- What the client and the database document. -/
structure Engine (α F P R N : Type) [DecidableEq α] where
  schema : Schema
  sat : F → Option (ColumnValue α) → Bool
  cut : P → Option (Option (List (KeyValue (ColumnValue α)))) →
    List (List (KeyValue (ColumnValue α)) × DbRow α) → List (DbRow α)
  cut_mem : ∀ limits cursor rows r, r ∈ cut limits cursor rows → ∃ x ∈ rows, x.2 = r
  aggregate : Operation → R → List (DbRow α) → Output String (ColumnValue α)
  limit : R → Option ℕ
  change : R → DbRow α → DbRow α
  /-- The columns that are not given are filled in. -/
  fill : String → DbRow α → DbRow α
  fill_lookup : ∀ m columns c v, columns.lookup c = some v → (fill m columns).lookup c = some v
  /-- What is left of the rows to be created where duplicates are skipped. -/
  fresh : R → List (DbRow α) → List (DbRow α) → List (DbRow α)
  fresh_mem : ∀ rest old rows r, r ∈ fresh rest old rows → r ∈ rows
  nested : N → String → DbRow α → DbTables α → DbTables α
  /-- What becomes of the rows that refer to changed ones. -/
  actions : DbTables α → DbTables α → DbTables α
  /-- Rows that refer to rows of theirs only, all of which are still there, stay. -/
  actions_keep : ∀ (T T' : DbTables α) (s : Set (String × DbRow α)),
    (∀ x ∈ s, ∀ y, Refers schema T x y → y ∈ s) → (∀ x ∈ s, x.2 ∈ T x.1 → x.2 ∈ T' x.1) →
      ∀ x ∈ s, x.2 ∈ T x.1 → x.2 ∈ actions T T' x.1
  accepts : DbTables α → Bool
  other : String → Operation → Args α F P R N → Database schema α →
    Except QueryError (Result α) × Database schema α

namespace Engine

variable (E : Engine α F P R N)

/-- A query reads the database, and leaves another. -/
abbrev QueryM (β : Type) := Database E.schema α → Except QueryError β × Database E.schema α

def reader : Reader String String (ColumnValue α) (ColumnFilter α F) P where
  relation := E.schema.relation
  sat
    | .equals v, x => decide (x = some v)
    | .other f, x => E.sat f x
  cut := E.cut
  cut_mem := E.cut_mem

/-- The tables are changed, if the constraints of the database admit it. -/
def commit (T : DbTables α) (result : Result α) : E.QueryM (Result α) := fun db =>
  if E.accepts T = true then
    if h : UniqueKeys E.schema T then (.ok result, ⟨T, h⟩) else (.error .p2002, db)
  else (.error .constraint, db)

/-- The rows of a model that are as asked. -/
def asked (T : DbTables α) (m : String) (args : Args α F P R N) : List (DbRow α) :=
  (T m).filter fun r => args.query.filter.holds E.reader T m r

/-- Those of them that an operation on many rows is limited to. -/
def targets (T : DbTables α) (m : String) (args : Args α F P R N) : List (DbRow α) :=
  match E.limit args.rest with
  | none => E.asked T m args
  | some n => (E.asked T m args).take n

/-- The row that a unique key names, if it is as asked. -/
def byKey (T : DbTables α) (m : String) (args : Args α F P R N) : Option (DbRow α) :=
  ((E.asked T m args).filter (Row.named args.key)).head?

/-- The columns are a unique key of the model. -/
def isKey (m : String) (key : DbRow α) : Bool :=
  E.schema.any fun d => decide (d.name = m) && d.unique.any fun columns =>
    decide (columns = key.map Prod.fst)

def record (T : DbTables α) (m : String) (args : Args α F P R N) (r : DbRow α) :
    DbRow α × OutputFields α :=
  (r, args.query.output E.reader T m r)

def createOne (m : String) (args : Args α F P R N) (data : RecordData α N) : E.QueryM (Result α) :=
  fun db =>
    let row := E.fill m data.columns
    let T := data.nested.foldl (fun T nested => E.nested nested m row T)
      (setRows db.tables m (db.tables m ++ [row]))
    E.commit T (.found (some (E.record T m args row))) db

def createAll (m : String) (args : Args α F P R N) (data : List (RecordData α N)) :
    E.QueryM (Result α) := fun db =>
  if data.all fun d => d.nested.isEmpty then
    let rows := E.fresh args.rest (db.tables m) (data.map fun d => E.fill m d.columns)
    E.commit (setRows db.tables m (db.tables m ++ rows)) (.changed rows.length) db
  else (.error .validation, db)

/-- The client without the extension. -/
def query (m : String) (op : Operation) (args : Args α F P R N) : E.QueryM (Result α) := fun db =>
  match op with
  | .findMany => (.ok (.records (args.query.run E.reader db.tables m)), db)
  | .findFirst => (.ok (.found (args.query.run E.reader db.tables m).head?), db)
  | .findFirstOrThrow => match (args.query.run E.reader db.tables m).head? with
    | none => (.error .p2025, db)
    | some record => (.ok (.found (some record)), db)
  | .findUnique =>
    if E.isKey m args.key then
      (.ok (.found ((E.byKey db.tables m args).map (E.record db.tables m args))), db)
    else (.error .validation, db)
  | .findUniqueOrThrow =>
    if E.isKey m args.key then match E.byKey db.tables m args with
      | none => (.error .p2025, db)
      | some r => (.ok (.found (some (E.record db.tables m args r))), db)
    else (.error .validation, db)
  | .count | .aggregate | .groupBy =>
    let rows := args.query.rows E.reader db.tables m
    (.ok (.counted rows (E.aggregate op args.rest rows)), db)
  | .updateMany =>
    let targets := E.targets db.tables m args
    E.commit (E.actions db.tables (setRows db.tables m ((db.tables m).map fun r =>
      if r ∈ targets then E.change args.rest r else r))) (.changed targets.length) db
  | .deleteMany =>
    let targets := E.targets db.tables m args
    E.commit (E.actions db.tables (setRows db.tables m ((db.tables m).filter fun r =>
      decide (r ∉ targets)))) (.changed targets.length) db
  | .create => match args.data with
    | some (.one data) => E.createOne m args data db
    | _ => (.error .validation, db)
  | .createMany => match args.data with
    | some (.one data) => E.createAll m args [data] db
    | some (.many data) => E.createAll m args data db
    | none => (.error .validation, db)
  | .createManyAndReturn | .update | .updateManyAndReturn | .upsert | .delete =>
    E.other m op args db

end Engine

/-! ### The tenant of a request -/

structure TenantStore where
  tenantId : Option String
  unscoped : Bool
  deriving DecidableEq

def enterTenant (tenantId : String) : Option TenantStore := some ⟨some tenantId, false⟩

def getTenantId (store : Option TenantStore) : Option String := store.bind (·.tenantId)

def isUnscoped (store : Option TenantStore) : Bool := (store.map (·.unscoped)).getD false

/-- The store that a function runs with where scoping is switched off. -/
def runUnscoped (store : Option TenantStore) : Option TenantStore := some ⟨getTenantId store, true⟩

/-! ### The extension -/

/-- Operations whose `where` takes any column. -/
def whereScoped : List Operation :=
  [.findFirst, .findFirstOrThrow, .findMany, .count, .aggregate, .groupBy, .updateMany, .deleteMany]

/-- A column is selected. -/
def selects {V G Q : Type} (c : String) : Fields String V G Q → Bool
  | .nil => false
  | .field column rest => decide (column = c) || selects c rest
  | .count _ _ rest => selects c rest
  | .related _ _ _ _ _ rest => selects c rest

/-- The tenant that a result shows. -/
def tenantOf (fields : OutputFields α) : Option String :=
  match fields.lookup "tenantId" with
  | some (.value (some (.text s))) => some s
  | _ => none

/-- The arguments with the tenant added to the condition. -/
def Args.whereTenant (args : Args α F P R N) (tid : String) : Args α F P R N :=
  { args with
    filter := some (.and (args.filter.getD .all) (.field "tenantId" (.equals (.text tid)))) }

/-- The row is created for the tenant. -/
def RecordData.forTenant (data : RecordData α N) (tid : String) : RecordData α N :=
  { data with
    columns := data.columns.filter (fun x => decide (x.1 ≠ "tenantId")) ++ [("tenantId", .text tid)] }

/-- The arguments with the tenant added to the selection, if there is one without it. -/
def Args.selectTenant (args : Args α F P R N) : Option (Args α F P R N) :=
  match args.projection with
  | .select fields =>
    if selects "tenantId" fields then none
    else some { args with projection := .select (.field "tenantId" fields) }
  | .including _ _ => none

/-- A row found by its key, if it is the tenant's; what was added to the selection is taken out. -/
def checkTenant (op : Operation) (tid : String) (injected : Bool) (res : Result α) :
    Except QueryError (Result α) :=
  match res with
  | .found (some (row, fields)) =>
    if tenantOf fields ≠ some tid then
      if op = .findUniqueOrThrow then .error (.notFoundException "Record not found")
      else .ok (.found none)
    else if injected then .ok (.found (some (row, fields.filter fun x => decide (x.1 ≠ "tenantId"))))
    else .ok res
  | res => .ok res

/-- The client, scoped to the tenant of the request. -/
def withTenantScope (E : Engine α F P R N) (store : Option TenantStore) (m : String)
    (op : Operation) (args : Args α F P R N) : E.QueryM (Result α) :=
  match truthy (getTenantId store) with
  | none => E.query m op args
  | some tid =>
    if isUnscoped store = true ∨ m ∉ tenantModels E.schema then E.query m op args
    else if op ∈ whereScoped then E.query m op (args.whereTenant tid)
    else if op = .findUnique ∨ op = .findUniqueOrThrow then fun db =>
      let injected := args.selectTenant
      let (res, db) := E.query m op (injected.getD args) db
      (res.bind (checkTenant op tid injected.isSome), db)
    else match op, args.data with
      | .create, some (.one data) =>
        E.query m op { args with data := some (.one (data.forTenant tid)) }
      | .createMany, some (.one data) =>
        E.query m op { args with data := some (.one (data.forTenant tid)) }
      | .createMany, some (.many data) =>
        E.query m op { args with data := some (.many (data.map (·.forTenant tid))) }
      | _, _ => E.query m op args

end StelloKitchens.TenantScope
