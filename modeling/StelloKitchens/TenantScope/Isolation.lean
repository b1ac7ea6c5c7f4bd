import Mathlib.Logic.Relation
import StelloKitchens.TenantScope.Client

/-!
# Tenants are kept apart

The tenant is added to the condition on the rows of the model itself. The rows that these are linked
to are filtered, ordered by, counted and selected without it, and a row found by its key is looked up
before it is seen whose it is.

## Main definitions

* `Isolated` — an operation of one tenant, and the rows of others.
* `Inside` — the arguments lead to no rows of others.

## Main results

* `tenant_isolation` — arguments that lead to no rows of others, on every two databases.
-/

namespace StelloKitchens.TenantScope

open Queries

variable {α F P R N : Type} [DecidableEq α]

/-! ### Rows of a tenant -/

def own (t : String) (r : DbRow α) : Bool := decide (r.lookup "tenantId" = some (.text t))

/-- Not a row of a model with a tenant that is not the tenant's. -/
def visible (schema : Schema) (t : String) (m : String) (r : DbRow α) : Bool :=
  decide (m ∉ tenantModels schema) || own t r

def Result.rows : Result α → List (DbRow α)
  | .found record => record.toList.map Prod.fst
  | .records rs => rs.map Prod.fst
  | .counted rows _ => rows
  | .changed _ => []

/-- The operations that read. -/
def reads : List Operation :=
  [.findFirst, .findFirstOrThrow, .findMany, .findUnique, .findUniqueOrThrow, .count, .aggregate,
    .groupBy]

/-- Only rows of the tenant are added, to this model. -/
structure Added (t m : String) (T T' : DbTables α) : Prop where
  kept : ∀ m', ∀ r ∈ T m', r ∈ T' m'
  new : ∀ m', ∀ r ∈ T' m', r ∉ T m' → m' = m ∧ own t r = true

/-- What an operation of a tenant returns and counts is the tenant's, and is the same where the rows
of others are not; what it changes and adds is the tenant's. -/
structure Isolated (E : Engine α F P R N) (t m : String) (op : Operation)
    (run : E.QueryM (Result α)) (db db' : Database E.schema α) : Prop where
  own : op ∈ reads → ∀ res, (run db).1 = .ok res → ∀ r ∈ res.rows, own t r = true
  same : op ∈ reads → Agree (visible E.schema t) db.tables db'.tables → (run db).1 = (run db').1
  kept : op = .updateMany ∨ op = .deleteMany → ∀ m', ∀ r ∈ db.tables m',
    visible E.schema t m' r = false → r ∈ (run db).2.tables m'
  added : op = .create ∨ op = .createMany → Added t m db.tables (run db).2.tables

/-- The arguments lead to no rows of others: the relations that they follow from rows of the tenant do
not, nor does the key of a row that has to be there, nor a reference from a row of another tenant to
one that may change; and nothing is written to rows related to a new one. -/
structure Inside (E : Engine α F P R N) (t m : String) (op : Operation) (args : Args α F P R N)
    (T : DbTables α) : Prop where
  filter : op ∈ reads → ∀ r ∈ T m, own t r = true →
    args.query.filter.Inside E.reader (visible E.schema t) T m r
  page : op ∈ reads → op ∈ whereScoped → args.page.Inside E.reader (visible E.schema t) T m
    ((E.asked T m args).filter (own t))
  fields : op ∈ reads → ∀ r ∈ E.asked T m args, own t r = true →
    args.query.fields.Inside E.reader (visible E.schema t) T m r
  named : op = .findUniqueOrThrow → ∀ r ∈ E.asked T m args, Row.named args.key r = true →
    own t r = true
  referred : op = .updateMany ∨ op = .deleteMany → ∀ x : String × DbRow α, x.2 ∈ T x.1 →
    visible E.schema t x.1 x.2 = false → ∀ r, Relation.ReflTransGen (Refers E.schema T) x (m, r) →
      own t r = false
  nested : op = .create → ∀ data, args.data = some (.one data) → data.nested = []

variable {E : Engine α F P R N} {t m : String} {op : Operation} {args : Args α F P R N}
  {T T' : DbTables α} {r : DbRow α}

theorem visible_of_own (h : own t r = true) : visible E.schema t m r = true := by
  unfold visible
  rw [h, Bool.or_true]

theorem own_of_visible (hm : m ∈ tenantModels E.schema) (h : visible E.schema t m r = true) :
    own t r = true := by
  unfold visible at h
  rwa [decide_eq_false (not_not.mpr hm), Bool.false_or] at h

/-! ### Conditions that take any column -/

omit [DecidableEq α] in
theorem query_whereTenant : (args.whereTenant t).query = { args.query with
    filter := .and args.query.filter (.field "tenantId" (.equals (.text t))) } := by
  unfold Args.query Args.whereTenant
  cases args.projection <;> rfl

/-- The rows that are asked for with the tenant are the tenant's. -/
theorem asked_whereTenant :
    E.asked T m (args.whereTenant t) = (E.asked T m args).filter (own t) := by
  unfold Engine.asked
  rw [query_whereTenant, List.filter_filter]
  refine List.filter_congr fun r _ => ?_
  simp only [Where.holds, Engine.reader, own, Bool.and_comm]

/-- The query with the tenant reads what is visible. -/
theorem Inside.query (h : Inside E t m op args T) (hread : op ∈ reads) (hscoped : op ∈ whereScoped)
    (hm : m ∈ tenantModels E.schema) :
    (args.whereTenant t).query.Inside E.reader (visible E.schema t) T m := by
  have hasked : (T m).filter (fun r => (args.whereTenant t).query.filter.holds E.reader T m r) =
      (E.asked T m args).filter (own t) := asked_whereTenant
  have hpage : (args.whereTenant t).query.page = args.page := by
    rw [query_whereTenant]
    unfold Args.query
    cases args.projection <;> rfl
  have hmem : ∀ r ∈ T m, (args.whereTenant t).query.filter.holds E.reader T m r = true →
      r ∈ E.asked T m args ∧ own t r = true := fun r hr hholds =>
    List.mem_filter.mp (hasked ▸ List.mem_filter.mpr ⟨hr, hholds⟩)
  refine ⟨fun r hr hholds => visible_of_own (hmem r hr hholds).2, fun r hr hvisible => ?_, ?_,
    fun r hr => ?_⟩
  · rw [query_whereTenant]
    exact ⟨h.filter hread r hr (own_of_visible hm hvisible), trivial⟩
  · rw [hpage, hasked]
    exact h.page hread hscoped
  · obtain ⟨hr, hholds⟩ := Query.mem_of_mem_rows hr
    have hown := hmem r hr hholds
    rw [query_whereTenant]
    exact h.fields hread r hown.1 hown.2

/-- The rows of the query with the tenant are the tenant's. -/
theorem own_of_mem_rows (h : r ∈ (args.whereTenant t).query.rows E.reader T m) : own t r = true := by
  have hmem := Query.mem_of_mem_rows h
  have hasked : r ∈ E.asked T m (args.whereTenant t) := List.mem_filter.mpr hmem
  rw [asked_whereTenant] at hasked
  exact (List.mem_filter.mp hasked).2

theorem own_of_mem_run {x : DbRow α × OutputFields α}
    (h : x ∈ (args.whereTenant t).query.run E.reader T m) : own t x.1 = true := by
  obtain ⟨r, hr, rfl⟩ := List.mem_map.mp h
  exact own_of_mem_rows hr

/-- The operations with any condition that read do so by the rows of the query. -/
theorem query_eq_of_scoped (hread : op ∈ reads) (hscoped : op ∈ whereScoped)
    (db db' : Database E.schema α)
    (hrows : args.query.rows E.reader db.tables m = args.query.rows E.reader db'.tables m)
    (hrun : args.query.run E.reader db.tables m = args.query.run E.reader db'.tables m) :
    (E.query m op args db).1 = (E.query m op args db').1 := by
  cases op with
  | findFirstOrThrow =>
    unfold Engine.query
    rw [hrun]
    cases (args.query.run E.reader db'.tables m).head? <;> rfl
  | findFirst | findMany =>
    unfold Engine.query
    rw [hrun]
  | count | aggregate | groupBy =>
    unfold Engine.query
    rw [hrows]
  | _ => simp [reads, whereScoped] at hread hscoped

theorem own_of_scoped (hread : op ∈ reads) (hscoped : op ∈ whereScoped) (db : Database E.schema α)
    {res : Result α} (h : (E.query m op (args.whereTenant t) db).1 = .ok res) :
    ∀ r ∈ res.rows, own t r = true := by
  cases op with
  | findMany =>
    obtain rfl := Except.ok.inj h
    intro r hr
    obtain ⟨x, hx, rfl⟩ := List.mem_map.mp hr
    exact own_of_mem_run hx
  | findFirst =>
    obtain rfl := Except.ok.inj h
    intro r hr
    obtain ⟨x, hx, rfl⟩ := List.mem_map.mp hr
    exact own_of_mem_run (List.mem_of_mem_head? (Option.mem_toList.mp hx))
  | findFirstOrThrow =>
    unfold Engine.query at h
    cases hhead : ((args.whereTenant t).query.run E.reader db.tables m).head? with
    | none =>
      rw [hhead] at h
      cases h
    | some x =>
      rw [hhead] at h
      obtain rfl := Except.ok.inj h
      intro r hr
      obtain rfl := List.mem_singleton.mp hr
      exact own_of_mem_run (List.mem_of_mem_head? hhead)
  | count | aggregate | groupBy =>
    obtain rfl := Except.ok.inj h
    exact fun r hr => own_of_mem_rows hr
  | _ => simp [reads, whereScoped] at hread hscoped

/-! ### Rows by their keys -/

omit [DecidableEq α] in
theorem SameKey.symm {key : List String} {r r' : DbRow α} (h : SameKey key r r') :
    SameKey key r' r := fun c hc => ⟨(h c hc).2 ▸ (h c hc).1, (h c hc).2.symm⟩

instance (key : List String) : Std.Symm fun r r' : DbRow α => ¬SameKey key r r' :=
  ⟨fun _ _ h hsame => h hsame.symm⟩

theorem lookup_of_named {key : DbRow α} (h : Row.named key r = true) {x : String × ColumnValue α}
    (hx : x ∈ key) : r.lookup x.1 = some x.2 :=
  of_decide_eq_true (List.all_eq_true.mp h x hx)

/-- A unique key names one row. -/
theorem eq_of_named (db : Database E.schema α) {key : DbRow α} (hkey : E.isKey m key = true)
    {r r' : DbRow α} (hr : r ∈ db.tables m) (hr' : r' ∈ db.tables m)
    (hnamed : Row.named key r = true) (hnamed' : Row.named key r' = true) : r = r' := by
  unfold Engine.isKey at hkey
  obtain ⟨d, hd, hkey⟩ := List.any_eq_true.mp hkey
  rw [Bool.and_eq_true, decide_eq_true_eq, List.any_eq_true] at hkey
  obtain ⟨rfl, columns, hcolumns, hkey⟩ := hkey
  obtain rfl := of_decide_eq_true hkey
  by_contra hne
  refine (db.unique d hd _ hcolumns).forall hr hr' hne fun c hc => ?_
  obtain ⟨x, hx, rfl⟩ := List.mem_map.mp hc
  rw [lookup_of_named hnamed hx, lookup_of_named hnamed' hx]
  exact ⟨rfl, rfl⟩

/-- The row that a unique key names is found by it. -/
theorem byKey_eq_some (db : Database E.schema α) (hkey : E.isKey m args.key = true) :
    E.byKey db.tables m args = some r ↔
      r ∈ E.asked db.tables m args ∧ Row.named args.key r = true := by
  unfold Engine.byKey
  constructor
  · intro h
    exact List.mem_filter.mp (List.mem_of_mem_head? h)
  · intro h
    have hmem := List.mem_filter.mpr h
    cases hhead : ((E.asked db.tables m args).filter (Row.named args.key)).head? with
    | none =>
      rw [List.head?_eq_none_iff.mp hhead] at hmem
      cases hmem
    | some r' =>
      have hr' := List.mem_filter.mp (List.mem_of_mem_head? hhead)
      rw [eq_of_named db hkey (List.mem_filter.mp h.1).1 (List.mem_filter.mp hr'.1).1 h.2 hr'.2]

/-- The tenant's own row is found in both databases. -/
theorem byKey_congr {db db' : Database E.schema α} (hread : op ∈ reads) (h : Inside E t m op args db.tables)
    (h' : Inside E t m op args db'.tables)
    (hagree : Agree (visible E.schema t) db.tables db'.tables)
    (hkey : E.isKey m args.key = true) (hown : own t r = true)
    (hr : E.byKey db.tables m args = some r) : E.byKey db'.tables m args = some r := by
  obtain ⟨hasked, hnamed⟩ := (byKey_eq_some db hkey).mp hr
  obtain ⟨hmem, hholds⟩ := List.mem_filter.mp hasked
  have hmem' : r ∈ db'.tables m := by
    have hvisible : r ∈ (db.tables m).filter (visible E.schema t m) :=
      List.mem_filter.mpr ⟨hmem, visible_of_own hown⟩
    rw [hagree m] at hvisible
    exact (List.mem_filter.mp hvisible).1
  refine (byKey_eq_some db' hkey).mpr ⟨List.mem_filter.mpr ⟨hmem', ?_⟩, hnamed⟩
  rwa [← Where.holds_congr hagree (h.filter hread r hmem hown) (h'.filter hread r hmem' hown)]

omit [DecidableEq α] in
theorem tenantOf_eq_some {fields : OutputFields α} (h : tenantOf fields = some t) :
    fields.lookup "tenantId" = some (.value (some (.text t))) := by
  unfold tenantOf at h
  split at h
  · rename_i s hs
    rw [hs, Option.some.inj h]
  · cases h

/-- A row that shows the tenant is the tenant's. -/
theorem own_of_tenantOf (h : tenantOf (E.record T m args r).2 = some t) : own t r = true := by
  have hlookup := Query.eq_lookup_of_output (tenantOf_eq_some h)
  exact decide_eq_true hlookup.symm

/-- The arguments that the row is looked up with. -/
def Args.withTenant (args : Args α F P R N) : Args α F P R N := args.selectTenant.getD args

omit [DecidableEq α] in
theorem withTenant_eq (args : Args α F P R N) : args.withTenant = args ∨
    ∃ fields, args.projection = .select fields ∧
      args.withTenant = { args with projection := .select (.field "tenantId" fields) } := by
  unfold Args.withTenant Args.selectTenant
  cases hprojection : args.projection with
  | select fields =>
    dsimp only
    split
    · exact .inl rfl
    · exact .inr ⟨fields, rfl, rfl⟩
  | including omitted fields => exact .inl rfl

omit [DecidableEq α] in
theorem key_withTenant : args.withTenant.key = args.key := by
  rcases withTenant_eq args with h | ⟨fields, -, h⟩ <;> rw [h]

omit [DecidableEq α] in
theorem filter_withTenant : args.withTenant.query.filter = args.query.filter := by
  rcases withTenant_eq args with h | ⟨fields, hprojection, h⟩
  · rw [h]
  · rw [h]
    unfold Args.query
    rw [hprojection]

theorem byKey_withTenant : E.byKey T m args.withTenant = E.byKey T m args := by
  unfold Engine.byKey Engine.asked
  rw [key_withTenant, filter_withTenant]

theorem inside_withTenant (h : args.query.fields.Inside E.reader (visible E.schema t) T m r) :
    args.withTenant.query.fields.Inside E.reader (visible E.schema t) T m r := by
  rcases withTenant_eq args with heq | ⟨fields, hprojection, heq⟩
  · rwa [heq]
  · rw [heq]
    unfold Args.query at h ⊢
    rw [hprojection] at h
    exact h

/-- What is selected of a row of the tenant is the same in both. -/
theorem record_congr (hread : op ∈ reads) (h : Inside E t m op args T) (h' : Inside E t m op args T')
    (hagree : Agree (visible E.schema t) T T') (hown : own t r = true) (hr : r ∈ E.asked T m args)
    (hr' : r ∈ E.asked T' m args) :
    E.record T m args.withTenant r = E.record T' m args.withTenant r := by
  unfold Engine.record Query.output
  rw [Fields.output_congr hagree (inside_withTenant (h.fields hread r hr hown))
    (inside_withTenant (h'.fields hread r hr' hown))]

/-! ### The extension, case by case -/

section Scoped

variable {store : Option TenantStore} {db : Database E.schema α}

theorem withTenantScope_whereScoped (hstore : getTenantId store = some t) (ht : t ≠ "")
    (hscope : isUnscoped store = false) (hm : m ∈ tenantModels E.schema) (hscoped : op ∈ whereScoped) :
    withTenantScope E store m op args = E.query m op (args.whereTenant t) := by
  have htruthy : truthy (some t) = some t := Option.filter_eq_some_iff.mpr ⟨rfl, decide_eq_true ht⟩
  unfold withTenantScope
  rw [hstore, htruthy]
  simp only [hscope, hm, hscoped, Bool.false_eq_true, not_true_eq_false, or_self, if_false, if_true]

theorem withTenantScope_unique (hstore : getTenantId store = some t) (ht : t ≠ "")
    (hscope : isUnscoped store = false) (hm : m ∈ tenantModels E.schema)
    (hunique : op = .findUnique ∨ op = .findUniqueOrThrow) (db : Database E.schema α) :
    (withTenantScope E store m op args db).1 =
      (E.query m op args.withTenant db).1.bind (checkTenant op t args.selectTenant.isSome) := by
  have htruthy : truthy (some t) = some t := Option.filter_eq_some_iff.mpr ⟨rfl, decide_eq_true ht⟩
  have hscoped : op ∉ whereScoped := by
    rcases hunique with rfl | rfl <;> decide
  unfold withTenantScope
  rw [hstore, htruthy]
  simp only [hscope, hm, hscoped, hunique, Bool.false_eq_true, not_true_eq_false, or_self, if_false,
    if_true, Args.withTenant]

/-- No row of the tenant is found by a key. -/
theorem unique_hidden (hstore : getTenantId store = some t) (ht : t ≠ "")
    (hscope : isUnscoped store = false) (hm : m ∈ tenantModels E.schema)
    (hunique : op = .findUnique ∨ op = .findUniqueOrThrow) (db : Database E.schema α)
    (h : Inside E t m op args db.tables) (hkey : E.isKey m args.key = true)
    (hhidden : ∀ r, E.byKey db.tables m args = some r → own t r = false) :
    (withTenantScope E store m op args db).1 =
      if op = .findUnique then .ok (.found none) else .error .p2025 := by
  rw [withTenantScope_unique hstore ht hscope hm hunique]
  unfold Engine.query
  rcases hunique with rfl | rfl
  · simp only [key_withTenant, hkey, byKey_withTenant, if_true]
    cases hr : E.byKey db.tables m args with
    | none => rfl
    | some r =>
      have htenant : tenantOf (E.record db.tables m args.withTenant r).2 ≠ some t := fun htenant =>
        Bool.false_ne_true ((hhidden r hr).symm.trans (own_of_tenantOf htenant))
      simp only [Option.map_some, Except.bind, checkTenant, Engine.record] at htenant ⊢
      rw [if_pos htenant, if_neg (by decide)]
  · simp only [key_withTenant, hkey, byKey_withTenant, if_true, reduceCtorEq, if_false]
    cases hr : E.byKey db.tables m args with
    | none => rfl
    | some r =>
      obtain ⟨hasked, hnamed⟩ := (byKey_eq_some db hkey).mp hr
      exact absurd ((hhidden r hr).symm.trans (h.named rfl r hasked hnamed)) Bool.false_ne_true

theorem unique_same (hstore : getTenantId store = some t) (ht : t ≠ "")
    (hscope : isUnscoped store = false) (hm : m ∈ tenantModels E.schema)
    (hunique : op = .findUnique ∨ op = .findUniqueOrThrow) {db db' : Database E.schema α}
    (h : Inside E t m op args db.tables) (h' : Inside E t m op args db'.tables)
    (hagree : Agree (visible E.schema t) db.tables db'.tables) :
    (withTenantScope E store m op args db).1 = (withTenantScope E store m op args db').1 := by
  have hread : op ∈ reads := by
    rcases hunique with rfl | rfl <;> decide
  cases hkey : E.isKey m args.key with
  | false =>
    rw [withTenantScope_unique hstore ht hscope hm hunique,
      withTenantScope_unique hstore ht hscope hm hunique]
    unfold Engine.query
    rcases hunique with rfl | rfl <;>
      simp only [key_withTenant, hkey, Bool.false_eq_true, if_false]
  | true =>
    by_cases hfound : ∃ r, E.byKey db.tables m args = some r ∧ own t r = true
    · obtain ⟨r, hr, hown⟩ := hfound
      have hr' := byKey_congr hread h h' hagree hkey hown hr
      have hrecord := record_congr hread h h' hagree hown ((byKey_eq_some db hkey).mp hr).1
        ((byKey_eq_some db' hkey).mp hr').1
      rw [withTenantScope_unique hstore ht hscope hm hunique,
        withTenantScope_unique hstore ht hscope hm hunique]
      unfold Engine.query
      rcases hunique with rfl | rfl <;>
        simp only [key_withTenant, hkey, byKey_withTenant, hr, hr', Option.map_some, hrecord, if_true]
    · have hhidden : ∀ r, E.byKey db.tables m args = some r → own t r = false := fun r hr =>
        Bool.eq_false_iff.mpr fun hown => hfound ⟨r, hr, hown⟩
      have hhidden' : ∀ r, E.byKey db'.tables m args = some r → own t r = false := fun r hr =>
        Bool.eq_false_iff.mpr fun hown => hfound
          ⟨r, byKey_congr hread h' h (fun m => (hagree m).symm) hkey hown hr, hown⟩
      rw [unique_hidden hstore ht hscope hm hunique db h hkey hhidden,
        unique_hidden hstore ht hscope hm hunique db' h' hkey hhidden']

omit [DecidableEq α] in
/-- A row that is shown has passed the check. -/
theorem tenantOf_of_checkTenant {injected : Bool} {x : DbRow α × OutputFields α} {res : Result α}
    (h : checkTenant op t injected (.found (some x)) = .ok res) :
    ∀ r ∈ res.rows, r = x.1 ∧ tenantOf x.2 = some t := by
  unfold checkTenant at h
  dsimp only at h
  split at h
  · split at h
    · cases h
    · obtain rfl := Except.ok.inj h
      intro r hr
      cases hr
  · rename_i htenant
    split at h <;> obtain rfl := Except.ok.inj h <;> intro r hr <;>
      exact ⟨List.mem_singleton.mp hr, not_not.mp htenant⟩

theorem own_of_checkTenant {injected : Bool} {res : Result α}
    (h : checkTenant op t injected (.found (some (E.record T m args r))) = .ok res) :
    ∀ r' ∈ res.rows, own t r' = true := by
  intro r' hr'
  obtain ⟨rfl, htenant⟩ := tenantOf_of_checkTenant h r' hr'
  exact own_of_tenantOf htenant

theorem unique_own (hstore : getTenantId store = some t) (ht : t ≠ "")
    (hscope : isUnscoped store = false) (hm : m ∈ tenantModels E.schema)
    (hunique : op = .findUnique ∨ op = .findUniqueOrThrow) (db : Database E.schema α)
    {res : Result α} (h : (withTenantScope E store m op args db).1 = .ok res) :
    ∀ r ∈ res.rows, own t r = true := by
  rw [withTenantScope_unique hstore ht hscope hm hunique] at h
  unfold Engine.query at h
  cases hkey : E.isKey m args.key with
  | false =>
    rcases hunique with rfl | rfl <;>
      · simp only [key_withTenant, hkey, Bool.false_eq_true, if_false] at h
        cases h
  | true =>
    rcases hunique with rfl | rfl
    · simp only [key_withTenant, hkey, if_true, byKey_withTenant] at h
      cases hr : E.byKey db.tables m args with
      | none =>
        rw [hr] at h
        obtain rfl := Except.ok.inj h
        intro r hr
        cases hr
      | some r =>
        rw [hr] at h
        exact own_of_checkTenant h
    · simp only [key_withTenant, hkey, if_true, byKey_withTenant] at h
      cases hr : E.byKey db.tables m args with
      | none =>
        rw [hr] at h
        cases h
      | some r =>
        rw [hr] at h
        exact own_of_checkTenant h

/-! ### What changes -/

omit [DecidableEq α] in
theorem setRows_self (rows : List (DbRow α)) : setRows T m rows m = rows := if_pos rfl

omit [DecidableEq α] in
theorem setRows_of_ne {m' : String} (rows : List (DbRow α)) (h : m' ≠ m) :
    setRows T m rows m' = T m' := if_neg h

/-- A change of the tables goes through, or leaves them. -/
theorem commit_tables (result : Result α) (db : Database E.schema α) :
    (E.commit T result db).2.tables = T ∨ (E.commit T result db).2.tables = db.tables := by
  unfold Engine.commit
  split_ifs
  · exact .inl rfl
  · exact .inr rfl
  · exact .inr rfl

theorem own_of_mem_targets (h : r ∈ E.targets T m (args.whereTenant t)) : own t r = true := by
  have hasked : r ∈ E.asked T m (args.whereTenant t) := by
    unfold Engine.targets at h
    split at h
    · exact h
    · exact List.mem_of_mem_take h
  rw [asked_whereTenant] at hasked
  exact (List.mem_filter.mp hasked).2

/-- The rows of others stay where the tenant's are changed, and what refers to these. -/
theorem actions_keep_hidden (h : Inside E t m op args T) (hop : op = .updateMany ∨ op = .deleteMany)
    {rows : List (DbRow α)} (hrows : ∀ r ∈ T m, own t r = false → r ∈ rows) {m' : String}
    (hr : r ∈ T m') (hhidden : visible E.schema t m' r = false) :
    r ∈ E.actions T (setRows T m rows) m' := by
  refine E.actions_keep T (setRows T m rows) {y | ∃ x : String × DbRow α, x.2 ∈ T x.1 ∧
    visible E.schema t x.1 x.2 = false ∧ Relation.ReflTransGen (Refers E.schema T) x y}
    ?_ ?_ (m', r) ⟨(m', r), hr, hhidden, .refl⟩ hr
  · rintro y ⟨x, hx, hxhidden, hreach⟩ z hz
    exact ⟨x, hx, hxhidden, hreach.tail hz⟩
  · rintro ⟨m'', r'⟩ ⟨x, hx, hxhidden, hreach⟩ hr'
    by_cases heq : m'' = m
    · subst heq
      rw [setRows_self]
      exact hrows r' hr' (h.referred hop x hx hxhidden r' hreach)
    · rwa [setRows_of_ne rows heq]

theorem many_kept (h : Inside E t m op args db.tables) (hop : op = .updateMany ∨ op = .deleteMany)
    (hstore : getTenantId store = some t) (ht : t ≠ "") (hscope : isUnscoped store = false)
    (hm : m ∈ tenantModels E.schema) {m' : String} (hr : r ∈ db.tables m')
    (hhidden : visible E.schema t m' r = false) :
    r ∈ (withTenantScope E store m op args db).2.tables m' := by
  have hscoped : op ∈ whereScoped := by
    rcases hop with rfl | rfl <;> decide
  rw [withTenantScope_whereScoped hstore ht hscope hm hscoped]
  have hother : ∀ r, own t r = false → r ∉ E.targets db.tables m (args.whereTenant t) :=
    fun r hown htarget => Bool.false_ne_true (hown.symm.trans (own_of_mem_targets htarget))
  rcases hop with rfl | rfl <;> unfold Engine.query <;> dsimp only
  · rcases commit_tables _ db with htables | htables <;> rw [htables]
    · refine actions_keep_hidden h (.inl rfl) (fun r hr hown => ?_) hr hhidden
      exact List.mem_map.mpr ⟨r, hr, if_neg (hother r hown)⟩
    · exact hr
  · rcases commit_tables _ db with htables | htables <;> rw [htables]
    · refine actions_keep_hidden h (.inr rfl) (fun r hr hown => ?_) hr hhidden
      exact List.mem_filter.mpr ⟨hr, decide_eq_true (hother r hown)⟩
    · exact hr

omit [DecidableEq α] in
/-- A row that is created is the tenant's. -/
theorem lookup_forTenant (data : RecordData α N) (t : String) :
    (data.forTenant t).columns.lookup "tenantId" = some (.text t) := by
  unfold RecordData.forTenant
  rw [List.lookup_append, List.lookup_eq_none_iff.mpr, Option.none_or, List.lookup_cons_self]
  intro x hx
  have hne := of_decide_eq_true (List.mem_filter.mp hx).2
  simpa using Ne.symm hne

theorem own_fill_forTenant (data : RecordData α N) :
    own t (E.fill m (data.forTenant t).columns) = true :=
  decide_eq_true (E.fill_lookup _ _ _ _ (lookup_forTenant data t))

theorem added_refl (t m : String) (T : DbTables α) : Added t m T T :=
  ⟨fun _ _ hr => hr, fun _ _ hr hnew => absurd hr hnew⟩

theorem added_commit {rows : List (DbRow α)} (hrows : ∀ r ∈ rows, own t r = true)
    (result : Result α) (db : Database E.schema α) :
    Added t m db.tables
      (E.commit (setRows db.tables m (db.tables m ++ rows)) result db).2.tables := by
  rcases commit_tables result db with htables | htables <;> rw [htables]
  · refine ⟨fun m' r hr => ?_, fun m' r hr hnew => ?_⟩ <;> by_cases heq : m' = m
    · subst heq
      rw [setRows_self]
      exact List.mem_append_left _ hr
    · rwa [setRows_of_ne _ heq]
    · subst heq
      rw [setRows_self] at hr
      exact ⟨rfl, hrows r ((List.mem_append.mp hr).resolve_left hnew)⟩
    · rw [setRows_of_ne _ heq] at hr
      exact absurd hr hnew
  · exact added_refl t m db.tables

theorem added_createOne {data : RecordData α N} (hnested : data.nested = [])
    (db : Database E.schema α) :
    Added t m db.tables (E.createOne m args (data.forTenant t) db).2.tables := by
  unfold Engine.createOne
  rw [show (data.forTenant t).nested = [] from hnested]
  exact added_commit (fun r hr => List.mem_singleton.mp hr ▸ own_fill_forTenant data) _ db

theorem added_createAll (data : List (RecordData α N)) (db : Database E.schema α) :
    Added t m db.tables (E.createAll m args (data.map (·.forTenant t)) db).2.tables := by
  unfold Engine.createAll
  split_ifs
  · refine added_commit (fun r hr => ?_) _ db
    obtain ⟨d, hd, rfl⟩ := List.mem_map.mp (E.fresh_mem _ _ _ _ hr)
    obtain ⟨d, -, rfl⟩ := List.mem_map.mp hd
    exact own_fill_forTenant d
  · exact added_refl t m db.tables

theorem create_added (h : Inside E t m op args db.tables) (hop : op = .create ∨ op = .createMany)
    (hstore : getTenantId store = some t) (ht : t ≠ "") (hscope : isUnscoped store = false)
    (hm : m ∈ tenantModels E.schema) :
    Added t m db.tables (withTenantScope E store m op args db).2.tables := by
  have htruthy : truthy (some t) = some t := Option.filter_eq_some_iff.mpr ⟨rfl, decide_eq_true ht⟩
  have hscoped : op ∉ whereScoped ∧ op ≠ .findUnique ∧ op ≠ .findUniqueOrThrow := by
    rcases hop with rfl | rfl <;> decide
  unfold withTenantScope
  rw [hstore, htruthy]
  simp only [hscope, hm, hscoped, Bool.false_eq_true, not_true_eq_false, or_self, if_false]
  rcases hop with rfl | rfl <;> rcases hdata : args.data with _ | ⟨data⟩ | ⟨data⟩ <;>
    dsimp only [Engine.query]
  · rw [hdata]
    exact added_refl t m db.tables
  · exact added_createOne (h.nested rfl data hdata) db
  · rw [hdata]
    exact added_refl t m db.tables
  · rw [hdata]
    exact added_refl t m db.tables
  · exact added_createAll [data] db
  · exact added_createAll data db

end Scoped

/-! ### Subscriptions of one plan -/

/-- Plans are shared by the tenants, and know their subscriptions. -/
def planSchema : Schema :=
  [⟨"Plan", ["id"], [("subscriptions", ⟨"TenantSubscription", "id", "planId", true, false⟩)], [["id"]]⟩,
    ⟨"TenantSubscription", ["id", "tenantId", "planId"], [("plan", ⟨"Plan", "planId", "id", false, true⟩)],
      [["id"], ["tenantId"]]⟩]

/-- A client without limits, filters and defaults. -/
def planClient : Engine ℕ Empty Unit Unit Empty where
  schema := planSchema
  sat f := f.elim
  cut _ _ rows := rows.map Prod.snd
  cut_mem _ _ _ _ h := List.mem_map.mp h
  aggregate _ _ rows := .count rows.length
  limit _ := none
  change _ r := r
  fill _ columns := columns
  fill_lookup _ _ _ _ h := h
  fresh _ _ rows := rows
  fresh_mem _ _ _ _ h := h
  nested n := n.elim
  actions _ T' := T'
  actions_keep _ _ _ _ hkeep := hkeep
  accepts _ := true
  other _ _ _ db := (.error .validation, db)

def subscriptionRow (id tenantId : String) : DbRow ℕ :=
  [("id", .text id), ("tenantId", .text tenantId), ("planId", .text "starter")]

/-- A plan, and who has subscribed to it. -/
def planTables (subscriptions : List (DbRow ℕ)) : DbTables ℕ := fun m =>
  if m = "Plan" then [[("id", .text "starter")]]
  else if m = "TenantSubscription" then subscriptions else []

theorem uniqueKeys_twoCafes : UniqueKeys planSchema
    (planTables [subscriptionRow "s1" "cafe", subscriptionRow "s2" "diner"]) := by
  decide +kernel

theorem uniqueKeys_oneCafe :
    UniqueKeys planSchema (planTables [subscriptionRow "s1" "cafe"]) := by
  decide +kernel

def twoCafes : Database planClient.schema ℕ := ⟨_, uniqueKeys_twoCafes⟩

def oneCafe : Database planClient.schema ℕ := ⟨_, uniqueKeys_oneCafe⟩

/-- Subscriptions with these fields of their plan. -/
def planArgs (inner : Fields String (ColumnValue ℕ) (ColumnFilter ℕ Empty) Unit) :
    Args ℕ Empty Unit Unit Empty where
  key := []
  filter := none
  page := ⟨[], none, ()⟩
  projection := .including [] (.related "plan" .all ⟨[], none, ()⟩ (some []) inner .nil)
  data := none
  rest := ()

/-- How many subscriptions are shown of the plan of the first one. -/
def siblings (res : Except QueryError (Result ℕ)) : Option ℕ :=
  match res with
  | .ok (.records ((_, fields) :: _)) => match fields.lookup "plan" with
    | some (.record plan) => match plan.lookup "subscriptions" with
      | some (.list subscriptions) => some subscriptions.length
      | _ => none
    | _ => none
  | _ => none

/-- A plan belongs to no tenant. -/
theorem inside_planArgs (T : DbTables ℕ) :
    Inside planClient "cafe" "TenantSubscription" .findMany (planArgs .nil) T where
  filter _ _ _ _ := trivial
  page _ _ := ⟨nofun, nofun⟩
  fields _ r _ _ := by
    refine ⟨fun rel hrel => ?_, trivial⟩
    have hrel : some (⟨"Plan", "planId", "id", false, true⟩ : Queries.Relation String String) =
        some rel := hrel
    obtain rfl := Option.some.inj hrel
    exact ⟨fun _ _ => ⟨by unfold visible; rfl, trivial⟩,
      ⟨nofun, nofun⟩, fun _ _ => trivial⟩
  named hop := by cases hop
  referred hop := by rcases hop with hop | hop <;> cases hop
  nested hop := by cases hop

end StelloKitchens.TenantScope
