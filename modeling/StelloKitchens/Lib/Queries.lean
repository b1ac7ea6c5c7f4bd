import Mathlib.Data.List.Basic
import Mathlib.Tactic.Common

/-!
# Queries over related tables

The rows of tables are linked by their columns. A query filters the rows of a table, also by the rows
they are linked to, orders and cuts what is left, and selects of each row columns and linked rows.
What a query reads is what its filters, keys and selections come to along the links: where that is
visible to someone, the rows that are not have no bearing on the result.

## Main definitions

* `Relation`, `linked` — the rows that a row is linked to.
* `Where`, `OrderKey`, `Page`, `Fields`, `Query` — the parts of a query, and what they mean.
* `Agree` — tables with the same visible rows.
* `Query.Inside` — a query that reads only what is visible.

## Main results

* `Query.run_congr` — its result depends on the visible rows only.
-/

namespace Queries

variable {M C V F P : Type*}

/-! ### Tables -/

/-- The columns of a row that are not null. -/
abbrev Row (C V : Type*) := List (C × V)

abbrev Tables (M C V : Type*) := M → List (Row C V)

/-- Rows are linked where the column of one is the key of the other. -/
structure Relation (M C : Type*) where
  target : M
  column : C
  key : C
  /-- A row is linked to a list of others, and not to one at most. -/
  many : Bool
  /-- The column is a foreign key, and not the key of one. -/
  refers : Bool

/-- Tables with the same visible rows. -/
def Agree (visible : M → Row C V → Bool) (T T' : Tables M C V) : Prop :=
  ∀ m, (T m).filter (visible m) = (T' m).filter (visible m)

variable {visible : M → Row C V → Bool} {T T' : Tables M C V} {m : M} {r : Row C V}

/-- What is found among the visible rows only is found in both. -/
theorem Agree.filter_congr {p p' : Row C V → Bool} (h : Agree visible T T')
    (hp : ∀ r ∈ T m, p r = true → visible m r = true)
    (hp' : ∀ r ∈ T' m, p' r = true → visible m r = true)
    (hsame : ∀ r ∈ T m, r ∈ T' m → visible m r = true → p r = p' r) :
    (T m).filter p = (T' m).filter p' := by
  have hleft : (T m).filter p = ((T m).filter (visible m)).filter p := by
    rw [List.filter_filter]
    refine List.filter_congr fun r hr => ?_
    cases hpr : p r with
    | false => rfl
    | true => rw [hp r hr hpr, Bool.true_and]
  have hright : (T' m).filter p' = ((T' m).filter (visible m)).filter p' := by
    rw [List.filter_filter]
    refine List.filter_congr fun r hr => ?_
    cases hpr : p' r with
    | false => rfl
    | true => rw [hp' r hr hpr, Bool.true_and]
  rw [hleft, hright, ← h m]
  refine List.filter_congr fun r hr => ?_
  have hr' : r ∈ (T' m).filter (visible m) := h m ▸ hr
  rw [List.mem_filter] at hr hr'
  exact hsame r hr.1 hr'.1 hr.2

variable [DecidableEq C] [DecidableEq V]

def linked (T : Tables M C V) (rel : Relation M C) (r : Row C V) : List (Row C V) :=
  (T rel.target).filter fun r' =>
    (r.lookup rel.column).isSome && decide (r'.lookup rel.key = r.lookup rel.column)

theorem linked_congr (h : Agree visible T T') {rel : Relation M C}
    (hin : ∀ r' ∈ linked T rel r, visible rel.target r' = true)
    (hin' : ∀ r' ∈ linked T' rel r, visible rel.target r' = true) :
    linked T rel r = linked T' rel r :=
  h.filter_congr (fun r' hr' hp => hin r' (List.mem_filter.mpr ⟨hr', hp⟩))
    (fun r' hr' hp => hin' r' (List.mem_filter.mpr ⟨hr', hp⟩)) fun _ _ _ _ => rfl

/-! ### The parts of a query -/

/-- Which rows are asked for. -/
inductive Where (C F : Type*)
  | all
  | field (column : C) (filter : F)
  | and (a b : Where C F)
  | or (a b : Where C F)
  | not (a : Where C F)
  /-- A linked row is as asked. -/
  | related (relation : C) (a : Where C F)

/-- What rows are ordered by. -/
inductive OrderKey (C : Type*)
  | field (column : C)
  | count (relation : C)
  /-- The key of the linked row. -/
  | related (relation : C) (key : OrderKey C)

inductive KeyValue (V : Type*)
  | value (v : Option V)
  | count (n : ℕ)

/-- How rows are ordered and cut: from a row on, as these limits say. -/
structure Page (C V P : Type*) where
  keys : List (OrderKey C)
  cursor : Option (List (C × V))
  limits : P

/-- What is selected of a row. -/
inductive Fields (C V F P : Type*)
  | nil
  | field (column : C) (rest : Fields C V F P)
  /-- How many linked rows are as asked. -/
  | count (relation : C) (filter : Where C F) (rest : Fields C V F P)
  /-- The linked rows, each with these fields, and with all of its columns but the omitted ones if
  there are such. -/
  | related (relation : C) (filter : Where C F) (page : Page C V P) (omitted : Option (List C))
    (inner rest : Fields C V F P)

/-- What a field comes to. -/
inductive Output (C V : Type*)
  | value (v : Option V)
  | count (n : ℕ)
  | record (fields : List (C × Output C V))
  | null
  | list (records : List (Output C V))

/-- What the language leaves to its reader: the relations, what a filter says of a column, and how
ordered rows are cut. -/
structure Reader (M C V F P : Type*) where
  relation : M → C → Option (Relation M C)
  sat : F → Option V → Bool
  /-- Of rows with their keys; a cursor comes with the keys of its row, if there is one. -/
  cut : P → Option (Option (List (KeyValue V))) → List (List (KeyValue V) × Row C V) →
    List (Row C V)
  cut_mem : ∀ limits cursor rows r, r ∈ cut limits cursor rows → ∃ x ∈ rows, x.2 = r

variable (q : Reader M C V F P)

/-! ### Filters -/

def Where.holds (T : Tables M C V) : M → Row C V → Where C F → Bool
  | _, _, .all => true
  | _, r, .field column filter => q.sat filter (r.lookup column)
  | m, r, .and a b => a.holds T m r && b.holds T m r
  | m, r, .or a b => a.holds T m r || b.holds T m r
  | m, r, .not a => !a.holds T m r
  | m, r, .related relation a => match q.relation m relation with
    | none => false
    | some rel => (linked T rel r).any fun r' => a.holds T rel.target r'

/-- The links that a filter follows lead to what is visible. -/
def Where.Inside (visible : M → Row C V → Bool) (T : Tables M C V) :
    M → Row C V → Where C F → Prop
  | _, _, .all => True
  | _, _, .field _ _ => True
  | m, r, .and a b => a.Inside visible T m r ∧ b.Inside visible T m r
  | m, r, .or a b => a.Inside visible T m r ∧ b.Inside visible T m r
  | m, r, .not a => a.Inside visible T m r
  | m, r, .related relation a => ∀ rel, q.relation m relation = some rel → ∀ r' ∈ linked T rel r,
    visible rel.target r' = true ∧ a.Inside visible T rel.target r'

variable {q}

theorem Where.holds_congr (hagree : Agree visible T T') {a : Where C F}
    (h : a.Inside q visible T m r) (h' : a.Inside q visible T' m r) :
    a.holds q T m r = a.holds q T' m r := by
  induction a generalizing m r with
  | all => rfl
  | field column filter => rfl
  | and a b iha ihb => exact congrArg₂ (· && ·) (iha h.1 h'.1) (ihb h.2 h'.2)
  | or a b iha ihb => exact congrArg₂ (· || ·) (iha h.1 h'.1) (ihb h.2 h'.2)
  | not a iha => exact congrArg (!·) (iha h h')
  | related relation a iha =>
    unfold Where.holds
    cases hrel : q.relation m relation with
    | none => rfl
    | some rel =>
      have hin := h rel hrel
      have hin' := h' rel hrel
      have hlinked := linked_congr hagree (fun r' hr' => (hin r' hr').1) fun r' hr' =>
        (hin' r' hr').1
      dsimp only
      rw [← hlinked] at hin' ⊢
      rw [Bool.eq_iff_iff, List.any_eq_true, List.any_eq_true]
      refine exists_congr fun r' => and_congr_right fun hr' => ?_
      rw [iha (hin r' hr').2 (hin' r' hr').2]

/-! ### Orders and cuts -/

variable (q)

def OrderKey.value (T : Tables M C V) : M → Row C V → OrderKey C → KeyValue V
  | _, r, .field column => .value (r.lookup column)
  | m, r, .count relation => match q.relation m relation with
    | none => .count 0
    | some rel => .count (linked T rel r).length
  | m, r, .related relation key => match q.relation m relation with
    | none => .value none
    | some rel => match (linked T rel r).head? with
      | none => .value none
      | some r' => key.value T rel.target r'

def OrderKey.Inside (visible : M → Row C V → Bool) (T : Tables M C V) :
    M → Row C V → OrderKey C → Prop
  | _, _, .field _ => True
  | m, r, .count relation => ∀ rel, q.relation m relation = some rel → ∀ r' ∈ linked T rel r,
    visible rel.target r' = true
  | m, r, .related relation key => ∀ rel, q.relation m relation = some rel →
    ∀ r' ∈ linked T rel r, visible rel.target r' = true ∧ key.Inside visible T rel.target r'

/-- The row has these values. -/
def Row.named (values : List (C × V)) (r : Row C V) : Bool :=
  values.all fun x => decide (r.lookup x.1 = some x.2)

def Page.keysOf (T : Tables M C V) (m : M) (page : Page C V P) (r : Row C V) : List (KeyValue V) :=
  page.keys.map fun key => key.value q T m r

/-- The rows that are left of these. -/
def Page.rows (T : Tables M C V) (m : M) (page : Page C V P) (rows : List (Row C V)) :
    List (Row C V) :=
  q.cut page.limits (page.cursor.map fun cursor =>
      ((T m).filter (Row.named cursor)).head?.map (page.keysOf q T m))
    (rows.map fun r => (page.keysOf q T m r, r))

/-- The row that the cursor names is visible, and what the keys come to. -/
structure Page.Inside (visible : M → Row C V → Bool) (T : Tables M C V) (m : M) (page : Page C V P)
    (rows : List (Row C V)) : Prop where
  keys : ∀ key ∈ page.keys, ∀ r ∈ rows, key.Inside q visible T m r
  cursor : ∀ cursor, page.cursor = some cursor → ∀ r ∈ T m, Row.named cursor r = true →
    visible m r = true ∧ ∀ key ∈ page.keys, key.Inside q visible T m r

variable {q}

theorem OrderKey.value_congr (hagree : Agree visible T T') {key : OrderKey C}
    (h : key.Inside q visible T m r) (h' : key.Inside q visible T' m r) :
    key.value q T m r = key.value q T' m r := by
  induction key generalizing m r with
  | field column => rfl
  | count relation =>
    unfold OrderKey.value
    cases hrel : q.relation m relation with
    | none => rfl
    | some rel => exact congrArg (KeyValue.count ·.length) (linked_congr hagree (h rel hrel) (h' rel hrel))
  | related relation key ih =>
    unfold OrderKey.value
    cases hrel : q.relation m relation with
    | none => rfl
    | some rel =>
      have hin := h rel hrel
      have hin' := h' rel hrel
      have hlinked := linked_congr hagree (fun r' hr' => (hin r' hr').1) fun r' hr' =>
        (hin' r' hr').1
      dsimp only
      rw [← hlinked] at hin' ⊢
      cases hhead : (linked T rel r).head? with
      | none => rfl
      | some r' =>
        have hr' := List.mem_of_mem_head? hhead
        exact ih (hin r' hr').2 (hin' r' hr').2

theorem Page.mem_of_mem_rows {page : Page C V P} {rows : List (Row C V)}
    (h : r ∈ page.rows q T m rows) : r ∈ rows := by
  obtain ⟨x, hx, rfl⟩ := q.cut_mem _ _ _ _ h
  obtain ⟨r', hr', rfl⟩ := List.mem_map.mp hx
  exact hr'

theorem Page.keysOf_congr (hagree : Agree visible T T') {page : Page C V P}
    (h : ∀ key ∈ page.keys, key.Inside q visible T m r)
    (h' : ∀ key ∈ page.keys, key.Inside q visible T' m r) :
    page.keysOf q T m r = page.keysOf q T' m r :=
  List.map_congr_left fun key hkey => OrderKey.value_congr hagree (h key hkey) (h' key hkey)

theorem Page.rows_congr (hagree : Agree visible T T') {page : Page C V P} {rows : List (Row C V)}
    (h : page.Inside q visible T m rows) (h' : page.Inside q visible T' m rows) :
    page.rows q T m rows = page.rows q T' m rows := by
  unfold Page.rows
  congr 1
  · cases hcursor : page.cursor with
    | none => rfl
    | some cursor =>
      have hfound : (T m).filter (Row.named cursor) = (T' m).filter (Row.named cursor) :=
        hagree.filter_congr (fun r hr hp => (h.cursor cursor hcursor r hr hp).1)
          (fun r hr hp => (h'.cursor cursor hcursor r hr hp).1) fun _ _ _ _ => rfl
      simp only [Option.map_some]
      cases hhead : ((T m).filter (Row.named cursor)).head? with
      | none => rw [← hfound, hhead]; rfl
      | some r =>
        have hr := List.mem_of_mem_head? hhead
        have hr' := hfound ▸ hr
        rw [List.mem_filter] at hr hr'
        rw [← hfound, hhead, Option.map_some, Option.map_some,
          Page.keysOf_congr hagree (h.cursor cursor hcursor r hr.1 hr.2).2
            (h'.cursor cursor hcursor r hr'.1 hr'.2).2]
  · refine List.map_congr_left fun r hr => ?_
    rw [Page.keysOf_congr hagree (fun key hkey => h.keys key hkey r hr) fun key hkey =>
      h'.keys key hkey r hr]

/-! ### Selections -/

variable (q)

/-- All columns of a row but the omitted ones. -/
def columnsOf (omitted : Option (List C)) (r : Row C V) : List (C × Output C V) :=
  match omitted with
  | none => []
  | some omitted => (r.filter fun x => decide (x.1 ∉ omitted)).map fun x => (x.1, .value (some x.2))

/-- The linked rows that are as asked, ordered and cut. -/
def linkedRows (T : Tables M C V) (rel : Relation M C) (r : Row C V) (filter : Where C F)
    (page : Page C V P) : List (Row C V) :=
  page.rows q T rel.target ((linked T rel r).filter (fun r => filter.holds q T rel.target r))

def Fields.output (T : Tables M C V) : M → Row C V → Fields C V F P → List (C × Output C V)
  | _, _, .nil => []
  | m, r, .field column rest => (column, .value (r.lookup column)) :: rest.output T m r
  | m, r, .count relation filter rest => match q.relation m relation with
    | none => rest.output T m r
    | some rel =>
      (relation, .count ((linked T rel r).filter (fun r => filter.holds q T rel.target r)).length) ::
        rest.output T m r
  | m, r, .related relation filter page omitted inner rest => match q.relation m relation with
    | none => rest.output T m r
    | some rel =>
      let records := (linkedRows q T rel r filter page).map fun r' =>
        .record (columnsOf omitted r' ++ inner.output T rel.target r')
      (relation, if rel.many then .list records else records.head?.getD .null) :: rest.output T m r

/-- The links that a filter of linked rows follows lead to what is visible, from the first on. -/
def LinkedInside (visible : M → Row C V → Bool) (T : Tables M C V) (rel : Relation M C) (r : Row C V)
    (filter : Where C F) : Prop :=
  ∀ r' ∈ linked T rel r, visible rel.target r' = true ∧ filter.Inside q visible T rel.target r'

def Fields.Inside (visible : M → Row C V → Bool) (T : Tables M C V) :
    M → Row C V → Fields C V F P → Prop
  | _, _, .nil => True
  | m, r, .field _ rest => rest.Inside visible T m r
  | m, r, .count relation filter rest =>
    (∀ rel, q.relation m relation = some rel → LinkedInside q visible T rel r filter) ∧
      rest.Inside visible T m r
  | m, r, .related relation filter page _ inner rest =>
    (∀ rel, q.relation m relation = some rel → LinkedInside q visible T rel r filter ∧
      page.Inside q visible T rel.target
        ((linked T rel r).filter (fun r => filter.holds q T rel.target r)) ∧
      ∀ r' ∈ linkedRows q T rel r filter page, inner.Inside visible T rel.target r') ∧
      rest.Inside visible T m r

variable {q}

theorem LinkedInside.filter_congr (hagree : Agree visible T T') {rel : Relation M C}
    {filter : Where C F} (h : LinkedInside q visible T rel r filter)
    (h' : LinkedInside q visible T' rel r filter) :
    (linked T rel r).filter (fun r => filter.holds q T rel.target r) =
      (linked T' rel r).filter (fun r => filter.holds q T' rel.target r) := by
  have hlinked := linked_congr hagree (fun r' hr' => (h r' hr').1) fun r' hr' => (h' r' hr').1
  unfold LinkedInside at h'
  rw [← hlinked] at h' ⊢
  exact List.filter_congr fun r' hr' => Where.holds_congr hagree (h r' hr').2 (h' r' hr').2

theorem linkedRows_congr (hagree : Agree visible T T') {rel : Relation M C} {filter : Where C F}
    {page : Page C V P} (h : LinkedInside q visible T rel r filter)
    (h' : LinkedInside q visible T' rel r filter)
    (hpage : page.Inside q visible T rel.target
      ((linked T rel r).filter (fun r => filter.holds q T rel.target r)))
    (hpage' : page.Inside q visible T' rel.target
      ((linked T' rel r).filter (fun r => filter.holds q T' rel.target r))) :
    linkedRows q T rel r filter page = linkedRows q T' rel r filter page := by
  have hfilter := h.filter_congr hagree h'
  unfold linkedRows
  rw [← hfilter] at hpage' ⊢
  exact Page.rows_congr hagree hpage hpage'

theorem Fields.output_congr (hagree : Agree visible T T') {fields : Fields C V F P}
    (h : fields.Inside q visible T m r) (h' : fields.Inside q visible T' m r) :
    fields.output q T m r = fields.output q T' m r := by
  induction fields generalizing m r with
  | nil => rfl
  | field column rest ih => exact congrArg (List.cons _) (ih h h')
  | count relation filter rest ih =>
    unfold Fields.output
    cases hrel : q.relation m relation with
    | none => exact ih h.2 h'.2
    | some rel =>
      dsimp only
      rw [(h.1 rel hrel).filter_congr hagree (h'.1 rel hrel), ih h.2 h'.2]
  | related relation filter page omitted inner rest ihinner ih =>
    unfold Fields.output
    cases hrel : q.relation m relation with
    | none => exact ih h.2 h'.2
    | some rel =>
      obtain ⟨hlinked, hpage, hinner⟩ := h.1 rel hrel
      obtain ⟨hlinked', hpage', hinner'⟩ := h'.1 rel hrel
      have hrows := linkedRows_congr hagree hlinked hlinked' hpage hpage'
      have hrecords : (linkedRows q T rel r filter page).map (fun r' => Output.record
            (columnsOf omitted r' ++ inner.output q T rel.target r')) =
          (linkedRows q T' rel r filter page).map fun r' => Output.record
            (columnsOf omitted r' ++ inner.output q T' rel.target r') := by
        rw [← hrows] at hinner' ⊢
        exact List.map_congr_left fun r' hr' => by rw [ihinner (hinner r' hr') (hinner' r' hr')]
      dsimp only
      rw [hrecords, ih h.2 h'.2]

omit [DecidableEq V] in
theorem lookup_columnsOf (omitted : List C) (r : Row C V) (c : C) :
    (columnsOf (some omitted) r).lookup c =
      if c ∈ omitted then none else (r.lookup c).map fun v => .value (some v) := by
  induction r with
  | nil => simp [columnsOf]
  | cons x r ih =>
    obtain ⟨c', v⟩ := x
    dsimp only [columnsOf] at ih ⊢
    by_cases hc : c = c'
    · subst hc
      by_cases homitted : c ∈ omitted
      · rw [if_pos homitted] at ih ⊢
        rwa [List.filter_cons_of_neg (by simpa using homitted)]
      · rw [if_neg homitted, List.filter_cons_of_pos (by simpa using homitted), List.map_cons,
          List.lookup_cons_self, List.lookup_cons_self, Option.map_some]
    · have hne : (c == c') = false := beq_false_of_ne hc
      rw [List.lookup_cons, hne]
      by_cases homitted : c' ∈ omitted
      · rwa [List.filter_cons_of_neg (by simpa using homitted)]
      · rwa [List.filter_cons_of_pos (by simpa using homitted), List.map_cons, List.lookup_cons, hne]

/-- A value among the fields is the row's. -/
theorem Fields.eq_lookup_of_output {fields : Fields C V F P} {c : C} {v : Option V}
    (h : (fields.output q T m r).lookup c = some (.value v)) : v = r.lookup c := by
  induction fields with
  | nil => cases h
  | field column rest ih =>
    simp only [Fields.output, List.lookup_cons] at h
    split at h
    · rename_i hc
      rw [eq_of_beq hc]
      exact (Output.value.inj (Option.some.inj h)).symm
    · exact ih h
  | count relation filter rest ih =>
    simp only [Fields.output] at h
    cases hrel : q.relation m relation with
    | none =>
      rw [hrel] at h
      exact ih h
    | some rel =>
      simp only [hrel, List.lookup_cons] at h
      split at h
      · cases h
      · exact ih h
  | related relation filter page omitted inner rest _ ih =>
    simp only [Fields.output] at h
    cases hrel : q.relation m relation with
    | none =>
      rw [hrel] at h
      exact ih h
    | some rel =>
      simp only [hrel, List.lookup_cons] at h
      split at h
      · cases hmany : rel.many with
        | true =>
          rw [hmany] at h
          cases h
        | false =>
          rw [hmany, if_neg Bool.false_ne_true] at h
          cases hrows : linkedRows q T rel r filter page <;> rw [hrows] at h <;> cases h
      · exact ih h

/-! ### Queries -/

/-- The rows of a table that are as asked, ordered and cut, and what is selected of each. -/
structure Query (C V F P : Type*) where
  filter : Where C F
  page : Page C V P
  omitted : Option (List C)
  fields : Fields C V F P

variable (q)

/-- What a query selects of a row. -/
def Query.output (T : Tables M C V) (m : M) (query : Query C V F P) (r : Row C V) :
    List (C × Output C V) :=
  columnsOf query.omitted r ++ query.fields.output q T m r

def Query.rows (T : Tables M C V) (m : M) (query : Query C V F P) : List (Row C V) :=
  query.page.rows q T m ((T m).filter (fun r => query.filter.holds q T m r))

/-- The rows, each with what is selected of it. -/
def Query.run (T : Tables M C V) (m : M) (query : Query C V F P) :
    List (Row C V × List (C × Output C V)) :=
  (query.rows q T m).map fun r => (r, query.output q T m r)

/-- The query reads only what is visible: rows that are not visible are not as asked, and from those
that are it is led to visible ones. -/
structure Query.Inside (visible : M → Row C V → Bool) (T : Tables M C V) (m : M)
    (query : Query C V F P) : Prop where
  asked : ∀ r ∈ T m, query.filter.holds q T m r = true → visible m r = true
  filter : ∀ r ∈ T m, visible m r = true → query.filter.Inside q visible T m r
  page : query.page.Inside q visible T m ((T m).filter (fun r => query.filter.holds q T m r))
  fields : ∀ r ∈ query.rows q T m, query.fields.Inside q visible T m r

variable {q}

theorem Query.filter_congr (hagree : Agree visible T T') {query : Query C V F P}
    (h : query.Inside q visible T m) (h' : query.Inside q visible T' m) :
    (T m).filter (fun r => query.filter.holds q T m r) = (T' m).filter (fun r => query.filter.holds q T' m r) :=
  hagree.filter_congr h.asked h'.asked fun r hr hr' hvisible =>
    Where.holds_congr hagree (h.filter r hr hvisible) (h'.filter r hr' hvisible)

theorem Query.rows_congr (hagree : Agree visible T T') {query : Query C V F P}
    (h : query.Inside q visible T m) (h' : query.Inside q visible T' m) :
    query.rows q T m = query.rows q T' m := by
  have hpage' := h'.page
  have hfilter := Query.filter_congr hagree h h'
  unfold Query.rows
  rw [← hfilter] at hpage' ⊢
  exact Page.rows_congr hagree h.page hpage'

theorem Query.mem_of_mem_rows {query : Query C V F P} (h : r ∈ query.rows q T m) :
    r ∈ T m ∧ query.filter.holds q T m r = true :=
  List.mem_filter.mp (Page.mem_of_mem_rows h)

/-- A value that a query shows of a row is the row's. -/
theorem Query.eq_lookup_of_output {query : Query C V F P} {c : C} {v : Option V}
    (h : (query.output q T m r).lookup c = some (.value v)) : v = r.lookup c := by
  unfold Query.output at h
  rw [List.lookup_append, Option.or_eq_some_iff] at h
  rcases h with h | ⟨-, h⟩
  · cases homitted : query.omitted with
    | none =>
      rw [homitted] at h
      cases h
    | some omitted =>
      rw [homitted, lookup_columnsOf] at h
      split at h
      · cases h
      · obtain ⟨x, hx, heq⟩ := Option.map_eq_some_iff.mp h
        rw [hx]
        exact (Output.value.inj heq).symm
  · exact Fields.eq_lookup_of_output h

/-- Rows that are not visible have no bearing on the result of a query that reads only what is. -/
theorem Query.run_congr (hagree : Agree visible T T') {query : Query C V F P}
    (h : query.Inside q visible T m) (h' : query.Inside q visible T' m) :
    query.run q T m = query.run q T' m := by
  have hrows := Query.rows_congr hagree h h'
  have hfields' := h'.fields
  unfold Query.run Query.output
  rw [← hrows] at hfields' ⊢
  refine List.map_congr_left fun r hr => ?_
  rw [Fields.output_congr hagree (h.fields r hr) (hfields' r hr)]

end Queries
