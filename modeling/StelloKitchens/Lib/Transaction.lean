import StelloKitchens.Lib.Checked
import StelloKitchens.Lib.KeyedTable
import StelloKitchens.Lib.Machine

/-!
# Transactions that run side by side

A transaction is the tree of its statements: it takes locks, reads, writes, draws fresh numbers,
and ends by committing or by rolling back. Alone it is a function of the database. Side by side
with others it runs under *read committed*: a statement sees what is committed when it runs, with
the transaction's own writes on top; the writes are committed together at the end; a lock is held
until then, and a transaction that asks for a lock another one holds waits.

A discipline says what holds of the committed database and what others may do to it while one
holds certain locks. A transaction is safe under a discipline when every statement can be taken
with knowledge that stays true whatever the others do, and what it commits keeps the discipline.

## Main definitions

* `Tx`, `Tx.exec` — transactions, and what one does alone.
* `Tx.Does`, `Tx.Writes` — what a transaction writes, whatever it reads.
* `Tx.onPart` — a transaction on a part of the database.
* `Discipline`, `Discipline.wp`, `Discipline.Safe` — safety, statement by statement.

## Main results

* `Tx.exec_bind` — a transaction after another.
* `Discipline.wp_bind` — safety of a transaction after another.
-/

open Checked

/-- The statements a transaction has still to run, over databases `σ`, locks `κ` and refusals
`ε`. -/
inductive Tx (σ κ ε α : Type) : Type
  | done (a : α)
  | fail (e : ε)
  /-- Take a lock, once no one else holds it. -/
  | lock (k : κ) (next : Tx σ κ ε α)
  | read (next : σ → Tx σ κ ε α)
  | write (f : σ → σ) (next : Tx σ κ ε α)
  /-- Draw a number that no one has drawn before. -/
  | fresh (next : ℕ → Tx σ κ ε α)

namespace Tx

variable {σ κ ε α β : Type}

/-- One transaction, then another that depends on its result. -/
protected def bind : Tx σ κ ε α → (α → Tx σ κ ε β) → Tx σ κ ε β
  | done a, g => g a
  | fail e, _ => .fail e
  | lock k t, g => .lock k (t.bind g)
  | read t, g => .read fun s => (t s).bind g
  | write f t, g => .write f (t.bind g)
  | fresh t, g => .fresh fun n => (t n).bind g

instance : Monad (Tx σ κ ε) where
  pure := .done
  bind := Tx.bind

/-- A computation that may refuse, as a part of a transaction. -/
def ofExcept : Except ε α → Tx σ κ ε α
  | .ok a => .done a
  | .error e => .fail e

instance : MonadLift (Except ε) (Tx σ κ ε) := ⟨ofExcept⟩

/-- Go on if a condition holds. -/
def check (c : Prop) [Decidable c] (e : ε) : Tx σ κ ε Unit := ofExcept (ensure c e)

/-- Go on with the value that is there. -/
def require (o : Option α) (e : ε) : Tx σ κ ε α := ofExcept (orThrow o e)

/-- Do something only if a condition holds. -/
def whenever (c : Prop) [Decidable c] (t : Tx σ κ ε Unit) : Tx σ κ ε Unit :=
  if c then t else .done ()

/-- Take a lock. -/
def acquire (k : κ) : Tx σ κ ε Unit := .lock k (.done ())

/-- Take locks one after another. -/
def acquireAll : List κ → Tx σ κ ε Unit
  | [] => .done ()
  | k :: ks => .lock k (acquireAll ks)

/-- What a statement reads of the database. -/
def query (f : σ → α) : Tx σ κ ε α := .read fun s => .done (f s)

/-- Write. -/
def update (f : σ → σ) : Tx σ κ ε Unit := .write f (.done ())

/-- Draw a fresh number. -/
def draw : Tx σ κ ε ℕ := .fresh .done

/-- Write to a row that satisfies a condition when the statement sees it, and still does once it
is locked; whether it was written. -/
def updateWhere (k : κ) (cond : σ → Bool) (f : σ → σ) : Tx σ κ ε Bool :=
  .read fun s => bif cond s then
    .lock k (.read fun s => bif cond s then .write f (.done true) else .done false)
  else .done false

/-! ### A transaction alone -/

/-- What a transaction does alone, on a database and the next number to draw. -/
def exec : Tx σ κ ε α → σ × ℕ → Except ε (α × σ × ℕ)
  | done a, s => .ok (a, s)
  | fail e, _ => .error e
  | lock _ t, s => t.exec s
  | read t, s => (t s.1).exec s
  | write f t, s => t.exec (f s.1, s.2)
  | fresh t, s => (t s.2).exec (s.1, s.2 + 1)

@[simp] theorem exec_bind (t : Tx σ κ ε α) (g : α → Tx σ κ ε β) (s : σ × ℕ) :
    (t >>= g).exec s = t.exec s >>= fun r => (g r.1).exec r.2 := by
  change (t.bind g).exec s = _
  induction t generalizing s with
  | done a => rfl
  | fail e => rfl
  | lock k t ih => exact ih s
  | read t ih => exact ih s.1 s
  | write f t ih => exact ih (f s.1, s.2)
  | fresh t ih => exact ih s.2 (s.1, s.2 + 1)

theorem exec_ofExcept_eq_ok {x : Except ε α} {s : σ × ℕ} {r : α × σ × ℕ} :
    (ofExcept x : Tx σ κ ε α).exec s = .ok r ↔ ∃ a, x = .ok a ∧ r = (a, s) := by
  cases x with
  | ok a =>
    refine ⟨fun h => ⟨a, rfl, (Except.ok.inj h).symm⟩, ?_⟩
    rintro ⟨b, hb, rfl⟩
    cases hb
    rfl
  | error e =>
    refine ⟨fun h => (by cases h), ?_⟩
    rintro ⟨b, hb, -⟩
    cases hb

theorem bind_done (t : Tx σ κ ε α) : t.bind .done = t := by
  induction t with
  | done a => rfl
  | fail e => rfl
  | lock k t ih => exact congrArg (lock k) ih
  | read t ih => exact congrArg read (funext ih)
  | write g t ih => exact congrArg (write g) ih
  | fresh t ih => exact congrArg fresh (funext ih)

theorem bind_assoc {γ : Type} (t : Tx σ κ ε α) (g : α → Tx σ κ ε β) (h : β → Tx σ κ ε γ) :
    (t.bind g).bind h = t.bind fun a => (g a).bind h := by
  induction t with
  | done a => rfl
  | fail e => rfl
  | lock k t ih => exact congrArg (lock k) ih
  | read t ih => exact congrArg read (funext ih)
  | write f t ih => exact congrArg (write f) ih
  | fresh t ih => exact congrArg fresh (funext ih)

instance : LawfulMonad (Tx σ κ ε) :=
  LawfulMonad.mk' (Tx σ κ ε) bind_done (fun _ _ => rfl) bind_assoc

/-! ### What a transaction writes -/

/-- Whatever it reads, a transaction that ends well has made writes and returns a result that are
so related; it draws no number. -/
def Does : Tx σ κ ε α → ((σ → σ) → α → Prop) → Prop
  | done a, W => W id a
  | fail _, _ => True
  | lock _ t, W => t.Does W
  | read t, W => ∀ s, (t s).Does W
  | write g t, W => t.Does fun w a => W (w ∘ g) a
  | fresh _, _ => False

section Does

variable {W : (σ → σ) → α → Prop}

theorem Does.mono {W' : (σ → σ) → α → Prop} {t : Tx σ κ ε α} (h : t.Does W)
    (himp : ∀ w a, W w a → W' w a) : t.Does W' := by
  induction t generalizing W W' with
  | done a => exact himp id a h
  | fail e => trivial
  | lock k t ih => exact ih h himp
  | read t ih => exact fun s => ih s (h s) himp
  | write g t ih => exact ih h fun w a => himp (w ∘ g) a
  | fresh t ih => exact h

@[simp] theorem does_pure (a : α) : (pure a : Tx σ κ ε α).Does W ↔ W id a := Iff.rfl

@[simp] theorem does_bind (t : Tx σ κ ε α) (g : α → Tx σ κ ε β) {V : (σ → σ) → β → Prop} :
    (t >>= g).Does V ↔ t.Does fun w a => (g a).Does fun w' b => V (w' ∘ w) b := by
  change (t.bind g).Does V ↔ _
  induction t generalizing V with
  | done a => rfl
  | fail e => rfl
  | lock k t ih => exact ih
  | read t ih => exact forall_congr' fun s => ih s
  | write f t ih => exact ih
  | fresh t ih => rfl

@[simp] theorem does_map (t : Tx σ κ ε α) (g : α → β) {V : (σ → σ) → β → Prop} :
    (g <$> t).Does V ↔ t.Does fun w a => V w (g a) := by
  rw [map_eq_pure_bind, does_bind]
  rfl

theorem does_whenever {c : Prop} [Decidable c] {t : Tx σ κ ε Unit} {V : (σ → σ) → Unit → Prop}
    (h : c → t.Does V) (hid : V id ()) : (whenever c t).Does V := by
  unfold whenever
  split
  · exact h ‹c›
  · exact hid

theorem does_forM {γ : Type} {o : Option γ} {g : γ → Tx σ κ ε Unit} {V : (σ → σ) → Unit → Prop}
    (h : ∀ c, o = some c → (g c).Does V) (hid : V id ()) : (o.forM g).Does V := by
  cases o with
  | none => exact hid
  | some c => exact h c rfl

@[simp] theorem does_acquire (k : κ) {V : (σ → σ) → Unit → Prop} :
    (acquire k : Tx σ κ ε Unit).Does V ↔ V id () := Iff.rfl

@[simp] theorem does_query (g : σ → α) :
    (query g : Tx σ κ ε α).Does W ↔ ∀ s, W id (g s) := Iff.rfl

@[simp] theorem does_update (g : σ → σ) {V : (σ → σ) → Unit → Prop} :
    (update g : Tx σ κ ε Unit).Does V ↔ V g () := Iff.rfl

@[simp] theorem does_ofExcept (x : Except ε α) :
    (ofExcept x : Tx σ κ ε α).Does W ↔ ∀ a, x = .ok a → W id a := by
  cases x with
  | ok a =>
    constructor
    · intro h b hb
      cases hb
      exact h
    · exact fun h => h a rfl
  | error e =>
    constructor
    · intro _ b hb
      cases hb
    · exact fun _ => trivial

@[simp] theorem does_liftM (x : Except ε α) :
    (liftM x : Tx σ κ ε α).Does W ↔ ∀ a, x = .ok a → W id a := does_ofExcept x

@[simp] theorem does_check (c : Prop) [Decidable c] (e : ε) {V : (σ → σ) → Unit → Prop} :
    (check c e : Tx σ κ ε Unit).Does V ↔ (c → V id ()) := by
  rw [check, does_ofExcept]
  exact ⟨fun h hc => h () (ensure_eq_ok.mpr hc), fun h _ hu => h (ensure_eq_ok.mp hu)⟩

@[simp] theorem does_require (o : Option α) (e : ε) :
    (require o e : Tx σ κ ε α).Does W ↔ ∀ a, o = some a → W id a := by
  simp only [require, does_ofExcept, orThrow_eq_ok]

theorem does_updateWhere {k : κ} {cond : σ → Bool} {g : σ → σ} {V : (σ → σ) → Prop} (hid : V id)
    (hg : V g) : (updateWhere k cond g : Tx σ κ ε Bool).Does fun w _ => V w := by
  intro s
  beta_reduce
  cases cond s with
  | false => exact hid
  | true =>
    intro s
    beta_reduce
    cases cond s with
    | false => exact hid
    | true => exact hg

/-- A loop whose steps all write what is allowed writes what is allowed, if that is closed under
composition. -/
theorem does_foldlM {γ : Type} {V : (σ → σ) → Prop} (hid : V id)
    (hcomp : ∀ w w', V w → V w' → V (w' ∘ w)) {g : β → γ → Tx σ κ ε β} {l : List γ}
    (hstep : ∀ b, ∀ c ∈ l, (g b c).Does fun w _ => V w) (b : β) :
    (l.foldlM g b).Does fun w _ => V w := by
  induction l generalizing b with
  | nil => exact hid
  | cons c l ih =>
    rw [List.foldlM_cons, does_bind]
    refine (hstep b c List.mem_cons_self).mono fun w b' hw => ?_
    refine (ih (fun b c hc => hstep b c (List.mem_cons_of_mem _ hc)) b').mono fun w' _ hw' => ?_
    exact hcomp w w' hw hw'

theorem does_mapM {γ : Type} {V : (σ → σ) → Prop} (hid : V id)
    (hcomp : ∀ w w', V w → V w' → V (w' ∘ w)) {g : γ → Tx σ κ ε β} {l : List γ}
    (hstep : ∀ c ∈ l, (g c).Does fun w _ => V w) : (l.mapM g).Does fun w _ => V w := by
  induction l with
  | nil =>
    rw [List.mapM_nil]
    exact hid
  | cons c l ih =>
    rw [List.mapM_cons, does_bind]
    refine (hstep c List.mem_cons_self).mono fun w b hw => ?_
    rw [does_bind]
    refine (ih fun c hc => hstep c (List.mem_cons_of_mem _ hc)).mono fun w' bs hw' => ?_
    exact hcomp w w' hw hw'

/-- What a transaction does alone. -/
theorem Does.exec {t : Tx σ κ ε α} (h : t.Does W) {s s' : σ × ℕ} {a : α}
    (hexec : t.exec s = .ok (a, s')) : ∃ w, W w a ∧ s'.1 = w s.1 := by
  induction t generalizing W s with
  | done b =>
    cases hexec
    exact ⟨id, h, rfl⟩
  | fail e => cases hexec
  | lock k t ih => exact ih h hexec
  | read t ih => exact ih s.1 (h s.1) hexec
  | write g t ih =>
    obtain ⟨w, hW, hs⟩ := ih h hexec
    exact ⟨w ∘ g, hW, hs⟩
  | fresh t ih => exact h.elim

end Does

/-! ### What every write does -/

/-- Every write of a transaction is of this kind. -/
def Writes (V : (σ → σ) → Prop) : Tx σ κ ε α → Prop
  | done _ => True
  | fail _ => True
  | lock _ t => t.Writes V
  | read t => ∀ s, (t s).Writes V
  | write f t => V f ∧ t.Writes V
  | fresh t => ∀ n, (t n).Writes V

section Writes

variable {V : (σ → σ) → Prop}

theorem Writes.mono {W : (σ → σ) → Prop} {t : Tx σ κ ε α} (h : t.Writes V)
    (himp : ∀ f, V f → W f) : t.Writes W := by
  induction t with
  | done a => trivial
  | fail e => trivial
  | lock k t ih => exact ih h
  | read t ih => exact fun s => ih s (h s)
  | write f t ih => exact ⟨himp f h.1, ih h.2⟩
  | fresh t ih => exact fun n => ih n (h n)

theorem Writes.bind {t : Tx σ κ ε α} {g : α → Tx σ κ ε β} (h : t.Writes V)
    (hg : ∀ a, (g a).Writes V) : (t >>= g).Writes V := by
  change (t.bind g).Writes V
  induction t with
  | done a => exact hg a
  | fail e => trivial
  | lock k t ih => exact ih h
  | read t ih => exact fun s => ih s (h s)
  | write f t ih => exact ⟨h.1, ih h.2⟩
  | fresh t ih => exact fun n => ih n (h n)

/-- What follows a part need only make such writes for the results that the part can have. -/
theorem Writes.bind_does {W : (σ → σ) → α → Prop} {t : Tx σ κ ε α} {g : α → Tx σ κ ε β}
    (ht : t.Writes V) (hdoes : t.Does W) (hg : ∀ w a, W w a → (g a).Writes V) :
    (t >>= g).Writes V := by
  change (t.bind g).Writes V
  induction t generalizing W with
  | done a => exact hg id a hdoes
  | fail e => trivial
  | lock k t ih => exact ih ht hdoes hg
  | read t ih => exact fun s => ih s (ht s) (hdoes s) hg
  | write f t ih => exact ⟨ht.1, ih ht.2 hdoes fun w a => hg (w ∘ f) a⟩
  | fresh t ih => exact hdoes.elim

theorem writes_pure (a : α) : (pure a : Tx σ κ ε α).Writes V := trivial

theorem writes_map {t : Tx σ κ ε α} {g : α → β} (h : t.Writes V) : (g <$> t).Writes V :=
  map_eq_pure_bind g t ▸ h.bind fun _ => writes_pure _

theorem writes_acquire (k : κ) : (acquire k : Tx σ κ ε Unit).Writes V := trivial

theorem writes_acquireAll (ks : List κ) : (acquireAll ks : Tx σ κ ε Unit).Writes V := by
  induction ks with
  | nil => trivial
  | cons k ks ih => exact ih

theorem writes_query (g : σ → α) : (query g : Tx σ κ ε α).Writes V := fun _ => trivial

theorem writes_draw : (draw : Tx σ κ ε ℕ).Writes V := fun _ => trivial

theorem writes_update {f : σ → σ} (h : V f) : (update f : Tx σ κ ε Unit).Writes V := ⟨h, trivial⟩

theorem writes_ofExcept (x : Except ε α) : (ofExcept x : Tx σ κ ε α).Writes V := by
  cases x <;> trivial

theorem writes_liftM (x : Except ε α) : (liftM x : Tx σ κ ε α).Writes V := writes_ofExcept x

theorem writes_check (c : Prop) [Decidable c] (e : ε) : (check c e : Tx σ κ ε Unit).Writes V :=
  writes_ofExcept _

theorem writes_require (o : Option α) (e : ε) : (require o e : Tx σ κ ε α).Writes V :=
  writes_ofExcept _

theorem writes_whenever {c : Prop} [Decidable c] {t : Tx σ κ ε Unit} (h : t.Writes V) :
    (whenever c t).Writes V := by
  unfold whenever
  split
  · exact h
  · trivial

theorem writes_updateWhere {k : κ} {cond : σ → Bool} {f : σ → σ} (h : V f) :
    (updateWhere k cond f : Tx σ κ ε Bool).Writes V := by
  intro s
  beta_reduce
  cases cond s with
  | false => trivial
  | true =>
    intro s
    beta_reduce
    cases cond s with
    | false => trivial
    | true => exact ⟨h, trivial⟩

theorem writes_foldlM {γ : Type} {g : β → γ → Tx σ κ ε β} (h : ∀ b c, (g b c).Writes V)
    (l : List γ) (b : β) : (l.foldlM g b).Writes V := by
  induction l generalizing b with
  | nil => trivial
  | cons c l ih =>
    rw [List.foldlM_cons]
    exact (h b c).bind ih

theorem writes_mapM {γ : Type} {g : γ → Tx σ κ ε β} (h : ∀ c, (g c).Writes V) (l : List γ) :
    (l.mapM g).Writes V := by
  induction l with
  | nil =>
    rw [List.mapM_nil]
    trivial
  | cons c l ih =>
    rw [List.mapM_cons]
    exact (h c).bind fun b => ih.bind fun bs => trivial

theorem writes_forM {γ : Type} {g : γ → Tx σ κ ε Unit} (h : ∀ c, (g c).Writes V) (o : Option γ) :
    (o.forM g).Writes V := by
  cases o with
  | none => trivial
  | some c => exact h c

end Writes

/-! ### Transactions on a part of the database -/

section Part

variable {τ κ' ε' : Type} (get : σ → τ) (set : τ → σ → σ) (key : κ' → κ) (error : ε' → ε)

/-- A transaction on a part of the database, with its locks and refusals among those of the
whole. -/
def onPart : Tx τ κ' ε' α → Tx σ κ ε α
  | done a => done a
  | fail e => fail (error e)
  | lock k t => lock (key k) t.onPart
  | read t => read fun s => (t (get s)).onPart
  | write f t => write (fun s => set (f (get s)) s) t.onPart
  | fresh t => fresh fun n => (t n).onPart

@[simp] theorem onPart_pure (a : α) :
    (pure a : Tx τ κ' ε' α).onPart get set key error = pure a := rfl

@[simp] theorem onPart_bind (t : Tx τ κ' ε' α) (g : α → Tx τ κ' ε' β) :
    (t >>= g).onPart get set key error =
      t.onPart get set key error >>= fun a => (g a).onPart get set key error := by
  change (t.bind g).onPart get set key error = (t.onPart get set key error).bind _
  induction t with
  | done a => rfl
  | fail e => rfl
  | lock k t ih => exact congrArg (lock (key k)) ih
  | read t ih => exact congrArg read (funext fun s => ih (get s))
  | write f t ih => exact congrArg (write _) ih
  | fresh t ih => exact congrArg fresh (funext ih)

@[simp] theorem onPart_update (f : τ → τ) :
    (update f : Tx τ κ' ε' Unit).onPart get set key error = update fun s => set (f (get s)) s := rfl

@[simp] theorem onPart_draw : (draw : Tx τ κ' ε' ℕ).onPart get set key error = draw := rfl

/-- What a transaction on a part writes, the transaction on the whole writes to that part. -/
theorem Writes.onPart {U : (τ → τ) → Prop} {V : (σ → σ) → Prop}
    (hV : ∀ f, U f → V fun s => set (f (get s)) s) {t : Tx τ κ' ε' α} (h : t.Writes U) :
    (t.onPart get set key error).Writes V := by
  induction t with
  | done a => trivial
  | fail e => trivial
  | lock k t ih => exact ih h
  | read t ih => exact fun s => ih (get s) (h (get s))
  | write f t ih => exact ⟨hV f h.1, ih h.2⟩
  | fresh t ih => exact fun n => ih n (h n)

theorem writes_onPart {V : (σ → σ) → Prop} (hV : ∀ f : τ → τ, V fun s => set (f (get s)) s)
    (t : Tx τ κ' ε' α) : (t.onPart get set key error).Writes V := by
  have hall : t.Writes fun _ => True := by
    induction t with
    | done a => trivial
    | fail e => trivial
    | lock k t ih => exact ih
    | read t ih => exact fun s => ih s
    | write f t ih => exact ⟨trivial, ih⟩
    | fresh t ih => exact fun n => ih n
  exact hall.onPart get set key error fun f _ => hV f

end Part

end Tx

/-! ### Disciplines -/

/-- What a transaction can hold: a lock, or a number that only it has drawn. -/
inductive Hold (κ : Type)
  | lock (k : κ)
  | number (n : ℕ)
  deriving DecidableEq

/-- What holds of the committed database, and what the commit of a transaction may do to it that
holds certain locks and numbers. -/
structure Discipline (σ κ : Type) where
  /-- Of the database and the next number to draw. -/
  inv : σ → ℕ → Prop
  /-- The commits of who holds these. -/
  step : (Hold κ → Prop) → σ → σ → Prop
  inv_mono : ∀ {s n m}, n ≤ m → inv s n → inv s m

namespace Discipline

variable {σ κ ε α β ρ : Type} (D : Discipline σ κ)

/-- Knowledge that the others cannot invalidate while one holds these. -/
def Stable (L : Hold κ → Prop) (K : σ → Prop) : Prop :=
  ∀ L' s n s' n', D.inv s n → D.inv s' n' → (∀ k, L k → ¬L' k) → D.step L' s s' → K s → K s'

/-- Hold one more. -/
def add (L : Hold κ → Prop) (k : Hold κ) : Hold κ → Prop := fun x => x = k ∨ L x

/-- To hold some more locks, and no more numbers. -/
structure Extends (L L' : Hold κ → Prop) : Prop where
  holds : ∀ k, L k → L' k
  numbers : ∀ n, L' (.number n) → L (.number n)

theorem Extends.refl (L : Hold κ → Prop) : Extends L L := ⟨fun _ h => h, fun _ h => h⟩

theorem Extends.trans {L L' L'' : Hold κ → Prop} (h : Extends L L') (h' : Extends L' L'') :
    Extends L L'' :=
  ⟨fun k hk => h'.holds k (h.holds k hk), fun n hn => h.numbers n (h'.numbers n hn)⟩

theorem Extends.lock (L : Hold κ → Prop) (k : κ) : Extends L (add L (.lock k)) :=
  ⟨fun _ => .inr, fun n hn => hn.elim (fun h => by cases h) id⟩

/-- The rest of a transaction can be run with these locks, this knowledge of the committed
database and these writes, up to where the postcondition takes over. -/
def wp : Tx σ κ ε α → (Hold κ → Prop) → (σ → Prop) → (σ → σ) →
    ((Hold κ → Prop) → (σ → Prop) → (σ → σ) → α → Prop) → Prop
  | .done a, L, K, f, post => post L K f a
  | .fail _, _, _, _, _ => True
  | .lock k t, L, K, f, post => wp t (add L (.lock k)) K f post
  | .read t, L, K, f, post => ∀ s n, D.inv s n → K s →
      ∃ K', D.Stable L K' ∧ K' s ∧ wp (t (f s)) L K' f post
  | .write g t, L, K, f, post => wp t L K (g ∘ f) post
  | .fresh t, L, K, f, post => ∀ s n, D.inv s n → K s →
      ∃ K', D.Stable (add L (.number n)) K' ∧ K' s ∧ wp (t n) (add L (.number n)) K' f post

/-- What is committed keeps the discipline. -/
def Commits (L : Hold κ → Prop) (K : σ → Prop) (f : σ → σ) : Prop :=
  ∀ s n, D.inv s n → (∀ m, L (.number m) → m < n) → K s → D.inv (f s) n ∧ D.step L s (f s)

/-- The transaction keeps the discipline whatever the others do. -/
def Safe (t : Tx σ κ ε α) : Prop :=
  D.wp t (fun _ => False) (fun _ => True) id fun L K f _ => D.Commits L K f

section Rules

variable {D} {L : Hold κ → Prop} {K : σ → Prop} {f : σ → σ}

theorem Stable.anti {L' : Hold κ → Prop} (h : D.Stable L K) (hL : ∀ k, L k → L' k) :
    D.Stable L' K :=
  fun M s n s' n' hs hs' hM hstep => h M s n s' n' hs hs' (fun k hk => hM k (hL k hk)) hstep

theorem Stable.add (h : D.Stable L K) (k : Hold κ) : D.Stable (Discipline.add L k) K :=
  h.anti fun _ => .inr

theorem Stable.and {K' : σ → Prop} (h : D.Stable L K) (h' : D.Stable L K') :
    D.Stable L fun s => K s ∧ K' s :=
  fun M s n s' n' hs hs' hM hstep hK =>
    ⟨h M s n s' n' hs hs' hM hstep hK.1, h' M s n s' n' hs hs' hM hstep hK.2⟩

theorem stable_true : D.Stable L fun _ => True := fun _ _ _ _ _ _ _ _ _ _ => trivial

@[simp] theorem wp_bind (t : Tx σ κ ε α) (g : α → Tx σ κ ε β)
    (post : (Hold κ → Prop) → (σ → Prop) → (σ → σ) → β → Prop) :
    D.wp (t >>= g) L K f post = D.wp t L K f fun L K f a => D.wp (g a) L K f post := by
  change D.wp (t.bind g) L K f post = _
  induction t generalizing L K f with
  | done a => rfl
  | fail e => rfl
  | lock k t ih => exact ih
  | read t ih => simp only [Tx.bind, wp, ih]
  | write g t ih => exact ih
  | fresh t ih => simp only [Tx.bind, wp, ih]

@[simp] theorem wp_map (t : Tx σ κ ε α) (g : α → β)
    (post : (Hold κ → Prop) → (σ → Prop) → (σ → σ) → β → Prop) :
    D.wp (g <$> t) L K f post = D.wp t L K f fun L K f a => post L K f (g a) := by
  rw [map_eq_pure_bind, wp_bind]
  rfl

variable {post : (Hold κ → Prop) → (σ → Prop) → (σ → σ) → α → Prop}

@[simp] theorem wp_pure (a : α) : D.wp (pure a : Tx σ κ ε α) L K f post = post L K f a := rfl

theorem wp_mono {post' : (Hold κ → Prop) → (σ → Prop) → (σ → σ) → α → Prop} {t : Tx σ κ ε α}
    (h : D.wp t L K f post) (himp : ∀ L K f a, post L K f a → post' L K f a) :
    D.wp t L K f post' := by
  induction t generalizing L K f with
  | done a => exact himp L K f a h
  | fail e => trivial
  | lock k t ih => exact ih h
  | read t ih =>
    intro s n hs hK
    obtain ⟨K', hstable, hK', h⟩ := h s n hs hK
    exact ⟨K', hstable, hK', ih _ h⟩
  | write g t ih => exact ih h
  | fresh t ih =>
    intro s n hs hK
    obtain ⟨K', hstable, hK', h⟩ := h s n hs hK
    exact ⟨K', hstable, hK', ih _ h⟩

@[simp] theorem wp_acquire (k : κ)
    (post : (Hold κ → Prop) → (σ → Prop) → (σ → σ) → Unit → Prop) :
    D.wp (Tx.acquire k : Tx σ κ ε Unit) L K f post = post (add L (.lock k)) K f () := rfl

@[simp] theorem wp_update (g : σ → σ)
    (post : (Hold κ → Prop) → (σ → Prop) → (σ → σ) → Unit → Prop) :
    D.wp (Tx.update g : Tx σ κ ε Unit) L K f post = post L K (g ∘ f) () := rfl

/-- Locks that are taken one after another. -/
theorem wp_acquireAll {ks : List κ}
    {post : (Hold κ → Prop) → (σ → Prop) → (σ → σ) → Unit → Prop}
    (h : ∀ L', Extends L L' → (∀ k ∈ ks, L' (.lock k)) → post L' K f ()) :
    D.wp (Tx.acquireAll ks : Tx σ κ ε Unit) L K f post := by
  induction ks generalizing L with
  | nil => exact h L (.refl L) (by simp)
  | cons k ks ih =>
    refine ih fun L' hL hks => h L' ((Extends.lock L k).trans hL) ?_
    intro j hj
    rcases List.mem_cons.mp hj with rfl | hj
    · exact hL.holds _ (.inl rfl)
    · exact hks j hj

/-- A check is passed or the transaction rolls back. -/
theorem wp_ofExcept {x : Except ε α} (h : ∀ a, x = .ok a → post L K f a) :
    D.wp (Tx.ofExcept x : Tx σ κ ε α) L K f post := by
  cases x with
  | ok a => exact h a rfl
  | error e => trivial

theorem wp_check {c : Prop} [Decidable c] {e : ε}
    {post : (Hold κ → Prop) → (σ → Prop) → (σ → σ) → Unit → Prop} (h : c → post L K f ()) :
    D.wp (Tx.check c e : Tx σ κ ε Unit) L K f post :=
  wp_ofExcept fun _ hok => h (ensure_eq_ok.mp hok)

theorem wp_require {o : Option α} {e : ε} (h : ∀ a, o = some a → post L K f a) :
    D.wp (Tx.require o e : Tx σ κ ε α) L K f post :=
  wp_ofExcept fun a hok => h a (orThrow_eq_ok.mp hok)

/-- What a statement reads holds from then on, as far as the others cannot change it. -/
theorem wp_query {g : σ → α} (hK : D.Stable L K)
    (h : ∀ s n, D.inv s n → K s → ∃ J, D.Stable L J ∧ J s ∧
      post L (fun s => K s ∧ J s) f (g (f s))) :
    D.wp (Tx.query g : Tx σ κ ε α) L K f post := by
  intro s n hs hKs
  obtain ⟨J, hJ, hJs, hpost⟩ := h s n hs hKs
  exact ⟨_, hK.and hJ, ⟨hKs, hJs⟩, hpost⟩

/-- Whatever a statement reads. -/
theorem wp_query_any {g : σ → α} (hK : D.Stable L K) (h : ∀ a, post L K f a) :
    D.wp (Tx.query g : Tx σ κ ε α) L K f post :=
  fun _ _ _ hKs => ⟨K, hK, hKs, h _⟩

/-- A number that no one has drawn, with what is known of it. -/
theorem wp_draw {post : (Hold κ → Prop) → (σ → Prop) → (σ → σ) → ℕ → Prop} (hK : D.Stable L K)
    (h : ∀ s n, D.inv s n → K s → ∃ J, D.Stable (Discipline.add L (.number n)) J ∧ J s ∧
      post (Discipline.add L (.number n)) (fun s => K s ∧ J s) f n) :
    D.wp (Tx.draw : Tx σ κ ε ℕ) L K f post := by
  intro s n hs hKs
  obtain ⟨J, hJ, hJs, hpost⟩ := h s n hs hKs
  exact ⟨_, (hK.add _).and hJ, ⟨hKs, hJs⟩, hpost⟩

/-- A conditional update, with what its condition says of the row while that is locked. -/
theorem wp_updateWhere {k : κ} {cond : σ → Bool} {g : σ → σ}
    {post : (Hold κ → Prop) → (σ → Prop) → (σ → σ) → Bool → Prop} (hK : D.Stable L K)
    (hmiss : ∀ L', Extends L L' → post L' K f false)
    (hhit : ∀ s n, D.inv s n → K s → cond (f s) = true →
      ∃ J, D.Stable (Discipline.add L (.lock k)) J ∧ J s ∧
        post (Discipline.add L (.lock k)) (fun s => K s ∧ J s) (g ∘ f) true) :
    D.wp (Tx.updateWhere k cond g : Tx σ κ ε Bool) L K f post := by
  intro s n hs hKs
  refine ⟨K, hK, hKs, ?_⟩
  beta_reduce
  cases cond (f s) with
  | false => exact hmiss L (.refl L)
  | true =>
    intro s n hs hKs
    beta_reduce
    cases hcond : cond (f s) with
    | false => exact ⟨K, hK.add _, hKs, hmiss _ (.lock L k)⟩
    | true =>
      obtain ⟨J, hJ, hJs, hpost⟩ := hhit s n hs hKs hcond
      exact ⟨_, (hK.add _).and hJ, ⟨hKs, hJs⟩, hpost⟩

/-- A conditional update whose condition is known to hold. -/
theorem wp_updateWhere_sure {k : κ} {cond : σ → Bool} {g : σ → σ}
    {post : (Hold κ → Prop) → (σ → Prop) → (σ → σ) → Bool → Prop} (hK : D.Stable L K)
    (hsure : ∀ s n, D.inv s n → K s → cond (f s) = true)
    (h : post (Discipline.add L (.lock k)) K (g ∘ f) true) :
    D.wp (Tx.updateWhere k cond g : Tx σ κ ε Bool) L K f post := by
  intro s n hs hKs
  refine ⟨K, hK, hKs, ?_⟩
  beta_reduce
  rw [hsure s n hs hKs, cond_true]
  intro s n hs hKs
  refine ⟨K, hK.add _, hKs, ?_⟩
  beta_reduce
  rw [hsure s n hs hKs, cond_true]
  exact h

/-- A part of a transaction of which it only matters what it writes. -/
theorem wp_does {W : (σ → σ) → α → Prop} {t : Tx σ κ ε α} (ht : t.Does W) (hK : D.Stable L K)
    (h : ∀ L' w a, Extends L L' → W w a → post L' K (w ∘ f) a) : D.wp t L K f post := by
  induction t generalizing L f W with
  | done a => exact h L id a (.refl L) ht
  | fail e => trivial
  | lock k t ih => exact ih ht (hK.add _) fun L' w a hL => h L' w a ((Extends.lock L k).trans hL)
  | read t ih => exact fun s n hs hKs => ⟨K, hK, hKs, ih _ (ht _) hK h⟩
  | write g t ih => exact ih ht hK fun L' w a hL hW => h L' (w ∘ g) a hL hW
  | fresh t ih => exact ht.elim

/-- A part of a transaction that only makes writes of a kind, and whose results do not matter. -/
theorem wp_of_writes {V : (σ → σ) → Prop} (hid : V id) (hcomp : ∀ f g, V f → V g → V (g ∘ f))
    {t : Tx σ κ ε α} (ht : t.Writes V) (hK : D.Stable L K)
    (h : ∀ L' w a, (∀ k, L k → L' k) → V w → post L' K (w ∘ f) a) : D.wp t L K f post := by
  induction t generalizing L f with
  | done a => exact h L id a (fun _ => id) hid
  | fail e => trivial
  | lock k t ih => exact ih ht (hK.add _) fun L' w a hL => h L' w a fun k hk => hL k (.inr hk)
  | read t ih => exact fun s n _ hKs => ⟨K, hK, hKs, ih _ (ht _) hK h⟩
  | write g t ih =>
    exact ih ht.2 hK fun L' w a hL hw => h L' (w ∘ g) a hL (hcomp g w ht.1 hw)
  | fresh t ih =>
    exact fun s n _ hKs => ⟨K, hK.add _, hKs, ih _ (ht _) (hK.add _) fun L' w a hL =>
      h L' w a fun k hk => hL k (.inr hk)⟩

end Rules

end Discipline
