import StelloKitchens.Lib.Transaction

/-!
# Processes that run side by side

A process runs transactions one after another and, between them, asks the outside and goes on
with whatever it answers. Many processes run side by side over one database: the statements of
their transactions interleave under *read committed*, what a transaction has written becomes
visible when it commits, its locks are released then, and a process can stop anywhere for good.
The numbers a process has drawn remain its own.

A commit carries a note, so that a run can be told what it may commit. On the terms of a
discipline, every commit that is admitted keeps the discipline, and what a process answers is
true and stays true. If all processes keep the terms, so does every interleaving whose commits
are admitted.

## Main definitions

* `Process`, `Process.transaction` — processes and their transactions.
* `Method` — processes that may fail, with their parts.
* `World`, `serve` — the committed database with the processes in progress, as a machine.
* `Terms`, `Process.wp`, `Terms.Kept` — what a process is to keep, statement by statement.

## Main results

* `Process.wp_bind`, `Process.wp_transaction` — the rules for the parts of a process.
* `Terms.holds_of_reach`, `Terms.HoldsTo.step_db` — the terms over all interleavings.
-/

open Checked

/-- What a process has still to do, over databases `σ`, locks `κ`, notes `ν`, and questions `χ`
with answers `ο` from outside. -/
inductive Process (σ κ ν χ ο α : Type) : Type
  | done (a : α)
  | lock (k : κ) (next : Process σ κ ν χ ο α)
  | read (next : σ → Process σ κ ν χ ο α)
  | write (f : σ → σ) (next : Process σ κ ν χ ο α)
  | fresh (next : ℕ → Process σ κ ν χ ο α)
  /-- Commit what is written and release what is held. -/
  | commit (note : ν) (next : Process σ κ ν χ ο α)
  /-- Roll back what is written and release what is held. -/
  | abandon (next : Process σ κ ν χ ο α)
  | call (q : χ) (next : ο → Process σ κ ν χ ο α)

namespace Process

variable {σ κ ν χ ο ε α β : Type}

/-- One process, then another that depends on its result. -/
protected def bind : Process σ κ ν χ ο α → (α → Process σ κ ν χ ο β) → Process σ κ ν χ ο β
  | done a, g => g a
  | lock k p, g => .lock k (p.bind g)
  | read p, g => .read fun s => (p s).bind g
  | write f p, g => .write f (p.bind g)
  | fresh p, g => .fresh fun n => (p n).bind g
  | commit note p, g => .commit note (p.bind g)
  | abandon p, g => .abandon (p.bind g)
  | call q p, g => .call q fun o => (p o).bind g

instance : Monad (Process σ κ ν χ ο) where
  pure := .done
  bind := Process.bind

protected theorem bind_done (p : Process σ κ ν χ ο α) : p.bind .done = p := by
  induction p with
  | done a => rfl
  | lock k p ih => exact congrArg (lock k) ih
  | read p ih => exact congrArg read (funext ih)
  | write f p ih => exact congrArg (write f) ih
  | fresh p ih => exact congrArg fresh (funext ih)
  | commit note p ih => exact congrArg (commit note) ih
  | abandon p ih => exact congrArg abandon ih
  | call q p ih => exact congrArg (call q) (funext ih)

protected theorem bind_assoc {γ : Type} (p : Process σ κ ν χ ο α) (g : α → Process σ κ ν χ ο β)
    (h : β → Process σ κ ν χ ο γ) : (p.bind g).bind h = p.bind fun a => (g a).bind h := by
  induction p with
  | done a => rfl
  | lock k p ih => exact congrArg (lock k) ih
  | read p ih => exact congrArg read (funext ih)
  | write f p ih => exact congrArg (write f) ih
  | fresh p ih => exact congrArg fresh (funext ih)
  | commit note p ih => exact congrArg (commit note) ih
  | abandon p ih => exact congrArg abandon ih
  | call q p ih => exact congrArg (call q) (funext ih)

instance : LawfulMonad (Process σ κ ν χ ο) :=
  LawfulMonad.mk' (Process σ κ ν χ ο) Process.bind_done (fun _ _ => rfl) Process.bind_assoc

/-- A transaction, with a note on its commit; its refusal rolls it back and is the result. -/
def transaction (note : α → ν) : Tx σ κ ε α → Process σ κ ν χ ο (Except ε α)
  | .done a => .commit (note a) (.done (.ok a))
  | .fail e => .abandon (.done (.error e))
  | .lock k t => .lock k (transaction note t)
  | .read t => .read fun s => transaction note (t s)
  | .write f t => .write f (transaction note t)
  | .fresh t => .fresh fun n => transaction note (t n)

end Process

/-- A process that may fail. -/
abbrev Method (σ κ ν χ ο ε : Type) := ExceptT ε (Process σ κ ν χ ο)

namespace Method

variable {σ κ ν χ ο ε α : Type}

/-- A transaction of a method, with a note on its commit. -/
def atomically (note : α → ν) (t : Tx σ κ ε α) : Method σ κ ν χ ο ε α :=
  ExceptT.mk (.transaction note t)

/-- A statement that only reads, outside of any transaction. -/
def look (g : σ → α) : Method σ κ ν χ ο ε α := ExceptT.mk (.read fun s => .done (.ok (g s)))

/-- Ask the outside. -/
def ask (q : χ) : Method σ κ ν χ ο ε ο := ExceptT.mk (.call q fun o => .done (.ok o))

/-- Go on if a condition holds. -/
def guardOr (c : Prop) [Decidable c] (e : ε) : Method σ κ ν χ ο ε Unit :=
  ExceptT.mk (.done (ensure c e))

/-- Go on with the value that is there. -/
def getOr (o : Option α) (e : ε) : Method σ κ ν χ ο ε α := ExceptT.mk (.done (orThrow o e))

theorem guardOr_pos {c : Prop} [Decidable c] {e : ε} (h : c) :
    (guardOr c e : Method σ κ ν χ ο ε Unit) = pure () := by
  rw [guardOr, ensure_pos h]
  rfl

theorem guardOr_neg {c : Prop} [Decidable c] {e : ε} (h : ¬c) :
    (guardOr c e : Method σ κ ν χ ο ε Unit) = throw e := by
  rw [guardOr, ensure_neg h]
  rfl

theorem getOr_some (a : α) (e : ε) : (getOr (some a) e : Method σ κ ν χ ο ε α) = pure a := rfl

end Method

/-! ### Processes side by side -/

/-- A process in progress: the locks and numbers it holds, its writes so far, and what it has
still to do. -/
structure Session (σ κ ν χ ο α : Type) where
  held : List (Hold κ)
  pending : σ → σ
  rest : Process σ κ ν χ ο α

/-- The committed database, the next number to draw, the processes in progress, and what the
others have answered. -/
structure World (σ κ ν χ ο α : Type) where
  db : σ
  next : ℕ
  sessions : KeyedTable fun p : ℕ × Session σ κ ν χ ο α => p.1
  answers : List α

/-- What can happen: a request is taken up, a process runs its next statement or gets an answer
from outside, or it stops for good. -/
inductive WorldAction (ρ ο : Type)
  | start (slot : ℕ) (request : ρ)
  | step (slot : ℕ)
  | reply (slot : ℕ) (o : ο)
  | crash (slot : ℕ)

/-- A process runs so many statements. -/
def WorldAction.steps {ρ ο : Type} (slot n : ℕ) : List (WorldAction ρ ο) :=
  List.replicate n (.step slot)

namespace World

variable {σ κ ν χ ο α ρ : Type}

/-- No process in progress. -/
def atRest (db : σ) (next : ℕ) : World σ κ ν χ ο α := ⟨db, next, .empty, []⟩

/-- End a process. -/
def close (w : World σ κ ν χ ο α) (slot : ℕ) : World σ κ ν χ ο α :=
  { w with sessions := w.sessions.delete fun p => p.1 = slot }

/-- Go on with a process. -/
def resume (w : World σ κ ν χ ο α) (slot : ℕ) (s : Session σ κ ν χ ο α) : World σ κ ν χ ο α :=
  { w with sessions := w.sessions.put (slot, s) }

/-- What is held beyond the end of a transaction. -/
def numbersOf (held : List (Hold κ)) : List (Hold κ) :=
  held.filter fun
    | .number _ => true
    | .lock _ => false

/-- Another process holds the lock. -/
def heldByOther [DecidableEq κ] (w : World σ κ ν χ ο α) (slot : ℕ) (k : κ) : Bool :=
  w.sessions.rows.any fun p => decide (p.1 ≠ slot ∧ Hold.lock k ∈ p.2.held)

/-- The next statement of a process. -/
def statement [DecidableEq κ] (w : World σ κ ν χ ο α) (slot : ℕ) (s : Session σ κ ν χ ο α) :
    World σ κ ν χ ο α :=
  match s.rest with
  | .done a => { w with answers := a :: w.answers }.close slot
  | .lock k p =>
    if w.heldByOther slot k then w else w.resume slot ⟨.lock k :: s.held, s.pending, p⟩
  | .read p => w.resume slot ⟨s.held, s.pending, p (s.pending w.db)⟩
  | .write f p => w.resume slot ⟨s.held, f ∘ s.pending, p⟩
  | .fresh p =>
    { w with next := w.next + 1 }.resume slot ⟨.number w.next :: s.held, s.pending, p w.next⟩
  | .commit _ p => { w with db := s.pending w.db }.resume slot ⟨numbersOf s.held, id, p⟩
  | .abandon p => w.resume slot ⟨numbersOf s.held, id, p⟩
  | .call _ _ => w

def step [DecidableEq κ] (prog : ρ → Process σ κ ν χ ο α) (w : World σ κ ν χ ο α) :
    WorldAction ρ ο → World σ κ ν χ ο α
  | .start slot r =>
    match w.sessions.find? slot with
    | some _ => w
    | none => w.resume slot ⟨[], id, prog r⟩
  | .step slot =>
    match w.sessions.find? slot with
    | none => w
    | some p => w.statement slot p.2
  | .reply slot o =>
    match w.sessions.find? slot with
    | some (_, ⟨held, pending, .call _ p⟩) => w.resume slot ⟨held, pending, p o⟩
    | _ => w
  | .crash slot => w.close slot

/-- The note of a process that is about to commit, and what it holds. -/
def committing (w : World σ κ ν χ ο α) (slot : ℕ) : Option (ν × List (Hold κ)) :=
  match w.sessions.find? slot with
  | some (_, ⟨held, _, .commit note _⟩) => some (note, held)
  | _ => none

/-- A step commits only what is admitted. -/
def Admits (admits : ν → (Hold κ → Prop) → σ → Prop) (w : World σ κ ν χ ο α) :
    WorldAction ρ ο → Prop
  | .step slot => ∀ c ∈ w.committing slot, admits c.1 (· ∈ c.2) w.db
  | _ => True

instance {admits : ν → (Hold κ → Prop) → σ → Prop}
    [∀ note (held : List (Hold κ)) s, Decidable (admits note (· ∈ held) s)]
    (w : World σ κ ν χ ο α) (a : WorldAction ρ ο) : Decidable (w.Admits admits a) :=
  match a with
  | .step slot => inferInstanceAs (Decidable (∀ c ∈ w.committing slot, admits c.1 (· ∈ c.2) w.db))
  | .start _ _ => .isTrue trivial
  | .reply _ _ => .isTrue trivial
  | .crash _ => .isTrue trivial

/-- Where everything is admitted, every step is. -/
theorem admits_of_forall {admits : ν → (Hold κ → Prop) → σ → Prop} (h : ∀ note L s, admits note L s)
    (w : World σ κ ν χ ο α) (a : WorldAction ρ ο) : w.Admits admits a := by
  cases a with
  | step slot => exact fun c _ => h _ _ _
  | _ => trivial

end World

/-- The processes of all requests, side by side, from a database without any in progress. -/
def serve {σ κ ν χ ο α ρ : Type} [DecidableEq κ] (prog : ρ → Process σ κ ν χ ο α)
    (init : σ → ℕ → Prop) : Machine (World σ κ ν χ ο α) (WorldAction ρ ο) where
  init w := init w.db w.next ∧ w.sessions = .empty ∧ w.answers = []
  step := World.step prog

/-! ### Terms -/

/-- A discipline, the commits it is kept by, and what an answer says of the database. -/
structure Terms (σ κ ν α : Type) extends Discipline σ κ where
  /-- The commit with this note, by who holds these, meets this database. -/
  admits : ν → (Hold κ → Prop) → σ → Prop
  said : α → σ → Prop
  said_step : ∀ {a L s n s' n'}, inv s n → inv s' n' → step L s s' → said a s → said a s'

namespace Discipline

variable {κ : Type}

/-- To hold nothing. -/
def nothing : Hold κ → Prop := fun _ => False

/-- To hold only the numbers. -/
def numbers (L : Hold κ → Prop) : Hold κ → Prop := fun k => L k ∧ ∃ n, k = .number n

/-- To hold no lock. -/
def Idle (L : Hold κ → Prop) : Prop := ∀ k, ¬L (.lock k)

theorem idle_nothing : Idle (nothing : Hold κ → Prop) := fun _ => id

theorem idle_numbers (L : Hold κ → Prop) : Idle (numbers L) := fun k hk => by
  obtain ⟨-, n, hn⟩ := hk
  cases hn

/-- The numbers that are held. -/
def drawn (L : Hold κ → Prop) : ℕ → Prop := fun n => L (.number n)

theorem drawn_add_lock (L : Hold κ → Prop) (k : κ) : drawn (add L (.lock k)) = drawn L := by
  funext n
  simp [drawn, add]

theorem drawn_add_number (L : Hold κ → Prop) (n : ℕ) :
    drawn (add L (.number n)) = fun m => m = n ∨ drawn L m := by
  funext m
  simp [drawn, add]

theorem numbers_number {L : Hold κ → Prop} {n : ℕ} : numbers L (.number n) ↔ L (.number n) :=
  ⟨And.left, fun h => ⟨h, n, rfl⟩⟩

theorem drawn_numbers (L : Hold κ → Prop) : drawn (numbers L) = drawn L :=
  funext fun _ => propext numbers_number

end Discipline

namespace Process

open Discipline

variable {σ κ ν χ ο ε α β : Type} (D : Discipline σ κ)
  (admits : ν → (Hold κ → Prop) → σ → Prop)

/-- What is committed keeps the discipline, and makes something known. -/
def CommitsTo (note : ν) (L : Hold κ → Prop) (K : σ → Prop) (f : σ → σ) (J : σ → Prop) : Prop :=
  D.Stable (numbers L) J ∧ ∀ s n, D.inv s n → (∀ m, L (.number m) → m < n) → K s →
    admits note L s → D.inv (f s) n ∧ D.step L s (f s) ∧ J (f s)

/-- The rest of a process can be run with these locks, this knowledge of the committed database
and these writes, up to where the postcondition takes over. -/
def wp : Process σ κ ν χ ο α → (Hold κ → Prop) → (σ → Prop) → (σ → σ) →
    ((Hold κ → Prop) → (σ → Prop) → (σ → σ) → α → Prop) → Prop
  | .done a, L, K, f, post => post L K f a
  | .lock k p, L, K, f, post => wp p (add L (.lock k)) K f post
  | .read p, L, K, f, post => ∀ s n, D.inv s n → K s →
      ∃ K', D.Stable L K' ∧ K' s ∧ wp (p (f s)) L K' f post
  | .write g p, L, K, f, post => wp p L K (g ∘ f) post
  | .fresh p, L, K, f, post => ∀ s n, D.inv s n → K s →
      ∃ K', D.Stable (add L (.number n)) K' ∧ K' s ∧ wp (p n) (add L (.number n)) K' f post
  | .commit note p, L, K, f, post =>
      ∃ J, CommitsTo D admits note L K f J ∧ wp p (numbers L) J id post
  | .abandon p, L, K, _, post => ∃ J, D.Stable (numbers L) J ∧ (∀ s n, D.inv s n → K s → J s) ∧
      wp p (numbers L) J id post
  | .call _ p, L, K, f, post => ∀ o, wp (p o) L K f post

variable {D admits} {L : Hold κ → Prop} {K : σ → Prop} {f : σ → σ}

@[simp] theorem wp_pure {post : (Hold κ → Prop) → (σ → Prop) → (σ → σ) → α → Prop} (a : α) :
    wp D admits (pure a : Process σ κ ν χ ο α) L K f post = post L K f a := rfl

@[simp] theorem wp_bind (p : Process σ κ ν χ ο α) (g : α → Process σ κ ν χ ο β)
    (post : (Hold κ → Prop) → (σ → Prop) → (σ → σ) → β → Prop) :
    wp D admits (p >>= g) L K f post =
      wp D admits p L K f fun L K f a => wp D admits (g a) L K f post := by
  change wp D admits (p.bind g) L K f post = _
  induction p generalizing L K f with
  | done a => rfl
  | lock k p ih => exact ih
  | read p ih => simp only [Process.bind, wp, ih]
  | write g p ih => exact ih
  | fresh p ih => simp only [Process.bind, wp, ih]
  | commit note p ih => simp only [Process.bind, wp, ih]
  | abandon p ih => simp only [Process.bind, wp, ih]
  | call q p ih => simp only [Process.bind, wp, ih]

variable {post : (Hold κ → Prop) → (σ → Prop) → (σ → σ) → α → Prop}

theorem wp_mono {post' : (Hold κ → Prop) → (σ → Prop) → (σ → σ) → α → Prop}
    {p : Process σ κ ν χ ο α} (h : wp D admits p L K f post)
    (himp : ∀ L K f a, post L K f a → post' L K f a) : wp D admits p L K f post' := by
  induction p generalizing L K f with
  | done a => exact himp L K f a h
  | lock k p ih => exact ih h
  | read p ih =>
    intro s n hs hK
    obtain ⟨K', hstable, hK', h⟩ := h s n hs hK
    exact ⟨K', hstable, hK', ih _ h⟩
  | write g p ih => exact ih h
  | fresh p ih =>
    intro s n hs hK
    obtain ⟨K', hstable, hK', h⟩ := h s n hs hK
    exact ⟨K', hstable, hK', ih _ h⟩
  | commit note p ih =>
    obtain ⟨J, hcommit, h⟩ := h
    exact ⟨J, hcommit, ih h⟩
  | abandon p ih =>
    obtain ⟨J, hJ, hKJ, h⟩ := h
    exact ⟨J, hJ, hKJ, ih h⟩
  | call q p ih => exact fun o => ih o (h o)

/-- Where nothing can be the case, everything is known. -/
theorem wp_absurd (p : Process σ κ ν χ ο α)
    (h : ∀ L f a, post L (fun _ => False) f a) : wp D admits p L (fun _ => False) f post := by
  induction p generalizing L f with
  | done a => exact h L f a
  | lock k p ih => exact ih
  | read p ih => exact fun s n _ hK => hK.elim
  | write g p ih => exact ih
  | fresh p ih => exact fun s n _ hK => hK.elim
  | commit note p ih =>
    exact ⟨fun _ => False, ⟨fun _ _ _ _ _ _ _ _ _ h => h, fun _ _ _ _ hK => hK.elim⟩, ih⟩
  | abandon p ih =>
    exact ⟨fun _ => False, fun _ _ _ _ _ _ _ _ _ h => h, fun _ _ _ hK => hK, ih⟩
  | call q p ih => exact fun o => ih o

/-- What can be known all through a transaction, of the numbers that are held. -/
structure Lasting (D : Discipline σ κ) (J : (ℕ → Prop) → σ → Prop) : Prop where
  stable : ∀ L, D.Stable (numbers L) (J (drawn L))
  fresh : ∀ N s n, D.inv s n → J N s → J (fun m => m = n ∨ N m) s

/-- A transaction commits what its proof says, or is refused; what is lasting is still known
then. -/
theorem wp_transaction_lasting {note : α → ν} {t : Tx σ κ ε α} {J : (ℕ → Prop) → σ → Prop}
    {post : (Hold κ → Prop) → (σ → Prop) → (σ → σ) → Except ε α → Prop} (hJ : Lasting D J)
    (h : D.wp t L K f fun L K f a => ∃ J',
      CommitsTo D admits (note a) L (fun s => K s ∧ J (drawn L) s) f J' ∧
        post (numbers L) J' id (.ok a))
    (hfail : ∀ e L, Idle L → post L (J (drawn L)) id (.error e)) :
    wp D admits (transaction note t : Process σ κ ν χ ο (Except ε α)) L
      (fun s => K s ∧ J (drawn L) s) f post := by
  have hstable : ∀ L, D.Stable L (J (drawn L)) := fun L => (hJ.stable L).anti fun _ hk => hk.1
  induction t generalizing L K f with
  | done a => exact h
  | fail e =>
    refine ⟨J (drawn L), hJ.stable L, fun s _ _ hs => hs.2, ?_⟩
    have hfail := hfail e (numbers L) (idle_numbers L)
    rwa [drawn_numbers] at hfail
  | lock k t ih =>
    have h := ih h
    rwa [drawn_add_lock] at h
  | read t ih =>
    intro s n hs hK
    obtain ⟨K', hK's, hK', h⟩ := h s n hs hK.1
    exact ⟨_, hK's.and (hstable L), ⟨hK', hK.2⟩, ih _ h⟩
  | write g t ih => exact ih h
  | fresh t ih =>
    intro s n hs hK
    obtain ⟨K', hK's, hK', h⟩ := h s n hs hK.1
    refine ⟨_, hK's.and (hstable _), ⟨hK', ?_⟩, ih _ h⟩
    rw [drawn_add_number]
    exact hJ.fresh _ s n hs hK.2

/-- A transaction commits what its proof says, or is refused and leaves nothing known. -/
theorem wp_transaction {note : α → ν} {t : Tx σ κ ε α}
    {post : (Hold κ → Prop) → (σ → Prop) → (σ → σ) → Except ε α → Prop}
    (h : D.wp t L K f fun L K f a =>
      ∃ J, CommitsTo D admits (note a) L K f J ∧ post (numbers L) J id (.ok a))
    (hfail : ∀ e L, Idle L → post L (fun _ => True) id (.error e)) :
    wp D admits (transaction note t : Process σ κ ν χ ο (Except ε α)) L K f post := by
  have hnone : Lasting D fun _ _ => True := ⟨fun _ => stable_true, fun _ _ _ _ h => h⟩
  have hlasting := @wp_transaction_lasting σ κ ν χ ο ε α D admits L K f note t (fun _ _ => True) post
    hnone (by simpa only [and_true] using h) hfail
  simpa only [and_true] using hlasting

/-- A safe transaction commits, whatever is admitted. -/
theorem wp_transaction_of_safe {note : α → ν} {t : Tx σ κ ε α} (h : D.Safe t)
    {post : (Hold κ → Prop) → (σ → Prop) → (σ → σ) → Except ε α → Prop}
    (hpost : ∀ r L, Idle L → post L (fun _ => True) id r) :
    wp D admits (transaction note t : Process σ κ ν χ ο (Except ε α)) nothing (fun _ => True) id
      post := by
  refine wp_transaction (Discipline.wp_mono h fun L K f a hcommits => ?_) fun e => hpost _
  refine ⟨fun _ => True, ⟨stable_true, fun s n hs hL hK _ => ?_⟩, hpost _ _ (idle_numbers L)⟩
  obtain ⟨hinv, hstep⟩ := hcommits s n hs hL hK
  exact ⟨hinv, hstep, trivial⟩

/-- Where a method goes on if it has not failed, and ends if it has. -/
def onOk (go : (Hold κ → Prop) → (σ → Prop) → (σ → σ) → α → Prop)
    (post : (Hold κ → Prop) → (σ → Prop) → (σ → σ) → Except ε β → Prop) :
    (Hold κ → Prop) → (σ → Prop) → (σ → σ) → Except ε α → Prop
  | L, K, f, .ok a => go L K f a
  | L, K, f, .error e => post L K f (.error e)

@[simp] theorem wp_method_bind (x : Method σ κ ν χ ο ε α) (g : α → Method σ κ ν χ ο ε β)
    (post : (Hold κ → Prop) → (σ → Prop) → (σ → σ) → Except ε β → Prop) :
    wp D admits (x >>= g).run L K f post =
      wp D admits x.run L K f (onOk (fun L K f a => wp D admits (g a).run L K f post) post) := by
  change wp D admits (x.run >>= _) L K f post = _
  rw [wp_bind]
  congr 1
  funext L K f r
  cases r <;> rfl

@[simp] theorem wp_method_pure (a : α)
    (post : (Hold κ → Prop) → (σ → Prop) → (σ → σ) → Except ε α → Prop) :
    wp D admits (pure a : Method σ κ ν χ ο ε α).run L K f post = post L K f (.ok a) := rfl

@[simp] theorem wp_tryCatch (x : Method σ κ ν χ ο ε α) (g : ε → Method σ κ ν χ ο ε α)
    (post : (Hold κ → Prop) → (σ → Prop) → (σ → σ) → Except ε α → Prop) :
    wp D admits (tryCatch x g).run L K f post = wp D admits x.run L K f fun L K f r =>
      match r with
      | .ok a => post L K f (.ok a)
      | .error e => wp D admits (g e).run L K f post := by
  change wp D admits (x.run >>= _) L K f post = _
  rw [wp_bind]
  congr 1
  funext L K f r
  cases r <;> rfl

section Statements

variable {go : (Hold κ → Prop) → (σ → Prop) → (σ → σ) → α → Prop}
  {post : (Hold κ → Prop) → (σ → Prop) → (σ → σ) → Except ε β → Prop}

/-- What a statement reads holds from then on, as far as the others cannot change it. -/
theorem wp_look {g : σ → α} (hK : D.Stable L K)
    (h : ∀ s n, D.inv s n → K s → ∃ J, D.Stable L J ∧ J s ∧ go L (fun s => K s ∧ J s) f (g (f s))) :
    wp D admits (Method.look g : Method σ κ ν χ ο ε α).run L K f (onOk go post) := by
  intro s n hs hKs
  obtain ⟨J, hJ, hJs, hpost⟩ := h s n hs hKs
  exact ⟨_, hK.and hJ, ⟨hKs, hJs⟩, hpost⟩

/-- Whatever a statement reads. -/
theorem wp_look_any {g : σ → α} (hK : D.Stable L K) (h : ∀ a, go L K f a) :
    wp D admits (Method.look g : Method σ κ ν χ ο ε α).run L K f (onOk go post) :=
  fun _ _ _ hKs => ⟨K, hK, hKs, h _⟩

theorem wp_guardOr {c : Prop} [Decidable c] {e : ε}
    {go : (Hold κ → Prop) → (σ → Prop) → (σ → σ) → Unit → Prop} (h : c → go L K f ())
    (hfail : post L K f (.error e)) :
    wp D admits (Method.guardOr c e : Method σ κ ν χ ο ε Unit).run L K f (onOk go post) := by
  change onOk go post L K f (ensure c e)
  unfold ensure
  split
  · exact h ‹c›
  · exact hfail

theorem wp_getOr {o : Option α} {e : ε} (h : ∀ a, o = some a → go L K f a)
    (hfail : post L K f (.error e)) :
    wp D admits (Method.getOr o e : Method σ κ ν χ ο ε α).run L K f (onOk go post) := by
  cases o with
  | none => exact hfail
  | some a => exact h a rfl

/-- A transaction of a method commits what its proof says, or is refused. -/
theorem wp_atomically {note : α → ν} {t : Tx σ κ ε α}
    (h : D.wp t L K f fun L K f a =>
      ∃ J, CommitsTo D admits (note a) L K f J ∧ go (numbers L) J id a)
    (hfail : ∀ e L, Idle L → post L (fun _ => True) id (.error e)) :
    wp D admits (Method.atomically note t : Method σ κ ν χ ο ε α).run L K f (onOk go post) :=
  wp_transaction h hfail

/-- A transaction of a method, and what is lasting. -/
theorem wp_atomically_lasting {note : α → ν} {t : Tx σ κ ε α} {J : (ℕ → Prop) → σ → Prop}
    {post : (Hold κ → Prop) → (σ → Prop) → (σ → σ) → Except ε α → Prop} (hJ : Lasting D J)
    (h : D.wp t L (J (drawn L)) f fun L K f a => ∃ J',
      CommitsTo D admits (note a) L (fun s => K s ∧ J (drawn L) s) f J' ∧
        post (numbers L) J' id (.ok a))
    (hfail : ∀ e L, Idle L → post L (J (drawn L)) id (.error e)) :
    wp D admits (Method.atomically note t : Method σ κ ν χ ο ε α).run L (J (drawn L)) f post := by
  have hlasting : wp D admits (transaction note t : Process σ κ ν χ ο (Except ε α)) L
      (fun s => J (drawn L) s ∧ J (drawn L) s) f post := wp_transaction_lasting hJ h hfail
  simp only [and_self] at hlasting
  exact hlasting

/-- A conditional update as a transaction of its own, whose condition is known to hold. -/
theorem wp_atomically_updateWhere_sure {note : Bool → ν} {k : κ} {cond : σ → Bool} {g : σ → σ}
    {J : σ → Prop} {post : (Hold κ → Prop) → (σ → Prop) → (σ → σ) → Except ε Bool → Prop}
    (hK : D.Stable L K) (hsure : ∀ s n, D.inv s n → K s → cond (f s) = true)
    (hcommit : CommitsTo D admits (note true) (add L (.lock k)) K (g ∘ f) J)
    (hpost : post (numbers (add L (.lock k))) J id (.ok true)) :
    wp D admits (Method.atomically note (Tx.updateWhere k cond g) : Method σ κ ν χ ο ε Bool).run L K f
      post := by
  intro s n hs hKs
  refine ⟨K, hK, hKs, ?_⟩
  beta_reduce
  rw [hsure s n hs hKs, cond_true]
  intro s n hs hKs
  refine ⟨K, hK.add _, hKs, ?_⟩
  beta_reduce
  rw [hsure s n hs hKs, cond_true]
  exact ⟨J, hcommit, hpost⟩

/-- A safe transaction of a method. -/
theorem wp_atomically_of_safe {note : α → ν} {t : Tx σ κ ε α} (h : D.Safe t)
    (hgo : ∀ a L, Idle L → go L (fun _ => True) id a)
    (hfail : ∀ e L, Idle L → post L (fun _ => True) id (.error e)) :
    wp D admits (Method.atomically note t : Method σ κ ν χ ο ε α).run nothing (fun _ => True) id
      (onOk go post) :=
  wp_transaction_of_safe h fun
    | .ok a => hgo a
    | .error e => hfail e

end Statements

end Process

/-! ### Processes that only make certain writes -/

namespace Process

open Discipline

variable {σ κ ν χ ο ε α β : Type}

/-- Every write of a process is of this kind. -/
def Writes (V : (σ → σ) → Prop) : Process σ κ ν χ ο α → Prop
  | done _ => True
  | lock _ p => p.Writes V
  | read p => ∀ s, (p s).Writes V
  | write f p => V f ∧ p.Writes V
  | fresh p => ∀ n, (p n).Writes V
  | commit _ p => p.Writes V
  | abandon p => p.Writes V
  | call _ p => ∀ o, (p o).Writes V

variable {V : (σ → σ) → Prop}

theorem Writes.mono {W : (σ → σ) → Prop} {p : Process σ κ ν χ ο α} (h : p.Writes V)
    (himp : ∀ f, V f → W f) : p.Writes W := by
  induction p with
  | done a => trivial
  | lock k p ih => exact ih h
  | read p ih => exact fun s => ih s (h s)
  | write f p ih => exact ⟨himp f h.1, ih h.2⟩
  | fresh p ih => exact fun n => ih n (h n)
  | commit note p ih => exact ih h
  | abandon p ih => exact ih h
  | call q p ih => exact fun o => ih o (h o)

theorem Writes.bind {p : Process σ κ ν χ ο α} {g : α → Process σ κ ν χ ο β} (h : p.Writes V)
    (hg : ∀ a, (g a).Writes V) : (p >>= g).Writes V := by
  change (p.bind g).Writes V
  induction p with
  | done a => exact hg a
  | lock k p ih => exact ih h
  | read p ih => exact fun s => ih s (h s)
  | write f p ih => exact ⟨h.1, ih h.2⟩
  | fresh p ih => exact fun n => ih n (h n)
  | commit note p ih => exact ih h
  | abandon p ih => exact ih h
  | call q p ih => exact fun o => ih o (h o)

/-- The first part of a process makes writes of this kind if the whole does. -/
theorem Writes.of_bind {p : Process σ κ ν χ ο α} {g : α → Process σ κ ν χ ο β}
    (h : (p >>= g).Writes V) : p.Writes V := by
  change (p.bind g).Writes V at h
  induction p with
  | done a => trivial
  | lock k p ih => exact ih h
  | read p ih => exact fun s => ih s (h s)
  | write f p ih => exact ⟨h.1, ih h.2⟩
  | fresh p ih => exact fun n => ih n (h n)
  | commit note p ih => exact ih h
  | abandon p ih => exact ih h
  | call q p ih => exact fun o => ih o (h o)

theorem writes_transaction {note : α → ν} {t : Tx σ κ ε α} (h : t.Writes V) :
    (transaction note t : Process σ κ ν χ ο (Except ε α)).Writes V := by
  induction t with
  | done a => trivial
  | fail e => trivial
  | lock k t ih => exact ih h
  | read t ih => exact fun s => ih s (h s)
  | write f t ih => exact ⟨h.1, ih h.2⟩
  | fresh t ih => exact fun n => ih n (h n)

/-- A process all of whose writes keep the discipline, in any order, can be run anywhere. -/
theorem wp_of_writes {D : Discipline σ κ} {admits : ν → (Hold κ → Prop) → σ → Prop}
    (hid : V id) (hcomp : ∀ f g, V f → V g → V (g ∘ f))
    (hV : ∀ f, V f → ∀ L s n, D.inv s n → D.inv (f s) n ∧ D.step L s (f s))
    {p : Process σ κ ν χ ο α} (h : p.Writes V) {L : Hold κ → Prop} {K : σ → Prop} {f : σ → σ}
    (hf : V f) {post : (Hold κ → Prop) → (σ → Prop) → (σ → σ) → α → Prop}
    (hpost : ∀ L K f a, V f → post L K f a) : p.wp D admits L K f post := by
  induction p generalizing L K f with
  | done a => exact hpost L K f a hf
  | lock k p ih => exact ih h hf
  | read p ih => exact fun s n _ _ => ⟨fun _ => True, stable_true, trivial, ih _ (h _) hf⟩
  | write g p ih => exact ih h.2 (hcomp f g hf h.1)
  | fresh p ih => exact fun s n _ _ => ⟨fun _ => True, stable_true, trivial, ih _ (h _) hf⟩
  | commit note p ih =>
    refine ⟨fun _ => True, ⟨stable_true, fun s n hs _ _ _ => ?_⟩, ih h hid⟩
    exact ⟨(hV f hf L s n hs).1, (hV f hf L s n hs).2, trivial⟩
  | abandon p ih => exact ⟨fun _ => True, stable_true, fun _ _ _ _ => trivial, ih h hid⟩
  | call q p ih => exact fun o => ih o (h o) hf

end Process

namespace Method

variable {σ κ ν χ ο ε α β : Type} {V : (σ → σ) → Prop}

/-- Every write of a method is of this kind. -/
def Writes (V : (σ → σ) → Prop) (x : Method σ κ ν χ ο ε α) : Prop := Process.Writes V x.run

theorem Writes.bind {x : Method σ κ ν χ ο ε α} {g : α → Method σ κ ν χ ο ε β} (h : Writes V x)
    (hg : ∀ a, Writes V (g a)) : Writes V (x >>= g) :=
  Process.Writes.bind h fun
    | .ok a => hg a
    | .error _ => trivial

theorem Writes.of_bind {x : Method σ κ ν χ ο ε α} {g : α → Method σ κ ν χ ο ε β}
    (h : Writes V (x >>= g)) : Writes V x := Process.Writes.of_bind h

theorem writes_pure (a : α) : Writes V (pure a : Method σ κ ν χ ο ε α) := trivial

theorem writes_throw (e : ε) : Writes V (throw e : Method σ κ ν χ ο ε α) := trivial

theorem writes_look (g : σ → α) : Writes V (look g : Method σ κ ν χ ο ε α) := fun _ => trivial

theorem writes_ask (q : χ) : Writes V (ask q : Method σ κ ν χ ο ε ο) := fun _ => trivial

theorem writes_guardOr (c : Prop) [Decidable c] (e : ε) :
    Writes V (guardOr c e : Method σ κ ν χ ο ε Unit) := trivial

theorem writes_getOr (o : Option α) (e : ε) : Writes V (getOr o e : Method σ κ ν χ ο ε α) :=
  trivial

theorem writes_atomically {note : α → ν} {t : Tx σ κ ε α} (h : t.Writes V) :
    Writes V (atomically note t : Method σ κ ν χ ο ε α) := Process.writes_transaction h

theorem writes_tryCatch {x : Method σ κ ν χ ο ε α} {g : ε → Method σ κ ν χ ο ε α}
    (h : Writes V x) (hg : ∀ e, Writes V (g e)) : Writes V (tryCatch x g) :=
  Process.Writes.bind h fun
    | .ok _ => trivial
    | .error e => hg e

theorem writes_forM {γ : Type} {g : γ → Method σ κ ν χ ο ε PUnit} (h : ∀ c, Writes V (g c))
    (l : List γ) : Writes V (l.forM g) := by
  induction l with
  | nil => trivial
  | cons c l ih => exact (h c).bind fun _ => ih

end Method

/-! ### Methods that know nothing from one transaction to the next -/

namespace Method

open Discipline Process

variable {σ κ ν χ ο ε α β : Type} (D : Discipline σ κ)
  (admits : ν → (Hold κ → Prop) → σ → Prop)

/-- A method that can be run by who holds no lock, whatever it knows, and again holds none and
has no writes pending when it is over. -/
def Keeps (x : Method σ κ ν χ ο ε α) : Prop :=
  ∀ L K, Idle L → D.Stable L K → ∀ post : (Hold κ → Prop) → (σ → Prop) → (σ → σ) →
    Except ε α → Prop, (∀ L' K' r, Idle L' → D.Stable L' K' → post L' K' id r) →
    x.run.wp D admits L K id post

variable {D admits}

theorem keeps_pure (a : α) : Keeps D admits (pure a : Method σ κ ν χ ο ε α) :=
  fun L K hL hK _ hpost => hpost L K _ hL hK

theorem keeps_throw (e : ε) : Keeps D admits (throw e : Method σ κ ν χ ο ε α) :=
  fun L K hL hK _ hpost => hpost L K _ hL hK

theorem keeps_look (g : σ → α) : Keeps D admits (look g : Method σ κ ν χ ο ε α) :=
  fun L K hL hK _ hpost _ _ _ hKs => ⟨K, hK, hKs, hpost L K _ hL hK⟩

theorem keeps_ask (q : χ) : Keeps D admits (ask q : Method σ κ ν χ ο ε ο) :=
  fun L K hL hK _ hpost _ => hpost L K _ hL hK

theorem keeps_guardOr (c : Prop) [Decidable c] (e : ε) :
    Keeps D admits (guardOr c e : Method σ κ ν χ ο ε Unit) :=
  fun L K hL hK _ hpost => hpost L K _ hL hK

theorem keeps_getOr (o : Option α) (e : ε) :
    Keeps D admits (getOr o e : Method σ κ ν χ ο ε α) :=
  fun L K hL hK _ hpost => hpost L K _ hL hK

theorem Keeps.bind {x : Method σ κ ν χ ο ε α} {g : α → Method σ κ ν χ ο ε β}
    (h : Keeps D admits x) (hg : ∀ a, Keeps D admits (g a)) : Keeps D admits (x >>= g) := by
  intro L K hL hK post hpost
  rw [wp_method_bind]
  refine h L K hL hK _ fun L' K' r hL' hK' => ?_
  cases r with
  | ok a => exact hg a L' K' hL' hK' post hpost
  | error e => exact hpost L' K' _ hL' hK'

theorem Keeps.map {x : Method σ κ ν χ ο ε α} (h : Keeps D admits x) (g : α → β) :
    Keeps D admits (g <$> x) := by
  rw [map_eq_pure_bind]
  exact h.bind fun a => keeps_pure (g a)

theorem keeps_tryCatch {x : Method σ κ ν χ ο ε α} {g : ε → Method σ κ ν χ ο ε α}
    (h : Keeps D admits x) (hg : ∀ e, Keeps D admits (g e)) : Keeps D admits (tryCatch x g) := by
  intro L K hL hK post hpost
  rw [wp_tryCatch]
  refine h L K hL hK _ fun L' K' r hL' hK' => ?_
  cases r with
  | ok a => exact hpost L' K' _ hL' hK'
  | error e => exact hg e L' K' hL' hK' post hpost

theorem keeps_forM {γ : Type} {g : γ → Method σ κ ν χ ο ε PUnit} (h : ∀ c, Keeps D admits (g c))
    (l : List γ) : Keeps D admits (l.forM g) := by
  induction l with
  | nil => exact keeps_pure _
  | cons c l ih => exact (h c).bind fun _ => ih

theorem keeps_mapM {γ : Type} {g : γ → Method σ κ ν χ ο ε α} (h : ∀ c, Keeps D admits (g c))
    (l : List γ) : Keeps D admits (l.mapM g) := by
  induction l with
  | nil =>
    rw [List.mapM_nil]
    exact keeps_pure _
  | cons c l ih =>
    rw [List.mapM_cons]
    exact (h c).bind fun a => ih.bind fun as => keeps_pure (a :: as)

/-- A transaction that commits what the discipline allows. -/
theorem keeps_atomically {note : α → ν} {t : Tx σ κ ε α}
    (h : ∀ L K, Idle L → D.Stable L K →
      D.wp t L K id fun L K f a => ∃ J, CommitsTo D admits (note a) L K f J) :
    Keeps D admits (atomically note t : Method σ κ ν χ ο ε α) := by
  intro L K hL hK post hpost
  refine wp_transaction (Discipline.wp_mono (h L K hL hK) fun L K f a hcommit => ?_)
    fun e L hL => hpost L _ _ hL stable_true
  obtain ⟨J, hJ⟩ := hcommit
  exact ⟨J, hJ, hpost _ _ _ (idle_numbers L) hJ.1⟩

/-- A transaction that only makes writes which always keep the discipline. -/
theorem keeps_of_writes {V : (σ → σ) → Prop} (hid : V id)
    (hcomp : ∀ f g, V f → V g → V (g ∘ f))
    (hV : ∀ f, V f → ∀ L s n, D.inv s n → D.inv (f s) n ∧ D.step L s (f s)) {note : α → ν}
    {t : Tx σ κ ε α} (h : t.Writes V) :
    Keeps D admits (atomically note t : Method σ κ ν χ ο ε α) := by
  refine keeps_atomically fun L K _ hK => Discipline.wp_of_writes hid hcomp h hK
    fun L' w a _ hw => ⟨fun _ => True, stable_true, fun s n hs _ _ _ => ?_⟩
  exact ⟨(hV w hw L' s n hs).1, (hV w hw L' s n hs).2, trivial⟩

end Method

/-! ### All interleavings -/

namespace Terms

open Discipline

variable {σ κ ν χ ο α ρ : Type} (T : Terms σ κ ν α)

/-- Where a process answers, what it knows makes the answer true. -/
def Answers (_ : Hold κ → Prop) (K : σ → Prop) (_ : σ → σ) (a : α) : Prop :=
  ∀ s n, T.inv s n → K s → T.said a s

/-- The process keeps the terms whatever the others do. -/
def Kept (p : Process σ κ ν χ ο α) : Prop :=
  p.wp T.toDiscipline T.admits nothing (fun _ => True) id T.Answers

/-- A method that keeps the discipline keeps the terms, if its answers say nothing. -/
theorem kept_of_keeps {ε β : Type} {T : Terms σ κ ν (Except ε β)} {x : Method σ κ ν χ ο ε β}
    (h : x.Keeps T.toDiscipline T.admits) (hsaid : ∀ r s, T.said r s) : T.Kept x.run :=
  h _ _ idle_nothing stable_true _ fun _ _ r _ _ s _ _ _ => hsaid r s

/-- A transaction that commits what the terms allow keeps them, if its answers say nothing. -/
theorem kept_transaction {ε β : Type} {T : Terms σ κ ν (Except ε β)} {note : β → ν}
    {t : Tx σ κ ε β} (h : T.wp t nothing (fun _ => True) id fun L K f a =>
      ∃ J, Process.CommitsTo T.toDiscipline T.admits (note a) L K f J)
    (hsaid : ∀ r s, T.said r s) : T.Kept (Process.transaction note t : Process σ κ ν χ ο _) := by
  refine Process.wp_transaction (Discipline.wp_mono h fun L K f a hcommit => ?_)
    fun e L _ s _ _ _ => hsaid _ s
  obtain ⟨J, hJ⟩ := hcommit
  exact ⟨J, hJ, fun s _ _ _ => hsaid _ s⟩

variable (post : (Hold κ → Prop) → (σ → Prop) → (σ → σ) → α → Prop)

/-- A process in progress is where its proof says it is, and will end as it says. -/
def SessionOk (db : σ) (s : Session σ κ ν χ ο α) : Prop :=
  ∃ K, T.Stable (· ∈ s.held) K ∧ K db ∧
    s.rest.wp T.toDiscipline T.admits (· ∈ s.held) K s.pending post

/-- The discipline holds, every process is where its proof says, no two hold the same, and what
was answered is true. -/
structure HoldsTo (w : World σ κ ν χ ο α) : Prop where
  inv : T.inv w.db w.next
  session : ∀ p ∈ w.sessions, T.SessionOk post w.db p.2
  apart : ∀ p ∈ w.sessions, ∀ q ∈ w.sessions, ∀ k, k ∈ p.2.held → k ∈ q.2.held → p.1 = q.1
  drawn : ∀ p ∈ w.sessions, ∀ n, .number n ∈ p.2.held → n < w.next
  said : ∀ a ∈ w.answers, T.said a w.db

/-- The same, of processes that end with answers that are true. -/
abbrev Holds (w : World σ κ ν χ ο α) : Prop := T.HoldsTo T.Answers w

variable {T post}

theorem HoldsTo.close {w : World σ κ ν χ ο α} (h : T.HoldsTo post w) (slot : ℕ) :
    T.HoldsTo post (w.close slot) where
  inv := h.inv
  session p hp := h.session p (KeyedTable.mem_delete.mp hp).1
  apart p hp q hq := h.apart p (KeyedTable.mem_delete.mp hp).1 q (KeyedTable.mem_delete.mp hq).1
  drawn p hp := h.drawn p (KeyedTable.mem_delete.mp hp).1
  said := h.said

/-- A process ends with an answer that is true. -/
theorem HoldsTo.answer {w : World σ κ ν χ ο α} (h : T.HoldsTo post w) {a : α} (ha : T.said a w.db)
    (slot : ℕ) : T.HoldsTo post ({ w with answers := a :: w.answers }.close slot) := by
  refine ⟨h.inv, (h.close slot).session, (h.close slot).apart, (h.close slot).drawn, fun b hb => ?_⟩
  rcases List.mem_cons.mp hb with rfl | hb
  · exact ha
  · exact h.said b hb

/-- A process goes on, with what it held and perhaps one lock or number more. -/
theorem HoldsTo.resume {w : World σ κ ν χ ο α} {slot next : ℕ} (h : T.HoldsTo post (w.close slot))
    {s : Session σ κ ν χ ο α} (hnext : w.next ≤ next) (hs : T.SessionOk post w.db s)
    (hapart : ∀ q ∈ w.sessions, q.1 ≠ slot → ∀ k ∈ s.held, k ∉ q.2.held)
    (hdrawn : ∀ n, .number n ∈ s.held → n < next) :
    T.HoldsTo post ({ w with next := next }.resume slot s) := by
  have hmem : ∀ p, p ∈ (w.sessions.put (slot, s)) →
      p = (slot, s) ∨ (p ∈ (w.close slot).sessions ∧ p ∈ w.sessions ∧ p.1 ≠ slot) := by
    intro p hp
    rcases KeyedTable.mem_put.mp hp with rfl | ⟨hp, hne⟩
    · exact .inl rfl
    · exact .inr ⟨KeyedTable.mem_delete.mpr ⟨hp, decide_eq_false hne⟩, hp, hne⟩
  refine ⟨T.inv_mono hnext h.inv, fun p hp => ?_, fun p hp q hq k hkp hkq => ?_,
    fun p hp n hn => ?_, h.said⟩
  · rcases hmem p hp with rfl | ⟨hp, -⟩
    · exact hs
    · exact h.session p hp
  · rcases hmem p hp with rfl | ⟨hpc, hp, hpslot⟩ <;>
      rcases hmem q hq with rfl | ⟨hqc, hq, hqslot⟩
    · rfl
    · exact absurd hkq (hapart q hq hqslot k hkp)
    · exact absurd hkp (hapart p hp hpslot k hkq)
    · exact h.apart p hpc q hqc k hkp hkq
  · rcases hmem p hp with rfl | ⟨hp, -⟩
    · exact hdrawn n hn
    · exact Nat.lt_of_lt_of_le (h.drawn p hp n hn) hnext

theorem mem_nil_eq_nothing : (· ∈ ([] : List (Hold κ))) = nothing :=
  funext fun _ => propext ⟨List.not_mem_nil, False.elim⟩

theorem mem_cons_eq_add (k : Hold κ) (held : List (Hold κ)) :
    (· ∈ k :: held) = add (· ∈ held) k := by
  funext x
  exact propext List.mem_cons

theorem mem_numbersOf (held : List (Hold κ)) :
    (· ∈ World.numbersOf held) = numbers (· ∈ held) := by
  funext x
  refine propext ?_
  cases x with
  | lock k => simp [World.numbersOf, numbers]
  | number n => simp [World.numbersOf, numbers]

/-- A process goes on with the numbers it holds. -/
theorem HoldsTo.release {w : World σ κ ν χ ο α} {slot : ℕ} (h : T.HoldsTo post (w.close slot))
    {held : List (Hold κ)} {p : Process σ κ ν χ ο α} {K : σ → Prop}
    (hstable : T.Stable (numbers (· ∈ held)) K) (hK : K w.db)
    (hp : p.wp T.toDiscipline T.admits (numbers (· ∈ held)) K id post)
    (hapart : ∀ q ∈ w.sessions, q.1 ≠ slot → ∀ k ∈ held, k ∉ q.2.held)
    (hdrawn : ∀ n, .number n ∈ held → n < w.next) :
    T.HoldsTo post (w.resume slot ⟨World.numbersOf held, id, p⟩) := by
  have hsub : ∀ k ∈ World.numbersOf held, k ∈ held := fun k hk => (List.mem_filter.mp hk).1
  refine h.resume (Nat.le_refl _) ⟨K, ?_, hK, ?_⟩
    (fun q hq hne k hk => hapart q hq hne k (hsub k hk)) fun n hn => hdrawn n (hsub _ hn)
  · rw [mem_numbersOf]
    exact hstable
  · rw [mem_numbersOf]
    exact hp

/-- A commit that is admitted keeps what the other processes know. -/
theorem HoldsTo.commit {w : World σ κ ν χ ο α} (h : T.HoldsTo post w) {slot : ℕ}
    {s : Session σ κ ν χ ο α} (hs : (slot, s) ∈ w.sessions) {note : ν} {p : Process σ κ ν χ ο α}
    {K J : σ → Prop}
    (hK : K w.db)
    (hcommit : Process.CommitsTo T.toDiscipline T.admits note (· ∈ s.held) K s.pending J)
    (hgood : T.admits note (· ∈ s.held) w.db)
    (hp : p.wp T.toDiscipline T.admits (numbers (· ∈ s.held)) J id post) :
    T.HoldsTo post ({ w with db := s.pending w.db }.resume slot ⟨World.numbersOf s.held, id, p⟩) := by
  obtain ⟨hJ, hcommit⟩ := hcommit
  obtain ⟨hinv, hstep, hJs⟩ := hcommit w.db w.next h.inv (h.drawn _ hs) hK hgood
  refine @HoldsTo.release _ _ _ _ _ _ T post { w with db := s.pending w.db } slot
    ⟨hinv, fun q hq => ?_, (h.close slot).apart, (h.close slot).drawn,
      fun a ha => T.said_step h.inv hinv hstep (h.said a ha)⟩ s.held p J hJ hJs hp
    (fun q hq hne k hk hkq => hne (h.apart q hq _ hs k hkq hk)) (h.drawn _ hs)
  obtain ⟨hq, hslot⟩ := KeyedTable.mem_delete.mp hq
  obtain ⟨K', hstable, hK', hwp⟩ := h.session q hq
  refine ⟨K', hstable, hstable _ w.db w.next _ w.next h.inv hinv (fun k hk hks => ?_) hstep hK',
    hwp⟩
  exact of_decide_eq_false hslot (h.apart q hq _ hs k hk hks)

variable [DecidableEq κ]

theorem HoldsTo.step {prog : ρ → Process σ κ ν χ ο α}
    (hpost : ∀ L K f a, post L K f a → T.Answers L K f a)
    (hkept : ∀ r, (prog r).wp T.toDiscipline T.admits nothing (fun _ => True) id post)
    {w : World σ κ ν χ ο α} (h : T.HoldsTo post w) (a : WorldAction ρ ο)
    (hgood : w.Admits T.admits a) : T.HoldsTo post (w.step prog a) := by
  cases a with
  | crash slot => exact h.close slot
  | start slot r =>
    unfold World.step
    dsimp only
    split
    · exact h
    · refine (h.close slot).resume (Nat.le_refl _) ⟨fun _ => True, stable_true, trivial, ?_⟩
        (fun _ _ _ k hk => absurd hk List.not_mem_nil) fun n hn => absurd hn List.not_mem_nil
      rw [mem_nil_eq_nothing]
      exact hkept r
  | reply slot o =>
    unfold World.step
    dsimp only
    split
    · rename_i slot' held pending q p hfind
      obtain ⟨hp, rfl⟩ := KeyedTable.find?_eq_some.mp hfind
      obtain ⟨K, hstable, hK, hwp⟩ := h.session _ hp
      exact (h.close _).resume (Nat.le_refl _) ⟨K, hstable, hK, hwp o⟩
        (fun r hr hne k hk hkr => hne (h.apart r hr _ hp k hkr hk)) (h.drawn _ hp)
    · exact h
  | step slot =>
    unfold World.step
    dsimp only
    cases hfind : w.sessions.find? slot with
    | none => exact h
    | some p =>
      obtain ⟨slot', held, pending, rest⟩ := p
      obtain ⟨hp, rfl⟩ := KeyedTable.find?_eq_some.mp hfind
      obtain ⟨K, hstable, hK, hwp⟩ := h.session _ hp
      -- what the process held stays apart from what the others hold
      have hold : ∀ q ∈ w.sessions, q.1 ≠ slot' → ∀ k ∈ held, k ∉ q.2.held :=
        fun q hq hne k hk hkq => hne (h.apart q hq _ hp k hkq hk)
      unfold World.statement
      dsimp only at hwp hstable ⊢
      cases rest with
      | done a => exact h.answer (hpost _ _ _ _ hwp w.db w.next h.inv hK) slot'
      | lock k p =>
        dsimp only
        split
        · exact h
        · rename_i hfree
          refine (h.close slot').resume (Nat.le_refl _) ⟨K, ?_, hK, ?_⟩
            (fun q hq hne x hx => ?_) fun n hn => ?_
          · rw [mem_cons_eq_add]
            exact hstable.add _
          · rw [mem_cons_eq_add]
            exact hwp
          · rcases List.mem_cons.mp hx with rfl | hx
            · intro hheld
              exact hfree (List.any_eq_true.mpr ⟨q, hq, decide_eq_true ⟨hne, hheld⟩⟩)
            · exact hold q hq hne x hx
          · rcases List.mem_cons.mp hn with hn | hn
            · cases hn
            · exact h.drawn _ hp n hn
      | read p =>
        obtain ⟨K', hstable', hK', hwp⟩ := hwp w.db w.next h.inv hK
        exact (h.close slot').resume (Nat.le_refl _) ⟨K', hstable', hK', hwp⟩ hold (h.drawn _ hp)
      | write f p =>
        exact (h.close slot').resume (Nat.le_refl _) ⟨K, hstable, hK, hwp⟩ hold (h.drawn _ hp)
      | fresh p =>
        obtain ⟨K', hstable', hK', hwp⟩ := hwp w.db w.next h.inv hK
        refine (h.close slot').resume (Nat.le_succ _) ⟨K', ?_, hK', ?_⟩
          (fun q hq hne x hx => ?_) fun n hn => ?_
        · rw [mem_cons_eq_add]
          exact hstable'
        · rw [mem_cons_eq_add]
          exact hwp
        · rcases List.mem_cons.mp hx with rfl | hx
          · exact fun hheld => absurd (h.drawn q hq _ hheld) (Nat.lt_irrefl _)
          · exact hold q hq hne x hx
        · rcases List.mem_cons.mp hn with hn | hn
          · rw [Hold.number.inj hn]
            exact Nat.lt_succ_self _
          · exact Nat.lt_succ_of_lt (h.drawn _ hp n hn)
      | commit note p =>
        obtain ⟨J, hcommit, hwp⟩ := hwp
        exact h.commit hp hK hcommit (hgood (note, held) (by simp [World.committing, hfind])) hwp
      | abandon p =>
        obtain ⟨J, hJ, hKJ, hwp⟩ := hwp
        exact (h.close slot').release hJ (hKJ w.db w.next h.inv hK) hwp hold (h.drawn _ hp)
      | call q p => exact h

/-- The terms hold before the first request. -/
theorem holdsTo_of_init {init : σ → ℕ → Prop} (hinit : ∀ s n, init s n → T.inv s n)
    {prog : ρ → Process σ κ ν χ ο α} {w : World σ κ ν χ ο α} (h : (serve prog init).init w) :
    T.HoldsTo post w := by
  obtain ⟨hw, hnone, hquiet⟩ := h
  have hno : ∀ p, p ∉ w.sessions := by
    rw [hnone]
    exact KeyedTable.notMem_empty
  refine ⟨hinit _ _ hw, fun p hp => absurd hp (hno p), fun p hp => absurd hp (hno p),
    fun p hp => absurd hp (hno p), fun a ha => ?_⟩
  rw [hquiet] at ha
  exact absurd ha List.not_mem_nil

/-- The terms hold in every state of every interleaving whose commits are admitted. -/
theorem holds_of_reach {prog : ρ → Process σ κ ν χ ο α} (hkept : ∀ r, T.Kept (prog r))
    {init : σ → ℕ → Prop} (hinit : ∀ s n, init s n → T.inv s n) {w : World σ κ ν χ ο α}
    (h : (serve prog init).Reach (World.Admits T.admits) w) : T.Holds w :=
  Machine.invariant (fun _ => holdsTo_of_init hinit)
    (fun _ a _ ih hgood => ih.step (fun _ _ _ _ => id) hkept a hgood) h

/-- The committed database changes only when a process commits, and then as the discipline
allows. -/
theorem HoldsTo.step_db {prog : ρ → Process σ κ ν χ ο α} {w : World σ κ ν χ ο α}
    (h : T.HoldsTo post w) (a : WorldAction ρ ο) (hgood : w.Admits T.admits a) :
    (w.step prog a).db = w.db ∨ ∃ slot held pending note p, a = .step slot ∧
      (slot, ⟨held, pending, .commit note p⟩) ∈ w.sessions ∧
      T.admits note (· ∈ held) w.db ∧ T.step (· ∈ held) w.db (w.step prog a).db := by
  cases a with
  | crash slot => exact .inl rfl
  | start slot r =>
    left
    unfold World.step
    dsimp only
    split <;> rfl
  | reply slot o =>
    left
    unfold World.step
    dsimp only
    split <;> rfl
  | step slot =>
    unfold World.step
    dsimp only
    cases hfind : w.sessions.find? slot with
    | none => exact .inl rfl
    | some p =>
      obtain ⟨slot', held, pending, rest⟩ := p
      obtain ⟨hp, rfl⟩ := KeyedTable.find?_eq_some.mp hfind
      obtain ⟨K, -, hK, hwp⟩ := h.session _ hp
      unfold World.statement
      dsimp only at hwp ⊢
      cases rest with
      | commit note p =>
        obtain ⟨J, ⟨-, hcommit⟩, -⟩ := hwp
        have hgood : T.admits note (· ∈ held) w.db :=
          hgood (note, held) (by simp [World.committing, hfind])
        exact .inr ⟨slot', held, pending, note, p, rfl, hp, hgood,
          (hcommit w.db w.next h.inv (h.drawn _ hp) hK hgood).2.1⟩
      | done a => exact .inl rfl
      | lock k p =>
        left
        dsimp only
        split <;> rfl
      | read p => exact .inl rfl
      | write f p => exact .inl rfl
      | fresh p => exact .inl rfl
      | abandon p => exact .inl rfl
      | call q p => exact .inl rfl

/-- What commits keep that are admitted, from a state that is reached, runs keep. -/
theorem relation_of_run {prog : ρ → Process σ κ ν χ ο α} (hkept : ∀ r, T.Kept (prog r))
    {init : σ → ℕ → Prop} (hinit : ∀ s n, init s n → T.inv s n) {R : σ → σ → Prop}
    (hrefl : ∀ s, R s s) (htrans : ∀ s s' s'', R s s' → R s' s'' → R s s'')
    (hstep : ∀ L s n s', T.inv s n → T.step L s s' → R s s') {w : World σ κ ν χ ο α}
    (h : (serve prog init).Reach (World.Admits T.admits) w) {as : List (WorldAction ρ ο)}
    (hgood : (serve prog init).GoodRun (World.Admits T.admits) w as) :
    R w.db ((serve prog init).run w as).db := by
  induction as generalizing w with
  | nil => exact hrefl _
  | cons a as ih =>
    obtain ⟨hgood₁, hgood⟩ := hgood
    refine htrans _ _ _ ?_ (ih (h.step a hgood₁) hgood)
    have hholds := holds_of_reach hkept hinit h
    rcases hholds.step_db a hgood₁ with hsame | ⟨_, _, _, _, _, _, _, _, hs⟩
    · change R w.db (w.step prog a).db
      rw [hsame]
      exact hrefl _
    · exact hstep _ _ _ _ hholds.inv hs

end Terms

namespace Discipline

open Process

variable {σ κ ν χ ο ε α ρ : Type} [DecidableEq κ] (D : Discipline σ κ)

/-- The terms of a discipline that admits every commit, and whose answers say nothing. -/
def terms : Terms σ κ ν α where
  toDiscipline := D
  admits _ _ _ := True
  said _ _ := True
  said_step _ _ _ h := h

variable {D}

/-- Where every transaction keeps the discipline, it holds in every state of every interleaving. -/
theorem inv_of_serve {prog : ρ → Tx σ κ ε α} {note : ρ → α → ν} (hsafe : ∀ r, D.Safe (prog r))
    {init : σ → ℕ → Prop} (hinit : ∀ s n, init s n → D.inv s n)
    {w : World σ κ ν χ ο (Except ε α)}
    (h : (serve (fun r => .transaction (note r) (prog r)) init).Reachable w) :
    D.inv w.db w.next := by
  have hreach : (serve (fun r => .transaction (note r) (prog r)) init).Reach
      (World.Admits (D.terms : Terms σ κ ν (Except ε α)).admits) w :=
    h.mono fun w a _ => World.admits_of_forall (fun _ _ _ => trivial) w a
  exact (Terms.holds_of_reach (T := D.terms) (fun r => wp_transaction_of_safe (hsafe r)
    fun _ _ _ _ _ _ _ => trivial) hinit hreach).inv

/-- What commits keep, runs of such transactions keep. -/
theorem relation_of_serve {prog : ρ → Tx σ κ ε α} {note : ρ → α → ν} (hsafe : ∀ r, D.Safe (prog r))
    {init : σ → ℕ → Prop} (hinit : ∀ s n, init s n → D.inv s n) {R : σ → σ → Prop}
    (hrefl : ∀ s, R s s) (htrans : ∀ s s' s'', R s s' → R s' s'' → R s s'')
    (hstep : ∀ L s n s', D.inv s n → D.step L s s' → R s s') {w : World σ κ ν χ ο (Except ε α)}
    (h : (serve (fun r => .transaction (note r) (prog r)) init).Reachable w)
    (as : List (WorldAction ρ ο)) :
    R w.db ((serve (fun r => .transaction (note r) (prog r)) init).run w as).db :=
  Terms.relation_of_run (T := D.terms) (fun r => wp_transaction_of_safe (hsafe r)
      fun _ _ _ _ _ _ _ => trivial) hinit hrefl htrans hstep
    (h.mono fun w a _ => World.admits_of_forall (fun _ _ _ => trivial) w a)
    (Machine.goodRun_of_forall (fun w a => World.admits_of_forall (fun _ _ _ => trivial) w a) w as)

end Discipline
