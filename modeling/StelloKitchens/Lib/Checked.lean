import Mathlib.Tactic.Common

/-!
# Checked computations

A computation that validates its input before it acts is a chain of checks in `Except`. A run
that succeeds passed every check, and the lemmas here read exactly that off a success: each one
turns "this step returned" into the fact the step checked.

## Main definitions

* `Checked.ensure` — go on if a condition holds.
* `Checked.orThrow` — go on with the value that is there.

## Main results

* `Checked.bind_eq_ok`, `Checked.ensure_eq_ok`, `Checked.orThrow_eq_ok` — what success says.
* `Checked.foldlM_invariant` — an invariant of a checked loop.
-/

namespace Checked

universe u

variable {ε : Type*} {α β : Type u}

/-- Go on if a condition holds, else fail. -/
def ensure (c : Prop) [Decidable c] (e : ε) : Except ε Unit := if c then .ok () else .error e

/-- Go on with the value that is there, else fail. -/
def orThrow (o : Option α) (e : ε) : Except ε α := o.elim (.error e) .ok

theorem bind_eq_ok {x : Except ε α} {f : α → Except ε β} {b : β} :
    x >>= f = .ok b ↔ ∃ a, x = .ok a ∧ f a = .ok b := by
  cases x with
  | error e => exact ⟨fun h => (nomatch h), fun ⟨_, h, _⟩ => (nomatch h)⟩
  | ok a => exact ⟨fun h => ⟨a, rfl, h⟩, fun ⟨_, h, hf⟩ => by cases h; exact hf⟩

theorem ensure_eq_ok {c : Prop} [Decidable c] {e : ε} {u : Unit} :
    ensure c e = .ok u ↔ c := by
  unfold ensure
  split
  · exact ⟨fun _ => ‹c›, fun _ => rfl⟩
  · exact ⟨fun h => (nomatch h), fun h => absurd h ‹¬c›⟩

theorem orThrow_eq_ok {o : Option α} {e : ε} {a : α} : orThrow o e = .ok a ↔ o = some a := by
  cases o with
  | none => exact ⟨fun h => (nomatch h), fun h => (nomatch h)⟩
  | some b => exact ⟨fun h => by cases h; rfl, fun h => by cases h; rfl⟩

theorem pure_eq_ok {a b : α} : (pure a : Except ε α) = .ok b ↔ a = b :=
  ⟨fun h => by cases h; rfl, fun h => by cases h; rfl⟩

theorem map_eq_ok {x : Except ε α} {f : α → β} {b : β} :
    f <$> x = .ok b ↔ ∃ a, x = .ok a ∧ f a = b := by
  cases x with
  | error e => exact ⟨fun h => (nomatch h), fun ⟨_, h, _⟩ => (nomatch h)⟩
  | ok a => exact ⟨fun h => ⟨a, rfl, by cases h; rfl⟩, fun ⟨_, h, hf⟩ => by cases h; cases hf; rfl⟩

/-! ### One step -/

theorem ok_bind (a : α) (f : α → Except ε β) : (.ok a >>= f : Except ε β) = f a := rfl

theorem error_bind (e : ε) (f : α → Except ε β) : (.error e >>= f : Except ε β) = .error e := rfl

theorem mapError_ok {ε' : Type*} (a : α) (f : ε → ε') :
    (Except.ok a : Except ε α).mapError f = .ok a := rfl

theorem mapError_error {ε' : Type*} (e : ε) (f : ε → ε') :
    (Except.error e : Except ε α).mapError f = .error (f e) := rfl

theorem mapError_eq_ok {ε' : Type*} {x : Except ε α} {f : ε → ε'} {a : α} :
    x.mapError f = .ok a ↔ x = .ok a := by
  cases x with
  | error e => exact ⟨fun h => (nomatch h), fun h => (nomatch h)⟩
  | ok b => exact ⟨fun h => by cases h; rfl, fun h => by cases h; rfl⟩

theorem ensure_pos {c : Prop} [Decidable c] {e : ε} (h : c) : ensure c e = .ok () := if_pos h

theorem ensure_neg {c : Prop} [Decidable c] {e : ε} (h : ¬c) : ensure c e = .error e := if_neg h

/-! ### Loops -/

/-- What holds at the start of a checked loop and is kept by every step holds at its end. -/
theorem foldlM_invariant {γ : Type*} (P : β → Prop) {f : β → γ → Except ε β} {l : List γ}
    (hstep : ∀ b c b', P b → c ∈ l → f b c = .ok b' → P b') {b b' : β}
    (h : l.foldlM f b = .ok b') (hb : P b) : P b' := by
  induction l generalizing b with
  | nil =>
    cases h
    exact hb
  | cons c l ih =>
    rw [List.foldlM_cons, bind_eq_ok] at h
    obtain ⟨b₁, h₁, h⟩ := h
    exact ih (fun b c b' hb hc => hstep b c b' hb (List.mem_cons_of_mem _ hc)) h
      (hstep b c b₁ hb List.mem_cons_self h₁)

/-- A checked loop whose steps succeed whatever was gathered so far, or never, succeeds when all
of them do. -/
theorem foldlM_isOk {γ : Type*} {f : β → γ → Except ε β} {p : γ → Prop}
    (hstep : ∀ b c, (∃ b', f b c = .ok b') ↔ p c) (l : List γ) (b : β) :
    (∃ b', l.foldlM f b = .ok b') ↔ ∀ c ∈ l, p c := by
  induction l generalizing b with
  | nil => exact ⟨fun _ c hc => (nomatch hc), fun _ => ⟨b, rfl⟩⟩
  | cons c l ih =>
    simp only [List.foldlM_cons, bind_eq_ok, List.forall_mem_cons]
    constructor
    · rintro ⟨b', b₁, h₁, h⟩
      exact ⟨(hstep b c).mp ⟨b₁, h₁⟩, (ih b₁).mp ⟨b', h⟩⟩
    · rintro ⟨hc, hl⟩
      obtain ⟨b₁, h₁⟩ := (hstep b c).mpr hc
      obtain ⟨b', h⟩ := (ih b₁).mpr hl
      exact ⟨b', b₁, h₁, h⟩

/-- Every result of a checked map comes from a step that succeeded. -/
theorem forall_mem_of_mapM {f : α → Except ε β} {l : List α} {l' : List β}
    (h : l.mapM f = .ok l') : ∀ b ∈ l', ∃ a ∈ l, f a = .ok b := by
  induction l generalizing l' with
  | nil =>
    cases h
    intro b hb
    cases hb
  | cons a l ih =>
    rw [List.mapM_cons, bind_eq_ok] at h
    obtain ⟨b₁, h₁, h⟩ := h
    rw [bind_eq_ok] at h
    obtain ⟨l₁, hl₁, h⟩ := h
    cases h
    intro b hb
    rcases List.mem_cons.mp hb with rfl | hb
    · exact ⟨a, List.mem_cons_self, h₁⟩
    · obtain ⟨a', ha', h'⟩ := ih hl₁ b hb
      exact ⟨a', List.mem_cons_of_mem _ ha', h'⟩

/-- The results of a checked map, one after another. -/
theorem forall₂_of_mapM {f : α → Except ε β} {l : List α} {l' : List β}
    (h : l.mapM f = .ok l') : List.Forall₂ (fun a b => f a = .ok b) l l' := by
  induction l generalizing l' with
  | nil =>
    cases h
    exact .nil
  | cons a l ih =>
    rw [List.mapM_cons, bind_eq_ok] at h
    obtain ⟨b, hb, h⟩ := h
    rw [bind_eq_ok] at h
    obtain ⟨bs, hbs, h⟩ := h
    cases h
    exact .cons hb (ih hbs)

/-- A checked map returns one result for each input. -/
theorem length_of_mapM {f : α → Except ε β} {l : List α} {l' : List β}
    (h : l.mapM f = .ok l') : l'.length = l.length := by
  induction l generalizing l' with
  | nil =>
    cases h
    rfl
  | cons a l ih =>
    rw [List.mapM_cons, bind_eq_ok] at h
    obtain ⟨b₁, -, h⟩ := h
    rw [bind_eq_ok] at h
    obtain ⟨l₁, hl₁, h⟩ := h
    cases h
    rw [List.length_cons, List.length_cons, ih hl₁]

/-- The error of a computation that is refused. -/
def refusal {ε α : Type*} : Except ε α → Option ε
  | .ok _ => none
  | .error e => some e

theorem refusal_eq_some {ε α : Type*} {x : Except ε α} {e : ε} :
    refusal x = some e ↔ x = .error e := by
  cases x <;> simp [refusal]

end Checked
