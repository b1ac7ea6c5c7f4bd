import StelloKitchens.Lib.Process

/-!
# What is owed by processes in progress

A process can put something under a number of its own that it has to see to before it ends, such
as a row that it has claimed and has to decide. If it ends only when nothing is owed under its
numbers, and none stops for good before, then whatever is owed is owed by a process in progress.

## Main definitions

* `Terms.Discharges` — a process keeps the terms, and owes nothing when it ends.
* `World.Attended`, `World.Spares` — what is owed has its process, and no process stops that owes.

## Main results

* `Terms.attended_of_reach` — what is owed, over all interleavings.
-/

open Discipline

variable {σ κ ν χ ο α ρ : Type}

/-- Something is owed under a number that is held. -/
def Hold.Owed (owes : ℕ → σ → Prop) (s : σ) : Hold κ → Prop
  | .number m => owes m s
  | .lock _ => False

instance {owes : ℕ → σ → Prop} [∀ m s, Decidable (owes m s)] (s : σ) (k : Hold κ) :
    Decidable (k.Owed owes s) :=
  match k with
  | .number m => inferInstanceAs (Decidable (owes m s))
  | .lock _ => .isFalse id

namespace World

/-- What is owed is owed by a process in progress. -/
def Attended (owes : ℕ → σ → Prop) (w : World σ κ ν χ ο α) : Prop :=
  ∀ m, owes m w.db → ∃ p ∈ w.sessions, .number m ∈ p.2.held

/-- No process stops for good that owes something. -/
def Spares (owes : ℕ → σ → Prop) (w : World σ κ ν χ ο α) : WorldAction ρ ο → Prop
  | .crash slot => ∀ p ∈ w.sessions.rows, p.1 = slot → ∀ k ∈ p.2.held, ¬k.Owed owes w.db
  | _ => True

instance {owes : ℕ → σ → Prop} [∀ m s, Decidable (owes m s)] (w : World σ κ ν χ ο α)
    (a : WorldAction ρ ο) : Decidable (w.Spares owes a) :=
  match a with
  | .crash slot => inferInstanceAs (Decidable
      (∀ p ∈ w.sessions.rows, p.1 = slot → ∀ k ∈ p.2.held, ¬k.Owed owes w.db))
  | .start _ _ => .isTrue trivial
  | .step _ => .isTrue trivial
  | .reply _ _ => .isTrue trivial

variable {owes : ℕ → σ → Prop} {w : World σ κ ν χ ο α}

/-- A process goes on with the numbers it had. -/
theorem Attended.put (h : w.Attended owes) {w' : World σ κ ν χ ο α} {slot : ℕ}
    {s : Session σ κ ν χ ο α} (hsessions : w'.sessions = w.sessions.put (slot, s))
    (hkeep : ∀ old, (slot, old) ∈ w.sessions → ∀ m, .number m ∈ old.held → .number m ∈ s.held)
    (howes : ∀ m, owes m w'.db → owes m w.db ∨ .number m ∈ s.held) : w'.Attended owes := by
  have hself : (slot, s) ∈ w'.sessions := by
    rw [hsessions]
    exact KeyedTable.mem_put.mpr (.inl rfl)
  intro m hm
  rcases howes m hm with hm | hm
  · obtain ⟨⟨slot', old⟩, hp, hheld⟩ := h m hm
    by_cases hslot : slot' = slot
    · subst hslot
      exact ⟨_, hself, hkeep old hp m hheld⟩
    · refine ⟨_, ?_, hheld⟩
      rw [hsessions]
      exact KeyedTable.mem_put.mpr (.inr ⟨hp, hslot⟩)
  · exact ⟨_, hself, hm⟩

/-- A process ends that owes nothing. -/
theorem Attended.close (h : w.Attended owes) {w' : World σ κ ν χ ο α} {slot : ℕ}
    (hdb : w'.db = w.db) (hsessions : w'.sessions = w.sessions.delete fun p => p.1 = slot)
    (hfree : ∀ p ∈ w.sessions, p.1 = slot → ∀ m, .number m ∈ p.2.held → ¬owes m w.db) :
    w'.Attended owes := by
  intro m hm
  rw [hdb] at hm
  obtain ⟨p, hp, hheld⟩ := h m hm
  refine ⟨p, ?_, hheld⟩
  rw [hsessions]
  exact KeyedTable.mem_delete.mpr ⟨hp, decide_eq_false fun hslot => hfree p hp hslot m hheld hm⟩

end World

namespace Terms

variable (T : Terms σ κ ν α) (owes : ℕ → σ → Prop)

/-- Where a process ends, its answer is true and nothing is owed under its numbers. -/
def Settled (L : Hold κ → Prop) (K : σ → Prop) (f : σ → σ) (a : α) : Prop :=
  T.Answers L K f a ∧ ∀ s n, T.inv s n → K s → ∀ m, L (.number m) → ¬owes m s

/-- The process keeps the terms whatever the others do, and owes nothing when it ends. -/
def Discharges (p : Process σ κ ν χ ο α) : Prop :=
  p.wp T.toDiscipline T.admits nothing (fun _ => True) id (T.Settled owes)

variable {T owes} [DecidableEq κ]

theorem HoldsTo.attended_step {prog : ρ → Process σ κ ν χ ο α}
    (hstep : ∀ L s s' m, T.step L s s' → owes m s' → owes m s ∨ L (.number m))
    {w : World σ κ ν χ ο α} (h : T.HoldsTo (T.Settled owes) w) (hw : w.Attended owes)
    (a : WorldAction ρ ο) (hgood : w.Admits T.admits a) (hspares : w.Spares owes a) :
    (w.step prog a).Attended owes := by
  cases a with
  | crash slot =>
    exact hw.close rfl rfl fun p hp hslot m hm => hspares p hp hslot _ hm
  | start slot r =>
    unfold World.step
    dsimp only
    split
    · exact hw
    · rename_i hnone
      refine hw.put rfl (fun old (hold : (slot, old) ∈ w.sessions) => ?_) fun m hm => .inl hm
      rw [KeyedTable.find?_eq_some.mpr ⟨hold, rfl⟩] at hnone
      cases hnone
  | reply slot o =>
    unfold World.step
    dsimp only
    split
    · rename_i slot' held pending q p hfind
      obtain ⟨hp, rfl⟩ := KeyedTable.find?_eq_some.mp hfind
      refine hw.put rfl (fun old hold m hm => ?_) fun m hm => .inl hm
      obtain rfl := (Prod.mk.inj (KeyedTable.eq_of_mem hold hp rfl)).2
      exact hm
    · exact hw
  | step slot =>
    unfold World.step
    dsimp only
    cases hfind : w.sessions.find? slot with
    | none => exact hw
    | some p =>
      obtain ⟨slot', held, pending, rest⟩ := p
      obtain ⟨hp, rfl⟩ := KeyedTable.find?_eq_some.mp hfind
      obtain ⟨K, -, hK, hwp⟩ := h.session _ hp
      -- whatever is held, the numbers stay
      have hkeep : ∀ held' : List (Hold κ), (∀ m, .number m ∈ held → .number m ∈ held') →
          ∀ old, (slot', old) ∈ w.sessions → ∀ m, .number m ∈ old.held → .number m ∈ held' := by
        intro held' hsub old hold m hm
        obtain rfl := (Prod.mk.inj (KeyedTable.eq_of_mem hold hp rfl)).2
        exact hsub m hm
      have hnumbers : ∀ m, Hold.number m ∈ held → .number m ∈ World.numbersOf held :=
        fun m hm => List.mem_filter.mpr ⟨hm, rfl⟩
      unfold World.statement
      dsimp only at hwp ⊢
      cases rest with
      | done a =>
        refine hw.close rfl rfl fun q hq hslot m hm => ?_
        rw [KeyedTable.eq_of_mem hq hp hslot] at hm
        exact hwp.2 w.db w.next h.inv hK m hm
      | lock k p =>
        dsimp only
        split
        · exact hw
        · exact hw.put rfl (hkeep _ fun m => List.mem_cons_of_mem _) fun m hm => .inl hm
      | read p => exact hw.put rfl (hkeep _ fun m => id) fun m hm => .inl hm
      | write f p => exact hw.put rfl (hkeep _ fun m => id) fun m hm => .inl hm
      | fresh p =>
        exact hw.put rfl (hkeep _ fun m => List.mem_cons_of_mem _) fun m hm => .inl hm
      | commit note p =>
        obtain ⟨J, ⟨-, hcommit⟩, -⟩ := hwp
        have hgood : T.admits note (· ∈ held) w.db :=
          hgood (note, held) (by simp [World.committing, hfind])
        have hdb := (hcommit w.db w.next h.inv (h.drawn _ hp) hK hgood).2.1
        exact hw.put rfl (hkeep _ hnumbers) fun m hm =>
          (hstep _ _ _ m hdb hm).imp_right (hnumbers m)
      | abandon p => exact hw.put rfl (hkeep _ hnumbers) fun m hm => .inl hm
      | call q p => exact hw

/-- In every run whose commits are admitted, and in which no process stops that owes something,
what is owed is owed by a process in progress. -/
theorem attended_of_reach {prog : ρ → Process σ κ ν χ ο α}
    (hkept : ∀ r, T.Discharges owes (prog r))
    (hstep : ∀ L s s' m, T.step L s s' → owes m s' → owes m s ∨ L (.number m))
    {init : σ → ℕ → Prop} (hinit : ∀ s n, init s n → T.inv s n)
    (hnone : ∀ s n, init s n → ∀ m, ¬owes m s) {w : World σ κ ν χ ο α}
    (h : (serve prog init).Reach (fun w a => w.Admits T.admits a ∧ w.Spares owes a) w) :
    T.HoldsTo (T.Settled owes) w ∧ w.Attended owes := by
  refine Machine.invariant (P := fun w => T.HoldsTo (T.Settled owes) w ∧ w.Attended owes)
    (fun w hw => ⟨holdsTo_of_init hinit hw, fun m hm => absurd hm (hnone _ _ hw.1 m)⟩)
    (fun w a _ ih hgood => ⟨ih.1.step (fun _ _ _ _ hpost => hpost.1) hkept a hgood.1,
      ih.1.attended_step hstep ih.2 a hgood.1 hgood.2⟩) h

end Terms
