import Mathlib.Logic.Relation
import Mathlib.Data.List.Basic

/-!
# Machines and their runs

A machine has initial states and a total step for every action. Its reachable states are those
of all runs; a run may be asked to take only actions that are good in the state they are taken
in. An abstract view of a machine is related to it by effects: every step of the machine is, in
the view, a finite sequence of effects.

## Main definitions

* `Machine`, `Machine.Reach` — a machine and the states of its good runs.
* `Machine.Steps` — one state later in the same run than another.
* `Machine.SimulatedBy` — every step is a sequence of effects on the view.

## Main results

* `Machine.invariant` — what holds initially and is kept by good steps holds when reached.
* `Machine.SimulatedBy.reach`, `Machine.SimulatedBy.relation` — what effects keep, runs keep.
* `Machine.reach_run` — the end of a run all of whose actions are good.
-/

/-- Initial states and a step for every action. -/
structure Machine (σ α : Type*) where
  init : σ → Prop
  step : σ → α → σ

namespace Machine

variable {σ α τ : Type*} (M : Machine σ α)

/-- The states reached by runs whose actions are all good. -/
inductive Reach (good : σ → α → Prop) : σ → Prop
  | init {s : σ} (h : M.init s) : Reach good s
  | step {s : σ} (a : α) (h : Reach good s) (hgood : good s a) : Reach good (M.step s a)

/-- The states reached by any run. -/
abbrev Reachable (s : σ) : Prop := M.Reach (fun _ _ => True) s

/-- The end of a run. -/
def run (s : σ) (as : List α) : σ := as.foldl M.step s

/-- Every action of a run is good where it is taken. -/
def GoodRun (good : σ → α → Prop) : σ → List α → Prop
  | _, [] => True
  | s, a :: as => good s a ∧ GoodRun good (M.step s a) as

instance decidableGoodRun {good : σ → α → Prop} [∀ s a, Decidable (good s a)] :
    ∀ (s : σ) (as : List α), Decidable (M.GoodRun good s as)
  | _, [] => .isTrue trivial
  | s, a :: as =>
    have : Decidable (M.GoodRun good (M.step s a) as) := decidableGoodRun (M.step s a) as
    inferInstanceAs (Decidable (good s a ∧ M.GoodRun good (M.step s a) as))

/-- The second state comes later than the first in some run, or is the first. -/
def Steps : σ → σ → Prop := Relation.ReflTransGen fun s t => ∃ a, t = M.step s a

variable {M}

/-- What holds initially and is kept by good steps holds of every state reached. -/
theorem invariant {good : σ → α → Prop} {P : σ → Prop} (hinit : ∀ s, M.init s → P s)
    (hstep : ∀ s a, M.Reach good s → P s → good s a → P (M.step s a)) {s : σ}
    (h : M.Reach good s) : P s := by
  induction h with
  | init h => exact hinit _ h
  | step a h hgood ih => exact hstep _ a h ih hgood

theorem Reach.mono {good good' : σ → α → Prop} (himp : ∀ s a, good s a → good' s a) {s : σ}
    (h : M.Reach good s) : M.Reach good' s :=
  invariant (fun _ => .init) (fun s a _ ih hgood => .step a ih (himp s a hgood)) h

theorem Reach.reachable {good : σ → α → Prop} {s : σ} (h : M.Reach good s) : M.Reachable s :=
  h.mono fun _ _ _ => trivial

/-- A good run from a state that is reached ends in a state that is reached. -/
theorem reach_run {good : σ → α → Prop} {s : σ} (as : List α) (h : M.Reach good s)
    (hgood : M.GoodRun good s as) : M.Reach good (M.run s as) := by
  induction as generalizing s with
  | nil => exact h
  | cons a as ih => exact ih (.step a h hgood.1) hgood.2

/-- Where every action is good, every run is. -/
theorem goodRun_of_forall {good : σ → α → Prop} (h : ∀ s a, good s a) (s : σ) (as : List α) :
    M.GoodRun good s as := by
  induction as generalizing s with
  | nil => trivial
  | cons a as ih => exact ⟨h s a, ih _⟩

theorem reachable_run {s : σ} (as : List α) (h : M.Reachable s) : M.Reachable (M.run s as) :=
  reach_run as h (goodRun_of_forall (fun _ _ => trivial) s as)

theorem Steps.reachable {s t : σ} (h : M.Steps s t) (hs : M.Reachable s) : M.Reachable t := by
  induction h with
  | refl => exact hs
  | tail _ hlast ih =>
    obtain ⟨a, rfl⟩ := hlast
    exact .step a ih trivial

/-- A relation that is reflexive, transitive and holds over every step of a reachable state
holds from every reachable state to the later ones. -/
theorem Steps.relation {R : σ → σ → Prop} (hrefl : ∀ s, R s s)
    (htrans : ∀ s t u, R s t → R t u → R s u) (hstep : ∀ s a, M.Reachable s → R s (M.step s a))
    {s t : σ} (hs : M.Reachable s) (h : M.Steps s t) : R s t := by
  induction h with
  | refl => exact hrefl s
  | tail hprev hlast ih =>
    obtain ⟨a, rfl⟩ := hlast
    exact htrans _ _ _ ih (hstep _ a (Steps.reachable hprev hs))

/-! ### Effects on a view -/

variable (M) in
/-- Every step from a reachable state whose view satisfies the invariant is a finite sequence of
effects on the view. -/
def SimulatedBy (view : σ → τ) (I : τ → Prop) (effect : τ → τ → Prop) : Prop :=
  ∀ s a, M.Reachable s → I (view s) → Relation.ReflTransGen effect (view s) (view (M.step s a))

section SimulatedBy

variable {view : σ → τ} {I : τ → Prop} {effect : τ → τ → Prop}

theorem effects_keep (heffect : ∀ v w, effect v w → I v → I w) {v w : τ}
    (h : Relation.ReflTransGen effect v w) (hv : I v) : I w := by
  induction h with
  | refl => exact hv
  | tail _ hlast ih => exact heffect _ _ hlast ih

/-- An invariant that every effect keeps holds of the view of every reachable state. -/
theorem SimulatedBy.reach (h : M.SimulatedBy view I effect)
    (hinit : ∀ s, M.init s → I (view s)) (heffect : ∀ v w, effect v w → I v → I w) {s : σ}
    (hs : M.Reachable s) : I (view s) :=
  invariant (P := fun s => I (view s)) hinit
    (fun s a hs ih _ => effects_keep heffect (h s a hs ih) ih) hs

/-- A further property that effects keep where the invariant holds. -/
theorem SimulatedBy.reach_and (h : M.SimulatedBy view I effect)
    (hinit : ∀ s, M.init s → I (view s)) (heffect : ∀ v w, effect v w → I v → I w)
    {P : τ → Prop} (hP : ∀ s, M.init s → P (view s))
    (hkeep : ∀ v w, effect v w → I v → P v → P w) {s : σ} (hs : M.Reachable s) : P (view s) := by
  refine invariant (P := fun s => P (view s)) hP (fun s a hs ih _ => ?_) hs
  have hI := h.reach hinit heffect hs
  exact (effects_keep (I := fun v => I v ∧ P v)
    (fun v w hvw hv => ⟨heffect v w hvw hv.1, hkeep v w hvw hv.1 hv.2⟩) (h s a hs hI) ⟨hI, ih⟩).2

/-- A reflexive and transitive relation that every effect respects, where the invariant holds,
relates the views of a state and of those after it. -/
theorem SimulatedBy.relation (h : M.SimulatedBy view I effect)
    (hinit : ∀ s, M.init s → I (view s)) (heffect : ∀ v w, effect v w → I v → I w)
    {R : τ → τ → Prop} (hrefl : ∀ v, R v v) (htrans : ∀ v w x, R v w → R w x → R v x)
    (hR : ∀ v w, effect v w → I v → R v w) {s t : σ} (hs : M.Reachable s) (hst : M.Steps s t) :
    R (view s) (view t) := by
  refine Steps.relation (R := fun s t => R (view s) (view t)) (fun s => hrefl _)
    (fun s t u => htrans _ _ _) (fun s a hs => ?_) hs hst
  have hI := h.reach hinit heffect hs
  exact (effects_keep (I := fun w => I w ∧ R (view s) w)
    (fun v w hvw hv => ⟨heffect v w hvw hv.1, htrans _ _ _ hv.2 (hR v w hvw hv.1)⟩)
    (h s a hs hI) ⟨hI, hrefl _⟩).2

end SimulatedBy

end Machine
