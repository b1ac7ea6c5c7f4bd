import StelloKitchens.Lib.Process

/-!
# Parts of a database that locks guard

Often a lock guards a part of the database, such as a row: no one changes the part without holding
the lock. What a transaction reads of a part whose lock it holds stays so until it commits, and a
conditional update of such a part finds its condition true when it commits.

## Main definitions

* `Discipline.Guards` — a lock guards a part of the database.
* `Discipline.Regular` — commits can be put together from single writes.
* `Discipline.Running` — the effect of a transaction's writes so far on a view.
* `TableStep` — what commits do to a table each of whose rows has its lock.

## Main results

* `Discipline.wp_updateWhere_guarded` — the rule for conditional updates of a part whose lock is
  held.
* `Discipline.wp_foldlM` — the rule for a loop, with an invariant.
* `Discipline.wp_leaves` — the rule for parts that leave a view alone.
* `Method.keeps_updateWhere_guarded` — a conditional update as a transaction of its own.
-/

namespace Discipline

variable {σ κ ε α β γ τ : Type} (D : Discipline σ κ)

/-- Only who holds the lock changes this part of the database. -/
def Guards (k : κ) (view : σ → τ) : Prop :=
  ∀ L s s', D.step L s s' → ¬L (.lock k) → view s' = view s

/-- To do nothing is allowed, to do one thing after another, and to hold more than it takes. -/
structure Regular : Prop where
  refl : ∀ L s, D.step L s s
  trans : ∀ L s s' s'', D.step L s s' → D.step L s' s'' → D.step L s s''
  mono : ∀ L L' s s', (∀ k, L k → L' k) → D.step L s s' → D.step L' s s'

variable {D} {L : Hold κ → Prop} {K : σ → Prop} {f : σ → σ} {k : κ} {view : σ → τ}

/-- What is known of a part whose lock is held stays true. -/
theorem Guards.stable (h : D.Guards k view) (hL : L (.lock k)) (P : τ → Prop) :
    D.Stable L fun s => P (view s) := by
  intro L' s n s' n' _ _ hother hstep hP
  rw [h L' s s' hstep (hother _ hL)]
  exact hP

/-! ### Commits -/

namespace Regular

variable (hD : D.Regular)

include hD

theorem commits_id : D.Commits L K id := fun s _ hs _ _ => ⟨hs, hD.refl L s⟩

/-- One more write. -/
theorem commits_comp {g : σ → σ} (hf : D.Commits L K f)
    (hg : ∀ s n, D.inv s n → (∀ m, L (.number m) → m < n) → K s → D.inv (f s) n →
      D.inv (g (f s)) n ∧ D.step L (f s) (g (f s))) : D.Commits L K (g ∘ f) := by
  intro s n hs hdrawn hK
  obtain ⟨hinv, hstep⟩ := hf s n hs hdrawn hK
  obtain ⟨hinv', hstep'⟩ := hg s n hs hdrawn hK hinv
  exact ⟨hinv', hD.trans L s (f s) (g (f s)) hstep hstep'⟩

/-- To hold more, and to know more. -/
theorem commits_mono {L' : Hold κ → Prop} {K' : σ → Prop} (hf : D.Commits L K f)
    (hL : ∀ k, L k → L' k) (hK : ∀ s, K' s → K s) : D.Commits L' K' f := by
  intro s n hs hdrawn hK's
  obtain ⟨hinv, hstep⟩ := hf s n hs (fun m hm => hdrawn m (hL _ hm)) (hK s hK's)
  exact ⟨hinv, hD.mono L L' s (f s) hL hstep⟩

end Regular

/-- What keeps the discipline may be committed. -/
theorem Commits.to {ν : Type} {admits : ν → (Hold κ → Prop) → σ → Prop} {note : ν}
    (h : D.Commits L (fun s => K s ∧ admits note L s) f) :
    Process.CommitsTo D admits note L K f fun _ => True := by
  refine ⟨stable_true, fun s n hs hdrawn hK hgood => ?_⟩
  obtain ⟨hinv, hstep⟩ := h s n hs hdrawn ⟨hK, hgood⟩
  exact ⟨hinv, hstep, trivial⟩

/-! ### Statements -/

variable {post : (Hold κ → Prop) → (σ → Prop) → (σ → σ) → α → Prop}

/-- A conditional update of a part that its lock guards. -/
theorem wp_updateWhere_guarded {cond : σ → Bool} {c : τ → Bool} {g : σ → σ}
    {post : (Hold κ → Prop) → (σ → Prop) → (σ → σ) → Bool → Prop} (hview : D.Guards k view)
    (hK : D.Stable L K) (hcond : ∀ s, K s → cond (f s) = c (view s))
    (hmiss : ∀ L', Extends L L' → post L' K f false)
    (hhit : post (add L (.lock k)) (fun s => K s ∧ c (view s) = true) (g ∘ f) true) :
    D.wp (Tx.updateWhere k cond g : Tx σ κ ε Bool) L K f post := by
  refine wp_updateWhere hK hmiss fun s n _ hKs hc => ?_
  refine ⟨fun s => c (view s) = true, hview.stable (.inl rfl) (c · = true), ?_, hhit⟩
  rwa [hcond s hKs] at hc

/-- A part that is carried out under a condition. -/
theorem wp_whenever {c : Prop} [Decidable c] {t : Tx σ κ ε Unit}
    {post : (Hold κ → Prop) → (σ → Prop) → (σ → σ) → Unit → Prop}
    (hthen : c → D.wp t L K f post) (helse : ¬c → post L K f ()) :
    D.wp (Tx.whenever c t) L K f post := by
  unfold Tx.whenever
  by_cases hc : c
  · rw [if_pos hc]
    exact hthen hc
  · rw [if_neg hc]
    exact helse hc

/-- A lock that is taken if there is something to lock. -/
theorem wp_forM_acquire {o : Option γ} {key : γ → κ}
    {post : (Hold κ → Prop) → (σ → Prop) → (σ → σ) → Unit → Prop}
    (h : ∀ L', Extends L L' → post L' K f ()) :
    D.wp (o.forM fun c => Tx.acquire (key c) : Tx σ κ ε Unit) L K f post := by
  cases o with
  | none => exact h L (.refl L)
  | some c => exact h _ (.lock L (key c))

/-- A loop, with what holds between its rounds. -/
theorem wp_foldlM {g : β → γ → Tx σ κ ε β}
    (I : List γ → β → (Hold κ → Prop) → (σ → Prop) → (σ → σ) → Prop) {l : List γ} {b : β}
    {post : (Hold κ → Prop) → (σ → Prop) → (σ → σ) → β → Prop} (hstart : I [] b L K f)
    (hround : ∀ done c rest b L K f, l = done ++ c :: rest → I done b L K f →
      D.wp (g b c) L K f fun L K f b => I (done ++ [c]) b L K f)
    (hend : ∀ b L K f, I l b L K f → post L K f b) : D.wp (l.foldlM g b) L K f post := by
  suffices h : ∀ rest done b L K f, l = done ++ rest → I done b L K f →
      D.wp (rest.foldlM g b) L K f post from h l [] b L K f rfl hstart
  intro rest
  induction rest with
  | nil =>
    intro done b L K f hl hI
    rw [List.append_nil] at hl
    exact hend b L K f (hl ▸ hI)
  | cons c rest ih =>
    intro done b L K f hl hI
    rw [List.foldlM_cons, wp_bind]
    refine wp_mono (hround done c rest b L K f hl hI) fun L K f b hI => ?_
    exact ih (done ++ [c]) b L K f (by rw [hl, List.append_assoc]; rfl) hI

/-! ### The effect of a transaction on a view -/

/-- A write leaves a view of the database alone. -/
def Leaves (view : σ → τ) (w : σ → σ) : Prop := ∀ s, view (w s) = view s

theorem Leaves.comp {w w' : σ → σ} (h : Leaves view w) (h' : Leaves view w') :
    Leaves view (w' ∘ w) := fun s => (h' (w s)).trans (h s)

variable (D view) in
/-- Where a transaction stands: what it knows stays true, and its writes so far change the view
this way. -/
structure Running (L : Hold κ → Prop) (K : σ → Prop) (f : σ → σ) (g : τ → τ) : Prop where
  stable : D.Stable L K
  effect : ∀ s, view (f s) = g (view s)

namespace Running

variable {g : τ → τ}

theorem start : D.Running view nothing (fun _ => True) id fun v => v :=
  ⟨stable_true, fun _ => rfl⟩

theorem anti (h : D.Running view L K f g) {L' : Hold κ → Prop} (hL : ∀ k, L k → L' k) :
    D.Running view L' K f g := ⟨h.stable.anti hL, h.effect⟩

/-- One lock or number more. -/
theorem add (h : D.Running view L K f g) (k : Hold κ) :
    D.Running view (Discipline.add L k) K f g := h.anti fun _ => .inr

theorem and (h : D.Running view L K f g) {J : σ → Prop} (hJ : D.Stable L J) :
    D.Running view L (fun s => K s ∧ J s) f g := ⟨h.stable.and hJ, h.effect⟩

/-- One more write. -/
theorem write (h : D.Running view L K f g) {w : σ → σ} {e : τ → τ}
    (hw : ∀ s, view (w s) = e (view s)) : D.Running view L K (w ∘ f) fun v => e (g v) :=
  ⟨h.stable, fun s => (hw (f s)).trans (congrArg e (h.effect s))⟩

end Running

/-- A part of a transaction that leaves the view alone. -/
theorem wp_leaves {t : Tx σ κ ε α} (ht : t.Writes (Leaves view)) {g : τ → τ}
    {post : (Hold κ → Prop) → (σ → Prop) → (σ → σ) → α → Prop} (hrun : D.Running view L K f g)
    (h : ∀ L' f' a, (∀ k, L k → L' k) → D.Running view L' K f' g → post L' K f' a) :
    D.wp t L K f post := by
  refine wp_of_writes (V := Leaves view) (fun _ => rfl) (fun _ _ => Leaves.comp) ht hrun.stable
    fun L' w a hL hw => ?_
  exact h L' _ a hL ⟨hrun.stable.anti hL, fun s => (hw (f s)).trans (hrun.effect s)⟩

end Discipline

/-! ### Tables -/

/-- The rows that are not locked stay as they are, and rows are inserted under numbers that were
drawn. -/
structure TableStep {ρ κ : Type} {key : ρ → ℕ} (lockOf : ℕ → κ) (L : Hold κ → Prop)
    (t t' : KeyedTable key) : Prop where
  rows : ∀ id, ¬L (.lock (lockOf id)) → t'.find? id = t.find? id
  origin : ∀ id, t.find? id = none → t'.find? id ≠ none → L (.number id)

namespace TableStep

variable {σ ρ κ : Type} {key : ρ → ℕ} {lockOf : ℕ → κ} {L : Hold κ → Prop}
  {t t' t'' : KeyedTable key}

theorem refl (t : KeyedTable key) : TableStep lockOf L t t :=
  ⟨fun _ _ => rfl, fun _ h h' => absurd h h'⟩

theorem trans (h : TableStep lockOf L t t') (h' : TableStep lockOf L t' t'') :
    TableStep lockOf L t t'' := by
  refine ⟨fun id hid => (h'.rows id hid).trans (h.rows id hid), fun id hnone hsome => ?_⟩
  by_cases hmid : t'.find? id = none
  · exact h'.origin id hmid hsome
  · exact h.origin id hnone hmid

theorem mono {L' : Hold κ → Prop} (hL : ∀ k, L k → L' k) (h : TableStep lockOf L t t') :
    TableStep lockOf L' t t' :=
  ⟨fun id hid => h.rows id fun hlock => hid (hL _ hlock),
    fun id hnone hsome => hL _ (h.origin id hnone hsome)⟩

/-- Rows that are locked are updated. -/
theorem modify {p : ρ → Bool} {f : ρ → ρ} (hf : ∀ r, key (f r) = key r)
    (hlock : ∀ r ∈ t, p r = true → L (.lock (lockOf (key r)))) :
    TableStep lockOf L t (t.modify p f hf) := by
  refine ⟨fun id hid => ?_, fun id hnone hsome => ?_⟩
  · rw [KeyedTable.find?_modify]
    cases h : t.find? id with
    | none => rfl
    | some r =>
      obtain ⟨hr, rfl⟩ := KeyedTable.find?_eq_some.mp h
      rw [Option.map_some, if_neg fun hp => hid (hlock r hr hp)]
  · rw [KeyedTable.find?_modify, hnone] at hsome
    exact absurd rfl hsome

/-- A row is inserted under a number that was drawn, or replaces the one that is locked. -/
theorem put {r : ρ} (hlock : L (.lock (lockOf (key r))))
    (hnumber : t.find? (key r) = none → L (.number (key r))) :
    TableStep lockOf L t (t.put r) := by
  refine ⟨fun id hid => ?_, fun id hnone hsome => ?_⟩
  · refine KeyedTable.find?_put_of_ne ?_
    rintro rfl
    exact hid hlock
  · by_cases hid : id = key r
    · subst hid
      exact hnumber hnone
    · rw [KeyedTable.find?_put_of_ne hid] at hsome
      exact absurd hnone hsome

variable {D : Discipline σ κ} {table : σ → KeyedTable key}
  (hD : ∀ L s s', D.step L s s' → TableStep lockOf L (table s) (table s'))

include hD

/-- The lock of a row guards it. -/
theorem guards (id : ℕ) : D.Guards (lockOf id) fun s => (table s).find? id :=
  fun L s s' hstep hid => (hD L s s' hstep).rows id hid

/-- Under a number that only one process has drawn, no other inserts a row. -/
theorem stable_absent {n : ℕ} (hn : L (.number n)) :
    D.Stable L fun s => (table s).find? n = none := by
  intro L' s m s' m' _ _ hother hstep hnone
  by_contra hsome
  exact hother _ hn ((hD L' s s' hstep).origin n hnone hsome)

end TableStep

namespace Method

open Discipline Process

variable {σ κ ν χ ο ε α τ : Type} {D : Discipline σ κ} {admits : ν → (Hold κ → Prop) → σ → Prop}
  {k : κ} {view : σ → τ}

/-- A conditional update of a part that its lock guards, as a transaction of its own. -/
theorem keeps_updateWhere_guarded (hD : D.Regular) {cond : σ → Bool} {c : τ → Bool} {g : σ → σ}
    {note : Bool → ν} (hview : D.Guards k view) (hcond : ∀ s, cond s = c (view s))
    (hwrite : ∀ (L : Hold κ → Prop) s n, L (.lock k) → D.inv s n → c (view s) = true →
      admits (note true) L s → D.inv (g s) n ∧ D.step L s (g s)) :
    (atomically note (Tx.updateWhere k cond g) : Method σ κ ν χ ο ε Bool).Keeps D admits := by
  refine keeps_atomically fun L K _ hK => wp_updateWhere_guarded hview hK (fun s _ => hcond s)
    (fun L' _ => ?_) ?_
  · exact ⟨_, Commits.to hD.commits_id⟩
  · exact ⟨_, Commits.to fun s n hs _ hKs => hwrite _ s n (.inl rfl) hs hKs.1.2 hKs.2⟩

end Method
