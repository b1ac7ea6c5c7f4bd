import StelloKitchens.Lib.Obligations

/-!
# Pre- and postconditions of methods

A method that runs side by side with others is told by what it knows: an assertion says something
of the database by the numbers that are held, and a triple says that a method, run where one
assertion is known, keeps the discipline and ends where another is known, by its result, or fails
where a third is known. The methods of a service are then put together from their parts by the
rules of sequential programs; what the others may do in between is in the rules for statements and
transactions alone.

## Main definitions

* `Assertion`, `Knowing` — what is known, and where it is.
* `Method.Triple` — a method with what is known before and after it.

## Main results

* `Method.Triple.bind`, `Method.triple_mapM` — the rules for the parts of a method.
* `Method.triple_atomically`, `Method.triple_atomically_sure` — the rules for transactions.
* `Method.Triple.discharges` — what the terms of a service ask for.
-/

open Checked

/-- What is said of a database by the numbers that are held. -/
abbrev Assertion (σ : Type) := (ℕ → Prop) → σ → Prop

namespace Tx

variable {σ κ ε α β : Type}

/-- The transaction never refuses. -/
def Sure : Tx σ κ ε α → Prop
  | done _ => True
  | fail _ => False
  | lock _ t => t.Sure
  | read t => ∀ s, (t s).Sure
  | write _ t => t.Sure
  | fresh t => ∀ n, (t n).Sure

theorem sure_updateWhere (k : κ) (cond : σ → Bool) (f : σ → σ) :
    (updateWhere k cond f : Tx σ κ ε Bool).Sure := by
  intro s
  beta_reduce
  cases cond s with
  | false => trivial
  | true =>
    intro s
    beta_reduce
    cases cond s <;> trivial

end Tx

namespace Process

open Discipline

variable {σ κ ν χ ο ε α : Type} {D : Discipline σ κ} {admits : ν → (Hold κ → Prop) → σ → Prop}
  {L : Hold κ → Prop} {K K' : σ → Prop} {f : σ → σ} {note : α → ν} {t : Tx σ κ ε α}
  {post : (Hold κ → Prop) → (σ → Prop) → (σ → σ) → Except ε α → Prop}

/-- A transaction can be run where more is known. -/
theorem wp_transaction_weaken (hKK' : ∀ s n, D.inv s n → K s → K' s)
    (h : wp D admits (transaction note t : Process σ κ ν χ ο (Except ε α)) L K' f post) :
    wp D admits (transaction note t : Process σ κ ν χ ο (Except ε α)) L K f post := by
  induction t generalizing L f with
  | done a =>
    obtain ⟨J, ⟨hJ, hcommit⟩, hpost⟩ := h
    exact ⟨J, ⟨hJ, fun s n hs hL hK => hcommit s n hs hL (hKK' s n hs hK)⟩, hpost⟩
  | fail e =>
    obtain ⟨J, hJ, hK'J, hpost⟩ := h
    exact ⟨J, hJ, fun s n hs hK => hK'J s n hs (hKK' s n hs hK), hpost⟩
  | lock k t ih => exact ih h
  | read t ih => exact fun s n hs hK => h s n hs (hKK' s n hs hK)
  | write g t ih => exact ih h
  | fresh t ih => exact fun s n hs hK => h s n hs (hKK' s n hs hK)

/-- A transaction that never refuses commits what its proof says. -/
theorem wp_transaction_sure (ht : t.Sure)
    (h : D.wp t L K f fun L K f a =>
      ∃ J, CommitsTo D admits (note a) L K f J ∧ post (numbers L) J id (.ok a)) :
    wp D admits (transaction note t : Process σ κ ν χ ο (Except ε α)) L K f post := by
  induction t generalizing L K f with
  | done a => exact h
  | fail e => exact ht.elim
  | lock k t ih => exact ih ht h
  | read t ih =>
    intro s n hs hK
    obtain ⟨J, hJ, hJs, h⟩ := h s n hs hK
    exact ⟨J, hJ, hJs, ih _ (ht _) h⟩
  | write g t ih => exact ih ht h
  | fresh t ih =>
    intro s n hs hK
    obtain ⟨J, hJ, hJs, h⟩ := h s n hs hK
    exact ⟨J, hJ, hJs, ih _ (ht _) h⟩

end Process

namespace Discipline

variable {σ κ : Type}

/-- No lock is held, and the assertion is known and stays true whatever the others do. -/
structure Knowing (D : Discipline σ κ) (J : Assertion σ) (L : Hold κ → Prop) (K : σ → Prop) :
    Prop where
  idle : Idle L
  stable : D.Stable L K
  known : ∀ s n, D.inv s n → K s → J (drawn L) s

variable {D : Discipline σ κ} {J J' : Assertion σ} {L : Hold κ → Prop} {K : σ → Prop}

theorem Knowing.mono (h : Knowing D J L K) (himp : ∀ N s n, D.inv s n → J N s → J' N s) :
    Knowing D J' L K :=
  ⟨h.idle, h.stable, fun s n hs hK => himp _ s n hs (h.known s n hs hK)⟩

/-- After a commit. -/
theorem Knowing.of_numbers (hJ : D.Stable (numbers L) (J (drawn L))) :
    Knowing D J (numbers L) (J (drawn L)) := by
  refine ⟨idle_numbers L, hJ, fun s n _ hs => ?_⟩
  rwa [drawn_numbers]

end Discipline

namespace Method

open Discipline Process

variable {σ κ ν χ ο ε α β γ : Type} {D : Discipline σ κ}
  {admits : ν → (Hold κ → Prop) → σ → Prop}

variable (D admits) in
/-- Where the first assertion is known, the method can be run, and it ends where the second is
known, of its result, or fails where the third is. -/
def Triple (J : Assertion σ) (x : Method σ κ ν χ ο ε α) (Q : α → Assertion σ) (E : Assertion σ) :
    Prop :=
  ∀ (L : Hold κ → Prop) (K : σ → Prop)
    (post : (Hold κ → Prop) → (σ → Prop) → (σ → σ) → Except ε α → Prop), Knowing D J L K →
    (∀ L K a, Knowing D (Q a) L K → post L K id (.ok a)) →
    (∀ L K e, Knowing D E L K → post L K id (.error e)) → wp D admits x.run L K id post

variable {J : Assertion σ} {Q : α → Assertion σ} {E : Assertion σ}

theorem Triple.mono {x : Method σ κ ν χ ο ε α} (h : Triple D admits J x Q E)
    {J' E' : Assertion σ} {Q' : α → Assertion σ} (hJ : ∀ N s n, D.inv s n → J' N s → J N s)
    (hQ : ∀ a N s n, D.inv s n → Q a N s → Q' a N s)
    (hE : ∀ N s n, D.inv s n → E N s → E' N s) : Triple D admits J' x Q' E' :=
  fun L K post hK hok hfail => h L K post (hK.mono hJ)
    (fun L K a hK => hok L K a (hK.mono (hQ a))) fun L K e hK => hfail L K e (hK.mono hE)

/-- A method can be run where more is known. -/
theorem Triple.pre {x : Method σ κ ν χ ο ε α} (h : Triple D admits J x Q E) {J' : Assertion σ}
    (hJ : ∀ N s n, D.inv s n → J' N s → J N s) : Triple D admits J' x Q E :=
  h.mono hJ (fun _ _ _ _ _ hQ => hQ) fun _ _ _ _ hE => hE

theorem triple_pure (a : α) (h : ∀ N s n, D.inv s n → J N s → Q a N s) :
    Triple D admits J (pure a : Method σ κ ν χ ο ε α) Q E :=
  fun L K _ hK hok _ => hok L K a (hK.mono h)

theorem Triple.bind {x : Method σ κ ν χ ο ε α} {g : α → Method σ κ ν χ ο ε β}
    {R : β → Assertion σ} (h : Triple D admits J x Q E)
    (hg : ∀ a, Triple D admits (Q a) (g a) R E) : Triple D admits J (x >>= g) R E := by
  intro L K post hK hok hfail
  rw [wp_method_bind]
  exact h L K _ hK (fun L K a hK => hg a L K post hK hok hfail) fun L K e hK => hfail L K e hK

/-- What a statement reads, with what that makes known. -/
theorem triple_look {g : σ → α} (hstable : ∀ a L, D.Stable L (Q a (drawn L)))
    (h : ∀ N s n, D.inv s n → J N s → Q (g s) N s) :
    Triple D admits J (look g : Method σ κ ν χ ο ε α) Q E := by
  intro L K post hK hok _ s n hs hKs
  refine ⟨Q (g s) (drawn L), hstable _ L, h _ s n hs (hK.known s n hs hKs), ?_⟩
  exact hok L _ _ ⟨hK.idle, hstable _ L, fun _ _ _ hQ => hQ⟩

/-- Whatever a statement reads. -/
theorem triple_look_any (g : σ → α) :
    Triple D admits J (look g : Method σ κ ν χ ο ε α) (fun _ => J) E :=
  fun L K _ hK hok _ _ _ _ hKs => ⟨K, hK.stable, hKs, hok L K _ hK⟩

/-- A statement with what holds of its result, and what that makes known. -/
theorem triple_look_bind {g : σ → β} {P : β → Prop} {R : β → Assertion σ}
    {x : β → Method σ κ ν χ ο ε α} (hstable : ∀ b L, D.Stable L (R b (drawn L)))
    (hg : ∀ N s n, D.inv s n → J N s → P (g s) ∧ R (g s) N s)
    (h : ∀ b, P b → Triple D admits (R b) (x b) Q E) : Triple D admits J (look g >>= x) Q E := by
  intro L K post hK hok hfail
  rw [wp_method_bind]
  intro s n hs hKs
  obtain ⟨hP, hR⟩ := hg _ s n hs (hK.known s n hs hKs)
  refine ⟨R (g s) (drawn L), hstable _ L, hR, h _ hP L _ post ?_ hok hfail⟩
  exact ⟨hK.idle, hstable _ L, fun _ _ _ hR => hR⟩

theorem triple_ask (q : χ) : Triple D admits J (ask q : Method σ κ ν χ ο ε ο) (fun _ => J) E :=
  fun L K _ hK hok _ o => hok L K o hK

/-- A check. -/
theorem triple_guardOr {c : Prop} [Decidable c] {e : ε} {R : Unit → Assertion σ}
    (h : c → ∀ N s n, D.inv s n → J N s → R () N s)
    (hE : ¬c → ∀ N s n, D.inv s n → J N s → E N s) :
    Triple D admits J (guardOr c e : Method σ κ ν χ ο ε Unit) R E := by
  by_cases hc : c
  · rw [guardOr_pos hc]
    exact triple_pure () (h hc)
  · rw [guardOr_neg hc]
    exact fun L K _ hK _ hfail => hfail L K e (hK.mono (hE hc))

/-- A check, with what follows if it is passed. -/
theorem triple_guardOr_bind {c : Prop} [Decidable c] {e : ε} {g : Unit → Method σ κ ν χ ο ε α}
    (h : c → Triple D admits J (g ()) Q E) (hE : ¬c → ∀ N s n, D.inv s n → J N s → E N s) :
    Triple D admits J (guardOr c e >>= g) Q E := by
  by_cases hc : c
  · rw [guardOr_pos hc]
    exact h hc
  · rw [guardOr_neg hc]
    exact fun L K _ hK _ hfail => hfail L K e (hK.mono (hE hc))

theorem triple_getOr_bind {o : Option β} {e : ε} {g : β → Method σ κ ν χ ο ε α}
    (h : ∀ b, o = some b → Triple D admits J (g b) Q E)
    (hE : ∀ N s n, D.inv s n → J N s → E N s) : Triple D admits J (getOr o e >>= g) Q E := by
  cases o with
  | none => exact fun L K _ hK _ hfail => hfail L K e (hK.mono hE)
  | some b => exact h b rfl

/-- A method, and another that is run if it fails. -/
theorem triple_tryCatch {x : Method σ κ ν χ ο ε α} {g : ε → Method σ κ ν χ ο ε α} {E' : Assertion σ}
    (h : Triple D admits J x Q E) (hg : ∀ e, Triple D admits E (g e) Q E') :
    Triple D admits J (tryCatch x g) Q E' := by
  intro L K post hK hok hfail
  rw [wp_tryCatch]
  exact h L K _ hK hok fun L K e hK => hg e L K post hK hok hfail

/-- Nothing of the database is known besides. -/
theorem lasting_and_const (hJ : Lasting D J) (p : Prop) : Lasting D fun N s => p ∧ J N s where
  stable L := (show D.Stable (numbers L) fun _ => p from fun _ _ _ _ _ _ _ _ _ hp => hp).and (hJ.stable L)
  fresh N s n hs h := ⟨h.1, hJ.fresh N s n hs h.2⟩

/-- A transaction, which is refused or commits; what is lasting is known until then. -/
theorem triple_atomically_bind {note : α → ν} {t : Tx σ κ ε α} {g : α → Method σ κ ν χ ο ε β}
    {R : β → Assertion σ} {P : α → Prop} (hJ : Lasting D J)
    (h : ∀ L, Idle L → D.wp t L (J (drawn L)) id fun L K f a => P a ∧
      CommitsTo D admits (note a) L (fun s => K s ∧ J (drawn L) s) f (Q a (drawn L)))
    (hg : ∀ a, P a → Triple D admits (Q a) (g a) R E)
    (hE : ∀ N s n, D.inv s n → J N s → E N s) :
    Triple D admits J (atomically note t >>= g) R E := by
  intro L K post hK hok hfail
  rw [wp_method_bind]
  refine wp_transaction_weaken hK.known (wp_atomically_lasting hJ ?_ fun e L hL => ?_)
  · refine Discipline.wp_mono (h L hK.idle) fun L K f a hcommit => ⟨_, hcommit.2, ?_⟩
    exact hg a hcommit.1 _ _ post (.of_numbers hcommit.2.1) hok hfail
  · refine hfail _ _ _ ⟨hL, (hJ.stable L).anti fun _ hk => hk.1, fun s n hs hJs => ?_⟩
    exact hE _ s n hs hJs

theorem triple_atomically {note : α → ν} {t : Tx σ κ ε α} (hJ : Lasting D J)
    (h : ∀ L, Idle L → D.wp t L (J (drawn L)) id fun L K f a =>
      CommitsTo D admits (note a) L (fun s => K s ∧ J (drawn L) s) f (Q a (drawn L)))
    (hE : ∀ N s n, D.inv s n → J N s → E N s) :
    Triple D admits J (atomically note t : Method σ κ ν χ ο ε α) Q E := by
  rw [← bind_pure (atomically note t)]
  refine triple_atomically_bind (P := fun _ => True) hJ (fun L hL => ?_)
    (fun a _ => triple_pure a fun _ _ _ _ hQ => hQ) hE
  exact Discipline.wp_mono (h L hL) fun L K f a hcommit => ⟨trivial, hcommit⟩

/-- A transaction that is never refused. -/
theorem triple_atomically_sure {note : α → ν} {t : Tx σ κ ε α} (ht : t.Sure)
    (h : ∀ L, Idle L → D.wp t L (J (drawn L)) id fun L K f a =>
      CommitsTo D admits (note a) L K f (Q a (drawn L))) :
    Triple D admits J (atomically note t : Method σ κ ν χ ο ε α) Q E := by
  intro L K post hK hok _
  refine wp_transaction_weaken hK.known (wp_transaction_sure ht ?_)
  refine Discipline.wp_mono (h L hK.idle) fun L K f a hcommit => ⟨_, hcommit, ?_⟩
  exact hok _ _ _ (.of_numbers hcommit.1)

/-- One after another, with what is known between them. -/
theorem triple_mapM {g : γ → Method σ κ ν χ ο ε α} (I : List γ → Assertion σ) {l : List γ}
    (h : ∀ done c rest, l = done ++ c :: rest →
      Triple D admits (I done) (g c) (fun _ => I (done ++ [c])) E) :
    Triple D admits (I []) (l.mapM g) (fun _ => I l) E := by
  suffices hrest : ∀ rest done, l = done ++ rest →
      Triple D admits (I done) (rest.mapM g) (fun _ => I l) E from hrest l [] rfl
  intro rest
  induction rest with
  | nil =>
    intro done hl
    rw [List.mapM_nil, hl, List.append_nil]
    exact triple_pure [] fun _ _ _ _ hI => hI
  | cons c rest ih =>
    intro done hl
    rw [List.mapM_cons]
    refine (h done c rest hl).bind fun a => ?_
    refine (ih (done ++ [c]) (by rw [hl, List.append_assoc]; rfl)).bind fun as => ?_
    exact triple_pure (a :: as) fun _ _ _ _ hI => hI

/-- A method that is run for each of a list, and leaves known what was known. -/
theorem triple_mapM_keep {g : γ → Method σ κ ν χ ο ε α} {l : List γ}
    (h : ∀ c ∈ l, Triple D admits J (g c) (fun _ => J) E) :
    Triple D admits J (l.mapM g) (fun _ => J) E :=
  triple_mapM (fun _ => J) fun done c rest hl => h c (hl ▸ by simp)

/-- A method whose owner owes nothing when it ends keeps the terms. -/
theorem Triple.discharges {T : Terms σ κ ν (Except ε α)} {owes : ℕ → σ → Prop}
    {x : Method σ κ ν χ ο ε α} {I : Assertion σ} (hsaid : ∀ r s, T.said r s)
    (hfree : ∀ N s, I N s → ∀ m, N m → ¬owes m s)
    (h : Triple T.toDiscipline T.admits (fun N _ => ∀ m, ¬N m) x (fun _ => I) I) :
    T.Discharges owes x.run := by
  refine h nothing _ _ ⟨idle_nothing, stable_true, fun _ _ _ _ _ => id⟩ ?_ ?_
  · exact fun L K a hK => ⟨fun s n _ _ => hsaid _ s, fun s n hs hKs m hm =>
      hfree _ s (hK.known s n hs hKs) m hm⟩
  · exact fun L K e hK => ⟨fun s n _ _ => hsaid _ s, fun s n hs hKs m hm =>
      hfree _ s (hK.known s n hs hKs) m hm⟩

end Method
