import StelloKitchens.Lib.Triples

/-!
# Services whose commits make changes

A service is told by the changes that its commits make: a relation between the database before and
after, by what is held and the note on the commit. A method keeps to the changes when everything it
commits is one of them, whatever the others do. What every change preserves then holds in every
state of every interleaving.

## Main definitions

* `Changes` — the changes of a service, with what holds of its database under them.
* `Changes.terms`, `Changes.Leads` — the terms of the service, and its methods under them.

## Main results

* `Changes.leads_of_change` — a transaction that makes one change.
* `Changes.invariant` — what changes keep holds over all interleavings.
-/

open Checked

/-- A statement that reads where something is known, which stays so. -/
theorem Discipline.wp_query_known {σ κ ε α : Type} {D : Discipline σ κ} {L : Hold κ → Prop}
    {K : σ → Prop} {f : σ → σ} {post : (Hold κ → Prop) → (σ → Prop) → (σ → σ) → α → Prop} {g : σ → α}
    (hK : D.Stable L K) (h : ∀ s n, D.inv s n → K s → post L K f (g (f s))) :
    D.wp (Tx.query g : Tx σ κ ε α) L K f post :=
  fun s n hs hKs => ⟨K, hK, hKs, h s n hs hKs⟩

/-- A row that is not there when a statement looks for it, and stays away. -/
theorem Discipline.wp_query_none {σ κ ε : Type} {D : Discipline σ κ} {L : Hold κ → Prop}
    {K : σ → Prop} {taken : σ → Bool} {e : ε}
    {post : (Hold κ → Prop) → (σ → Prop) → (σ → σ) → Unit → Prop} (hK : D.Stable L K)
    (hnone : D.Stable L fun s => taken s = false)
    (h : D.Stable L (fun s => K s ∧ taken s = false) →
      post L (fun s => K s ∧ taken s = false) id ()) :
    D.wp (Tx.query taken : Tx σ κ ε Bool) L K id fun L K f a =>
      D.wp (Tx.check (a = false) e : Tx σ κ ε Unit) L K f post := by
  refine wp_query hK fun s n _ _ => ?_
  cases htaken : taken s with
  | false => exact ⟨_, hnone, htaken, wp_check fun _ => h (hK.and hnone)⟩
  | true =>
    refine ⟨fun _ => True, stable_true, trivial, wp_check fun hfalse => ?_⟩
    exact absurd (htaken.symm.trans hfalse) (by decide)

/-- What is known of each, of an option. -/
theorem Discipline.stable_forall_mem {σ κ β : Type} {D : Discipline σ κ} {L : Hold κ → Prop}
    {o : Option β} {K : β → σ → Prop} (h : ∀ b ∈ o, D.Stable L (K b)) :
    D.Stable L fun s => ∀ b ∈ o, K b s :=
  fun L' s n s' n' hs hs' hother hstep hK b hb =>
    h b hb L' s n s' n' hs hs' hother hstep (hK b hb)

theorem Process.Lasting.and {σ κ : Type} {D : Discipline σ κ} {J J' : (ℕ → Prop) → σ → Prop}
    (h : Process.Lasting D J) (h' : Process.Lasting D J') :
    Process.Lasting D fun N s => J N s ∧ J' N s where
  stable L := (h.stable L).and (h'.stable L)
  fresh N s n hs hJ := ⟨h.fresh N s n hs hJ.1, h'.fresh N s n hs hJ.2⟩

/-- What lasts is known by whoever holds what. -/
theorem Process.Lasting.known {σ κ : Type} {D : Discipline σ κ} {J : σ → Prop}
    (h : Process.Lasting D fun _ => J) (L : Hold κ → Prop) : D.Stable L J :=
  (h.stable L).anti fun _ hk => hk.1

/-- What the commits of a service do, and what holds of its database under that. -/
structure Changes (σ κ ν : Type) where
  inv : σ → ℕ → Prop
  /-- What a commit with this note does, by who holds these. -/
  change : (Hold κ → Prop) → σ → ν → σ → Prop
  inv_mono {s : σ} {n m : ℕ} : n ≤ m → inv s n → inv s m
  inv_change {L : Hold κ → Prop} {s s' : σ} {note : ν} {n : ℕ} : change L s note s' → inv s n →
    (∀ m, L (.number m) → m < n) → inv s' n

namespace Changes

open Tx Process Method Discipline

variable {σ κ ν χ ο ε α β ρ : Type} (C : Changes σ κ ν) (admitted : ν → (Hold κ → Prop) → σ → Prop)

/-- The terms of the service: every commit is admitted and makes one of the changes. -/
def terms : Terms σ κ ν α where
  inv := C.inv
  step L s s' := s' = s ∨ ∃ note, admitted note L s ∧ C.change L s note s'
  inv_mono := C.inv_mono
  admits := admitted
  said _ _ := True
  said_step _ _ _ h := h

/-- The discipline of the terms. -/
abbrev discipline : Discipline σ κ := (C.terms admitted : Terms σ κ ν Unit).toDiscipline

/-- A method with what is known before and after it; of a failure nothing is said. -/
abbrev Leads (J : Assertion σ) (x : Method σ κ ν χ ο ε α) (Q : α → Assertion σ) : Prop :=
  Triple (C.discipline admitted) admitted J x Q fun _ _ => True

variable {C admitted} {L : Hold κ → Prop} {K J : σ → Prop} {s s' : σ} {note : ν} {n : ℕ}

/-- What every change of the others leaves true. -/
theorem stable_of_change (h : ∀ L' s n note s', C.inv s n → (∀ k, L k → ¬L' k) →
    C.change L' s note s' → K s → K s') : (C.discipline admitted).Stable L K := by
  rintro L' s n s' n' hs - hother (rfl | ⟨note, -, hchange⟩) hK
  · exact hK
  · exact h L' s n note s' hs hother hchange hK

/-- A commit that makes a change where it is admitted. -/
theorem commits_admitted {f : σ → σ} (hJ : (C.discipline admitted).Stable (numbers L) J)
    (h : ∀ s n, C.inv s n → K s → admitted note L s → C.change L s note (f s) ∧ J (f s)) :
    CommitsTo (C.discipline admitted) admitted note L K f J := by
  refine ⟨hJ, fun s n hs hdrawn hK hadmitted => ?_⟩
  obtain ⟨hchange, hkeep⟩ := h s n hs hK hadmitted
  exact ⟨C.inv_change hchange hs hdrawn, .inr ⟨note, hadmitted, hchange⟩, hkeep⟩

/-- A commit that makes a change. -/
theorem commits_change {f : σ → σ} (hJ : (C.discipline admitted).Stable (numbers L) J)
    (h : ∀ s n, C.inv s n → K s → C.change L s note (f s))
    (hkeep : ∀ s n, C.inv s n → K s → J (f s)) :
    CommitsTo (C.discipline admitted) admitted note L K f J :=
  commits_admitted hJ fun s n hs hK _ => ⟨h s n hs hK, hkeep s n hs hK⟩

/-- A commit that changes nothing. -/
theorem commits_nothing (hJ : (C.discipline admitted).Stable (numbers L) J) (h : ∀ s, K s → J s) :
    CommitsTo (C.discipline admitted) admitted note L K id J :=
  ⟨hJ, fun s _ hs _ hK _ => ⟨hs, .inl rfl, h s hK⟩⟩

/-- Nothing is known. -/
theorem lasting_true : Lasting (C.discipline admitted) fun _ _ => True where
  stable _ := stable_true
  fresh _ _ _ _ _ := trivial

/-- What every change leaves true, by whoever it is made. -/
theorem lasting_of_change (h : ∀ L s n note s', C.inv s n → C.change L s note s' → K s → K s') :
    Lasting (C.discipline admitted) fun _ => K where
  stable _ := stable_of_change fun L' s n note s' hs _ hchange => h L' s n note s' hs hchange
  fresh _ _ _ _ hK := hK

/-- A transaction that makes one change where it is admitted, with what is known before and after
it. -/
theorem leads_admitted {note : α → ν} {t : Tx σ κ ε α} {J : Assertion σ} {Q : α → Assertion σ}
    (hJ : Lasting (C.discipline admitted) J)
    (hQ : ∀ a L, (C.discipline admitted).Stable L (Q a (drawn L)))
    (h : ∀ L, (C.discipline admitted).wp t L (J (drawn L)) id fun L K f a => ∀ s n, C.inv s n →
      K s → J (drawn L) s → admitted (note a) L s →
        C.change L s (note a) (f s) ∧ Q a (drawn L) (f s)) :
    Leads C admitted J (atomically note t : Method σ κ ν χ ο ε α) Q := by
  refine triple_atomically hJ (fun L _ => ?_) fun _ _ _ _ _ => trivial
  refine Discipline.wp_mono (h L) fun L K f a hchange => commits_admitted ?_ fun s n hs hK =>
    hchange s n hs hK.1 hK.2
  rw [← drawn_numbers L]
  exact hQ a _

/-- A transaction that makes one change, with what is known before and after it. -/
theorem leads_transaction {note : α → ν} {t : Tx σ κ ε α} {Q : α → σ → Prop}
    (hJ : Lasting (C.discipline admitted) fun _ => J)
    (hQ : ∀ a L, (C.discipline admitted).Stable L (Q a))
    (h : ∀ L, (C.discipline admitted).wp t L J id fun L K f a => ∀ s n, C.inv s n → K s → J s →
      C.change L s (note a) (f s) ∧ Q a (f s)) :
    Leads C admitted (fun _ => J) (atomically note t : Method σ κ ν χ ο ε α) fun a _ => Q a :=
  leads_admitted hJ hQ fun L => Discipline.wp_mono (h L) fun _ _ _ _ hchange s n hs hK hJ _ =>
    hchange s n hs hK hJ

/-- A transaction that makes one change. -/
theorem leads_of_change {note : α → ν} {t : Tx σ κ ε α}
    (hJ : Lasting (C.discipline admitted) fun _ => J)
    (h : ∀ L, (C.discipline admitted).wp t L J id fun L K f a => ∀ s n, C.inv s n → K s → J s →
      C.change L s (note a) (f s)) :
    Leads C admitted (fun _ => J) (atomically note t : Method σ κ ν χ ο ε α) fun _ _ _ => True :=
  leads_transaction (Q := fun _ _ => True) hJ (fun _ _ => stable_true) fun L =>
    Discipline.wp_mono (h L) fun _ _ _ _ hchange s n hs hK hJ => ⟨hchange s n hs hK hJ, trivial⟩

/-- A conditional update that makes a change; while its row is locked, the condition is left true by
the changes of the others. -/
theorem leads_updateWhere {k : κ} {cond : σ → Bool} {f : σ → σ}
    (hJ : Lasting (C.discipline admitted) fun _ => J)
    (hguard : ∀ L s n note s', C.inv s n → ¬L (.lock k) → C.change L s note s' → cond s = true →
      cond s' = true)
    (h : ∀ L s n, L (.lock k) → C.inv s n → J s → cond s = true → C.change L s note (f s)) :
    Leads C admitted (fun _ => J) (atomically (fun _ => note) (updateWhere k cond f) :
      Method σ κ ν χ ο ε Bool) fun _ _ _ => True := by
  refine triple_atomically hJ (fun L _ => ?_) fun _ _ _ _ _ => trivial
  refine Discipline.wp_updateWhere (hJ.known L) (fun L' _ => ?_) fun s n _ _ hcond => ?_
  · exact commits_nothing stable_true fun _ _ => trivial
  · refine ⟨fun s => cond s = true, stable_of_change fun L' s n note s' hs hother hchange =>
      hguard L' s n note s' hs (hother _ (.inl rfl)) hchange, hcond, ?_⟩
    exact commits_change stable_true (fun s n hs hK => h _ s n (.inl rfl) hs hK.1.1 hK.1.2)
      fun _ _ _ _ => trivial

/-- Whatever a statement reads. -/
theorem leads_look (g : σ → α) : Leads C admitted (fun _ _ => True)
    (look g : Method σ κ ν χ ο ε α) fun _ _ _ => True :=
  triple_look_any g

/-- Whatever the outside answers. -/
theorem leads_ask (q : χ) : Leads C admitted (fun _ _ => True)
    (ask q : Method σ κ ν χ ο ε ο) fun _ _ _ => True :=
  triple_ask q

theorem leads_pure (a : α) : Leads C admitted (fun _ _ => True)
    (pure a : Method σ κ ν χ ο ε α) fun _ _ _ => True :=
  triple_pure a fun _ _ _ _ _ => trivial

theorem leads_guardOr (c : Prop) [Decidable c] (e : ε) : Leads C admitted (fun _ _ => True)
    (guardOr c e : Method σ κ ν χ ο ε Unit) fun _ _ _ => True :=
  triple_guardOr (fun _ _ _ _ _ _ => trivial) fun _ _ _ _ _ _ => trivial

theorem leads_getOr (o : Option α) (e : ε) : Leads C admitted (fun _ _ => True)
    (getOr o e : Method σ κ ν χ ο ε α) fun _ _ _ => True := by
  cases o with
  | none => exact fun L K _ hK _ hfail => hfail L K e hK
  | some a => exact leads_pure a

theorem leads_throw {J : Assertion σ} {Q : α → Assertion σ} (e : ε) :
    Leads C admitted J (throw e : Method σ κ ν χ ο ε α) Q :=
  fun L K _ hK _ hfail => hfail L K e (hK.mono fun _ _ _ _ _ => trivial)

/-- One method after another, if nothing is known between them. -/
theorem Leads.andThen {J : Assertion σ} {Q : β → Assertion σ} {x : Method σ κ ν χ ο ε α}
    {g : α → Method σ κ ν χ ο ε β} (h : Leads C admitted J x fun _ _ _ => True)
    (hg : ∀ a, Leads C admitted (fun _ _ => True) (g a) Q) : Leads C admitted J (x >>= g) Q :=
  Triple.bind h hg

/-- A method that is told so keeps the terms. -/
theorem Leads.kept {x : Method σ κ ν χ ο ε α}
    (h : Leads C admitted (fun _ _ => True) x fun _ _ _ => True) :
    (C.terms admitted : Terms σ κ ν (Except ε α)).Kept x.run :=
  h nothing _ _ ⟨idle_nothing, stable_true, fun _ _ _ _ => trivial⟩
    (fun _ _ _ _ _ _ _ _ => trivial) fun _ _ _ _ _ _ _ _ => trivial

variable [DecidableEq κ] {prog : ρ → Process σ κ ν χ ο α} {init : σ → ℕ → Prop}

/-- The terms hold in every state of every interleaving whose commits are admitted. -/
theorem holds (hkept : ∀ r, (C.terms admitted).Kept (prog r)) (hinit : ∀ s n, init s n → C.inv s n)
    {w : World σ κ ν χ ο α} (h : (serve prog init).Reach (World.Admits admitted) w) :
    (C.terms admitted).Holds w :=
  Terms.holds_of_reach hkept hinit h

/-- What holds at first and every change keeps that is admitted holds over all interleavings. -/
theorem invariant (hkept : ∀ r, (C.terms admitted).Kept (prog r))
    (hinit : ∀ s n, init s n → C.inv s n) {I : σ → Prop} (hI : ∀ s n, init s n → I s)
    (hstep : ∀ L s n note s', C.inv s n → admitted note L s → C.change L s note s' → I s → I s')
    {w : World σ κ ν χ ο α} (h : (serve prog init).Reach (World.Admits admitted) w) : I w.db := by
  refine @Machine.invariant _ _ (serve prog init) _ (fun w => I w.db) (fun w hw => hI _ _ hw.1)
    (fun w a hreach ih hgood => ?_) w h
  have hholds := holds hkept hinit hreach
  rcases hholds.step_db a hgood with hsame | ⟨_, held, _, _, _, _, _, _, hdb⟩
  · change I (World.step _ w a).db
    rwa [hsame]
  · rcases hdb with hsame | ⟨note, hadmitted, hchange⟩
    · change I (World.step _ w a).db
      rwa [hsame]
    · exact hstep _ w.db w.next note _ hholds.inv hadmitted hchange ih

end Changes
