import StelloKitchens.Lib.Transaction

/-!
# Transactions that run alone

A transaction that runs alone ends well where each of its statements does. What it takes to end
well, in a state of which something holds, is put together from what its parts take, statement by
statement; so that two transactions over the same tables can be compared by what they take.

## Main definitions

* `Tx.Ends` — a transaction ends well alone, in a state of which something holds.

## Main results

* `Tx.ends_bind` — one transaction after another.
* `Tx.ends_of_reads` — a transaction that only reads.
-/

open Checked

namespace Tx

variable {σ κ ε α β γ : Type} {s : σ × ℕ} {Q : α → σ × ℕ → Prop}

/-- Alone, the transaction ends well, with a result and in a state of which this holds. -/
def Ends (t : Tx σ κ ε α) (s : σ × ℕ) (Q : α → σ × ℕ → Prop) : Prop :=
  ∃ a s', t.exec s = .ok (a, s') ∧ Q a s'

theorem exec_eq_ok_iff_ends {t : Tx σ κ ε α} {a : α} {s' : σ × ℕ} :
    t.exec s = .ok (a, s') ↔ t.Ends s fun b u => b = a ∧ u = s' := by
  constructor
  · exact fun h => ⟨a, s', h, rfl, rfl⟩
  · rintro ⟨b, u, h, rfl, rfl⟩
    exact h

theorem Ends.mono {Q' : α → σ × ℕ → Prop} {t : Tx σ κ ε α} (h : t.Ends s Q)
    (himp : ∀ a s', Q a s' → Q' a s') : t.Ends s Q' := by
  obtain ⟨a, s', hexec, hQ⟩ := h
  exact ⟨a, s', hexec, himp a s' hQ⟩

@[simp] theorem ends_pure (a : α) : (pure a : Tx σ κ ε α).Ends s Q ↔ Q a s := by
  constructor
  · rintro ⟨b, s', h, hQ⟩
    cases h
    exact hQ
  · exact fun hQ => ⟨a, s, rfl, hQ⟩

@[simp] theorem ends_bind (t : Tx σ κ ε α) (g : α → Tx σ κ ε β) {Q : β → σ × ℕ → Prop} :
    (t >>= g).Ends s Q ↔ t.Ends s fun a s' => (g a).Ends s' Q := by
  constructor
  · rintro ⟨b, s'', h, hQ⟩
    rw [exec_bind] at h
    obtain ⟨r, hr, h⟩ := bind_eq_ok.mp h
    exact ⟨r.1, r.2, hr, b, s'', h, hQ⟩
  · rintro ⟨a, s', h, b, s'', h', hQ⟩
    refine ⟨b, s'', ?_, hQ⟩
    rw [exec_bind, h]
    exact h'

@[simp] theorem ends_map (t : Tx σ κ ε α) (g : α → β) {Q : β → σ × ℕ → Prop} :
    (g <$> t).Ends s Q ↔ t.Ends s fun a s' => Q (g a) s' := by
  rw [map_eq_pure_bind, ends_bind]
  simp only [ends_pure]

@[simp] theorem ends_acquire (k : κ) {Q : Unit → σ × ℕ → Prop} :
    (acquire k : Tx σ κ ε Unit).Ends s Q ↔ Q () s :=
  @ends_pure σ κ ε Unit s Q ()

@[simp] theorem ends_query (f : σ → α) : (query f : Tx σ κ ε α).Ends s Q ↔ Q (f s.1) s :=
  @ends_pure σ κ ε α s Q (f s.1)

@[simp] theorem ends_update (f : σ → σ) {Q : Unit → σ × ℕ → Prop} :
    (update f : Tx σ κ ε Unit).Ends s Q ↔ Q () (f s.1, s.2) := by
  constructor
  · rintro ⟨a, s', h, hQ⟩
    cases h
    exact hQ
  · exact fun hQ => ⟨(), _, rfl, hQ⟩

@[simp] theorem ends_ofExcept (x : Except ε α) :
    (ofExcept x : Tx σ κ ε α).Ends s Q ↔ ∃ a, x = .ok a ∧ Q a s := by
  constructor
  · rintro ⟨a, s', h, hQ⟩
    obtain ⟨b, hb, heq⟩ := exec_ofExcept_eq_ok.mp h
    cases heq
    exact ⟨a, hb, hQ⟩
  · rintro ⟨a, ha, hQ⟩
    exact ⟨a, s, exec_ofExcept_eq_ok.mpr ⟨a, ha, rfl⟩, hQ⟩

@[simp] theorem ends_liftM (x : Except ε α) :
    (liftM x : Tx σ κ ε α).Ends s Q ↔ ∃ a, x = .ok a ∧ Q a s := ends_ofExcept x

@[simp] theorem ends_check (c : Prop) [Decidable c] (e : ε) {Q : Unit → σ × ℕ → Prop} :
    (check c e : Tx σ κ ε Unit).Ends s Q ↔ c ∧ Q () s := by
  rw [check, ends_ofExcept]
  constructor
  · rintro ⟨_, hu, hQ⟩
    exact ⟨ensure_eq_ok.mp hu, hQ⟩
  · rintro ⟨hc, hQ⟩
    exact ⟨(), ensure_eq_ok.mpr hc, hQ⟩

@[simp] theorem ends_require (o : Option α) (e : ε) :
    (require o e : Tx σ κ ε α).Ends s Q ↔ ∃ a, o = some a ∧ Q a s := by
  simp only [require, ends_ofExcept, orThrow_eq_ok]

theorem ends_whenever {c : Prop} [Decidable c] {t : Tx σ κ ε Unit} {Q : Unit → σ × ℕ → Prop}
    (h : c → t.Ends s Q) (hnot : ¬c → Q () s) : (whenever c t).Ends s Q := by
  unfold whenever
  split
  · exact h ‹c›
  · exact (ends_pure _).mpr (hnot ‹¬c›)

theorem ends_forM {o : Option γ} {g : γ → Tx σ κ ε Unit} {Q : Unit → σ × ℕ → Prop}
    (h : ∀ c, o = some c → (g c).Ends s Q) (hnone : o = none → Q () s) : (o.forM g).Ends s Q := by
  cases o with
  | none => exact (ends_pure ()).mpr (hnone rfl)
  | some c => exact h c rfl

/-- A conditional update whose condition holds. -/
theorem ends_updateWhere {k : κ} {cond : σ → Bool} {f : σ → σ} {Q : Bool → σ × ℕ → Prop}
    (hcond : cond s.1 = true) (h : Q true (f s.1, s.2)) :
    (updateWhere k cond f : Tx σ κ ε Bool).Ends s Q := by
  refine ⟨true, (f s.1, s.2), ?_, h⟩
  simp only [updateWhere, exec, hcond, cond_true]

/-- A transaction that draws no number leaves the next one. -/
theorem Does.exec_next {t : Tx σ κ ε α} {W : (σ → σ) → α → Prop} (h : t.Does W) {s' : σ × ℕ} {a : α}
    (hexec : t.exec s = .ok (a, s')) : s'.2 = s.2 := by
  induction t generalizing W s with
  | done b =>
    cases hexec
    rfl
  | fail e => cases hexec
  | lock k t ih => exact ih h hexec
  | read t ih => exact ih s.1 (h s.1) hexec
  | write g t ih => exact ih (s := (g s.1, s.2)) h hexec
  | fresh t ih => exact h.elim

/-- What every write of a transaction keeps holds where it ends. -/
theorem Ends.keeps {t : Tx σ κ ε α} {P : σ → Prop} (h : t.Ends s Q)
    (ht : t.Writes fun w => ∀ s, P s → P (w s)) (hP : P s.1) :
    t.Ends s fun a s' => Q a s' ∧ P s'.1 := by
  obtain ⟨a, s', hexec, hQ⟩ := h
  refine ⟨a, s', hexec, hQ, ?_⟩
  clear hQ
  induction t generalizing s with
  | done b =>
    cases hexec
    exact hP
  | fail e => cases hexec
  | lock k t ih => exact ih ht hP hexec
  | read t ih => exact ih s.1 (ht s.1) hP hexec
  | write g t ih => exact ih (s := (g s.1, s.2)) ht.2 (ht.1 _ hP) hexec
  | fresh t ih => exact ih s.2 (s := (s.1, s.2 + 1)) (ht s.2) hP hexec

/-- A transaction that only reads leaves the state. -/
theorem ends_of_reads {t : Tx σ κ ε α} (ht : t.Does fun w _ => w = id) :
    t.Ends s Q ↔ ∃ a, t.exec s = .ok (a, s) ∧ Q a s := by
  constructor
  · rintro ⟨a, s', hexec, hQ⟩
    obtain ⟨w, rfl, hs⟩ := ht.exec hexec
    obtain rfl : s' = s := Prod.ext hs (ht.exec_next hexec)
    exact ⟨a, hexec, hQ⟩
  · rintro ⟨a, hexec, hQ⟩
    exact ⟨a, s, hexec, hQ⟩

/-- A loop whose steps all end well alone, and only read. -/
theorem ends_mapM_reads {g : γ → Tx σ κ ε β} {l : List γ} {Q : List β → σ × ℕ → Prop}
    (h : ∀ c ∈ l, ∃ b, (g c).exec s = .ok (b, s)) (hQ : ∀ bs, Q bs s) : (l.mapM g).Ends s Q := by
  have hexec : ∃ bs, (l.mapM g).exec s = .ok (bs, s) := by
    clear hQ
    induction l with
    | nil => exact ⟨[], rfl⟩
    | cons c l ih =>
      obtain ⟨b, hb⟩ := h c List.mem_cons_self
      obtain ⟨bs, hbs⟩ := ih fun c hc => h c (List.mem_cons_of_mem _ hc)
      refine ⟨b :: bs, ?_⟩
      rw [List.mapM_cons, exec_bind, hb, ok_bind, exec_bind, hbs]
      rfl
  obtain ⟨bs, hbs⟩ := hexec
  exact ⟨bs, s, hbs, hQ bs⟩

end Tx
