import StelloKitchens.LowStock.Changes

/-!
# Alerts and the periods in which a material is low

A candidate is flagged without another look at its stock, the flags are cleared for what was above
its level when that statement began, a material may become low again before its flag is cleared, and
the alert is stored after the flag.

## Main definitions

* `OneAlert` — at most one alert for a period, and one where a sweep has started and completed in it.

## Main results

* `one_alert` — alerts over all interleavings.
-/

namespace StelloKitchens.LowStock

open Checked Tx Process Method Discipline Changes

/-- At most one alert for a period, and one where a sweep has started and completed in it. -/
structure OneAlert (db : LowStockDb) : Prop where
  atMost : (db.alerts.map fun a => (a.rawMaterialId, a.period)).Nodup
  left : ∀ x ∈ db.swept, db.Alerted x.1 x.2

theorem Sound.oneAlert {s : LowStockDb} {n : ℕ} (h : Sound s n) : OneAlert s where
  atMost := by
    refine List.Nodup.map_on (fun a ha b hb heq => ?_) h.alerts.of_map
    have hsame := List.inj_on_of_nodup_map h.once (h.flips a ha) (h.flips b hb) heq
    exact List.inj_on_of_nodup_map h.alerts ha hb (congrArg Flip.number hsame)
  left := h.swept

/-- The changes of the alerts. -/
def lowStockChanges : Changes LowStockDb LockKey Note where
  inv := Sound
  change := Change
  inv_mono hle h := { h with numbers := fun f hf => (h.numbers f hf).trans_le hle }
  inv_change h hs hdrawn := h.sound hs hdrawn

/-- The discipline of the changes, where they are admitted. -/
abbrev keeping : Discipline LowStockDb LockKey := lowStockChanges.discipline lowStockAdmits

/-- A method, with what is known before and after it. -/
abbrev Leads {α : Type} (J : Assertion LowStockDb) (x : LowStockMethod α)
    (Q : α → Assertion LowStockDb) : Prop :=
  Changes.Leads lowStockChanges lowStockAdmits J x Q

variable {L : Hold LockKey → Prop} {s s' : LowStockDb} {note : Note} {m : RawMaterial}
  {J : LowStockDb → Prop} {outletId : Option ℕ} {started : ℕ → Option ℕ} {low : List RawMaterial}

/-! ### What is known -/

namespace LowStockDb

/-- The material is flipped in this period, or the period is over. -/
def Covered (db : LowStockDb) (id period : ℕ) : Prop := db.Flipped id period ∨ db.Past id period

/-- The material is in this period or a later one. -/
def Reached (db : LowStockDb) (outletId : Option ℕ) (id period : ℕ) : Prop :=
  ∃ m ∈ db.materials, m.id = id ∧ period ≤ m.period ∧ inScope outletId m = true

/-- What was low when the sweep started is covered, or a candidate that is not done. -/
structure Sweeping (db : LowStockDb) (started : ℕ → Option ℕ) (low done : List RawMaterial) :
    Prop where
  covered : ∀ id period, started id = some period →
    db.Covered id period ∨ ∃ c ∈ low, c.id = id ∧ c.period = period ∧ c ∉ done
  reached : ∀ c ∈ low, db.Reached none c.id c.period

end LowStockDb

theorem Change.past (h : Change L s note s') {id period : ℕ} (hs : s.Past id period) :
    s'.Past id period := by
  obtain ⟨m, hm, hid, hpast⟩ := hs
  obtain ⟨m', hm', hid', -, hlater⟩ := h.keeps_material hm
  refine ⟨m', hm', hid'.trans hid, ?_⟩
  rcases hlater with ⟨hsame, hlow⟩ | hsucc
  · rw [hsame]
    refine hpast.imp_right fun hpast => ⟨hpast.1, ?_⟩
    rw [← Bool.not_eq_true]
    exact fun h => by simp [hlow h] at hpast
  · exact .inl (by omega)

theorem Change.covered (h : Change L s note s') {id period : ℕ} (hs : s.Covered id period) :
    s'.Covered id period := hs.imp h.flipped h.past

theorem Change.reached (h : Change L s note s') {id period : ℕ} (hs : s.Reached outletId id period) :
    s'.Reached outletId id period := by
  obtain ⟨m, hm, hid, hle, hscope⟩ := hs
  obtain ⟨m', hm', hid', houtlet, hlater⟩ := h.keeps_material hm
  refine ⟨m', hm', hid'.trans hid, by omega, ?_⟩
  rw [inScope, houtlet]
  exact hscope

theorem Change.sweeping (h : Change L s note s') {done : List RawMaterial}
    (hs : s.Sweeping started low done) : s'.Sweeping started low done where
  covered id period hstarted := (hs.covered id period hstarted).imp_left h.covered
  reached c hc := h.reached (hs.reached c hc)

/-- A material that is flagged has been flipped in the period it is in, if it is in one. -/
theorem Sound.covered {n : ℕ} (h : Sound s n) {id period : ℕ} (hreached : s.Reached outletId id period)
    (hflagged : s.flagged id = true) : s.Covered id period := by
  obtain ⟨m, hm, rfl, hle, -⟩ := hreached
  by_cases hpast : period < m.period ∨ period = m.period ∧ m.low = false
  · exact .inr ⟨m, hm, rfl, hpast⟩
  · have hperiod : period = m.period := by omega
    have hlow : m.low = true := by
      rw [← Bool.not_eq_false]
      exact fun hlow => hpast (.inr ⟨hperiod, hlow⟩)
    exact .inl (hperiod ▸ (h.flagged m hm hlow).mp hflagged)

/-- When the candidates are read, the others are covered. -/
theorem Sound.sweeping {n : ℕ} (h : Sound s n)
    (hreached : ∀ id period, started id = some period → s.Reached outletId id period) :
    s.Sweeping started (s.candidates outletId) [] where
  covered id period hstarted := by
    obtain ⟨m, hm, rfl, hle, hscope⟩ := hreached id period hstarted
    by_cases hpast : period < m.period ∨ period = m.period ∧ m.low = false
    · exact .inl (.inr ⟨m, hm, rfl, hpast⟩)
    · have hperiod : m.period = period := by omega
      have hlow : m.low = true := by
        rw [← Bool.not_eq_false]
        exact fun hlow => hpast (.inr ⟨hperiod.symm, hlow⟩)
      cases hflagged : s.flagged m.id with
      | true => exact .inl (h.covered ⟨m, hm, rfl, hle, hscope⟩ hflagged)
      | false =>
        refine .inr ⟨m, List.mem_filter.mpr ⟨hm, ?_⟩, rfl, hperiod, List.not_mem_nil⟩
        simp [hlow, hflagged, hscope]
  reached c hc := ⟨c, (List.mem_filter.mp hc).1, rfl, le_rfl, rfl⟩

/-- Who does not hold its lock leaves the flag of a material as it is. -/
theorem Change.flagged_other (h : Change L s note s') {id : ℕ} (hlock : ¬L (.lock (.state id))) :
    s'.flagged id = s.flagged id := by
  cases h with
  | rearm ids hlocks =>
    rw [flagged_rearm, decide_eq_false fun hid => hlock (hlocks id hid), Bool.not_false, Bool.and_true]
  | flag m now number hheld =>
    have hne : id ≠ m.id := by
      rintro rfl
      exact hlock hheld
    rw [flagged_flag, decide_eq_false hne, Bool.false_or]
  | _ => rfl

theorem lasting_sweeping {done : List RawMaterial} :
    Lasting keeping fun _ s => s.Sweeping started low done :=
  lasting_of_change fun _ _ _ _ _ _ hchange => Change.sweeping hchange

theorem lasting_covered {id period : ℕ} : Lasting keeping fun _ s => s.Covered id period :=
  lasting_of_change fun _ _ _ _ _ _ hchange => Change.covered hchange

theorem stable_unflagged {id : ℕ} (hlock : L (.lock (.state id))) :
    keeping.Stable L fun s => s.flagged id = false :=
  stable_of_change fun _ _ _ _ _ _ hother hchange hflagged =>
    (Change.flagged_other hchange (hother _ hlock)).trans hflagged

/-- A material was flagged under a number that was drawn for that, and no alert was stored for it
yet. -/
def Raising (m : RawMaterial) (flip : ℕ) (N : ℕ → Prop) (s : LowStockDb) : Prop :=
  N flip ∧ ⟨flip, m.id, m.period⟩ ∈ s.flips ∧ ∀ a ∈ s.alerts, a.flip ≠ flip

/-- No alert is stored under a number that another has drawn. -/
theorem stable_fresh {number : ℕ} (hnumber : L (.number number)) :
    keeping.Stable L fun s => ∀ a ∈ s.alerts, a.flip ≠ number := by
  refine stable_of_change fun L' s n note s' hs hother hchange hnone => ?_
  cases hchange with
  | alert a hheld =>
    intro b hb
    rcases List.mem_append.mp hb with hb | hb
    · exact hnone b hb
    · rw [List.mem_singleton.mp hb]
      rintro rfl
      exact hother _ hnumber hheld
  | _ => exact hnone

theorem Sound.fresh {n : ℕ} (h : Sound s n) : ∀ a ∈ s.alerts, a.flip ≠ n :=
  fun a ha => (h.numbers _ (h.flips a ha)).ne

theorem lasting_flip {f : Flip} : Lasting keeping fun _ s => f ∈ s.flips := by
  refine lasting_of_change fun L s n note s' hs hchange hf => ?_
  cases hchange with
  | flag => exact List.mem_append_left _ hf
  | _ => exact hf

theorem stable_raising {flip : ℕ} : keeping.Stable L (Raising m flip (drawn L)) := by
  by_cases hnumber : L (.number flip)
  · have hstable := (lasting_flip (f := ⟨flip, m.id, m.period⟩).known L).and (stable_fresh hnumber)
    exact fun L' s n s' n' hs hs' hother hstep h =>
      ⟨hnumber, hstable L' s n s' n' hs hs' hother hstep h.2⟩
  · exact fun _ _ _ _ _ _ _ _ _ h => absurd h.1 hnumber

theorem lasting_raising {flip : ℕ} : Lasting keeping (Raising m flip) where
  stable L := drawn_numbers L ▸ stable_raising
  fresh _ _ _ _ h := ⟨.inr h.1, h.2⟩

/-! ### Raising an alert -/

theorem raise_leads (hJ : Lasting keeping fun _ => J)
    (hkeep : ∀ L s n note s', Sound s n → Change L s note s' → J s → J s') (flip : ℕ) :
    Leads (fun N s => J s ∧ Raising m flip N s) (raise m flip) fun _ _ => J := by
  have hboth : Lasting keeping fun N s => J s ∧ Raising m flip N s := hJ.and lasting_raising
  unfold raise
  refine Triple.bind (triple_look_any _) fun outletName => Triple.bind (triple_look_any _) fun cfg => ?_
  refine Triple.bind (triple_mapM (fun _ N s => J s ∧ Raising m flip N s) fun _ message _ _ => ?_)
    fun _ => ?_
  · exact Triple.bind (triple_ask message) fun ok =>
      triple_guardOr (fun _ _ _ _ _ h => h) fun _ _ _ _ _ _ => trivial
  · refine Triple.bind (Q := fun _ _ => J) ?_ fun _ => triple_pure _ fun _ _ _ _ h => h
    refine leads_admitted hboth (fun _ L => hJ.known L) fun L => ?_
    intro s n hs _ hJs _
    obtain ⟨hJs, hnumber, hflip, hnone⟩ := hJs
    have hchange := fun a (ha : a.flip = flip ∧ a.rawMaterialId = m.id ∧ a.period = m.period) =>
      Change.alert (L := L) (s := s) a (ha.1 ▸ hnumber) (by rw [ha.1, ha.2.1, ha.2.2]; exact hflip)
        (ha.1 ▸ hnone)
    exact ⟨hchange _ ⟨rfl, rfl, rfl⟩, hkeep L s n _ _ hs (hchange _ ⟨rfl, rfl, rfl⟩) hJs⟩

theorem flagCandidate_leads (hJ : Lasting keeping fun _ => J)
    (hkeep : ∀ L s n note s', Sound s n → Change L s note s' → J s → J s')
    (hreached : ∀ s, J s → s.Reached none m.id m.period) :
    Leads (fun _ => J) (flagCandidate m) fun _ _ s => J s ∧ s.Covered m.id m.period := by
  have hcovered : Lasting keeping fun _ s => J s ∧ s.Covered m.id m.period :=
    hJ.and lasting_covered
  have hkeep' : ∀ L s n note s', Sound s n → Change L s note s' →
      (J s ∧ s.Covered m.id m.period) → J s' ∧ s'.Covered m.id m.period :=
    fun L s n note s' hs hchange h => ⟨hkeep L s n note s' hs hchange h.1, hchange.covered h.2⟩
  unfold flagCandidate
  refine Triple.bind (Q := fun flipped N s => (J s ∧ s.Covered m.id m.period) ∧
    ∀ flip ∈ flipped, Raising m flip N s) ?_ fun flipped => ?_
  · refine leads_admitted hJ (fun flipped L => (hcovered.known L).and
      (stable_forall_mem fun flip _ => stable_raising)) fun L => ?_
    simp only [flagTx, Discipline.wp_bind]
    refine wp_query_any (hJ.known L) fun now => ?_
    rw [Discipline.wp_acquire]
    refine wp_query (hJ.known _) fun s n hs hJs => ?_
    cases hflagged : s.flagged m.id with
    | true =>
      refine ⟨_, lasting_covered.known _, Sound.covered hs (hreached s hJs) hflagged, ?_⟩
      rw [id, hflagged, if_pos rfl, Discipline.wp_pure]
      exact fun s n _ hK _ _ => ⟨.none, ⟨hK.1, hK.2⟩, fun _ h => by cases h⟩
    | false =>
      refine ⟨_, stable_unflagged (.inl rfl), hflagged, ?_⟩
      rw [id, hflagged, if_neg Bool.false_ne_true, Discipline.wp_bind]
      refine wp_draw (((hJ.known _).add _).and (stable_unflagged (.inl rfl))) fun s n hs _ =>
        ⟨_, stable_fresh (.inl rfl), hs.fresh, ?_⟩
      simp only [Discipline.wp_bind, Discipline.wp_update, Discipline.wp_pure]
      rintro s k hs ⟨⟨-, hclear⟩, hnone⟩ hJs hlow
      have hchange : Change (add (add L (.lock (.state m.id))) (.number n)) s
          (.flag m.id m.period) (s.flag m now n) :=
        .flag m now n (.inr (.inl rfl)) (.inl rfl) hclear hlow
      refine ⟨hchange, ⟨hkeep _ s k _ _ hs hchange hJs, .inl ?_⟩, ?_⟩
      · exact flipped_flag.mpr (.inr ⟨rfl, rfl⟩)
      · rintro _ ⟨⟩
        exact ⟨.inl rfl, List.mem_append_right _ (List.mem_singleton_self _), hnone⟩
  · cases flipped with
    | none => exact triple_pure _ fun _ _ _ _ h => h.1
    | some flip =>
      refine Triple.bind ((raise_leads hcovered hkeep' flip).pre fun _ _ _ _ h => ⟨h.1, h.2 flip rfl⟩)
        fun _ => triple_pure _ fun _ _ _ _ h => h

/-! ### Sweeps -/

theorem rearm_leads (hJ : Lasting keeping fun _ => J)
    (hkeep : ∀ L s n note s', Sound s n → Change L s note s' → J s → J s') :
    Leads (fun _ => J) (atomically .rearm (rearmTx outletId)) fun _ _ => J := by
  refine leads_admitted hJ (fun _ L => hJ.known L) fun L => ?_
  simp only [rearmTx, Discipline.wp_bind]
  refine wp_query_any (hJ.known L) fun ids => wp_acquireAll fun L' _ hlocks => ?_
  rw [Discipline.wp_update, Discipline.wp_pure]
  intro s n hs _ hJs habove
  have hchange : Change L' s (.rearm ids) (s.rearm ids) :=
    .rearm ids (fun id hid => hlocks _ (List.mem_map_of_mem hid)) habove
  exact ⟨hchange, hkeep L' s n _ _ hs hchange hJs⟩

/-- When all candidates are done, all that was low when the sweep started is covered. -/
theorem candidates_leads : Leads (fun _ s => s.Sweeping started low []) (low.mapM flagCandidate)
    fun _ _ s => s.Sweeping started low low := by
  refine triple_mapM (fun done _ s => LowStockDb.Sweeping s started low done) fun done c rest hlow => ?_
  have hc : c ∈ low := by
    rw [hlow]
    exact List.mem_append_right _ List.mem_cons_self
  refine (flagCandidate_leads lasting_sweeping (fun _ _ _ _ _ _ hchange => Change.sweeping hchange)
    fun s hs => hs.reached c hc).mono (fun _ _ _ _ h => h) (fun _ _ s _ _ h => ?_)
    fun _ _ _ _ h => h
  obtain ⟨hs, hcovered⟩ := h
  refine ⟨fun id period hstarted => ?_, hs.reached⟩
  rcases hs.covered id period hstarted with hdone | ⟨c', hc', hid, hperiod, hnot⟩
  · exact .inl hdone
  · by_cases heq : c' = c
    · rw [← hid, ← hperiod, heq]
      exact .inl hcovered
    · refine .inr ⟨c', hc', hid, hperiod, fun hmem => ?_⟩
      rcases List.mem_append.mp hmem with hmem | hmem
      · exact hnot hmem
      · exact heq (List.mem_singleton.mp hmem)

theorem evaluate_leads (outletId : Option ℕ) :
    Leads (fun _ _ => True) (evaluate outletId) fun _ _ _ => True := by
  have hreached : ∀ started : ℕ → Option ℕ, Lasting keeping fun _ s =>
      ∀ id period, started id = some period → s.Reached outletId id period := fun started =>
    lasting_of_change fun _ _ _ _ _ _ hchange h id period hstarted =>
      Change.reached hchange (h id period hstarted)
  unfold evaluate
  refine triple_look_bind (P := fun _ => True) (R := fun started _ s =>
    ∀ id period, started id = some period → s.Reached outletId id period)
    (fun started L => (hreached started).known L) (fun _ s _ _ _ => ⟨trivial, ?_⟩)
    fun started _ => ?_
  · intro id period hstarted
    obtain ⟨m, hm, rfl⟩ := Option.map_eq_some_iff.mp hstarted
    obtain ⟨hfind, hlow⟩ := Option.filter_eq_some_iff.mp hm
    obtain ⟨hm, hid⟩ := KeyedTable.find?_eq_some.mp hfind
    exact ⟨m, hm, hid, le_rfl, (of_decide_eq_true hlow).2⟩
  refine Triple.bind (rearm_leads (hreached started) fun _ _ _ _ _ _ hchange h id period hstarted =>
    hchange.reached (h id period hstarted)) fun _ => ?_
  refine triple_look_bind (P := fun _ => True) (R := fun low _ s => s.Sweeping started low [])
    (fun low L => lasting_sweeping.known L) (fun _ s _ hs h => ⟨trivial, Sound.sweeping hs h⟩)
    fun low _ => ?_
  refine Triple.bind candidates_leads fun raised => ?_
  refine Leads.andThen ?_ fun _ => leads_pure _
  refine leads_admitted lasting_sweeping (fun _ _ => stable_true) fun L s n hs _ hswept hdone =>
    ⟨.complete started (fun id period hstarted => ?_) hdone, trivial⟩
  refine (hswept.covered id period hstarted).resolve_right ?_
  rintro ⟨c, hc, -, -, hnot⟩
  exact hnot hc

theorem run_leads (r : LowStockRequest) : Leads (fun _ _ => True) r.run fun _ _ _ => True := by
  cases r with
  | tick ms => exact leads_of_change lasting_true fun L s n _ _ _ => .tick ms
  | setMaterial m =>
    exact leads_admitted lasting_true (fun _ _ => stable_true) fun L s n _ _ _ hclear =>
      ⟨.material m hclear, trivial⟩
  | evaluate outletId => exact (evaluate_leads outletId).andThen fun _ => leads_pure ()

theorem Started.sound {n : ℕ} (h : Started s) : Sound s n where
  numbers f hf := by
    rw [h.flips] at hf
    cases hf
  once := by
    rw [h.flips]
    exact List.nodup_nil
  seen f hf := by
    rw [h.flips] at hf
    cases hf
  flagged m hm hlow := by
    rw [h.flagged m hm hlow, LowStockDb.Flipped, h.flips]
    simp
  flips a ha := by
    rw [h.alerts] at ha
    cases ha
  alerts := by
    rw [h.alerts]
    exact List.nodup_nil
  swept x hx := by
    rw [h.swept] at hx
    cases hx

/-- Rice, of which there is too little. -/
def rice (stockQty : ℤ) : RawMaterial := ⟨1, 7, 2, "Rice", "kg", stockQty, 5000, none, 1⟩

/-- A kitchen that is low on rice, whose owner is told by mail. -/
def lowOnRice : LowStockDb where
  now := 0
  materials := .put .empty (rice 2500)
  states := .empty
  alerts := []
  outletName _ := some "Indiranagar"
  config _ := some ⟨true, some [⟨"Asha", none, some "asha@cafe", [.email, .sms]⟩]⟩
  flips := []
  swept := []

theorem lowOnRice_started : Started lowOnRice where
  flagged _ _ _ := rfl
  alerts := rfl
  flips := rfl
  swept := rfl

/-- A sweep, whose mails are taken. -/
def sweepRun (slot : ℕ) : List (WorldAction LowStockRequest Bool) :=
  .start slot (.evaluate none) :: WorldAction.steps slot 16 ++ [.reply slot true] ++
    WorldAction.steps slot 16

/-- A request runs until it ends or waits. -/
def requestRun (slot : ℕ) (r : LowStockRequest) : List (WorldAction LowStockRequest Bool) :=
  .start slot r :: WorldAction.steps slot 16

/-- A sweep has read its candidates when another one raises the alert, the rice is replenished and
the flag cleared. -/
def staleRun : List (WorldAction LowStockRequest Bool) :=
  .start 1 (.evaluate none) :: WorldAction.steps 1 5 ++ sweepRun 2 ++
    requestRun 3 (.setMaterial (rice 9000)) ++ sweepRun 2 ++ WorldAction.steps 1 16 ++
    [.reply 1 true] ++ WorldAction.steps 1 16

/-- Sweeps one after the other, over two periods. -/
def twiceRun : List (WorldAction LowStockRequest Bool) :=
  sweepRun 1 ++ requestRun 2 (.setMaterial (rice 9000)) ++ sweepRun 1 ++
    requestRun 2 (.setMaterial (rice 1000)) ++ sweepRun 1

end StelloKitchens.LowStock
