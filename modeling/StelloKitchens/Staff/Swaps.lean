import StelloKitchens.Lib.Triples
import StelloKitchens.Staff.Roster

/-!
# Swaps move what was agreed

What a person works on a day changes only by who holds the lock of the day, and a shift keeps its
owner for as long as no decision hands it over. What a request says of the owner is therefore true
when it is decided, unless a decision in between has handed over the shift: the requested shift is
not checked against its owner again, as the shift that is offered for it is.

## Main definitions

* `OneADay`, `Decision.Agreed` — what holds of the roster, and of a decision.
* `RosterDb.Owned` — a shift has its owner, or has been handed over since.
* `Sound`, `RosterStep` — what holds of the tables, and what a commit does to them.
* `Rostered` — the tables of a transaction that assigns shifts, as it goes.

## Main results

* `Rostered.insert` — a shift that is new takes a free day.
* `keeping_exchange` — the exchange of two shifts.
* `swaps_agreed` — the swaps over all interleavings.
-/

namespace StelloKitchens.Staff

open Checked Tx Process Method Discipline Service

/-! ### What was agreed -/

/-- No one has two shifts on a day. -/
def OneADay (shifts : KeyedTable RosterShift.id) : Prop :=
  ∀ r ∈ shifts.rows, ∀ q ∈ shifts.rows, r.staffId = q.staffId → r.date = q.date → r = q

instance (shifts : KeyedTable RosterShift.id) : Decidable (OneADay shifts) :=
  inferInstanceAs (Decidable (∀ r ∈ shifts.rows, _))

/-- A shift but for its owner. -/
def RosterShift.unowned (s : RosterShift) : RosterShift := { s with staffId := "" }

/-- The shifts that a decision hands over are the ones of the request, they are still of those
whose they were, and no shift is changed but for its owner. -/
structure Decision.Agreed (d : Decision) : Prop where
  shift : ∀ s ∈ d.shift, s ∈ d.before ∧ s.id = d.request.fromShiftId ∧ s.staffId = d.request.owner
  other : ∀ o ∈ d.other,
    o ∈ d.before ∧ some o.id = d.request.toShiftId ∧ o.staffId = d.request.toStaffId
  both : d.shift.isSome → d.other.isSome = d.request.toShiftId.isSome
  same : (d.after.map (·.unowned)).Perm (d.before.map (·.unowned))

/-- No one has two shifts on a day, and every decision did what was agreed. -/
structure RosterDb.Agreed (db : RosterDb) : Prop where
  oneADay : OneADay db.shifts
  decisions : ∀ d ∈ db.decisions, d.Agreed

/-! ### Owners -/

/-- A shift is of this person, unless a decision since then has handed it over. -/
structure RosterDb.Owned (db : RosterDb) (id : ℕ) (owner : String) (since : ℕ) : Prop where
  le_length : since ≤ db.decisions.length
  known : id ∈ db.shiftIds
  owner : ∀ s ∈ db.shifts, s.id = id →
    s.staffId = owner ∨ ∃ d ∈ db.decisions.drop since, id ∈ d.handed

/-- What holds of the tables. -/
structure Sound (db : RosterDb) (n : ℕ) : Prop where
  oneADay : OneADay db.shifts
  known : ∀ r ∈ db.shifts, r.id ∈ db.shiftIds
  drawn : ∀ id ∈ db.shiftIds, id < n
  requests : ∀ r ∈ db.swaps, r.id < n
  owned : ∀ r ∈ db.swaps, db.Owned r.fromShiftId r.owner r.since
  agreed : ∀ d ∈ db.decisions, d.Agreed

/-- What the commit of who holds these does to the tables. -/
structure RosterStep (L : Hold LockKey → Prop) (s t : RosterDb) : Prop where
  days : ∀ r : RosterShift, ¬L (.lock (.day r.staffId r.date)) → (r ∈ t.shifts ↔ r ∈ s.shifts)
  known : s.shiftIds ⊆ t.shiftIds
  fresh : ∀ id ∈ t.shiftIds, id ∈ s.shiftIds ∨ L (.number id)
  owners : ∀ r' ∈ t.shifts, r'.id ∈ s.shiftIds →
    (∃ r ∈ s.shifts, r.id = r'.id ∧ r.staffId = r'.staffId) ∨
      ∃ d ∈ t.decisions.drop s.decisions.length, r'.id ∈ d.handed
  swaps : TableStep .request L s.swaps t.swaps
  decisions : s.decisions <+: t.decisions

/-- Who owns a shift is known for good. -/
theorem RosterDb.Owned.step {L : Hold LockKey → Prop} {s t : RosterDb} (h : RosterStep L s t)
    {id since : ℕ} {owner : String} (hs : s.Owned id owner since) : t.Owned id owner since := by
  obtain ⟨later, hlater⟩ := h.decisions
  refine ⟨hs.le_length.trans h.decisions.length_le, h.known hs.known, fun r' hr' hid => ?_⟩
  have hsince : t.decisions.drop since = s.decisions.drop since ++ later := by
    rw [← hlater, List.drop_append_of_le_length hs.le_length]
  have hlen : t.decisions.drop s.decisions.length = later := by
    rw [← hlater, List.drop_left]
  rw [hsince]
  subst hid
  rcases h.owners r' hr' hs.known with ⟨r, hr, hid, hstaff⟩ | ⟨d, hd, hhanded⟩
  · rw [← hstaff]
    refine (hs.owner r hr hid).imp_right fun h => ?_
    obtain ⟨d, hd, hhanded⟩ := h
    exact ⟨d, List.mem_append_left _ hd, hhanded⟩
  · rw [hlen] at hd
    exact .inr ⟨d, List.mem_append_right _ hd, hhanded⟩

/-! ### Assigning shifts -/

/-- The tables of a transaction that assigns shifts, by the committed ones. -/
structure Rostered (L : Hold LockKey → Prop) (s t : RosterDb) : Prop where
  oneADay : OneADay t.shifts
  mem_known : ∀ r ∈ t.shifts, r.id ∈ t.shiftIds
  days : ∀ r : RosterShift, ¬L (.lock (.day r.staffId r.date)) → (r ∈ t.shifts ↔ r ∈ s.shifts)
  known : s.shiftIds ⊆ t.shiftIds
  fresh : ∀ id ∈ t.shiftIds, id ∈ s.shiftIds ∨ L (.number id)
  owners : ∀ r' ∈ t.shifts, r'.id ∈ s.shiftIds →
    ∃ r ∈ s.shifts, r.id = r'.id ∧ r.staffId = r'.staffId
  swaps : t.swaps = s.swaps
  decisions : t.decisions = s.decisions

section Rostered

variable {L L' : Hold LockKey → Prop} {s t : RosterDb} {n : ℕ}

theorem Rostered.refl (hs : Sound s n) : Rostered L s s where
  oneADay := hs.oneADay
  mem_known := hs.known
  days _ _ := Iff.rfl
  known := List.Subset.refl _
  fresh _ h := .inl h
  owners r hr _ := ⟨r, hr, rfl, rfl⟩
  swaps := rfl
  decisions := rfl

theorem Rostered.mono (hL : ∀ k, L k → L' k) (h : Rostered L s t) : Rostered L' s t where
  oneADay := h.oneADay
  mem_known := h.mem_known
  days r hr := h.days r fun hlock => hr (hL _ hlock)
  known := h.known
  fresh id hid := (h.fresh id hid).imp_right (hL _)
  owners := h.owners
  swaps := h.swaps
  decisions := h.decisions

/-- Shifts on days that are locked are deleted. -/
theorem Rostered.delete (h : Rostered L s t) {p : RosterShift → Bool}
    (hlock : ∀ r ∈ t.shifts, p r = true → L (.lock (.day r.staffId r.date))) :
    Rostered L s (t.deleteShifts p) := by
  have hmem : ∀ r, r ∈ (t.deleteShifts p).shifts ↔ r ∈ t.shifts ∧ p r = false :=
    fun r => KeyedTable.mem_delete
  refine ⟨fun r hr q hq => ?_, fun r hr => ?_, fun r hfree => ?_, h.known, h.fresh,
    fun r hr => ?_, h.swaps, h.decisions⟩
  · exact h.oneADay r ((hmem r).mp hr).1 q ((hmem q).mp hq).1
  · exact h.mem_known r ((hmem r).mp hr).1
  · rw [hmem, ← h.days r hfree]
    refine ⟨And.left, fun hr => ⟨hr, ?_⟩⟩
    rw [← Bool.not_eq_true]
    exact fun hp => hfree (hlock r hr hp)
  · exact h.owners r ((hmem r).mp hr).1

/-- A shift on a day that is locked gets other times. -/
theorem Rostered.setTimes (h : Rostered L s t) {old : RosterShift} (hold : old ∈ t.shifts)
    (hlock : L (.lock (.day old.staffId old.date))) (times : ShiftTimes) :
    Rostered L s { t with
      shifts := t.shifts.modify (·.id = old.id) (fun r => { r with times := times })
        fun _ => rfl } := by
  have hmem := fun r => @KeyedTable.mem_modify _ _ RosterShift.id t.shifts
    (fun q => decide (q.id = old.id)) (fun q => { q with times := times }) (fun _ => rfl) r
  have hfrom : ∀ r, r ∈ t.shifts.modify (·.id = old.id) (fun q => { q with times := times })
      (fun _ => rfl) → ∃ q ∈ t.shifts, r.id = q.id ∧ r.staffId = q.staffId ∧ r.date = q.date ∧
        (q.id ≠ old.id → r = q) := by
    intro r hr
    obtain ⟨q, hq, rfl⟩ := (hmem r).mp hr
    by_cases hid : q.id = old.id
    · rw [if_pos (decide_eq_true hid)]
      exact ⟨q, hq, rfl, rfl, rfl, fun hne => absurd hid hne⟩
    · rw [if_neg (by simpa using hid)]
      exact ⟨q, hq, rfl, rfl, rfl, fun _ => rfl⟩
  refine ⟨fun r hr q hq hstaff hdate => ?_, fun r hr => ?_, fun r hfree => ?_, h.known, h.fresh,
    fun r hr hid => ?_, h.swaps, h.decisions⟩
  · obtain ⟨r₀, hr₀, hid, hs, hd, -⟩ := hfrom r hr
    obtain ⟨q₀, hq₀, hid', hs', hd', -⟩ := hfrom q hq
    have heq := h.oneADay r₀ hr₀ q₀ hq₀ (hs ▸ hs' ▸ hstaff) (hd ▸ hd' ▸ hdate)
    exact KeyedTable.eq_of_mem hr hq (by rw [hid, hid', heq])
  · obtain ⟨q, hq, hid, -⟩ := hfrom r hr
    rw [hid]
    exact h.mem_known q hq
  · rw [← h.days r hfree]
    constructor
    · intro hr
      obtain ⟨q, hq, hid, hs, hd, heq⟩ := hfrom r hr
      by_cases hq' : q.id = old.id
      · rw [KeyedTable.eq_of_mem hq hold hq'] at hs hd
        rw [hs, hd] at hfree
        exact absurd hlock hfree
      · rwa [heq hq']
    · intro hr
      refine (hmem r).mpr ⟨r, hr, ?_⟩
      rw [if_neg]
      intro hid
      rw [KeyedTable.eq_of_mem hr hold (of_decide_eq_true hid)] at hfree
      exact hfree hlock
  · obtain ⟨q, hq, hqid, hs, -⟩ := hfrom r hr
    rw [hqid] at hid ⊢
    rw [hs]
    exact h.owners q hq hid

/-- A shift is inserted on a day that is locked and free. -/
theorem Rostered.insert (hs : Sound s n) (h : Rostered L s t) {r : RosterShift}
    (hnew : r.id ∉ s.shiftIds) (hnumber : L (.number r.id))
    (hlock : L (.lock (.day r.staffId r.date)))
    (hfree : ∀ q ∈ t.shifts, q.staffId = r.staffId → q.date ≠ r.date) :
    Rostered L s (t.insertShift r) := by
  have hmem : ∀ q, q ∈ (t.insertShift r).shifts ↔ q = r ∨ q ∈ t.shifts ∧ q.id ≠ r.id :=
    fun q => KeyedTable.mem_put
  refine ⟨fun q hq q' hq' hstaff hdate => ?_, fun q hq => ?_, fun q hunlocked => ?_, fun i hi => ?_,
    fun i hi => ?_, fun q hq hid => ?_, h.swaps, h.decisions⟩
  · rcases (hmem q).mp hq with rfl | ⟨hold, -⟩ <;> rcases (hmem q').mp hq' with rfl | ⟨hold', -⟩
    · rfl
    · exact absurd hdate.symm (hfree q' hold' hstaff.symm)
    · exact absurd hdate (hfree q hold hstaff)
    · exact h.oneADay q hold q' hold' hstaff hdate
  · rcases (hmem q).mp hq with rfl | ⟨hq, -⟩
    · exact List.mem_append_right _ (List.mem_singleton_self _)
    · exact List.mem_append_left _ (h.mem_known q hq)
  · rw [hmem, ← h.days q hunlocked]
    constructor
    · rintro (rfl | ⟨hq, -⟩)
      · exact absurd hlock hunlocked
      · exact hq
    · intro hq
      -- a shift under the same number would be one of the committed
      refine .inr ⟨hq, fun hid => hnew ?_⟩
      rw [← hid]
      exact hs.known q ((h.days q hunlocked).mp hq)
  · exact List.mem_append_left _ (h.known hi)
  · rcases List.mem_append.mp hi with hi | hi
    · exact h.fresh i hi
    · rw [List.mem_singleton.mp hi]
      exact .inr hnumber
  · rcases (hmem q).mp hq with rfl | ⟨hq, -⟩
    · exact absurd hid hnew
    · exact h.owners q hq hid

theorem mem_of_shiftAt {db : RosterDb} {staffId : String} {date : ℤ} {r : RosterShift}
    (h : db.shiftAt staffId date = some r) :
    r ∈ db.shifts ∧ r.staffId = staffId ∧ r.date = date := by
  unfold RosterDb.shiftAt at h
  exact ⟨List.mem_of_find?_eq_some h, by simpa using List.find?_some h⟩

theorem ne_of_shiftAt {db : RosterDb} {staffId : String} {date : ℤ}
    (h : db.shiftAt staffId date = none) :
    ∀ q ∈ db.shifts, q.staffId = staffId → q.date ≠ date := by
  unfold RosterDb.shiftAt at h
  exact fun q hq hstaff hdate => List.find?_eq_none.mp h q hq (decide_eq_true ⟨hstaff, hdate⟩)

/-- Where the shift is the only one of its person on its day, it is found there. -/
theorem shiftAt_of_mem {db : RosterDb} (h : OneADay db.shifts) {r : RosterShift}
    (hr : r ∈ db.shifts) : db.shiftAt r.staffId r.date = some r := by
  cases hfind : db.shiftAt r.staffId r.date with
  | none => exact absurd rfl (ne_of_shiftAt hfind r hr rfl)
  | some q =>
    obtain ⟨hq, hstaff, hdate⟩ := mem_of_shiftAt hfind
    rw [h q hq r hr hstaff hdate]

/-- A way to write a shift that keeps to the rules: under a new number, on a day that is locked. -/
def Assigns (write : RosterShift → RosterDb → RosterDb) : Prop :=
  ∀ {L : Hold LockKey → Prop} {s t : RosterDb} {n : ℕ} {r : RosterShift}, Sound s n →
    Rostered L s t → r.id ∉ s.shiftIds → L (.number r.id) →
      L (.lock (.day r.staffId r.date)) → Rostered L s (write r t)

theorem assigns_upsertShift : Assigns RosterDb.upsertShift := by
  intro L s t n r hs h hnew hnumber hlock
  unfold RosterDb.upsertShift
  cases hfind : t.shiftAt r.staffId r.date with
  | none => exact h.insert hs hnew hnumber hlock (ne_of_shiftAt hfind)
  | some old =>
    obtain ⟨hold, hstaff, hdate⟩ := mem_of_shiftAt hfind
    refine h.setTimes hold ?_ r.times
    rwa [hstaff, hdate]

theorem assigns_insertNew : Assigns RosterDb.insertNew := by
  intro L s t n r hs h hnew hnumber hlock
  unfold RosterDb.insertNew
  cases hfind : t.shiftAt r.staffId r.date with
  | none => exact h.insert hs hnew hnumber hlock (ne_of_shiftAt hfind)
  | some old => exact h

/-- A transaction that assigns shifts may commit. -/
theorem Rostered.commit (hs : Sound s n) (hdrawn : ∀ m, L (.number m) → m < n)
    (h : Rostered L s t) : Sound t n ∧ RosterStep L s t := by
  have hstep : RosterStep L s t := by
    refine ⟨h.days, h.known, h.fresh, fun r hr hid => .inl (h.owners r hr hid), ?_, ?_⟩
    · rw [h.swaps]
      exact .refl _
    · rw [h.decisions]
  refine ⟨⟨h.oneADay, h.mem_known, fun id hid => ?_, ?_, ?_, ?_⟩, hstep⟩
  · rcases h.fresh id hid with hid | hid
    · exact hs.drawn id hid
    · exact hdrawn id hid
  · rw [h.swaps]
    exact hs.requests
  · rw [h.swaps]
    exact fun r hr => (hs.owned r hr).step hstep
  · rw [h.decisions]
    exact hs.agreed

end Rostered

/-! ### Decisions -/

section Decisions

variable {L : Hold LockKey → Prop} {s : RosterDb} {n : ℕ} {req : ShiftSwapRequest}
  {status : RequestStatus} {shifts : RosterDb → KeyedTable RosterShift.id}

/-- A decision keeps to the rules if the shifts do that it leaves. -/
theorem keeping_decided {shift other : Option RosterShift} (hs : Sound s n)
    (hlock : L (.lock (.request req.id))) (hone : OneADay (shifts s))
    (hdays : ∀ r : RosterShift, ¬L (.lock (.day r.staffId r.date)) →
      (r ∈ shifts s ↔ r ∈ s.shifts))
    (hfrom : ∀ r' ∈ shifts s, ∃ r ∈ s.shifts, r.id = r'.id ∧
      (r.staffId = r'.staffId ∨ r'.id ∈ ((shift.toList ++ other.toList).map (·.id))))
    (hagreed : Decision.Agreed ⟨req, shift, other, s.shifts.rows, (shifts s).rows⟩) :
    Sound (s.decided req status shift other shifts) n ∧
      RosterStep L s (s.decided req status shift other shifts) := by
  have hswaps : ∀ r' ∈ (s.decided req status shift other shifts).swaps, ∃ r ∈ s.swaps,
      r'.id = r.id ∧ r'.fromShiftId = r.fromShiftId ∧ r'.owner = r.owner ∧ r'.since = r.since := by
    intro r' hr'
    obtain ⟨r, hr, rfl⟩ := (@KeyedTable.mem_modify _ _ ShiftSwapRequest.id s.swaps _
      (fun r => { r with status := status }) (fun _ => rfl) r').mp hr'
    refine ⟨r, hr, ?_⟩
    split <;> exact ⟨rfl, rfl, rfl, rfl⟩
  have hstep : RosterStep L s (s.decided req status shift other shifts) := by
    refine ⟨hdays, List.Subset.refl _, fun _ h => .inl h, fun r' hr' _ => ?_, ?_, ?_⟩
    · obtain ⟨r, hr, hid, hstaff | hhanded⟩ := hfrom r' hr'
      · exact .inl ⟨r, hr, hid, hstaff⟩
      · refine .inr ⟨⟨req, shift, other, s.shifts.rows, (shifts s).rows⟩, ?_, hhanded⟩
        show _ ∈ (s.decisions ++ [_]).drop s.decisions.length
        rw [List.drop_left]
        exact List.mem_singleton_self _
    · refine @TableStep.modify _ _ ShiftSwapRequest.id _ L s.swaps (fun r => decide (r.id = req.id))
        (fun r => { r with status := status }) (fun _ => rfl) fun r _ hr => ?_
      rwa [of_decide_eq_true hr]
    · exact List.prefix_append _ _
  refine ⟨⟨hone, fun r' hr' => ?_, hs.drawn, fun r' hr' => ?_, fun r' hr' => ?_, ?_⟩, hstep⟩
  · obtain ⟨r, hr, hid, -⟩ := hfrom r' hr'
    rw [← hid]
    exact hs.known r hr
  · obtain ⟨r, hr, hid, -⟩ := hswaps r' hr'
    rw [hid]
    exact hs.requests r hr
  · obtain ⟨r, hr, -, hshift, howner, hsince⟩ := hswaps r' hr'
    rw [hshift, howner, hsince]
    exact (hs.owned r hr).step hstep
  · intro d hd
    rcases List.mem_append.mp hd with hd | hd
    · exact hs.agreed d hd
    · rw [List.mem_singleton.mp hd]
      exact hagreed

/-- A request that is rejected leaves the shifts alone. -/
theorem keeping_rejected (hs : Sound s n) (hlock : L (.lock (.request req.id))) :
    Sound (s.decided req .rejected none none (·.shifts)) n ∧
      RosterStep L s (s.decided req .rejected none none (·.shifts)) := by
  refine keeping_decided hs hlock hs.oneADay (fun _ _ => Iff.rfl)
    (fun r hr => ⟨r, hr, rfl, .inl rfl⟩) ⟨fun _ h => ?_, fun _ h => ?_, fun h => ?_, .refl _⟩
  · cases h
  · cases h
  · cases h

end Decisions

/-! ### Exchanging two shifts -/

/-- Two shifts that may be exchanged: the days on which they go to the other person are free but
for the two of them. -/
structure Exchangeable (s : RosterDb) (req : ShiftSwapRequest) (shift : RosterShift)
    (other : Option RosterShift) : Prop where
  mem : shift ∈ s.shifts
  mem_other : ∀ o ∈ other, o ∈ s.shifts ∧ o.staffId = req.toStaffId ∧ o.id ≠ shift.id
  free : ∀ q ∈ s.shifts, q.staffId = req.toStaffId → q.date = shift.date →
    q.id = shift.id ∨ ∃ o ∈ other, q.id = o.id
  free_other : ∀ o ∈ other, ∀ q ∈ s.shifts, q.staffId = shift.staffId → q.date = o.date →
    q.id = shift.id ∨ ∃ o ∈ other, q.id = o.id

namespace Exchangeable

variable {L : Hold LockKey → Prop} {s : RosterDb} {n : ℕ} {req : ShiftSwapRequest}
  {shift : RosterShift} {other : Option RosterShift}

theorem mem_exchange (h : Exchangeable s req shift other) {r : RosterShift} :
    r ∈ s.exchange req shift other ↔ r = { shift with staffId := req.toStaffId } ∨
      (∃ o ∈ other, r = { o with staffId := shift.staffId }) ∨
        r ∈ s.shifts ∧ r.id ≠ shift.id ∧ ∀ o ∈ other, r.id ≠ o.id := by
  cases other with
  | none => simp [RosterDb.exchange, KeyedTable.mem_put, KeyedTable.mem_delete]
  | some o =>
    obtain ⟨-, -, hne⟩ := h.mem_other o rfl
    simp only [RosterDb.exchange, KeyedTable.mem_put, KeyedTable.mem_delete, Option.any_some,
      decide_eq_true_eq, decide_eq_false_iff_not, Option.mem_some_iff, exists_eq_left',
      forall_eq']
    constructor
    · rintro (rfl | ⟨rfl | hr, hne'⟩)
      · exact .inr (.inl rfl)
      · exact .inl rfl
      · tauto
    · rintro (rfl | rfl | hr)
      · exact .inr ⟨.inl rfl, hne.symm⟩
      · exact .inl rfl
      · tauto

theorem oneADay (h : Exchangeable s req shift other) (hs : OneADay s.shifts) :
    OneADay (s.exchange req shift other) := by
  -- the two that change hands are not on one day
  have hpair : ∀ o ∈ other, req.toStaffId = shift.staffId → shift.date ≠ o.date := by
    intro o ho hstaff hdate
    obtain ⟨hmem, howner, hne⟩ := h.mem_other o ho
    exact hne (congrArg _ (hs o hmem shift h.mem (howner.trans hstaff) hdate.symm))
  have hkept : ∀ q ∈ s.shifts, q.id ≠ shift.id → (∀ o ∈ other, q.id ≠ o.id) →
      (q.staffId = req.toStaffId → q.date ≠ shift.date) ∧
        ∀ o ∈ other, q.staffId = shift.staffId → q.date ≠ o.date := by
    refine fun q hq hne hne' => ⟨fun hstaff hdate => ?_, fun o ho hstaff hdate => ?_⟩
    · rcases h.free q hq hstaff hdate with hid | ⟨o, ho, hid⟩
      · exact hne hid
      · exact hne' o ho hid
    · rcases h.free_other o ho q hq hstaff hdate with hid | ⟨o', ho', hid⟩
      · exact hne hid
      · exact hne' o' ho' hid
  intro r hr q hq hstaff hdate
  rcases h.mem_exchange.mp hr with rfl | ⟨o, ho, rfl⟩ | ⟨hmem, hne, hne'⟩ <;>
    rcases h.mem_exchange.mp hq with rfl | ⟨o', ho', rfl⟩ | ⟨hmem', hne₁, hne₁'⟩
  · rfl
  · exact absurd hdate (hpair o' ho' hstaff)
  · exact absurd hdate.symm ((hkept q hmem' hne₁ hne₁').1 hstaff.symm)
  · exact absurd hdate.symm (hpair o ho hstaff.symm)
  · rw [Option.mem_unique ho ho']
  · exact absurd hdate.symm ((hkept q hmem' hne₁ hne₁').2 o ho hstaff.symm)
  · exact absurd hdate ((hkept r hmem hne hne').1 hstaff)
  · exact absurd hdate ((hkept r hmem hne hne').2 o' ho' hstaff)
  · exact hs r hmem q hmem' hstaff hdate

/-- Only shifts on locked days come or go. -/
theorem days (h : Exchangeable s req shift other) (hshift : L (.lock (.day shift.staffId shift.date)))
    (hother : ∀ o ∈ other, L (.lock (.day o.staffId o.date)))
    (hcover : L (.lock (.day req.toStaffId shift.date)))
    (hreturn : ∀ o ∈ other, L (.lock (.day shift.staffId o.date))) {r : RosterShift}
    (hr : ¬L (.lock (.day r.staffId r.date))) :
    r ∈ s.exchange req shift other ↔ r ∈ s.shifts := by
  rw [h.mem_exchange]
  constructor
  · rintro (rfl | ⟨o, ho, rfl⟩ | ⟨hmem, -⟩)
    · exact absurd hcover hr
    · exact absurd (hreturn o ho) hr
    · exact hmem
  · refine fun hmem => .inr (.inr ⟨hmem, fun hid => ?_, fun o ho hid => ?_⟩)
    · rw [KeyedTable.eq_of_mem hmem h.mem hid] at hr
      exact hr hshift
    · rw [KeyedTable.eq_of_mem hmem (h.mem_other o ho).1 hid] at hr
      exact hr (hother o ho)

/-- Every shift keeps its owner, or is handed over. -/
theorem owners (h : Exchangeable s req shift other) {r' : RosterShift}
    (hr' : r' ∈ s.exchange req shift other) : ∃ r ∈ s.shifts, r.id = r'.id ∧
      (r.staffId = r'.staffId ∨ r'.id ∈ (((some shift).toList ++ other.toList).map (·.id))) := by
  rcases h.mem_exchange.mp hr' with rfl | ⟨o, ho, rfl⟩ | ⟨hmem, -⟩
  · exact ⟨shift, h.mem, rfl, .inr List.mem_cons_self⟩
  · refine ⟨o, (h.mem_other o ho).1, rfl, .inr (List.mem_map.mpr ⟨o, ?_, rfl⟩)⟩
    exact List.mem_cons_of_mem _ (Option.mem_toList.mpr ho)
  · exact ⟨r', hmem, rfl, .inl rfl⟩

/-- The rows that are deleted, and the others, make up a table. -/
theorem perm_delete {t : KeyedTable RosterShift.id} {p : RosterShift → Bool} {l : List RosterShift}
    (hl : l.Nodup) (hmem : ∀ r, r ∈ l ↔ r ∈ t ∧ p r = true) :
    t.rows.Perm (l ++ (t.delete p).rows) := by
  have hdeleted : (t.rows.filter p).Perm l := by
    refine (List.perm_ext_iff_of_nodup ((List.Nodup.of_map _ t.nodup_keys).filter p) hl).mpr ?_
    exact fun r => List.mem_filter.trans (hmem r).symm
  exact (List.filter_append_perm p t.rows).symm.trans (hdeleted.append_right _)

theorem any_id {other : Option RosterShift} {i : ℕ} :
    other.any (·.id = i) = true ↔ ∃ o ∈ other, o.id = i := by
  cases other <;> simp

/-- The two shifts, and the ones that stay. -/
theorem perm_kept (h : Exchangeable s req shift other) :
    s.shifts.rows.Perm (shift :: other.toList ++
      (s.shifts.delete fun r => r.id = shift.id ∨ other.any (·.id = r.id)).rows) := by
  refine perm_delete ?_ fun r => ?_
  · cases other with
    | none => exact List.nodup_singleton _
    | some o =>
      have hne := (h.mem_other o rfl).2.2
      refine List.nodup_cons.mpr ⟨fun hmem => ?_, List.nodup_singleton _⟩
      exact hne (congrArg _ (List.mem_singleton.mp hmem).symm)
  · rw [List.mem_cons, Option.mem_toList, decide_eq_true_eq]
    constructor
    · rintro (rfl | hr)
      · exact ⟨h.mem, .inl rfl⟩
      · exact ⟨(h.mem_other r hr).1, .inr (any_id.mpr ⟨r, hr, rfl⟩)⟩
    · rintro ⟨hr, hid | hany⟩
      · exact .inl (KeyedTable.eq_of_mem hr h.mem hid)
      · obtain ⟨o, ho, hid⟩ := any_id.mp hany
        rw [KeyedTable.eq_of_mem hr (h.mem_other o ho).1 hid.symm]
        exact .inr ho

theorem rows_exchange (h : Exchangeable s req shift other) : (s.exchange req shift other).rows =
    (s.shifts.delete fun r => r.id = shift.id ∨ other.any (·.id = r.id)).rows ++
      ({ shift with staffId := req.toStaffId } ::
        other.toList.map fun o => { o with staffId := shift.staffId }) := by
  have hkept : ∀ r ∈ s.shifts.delete fun r => r.id = shift.id ∨ other.any (·.id = r.id),
      r.id ≠ shift.id ∧ ∀ o ∈ other, r.id ≠ o.id := by
    intro r hr
    obtain ⟨hid, hany⟩ := not_or.mp (of_decide_eq_false (KeyedTable.mem_delete.mp hr).2)
    refine ⟨hid, fun o ho heq => hany ?_⟩
    exact any_id.mpr ⟨o, ho, heq.symm⟩
  have hcovered : (((s.shifts.delete fun r => r.id = shift.id ∨ other.any (·.id = r.id)).put
      { shift with staffId := req.toStaffId }).rows) = _ :=
    KeyedTable.rows_put_of_new fun r hr => (hkept r hr).1
  cases other with
  | none => exact hcovered
  | some o =>
    rw [RosterDb.exchange, KeyedTable.rows_put_of_new, hcovered, List.append_assoc]
    · rfl
    · intro r hr
      rcases KeyedTable.mem_put.mp hr with rfl | ⟨hr, -⟩
      · exact fun heq => (h.mem_other o rfl).2.2 heq.symm
      · exact (hkept r hr).2 o rfl

/-- The shifts are the same but for their owners. -/
theorem perm_unowned (h : Exchangeable s req shift other) :
    ((s.exchange req shift other).rows.map (·.unowned)).Perm
      (s.shifts.rows.map (·.unowned)) := by
  have howners : ({ shift with staffId := req.toStaffId } ::
      other.toList.map fun o => { o with staffId := shift.staffId }).map (·.unowned) =
        (shift :: other.toList).map (·.unowned) := by
    cases other <;> rfl
  rw [h.rows_exchange, List.map_append, howners, ← List.map_append]
  exact (List.perm_append_comm.trans h.perm_kept.symm).map _

end Exchangeable

/-! ### The terms -/

/-- A swap that is approved is of a shift that no decision has handed over since the request. -/
def Admits : Note → (Hold LockKey → Prop) → RosterDb → Prop
  | .plain, _, _ => True
  | .approved id, _, db => ∀ r ∈ db.swaps.rows, r.id = id →
    ∀ d ∈ db.decisions.drop r.since, r.fromShiftId ∉ d.handed

instance (note : Note) (L : Hold LockKey → Prop) (db : RosterDb) : Decidable (Admits note L db) :=
  match note with
  | .plain => .isTrue trivial
  | .approved _ => inferInstanceAs (Decidable (∀ r ∈ db.swaps.rows, _))

/-- The terms of the methods. -/
def rosterTerms : Terms RosterDb LockKey Note (Except ServiceError Unit) where
  inv := Sound
  step := RosterStep
  inv_mono hle h := ⟨h.oneADay, h.known, fun i hi => (h.drawn i hi).trans_le hle,
    fun r hr => (h.requests r hr).trans_le hle, h.owned, h.agreed⟩
  admits := Admits
  said _ _ := True
  said_step _ _ _ _ := trivial

section Statements

variable {L : Hold LockKey → Prop} {K : RosterDb → Prop} {f : RosterDb → RosterDb}

/-- A transaction that assigns shifts: what it knows, and what it has written so far. -/
structure Rostering (L : Hold LockKey → Prop) (K : RosterDb → Prop) (f : RosterDb → RosterDb) :
    Prop where
  stable : rosterTerms.Stable L K
  rostered : ∀ s n, Sound s n → K s → Rostered L s (f s)

theorem Rostering.start (hK : rosterTerms.Stable L K) : Rostering L K id :=
  ⟨hK, fun _ _ hs _ => .refl hs⟩

theorem Rostering.anti (h : Rostering L K f) {L' : Hold LockKey → Prop} (hL : ∀ k, L k → L' k) :
    Rostering L' K f := ⟨h.stable.anti hL, fun s n hs hKs => (h.rostered s n hs hKs).mono hL⟩

theorem Rostering.commits (h : Rostering L K f) :
    CommitsTo rosterTerms.toDiscipline Admits .plain L K f fun _ => True :=
  Commits.to fun s n hs hdrawn hKs => (h.rostered s n hs hKs.1).commit hs hdrawn

variable {post : (Hold LockKey → Prop) → (RosterDb → Prop) → (RosterDb → RosterDb) → Unit → Prop}

/-- A shift is written under a number that is drawn, on a day that is locked. -/
theorem wp_drawn_shift {write : RosterShift → RosterDb → RosterDb} (hwrite : Assigns write)
    (h : Rostering L K f) {shift : ℕ → RosterShift} (hid : ∀ n, (shift n).id = n)
    (hlock : ∀ n, L (.lock (.day (shift n).staffId (shift n).date)))
    (hpost : ∀ L' J g, (∀ k, L k → L' k) → Rostering L' J g → post L' J g ()) :
    rosterTerms.wp (draw >>= fun n => update (write (shift n)) : RosterTx Unit) L K f post := by
  rw [Discipline.wp_bind]
  refine wp_draw h.stable fun s₀ n hs₀ _ => ?_
  -- no one else inserts a shift under the number
  have hstable : rosterTerms.Stable (add L (.number n)) fun s => n ∉ s.shiftIds := by
    intro L' s m s' m' _ _ hother hstep hs hs'
    rcases hstep.fresh n hs' with hmem | hmem
    · exact hs hmem
    · exact hother _ (.inl rfl) hmem
  refine ⟨_, hstable, fun hmem => Nat.lt_irrefl _ (hs₀.drawn n hmem), ?_⟩
  rw [Discipline.wp_update]
  have hmore : Rostering (add L (.number n)) K f := h.anti fun _ => .inr
  refine hpost _ _ _ (fun _ => .inr) ⟨hmore.stable.and hstable, fun s m hs hKs => ?_⟩
  refine hwrite hs (hmore.rostered s m hs hKs.1) ?_ ?_ (.inr (hlock n))
  · rw [hid]
    exact hKs.2
  · rw [hid]
    exact .inl rfl

theorem wp_assignEntry {user : StaffUser} {outletId : String} {templates : List ShiftTemplate}
    {e : AssignEntry} (h : Rostering L K f)
    (hpost : ∀ L' J g, Rostering L' J g → post L' J g ()) :
    rosterTerms.wp (assignEntry user outletId templates e) L K f post := by
  have hlocked : Rostering (add L (.lock (.day e.staffId e.date))) K f := h.anti fun _ => .inr
  unfold assignEntry
  rw [Discipline.wp_bind, Discipline.wp_acquire]
  cases truthy e.templateId with
  | none =>
    rw [Discipline.wp_update]
    refine hpost _ _ _ ⟨hlocked.stable, fun s n hs hKs => ?_⟩
    refine (hlocked.rostered s n hs hKs).delete fun r _ hp => ?_
    obtain ⟨-, hstaff, hdate⟩ := of_decide_eq_true hp
    rw [hstaff, hdate]
    exact .inl rfl
  | some templateId =>
    rw [Discipline.wp_bind]
    refine wp_require fun t _ => ?_
    exact wp_drawn_shift assigns_upsertShift hlocked (fun _ => rfl) (fun _ => .inl rfl)
      fun L' J g _ hg => hpost L' J g hg

theorem wp_assignTx {user : StaffUser} {outletId : String} {templates : List ShiftTemplate}
    {entries : List AssignEntry} (h : Rostering L K f)
    (hpost : ∀ L' J g, Rostering L' J g → post L' J g ()) :
    rosterTerms.wp (assignTx user outletId templates entries) L K f post := by
  induction entries generalizing L K f with
  | nil => exact hpost L K f h
  | cons e entries ih =>
    rw [assignTx, Discipline.wp_bind]
    exact wp_assignEntry h fun L' J g hg => ih hg

theorem wp_createCopy {user : StaffUser} {outletId : String} {offset : ℤ} {shift : RosterShift}
    (h : Rostering L K f) (hpost : ∀ L' J g, Rostering L' J g → post L' J g ()) :
    rosterTerms.wp (createCopy user outletId offset shift) L K f post := by
  have hlocked : Rostering (add L (.lock (.day shift.staffId (shift.date + offset)))) K f :=
    h.anti fun _ => .inr
  unfold createCopy
  rw [Discipline.wp_bind, Discipline.wp_acquire]
  exact wp_drawn_shift assigns_insertNew hlocked (fun _ => rfl) (fun _ => .inl rfl)
    fun L' J g _ hg => hpost L' J g hg

theorem wp_createMany {user : StaffUser} {outletId : String} {offset : ℤ} {src : List RosterShift}
    (h : Rostering L K f) (hpost : ∀ L' J g, Rostering L' J g → post L' J g ()) :
    rosterTerms.wp (createMany user outletId offset src) L K f post := by
  induction src generalizing L K f with
  | nil => exact hpost L K f h
  | cons shift src ih =>
    rw [createMany, Discipline.wp_bind]
    exact wp_createCopy h fun L' J g hg => ih hg

theorem wp_copyWeekTx {user : StaffUser} {outletId : String} {toWeek offset : ℤ}
    {src : List RosterShift} (h : Rostering L K f)
    (hpost : ∀ L' J g, Rostering L' J g → post L' J g ()) :
    rosterTerms.wp (copyWeekTx user outletId toWeek offset src) L K f post := by
  simp only [copyWeekTx, Discipline.wp_bind]
  refine wp_query_any h.stable fun old => wp_acquireAll fun L' hL hlocked => ?_
  have h' := h.anti hL.holds
  rw [Discipline.wp_update]
  refine wp_createMany ⟨h'.stable, fun s n hs hKs => ?_⟩ hpost
  refine (h'.rostered s n hs hKs).delete fun r _ hp => ?_
  obtain ⟨-, o, ho, hstaff, hdate⟩ := of_decide_eq_true hp
  rw [← hstaff, ← hdate]
  exact hlocked _ (List.mem_map_of_mem ho)

/-- A shift that was found stays there while its day is locked. -/
theorem stable_mem {r : RosterShift} (hlock : L (.lock (.day r.staffId r.date))) :
    rosterTerms.Stable L fun db => r ∈ db.shifts :=
  fun _ _ _ _ _ _ _ hother hstep hr => (hstep.days r (hother _ hlock)).mpr hr

/-- A day that is locked stays free but for these shifts. -/
theorem stable_free {staffId : String} {date : ℤ} {ignore : List ℕ}
    (hlock : L (.lock (.day staffId date))) : rosterTerms.Stable L fun db =>
      ∀ q ∈ db.shifts, q.staffId = staffId → q.date = date → q.id ∈ ignore := by
  intro L' s n s' n' _ _ hother hstep hs q hq hstaff hdate
  refine hs q ((hstep.days q (hother _ ?_)).mp hq) hstaff hdate
  rwa [hstaff, hdate]

theorem wp_lockShifts {tenantId : String} {ids : List ℕ} (hK : rosterTerms.Stable L K)
    {post : (Hold LockKey → Prop) → (RosterDb → Prop) → (RosterDb → RosterDb) →
      List RosterShift → Prop}
    (hpost : ∀ L' J l, Extends L L' → rosterTerms.Stable L' J → (∀ s, J s → K s) →
      l.length ≤ ids.length →
      (∀ r ∈ l, L' (.lock (.day r.staffId r.date)) ∧ ∀ s, J s → r ∈ s.shifts) → post L' J id l) :
    rosterTerms.wp (lockShifts tenantId ids) L K id post := by
  induction ids generalizing L K post with
  | nil => exact hpost L K [] (.refl L) hK (fun _ hs => hs) (Nat.le_refl _) (by simp)
  | cons i ids ih =>
    simp only [lockShifts, lockShift, Discipline.wp_bind, Discipline.wp_pure]
    refine wp_query_any hK fun found => ?_
    cases found with
    | none =>
      refine ih hK fun L' J l hL hJ hJK hlen hl => ?_
      exact hpost L' J _ hL hJ hJK (hlen.trans (Nat.le_succ _)) hl
    | some s₀ =>
      simp only [Discipline.wp_bind, Discipline.wp_acquire]
      have hK' : rosterTerms.Stable (add L (.lock (.day s₀.staffId s₀.date))) K := hK.add _
      refine wp_query hK' fun s n hs _ => ?_
      cases hread : ((id s).findShift tenantId i).filter fun r =>
          r.staffId = s₀.staffId ∧ r.date = s₀.date with
      | none =>
        refine ⟨fun _ => True, stable_true, trivial, ih (hK'.and stable_true) ?_⟩
        intro L' J l hL hJ hJK hlen hl
        exact hpost L' J _ ((Extends.lock L _).trans hL) hJ (fun s hs => (hJK s hs).1)
          (hlen.trans (Nat.le_succ _)) hl
      | some r =>
        obtain ⟨hfind, hday⟩ := Option.filter_eq_some_iff.mp hread
        obtain ⟨hstaff, hdate⟩ := of_decide_eq_true hday
        obtain ⟨hfind, -⟩ := Option.filter_eq_some_iff.mp hfind
        obtain ⟨hr, -⟩ := KeyedTable.find?_eq_some.mp hfind
        have hlock : add L (.lock (.day s₀.staffId s₀.date)) (.lock (.day r.staffId r.date)) := by
          rw [hstaff, hdate]
          exact .inl rfl
        have hstable := stable_mem hlock
        refine ⟨_, hstable, hr, ih (hK'.and hstable) fun L' J l hL hJ hJK hlen hl => ?_⟩
        refine hpost L' J _ ((Extends.lock L _).trans hL) hJ (fun s hs => (hJK s hs).1)
          (Nat.succ_le_succ hlen) fun q hq => ?_
        rcases List.mem_cons.mp hq with rfl | hq
        · exact ⟨hL.holds _ hlock, fun s hs => (hJK s hs).2⟩
        · exact hl q hq

theorem wp_takeDay {staffId : String} {date : ℤ} {ignore : List ℕ} (hK : rosterTerms.Stable L K)
    (hpost : ∀ J, rosterTerms.Stable (add L (.lock (.day staffId date))) J →
      (∀ s, J s → K s ∧ ∀ q ∈ s.shifts, q.staffId = staffId → q.date = date → q.id ∈ ignore) →
      post (add L (.lock (.day staffId date))) J id ()) :
    rosterTerms.wp (takeDay staffId date ignore) L K id post := by
  simp only [takeDay, Discipline.wp_bind, Discipline.wp_acquire]
  have hK' : rosterTerms.Stable (add L (.lock (.day staffId date))) K := hK.add _
  refine wp_query hK' fun s n hs _ => ?_
  by_cases hfree : ((id s).shiftAt staffId date).filter (·.id ∉ ignore) = none
  · have hstable := @stable_free (add L (.lock (.day staffId date))) staffId date ignore (.inl rfl)
    refine ⟨_, hstable, fun q hq hstaff hdate => ?_, wp_check fun _ => ?_⟩
    · subst hstaff hdate
      rw [id, shiftAt_of_mem hs.oneADay hq] at hfree
      by_contra hid
      simp [hid] at hfree
    · exact hpost _ (hK'.and hstable) fun s hs => hs
  · exact ⟨_, stable_true, trivial, wp_check fun hnone => absurd hnone hfree⟩

/-- The exchange of two shifts may commit. -/
theorem commits_exchange {req : ShiftSwapRequest} {shift : RosterShift} {other : Option RosterShift}
    (hreq : L (.lock (.request req.id))) (hshift : L (.lock (.day shift.staffId shift.date)))
    (hother : ∀ o ∈ other, L (.lock (.day o.staffId o.date)))
    (hcover : L (.lock (.day req.toStaffId shift.date)))
    (hreturn : ∀ o ∈ other, L (.lock (.day shift.staffId o.date)))
    (hid : shift.id = req.fromShiftId) (hids : ∀ o ∈ other, some o.id = req.toShiftId)
    (hboth : other.isSome = req.toShiftId.isSome)
    (hK : ∀ s, K s → req ∈ s.swaps ∧ Exchangeable s req shift other) :
    CommitsTo rosterTerms.toDiscipline Admits (.approved req.id) L K
      (·.decided req .approved (some shift) other (·.exchange req shift other)) fun _ => True := by
  refine Commits.to fun s n hs _ hKs => ?_
  obtain ⟨hKs, hadmits⟩ := hKs
  obtain ⟨hmem, h⟩ := hK s hKs
  refine keeping_decided hs hreq (h.oneADay hs.oneADay)
    (fun r => h.days hshift hother hcover hreturn) (fun r hr => h.owners hr) ?_
  refine ⟨fun r hr => ?_, fun o ho => ?_, fun _ => hboth, h.perm_unowned⟩
  · obtain rfl := Option.some.inj hr
    refine ⟨h.mem, hid, ?_⟩
    rcases (hs.owned req hmem).owner shift h.mem hid with howner | ⟨d, hd, hhanded⟩
    · exact howner
    · exact absurd hhanded (hadmits req hmem rfl d hd)
  · exact ⟨(h.mem_other o ho).1, hids o ho, (h.mem_other o ho).2.1⟩

/-- The days that the requester gets in return. -/
theorem wp_forM_takeDay {staffId : String} {other : Option RosterShift} {ignore : List ℕ}
    (hK : rosterTerms.Stable L K)
    (hpost : ∀ L' J, Extends L L' → (∀ o ∈ other, L' (.lock (.day staffId o.date))) →
      (∀ s, J s → K s ∧ ∀ o ∈ other, ∀ q ∈ s.shifts, q.staffId = staffId → q.date = o.date →
        q.id ∈ ignore) → post L' J id ()) :
    rosterTerms.wp (other.forM fun o => takeDay staffId o.date ignore) L K id post := by
  cases other with
  | none => exact hpost L K (.refl L) (fun _ h => by cases h) fun s hs => ⟨hs, fun _ h => by cases h⟩
  | some o =>
    refine wp_takeDay hK fun J _ hJ => hpost _ J (.lock L _) (fun _ ho => ?_) fun s hs =>
      ⟨(hJ s hs).1, fun _ ho => ?_⟩
    · obtain rfl := Option.some.inj ho
      exact .inl rfl
    · obtain rfl := Option.some.inj ho
      exact (hJ s hs).2

theorem wp_forM_clash {tenantId staffId : String} {other : Option RosterShift} {ignore : List ℕ}
    {e : ServiceError} (hK : rosterTerms.Stable L K) (hpost : post L K id ()) :
    rosterTerms.wp (other.forM fun o => do
      let found ← clash tenantId staffId o.date ignore
      check (found = none) e : RosterTx Unit) L K id post := by
  cases other with
  | none => exact hpost
  | some o =>
    change rosterTerms.wp (clash tenantId staffId o.date ignore >>= fun _ => check _ e) L K id post
    rw [Discipline.wp_bind]
    exact wp_query_any hK fun _ => wp_check fun _ => hpost

/-- The other shift is the one of the request, and not the first one. -/
theorem other_found {req : ShiftSwapRequest} {l : List RosterShift} {o : RosterShift}
    (ho : o ∈ req.toShiftId.bind fun i => l.find? (·.id = i)) :
    o ∈ l ∧ some o.id = req.toShiftId := by
  obtain ⟨i, hi, hfind⟩ := Option.bind_eq_some_iff.mp ho
  have hid : o.id = i := by simpa using List.find?_some hfind
  exact ⟨List.mem_of_find?_eq_some hfind, by rw [hid, hi]⟩

theorem wp_approve {user : StaffUser} {req : ShiftSwapRequest} (hK : rosterTerms.Stable L K)
    (hlock : L (.lock (.request req.id))) (hreq : ∀ s, K s → req ∈ s.swaps) :
    rosterTerms.wp (approve user req) L K id fun L K f _ =>
      CommitsTo rosterTerms.toDiscipline Admits (.approved req.id) L K f fun _ => True := by
  unfold approve
  set ids := (req.fromShiftId :: req.toShiftId.toList).insertionSort (· ≤ ·) with hids
  have hmem : ∀ i, i ∈ ids → i = req.fromShiftId ∨ some i = req.toShiftId := by
    intro i hi
    have hi := (List.perm_insertionSort _ _).mem_iff.mp hi
    exact (List.mem_cons.mp hi).imp_right fun h => (Option.mem_toList.mp h).symm
  simp only [Discipline.wp_bind, Discipline.wp_update]
  refine wp_lockShifts hK fun L₁ J l hL hJ hJK hlen hl => wp_check fun hlen' => ?_
  have hnodup : (req.fromShiftId :: req.toShiftId.toList).Nodup := by
    have hdedup := (List.dedup_sublist ids).eq_of_length_le (hlen' ▸ hlen)
    exact (List.perm_insertionSort _ _).nodup_iff.mp (List.dedup_eq_self.mp hdedup)
  refine wp_require fun shift hshift => ?_
  have hshiftid : shift.id = req.fromShiftId := by simpa using List.find?_some hshift
  obtain ⟨hshiftlock, hshiftmem⟩ := hl shift (List.mem_of_find?_eq_some hshift)
  have hother := fun o => @other_found req l o
  generalize (req.toShiftId.bind fun i => l.find? (·.id = i)) = other at hother ⊢
  refine wp_check fun hboth => wp_check fun howner => ?_
  have hboth : other.isSome = req.toShiftId.isSome := by
    cases hto : req.toShiftId with
    | none =>
      cases other with
      | none => rfl
      | some o => exact absurd (hother o rfl).2 (by rw [hto]; exact Option.some_ne_none _)
    | some i => simpa [hto] using hboth
  have hignored : ∀ i ∈ ids, i = shift.id ∨ ∃ o ∈ other, i = o.id := by
    refine fun i hi => (hmem i hi).imp (fun h => h.trans hshiftid.symm) fun hto => ?_
    rw [← hto] at hboth
    obtain ⟨o, ho⟩ := Option.isSome_iff_exists.mp hboth
    exact ⟨o, ho, Option.some.inj (hto.trans (hother o ho).2.symm)⟩
  have hapart : ∀ o ∈ other, o.id ≠ shift.id := by
    intro o ho hid
    rw [← (hother o ho).2, hid, hshiftid] at hnodup
    simp at hnodup
  refine wp_query_any hJ fun _ => wp_check fun _ => wp_forM_clash hJ ?_
  refine wp_takeDay hJ fun J₁ hJ₁ hcover => wp_forM_takeDay hJ₁ fun L₂ J₂ hL₂ hreturn hfree => ?_
  refine commits_exchange (hL₂.holds _ (.inr (hL.holds _ hlock))) (hL₂.holds _ (.inr hshiftlock))
    (fun o ho => hL₂.holds _ (.inr (hl o (hother o ho).1).1)) (hL₂.holds _ (.inl rfl)) hreturn
    hshiftid (fun o ho => (hother o ho).2) hboth fun s hs => ?_
  obtain ⟨hs₁, hfree⟩ := hfree s hs
  obtain ⟨hsJ, hcover⟩ := hcover s hs₁
  refine ⟨hreq s (hJK s hsJ), hshiftmem s hsJ, fun o ho => ?_, fun q hq hstaff hdate => ?_,
    fun o ho q hq hstaff hdate => ?_⟩
  · exact ⟨(hl o (hother o ho).1).2 s hsJ, howner o ho, hapart o ho⟩
  · exact hignored _ (hcover q hq hstaff hdate)
  · exact hignored _ (hfree o ho q hq hstaff hdate)

end Statements

/-! ### Methods -/

section Methods

variable (user : StaffUser) (outletId : String)

theorem keeps_assertOutlet : (assertOutlet user.toAuthUser outletId : RosterMethod Unit).Keeps
    rosterTerms.toDiscipline Admits := keeps_guardOr _ _

theorem assign_keeps (entries : List AssignEntry) :
    (assign user outletId entries).Keeps rosterTerms.toDiscipline Admits := by
  unfold assign
  refine (keeps_assertOutlet user outletId).bind fun _ => (keeps_look _).bind fun staff =>
    (keeps_look _).bind fun templates => (keeps_guardOr _ _).bind fun _ =>
      (keeps_guardOr _ _).bind fun _ => keeps_atomically fun L K _ hK => ?_
  exact wp_assignTx (.start hK) fun L' J g hg => ⟨_, hg.commits⟩

theorem copyWeek_keeps (fromWeek toWeek : ℤ) :
    (copyWeek user outletId fromWeek toWeek).Keeps rosterTerms.toDiscipline Admits := by
  unfold copyWeek
  refine (keeps_assertOutlet user outletId).bind fun _ => (keeps_look _).bind fun src =>
    keeps_atomically fun L K _ hK => ?_
  exact wp_copyWeekTx (.start hK) fun L' J g hg => ⟨_, hg.commits⟩

theorem decideSwap_keeps (id' : ℕ) (approved : Bool) :
    (decideSwap user outletId id' approved).Keeps rosterTerms.toDiscipline Admits := by
  unfold decideSwap
  refine (keeps_assertOutlet user outletId).bind fun _ => keeps_atomically fun L K _ hK => ?_
  simp only [decideSwapTx, Discipline.wp_bind, Discipline.wp_acquire]
  have hK' : rosterTerms.Stable (add L (.lock (.request id'))) K := hK.add _
  refine wp_query hK' fun s₀ n₀ _ _ => ?_
  have hguards : rosterTerms.Guards (.request id') fun db : RosterDb => db.swaps.find? id' :=
    fun _ _ _ hstep hid => hstep.swaps.rows id' hid
  have hstable : rosterTerms.Stable (add L (.lock (.request id'))) fun db =>
      db.swaps.find? id' = s₀.swaps.find? id' := hguards.stable (.inl rfl) (· = s₀.swaps.find? id')
  refine ⟨_, hstable, rfl, wp_require fun req hreq => wp_check fun _ => ?_⟩
  obtain ⟨hfind, -⟩ := Option.filter_eq_some_iff.mp hreq
  obtain ⟨-, rfl⟩ := KeyedTable.find?_eq_some.mp hfind
  have hmem : ∀ s, (K s ∧ s.swaps.find? req.id = s₀.swaps.find? req.id) → req ∈ s.swaps :=
    fun s hs => (KeyedTable.find?_eq_some.mp (hs.2.trans hfind)).1
  cases approved with
  | true =>
    exact Discipline.wp_mono (wp_approve (hK'.and hstable) (.inl rfl) hmem)
      fun L K f _ hcommit => ⟨_, hcommit⟩
  | false =>
    exact ⟨_, Commits.to fun s n hs _ _ => keeping_rejected hs (.inl rfl)⟩

theorem setStaff_keeps (staff : List StaffMember) (templates : List ShiftTemplate) :
    (setStaff staff templates).Keeps rosterTerms.toDiscipline Admits := by
  refine keeps_atomically fun L K _ _ => ?_
  rw [Discipline.wp_update]
  refine ⟨_, Commits.to fun s n hs hdrawn _ => ?_⟩
  have h := (Rostered.refl (L := L) hs).commit hs hdrawn
  exact ⟨⟨h.1.oneADay, h.1.known, h.1.drawn, h.1.requests,
      fun r hr => ⟨(h.1.owned r hr).le_length, (h.1.owned r hr).known, (h.1.owned r hr).owner⟩,
      h.1.agreed⟩, h.2.days, h.2.known, h.2.fresh, h.2.owners, h.2.swaps, h.2.decisions⟩

/-- What is known of the owner of a shift after it was read. -/
def Known (read : Option (RosterShift × ℕ)) : Assertion RosterDb :=
  fun _ db => ∀ p ∈ read, db.Owned p.1.id p.1.staffId p.2

theorem stable_known (read : Option (RosterShift × ℕ)) (L : Hold LockKey → Prop) :
    rosterTerms.Stable L (Known read (drawn L)) :=
  fun _ _ _ _ _ _ _ _ hstep h p hp => (h p hp).step hstep

theorem lasting_known (read : Option (RosterShift × ℕ)) : Lasting rosterTerms.toDiscipline (Known read) :=
  ⟨fun _ => stable_known read _, fun _ _ _ _ h => h⟩

/-- A shift is of the one whose it is. -/
theorem owned_of_mem {db : RosterDb} {n : ℕ} (hs : Sound db n) {shift : RosterShift}
    (hshift : shift ∈ db.shifts) : db.Owned shift.id shift.staffId db.decisions.length := by
  refine ⟨Nat.le_refl _, hs.known shift hshift, fun s hmem hid => .inl ?_⟩
  rw [KeyedTable.eq_of_mem hmem hshift hid]

theorem assertSelfOrManager_triple {J : Assertion RosterDb} (staffId : String) :
    Triple rosterTerms.toDiscipline Admits J (assertSelfOrManager user staffId) (fun _ => J)
      fun _ _ => True :=
  (triple_look_any _).bind fun _ =>
    triple_guardOr (fun _ _ _ _ _ h => h) fun _ _ _ _ _ _ => trivial

/-- The request is made of what was read. -/
theorem createSwap_triple {shift : RosterShift} {since : ℕ} (input : SwapRequestInput) :
    Triple rosterTerms.toDiscipline Admits (Known (some (shift, since)))
      (autocommit .plain (createSwapTx user outletId shift since input) : RosterMethod Unit)
      (fun _ _ _ => True) fun _ _ => True := by
  refine triple_atomically (lasting_known _) (fun L hL => ?_) fun _ _ _ _ _ => trivial
  simp only [createSwapTx, Discipline.wp_bind]
  refine wp_draw (stable_known _ L) fun s₀ n _ _ => ⟨fun _ => True, stable_true, trivial, ?_⟩
  rw [Discipline.wp_acquire, Discipline.wp_update]
  refine Commits.to fun s m hs hdrawn hKs => ?_
  have hnumber : add (add L (.number n)) (.lock (.request n)) (.number n) := .inr (.inl rfl)
  have hrostered := Rostered.refl (L := add (add L (.number n)) (.lock (.request n))) hs
  have hstep := (hrostered.commit hs hdrawn).2
  have hmem := fun r => @KeyedTable.mem_put _ _ ShiftSwapRequest.id _ s.swaps
    ⟨n, user.tenantId, outletId, shift.id, input.toStaffId, input.toShiftId, .pending, user.id,
      shift.staffId, since⟩ r
  have howned := hKs.1.1.1 _ rfl
  refine ⟨⟨hs.oneADay, hs.known, hs.drawn, fun r hr => ?_, fun r hr => ?_, hs.agreed⟩, hstep.days,
    hstep.known, hstep.fresh, hstep.owners, .put (.inl rfl) fun _ => hnumber, hstep.decisions⟩
  · rcases (hmem r).mp hr with rfl | ⟨hr, -⟩
    · exact hdrawn n hnumber
    · exact hs.requests r hr
  · rcases (hmem r).mp hr with rfl | ⟨hr, -⟩
    · exact ⟨howned.le_length, howned.known, howned.owner⟩
    · exact ⟨(hs.owned r hr).le_length, (hs.owned r hr).known, (hs.owned r hr).owner⟩

theorem requestSwap_triple (input : SwapRequestInput) :
    Triple rosterTerms.toDiscipline Admits (fun _ _ => True) (requestSwap user outletId input)
      (fun _ _ _ => True) fun _ _ => True := by
  unfold requestSwap
  refine triple_guardOr_bind (fun _ => ?_) fun _ _ _ _ _ _ => trivial
  refine (triple_look (Q := Known) stable_known fun N s n hs _ p hp => ?_).bind fun read => ?_
  · obtain ⟨shift, hshift, rfl⟩ := Option.map_eq_some_iff.mp hp
    obtain ⟨hfind, -⟩ := Option.filter_eq_some_iff.mp hshift
    obtain ⟨hfind, -⟩ := Option.filter_eq_some_iff.mp hfind
    exact owned_of_mem hs (KeyedTable.find?_eq_some.mp hfind).1
  · refine triple_getOr_bind (fun p hread => ?_) fun _ _ _ _ _ => trivial
    subst hread
    refine (assertSelfOrManager_triple user _).bind fun _ => (triple_look_any _).bind fun _ => ?_
    refine triple_guardOr_bind (fun _ => ?_) fun _ _ _ _ _ _ => trivial
    refine (triple_look_any _).bind fun _ => ?_
    refine triple_guardOr_bind (fun _ => ?_) fun _ _ _ _ _ _ => trivial
    exact createSwap_triple user outletId input

/-- Every method keeps the terms. -/
theorem roster_kept (r : RosterRequest) : rosterTerms.Kept r.run.run := by
  cases r with
  | assign user outletId entries =>
    exact Terms.kept_of_keeps (assign_keeps user outletId entries) fun _ _ => trivial
  | copyWeek user outletId fromWeek toWeek =>
    exact Terms.kept_of_keeps (copyWeek_keeps user outletId fromWeek toWeek) fun _ _ => trivial
  | requestSwap user outletId input =>
    exact requestSwap_triple user outletId input nothing _ _
      ⟨idle_nothing, stable_true, fun _ _ _ _ => trivial⟩ (fun _ _ _ _ _ _ _ _ => trivial)
      fun _ _ _ _ _ _ _ _ => trivial
  | decideSwap user outletId id approved =>
    exact Terms.kept_of_keeps (decideSwap_keeps user outletId id approved) fun _ _ => trivial
  | setStaff staff templates =>
    exact Terms.kept_of_keeps (setStaff_keeps staff templates) fun _ _ => trivial

end Methods

/-! ### All interleavings -/

theorem sound_init {db : RosterDb} {n : ℕ} (h : db.Blank) : Sound db n := by
  have hshifts : ∀ r, r ∉ db.shifts := by
    rw [h.shifts]
    exact KeyedTable.notMem_empty
  have hswaps : ∀ r, r ∉ db.swaps := by
    rw [h.swaps]
    exact KeyedTable.notMem_empty
  refine ⟨fun r hr => absurd hr (hshifts r), fun r hr => absurd hr (hshifts r), ?_,
    fun r hr => absurd hr (hswaps r), fun r hr => absurd hr (hswaps r), ?_⟩
  · rw [h.shiftIds]
    simp
  · rw [h.decisions]
    simp

/-- In every run in which a swap is approved only if no decision since it was requested has handed
over the shift: no one has two shifts on a day, what is handed over is still of those whose it was
when the swap was requested, and the shifts are the same but for their owners. -/
theorem swaps_agreed {w : RosterWorld} (h : rosters.Reach (World.Admits Admits) w) :
    w.db.Agreed := by
  have hsound : Sound w.db w.next :=
    (Terms.holds_of_reach (T := rosterTerms) roster_kept (fun _ _ h => sound_init h) h).inv
  exact ⟨hsound.oneADay, hsound.agreed⟩

/-- An outlet with three people, and no shifts. -/
def threePeople : RosterDb where
  staff := [⟨"asha", "t", "o", true, none⟩, ⟨"ravi", "t", "o", true, none⟩,
    ⟨"meera", "t", "o", true, none⟩]
  templates := [⟨"evening", "t", "o", "16:00", "23:00", 30, 10⟩]
  shifts := .empty
  swaps := .empty
  shiftIds := []
  decisions := []

def manager : StaffUser := ⟨⟨"u", "t", ["o"]⟩, ["staff.manage"]⟩

/-- A method that is run to its end. -/
def runToEnd (r : RosterRequest) : List (WorldAction RosterRequest Empty) :=
  .start 0 r :: WorldAction.steps 0 20

/-- A shift of one person is asked of two others, and the first of the requests is approved. -/
def twoRequests : List (WorldAction RosterRequest Empty) :=
  [.assign manager "o" [⟨"asha", 0, some "evening"⟩], .requestSwap manager "o" ⟨0, "ravi", none⟩,
    .requestSwap manager "o" ⟨0, "meera", none⟩, .decideSwap manager "o" 1 true].flatMap runToEnd

/-- Approve the second request. -/
def secondApproved : List (WorldAction RosterRequest Empty) :=
  twoRequests ++ runToEnd (.decideSwap manager "o" 2 true)

/-- The shift is taken from the one who has just got it. -/
theorem not_swaps_agreed : ¬∀ w, rosters.Reachable w → w.db.Agreed := by
  intro h
  have hreach := Machine.reachable_run secondApproved
    (.init ⟨⟨rfl, rfl, rfl, rfl⟩, rfl, rfl⟩ : rosters.Reachable (.atRest threePeople 0))
  have hagreed : ∀ d ∈ (rosters.run (.atRest threePeople 0) secondApproved).db.decisions,
      ∀ s ∈ d.shift, s.staffId = d.request.owner :=
    fun d hd s hs => (((h _ hreach).decisions d hd).shift s hs).2.2
  revert hagreed
  decide +kernel

/-- The first request is approved, and the second is not decided. -/
theorem swaps_agreed_twoRequests :
    let w := rosters.run (.atRest threePeople 0) twoRequests
    w.db.shifts.rows.map (·.staffId) = ["ravi"] ∧ w.db.Agreed :=
  ⟨by decide +kernel, swaps_agreed (Machine.reach_run _ (.init ⟨⟨rfl, rfl, rfl, rfl⟩, rfl, rfl⟩)
    (by decide +kernel))⟩

end StelloKitchens.Staff
