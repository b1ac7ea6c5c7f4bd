import StelloKitchens.Billing.Loyalty
import StelloKitchens.Billing.Touches
import StelloKitchens.Lib.Guarded

/-!
# The use of one-time codes

A settlement looks the code up without a lock, and marks it used whatever it is by then. A code is
good for one redemption if no settlement that looked it up commits after another one that used it.

## Main definitions

* `OtpsSound`, `OtpStep` — what holds of the codes and their uses, and what a commit does to them.
* `otpTerms` — the terms of the codes.

## Main results

* `otp_kept` — every request keeps the terms.
* `otp_once` — the uses of the codes, over all interleavings.
-/

namespace StelloKitchens.Billing

open Checked Tx Process Discipline

/-! ### The invariant -/

/-- What holds of the codes and their uses. -/
structure OtpsSound (db : BillingDb) (n : ℕ) : Prop where
  fresh : ∀ o ∈ db.otps, o.id < n
  used : ∀ u ∈ db.otpUses, ∃ o ∈ db.otps, o.id = u.otpId ∧ o.consumed = true ∧
    u.usedAt < o.expiresAt
  once : db.otpUses.Pairwise fun u v => u.otpId ≠ v.otpId

/-- What the commit of who holds these does to the codes. -/
structure OtpStep (L : Hold LockKey → Prop) (s s' : BillingDb) : Prop where
  kept : ∀ o ∈ s.otps, ∃ o' ∈ s'.otps, o'.id = o.id ∧ o'.expiresAt = o.expiresAt
  origin : ∀ o' ∈ s'.otps, (∀ o ∈ s.otps, o.id ≠ o'.id) → L (.number o'.id)

/-- The terms of the codes: a settlement that commits uses a code that is not used yet. -/
def otpTerms : Terms BillingDb LockKey LoyaltyNote (Except BillingError LoyaltyNote) where
  inv := OtpsSound
  step := OtpStep
  inv_mono hle h := { h with fresh := fun o ho => (h.fresh o ho).trans_le hle }
  admits note _ db := match note with
    | .settled (some otpId) => ∀ o ∈ db.otps.rows, o.id = otpId → o.consumed = false
    | _ => True
  said _ _ := True
  said_step _ _ _ h := h

instance (note : LoyaltyNote) (held : List (Hold LockKey)) (db : BillingDb) :
    Decidable (otpTerms.admits note (· ∈ held) db) :=
  match note with
  | .settled (some otpId) => inferInstanceAs
      (Decidable (∀ o ∈ db.otps.rows, o.id = otpId → o.consumed = false))
  | .settled none => .isTrue trivial
  | .requested => .isTrue trivial
  | .adjusted _ _ _ => .isTrue trivial

/-- What the terms are about. -/
def BillingDb.codes (db : BillingDb) : KeyedTable LoyaltyOtp.id × List OtpUse := (db.otps, db.otpUses)

theorem OtpsSound.congr {s s' : BillingDb} {n : ℕ} (h : OtpsSound s n) (heq : s'.codes = s.codes) :
    OtpsSound s' n := by
  obtain ⟨hotps, huses⟩ := Prod.mk.inj heq
  exact ⟨hotps ▸ h.fresh, hotps ▸ huses ▸ h.used, huses ▸ h.once⟩

theorem OtpStep.congr {L : Hold LockKey → Prop} {s s' s'' : BillingDb} (h : OtpStep L s s')
    (heq : s''.codes = s'.codes) : OtpStep L s s'' := by
  obtain ⟨hotps, -⟩ := Prod.mk.inj heq
  exact ⟨hotps ▸ h.kept, hotps ▸ h.origin⟩

theorem OtpStep.refl (L : Hold LockKey → Prop) (s : BillingDb) : OtpStep L s s :=
  ⟨fun o ho => ⟨o, ho, rfl, rfl⟩, fun o ho hnew => absurd rfl (hnew o ho)⟩

/-! ### Writes -/

section Writes

variable {L : Hold LockKey → Prop} {s : BillingDb} {n : ℕ}

theorem leaves_codes (ts : List Table) {w : BillingDb → BillingDb} (h : Touches ts w)
    (hotps : .otps ∉ ts) : Leaves BillingDb.codes w := by
  intro db
  obtain ⟨ho, hu⟩ : (w db).otps = db.otps ∧ (w db).otpUses = db.otpUses := h db .otps hotps
  rw [BillingDb.codes, ho, hu]
  rfl

/-- A code is used up that is not used yet. -/
theorem keeping_useOtp (hs : OtpsSound s n) {otpId : ℕ} {orderId : RowId} {now : Time}
    (hfound : ∃ o ∈ s.otps, o.id = otpId ∧ now < o.expiresAt)
    (hunused : ∀ o ∈ s.otps, o.id = otpId → o.consumed = false) :
    OtpsSound (s.useOtp otpId orderId now) n ∧ OtpStep L s (s.useOtp otpId orderId now) := by
  have hmem : ∀ x, x ∈ (s.useOtp otpId orderId now).otps ↔
      ∃ o ∈ s.otps, x = if o.id = otpId then { o with consumed := true } else o := by
    intro x
    refine (KeyedTable.mem_modify (t := s.otps)
      (f := fun o : LoyaltyOtp => { o with consumed := true }) fun _ => rfl).trans ?_
    simp only [decide_eq_true_eq]
  have hid : ∀ o : LoyaltyOtp, (if o.id = otpId then { o with consumed := true } else o).id = o.id ∧
      (if o.id = otpId then { o with consumed := true } else o).expiresAt = o.expiresAt := by
    intro o
    split <;> exact ⟨rfl, rfl⟩
  refine ⟨⟨fun x hx => ?_, fun u hu => ?_, ?_⟩, ⟨fun o ho => ?_, fun x hx hnew => ?_⟩⟩
  · obtain ⟨o, ho, rfl⟩ := (hmem x).mp hx
    rw [(hid o).1]
    exact hs.fresh o ho
  · rcases List.mem_append.mp hu with hu | hu
    · obtain ⟨o, ho, hou, hconsumed, hused⟩ := hs.used u hu
      refine ⟨_, (hmem _).mpr ⟨o, ho, rfl⟩, (hid o).1.trans hou, ?_,
        hused.trans_eq (hid o).2.symm⟩
      split
      · rfl
      · exact hconsumed
    · obtain rfl := List.mem_singleton.mp hu
      obtain ⟨o, ho, hou, hnow⟩ := hfound
      refine ⟨_, (hmem _).mpr ⟨o, ho, rfl⟩, (hid o).1.trans hou, ?_,
        hnow.trans_eq (hid o).2.symm⟩
      rw [if_pos hou]
  · refine List.pairwise_append.mpr ⟨hs.once, List.pairwise_singleton _ _, fun u hu v hv heq => ?_⟩
    obtain rfl := List.mem_singleton.mp hv
    -- a code that was used before is marked
    obtain ⟨o, ho, hou, hconsumed, -⟩ := hs.used u hu
    rw [hunused o ho (hou.trans heq)] at hconsumed
    cases hconsumed
  · exact ⟨_, (hmem _).mpr ⟨o, ho, rfl⟩, hid o⟩
  · obtain ⟨o, ho, rfl⟩ := (hmem x).mp hx
    exact absurd (hid o).1.symm (hnew o ho)

/-- A code is made under a number that was drawn. -/
theorem keeping_putOtp (hs : OtpsSound s n) {o : LoyaltyOtp} (hlt : o.id < n)
    (hnumber : L (.number o.id)) (hnew : ∀ x ∈ s.otps, x.id ≠ o.id) :
    OtpsSound { s with otps := s.otps.put o } n ∧ OtpStep L s { s with otps := s.otps.put o } := by
  have hold : ∀ x ∈ s.otps, x ∈ s.otps.put o := fun x hx => KeyedTable.mem_put.mpr (.inr ⟨hx, hnew x hx⟩)
  refine ⟨⟨fun x hx => ?_, fun u hu => ?_, hs.once⟩, ⟨fun x hx => ⟨x, hold x hx, rfl, rfl⟩,
    fun x hx hx' => ?_⟩⟩
  · obtain rfl | ⟨hx, -⟩ := KeyedTable.mem_put.mp hx
    · exact hlt
    · exact hs.fresh x hx
  · obtain ⟨x, hx, hused⟩ := hs.used u hu
    exact ⟨x, hold x hx, hused⟩
  · obtain rfl | ⟨hx, -⟩ := KeyedTable.mem_put.mp hx
    · exact hnumber
    · exact absurd rfl (hx' x hx)

end Writes

/-! ### Statements -/

section Statements

variable {L : Hold LockKey → Prop} {K : BillingDb → Prop} {f : BillingDb → BillingDb}
  {g : KeyedTable LoyaltyOtp.id × List OtpUse → KeyedTable LoyaltyOtp.id × List OtpUse}

/-- Where a transaction stands, and what its writes so far do to the codes. -/
abbrev OtpRunning := otpTerms.toDiscipline.Running BillingDb.codes

theorem otpRunning_start : OtpRunning nothing (fun _ => True) id fun v => v := .start

/-- A code stays, and is good for as long. -/
theorem stable_found (otpId : ℕ) (now : Time) : otpTerms.Stable L fun s =>
    ∃ o ∈ s.otps, o.id = otpId ∧ now < o.expiresAt := by
  rintro L' s n s' n' _ _ - hstep ⟨o, ho, rfl, hnow⟩
  obtain ⟨o', ho', hid, hexpires⟩ := hstep.kept o ho
  exact ⟨o', ho', hid, hexpires ▸ hnow⟩

/-- No one else makes a code under a number that was drawn. -/
theorem stable_noOtp {otpId : ℕ} (hnumber : L (.number otpId)) :
    otpTerms.Stable L fun s => ∀ o ∈ s.otps, o.id ≠ otpId := by
  rintro L' s n s' n' _ _ hother hstep hnone o ho rfl
  exact hother _ hnumber (hstep.origin o ho hnone)

/-- The commit of a transaction whose writes have this effect on the codes. -/
theorem commits_otps {note : LoyaltyNote} {w : BillingDb → BillingDb}
    (hrun : OtpRunning L K f g) (hw : ∀ s, (w s).codes = g s.codes)
    (h : ∀ s n, OtpsSound s n → (∀ m, L (.number m) → m < n) → K s →
      otpTerms.admits note L s → OtpsSound (w s) n ∧ OtpStep L s (w s)) :
    ∃ J, CommitsTo otpTerms.toDiscipline otpTerms.admits note L K f J := by
  refine ⟨fun _ => True, stable_true, fun s n hs hdrawn hK hadmits => ?_⟩
  obtain ⟨hsound, hstep⟩ := h s n hs hdrawn hK hadmits
  have heq : (f s).codes = (w s).codes := (hrun.effect s).trans (hw s).symm
  exact ⟨hsound.congr heq, hstep.congr heq, trivial⟩

theorem latestOtp_eq_some {db : BillingDb} {outletId phone : String} {now : Time} {o : LoyaltyOtp}
    (h : latestOtp db outletId phone now = some o) : o ∈ db.otps ∧ now < o.expiresAt := by
  have hmem := (List.mem_insertionSort _).mp (List.mem_of_mem_head? h)
  obtain ⟨ho, hcond⟩ := List.mem_filter.mp hmem
  exact ⟨ho, (of_decide_eq_true hcond).2.2.2⟩

/-- A settlement uses up the code that it found, if it redeems points; that keeps the codes, where
the terms admit it. -/
theorem wp_consumeOtp {outletId phone : String} {input : SettleOrderInput} {now : Time}
    {orderId : RowId} {post : (Hold LockKey → Prop) → (BillingDb → Prop) →
      (BillingDb → BillingDb) → Option ℕ → Prop} (hrun : OtpRunning L K f fun v => v)
    (h : ∀ L' K' f' g (w : BillingDb → BillingDb) otpId, OtpRunning L' K' f' g →
      (∀ s, (w s).codes = g s.codes) →
      (∀ L s n, OtpsSound s n → K' s → otpTerms.admits (.settled otpId) L s →
        OtpsSound (w s) n ∧ OtpStep L s (w s)) → post L' K' f' otpId) :
    otpTerms.wp (consumeOtp outletId phone input now orderId) L K f post := by
  unfold consumeOtp
  split
  · simp only [Discipline.wp_map, verifyAndConsume, Discipline.wp_bind]
    refine wp_require fun code _ => wp_query hrun.stable fun s n hs hKs => ?_
    generalize trim code = given
    cases hlatest : latestOtp (f s) outletId phone now with
    | none => exact ⟨fun _ => True, stable_true, trivial, wp_require fun _ h => by cases h⟩
    | some otp =>
      obtain ⟨hmem, hnow⟩ := latestOtp_eq_some hlatest
      have hotps : (f s).otps = s.otps := congrArg Prod.fst (hrun.effect s)
      refine ⟨_, stable_found otp.id now, ⟨otp, hotps ▸ hmem, rfl, hnow⟩,
        wp_require fun otp' heq => wp_check fun _ => ?_⟩
      obtain rfl := Option.some.inj heq
      rw [wp_acquire, wp_update, Discipline.wp_pure]
      refine h _ _ _ _ (·.useOtp otp.id orderId now) _
        (((hrun.add _).and (stable_found otp.id now)).write
          (e := fun v => (v.1.modify (fun o => o.id = otp.id) (fun o => { o with consumed := true })
            fun _ => rfl, v.2 ++ [⟨otp.id, orderId, now⟩])) fun _ => rfl)
        (fun _ => rfl) fun L s n hs hK hadmits => ?_
      exact keeping_useOtp hs hK.2 hadmits
  · exact h _ _ _ _ (fun s => s) _ hrun (fun _ => rfl) fun L s n hs _ _ => ⟨hs, .refl L s⟩

end Statements

/-! ### Requests -/

section Requests

theorem settle_otps (user : AuthUser) (now : Time) (orderId : RowId) (input : SettleOrderInput) :
    otpTerms.wp (settle user now orderId input) nothing (fun _ => True) id fun L K f otpId =>
      ∃ J, CommitsTo otpTerms.toDiscipline otpTerms.admits (.settled otpId) L K f J := by
  simp only [settle, Discipline.wp_bind]
  refine wp_leaves (writes_lockOpenOrder _ _) otpRunning_start fun L₁ f₁ o _ hrun => wp_check fun _ => ?_
  refine wp_query_any hrun.stable fun row => wp_require fun outlet _ => ?_
  refine wp_leaves (writes_resolveDiscounts _ _ _ _ _) hrun fun L₂ f₂ d _ hrun => ?_
  refine wp_consumeOtp hrun fun L₃ K f₃ g w otpId hrun hw hkeep => ?_
  -- what follows leaves the codes alone
  refine wp_leaves (writes_recomputeTotals _ _ _ fun _ => leaves_codes [.orders]
    (touches_updateOrder (by decide) _ _ _) (by decide)) hrun fun L₄ f₄ figures _ hrun => ?_
  refine wp_leaves ((writes_takePayments _ _ _ _).mono fun w hw =>
    leaves_codes [] hw (by decide)) hrun fun L₅ f₅ _ _ hrun => ?_
  refine wp_leaves (writes_drawNumber (leaves_codes [.outlets]
    (touches_updateOutlet (by decide) _ _ _) (by decide))) hrun fun L₆ f₆ number _ hrun => ?_
  refine wp_leaves (writes_whenever (writes_redeemCustomerPoints _ _ _ (leaves_codes
    [.customers] (touches_redeemPoints (by decide) _ _) (by decide)))) hrun
      fun L₇ f₇ _ _ hrun => ?_
  generalize settlePhone o input.toSettlePreviewInput = phone
  refine wp_leaves (writes_whenever (writes_earnCustomerPoints _ _ _ _ _ (leaves_codes
    [.customers] (touches_earnPoints (by decide) _ _ _ _ _) (by decide)))) hrun
      fun L₈ f₈ _ _ hrun => ?_
  refine wp_leaves (writes_forM (fun _ => (writes_countCoupon _).mono fun w hw =>
    leaves_codes [] hw (by decide)) _) hrun fun L₉ f₉ _ _ hrun => ?_
  refine wp_leaves (writes_update (leaves_codes [.orders]
    (touches_updateOrder (by decide) _ _ _) (by decide))) hrun fun L₁₀ f₁₀ _ _ hrun => ?_
  refine wp_leaves (writes_forM (fun _ => writes_closeSplitParentIfDone _ (leaves_codes
    [.orders] (touches_updateOrder (by decide) _ _ _) (by decide))) _) hrun
      fun L₁₁ f₁₁ _ _ hrun => ?_
  exact commits_otps hrun hw fun s n hs _ hK hadmits => hkeep L₁₁ s n hs hK hadmits

theorem requestOtp_otps (user : AuthUser) (outletId phone : String) (code : OtpCode) (now : Time) :
    otpTerms.wp (requestOtp user outletId phone code now) nothing (fun _ => True) id fun L K f _ =>
      ∃ J, CommitsTo otpTerms.toDiscipline otpTerms.admits .requested L K f J := by
  simp only [requestOtp, Discipline.wp_bind]
  refine wp_ofExcept fun _ _ => wp_query_any stable_true fun row => wp_require fun customer _ =>
    wp_check fun _ => wp_draw stable_true fun s n hs _ => ?_
  refine ⟨_, stable_noOtp (.inl rfl), fun o ho => (hs.fresh o ho).ne, fun _ => True, stable_true,
    fun s m hs hdrawn hK _ => ?_⟩
  obtain ⟨hsound, hstep⟩ := keeping_putOtp (L := Discipline.add nothing (.number n))
    (o := ⟨n, outletId, phone, toString code.value, now, now + otpTtlMs, false⟩) hs
    (hdrawn n (.inl rfl)) (.inl rfl) hK.2
  exact ⟨hsound, hstep, trivial⟩

theorem adjustLoyalty_otps (user : AuthUser) (outletId phone : String) (points : ℤ) :
    otpTerms.wp (adjustLoyalty user outletId phone points) nothing (fun _ => True) id fun L K f _ =>
      ∃ J, CommitsTo otpTerms.toDiscipline otpTerms.admits (.adjusted outletId phone points) L K f
        J := by
  simp only [adjustLoyalty, Discipline.wp_bind]
  refine wp_ofExcept fun _ _ => wp_query_any stable_true fun row => wp_require fun customer _ =>
    wp_check fun _ => ?_
  rw [wp_acquire, wp_update, Discipline.wp_pure]
  exact ⟨fun _ => True, stable_true, fun s n hs _ _ _ =>
    ⟨hs.congr rfl, (OtpStep.refl _ s).congr rfl, trivial⟩⟩

/-- Every request keeps the terms of the codes. -/
theorem otp_kept (r : LoyaltyRequest) : otpTerms.Kept
    (.transaction (fun note => note) r.run :
      Process BillingDb LockKey LoyaltyNote Empty Empty (Except BillingError LoyaltyNote)) := by
  refine Terms.kept_transaction ?_ fun _ _ => trivial
  cases r with
  | settle user now orderId input =>
    unfold LoyaltyRequest.run
    rw [Discipline.wp_map]
    exact settle_otps user now orderId input
  | requestOtp user outletId phone code now =>
    unfold LoyaltyRequest.run
    rw [Discipline.wp_map]
    exact requestOtp_otps user outletId phone code now
  | adjustLoyalty user outletId phone points =>
    unfold LoyaltyRequest.run
    rw [Discipline.wp_map]
    exact adjustLoyalty_otps user outletId phone points

end Requests

/-! ### All interleavings -/

theorem NoPoints.otpsSound {db : BillingDb} {n : ℕ} (h : NoPoints db) : OtpsSound db n := by
  refine ⟨fun o ho => ?_, fun u hu => ?_, ?_⟩
  · rw [h.otps] at ho
    exact absurd ho (KeyedTable.notMem_empty o)
  · rw [h.otpUses] at hu
    cases hu
  · rw [h.otpUses]
    exact .nil

/-- In every run in which no settlement commits with a code that another used since it was looked
up: no code is used twice, and none after it has expired. -/
theorem otp_once {w : LoyaltyWorld} (h : loyalty.Reach (World.Admits otpTerms.admits) w) :
    (w.db.otpUses.Pairwise fun u v => u.otpId ≠ v.otpId) ∧
      ∀ u ∈ w.db.otpUses, ∃ o ∈ w.db.otps, o.id = u.otpId ∧ u.usedAt < o.expiresAt := by
  have hsound := (Terms.holds_of_reach otp_kept (fun _ _ h => h.otpsSound) h).inv
  refine ⟨hsound.once, fun u hu => ?_⟩
  obtain ⟨o, ho, hid, -, hnow⟩ := hsound.used u hu
  exact ⟨o, ho, hid, hnow⟩

/-- Two settlements look the same code up before either of them commits. -/
def bothRedeemRun : List (WorldAction LoyaltyRequest Empty) :=
  codeRun ++ .start 0 (redeemFifty ⟨0, 0⟩) :: WorldAction.steps 0 4 ++
    .start 1 (redeemFifty ⟨0, 1⟩) :: WorldAction.steps 1 40 ++ WorldAction.steps 0 40

/-- A code can be used twice. -/
theorem not_otp_once : ¬∀ w, loyalty.Reachable w →
    w.db.otpUses.Pairwise fun u v => u.otpId ≠ v.otpId := by
  intro h
  have hreach := Machine.reachable_run bothRedeemRun (.init ⟨noPoints_twoBills, rfl, rfl⟩ :
    loyalty.Reachable (.atRest twoBills 1))
  have honce := h _ hreach
  revert honce
  decide +kernel

/-- One settlement redeems points with the code, and another one finds no code. -/
theorem otp_once_codeRun :
    let w := loyalty.run (.atRest twoBills 1) (codeRun ++
      .start 0 (redeemFifty ⟨0, 0⟩) :: WorldAction.steps 0 40 ++
      .start 0 (redeemFifty ⟨0, 1⟩) :: WorldAction.steps 0 40)
    w.db.otpUses = [⟨1, ⟨0, 0⟩, 1000⟩] ∧
      (w.db.otpUses.Pairwise fun u v => u.otpId ≠ v.otpId) ∧
      ∀ u ∈ w.db.otpUses, ∃ o ∈ w.db.otps, o.id = u.otpId ∧ u.usedAt < o.expiresAt := by
  intro w
  have hrun : loyalty.GoodRun (World.Admits otpTerms.admits) (.atRest twoBills 1) (codeRun ++
      .start 0 (redeemFifty ⟨0, 0⟩) :: WorldAction.steps 0 40 ++
      .start 0 (redeemFifty ⟨0, 1⟩) :: WorldAction.steps 0 40) ∧
        w.db.otpUses = [⟨1, ⟨0, 0⟩, 1000⟩] := by
    decide +kernel
  exact ⟨hrun.2, otp_once (Machine.reach_run _ (.init ⟨noPoints_twoBills, rfl, rfl⟩) hrun.1)⟩

end StelloKitchens.Billing
