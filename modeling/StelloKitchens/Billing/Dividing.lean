import StelloKitchens.Billing.Safety

/-!
# Dividing bills keeps the discipline

A bill is split into checks under its lock: the checks are inserted one after another, each with its
lines, before the bill says that it is split. A split is undone under the locks of its checks, taken
before the bill's own; the checks found first, without a lock, are all of them if there are as many
once the bill is locked.

## Main definitions

* `checkFrame`, `Divided` — the checks that are inserted.

## Main results

* `split_safe`, `unsplit_safe` — the transactions that divide bills.
-/

namespace StelloKitchens.Billing

open Checked Tx Discipline

variable {L : Locks} {K : BillingDb → Prop} {s s' : BillingDb} {n : ℕ}

/-! ### How many checks there are -/

theorem length_giveRest {order : List ℕ} {rest k : ℕ} {parts : List Binary64} :
    (giveRest order rest k parts).length = parts.length := by
  induction rest generalizing k parts with
  | zero => rfl
  | succ rest ih =>
    rw [giveRest, ih, List.length_modify]

/-- Every check has a share of the discount. -/
theorem length_splitDiscounts (checks : List (List CheckRow)) (discount : Binary64) :
    (splitDiscounts checks discount).length = checks.length := by
  unfold splitDiscounts allocatePaise checkSubtotals
  by_cases hnil : checks = []
  · simp [hnil]
  · simp only [List.map_eq_nil_iff, hnil, if_false, roundParts, length_giveRest, List.length_map]
    unfold effectiveWeights
    dsimp only
    split <;> simp

theorem two_le_length_splitRows {lines : List OrderItem} {mode : SplitMode}
    {checks : List (List CheckRow)} (h : splitRows lines mode = .ok checks) : 2 ≤ checks.length := by
  cases mode with
  | equal parts bounds =>
    rw [← pure_eq_ok.mp h, equalChecks, List.length_map, splitLinesEqually, List.length_map,
      List.length_range]
    exact bounds.1
  | items requested bounds =>
    simp only [splitRows, itemChecks, bind_eq_ok, pure_eq_ok] at h
    obtain ⟨rows, hrows, _, -, rfl⟩ := h
    rw [length_of_mapM hrows]
    exact bounds.1

/-! ### Checks -/

/-- A check as the other bills see it. -/
def checkFrame (parent : Frame) (stamp k : ℕ) : Frame :=
  ⟨⟨stamp, k⟩, parent.outletId, none, .opened, some parent.id, none, none⟩

/-- The tables with the first checks of a bill. -/
structure Divided (parent : Frame) (stamp c : ℕ) (s s' : BillingDb) : Prop where
  frames : s'.frames = s.frames ++ (List.range c).map (checkFrame parent stamp)
  puts : ∃ rows, Puts rows s s' ∧ ∀ r ∈ rows, r.id.stamp = stamp ∧ ∃ k < c, r.orderId = ⟨stamp, k⟩
  kots : s'.kots = s.kots
  rest : Rest s s'

theorem Divided.start (parent : Frame) (stamp : ℕ) (s : BillingDb) : Divided parent stamp 0 s s where
  frames := by simp
  puts := ⟨[], .nil rfl, by simp⟩
  kots := rfl
  rest := .refl s

theorem checkItems_spec {stamp c : ℕ} {rows : List CheckRow} {items : List OrderItem}
    (h : checkItems stamp c rows = .ok items) :
    ∀ r ∈ items, r.id.stamp = stamp ∧ r.orderId = ⟨stamp, c⟩ := by
  intro r hr
  obtain ⟨⟨row, k⟩, -, hrow⟩ := forall_mem_of_mapM h r hr
  simp only [CheckRow.item, bind_eq_ok, pure_eq_ok] at hrow
  obtain ⟨quantity, -, total, -, rfl⟩ := hrow
  exact ⟨rfl, rfl⟩

/-- One more check, with its lines. -/
theorem Divided.check {parent : Order} {stamp c : ℕ} (h : Divided parent.frame stamp c s s')
    (hfresh : Fresh stamp s) {allocated : Amount} {rows : List OrderItem}
    (hrows : ∀ r ∈ rows, r.id.stamp = stamp ∧ r.orderId = ⟨stamp, c⟩) {w : BillingDb → BillingDb}
    (hw : Aside w) : Divided parent.frame stamp (c + 1) s
      (w ((s'.insertOrder (checkOrder parent ⟨stamp, c⟩ c allocated)).putItems rows)) := by
  have hnew : ∀ F ∈ s'.frames, F.id ≠ (⟨stamp, c⟩ : RowId) := by
    intro F hF hid
    rw [h.frames] at hF
    rcases List.mem_append.mp hF with hF | hF
    · exact hfresh.frames F hF (hid ▸ rfl)
    · obtain ⟨k, hk, rfl⟩ := List.mem_map.mp hF
      exact absurd (congrArg RowId.index hid) (List.mem_range.mp hk).ne
  obtain ⟨written, hputs, hwritten⟩ := h.puts
  have hrest : Rest s (w ((s'.insertOrder (checkOrder parent ⟨stamp, c⟩ c allocated)).putItems rows)) :=
    hw.rest ⟨h.rest.coupons, h.rest.tables, h.rest.unsplits, h.rest.outlets⟩
  refine ⟨?_, ⟨written ++ rows, hw.puts (hputs.append ?_), fun r hr => ?_⟩, ?_, hrest⟩
  · rw [hw.frames, List.range_succ, List.map_append, ← List.append_assoc, ← h.frames]
    exact frames_insertOrder s' hnew
  · have hput := puts_putItems (s'.insertOrder (checkOrder parent ⟨stamp, c⟩ c allocated)) rows
    exact ⟨hput.mem, hput.keep⟩
  · rcases List.mem_append.mp hr with hr | hr
    · obtain ⟨hstamp, k, hk, horder⟩ := hwritten r hr
      exact ⟨hstamp, k, Nat.lt_succ_of_lt hk, horder⟩
    · exact ⟨(hrows r hr).1, c, Nat.lt_succ_self c, (hrows r hr).2⟩
  · exact (hw.kots _).trans h.kots

theorem wp_createChecks {parent : Order} {stamp : ℕ} {checks : List (List CheckRow × Binary64)} {c : ℕ}
    {f : BillingDb → BillingDb}
    {post : Post Unit}
    (hK : billingDiscipline.Stable L K)
    (hf : ∀ s, Fresh stamp s → Divided parent.frame stamp c s (f s))
    (h : ∀ L' f', Extends L L' →
      (∀ s, Fresh stamp s → Divided parent.frame stamp (c + checks.length) s (f' s)) →
      post L' K f' ()) :
    billingDiscipline.wp (createChecks parent stamp c checks) L K f post := by
  induction checks generalizing c L f with
  | nil => exact h L f (.refl L) hf
  | cons check checks ih =>
    obtain ⟨rows, discount⟩ := check
    simp only [createChecks, createCheck, wp_bind]
    refine wp_ofExcept fun allocated _ => ?_
    rw [wp_update]
    refine wp_ofExcept fun items hitems => ?_
    rw [wp_update]
    refine wp_recompute hK fun L₁ w _ hL₁ hw hK => ?_
    rw [wp_pure]
    refine ih hK (fun s hs => (hf s hs).check hs (checkItems_spec hitems) hw) ?_
    intro L' f' hL' hf'
    refine h L' f' (hL₁.trans hL') fun s hs => ?_
    rw [List.length_cons, Nat.add_comm checks.length, ← Nat.add_assoc]
    exact hf' s hs

/-- A commit that says of a bill that it is split into the checks that were inserted. -/
theorem commit_split {parent : Order} {stamp c count : ℕ} (hs : Sound s n)
    (hstamp : ∀ m, L (.number m) → m = stamp) (hown : L (.number stamp)) (hfresh : Fresh stamp s)
    (hframe : parent.frame ∈ s.frames) (hlock : L (.lock (.order parent.id)))
    (hopen : parent.status = .opened) (hplain : parent.frame.Plain) (hc : c ≠ 0)
    (h : Divided parent.frame stamp c s s') : Commit L .none s
      (s'.updateOrder parent.id (fun o => { o with splitCount := some count }) fun _ => rfl) := by
  have hall : ∀ m, L (.number m) → Fresh m s := fun m hm => hstamp m hm ▸ hfresh
  have hframes : (s'.updateOrder parent.id (fun o => { o with splitCount := some count })
      fun _ => rfl).frames = edit (·.id = parent.id) (fun F => { F with splitCount := some count })
        (s.frames ++ (List.range c).map (checkFrame parent.frame stamp)) := by
    rw [frames_updateOrder s' (g := fun F => { F with splitCount := some count }) fun _ => rfl,
      h.frames]
  have hstay : ∀ F ∈ s.frames ++ (List.range c).map (checkFrame parent.frame stamp),
      ∃ F' ∈ edit (·.id = parent.id) (fun F => { F with splitCount := some count })
        (s.frames ++ (List.range c).map (checkFrame parent.frame stamp)), F'.id = F.id :=
    stay_edit fun F => ⟨rfl, rfl, rfl⟩
  obtain ⟨rows, hputs, hrows⟩ := h.puts
  have hputs' : Puts rows s
      (s'.updateOrder parent.id (fun o => { o with splitCount := some count }) fun _ => rfl) :=
    ⟨hputs.mem, hputs.keep⟩
  refine LinesStep.commit (hputs'.linesStep hs hall (fun F hF => ?_) fun r hr => ?_) ?_ hall ?_
    (fun k hk => .inr ⟨k, h.kots ▸ hk, rfl⟩)
    ⟨h.rest.coupons, h.rest.tables, h.rest.unsplits, h.rest.outlets⟩
  · rw [hframes]
    exact hstay F (List.mem_append_left _ hF)
  · obtain ⟨hrstamp, k, hk, horder⟩ := hrows r hr
    rw [hframes, horder, hrstamp]
    exact ⟨.inl hown, hstay (checkFrame parent.frame stamp k)
      (List.mem_append_right _ (List.mem_map_of_mem (List.mem_range.mpr hk))), .inl hown⟩
  · rw [hframes]
    refine .split parent.frame ((List.range c).map (checkFrame parent.frame stamp)) count hframe hlock
      hopen hplain ?_ (fun C hC => ?_) fun C hC => ?_
    · rwa [Ne, List.map_eq_nil_iff, List.range_eq_nil]
    · obtain ⟨k, -, rfl⟩ := List.mem_map.mp hC
      exact ⟨hown, fun G hG hid => hfresh.frames G hG (hid ▸ rfl)⟩
    · obtain ⟨k, -, rfl⟩ := List.mem_map.mp hC
      exact ⟨rfl, rfl, rfl, rfl, rfl, rfl⟩
  · rw [hframes]
    intro F hF
    have hplaced : ∀ G ∈ s.frames ++ (List.range c).map (checkFrame parent.frame stamp), Placed s G := by
      intro G hG
      rcases List.mem_append.mp hG with hG | hG
      · exact hs.placed G hG
      · obtain ⟨k, -, rfl⟩ := List.mem_map.mp hG
        exact ⟨(hs.placed _ hframe).1, fun t ht => by cases ht⟩
    obtain ⟨G, hG, ⟨-, rfl⟩ | ⟨-, rfl⟩⟩ := mem_edit.mp hF
    · exact hplaced G hG
    · exact hplaced F hG

theorem split_safe (user : AuthUser) (orderId : RowId) (input : SplitInput) :
    billingDiscipline.Safe (split user orderId input) := by
  unfold Safe
  simp only [split, wp_bind]
  refine wp_lockOpenOrder stable_true fun parent hid hopen hK => wp_check fun hcount => ?_
  refine wp_check fun hchild => wp_query_any hK fun lines => wp_check fun _ => ?_
  refine wp_ofExcept fun checks hchecks => wp_drawFresh hK fun stamp hK => ?_
  refine wp_createChecks hK (fun s _ => .start parent.frame stamp s) fun L' f hL hf => ?_
  rw [wp_update]
  refine commits fun s n hs hk => ⟨.none, ?_⟩
  obtain rfl := hid
  have hlength : 0 + (checks.zip (splitDiscounts checks (input.discountAmount.getD 0))).length ≠ 0 := by
    rw [List.length_zip, length_splitDiscounts]
    have := two_le_length_splitRows hchecks
    omega
  exact commit_split hs (fun m hm => number_of_draw (not_number (Extends.lock _ _)) hL hm)
    (hL.holds _ (.inl rfl)) hk.2 hk.1.2 (hL.holds _ (.inr (.inl rfl))) hopen ⟨hcount, hchild⟩ hlength
    (hf s hk.2)

/-! ### Undoing a split -/

theorem frames_deleteChecks (s : BillingDb) (ids : List RowId) :
    (s.deleteChecks ids).frames = s.frames.filter fun F => !decide (F.id ∈ ids) := by
  rw [BillingDb.frames, BillingDb.frames, List.filter_map]
  rfl

/-- A commit that removes the checks of a bill with their lines. -/
theorem commit_unsplit {P : Frame} {ids : List RowId} (hs : Sound s n) (hnone : ∀ m, ¬L (.number m))
    (hP : P ∈ s.frames) (hlock : L (.lock (.order P.id))) (hopen : P.status = .opened)
    (hsplit : P.splitCount ≠ none) (hids : ∀ C ∈ s.frames, C.id ∈ ids ↔ C.parentOrderId = some P.id)
    (hlocks : ∀ id ∈ ids, L (.lock (.order id)) ∧ ∃ C ∈ s.frames, C.id = id)
    (hopens : ∀ C ∈ s.frames, C.id ∈ ids → C.status = .opened)
    (hframes : s'.frames = edit (·.id = P.id) (fun G => { G with splitCount := none })
      (s.frames.filter fun C => !decide (C.id ∈ ids)))
    (hitems : ∀ i, i ∈ s'.items ↔ i ∈ s.items ∧ i.orderId ∉ ids) (hkots : s'.kots = s.kots)
    (hcoupons : s'.coupons = s.coupons) (htables : s'.tables = s.tables)
    (houtlets : ∀ id, (s'.outlets.find? id).isSome = (s.outlets.find? id).isSome)
    (hlog : s'.unsplits = s.unsplits ++ [⟨P.id, ids⟩]) : Commit L (.unsplit ⟨P.id, ids⟩) s s' := by
  have hstay : ∀ F ∈ s.frames, F.id ∉ ids → ∃ F' ∈ s'.frames, F'.id = F.id := fun F hF hid => by
    rw [hframes]
    exact stay_edit (f := fun G => { G with splitCount := none }) (fun F => ⟨rfl, rfl, rfl⟩) F
      (List.mem_filter.mpr ⟨hF, by simp [hid]⟩)
  refine ⟨⟨fun F hF hnot => ?_, fun i hi => ?_, fun i hi => .inr ⟨i, ((hitems i).mp hi).1, rfl⟩⟩, ?_,
    fun m hm => absurd hm (hnone m), ?_, hlog, fun k hk => .inr ⟨k, hkots ▸ hk, rfl⟩, fun c' => ?_,
    fun c hc => .inl rfl, htables, fun id h => (houtlets id).trans h⟩
  · by_cases hid : F.id ∈ ids
    · -- the check is gone
      refine .inr fun F' hF' heq => ?_
      rw [hframes] at hF'
      obtain ⟨G, hG, ⟨-, rfl⟩ | ⟨-, rfl⟩⟩ := mem_edit.mp hF'
      · exact absurd hid (by simpa [← heq] using (List.mem_filter.mp hG).2)
      · exact absurd hid (by simpa [← heq] using (List.mem_filter.mp hG).2)
    · exact .inl fun i hi => (hitems i).trans (and_iff_left (hi ▸ hid))
  · obtain ⟨hmem, hid⟩ := (hitems i).mp hi
    obtain ⟨F, hF, hFid⟩ := (hs.items i hmem).2
    obtain ⟨F', hF', hid'⟩ := hstay F hF (hFid ▸ hid)
    exact ⟨F', hF', hid'.trans hFid⟩
  · rw [hframes]
    exact .unsplit P ids hP hlock hopen hsplit hids hlocks hopens
  · rw [hframes]
    intro F hF
    obtain ⟨G, hG, ⟨-, rfl⟩ | ⟨-, rfl⟩⟩ := mem_edit.mp hF
    · exact hs.placed G (List.mem_filter.mp hG).1
    · exact hs.placed F (List.mem_filter.mp hG).1
  · rw [hcoupons]
    simp [BillEvent.uses]

theorem stable_allKnown {Fs : List Frame} :
    billingDiscipline.Stable L fun s => ∀ F ∈ Fs, Known F s :=
  fun L' s n s' n' hs hs' hother hstep h F hF => stable_known L' s n s' n' hs hs' hother hstep (h F hF)

theorem unsplit_safe (user : AuthUser) (orderId : RowId) :
    billingDiscipline.Safe (unsplit user orderId) := by
  unfold Safe
  simp only [unsplit, wp_bind]
  refine wp_requireOrder stable_true fun pre hpre hK => ?_
  refine wp_query hK fun s₀ n₀ hs₀ hk₀ => ?_
  refine ⟨fun s => ∀ F ∈ (s₀.checksOf pre.id).map Order.frame, Known F s, stable_allKnown,
    fun F hF => ?_, ?_⟩
  · obtain ⟨o, ho, rfl⟩ := List.mem_map.mp hF
    exact .inl ⟨o.frame, (mem_frames s₀).mpr ⟨o, (s₀.mem_checksOf.mp ho).1, rfl⟩, rfl, rfl, rfl⟩
  refine wp_lockOrders (hK.and stable_allKnown) fun L₁ K₁ rows hL₁ hK₁ hback hlocks _ => ?_
  refine wp_lockOpenOrder hK₁ fun parent hid hopen hK₂ => wp_check fun hsplit => ?_
  refine wp_query hK₂ fun s₁ n₁ hs₁ hk₁ => ?_
  have hlock : add L₁ (.lock (.order orderId)) (.lock (.order parent.frame.id)) :=
    .inl (congrArg (fun x => Hold.lock (LockKey.order x)) hid)
  have hstable := @stable_checks _ parent.frame ((s₁.checksOf parent.id).map Order.frame) hlock
  refine ⟨_, hstable, ⟨hk₁.2, fun C hC => ?_⟩, wp_check fun hlength => wp_check fun hopens => ?_⟩
  · rw [mem_frames, List.mem_map]
    refine exists_congr fun o => ?_
    rw [s₁.mem_checksOf, and_assoc]
    refine and_congr_right fun _ => (and_iff_right_of_imp ?_).symm
    rintro rfl
    exact hC
  simp only [id] at hlength hopens ⊢
  rw [wp_update, wp_update]
  refine wp_recompute (hK₂.and hstable) fun L' w _ hL' hw _ => ?_
  rw [wp_update]
  refine commits fun s n hs hk => ⟨.unsplit ⟨orderId, (s₁.checksOf parent.id).map (·.id)⟩, ?_⟩
  obtain ⟨⟨hk₁, hP⟩, -, hchecks⟩ := hk
  obtain rfl := hid
  obtain ⟨⟨-, hpre'⟩, hknown⟩ := hback s hk₁
  -- the checks found under the lock are those there are
  have hids : ∀ C ∈ s.frames, C.id ∈ (s₁.checksOf parent.id).map (·.id) ↔
      C.parentOrderId = some parent.frame.id := by
    intro C hC
    constructor
    · intro hmem
      obtain ⟨o, ho, hoid⟩ := List.mem_map.mp hmem
      have hparent := (s₁.mem_checksOf.mp ho).2
      have hF := (hchecks o.frame hparent).mpr (List.mem_map_of_mem ho)
      rw [s.unique_frames C hC o.frame hF hoid.symm]
      exact hparent
    · intro hparent
      obtain ⟨o, ho, rfl⟩ := List.mem_map.mp ((hchecks C hparent).mp hC)
      exact List.mem_map_of_mem ho
  have hnodup : ((s₀.checksOf pre.id).map (·.id)).Nodup :=
    (List.filter_sublist.map _).nodup s₀.orders.nodup_keys
  have hsubset : (s₀.checksOf pre.id).map (·.id) ⊆ (s₁.checksOf parent.id).map (·.id) := by
    intro x hx
    obtain ⟨o, ho, rfl⟩ := List.mem_map.mp hx
    obtain ⟨F, hF, hFid⟩ := (hlocks o.id hx).2 s hk₁
    have hsame := hs.same (hknown o.frame (List.mem_map_of_mem ho)) hF hFid
    rw [← hFid]
    exact (hids F hF).mpr (hsame.2.2.symm.trans ((s₀.mem_checksOf.mp ho).2.trans (congrArg some hpre)))
  have hperm := (List.subperm_of_subset hnodup hsubset).perm_of_length_le
    (by rw [List.length_map]; exact hlength.le)
  have hL := (Extends.lock L₁ (LockKey.order parent.id)).trans hL'
  refine commit_unsplit hs (not_number (hL₁.trans hL)) hP (hL'.holds _ hlock) hopen hsplit hids
    (fun id hid => ?_) (fun C hC hmem => ?_) ?_ ?_ (hw.kots _) (hw.coupons _) (hw.tables _)
    (fun id => hw.outlets _ id) ?_
  · obtain ⟨hlock, hthere⟩ := hlocks id (hperm.mem_iff.mpr hid)
    exact ⟨hL.holds _ hlock, hthere s hk₁⟩
  · obtain ⟨o, ho, rfl⟩ := List.mem_map.mp ((hchecks C ((hids C hC).mp hmem)).mp hC)
    exact hopens o ho
  · refine (hw.frames _).trans ?_
    refine (frames_updateOrder _ (g := fun F => { F with splitCount := none }) fun _ => rfl).trans ?_
    rw [Function.comp_apply, frames_deleteChecks]
    rfl
  · intro i
    refine (iff_of_eq (congrArg (i ∈ ·) (hw.items _))).trans ?_
    exact KeyedTable.mem_delete.trans (and_congr_right fun _ => decide_eq_false_iff_not)
  · exact congrArg (· ++ [_]) (hw.unsplits _)

end StelloKitchens.Billing
