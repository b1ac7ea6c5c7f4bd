import StelloKitchens.Billing.Opening
import StelloKitchens.Lib.Guarded

/-!
# Moving bills keeps the discipline

The transactions that move lines between bills. All of a bill moves when it is merged into another,
which closes it; a bill that moves to a free table keeps its lines; and some of its lines move to the
open bill of another table, or to a new bill there.

## Main definitions

* `Movable` — a bill that is locked, open, and neither split nor a check.

## Main results

* `merge_safe`, `transfer_safe` — the transactions that move bills.
-/

namespace StelloKitchens.Billing

open Checked Tx Discipline

variable {L : Locks} {K : BillingDb → Prop} {s : BillingDb} {n : ℕ}

/-! ### Bills that move -/

/-- A bill that is locked, open, and neither split nor a check. -/
def Movable (L : Hold LockKey → Prop) (s : BillingDb) (id : RowId) : Prop :=
  L (.lock (.order id)) ∧ ∃ F ∈ s.frames, F.id = id ∧ F.status = .opened ∧ F.Plain

theorem Movable.writable {id : RowId} (h : Movable L s id) : Writable L s id := by
  obtain ⟨hlock, F, hF, hid, -, hplain⟩ := h
  exact .inr ⟨F, hF, hid, hlock, hplain⟩

theorem Movable.of_frame {id : RowId} (h : Movable L s id) {F : Frame} (hF : F ∈ s.frames)
    (hid : F.id = id) : L (.lock (.order F.id)) ∧ F.status = .opened ∧ F.Plain := by
  obtain ⟨hlock, G, hG, hGid, hopen, hplain⟩ := h
  obtain rfl := s.unique_frames F hF G hG (hid.trans hGid.symm)
  exact ⟨hid ▸ hlock, hopen, hplain⟩

theorem Movable.mono {L' : Locks} {id : RowId} (h : Movable L s id)
    (hL : ∀ k, L k → L' k) : Movable L' s id :=
  ⟨hL _ h.1, h.2⟩

/-- The row of a bill that was locked and found fit to move. -/
theorem movable_of_row {o : Order} {label : String} {u : Unit} {rows : List Order} {id : RowId}
    (hrow : lockedOrder rows id = .ok o) (hfit : assertMergeable o label = .ok u)
    (hlock : L (.lock (.order id))) (hrows : ∀ o ∈ rows, o.frame ∈ s.frames) : Movable L s id := by
  have hfind := orThrow_eq_ok.mp hrow
  obtain ⟨hopen, hplain⟩ := assertMergeable_eq_ok hfit
  exact ⟨hlock, o.frame, hrows o (List.mem_of_find?_eq_some hfind),
    of_decide_eq_true (List.find?_some hfind :), hopen, hplain⟩

/-! ### All of some bills -/

section MoveAll

variable {sourceIds : List RowId} {targetId : RowId} {v w : BillingDb → BillingDb}

theorem frames_closeMerged (db : BillingDb) : (db.closeMerged sourceIds targetId).frames =
    edit (·.id ∈ sourceIds) (fun F => { F with status := .merged }) db.frames := by
  simp only [BillingDb.frames, BillingDb.closeMerged, KeyedTable.modify, edit, List.map_map]
  refine List.map_congr_left fun o _ => ?_
  have hframe : o.frame.id = o.id := rfl
  by_cases hid : o.id ∈ sourceIds
  · simp only [Function.comp_apply, hframe, hid, decide_true, if_true]
    rfl
  · simp only [Function.comp_apply, hframe, hid, decide_false, Bool.false_eq_true, if_false]

/-- A line after all lines of some bills were moved to another. -/
theorem mem_items_reassign {i : OrderItem} : i ∈ (s.reassign sourceIds targetId).items ↔
    ∃ j ∈ s.items, (j.orderId ∈ sourceIds ∧ i = { j with orderId := targetId }) ∨
      (j.orderId ∉ sourceIds ∧ i = j) := by
  rw [BillingDb.reassign, KeyedTable.mem_modify]
  refine exists_congr fun j => and_congr_right fun _ => ?_
  by_cases hj : j.orderId ∈ sourceIds
  · simp [hj]
  · simp [hj]

/-- A commit that moves all of some bills to another and closes them. -/
theorem commit_moveAll (hs : Sound s n) (hnone : ∀ m, ¬L (.number m))
    (hsources : ∀ id ∈ sourceIds, Movable L s id) (htarget : Movable L s targetId)
    (hv : Aside v) (hw : Aside w) :
    Commit L .none s (w ((v (s.reassign sourceIds targetId)).closeMerged sourceIds targetId)) := by
  have hframes : (w ((v (s.reassign sourceIds targetId)).closeMerged sourceIds targetId)).frames =
      edit (·.id ∈ sourceIds) (fun F => { F with status := .merged }) s.frames := by
    rw [hw.frames, frames_closeMerged, hv.frames]
    rfl
  have hitems : ∀ i, i ∈ (w ((v (s.reassign sourceIds targetId)).closeMerged sourceIds targetId)).items ↔
      i ∈ (s.reassign sourceIds targetId).items := fun i => by
    rw [hw.items]
    exact iff_of_eq (congrArg (i ∈ ·) (hv.items _))
  have hstay : ∀ F ∈ s.frames, ∃ F' ∈ edit (·.id ∈ sourceIds) (fun F => { F with status := .merged })
      s.frames, F'.id = F.id := stay_edit fun F => ⟨rfl, rfl, rfl⟩
  refine LinesStep.commit ⟨fun F hF hnot => .inl fun i hi => ?_, fun i hi => ?_, fun i hi => ?_⟩ ?_
    (fun m hm => absurd hm (hnone m)) ?_ (fun k hk => ?_) ?_
  · -- the bill is no source, and not the target
    have hother : F.id ∉ sourceIds ∧ F.id ≠ targetId := by
      constructor
      · intro hid
        obtain ⟨hlock, -, hplain⟩ := (hsources F.id hid).of_frame hF rfl
        exact hnot.elim (absurd hlock) (absurd hplain)
      · intro hid
        obtain ⟨hlock, -, hplain⟩ := htarget.of_frame hF hid
        exact hnot.elim (absurd hlock) (absurd hplain)
    rw [hitems, mem_items_reassign]
    constructor
    · rintro ⟨j, hj, ⟨-, rfl⟩ | ⟨-, rfl⟩⟩
      · exact absurd hi.symm hother.2
      · exact hj
    · exact fun hmem => ⟨i, hmem, .inr ⟨hi ▸ hother.1, rfl⟩⟩
  · rw [hframes]
    obtain ⟨j, hj, ⟨-, rfl⟩ | ⟨-, rfl⟩⟩ := mem_items_reassign.mp ((hitems i).mp hi)
    · obtain ⟨-, F, hF, hid, -⟩ := htarget
      obtain ⟨F', hF', hid'⟩ := hstay F hF
      exact ⟨F', hF', hid'.trans hid⟩
    · obtain ⟨F, hF, hid⟩ := (hs.items i hj).2
      obtain ⟨F', hF', hid'⟩ := hstay F hF
      exact ⟨F', hF', hid'.trans hid⟩
  · obtain ⟨j, hj, ⟨-, rfl⟩ | ⟨-, rfl⟩⟩ := mem_items_reassign.mp ((hitems i).mp hi)
    · exact .inr ⟨j, hj, rfl⟩
    · exact .inr ⟨i, hj, rfl⟩
  · rw [hframes]
    exact .close sourceIds .merged (.inr rfl) fun F hF hmem => (hsources F.id hmem).of_frame hF rfl
  · rw [hframes]
    exact placed_edit hs fun F => ⟨rfl, rfl⟩
  · rw [hw.kots] at hk
    have hk' : k ∈ (s.reassign sourceIds targetId).kots := (hv.kots _) ▸ hk
    rw [BillingDb.reassign, KeyedTable.mem_modify] at hk'
    obtain ⟨j, hj, rfl⟩ := hk'
    refine .inr ⟨j, hj, ?_⟩
    split <;> rfl
  · refine hw.rest ⟨hv.coupons _, hv.tables _, hv.unsplits _, fun id => ?_⟩
    exact iff_of_eq (congrArg (· = true) (hv.outlets _ id))

end MoveAll

/-- All of some bills is moved to another, whose figures are computed. -/
theorem wp_moveAll {sourceIds : List RowId} {target : Order} {targetId : RowId}
    (htargetId : target.id = targetId) (hnone : ∀ m, ¬L (.number m))
    (hK : billingDiscipline.Stable L K)
    (hsources : ∀ s, K s → ∀ id ∈ sourceIds, Movable L s id)
    (htarget : ∀ s, K s → Movable L s targetId) :
    billingDiscipline.wp (moveAll sourceIds target) L K id fun L K f _ =>
      billingDiscipline.wp (recomputeTotals targetId none false) L K f committed := by
  subst htargetId
  refine wp_does (does_moveAll sourceIds target) hK fun L₁ w _ hL₁ hw => ?_
  obtain ⟨v, hv, rfl⟩ := hw
  refine wp_recompute (hK.anti hL₁.holds) fun L₂ w _ hL₂ hw _ => ?_
  have hL := hL₁.trans hL₂
  refine commits fun s n hs hk => ⟨.none, ?_⟩
  exact commit_moveAll hs (fun m hm => hnone m (hL.numbers m hm))
    (fun id hid => (hsources s hk id hid).mono hL.holds) ((htarget s hk).mono hL.holds) hv hw

theorem merge_safe (user : AuthUser) (targetId : RowId) (input : MergeInput) :
    billingDiscipline.Safe (merge user targetId input) := by
  unfold Safe
  simp only [merge, wp_bind]
  refine wp_check fun _ => wp_query_any stable_true fun pre => wp_check fun _ => ?_
  refine wp_require fun first _ => wp_check fun _ => wp_ofExcept fun _ _ => ?_
  refine wp_lockTables stable_true fun L₁ K₁ hL₁ hK₁ _ _ => ?_
  refine wp_lockOrders hK₁ fun L₂ K₂ rows hL₂ hK₂ hback hlocks hrows => ?_
  refine wp_ofExcept fun target htarget => wp_ofExcept fun _ hfit => ?_
  have hmovable : ∀ {o : Order} {label : String} {u : Unit} {id : RowId},
      id ∈ targetId :: input.sourceOrderIds.dedup → lockedOrder rows id = .ok o →
        assertMergeable o label = .ok u → ∀ s, K₂ s → Movable L₂ s id :=
    fun hid hrow hfit s hs => movable_of_row hrow hfit (hlocks _ hid).1 fun o ho => (hrows o ho).2 s hs
  have hL := hL₁.trans hL₂
  refine wp_foldlM (fun done _ L K f => L = L₂ ∧ K = K₂ ∧ f = id ∧
      ∀ s, K₂ s → ∀ x ∈ done, Movable L₂ s x) ⟨rfl, rfl, rfl, by simp⟩ ?_ ?_
  · rintro done c rest - L K f hl ⟨rfl, rfl, rfl, hdone⟩
    simp only [wp_bind]
    refine wp_ofExcept fun src hsrc => wp_check fun _ => wp_ofExcept fun _ hfit => ?_
    refine ⟨rfl, rfl, rfl, fun s hs x hx => ?_⟩
    rcases List.mem_append.mp hx with hx | hx
    · exact hdone s hs x hx
    · rw [List.mem_singleton.mp hx]
      exact hmovable (List.mem_cons_of_mem _ (by simp [hl])) hsrc hfit s hs
  · rintro - L K f ⟨rfl, rfl, rfl, hdone⟩
    exact wp_moveAll (of_decide_eq_true (List.find?_some (orThrow_eq_ok.mp htarget) :)) (not_number hL)
      hK₂ hdone (hmovable List.mem_cons_self htarget hfit)

/-! ### Some lines of a bill -/

theorem moveLine_spec {line : OrderItem} {quantity : ℤ} {copyId targetId : RowId}
    {rows : List OrderItem} (h : moveLine line quantity copyId targetId = .ok rows) :
    ∀ r ∈ rows, (r.orderId = line.orderId ∨ r.orderId = targetId) ∧
      (r.id = line.id ∨ r.id = copyId) := by
  unfold moveLine at h
  split at h
  · obtain rfl := pure_eq_ok.mp h
    intro r hr
    rw [List.mem_singleton.mp hr]
    exact ⟨.inr rfl, .inl rfl⟩
  · simp only [bind_eq_ok, pure_eq_ok] at h
    obtain ⟨left, -, leftTotal, -, part, -, partTotal, -, rfl⟩ := h
    intro r hr
    rcases List.mem_cons.mp hr with rfl | hr
    · exact ⟨.inl rfl, .inl rfl⟩
    · rw [List.mem_singleton.mp hr]
      exact ⟨.inr rfl, .inr rfl⟩

/-- The rows that moving lines writes are of the lines, or new ones of the bill they move to. -/
theorem moveLines_spec {moves : Moves} {stamp : ℕ} {targetId : RowId} {lines rows : List OrderItem}
    (h : moveLines moves stamp targetId lines = .ok rows) :
    ∀ r ∈ rows, ∃ l ∈ lines, (r.orderId = l.orderId ∨ r.orderId = targetId) ∧
      (r.id = l.id ∨ r.id.stamp = stamp) := by
  simp only [moveLines, bind_eq_ok, pure_eq_ok] at h
  obtain ⟨groups, hgroups, rfl⟩ := h
  intro r hr
  obtain ⟨group, hgroup, hr⟩ := List.mem_flatten.mp hr
  obtain ⟨⟨l, k⟩, hl, hrow⟩ := forall_mem_of_mapM hgroups group hgroup
  have hmem : l ∈ lines := by
    obtain ⟨-, hlt, hlk⟩ := List.mem_zipIdx hl
    exact hlk ▸ List.getElem_mem _
  dsimp only at hrow
  split at hrow
  · cases hrow
    cases hr
  · obtain ⟨horder, hid⟩ := moveLine_spec hrow r hr
    exact ⟨l, hmem, horder, hid.imp_right (congrArg RowId.stamp)⟩

/-- Kitchen tickets that follow their lines. -/
theorem mem_repointKots {ids : List RowId} {targetId : RowId} {k : Kot}
    (hk : k ∈ (s.repointKots ids targetId).kots) : ∃ j ∈ s.kots, j.id = k.id := by
  rw [BillingDb.repointKots, KeyedTable.mem_modify] at hk
  obtain ⟨j, hj, rfl⟩ := hk
  refine ⟨j, hj, ?_⟩
  split <;> rfl

/-! ### To another table -/

/-- The bill on the table that a transfer goes to is locked and fit to move, or there is none. -/
theorem wp_transferExisting {user : AuthUser} {outletId tableId : String}
    {post : Post (Option Order)}
    (hK : billingDiscipline.Stable L K) (hlock : L (.lock (.table tableId)))
    (htable : ∀ s n, Sound s n → K s → s.HasTable outletId tableId)
    (hnone : billingDiscipline.Stable L (fun s => K s ∧ Free s.frames tableId) →
      post L (fun s => K s ∧ Free s.frames tableId) id none)
    (hsome : ∀ L' K' o, Extends L L' → billingDiscipline.Stable L' K' →
      (∀ s, K' s → K s ∧ Movable L' s o.id) → post L' K' id (some o)) :
    billingDiscipline.wp (transferExisting user outletId tableId) L K id post := by
  simp only [transferExisting, wp_bind]
  refine wp_query_any hK fun _ => wp_require fun target _ => ?_
  refine wp_query hK fun s n hs hKs => ?_
  simp only [id]
  cases hfind : s.findOpen outletId tableId with
  | none =>
    have hfree := free_of_findOpen hs (htable s n hs hKs) hfind
    exact ⟨_, stable_free hlock, hfree, hnone (hK.and (stable_free hlock))⟩
  | some found =>
    refine ⟨fun _ => True, stable_true, trivial, ?_⟩
    simp only [wp_bind]
    refine wp_lockOrders (hK.and stable_true) fun L' K' rows hL' hK' hback hlocks hrows => ?_
    refine wp_ofExcept fun o ho => wp_ofExcept fun _ hfit => ?_
    have hid : o.id = found.id := of_decide_eq_true (List.find?_some (orThrow_eq_ok.mp ho) :)
    refine hsome L' K' o hL' hK' fun s hs => ⟨(hback s hs).1, ?_⟩
    rw [hid]
    exact movable_of_row ho hfit (hlocks _ (List.mem_singleton.mpr rfl)).1
      fun o ho => (hrows o ho).2 s hs

theorem frame_retable (s : BillingDb) (orderId : RowId) (tableId : String) :
    (s.updateOrder orderId (fun o => { o with tableId := some tableId, orderType := .dineIn })
      fun _ => rfl).frames = edit (·.id = orderId) (fun F => { F with tableId := some tableId })
        s.frames :=
  frames_updateOrder s fun _ => rfl

/-- What is known of the bill that a transfer moves, and of the table that it goes to. -/
structure Transferring (L : Hold LockKey → Prop) (K : BillingDb → Prop) (source : Order)
    (tableId : String) (target : Option Order) : Prop where
  numbers : ∀ m, ¬L (.number m)
  stable : billingDiscipline.Stable L K
  lock : L (.lock (.table tableId))
  movable : ∀ s, K s → Movable L s source.id
  frame : ∀ s, K s → source.frame ∈ s.frames
  table : ∀ s n, Sound s n → K s → s.HasTable source.outletId tableId
  target : ∀ s, K s → match target with
    | none => Free s.frames tableId
    | some o => Movable L s o.id

section Transferring

variable {source : Order} {tableId : String} {target : Option Order}

theorem Transferring.and (h : Transferring L K source tableId target) {P : BillingDb → Prop}
    (hP : billingDiscipline.Stable L P) :
    Transferring L (fun s => K s ∧ P s) source tableId target where
  numbers := h.numbers
  stable := h.stable.and hP
  lock := h.lock
  movable s hs := h.movable s hs.1
  frame s hs := h.frame s hs.1
  table s n hs hk := h.table s n hs hk.1
  target s hs := h.target s hs.1

/-- A bill moves to a free table, or all of it to the open bill there. -/
theorem wp_transferBill (h : Transferring L K source tableId target) :
    billingDiscipline.wp (transferBill source tableId target) L K id
      committed := by
  cases target with
  | some o =>
    simp only [transferBill, wp_bind]
    refine wp_moveAll rfl h.numbers h.stable (fun s hs id hid => ?_) h.target
    rw [List.mem_singleton.mp hid]
    exact h.movable s hs
  | none =>
    simp only [transferBill, wp_bind]
    rw [wp_update]
    refine wp_recompute h.stable fun L' w _ hL hw _ => ?_
    refine commits fun s n hs hk => ⟨.none, ?_⟩
    have hframe := h.frame s hk
    obtain ⟨hord, hopen, hplain⟩ := (h.movable s hk).of_frame hframe rfl
    refine commit_edit (p := (·.id = source.id)) (f := fun F => { F with tableId := some tableId }) hs
      (fun m hm => h.numbers m (hL.numbers m hm))
      ((hw.frames _).trans (frame_retable s source.id tableId))
      (.retable source.frame tableId hframe (hL.holds _ hord) hopen hplain (hL.holds _ h.lock)
        (h.target s hk)) (fun _ => ⟨rfl, rfl, rfl⟩) ?_ (hw.items _) (hw.kots _)
      (hw.rest ⟨rfl, rfl, rfl, fun _ => Iff.rfl⟩)
    intro F hF
    obtain ⟨G, hG, ⟨hid, rfl⟩ | ⟨-, rfl⟩⟩ := mem_edit.mp hF
    · obtain rfl := s.unique_frames G hG source.frame hframe hid
      refine ⟨(hs.placed _ hG).1, fun t ht => ?_⟩
      obtain rfl := Option.some.inj ht
      exact h.table s n hs hk
    · exact hs.placed F hG

theorem Prepared.stays {id : RowId} (h : Movable L s id) (hs : Sound s n) : Prepared L s s id where
  items := rfl
  kots := rfl
  rest := .refl s
  writable := h.writable
  move := .stay
  stay _ hF := hF
  there := by
    obtain ⟨-, F, hF, hid, -⟩ := h
    exact ⟨F, hF, hid⟩
  placed := hs.placed

/-- Lines are moved to a bill, with the tickets that follow them. -/
theorem wp_moveLines {targetId : RowId} {stamp : ℕ} {moves : Moves}
    {lines : List OrderItem} {L₀ : Locks} {a : BillingDb → BillingDb}
    (h₀ : ∀ m, ¬L₀ (.number m)) (hK : billingDiscipline.Stable (add L₀ (.number stamp)) K)
    (hknown : ∀ s n, Sound s n → K s → Fresh stamp s ∧ Movable L₀ s source.id ∧
      ∀ l ∈ lines, l.orderId = source.id ∧ l ∈ s.items)
    (ha : ∀ s n L', Sound s n → K s → Extends (add L₀ (.number stamp)) L' →
      Prepared L' s (a s) targetId) :
    billingDiscipline.wp (liftM (moveLines moves stamp targetId lines) : BillingTx (List OrderItem))
      (add L₀ (.number stamp)) K a fun L K f rows =>
        billingDiscipline.wp (do
          update fun db => db.putItems rows
          let touchedKots := ((movedLines moves lines).filterMap (·.kotId)).dedup
          let gone ← query fun db : BillingDb => touchedKots.filter fun kotId =>
            ((db.itemsOf source.id).filter fun i => i.kotId = some kotId).length = 0
          update fun db => db.repointKots gone targetId
          let _ ← recomputeTotals source.id none false
          let _ ← recomputeTotals targetId none false
          return ()) L K f committed := by
  refine wp_ofExcept fun rows hrows => ?_
  simp only [wp_bind]
  rw [wp_update]
  refine wp_query_any hK fun gone => ?_
  rw [wp_update]
  refine wp_recompute hK fun L₁ w₁ _ hL₁ hw₁ hK => ?_
  refine wp_recompute hK fun L₂ w₂ _ hL₂ hw₂ _ => ?_
  have hL := hL₁.trans hL₂
  refine commits fun s n hs hk => ⟨.none, ?_⟩
  obtain ⟨hfresh, hsource, hlines⟩ := hknown s n hs hk
  have hprep := ha s n L₂ hs hk hL
  have hw := hw₁.comp hw₂
  have hmov := hsource.mono fun k hk => hL.holds k (.inr hk)
  have hputs : Puts rows (a s) (((a s).putItems rows).repointKots gone targetId) :=
    ⟨(puts_putItems (a s) rows).mem, (puts_putItems (a s) rows).keep⟩
  refine hprep.commit hs (fun m hm => number_of_draw h₀ hL hm) (hL.holds _ (.inl rfl)) hfresh
    (hw.frames _) (hw.puts hputs) (fun r hr => ?_) (fun k hk => ?_)
    (hw.rest ⟨rfl, rfl, rfl, fun _ => Iff.rfl⟩)
  · obtain ⟨l, hl, horder, hid⟩ := moveLines_spec hrows r hr
    obtain ⟨hlo, hmem⟩ := hlines l hl
    refine ⟨horder.symm.imp_right fun h => ?_, hid.symm.imp_right fun h => ?_⟩
    · obtain ⟨-, F, hF, hFid, -⟩ := hsource
      exact ⟨(h.trans hlo) ▸ hmov.writable, F, hF, hFid.trans (h.trans hlo).symm⟩
    · exact ⟨l, hmem, h.symm, hlo ▸ hmov.writable⟩
  · exact .inr (mem_repointKots (hw.kots _ ▸ hk))

/-- Some lines of a bill are moved to the open bill of a table, or to a new one there. -/
theorem wp_transferLines {lines : List OrderItem} {moves : Moves}
    (h : Transferring L K source tableId target)
    (hlines : ∀ s, K s → ∀ l ∈ lines, l.orderId = source.id ∧ l ∈ s.items) :
    billingDiscipline.wp (transferLines source tableId target lines moves) L K id
      committed := by
  unfold transferLines
  rw [wp_bind]
  refine wp_drawFresh h.stable fun stamp hK' => ?_
  have hknown : ∀ s n, Sound s n → K s ∧ Fresh stamp s → Fresh stamp s ∧ Movable L s source.id ∧
      ∀ l ∈ lines, l.orderId = source.id ∧ l ∈ s.items := fun s n _ hk =>
    ⟨hk.2, h.movable s hk.1, hlines s hk.1⟩
  cases target with
  | some o =>
    rw [wp_bind, transferTarget, wp_pure, wp_bind]
    refine wp_moveLines h.numbers hK' hknown fun s n L' hs hk hL => ?_
    exact .stays ((h.target s hk.1).mono fun k hk => hL.holds k (.inr hk)) hs
  | none =>
    rw [wp_bind, transferTarget, wp_bind, wp_update, wp_pure, wp_bind]
    refine wp_moveLines h.numbers hK' hknown fun s n L' hs hk hL => ?_
    have hnew := plainOrder_newOrder ⟨stamp, 0⟩ source.outletId .dineIn (some tableId) none none
    refine .opens hs (hL.holds _ (.inl rfl)) hk.2 rfl hnew ⟨?_, fun t ht => ⟨fun _ => ⟨?_, ?_⟩, ?_⟩⟩ .id
    · exact (hs.placed _ (h.frame s hk.1)).1
    · obtain rfl := Option.some.inj ht
      exact hL.holds _ (.inr h.lock)
    · obtain rfl := Option.some.inj ht
      exact h.target s hk.1
    · obtain rfl := Option.some.inj ht
      exact h.table s n hs hk.1

/-- The lines that were asked for are moved, or the whole bill. -/
theorem wp_transferRest {input : TransferInput} (h : Transferring L K source input.toTableId target) :
    billingDiscipline.wp (query fun db : BillingDb => db.itemsOf source.id : BillingTx (List OrderItem))
      L K id fun L K f lines => billingDiscipline.wp (match input.lines with
        | none => transferBill source input.toTableId target
        | some requested => do
          let moves ← resolveMoves lines requested
          if ∀ l ∈ lines, (moves l.id).getD 0 = l.quantity.value then
            transferBill source input.toTableId target
          else transferLines source input.toTableId target lines moves) L K f
            committed := by
  refine wp_query h.stable fun s n hs hk => ?_
  have hstable := @stable_items L source.frame (s.itemsOf source.id) (h.movable s hk).1
  refine ⟨_, hstable, ⟨h.frame s hk, fun i hi => ?_⟩, ?_⟩
  · rw [BillingDb.itemsOf, List.mem_filter]
    exact ⟨fun h => ⟨h, decide_eq_true hi⟩, fun h => h.1⟩
  have h' := h.and hstable
  cases input.lines with
  | none => exact wp_transferBill h'
  | some requested =>
    simp only [wp_bind]
    refine wp_ofExcept fun moves _ => ?_
    split
    · exact wp_transferBill h'
    · refine wp_transferLines h' fun s' hs' l hl => ?_
      have hl' := of_decide_eq_true (List.mem_filter.mp hl).2
      exact ⟨hl', (hs'.2.2 l hl').mpr hl⟩

end Transferring

theorem transfer_safe (user : AuthUser) (orderId : RowId) (input : TransferInput) :
    billingDiscipline.Safe (transfer user orderId input) := by
  unfold Safe
  simp only [transfer, wp_bind]
  refine wp_requireOrder stable_true fun pre hpre hK => wp_check fun _ => ?_
  refine wp_lockTables hK fun L₁ K₁ hL₁ hK₁ hback₁ htables => ?_
  obtain ⟨htab, htable⟩ := htables input.toTableId (by simp) input.toTableId_ne
  refine wp_lockOrders hK₁ fun L₂ K₂ rows hL₂ hK₂ hback₂ hlocks hrows => ?_
  refine wp_ofExcept fun source hsource => wp_ofExcept fun _ hfit => wp_check fun _ => ?_
  have hmem := List.mem_of_find?_eq_some (orThrow_eq_ok.mp hsource)
  have hid : source.id = orderId := of_decide_eq_true (List.find?_some (orThrow_eq_ok.mp hsource) :)
  have hframe : ∀ s, K₂ s → source.frame ∈ s.frames := fun s hs => (hrows source hmem).2 s hs
  have hmov : ∀ s, K₂ s → Movable L₂ s source.id := fun s hs => by
    rw [hid]
    exact movable_of_row hsource hfit (hlocks _ (List.mem_singleton.mpr rfl)).1
      fun o ho => (hrows o ho).2 s hs
  -- the bill is in the outlet it was found in
  have htable₂ : ∀ s n, Sound s n → K₂ s →
      s.HasTable source.outletId input.toTableId := by
    intro s n hs hk
    have hk₁ := hback₂ s hk
    have hsame := hs.same (hback₁ s hk₁).2 (hframe s hk) (hid.trans hpre.symm)
    obtain ⟨T, hT, hTid, hout⟩ := htable s hk₁
    exact ⟨T, hT, hTid, hout.trans hsame.2.1⟩
  have hL := hL₁.trans hL₂
  refine wp_transferExisting hK₂ (hL₂.holds _ htab) htable₂ (fun hK => wp_transferRest ?_)
    fun L' K' o hL' hK' hback => wp_transferRest ?_
  · exact ⟨not_number hL, hK, hL₂.holds _ htab, fun s hs => hmov s hs.1, fun s hs => hframe s hs.1,
      fun s n hs hk => htable₂ s n hs hk.1, fun s hs => hs.2⟩
  · exact ⟨not_number (hL.trans hL'), hK', hL'.holds _ (hL₂.holds _ htab),
      fun s hs => (hmov s (hback s hs).1).mono hL'.holds, fun s hs => hframe s (hback s hs).1,
      fun s n hs hk => htable₂ s n hs (hback s hk).1, fun s hs => (hback s hs).2⟩

end StelloKitchens.Billing
