import StelloKitchens.Billing.Store

/-!
# The life of bills

What a bill is to the other bills: where it stands, whether it is open, whether it is split into
checks or is one, and the coupon it was settled with. The moves of this view are all that the
transactions on bills do to it: open a bill, close one, settle one, move one to another table,
split one and undo that. A move says which locks it is made under, so that it also says what
everyone who holds other locks can go on to rely on.

## Main definitions

* `Frame`, `BillingDb.frames` — the view.
* `BillMove` — the moves, each with what it enters in the books.
* `FramesInv` — at most one open bill on a table, and a split bill is closed with its last check.
* `FrameStep` — what others can rely on.

## Main results

* `BillMove.inv` — moves keep the invariant.
* `BillMove.step` — moves respect the locks of others.
* `BillMove.uses` — the settled bills with a coupon after a move.
-/

namespace StelloKitchens.Billing

/-- What a bill is to the other bills. -/
structure Frame where
  id : RowId
  outletId : String
  tableId : Option String
  status : BillStatus
  parentOrderId : Option RowId
  splitCount : Option ℕ
  couponCode : Option String
  deriving DecidableEq

def Order.frame (o : Order) : Frame :=
  ⟨o.id, o.outletId, o.tableId, o.status, o.parentOrderId, o.splitCount, o.couponCode⟩

def BillingDb.frames (db : BillingDb) : List Frame := db.orders.rows.map Order.frame

/-- A bill that is neither split nor a check. -/
def Frame.Plain (F : Frame) : Prop := F.splitCount = none ∧ F.parentOrderId = none

/-- No two bills with one id. -/
def Unique (fs : List Frame) : Prop := ∀ F ∈ fs, ∀ G ∈ fs, F.id = G.id → F = G

theorem BillingDb.unique_frames (db : BillingDb) : Unique db.frames := by
  intro F hF G hG hid
  obtain ⟨o, ho, rfl⟩ := List.mem_map.mp hF
  obtain ⟨p, hp, rfl⟩ := List.mem_map.mp hG
  rw [KeyedTable.eq_of_mem ho hp hid]

/-! ### Moves -/

/-- The locks and numbers that a transaction holds. -/
abbrev Locks := Hold LockKey → Prop

/-- What a move enters in the books: nothing, a split that was undone, or a sale with the coupon
of its bill. -/
inductive BillEvent
  | none
  | unsplit (entry : Unsplit)
  | sale (outletId : String) (couponCode : Option String)

/-- Bills that satisfy a condition are changed. -/
def edit (p : Frame → Prop) [DecidablePred p] (f : Frame → Frame) (fs : List Frame) : List Frame :=
  fs.map fun F => if p F then f F else F

/-- No open bill stands on the table. -/
def Free (fs : List Frame) (tableId : String) : Prop :=
  ∀ F ∈ fs, F.status = .opened → F.tableId ≠ some tableId

/-- What a transaction that holds certain locks and numbers may do to the bills. -/
inductive BillMove (L : Hold LockKey → Prop) (fs : List Frame) : BillEvent → List Frame → Prop
  | stay : BillMove L fs .none fs
  | add (F : Frame) (hfresh : L (.number F.id.stamp)) (hnew : ∀ G ∈ fs, G.id ≠ F.id)
      (hplain : F.Plain) (hstatus : F.status ≠ .split) (hcoupon : F.couponCode = none)
      (htable : ∀ t, F.tableId = some t → F.status = .opened → L (.lock (.table t)) ∧ Free fs t) :
      BillMove L fs .none (fs ++ [F])
  | close (ids : List RowId) (st : BillStatus) (hst : st = .cancelled ∨ st = .merged)
      (hids : ∀ F ∈ fs, F.id ∈ ids → L (.lock (.order F.id)) ∧ F.status = .opened ∧ F.Plain) :
      BillMove L fs .none (edit (·.id ∈ ids) (fun F => { F with status := st }) fs)
  | settle (F : Frame) (coupon : Option String) (hF : F ∈ fs) (hlock : L (.lock (.order F.id)))
      (hopen : F.status = .opened) (hplain : F.Plain) :
      BillMove L fs (.sale F.outletId coupon)
        (edit (·.id = F.id) (fun F => { F with status := .settled, couponCode := coupon }) fs)
  /-- Settling a check closes its parent when it was the last. -/
  | settleCheck (F P : Frame) (coupon : Option String) (last : Bool) (hF : F ∈ fs)
      (hlock : L (.lock (.order F.id))) (hopen : F.status = .opened)
      (hcheck : F.parentOrderId = some P.id) (hP : P ∈ fs) (hlockP : L (.lock (.order P.id)))
      (hlast : last = true ↔ ∀ C ∈ fs, C.parentOrderId = some P.id → C.status = .opened →
        C.id = F.id) :
      BillMove L fs (.sale F.outletId coupon)
        (edit (fun G => G.id = P.id ∧ last = true) (fun G => { G with status := .split })
          (edit (·.id = F.id) (fun G => { G with status := .settled, couponCode := coupon }) fs))
  | retable (F : Frame) (t : String) (hF : F ∈ fs) (hlock : L (.lock (.order F.id)))
      (hopen : F.status = .opened) (hplain : F.Plain) (htable : L (.lock (.table t)))
      (hfree : Free fs t) :
      BillMove L fs .none (edit (·.id = F.id) (fun G => { G with tableId := some t }) fs)
  | split (P : Frame) (checks : List Frame) (k : ℕ) (hP : P ∈ fs)
      (hlock : L (.lock (.order P.id))) (hopen : P.status = .opened) (hplain : P.Plain)
      (hchecks : checks ≠ []) (hnew : ∀ C ∈ checks, L (.number C.id.stamp) ∧ ∀ G ∈ fs, G.id ≠ C.id)
      (hcheck : ∀ C ∈ checks, C.outletId = P.outletId ∧ C.parentOrderId = some P.id ∧
        C.tableId = none ∧ C.splitCount = none ∧ C.status = .opened ∧ C.couponCode = none) :
      BillMove L fs .none
        (edit (·.id = P.id) (fun G => { G with splitCount := some k }) (fs ++ checks))
  | unsplit (P : Frame) (ids : List RowId) (hP : P ∈ fs) (hlock : L (.lock (.order P.id)))
      (hopen : P.status = .opened) (hsplit : P.splitCount ≠ none)
      (hids : ∀ C ∈ fs, C.id ∈ ids ↔ C.parentOrderId = some P.id)
      (hlocks : ∀ id ∈ ids, L (.lock (.order id)) ∧ ∃ C ∈ fs, C.id = id)
      (hopens : ∀ C ∈ fs, C.id ∈ ids → C.status = .opened) :
      BillMove L fs (.unsplit ⟨P.id, ids⟩)
        (edit (·.id = P.id) (fun G => { G with splitCount := none })
          (fs.filter fun C => !decide (C.id ∈ ids)))

section Edit

variable {p : Frame → Prop} [DecidablePred p] {f : Frame → Frame} {fs : List Frame} {F : Frame}

theorem mem_edit : F ∈ edit p f fs ↔ ∃ G ∈ fs, (p G ∧ F = f G) ∨ (¬p G ∧ F = G) := by
  rw [edit, List.mem_map]
  refine exists_congr fun G => and_congr_right fun _ => ?_
  by_cases hG : p G
  · simp [hG, eq_comm]
  · simp [hG, eq_comm]

theorem mem_edit_of_mem (hF : F ∈ fs) (hp : ¬p F) : F ∈ edit p f fs :=
  mem_edit.mpr ⟨F, hF, .inr ⟨hp, rfl⟩⟩

theorem mem_edit_of_pos (hF : F ∈ fs) (hp : p F) : f F ∈ edit p f fs :=
  mem_edit.mpr ⟨F, hF, .inl ⟨hp, rfl⟩⟩

end Edit

/-! ### The invariant -/

structure FramesInv (fs : List Frame) : Prop where
  /-- On a table stands at most one open bill. -/
  tables : ∀ F ∈ fs, ∀ G ∈ fs, F.status = .opened → G.status = .opened → F.tableId ≠ none →
    F.tableId = G.tableId → F = G
  /-- A check leaves the table to its parent, and is open or settled. -/
  check : ∀ C ∈ fs, ∀ p, C.parentOrderId = some p → C.tableId = none ∧ C.splitCount = none ∧
    (C.status = .opened ∨ C.status = .settled) ∧ ∃ P ∈ fs, P.id = p ∧ P.splitCount ≠ none
  /-- A split bill is open while one of its checks is, and closed when all are settled. -/
  parent : ∀ P ∈ fs, P.splitCount ≠ none → P.parentOrderId = none ∧
    ((P.status = .opened ∧ ∃ C ∈ fs, C.parentOrderId = some P.id ∧ C.status = .opened) ∨
      (P.status = .split ∧ ∀ C ∈ fs, C.parentOrderId = some P.id → C.status = .settled))
  counted : ∀ P ∈ fs, P.status = .split → P.splitCount ≠ none

namespace FramesInv

variable {fs fs' : List Frame} {p : Frame → Prop} [DecidablePred p] {f : Frame → Frame}

/-- The parent of an open check is open. -/
theorem parent_opened (h : FramesInv fs) (huniq : Unique fs) {C P : Frame} (hC : C ∈ fs)
    (hP : P ∈ fs) (hparent : C.parentOrderId = some P.id) (hopen : C.status = .opened) :
    P.splitCount ≠ none ∧ P.status = .opened := by
  obtain ⟨-, -, -, P', hP', hid, hsplit⟩ := h.check C hC P.id hparent
  obtain rfl := huniq P' hP' P hP hid
  refine ⟨hsplit, ?_⟩
  rcases (h.parent P' hP' hsplit).2 with ⟨hstatus, -⟩ | ⟨-, hall⟩
  · exact hstatus
  · rw [hall C hC hparent] at hopen
    cases hopen

theorem add (h : FramesInv fs) {F : Frame} (hnew : ∀ G ∈ fs, G.id ≠ F.id) (hplain : F.Plain)
    (hstatus : F.status ≠ .split)
    (htable : ∀ t, F.tableId = some t → F.status = .opened → Free fs t) :
    FramesInv (fs ++ [F]) := by
  have hmem : ∀ {G : Frame}, G ∈ fs ++ [F] ↔ G ∈ fs ∨ G = F := by simp
  -- the new bill is no one's check
  have hchecks : ∀ C, C ∈ fs ++ [F] → ∀ p, C.parentOrderId = some p → C ∈ fs := by
    intro C hC p hp
    rcases hmem.mp hC with hC | rfl
    · exact hC
    · rw [hplain.2] at hp
      cases hp
  constructor
  · intro A hA B hB hAo hBo hne heq
    obtain ⟨t, ht⟩ := Option.ne_none_iff_exists'.mp hne
    rcases hmem.mp hA with hA' | rfl <;> rcases hmem.mp hB with hB' | rfl
    · exact h.tables A hA' B hB' hAo hBo hne heq
    · exact absurd ht (htable t (heq ▸ ht) hBo A hA' hAo)
    · exact absurd (heq ▸ ht) (htable t ht hAo B hB' hBo)
    · rfl
  · intro C hC p hp
    obtain ⟨htab, hsplit, hst, P, hP, hid⟩ := h.check C (hchecks C hC p hp) p hp
    exact ⟨htab, hsplit, hst, P, hmem.mpr (.inl hP), hid⟩
  · intro P hP hsplit
    rcases hmem.mp hP with hP | rfl
    · refine ⟨(h.parent P hP hsplit).1, ?_⟩
      rcases (h.parent P hP hsplit).2 with ⟨hst, C, hC, hp⟩ | ⟨hst, hall⟩
      · exact .inl ⟨hst, C, hmem.mpr (.inl hC), hp⟩
      · exact .inr ⟨hst, fun C hC hp => hall C (hchecks C hC _ hp) hp⟩
    · exact absurd hplain.1 hsplit
  · intro P hP hst
    rcases hmem.mp hP with hP | rfl
    · exact h.counted P hP hst
    · exact absurd hst hstatus

/-- Where all bills that change are closed by it, no two bills come to stand on one table. -/
theorem tables_edit (h : FramesInv fs) (hclosed : ∀ F ∈ fs, p F → (f F).status ≠ .opened) : ∀ F ∈ edit p f fs, ∀ G ∈ edit p f fs,
      F.status = .opened → G.status = .opened → F.tableId ≠ none → F.tableId = G.tableId → F = G := by
  have hback : ∀ F ∈ edit p f fs, F.status = .opened → F ∈ fs := by
    intro F hF hopen
    obtain ⟨G, hG, ⟨hp, rfl⟩ | ⟨-, rfl⟩⟩ := mem_edit.mp hF
    · exact absurd hopen (hclosed G hG hp)
    · exact hG
  exact fun F hF G hG hFo hGo => h.tables F (hback F hF hFo) G (hback G hG hGo) hFo hGo

/-- Changes of bills that are neither split nor checks leave the splits alone. -/
theorem edit_plain (h : FramesInv fs)
    (hplain : ∀ F ∈ fs, p F → F.Plain ∧ (f F).Plain ∧ (f F).status ≠ .split)
    (htables : ∀ F ∈ edit p f fs, ∀ G ∈ edit p f fs, F.status = .opened → G.status = .opened →
      F.tableId ≠ none → F.tableId = G.tableId → F = G) : FramesInv (edit p f fs) := by
  -- bills of a split are there before and after
  have hback : ∀ F ∈ edit p f fs, ¬F.Plain → F ∈ fs := by
    intro F hF hnot
    obtain ⟨G, hG, ⟨hp, rfl⟩ | ⟨-, rfl⟩⟩ := mem_edit.mp hF
    · exact absurd (hplain G hG hp).2.1 hnot
    · exact hG
  have hforth : ∀ F ∈ fs, ¬F.Plain → F ∈ edit p f fs := fun F hF hnot =>
    mem_edit_of_mem hF fun hp => hnot (hplain F hF hp).1
  have hcheck : ∀ {C : Frame} {q : RowId}, C.parentOrderId = some q → ¬C.Plain := by
    rintro C q hq ⟨-, hnone⟩
    rw [hnone] at hq
    cases hq
  refine ⟨htables, fun C hC q hq => ?_, fun P hP hsplit => ?_, fun P hP hst => ?_⟩
  · obtain ⟨htab, hcount, hst, P, hP, hid, hsplit⟩ := h.check C (hback C hC (hcheck hq)) q hq
    exact ⟨htab, hcount, hst, P, hforth P hP fun hpl => hsplit hpl.1, hid, hsplit⟩
  · obtain ⟨hnone, hstate⟩ := h.parent P (hback P hP fun hpl => hsplit hpl.1) hsplit
    refine ⟨hnone, ?_⟩
    rcases hstate with ⟨hst, C, hC, hq, hCo⟩ | ⟨hst, hall⟩
    · exact .inl ⟨hst, C, hforth C hC (hcheck hq), hq, hCo⟩
    · exact .inr ⟨hst, fun C hC hq => hall C (hback C hC (hcheck hq)) hq⟩
  · obtain ⟨G, hG, ⟨hp, rfl⟩ | ⟨-, rfl⟩⟩ := mem_edit.mp hP
    · exact absurd hst (hplain G hG hp).2.2
    · exact h.counted P hG hst

theorem close (h : FramesInv fs) {ids : List RowId} {st : BillStatus}
    (hst : st = .cancelled ∨ st = .merged) (hids : ∀ F ∈ fs, F.id ∈ ids → F.Plain) :
    FramesInv (edit (·.id ∈ ids) (fun F => { F with status := st }) fs) := by
  refine h.edit_plain (fun F hF hp => ⟨hids F hF hp, hids F hF hp, ?_⟩)
    (h.tables_edit fun F _ _ => ?_) <;> rcases hst with rfl | rfl <;> simp

theorem settle (h : FramesInv fs) (huniq : Unique fs) {F : Frame} {coupon : Option String}
    (hF : F ∈ fs) (hplain : F.Plain) :
    FramesInv (edit (·.id = F.id)
      (fun F => { F with status := .settled, couponCode := coupon }) fs) := by
  refine h.edit_plain (fun G hG hp => ?_) (h.tables_edit fun G _ _ => by simp)
  rw [huniq G hG F hF hp]
  exact ⟨hplain, hplain, by simp⟩

theorem retable (h : FramesInv fs) (huniq : Unique fs) {F : Frame} {t : String} (hF : F ∈ fs)
    (hopen : F.status = .opened) (hplain : F.Plain) (hfree : Free fs t) :
    FramesInv (edit (·.id = F.id) (fun G => { G with tableId := some t }) fs) := by
  refine h.edit_plain (fun G hG hp => ?_) fun A hA B hB hAo hBo hne heq => ?_
  · rw [huniq G hG F hF hp]
    exact ⟨hplain, hplain, by simp [hopen]⟩
  · obtain ⟨A', hA', ⟨hpA, rfl⟩ | ⟨hpA, rfl⟩⟩ := mem_edit.mp hA <;>
      obtain ⟨B', hB', ⟨hpB, rfl⟩ | ⟨hpB, rfl⟩⟩ := mem_edit.mp hB
    · rw [huniq A' hA' B' hB' (hpA.trans hpB.symm)]
    · exact absurd heq.symm (hfree B hB' hBo)
    · exact absurd heq (hfree A hA' hAo)
    · exact h.tables A hA' B hB' hAo hBo hne heq

theorem settleCheck (h : FramesInv fs) (huniq : Unique fs) {F P : Frame} {coupon : Option String}
    {last : Bool} (hF : F ∈ fs) (hopen : F.status = .opened)
    (hcheck : F.parentOrderId = some P.id) (hP : P ∈ fs)
    (hlast : last = true ↔ ∀ C ∈ fs, C.parentOrderId = some P.id → C.status = .opened →
      C.id = F.id)
    (hfs' : fs' = edit (fun G => G.id = P.id ∧ last = true) (fun G => { G with status := .split })
      (edit (·.id = F.id) (fun G => { G with status := .settled, couponCode := coupon }) fs)) :
    FramesInv fs' := by
  obtain ⟨hPsplit, hPopen⟩ := h.parent_opened huniq hF hP hcheck hopen
  obtain ⟨hFtab, hFcount, -, -⟩ := h.check F hF _ hcheck
  have hPparent := (h.parent P hP hPsplit).1
  have hne : F.id ≠ P.id := fun hid => hPsplit ((huniq F hF P hP hid) ▸ hFcount)
  -- a bill after the move is the check, the parent, or as before
  have hcases : ∀ G ∈ fs', G = { F with status := .settled, couponCode := coupon } ∨
      (last = true ∧ G = { P with status := .split }) ∨
      (G ∈ fs ∧ G.id ≠ F.id ∧ ¬(G.id = P.id ∧ last = true)) := by
    intro G hG
    rw [hfs'] at hG
    obtain ⟨H, hH, ⟨hp, rfl⟩ | ⟨hp, rfl⟩⟩ := mem_edit.mp hG <;>
      obtain ⟨H', hH', ⟨hq, rfl⟩ | ⟨hq, rfl⟩⟩ := mem_edit.mp hH
    · exact absurd (hq.symm.trans hp.1) hne
    · rw [huniq H hH' P hP hp.1]
      exact .inr (.inl ⟨hp.2, rfl⟩)
    · rw [huniq H' hH' F hF hq]
      exact .inl rfl
    · exact .inr (.inr ⟨hH', hq, hp⟩)
  have hforth : ∀ G ∈ fs, G.id ≠ F.id → ¬(G.id = P.id ∧ last = true) → G ∈ fs' :=
    fun G hG hGF hGP => hfs' ▸ mem_edit_of_mem (mem_edit_of_mem hG hGF) hGP
  have hPafter : ∃ P' ∈ fs', P'.id = P.id ∧ P'.splitCount ≠ none := by
    by_cases hl : last = true
    · refine ⟨{ P with status := .split }, ?_, rfl, hPsplit⟩
      exact hfs' ▸ mem_edit.mpr ⟨P, mem_edit_of_mem hP hne.symm, .inl ⟨⟨rfl, hl⟩, rfl⟩⟩
    · exact ⟨P, hforth P hP hne.symm fun hp => hl hp.2, rfl, hPsplit⟩
  refine ⟨fun A hA B hB hAo hBo hnone heq => ?_, fun C hC q hq => ?_, fun Q hQ hsplit => ?_,
    fun Q hQ hst => ?_⟩
  · rcases hcases A hA with rfl | ⟨-, rfl⟩ | ⟨hA, -, -⟩
    · cases hAo
    · cases hAo
    · rcases hcases B hB with rfl | ⟨-, rfl⟩ | ⟨hB, -, -⟩
      · cases hBo
      · cases hBo
      · exact h.tables A hA B hB hAo hBo hnone heq
  · rcases hcases C hC with rfl | ⟨-, rfl⟩ | ⟨hC, -, -⟩
    · obtain rfl : P.id = q := Option.some.inj (hcheck.symm.trans hq)
      exact ⟨hFtab, hFcount, .inr rfl, hPafter⟩
    · rw [hPparent] at hq
      cases hq
    · obtain ⟨htab, hcount, hst, Q, hQ, hid, hsplit⟩ := h.check C hC q hq
      refine ⟨htab, hcount, hst, ?_⟩
      by_cases hQP : Q.id = P.id
      · obtain ⟨P', hP', hid', hsplit'⟩ := hPafter
        exact ⟨P', hP', hid'.trans (hQP.symm.trans hid), hsplit'⟩
      · refine ⟨Q, hforth Q hQ (fun hQF => ?_) fun hp => hQP hp.1, hid, hsplit⟩
        rw [huniq Q hQ F hF hQF] at hsplit
        exact hsplit hFcount
  · rcases hcases Q hQ with rfl | ⟨hl, rfl⟩ | ⟨hQ', hQF, hQP⟩
    · exact absurd hFcount hsplit
    · refine ⟨hPparent, .inr ⟨rfl, fun C hC hq => ?_⟩⟩
      rcases hcases C hC with rfl | ⟨-, rfl⟩ | ⟨hC, hCF, -⟩
      · rfl
      · exact absurd hq (by simp [hPparent])
      · rcases (h.check C hC P.id hq).2.2.1 with hst | hst
        · exact absurd (hlast.mp hl C hC hq hst) hCF
        · exact hst
    · obtain ⟨hnone, hstate⟩ := h.parent Q hQ' hsplit
      refine ⟨hnone, ?_⟩
      rcases hstate with ⟨hst, C, hC, hq, hCo⟩ | ⟨hst, hall⟩
      · left
        refine ⟨hst, ?_⟩
        by_cases hCF : C.id = F.id
        · -- its open check is the one that settles, so another is open too
          have hQid : Q.id = P.id := Option.some.inj
            ((huniq C hC F hF hCF ▸ hq).symm.trans hcheck)
          have hnot : ¬∀ D ∈ fs, D.parentOrderId = some P.id → D.status = .opened →
              D.id = F.id := fun hall => hQP ⟨hQid, hlast.mpr hall⟩
          push Not at hnot
          obtain ⟨D, hD, hDq, hDo, hDF⟩ := hnot
          exact ⟨D, hforth D hD hDF fun hp => hPsplit
            (huniq D hD P hP hp.1 ▸ (h.check D hD _ hDq).2.1), hDq.trans (hQid ▸ rfl), hDo⟩
        · refine ⟨C, hforth C hC hCF fun hp => ?_, hq, hCo⟩
          exact hPsplit (huniq C hC P hP hp.1 ▸ (h.check C hC _ hq).2.1)
      · refine .inr ⟨hst, fun C hC hq => ?_⟩
        rcases hcases C hC with rfl | ⟨-, rfl⟩ | ⟨hC, -, -⟩
        · rfl
        · exact absurd hq (by simp [hPparent])
        · exact hall C hC hq
  · rcases hcases Q hQ with rfl | ⟨-, rfl⟩ | ⟨hQ, -, -⟩
    · cases hst
    · exact hPsplit
    · exact h.counted Q hQ hst

theorem split (h : FramesInv fs) (huniq : Unique fs) {P : Frame} {checks : List Frame} {k : ℕ}
    (hP : P ∈ fs) (hopen : P.status = .opened) (hplain : P.Plain) (hchecks : checks ≠ [])
    (hnew : ∀ C ∈ checks, ∀ G ∈ fs, G.id ≠ C.id)
    (hcheck : ∀ C ∈ checks, C.outletId = P.outletId ∧ C.parentOrderId = some P.id ∧
      C.tableId = none ∧ C.splitCount = none ∧ C.status = .opened ∧ C.couponCode = none)
    (hfs' : fs' = edit (·.id = P.id) (fun G => { G with splitCount := some k }) (fs ++ checks)) :
    FramesInv fs' := by
  have hcases : ∀ G ∈ fs', G = { P with splitCount := some k } ∨ (G ∈ fs ∧ G.id ≠ P.id) ∨
      G ∈ checks := by
    intro G hG
    rw [hfs'] at hG
    obtain ⟨H, hH, ⟨hp, rfl⟩ | ⟨hp, rfl⟩⟩ := mem_edit.mp hG <;> rcases List.mem_append.mp hH with hH | hH
    · rw [huniq H hH P hP hp]
      exact .inl rfl
    · exact absurd hp.symm (hnew H hH P hP)
    · exact .inr (.inl ⟨hH, hp⟩)
    · exact .inr (.inr hH)
  have hold : ∀ G ∈ fs, G.id ≠ P.id → G ∈ fs' := fun G hG hne =>
    hfs' ▸ mem_edit_of_mem (List.mem_append_left _ hG) hne
  have hPafter : { P with splitCount := some k } ∈ fs' :=
    hfs' ▸ mem_edit.mpr ⟨P, List.mem_append_left _ hP, .inl ⟨rfl, rfl⟩⟩
  refine ⟨fun A hA B hB hAo hBo hne heq => ?_, fun C hC q hq => ?_, fun Q hQ hsplit => ?_,
    fun Q hQ hst => ?_⟩
  · rcases hcases A hA with rfl | ⟨hA', hAP⟩ | hA' <;>
      rcases hcases B hB with rfl | ⟨hB', hBP⟩ | hB'
    · rfl
    · exact absurd (h.tables P hP B hB' hopen hBo hne heq).symm fun hb => hBP (congrArg Frame.id hb)
    · exact absurd (heq.trans (hcheck B hB').2.2.1) hne
    · exact absurd (h.tables A hA' P hP hAo hopen hne heq) fun hb => hAP (congrArg Frame.id hb)
    · exact h.tables A hA' B hB' hAo hBo hne heq
    · exact absurd (heq.trans (hcheck B hB').2.2.1) hne
    · exact absurd (hcheck A hA').2.2.1 hne
    · exact absurd (hcheck A hA').2.2.1 hne
    · exact absurd (hcheck A hA').2.2.1 hne
  · rcases hcases C hC with rfl | ⟨hC', -⟩ | hC'
    · rw [hplain.2] at hq
      cases hq
    · obtain ⟨htab, hcount, hst, Q, hQ, hid, hsplit⟩ := h.check C hC' q hq
      refine ⟨htab, hcount, hst, Q, hold Q hQ fun hQP => ?_, hid, hsplit⟩
      rw [huniq Q hQ P hP hQP] at hsplit
      exact hsplit hplain.1
    · obtain ⟨-, hparent, htab, hcount, hst, -⟩ := hcheck C hC'
      exact ⟨htab, hcount, .inl hst, _, hPafter, Option.some.inj (hparent.symm.trans hq), by simp⟩
  · rcases hcases Q hQ with rfl | ⟨hQ', hQP⟩ | hQ'
    · obtain ⟨C, hC⟩ := List.exists_mem_of_ne_nil checks hchecks
      obtain ⟨-, hparent, -, -, hst, -⟩ := hcheck C hC
      have hC' : C ∈ fs' :=
        hfs' ▸ mem_edit_of_mem (List.mem_append_right _ hC) (hnew C hC P hP).symm
      exact ⟨hplain.2, .inl ⟨hopen, C, hC', hparent, hst⟩⟩
    · obtain ⟨hnone, hstate⟩ := h.parent Q hQ' hsplit
      refine ⟨hnone, ?_⟩
      rcases hstate with ⟨hst, C, hC, hq, hCo⟩ | ⟨hst, hall⟩
      · refine .inl ⟨hst, C, hold C hC fun hCP => ?_, hq, hCo⟩
        rw [huniq C hC P hP hCP, hplain.2] at hq
        cases hq
      · refine .inr ⟨hst, fun C hC hq => ?_⟩
        rcases hcases C hC with rfl | ⟨hC', -⟩ | hC'
        · exact absurd hq (by simp [hplain.2])
        · exact hall C hC' hq
        · exact absurd (Option.some.inj ((hcheck C hC').2.1.symm.trans hq)) hQP.symm
    · exact absurd (hcheck Q hQ').2.2.2.1 hsplit
  · rcases hcases Q hQ with rfl | ⟨hQ', -⟩ | hQ'
    · simp
    · exact h.counted Q hQ' hst
    · rw [(hcheck Q hQ').2.2.2.2.1] at hst
      cases hst

theorem unsplit (h : FramesInv fs) (huniq : Unique fs) {P : Frame} {ids : List RowId}
    (hP : P ∈ fs) (hopen : P.status = .opened) (hsplit : P.splitCount ≠ none)
    (hids : ∀ C ∈ fs, C.id ∈ ids ↔ C.parentOrderId = some P.id)
    (hfs' : fs' = edit (·.id = P.id) (fun G => { G with splitCount := none })
      (fs.filter fun C => !decide (C.id ∈ ids))) : FramesInv fs' := by
  have hPparent := (h.parent P hP hsplit).1
  have hPids : P.id ∉ ids := fun hmem => by
    rw [(hids P hP).mp hmem] at hPparent
    cases hPparent
  have hcases : ∀ G ∈ fs', G = { P with splitCount := none } ∨
      (G ∈ fs ∧ G.id ≠ P.id ∧ G.parentOrderId ≠ some P.id) := by
    intro G hG
    rw [hfs'] at hG
    obtain ⟨H, hH, ⟨hp, rfl⟩ | ⟨hp, rfl⟩⟩ := mem_edit.mp hG
    · rw [huniq H (List.mem_filter.mp hH).1 P hP hp]
      exact .inl rfl
    · obtain ⟨hH, hnot⟩ := List.mem_filter.mp hH
      exact .inr ⟨hH, hp, fun hq => by simp [(hids G hH).mpr hq] at hnot⟩
  have hold : ∀ G ∈ fs, G.id ≠ P.id → G.parentOrderId ≠ some P.id → G ∈ fs' :=
    fun G hG hne hq => hfs' ▸ mem_edit_of_mem
      (List.mem_filter.mpr ⟨hG, by simpa using fun hmem => hq ((hids G hG).mp hmem)⟩) hne
  refine ⟨fun A hA B hB hAo hBo hne heq => ?_, fun C hC q hq => ?_, fun Q hQ hcount => ?_,
    fun Q hQ hst => ?_⟩
  · rcases hcases A hA with rfl | ⟨hA', hAP, -⟩ <;> rcases hcases B hB with rfl | ⟨hB', hBP, -⟩
    · rfl
    · exact absurd (h.tables P hP B hB' hopen hBo hne heq).symm fun hb => hBP (congrArg Frame.id hb)
    · exact absurd (h.tables A hA' P hP hAo hopen hne heq) fun hb => hAP (congrArg Frame.id hb)
    · exact h.tables A hA' B hB' hAo hBo hne heq
  · rcases hcases C hC with rfl | ⟨hC', -, hCP⟩
    · rw [hPparent] at hq
      cases hq
    · obtain ⟨htab, hcount, hst, Q, hQ, rfl, hQsplit⟩ := h.check C hC' q hq
      refine ⟨htab, hcount, hst, Q, hold Q hQ (fun hQP => ?_) ?_, rfl, hQsplit⟩
      · exact hCP (hq.trans (congrArg some hQP))
      · rw [(h.parent Q hQ hQsplit).1]
        exact fun hnone => by cases hnone
  · rcases hcases Q hQ with rfl | ⟨hQ', hQP, -⟩
    · exact absurd rfl hcount
    · obtain ⟨hnone, hstate⟩ := h.parent Q hQ' hcount
      have hother : ∀ {C : Frame}, C.parentOrderId = some Q.id → C.parentOrderId ≠ some P.id :=
        fun hq hq' => hQP (Option.some.inj (hq.symm.trans hq'))
      refine ⟨hnone, ?_⟩
      rcases hstate with ⟨hst, C, hC, hq, hCo⟩ | ⟨hst, hall⟩
      · refine .inl ⟨hst, C, hold C hC (fun hCP => ?_) (hother hq), hq, hCo⟩
        rw [huniq C hC P hP hCP, hPparent] at hq
        cases hq
      · refine .inr ⟨hst, fun C hC hq => ?_⟩
        rcases hcases C hC with rfl | ⟨hC', -, -⟩
        · exact absurd hq (by simp [hPparent])
        · exact hall C hC' hq
  · rcases hcases Q hQ with rfl | ⟨hQ', -, -⟩
    · rw [hopen] at hst
      cases hst
    · exact h.counted Q hQ' hst

end FramesInv

/-! ### What others can rely on -/

section Step

variable {L : Locks} {fs fs' : List Frame} {e : BillEvent}

/-- A bill is the other one, at another time. -/
def Frame.Same (F G : Frame) : Prop :=
  F.id = G.id ∧ F.outletId = G.outletId ∧ F.parentOrderId = G.parentOrderId

/-- What a holder of certain locks and numbers leaves alone. -/
structure FrameStep (L : Hold LockKey → Prop) (fs fs' : List Frame) : Prop where
  /-- A bill that it has not locked, and its checks. -/
  kept : ∀ F ∈ fs, ¬L (.lock (.order F.id)) →
    F ∈ fs' ∧ ∀ C : Frame, C.parentOrderId = some F.id → (C ∈ fs' ↔ C ∈ fs)
  /-- Bills that are closed. -/
  closed : ∀ F ∈ fs, F.status ≠ .opened → F ∈ fs'
  /-- What else there is has an id that it has drawn. -/
  origin : ∀ F' ∈ fs', L (.number F'.id.stamp) ∨ ∃ F ∈ fs, F.Same F'
  /-- A free table that it has not locked. -/
  table : ∀ t, ¬L (.lock (.table t)) → Free fs t → Free fs' t

theorem FrameStep.refl (L : Locks) (fs : List Frame) : FrameStep L fs fs :=
  ⟨fun _ hF _ => ⟨hF, fun _ _ => Iff.rfl⟩, fun _ hF _ => hF, fun F hF => .inr ⟨F, hF, rfl, rfl, rfl⟩,
    fun _ _ h => h⟩

/-- Changing open bills that are locked. -/
theorem FrameStep.edit {p : Frame → Prop} [DecidablePred p] {f : Frame → Frame}
    (hp : ∀ F ∈ fs, p F → L (.lock (.order F.id)) ∧ F.status = .opened ∧
      ∀ q, F.parentOrderId = some q → L (.lock (.order q)))
    (hf : ∀ F ∈ fs, p F → F.Same (f F))
    (htable : ∀ F ∈ fs, p F → ∀ t, (f F).status = .opened → (f F).tableId = some t →
      F.tableId = some t ∨ L (.lock (.table t))) :
    FrameStep L fs (edit p f fs) := by
  refine ⟨fun F hF hL => ⟨mem_edit_of_mem hF fun h => hL (hp F hF h).1, fun C hC => ?_⟩,
    fun F hF hst => mem_edit_of_mem hF fun h => hst (hp F hF h).2.1, fun F hF => ?_,
    fun t hL hfree F hF ho ht => ?_⟩
  · refine ⟨fun hmem => ?_, fun hmem => mem_edit_of_mem hmem fun h => hL ((hp C hmem h).2.2 _ hC)⟩
    obtain ⟨G, hG, ⟨hpG, rfl⟩ | ⟨-, rfl⟩⟩ := mem_edit.mp hmem
    · exact absurd ((hp G hG hpG).2.2 F.id ((hf G hG hpG).2.2.trans hC)) hL
    · exact hG
  · obtain ⟨G, hG, ⟨hpG, rfl⟩ | ⟨-, rfl⟩⟩ := mem_edit.mp hF
    · exact .inr ⟨G, hG, hf G hG hpG⟩
    · exact .inr ⟨F, hG, rfl, rfl, rfl⟩
  · obtain ⟨G, hG, ⟨hpG, rfl⟩ | ⟨-, rfl⟩⟩ := mem_edit.mp hF
    · rcases htable G hG hpG t ho ht with ht' | ht'
      · exact hfree G hG (hp G hG hpG).2.1 ht'
      · exact hL ht'
    · exact hfree F hG ho ht

theorem FrameStep.trans {fs₁ fs₂ : List Frame} (h₁ : FrameStep L fs fs₁) (h₂ : FrameStep L fs₁ fs₂) : FrameStep L fs fs₂ := by
  refine ⟨fun F hF hL => ?_, fun F hF hst => h₂.closed F (h₁.closed F hF hst) hst, fun F hF => ?_,
    fun t hL hfree => h₂.table t hL (h₁.table t hL hfree)⟩
  · obtain ⟨hF₁, hC₁⟩ := h₁.kept F hF hL
    obtain ⟨hF₂, hC₂⟩ := h₂.kept F hF₁ hL
    exact ⟨hF₂, fun C hC => (hC₂ C hC).trans (hC₁ C hC)⟩
  · rcases h₂.origin F hF with hL | ⟨G, hG, hid, hout, hpar⟩
    · exact .inl hL
    · rcases h₁.origin G hG with hL | ⟨H, hH, hid', hout', hpar'⟩
      · exact .inl (hid ▸ hL)
      · exact .inr ⟨H, hH, hid'.trans hid, hout'.trans hout, hpar'.trans hpar⟩

/-- Opening bills. -/
theorem FrameStep.append {new : List Frame}
    (hnew : ∀ F ∈ new, L (.number F.id.stamp) ∧
      (∀ q, F.parentOrderId = some q → L (.lock (.order q))) ∧
      ∀ t, F.status = .opened → F.tableId = some t → L (.lock (.table t))) :
    FrameStep L fs (fs ++ new) := by
  refine ⟨fun F hF hL => ⟨List.mem_append_left _ hF, fun C hC => ?_⟩,
    fun F hF _ => List.mem_append_left _ hF, fun F hF => ?_, fun t hL hfree F hF ho ht => ?_⟩
  · refine ⟨fun hmem => ?_, List.mem_append_left _⟩
    rcases List.mem_append.mp hmem with hmem | hmem
    · exact hmem
    · exact absurd ((hnew C hmem).2.1 _ hC) hL
  · rcases List.mem_append.mp hF with hF | hF
    · exact .inr ⟨F, hF, rfl, rfl, rfl⟩
    · exact .inl (hnew F hF).1
  · rcases List.mem_append.mp hF with hF | hF
    · exact hfree F hF ho ht
    · exact hL ((hnew F hF).2.2 t ho ht)

/-- Deleting open checks that are locked, with their parent. -/
theorem FrameStep.filter {p : Frame → Bool}
    (hp : ∀ F ∈ fs, p F = false → L (.lock (.order F.id)) ∧ F.status = .opened ∧
      ∀ q, F.parentOrderId = some q → L (.lock (.order q))) :
    FrameStep L fs (fs.filter p) := by
  have hkeep : ∀ F ∈ fs, (p F = false → False) → F ∈ fs.filter p := fun F hF h =>
    List.mem_filter.mpr ⟨hF, by simpa using h⟩
  refine ⟨fun F hF hL => ⟨hkeep F hF fun h => hL (hp F hF h).1, fun C hC =>
      ⟨fun hmem => (List.mem_filter.mp hmem).1, fun hmem => hkeep C hmem fun h =>
        hL ((hp C hmem h).2.2 _ hC)⟩⟩,
    fun F hF hst => hkeep F hF fun h => hst (hp F hF h).2.1,
    fun F hF => .inr ⟨F, (List.mem_filter.mp hF).1, rfl, rfl, rfl⟩,
    fun t _ hfree F hF => hfree F (List.mem_filter.mp hF).1⟩

/-- Moves keep the invariant. -/
theorem BillMove.inv (h : FramesInv fs) (huniq : Unique fs) (hmove : BillMove L fs e fs') :
    FramesInv fs' := by
  cases hmove with
  | stay => exact h
  | add F _ hnew hplain hstatus _ htable =>
    exact h.add hnew hplain hstatus fun t ht ho => (htable t ht ho).2
  | close ids st hst hids => exact h.close hst fun F hF hp => (hids F hF hp).2.2
  | settle F coupon hF _ _ hplain => exact h.settle huniq hF hplain
  | settleCheck F P coupon last hF _ hopen hcheck hP _ hlast =>
    exact h.settleCheck huniq hF hopen hcheck hP hlast rfl
  | retable F t hF _ hopen hplain _ hfree => exact h.retable huniq hF hopen hplain hfree
  | split P checks k hP _ hopen hplain hchecks hnew hcheck =>
    exact h.split huniq hP hopen hplain hchecks (fun C hC => (hnew C hC).2) hcheck rfl
  | unsplit P ids hP _ hopen hsplit hids _ _ => exact h.unsplit huniq hP hopen hsplit hids rfl

/-- Moves respect the locks of others. -/
theorem BillMove.step (h : FramesInv fs) (huniq : Unique fs) (hmove : BillMove L fs e fs') :
    FrameStep L fs fs' := by
  have hplain_parent : ∀ {F : Frame} {q : RowId}, F.Plain → F.parentOrderId = some q →
      L (.lock (.order q)) := by
    rintro F q ⟨-, hnone⟩ hq
    rw [hnone] at hq
    cases hq
  cases hmove with
  | stay => exact .refl L fs
  | add F hfresh _ hplain _ _ htable =>
    refine .append fun G hG => ?_
    obtain rfl := List.mem_singleton.mp hG
    exact ⟨hfresh, fun q => hplain_parent hplain, fun t ho ht => (htable t ht ho).1⟩
  | close ids st hst hids =>
    refine .edit (fun F hF hp => ?_) (fun F _ _ => ⟨rfl, rfl, rfl⟩) fun F _ _ t _ ht => .inl ht
    obtain ⟨hlock, hopen, hplain⟩ := hids F hF hp
    exact ⟨hlock, hopen, fun q => hplain_parent hplain⟩
  | settle F coupon hF hlock hopen hplain =>
    refine .edit (fun G hG hp => ?_) (fun F _ _ => ⟨rfl, rfl, rfl⟩) fun G _ _ t _ ht => .inl ht
    rw [huniq G hG F hF hp]
    exact ⟨hlock, hopen, fun q => hplain_parent hplain⟩
  | settleCheck F P coupon last hF hlock hopen hcheck hP hlockP hlast =>
    obtain ⟨hPsplit, hPopen⟩ := h.parent_opened huniq hF hP hcheck hopen
    have hPparent := (h.parent P hP hPsplit).1
    have hne : F.id ≠ P.id := fun hid => hPsplit (huniq F hF P hP hid ▸ (h.check F hF _ hcheck).2.1)
    have hsettle : FrameStep L fs (edit (·.id = F.id)
        (fun G => { G with status := .settled, couponCode := coupon }) fs) := by
      refine .edit (fun G hG hp => ?_) (fun F _ _ => ⟨rfl, rfl, rfl⟩) fun G _ _ t _ ht => .inl ht
      rw [huniq G hG F hF hp]
      refine ⟨hlock, hopen, fun q hq => ?_⟩
      rw [← Option.some.inj (hcheck.symm.trans hq)]
      exact hlockP
    refine hsettle.trans (.edit (fun G hG hp => ?_) (fun F _ _ => ⟨rfl, rfl, rfl⟩)
      fun G _ _ t _ ht => ?_)
    · obtain ⟨H, hH, ⟨hpH, rfl⟩ | ⟨-, rfl⟩⟩ := mem_edit.mp hG
      · exact absurd (hpH.symm.trans hp.1) hne
      · rw [huniq G hH P hP hp.1]
        exact ⟨hlockP, hPopen, fun q hq => by rw [hPparent] at hq; cases hq⟩
    · exact .inl ht
  | retable F t hF hlock hopen hplain htable _ =>
    refine .edit (fun G hG hp => ?_) (fun F _ _ => ⟨rfl, rfl, rfl⟩) fun G _ _ t' _ ht => ?_
    · rw [huniq G hG F hF hp]
      exact ⟨hlock, hopen, fun q => hplain_parent hplain⟩
    · rw [← Option.some.inj ht]
      exact .inr htable
  | split P checks k hP hlock hopen hplain _ hnew hcheck =>
    refine .trans (.append fun C hC => ?_) (.edit (fun G hG hp => ?_)
      (fun F _ _ => ⟨rfl, rfl, rfl⟩) fun G _ _ t _ ht => .inl ht)
    · obtain ⟨-, hparent, htab, -⟩ := hcheck C hC
      refine ⟨(hnew C hC).1, fun q hq => ?_, fun t _ ht => ?_⟩
      · rw [← Option.some.inj (hparent.symm.trans hq)]
        exact hlock
      · rw [htab] at ht
        cases ht
    · rcases List.mem_append.mp hG with hG | hG
      · rw [huniq G hG P hP hp]
        exact ⟨hlock, hopen, fun q => hplain_parent hplain⟩
      · exact absurd hp.symm ((hnew G hG).2 P hP)
  | unsplit P ids hP hlock hopen hsplit hids hlocks hopens =>
    have hPparent := (h.parent P hP hsplit).1
    refine .trans (.filter fun C hC hp => ?_) (.edit (fun G hG hp => ?_)
      (fun F _ _ => ⟨rfl, rfl, rfl⟩) fun G _ _ t _ ht => .inl ht)
    · have hmem : C.id ∈ ids := by simpa using hp
      refine ⟨(hlocks C.id hmem).1, hopens C hC hmem, fun q hq => ?_⟩
      rw [← Option.some.inj (((hids C hC).mp hmem).symm.trans hq)]
      exact hlock
    · rw [huniq G (List.mem_filter.mp hG).1 P hP hp]
      exact ⟨hlock, hopen, fun q hq => by rw [hPparent] at hq; cases hq⟩

theorem Frame.Same.trans {F G H : Frame} (h₁ : F.Same G) (h₂ : G.Same H) : F.Same H :=
  ⟨h₁.1.trans h₂.1, h₁.2.1.trans h₂.2.1, h₁.2.2.trans h₂.2.2⟩

theorem stays_edit {p : Frame → Prop} [DecidablePred p] {f : Frame → Frame} {fs : List Frame}
    (hf : ∀ G : Frame, G.Same (f G)) {F : Frame} (hF : F ∈ fs) : ∃ F' ∈ edit p f fs, F.Same F' := by
  by_cases hp : p F
  · exact ⟨f F, mem_edit_of_pos hF hp, hf F⟩
  · exact ⟨F, mem_edit_of_mem hF hp, rfl, rfl, rfl⟩

/-- A bill stays, or a split was undone that it was a check of. -/
theorem BillMove.stays (hmove : BillMove L fs e fs') {F : Frame} (hF : F ∈ fs) :
    (∃ F' ∈ fs', F.Same F') ∨ ∃ u, e = .unsplit u ∧ F.id ∈ u.removedChecks := by
  cases hmove with
  | stay => exact .inl ⟨F, hF, rfl, rfl, rfl⟩
  | add => exact .inl ⟨F, List.mem_append_left _ hF, rfl, rfl, rfl⟩
  | close | settle | retable => exact .inl (stays_edit (fun _ => by exact ⟨rfl, rfl, rfl⟩) hF)
  | settleCheck C P coupon last =>
    obtain ⟨G, hG, hsame⟩ := @stays_edit (·.id = C.id) _
      (fun G => { G with status := .settled, couponCode := coupon }) fs (fun _ => ⟨rfl, rfl, rfl⟩) F hF
    obtain ⟨H, hH, hsame'⟩ := @stays_edit (fun G => G.id = P.id ∧ last = true) _
      (fun G => { G with status := .split }) _ (fun _ => ⟨rfl, rfl, rfl⟩) G hG
    exact .inl ⟨H, hH, hsame.trans hsame'⟩
  | split => exact .inl (stays_edit (fun _ => by exact ⟨rfl, rfl, rfl⟩) (List.mem_append_left _ hF))
  | unsplit P ids =>
    by_cases hmem : F.id ∈ ids
    · exact .inr ⟨_, rfl, hmem⟩
    · have hF' : F ∈ fs.filter fun C => !decide (C.id ∈ ids) :=
        List.mem_filter.mpr ⟨hF, by simpa using hmem⟩
      exact .inl (stays_edit (fun _ => by exact ⟨rfl, rfl, rfl⟩) hF')

/-- What a move that undoes a split does: all checks are open, and all are gone after it. -/
theorem BillMove.of_unsplit {u : Unsplit} (h : FramesInv fs) (hmove : BillMove L fs (.unsplit u) fs') :
    (∀ id ∈ u.removedChecks, ∃ C ∈ fs, C.id = id) ∧
    (∀ C ∈ fs, C.id ∈ u.removedChecks ↔ C.parentOrderId = some u.parentId) ∧
    (∀ C ∈ fs, C.id ∈ u.removedChecks → C.status = .opened) ∧
    ∀ F ∈ fs', F.id ∉ u.removedChecks := by
  cases hmove with
  | unsplit P ids hP hlock hopen hsplit hids hlocks hopens =>
    refine ⟨fun id hid => (hlocks id hid).2, hids, hopens, fun F hF hmem => ?_⟩
    have hPparent := (h.parent P hP hsplit).1
    obtain ⟨G, hG, ⟨hp, rfl⟩ | ⟨-, rfl⟩⟩ := mem_edit.mp hF
    · obtain ⟨hG, hnot⟩ := List.mem_filter.mp hG
      exact absurd hmem (by simpa using hnot)
    · obtain ⟨hG, hnot⟩ := List.mem_filter.mp hG
      exact absurd hmem (by simpa using hnot)

/-! ### Coupons -/

/-- The settled bills of an outlet that carry a coupon. -/
def uses (fs : List Frame) (outletId code : String) : ℕ :=
  fs.countP fun F => decide (F.status = .settled ∧ F.outletId = outletId ∧ F.couponCode = some code)

/-- The uses of a coupon that a move adds. -/
def BillEvent.uses : BillEvent → String → String → ℕ
  | sale outlet (some coupon), outletId, code => if outlet = outletId ∧ coupon = code then 1 else 0
  | _, _, _ => 0

theorem uses_append (fs gs : List Frame) (outletId code : String) :
    uses (fs ++ gs) outletId code = uses fs outletId code + uses gs outletId code :=
  List.countP_append

theorem uses_eq_zero {fs : List Frame} {outletId code : String}
    (h : ∀ F ∈ fs, F.couponCode = none ∨ F.status ≠ .settled) : uses fs outletId code = 0 := by
  rw [uses, List.countP_eq_zero]
  intro F hF
  rcases h F hF with hnone | hne
  · simp [hnone]
  · simp [hne]

/-- Bills that are settled neither before nor after a change do not count. -/
theorem uses_edit {p : Frame → Prop} [DecidablePred p] {f : Frame → Frame} {fs : List Frame}
    {outletId code : String}
    (h : ∀ F ∈ fs, p F → F.status ≠ .settled ∧ (f F).status ≠ .settled) :
    uses (edit p f fs) outletId code = uses fs outletId code := by
  rw [uses, edit, List.countP_map]
  refine List.countP_congr fun F hF => ?_
  by_cases hp : p F
  · simp [hp, (h F hF hp).1, (h F hF hp).2]
  · simp [hp]

/-- Settling a bill counts for its coupon. -/
theorem uses_settle {fs : List Frame} (hnodup : (fs.map Frame.id).Nodup) {F : Frame} (hF : F ∈ fs)
    (hopen : F.status = .opened) (coupon : Option String) (outletId code : String) :
    uses (edit (·.id = F.id) (fun G => { G with status := .settled, couponCode := coupon }) fs)
      outletId code = uses fs outletId code + (BillEvent.sale F.outletId coupon).uses outletId code := by
  obtain ⟨l, r, rfl⟩ := List.append_of_mem hF
  rw [List.map_append, List.map_cons, List.nodup_append, List.nodup_cons] at hnodup
  obtain ⟨-, ⟨hr, -⟩, hl⟩ := hnodup
  have hsame : ∀ gs : List Frame, (∀ G ∈ gs, G.id ≠ F.id) →
      edit (·.id = F.id) (fun G => { G with status := .settled, couponCode := coupon }) gs = gs := by
    intro gs hgs
    rw [edit]
    refine (List.map_congr_left fun G hG => ?_).trans (List.map_id gs)
    simp [hgs G hG]
  have hleft := hsame l fun G hG => hl _ (List.mem_map_of_mem hG) _ List.mem_cons_self
  have hright := hsame r fun G hG hid => hr (hid ▸ List.mem_map_of_mem hG)
  have hmid : uses [{ F with status := .settled, couponCode := coupon }] outletId code =
      (BillEvent.sale F.outletId coupon).uses outletId code := by
    cases coupon with
    | none => simp [uses, BillEvent.uses]
    | some c =>
      by_cases hmatch : F.outletId = outletId ∧ c = code
      · simp [uses, BillEvent.uses, hmatch]
      · simp [uses, BillEvent.uses, hmatch]
  have hzero : uses [F] outletId code = 0 := uses_eq_zero fun G hG => by
    obtain rfl := List.mem_singleton.mp hG
    simp [hopen]
  have hedit : edit (·.id = F.id) (fun G => { G with status := .settled, couponCode := coupon })
      (l ++ F :: r) = l ++ [{ F with status := .settled, couponCode := coupon }] ++ r := by
    rw [edit, List.map_append, List.map_cons, if_pos rfl, ← edit, ← edit, hleft, hright]
    simp
  rw [hedit, uses_append, uses_append, hmid, List.append_cons l F r, uses_append, uses_append, hzero]
  omega

/-- The settled bills with a coupon after a move. -/
theorem BillMove.uses (h : FramesInv fs) (hnodup : (fs.map Frame.id).Nodup) (hmove : BillMove L fs e fs')
    (outletId code : String) :
    Billing.uses fs' outletId code = Billing.uses fs outletId code + e.uses outletId code := by
  have huniq : Unique fs := fun F hF G hG => List.inj_on_of_nodup_map hnodup hF hG
  cases hmove with
  | stay => rfl
  | add F _ _ _ _ hcoupon _ =>
    rw [uses_append, uses_eq_zero fun G hG => .inl ((List.mem_singleton.mp hG) ▸ hcoupon)]
    rfl
  | close ids st hst hids =>
    refine uses_edit fun F hF hp => ⟨by simp [(hids F hF hp).2.1], ?_⟩
    rcases hst with rfl | rfl <;> simp
  | settle F coupon hF hlock hopen hplain => exact uses_settle hnodup hF hopen coupon outletId code
  | settleCheck F P coupon last hF hlock hopen hcheck hP hlockP hlast =>
    rw [uses_edit, uses_settle hnodup hF hopen coupon outletId code]
    rintro G hG ⟨hid, -⟩
    obtain ⟨hPsplit, hPopen⟩ := h.parent_opened huniq hF hP hcheck hopen
    obtain ⟨H, hH, ⟨hpH, rfl⟩ | ⟨-, rfl⟩⟩ := mem_edit.mp hG
    · have hFP := huniq F hF P hP (hpH.symm.trans hid)
      exact absurd (hFP ▸ (h.check F hF _ hcheck).2.1) hPsplit
    · rw [huniq G hH P hP hid]
      simp [hPopen]
  | retable F t hF hlock hopen hplain htable hfree =>
    refine uses_edit fun G hG hp => ?_
    rw [huniq G hG F hF hp]
    simp [hopen]
  | split P checks k hP hlock hopen hplain hchecks hnew hcheck =>
    rw [uses_edit, uses_append, uses_eq_zero fun C hC => .inl (hcheck C hC).2.2.2.2.2]
    · rfl
    · intro G hG hp
      rcases List.mem_append.mp hG with hG | hG
      · rw [huniq G hG P hP hp]
        simp [hopen]
      · exact absurd hp.symm ((hnew G hG).2 P hP)
  | unsplit P ids hP hlock hopen hsplit hids hlocks hopens =>
    rw [uses_edit]
    · rw [Billing.uses, Billing.uses, List.countP_filter]
      refine List.countP_congr fun F hF => ?_
      by_cases hmem : F.id ∈ ids
      · simp [hmem, hopens F hF hmem]
      · simp [hmem]
    · intro G hG hp
      rw [huniq G (List.mem_filter.mp hG).1 P hP hp]
      simp [hopen]

end Step

end StelloKitchens.Billing
