import StelloKitchens.ScanOrder.Requests

/-!
# Token numbers

An accept reads the last token number of the outlet, and gives its request the next one in a later
statement. If no other accept of the outlet has written in between, the number is larger than all
that were given before.

## Main definitions

* `TokensSound`, `Grows` — no number is given twice, and later numbers are larger.
* `tokenTerms` — the terms of the token numbers.

## Main results

* `token_kept` — every method keeps the terms.
* `tokens_unique` — the token numbers, over all interleavings.
-/

namespace StelloKitchens.ScanOrder

open Checked Tx Process Method Discipline Service
open Billing (Menu RowId)

/-! ### The invariant -/

/-- An accepted request has a number, and no two requests of an outlet have the same. -/
structure TokensSound (db : ScanDb) (n : ℕ) : Prop where
  fresh : ∀ r ∈ db.orderRequests, r.id < n
  numbered : ∀ r ∈ db.orderRequests, r.status = .accepted → r.tokenNumber ≠ none
  unique : ∀ r ∈ db.orderRequests, ∀ r' ∈ db.orderRequests, r.outletId = r'.outletId →
    ∀ t, r.tokenNumber = some t → r'.tokenNumber = some t → r = r'

/-- A request that has been accepted in between has a larger number than those before. -/
structure Grows (s s' : ScanDb) : Prop where
  kept : ∀ r ∈ s.orderRequests, ∃ r' ∈ s'.orderRequests, r'.id = r.id ∧ r'.outletId = r.outletId ∧
    ∀ t, r.tokenNumber = some t → ∃ t' ≥ t, r'.tokenNumber = some t'
  larger : ∀ r ∈ s.orderRequests, ∀ r' ∈ s'.orderRequests, r.outletId = r'.outletId →
    r'.status = .accepted → (∀ q ∈ s.orderRequests, q.id = r'.id → q.status ≠ .accepted) →
      ∀ t, r.tokenNumber = some t → ∃ t' > t, r'.tokenNumber = some t'

theorem Grows.refl (s : ScanDb) : Grows s s := by
  refine ⟨fun r hr => ⟨r, hr, rfl, rfl, fun t ht => ⟨t, le_refl t, ht⟩⟩, ?_⟩
  intro r _ r' hr' _ haccepted hnot
  exact absurd haccepted (hnot r' hr' rfl)

theorem Grows.trans {s s' s'' : ScanDb} (h : Grows s s') (h' : Grows s' s'') : Grows s s'' := by
  refine ⟨fun r hr => ?_, fun r hr r'' hr'' houtlet haccepted hnot t ht => ?_⟩
  · obtain ⟨r', hr', hid, houtlet, htoken⟩ := h.kept r hr
    obtain ⟨r'', hr'', hid', houtlet', htoken'⟩ := h'.kept r' hr'
    refine ⟨r'', hr'', hid'.trans hid, houtlet'.trans houtlet, fun t ht => ?_⟩
    obtain ⟨t', hle, ht'⟩ := htoken t ht
    obtain ⟨t'', hle', ht''⟩ := htoken' t' ht'
    exact ⟨t'', hle.le.trans hle', ht''⟩
  · by_cases hsecond : ∀ q ∈ s'.orderRequests, q.id = r''.id → q.status ≠ .accepted
    · obtain ⟨r', hr', -, houtlet', htoken⟩ := h.kept r hr
      obtain ⟨t', hle, ht'⟩ := htoken t ht
      obtain ⟨t'', hlt, ht''⟩ :=
        h'.larger r' hr' r'' hr'' (houtlet'.trans houtlet) haccepted hsecond t' ht'
      exact ⟨t'', lt_of_le_of_lt hle hlt, ht''⟩
    · -- it was accepted in the first part
      push Not at hsecond
      obtain ⟨q, hq, hid, hqaccepted⟩ := hsecond
      obtain ⟨q'', hq'', hid'', houtlet'', htoken⟩ := h'.kept q hq
      obtain rfl := KeyedTable.eq_of_mem hq'' hr'' (hid''.trans hid)
      obtain ⟨u, hlt, hu⟩ := h.larger r hr q hq (houtlet.trans houtlet'') hqaccepted
        (fun p hp hpid => hnot p hp (hpid.trans hid)) t ht
      obtain ⟨u', hle, hu'⟩ := htoken u hu
      exact ⟨u', lt_of_lt_of_le hlt hle, hu'⟩

/-- What the commit of who holds these does to the requests. -/
structure TokenStep (L : Hold LockKey → Prop) (s s' : ScanDb) : Prop where
  requests : TableStep LockKey.request L s.orderRequests s'.orderRequests
  grows : Grows s s'

/-- The terms of the token numbers: a request becomes accepted with the number after the last one
of its outlet. -/
def tokenTerms : Terms ScanDb LockKey Note (Except ServiceError Unit) where
  inv := TokensSound
  step := TokenStep
  inv_mono hle h := { h with fresh := fun r hr => (h.fresh r hr).trans_le hle }
  admits note _ db := match note with
    | .accepted requestId tokenNumber => ∀ r ∈ db.orderRequests.rows, r.id = requestId →
        db.lastToken r.outletId + 1 = tokenNumber
    | _ => True
  said _ _ := True
  said_step _ _ _ h := h

instance (note : Note) (held : List (Hold LockKey)) (db : ScanDb) :
    Decidable (tokenTerms.admits note (· ∈ held) db) :=
  match note with
  | .accepted requestId tokenNumber => inferInstanceAs
      (Decidable (∀ r ∈ db.orderRequests.rows, r.id = requestId →
        db.lastToken r.outletId + 1 = tokenNumber))
  | .plain => .isTrue trivial
  | .claimed _ _ => .isTrue trivial
  | .punched _ => .isTrue trivial
  | .putBack _ => .isTrue trivial
  | .rejected _ => .isTrue trivial

/-! ### Writes -/

section Writes

variable {L : Hold LockKey → Prop} {s : ScanDb} {n : ℕ}

theorem le_lastToken {r : OrderRequest} (hr : r ∈ s.orderRequests) {t : ℕ}
    (ht : r.tokenNumber = some t) : t ≤ s.lastToken r.outletId := by
  have hmem : t ∈ (s.orderRequests.rows.filter fun q => q.outletId = r.outletId).filterMap
      (·.tokenNumber) :=
    List.mem_filterMap.mpr ⟨r, List.mem_filter.mpr ⟨hr, decide_eq_true rfl⟩, ht⟩
  unfold ScanDb.lastToken
  cases hmax : ((s.orderRequests.rows.filter fun q => q.outletId = r.outletId).filterMap
      (·.tokenNumber)).max? with
  | none =>
    rw [List.max?_eq_none_iff.mp hmax] at hmem
    cases hmem
  | some m => exact (List.max?_eq_some_iff.mp hmax).2 t hmem

/-- The change of a request leaves its outlet; it leaves its number, or gives it the next. -/
structure Gives (s : ScanDb) (f : OrderRequest → OrderRequest) (r : OrderRequest) : Prop where
  outlet : (f r).outletId = r.outletId
  token : (f r).status ≠ .accepted ∧ (f r).tokenNumber = r.tokenNumber ∨
    (f r).tokenNumber = some (s.lastToken r.outletId + 1)

/-- A request that is locked is updated. -/
theorem keeping_giveToken (hs : TokensSound s n) {id : ℕ} (hlock : L (.lock (.request id)))
    {f : OrderRequest → OrderRequest} (hf : ∀ r, (f r).id = r.id)
    (hgives : ∀ r ∈ s.orderRequests, r.id = id → Gives s f r) :
    TokensSound (s.updateRequest id f hf) n ∧ TokenStep L s (s.updateRequest id f hf) := by
  set g : OrderRequest → OrderRequest := fun r => if r.id = id then f r else r with hg
  have hmem : ∀ x, x ∈ (s.updateRequest id f hf).orderRequests ↔
      ∃ r ∈ s.orderRequests, x = g r := by
    intro x
    refine (KeyedTable.mem_modify hf).trans ?_
    simp only [decide_eq_true_eq, hg]
  have hid : ∀ r, (g r).id = r.id := by
    intro r
    simp only [hg]
    split
    · exact hf r
    · rfl
  have hgive : ∀ r ∈ s.orderRequests, (g r).outletId = r.outletId ∧
      (((g r).status = .accepted → r.status = .accepted) ∧ (g r).tokenNumber = r.tokenNumber ∨
        r.id = id ∧ (g r).tokenNumber = some (s.lastToken r.outletId + 1)) := by
    intro r hr
    simp only [hg]
    split
    · have h := hgives r hr ‹_›
      exact ⟨h.outlet, h.token.imp (fun ht => ⟨fun ha => absurd ha ht.1, ht.2⟩) fun ht => ⟨‹_›, ht⟩⟩
    · exact ⟨rfl, .inl ⟨fun ha => ha, rfl⟩⟩
  -- a number that is given is larger than those of the outlet
  have hlt : ∀ r ∈ s.orderRequests, ∀ q ∈ s.orderRequests, r.outletId = q.outletId → ∀ t,
      r.tokenNumber = some t → t < s.lastToken q.outletId + 1 := fun r hr q _ houtlet t ht =>
    Nat.lt_succ_of_le (houtlet ▸ le_lastToken hr ht)
  refine ⟨⟨fun x hx => ?_, fun x hx haccepted => ?_, fun x hx y hy houtlet t hxt hyt => ?_⟩,
    ⟨.modify hf fun _ _ hp => of_decide_eq_true hp ▸ hlock, fun r hr => ?_,
      fun r hr x hx houtlet haccepted hnot t ht => ?_⟩⟩
  · obtain ⟨r, hr, rfl⟩ := (hmem x).mp hx
    rw [hid]
    exact hs.fresh r hr
  · obtain ⟨r, hr, rfl⟩ := (hmem x).mp hx
    rcases (hgive r hr).2 with ⟨hstatus, htoken⟩ | ⟨-, htoken⟩
    · exact htoken.trans_ne (hs.numbered r hr (hstatus haccepted))
    · exact htoken.trans_ne (Option.some_ne_none _)
  · obtain ⟨r, hr, rfl⟩ := (hmem x).mp hx
    obtain ⟨q, hq, rfl⟩ := (hmem y).mp hy
    obtain ⟨hro, hrt⟩ := hgive r hr
    obtain ⟨hqo, hqt⟩ := hgive q hq
    rw [hro, hqo] at houtlet
    refine congrArg g ?_
    rcases hrt with ⟨-, hrt⟩ | ⟨hrid, hrt⟩ <;> rcases hqt with ⟨-, hqt⟩ | ⟨hqid, hqt⟩
    · exact hs.unique r hr q hq houtlet t (hrt ▸ hxt) (hqt ▸ hyt)
    · obtain rfl := Option.some.inj (hqt.symm.trans hyt)
      exact absurd (hlt r hr q hq houtlet _ (hrt ▸ hxt)) (lt_irrefl _)
    · obtain rfl := Option.some.inj (hrt.symm.trans hxt)
      exact absurd (hlt q hq r hr houtlet.symm _ (hqt ▸ hyt)) (lt_irrefl _)
    · exact KeyedTable.eq_of_mem hr hq (hrid.trans hqid.symm)
  · obtain ⟨houtlet, htoken⟩ := hgive r hr
    refine ⟨g r, (hmem _).mpr ⟨r, hr, rfl⟩, hid r, houtlet, fun t ht => ?_⟩
    rcases htoken with ⟨-, htoken⟩ | ⟨-, htoken⟩
    · exact ⟨t, le_refl t, htoken.trans ht⟩
    · exact ⟨_, (hlt r hr r hr rfl t ht).le, htoken⟩
  · obtain ⟨q, hq, rfl⟩ := (hmem x).mp hx
    obtain ⟨hqo, hqt⟩ := hgive q hq
    rcases hqt with ⟨hstatus, -⟩ | ⟨-, hqt⟩
    · exact absurd (hstatus haccepted) (hnot q hq (hid q).symm)
    · exact ⟨_, hlt r hr q hq (houtlet.trans hqo) t ht, hqt⟩

/-- A request is created under a number that was drawn. -/
theorem keeping_putNew (hs : TokensSound s n) {r : OrderRequest} (hlt : r.id < n)
    (hlock : L (.lock (.request r.id))) (hnumber : L (.number r.id))
    (hnone : s.orderRequests.find? r.id = none) (hstatus : r.status = .pending)
    (htoken : r.tokenNumber = none) :
    TokensSound { s with orderRequests := s.orderRequests.put r } n ∧
      TokenStep L s { s with orderRequests := s.orderRequests.put r } := by
  have hne : ∀ x ∈ s.orderRequests, x.id ≠ r.id := KeyedTable.find?_eq_none.mp hnone
  have hold : ∀ x ∈ s.orderRequests, x ∈ s.orderRequests.put r := fun x hx =>
    KeyedTable.mem_put.mpr (.inr ⟨hx, hne x hx⟩)
  have hmem : ∀ x ∈ s.orderRequests.put r, x = r ∨ x ∈ s.orderRequests := fun x hx =>
    (KeyedTable.mem_put.mp hx).imp_right And.left
  have htokened : ∀ x ∈ s.orderRequests.put r, ∀ t, x.tokenNumber = some t →
      x ∈ s.orderRequests := by
    intro x hx t ht
    rcases hmem x hx with rfl | hx
    · simp [htoken] at ht
    · exact hx
  have haccepted : ∀ x ∈ s.orderRequests.put r, x.status = .accepted → x ∈ s.orderRequests := by
    intro x hx hxa
    rcases hmem x hx with rfl | hx
    · simp [hstatus] at hxa
    · exact hx
  refine ⟨⟨fun x hx => ?_, fun x hx hxa => hs.numbered x (haccepted x hx hxa) hxa,
    fun x hx y hy houtlet t hxt hyt => ?_⟩, ⟨.put hlock fun _ => hnumber,
      fun q hq => ⟨q, hold q hq, rfl, rfl, fun t ht => ⟨t, le_refl t, ht⟩⟩,
      fun q hq x hx _ hxa hnot => ?_⟩⟩
  · rcases hmem x hx with rfl | hx
    · exact hlt
    · exact hs.fresh x hx
  · exact hs.unique x (htokened x hx t hxt) y (htokened y hy t hyt) houtlet t hxt hyt
  · exact absurd hxa (hnot x (haccepted x hx hxa) rfl)

/-- The requests stay as they are. -/
theorem keeping_of_requests (hs : TokensSound s n) {s' : ScanDb}
    (heq : s'.orderRequests = s.orderRequests) : TokensSound s' n ∧ TokenStep L s s' := by
  obtain ⟨billing, requests, rounds⟩ := s
  obtain ⟨billing', requests', rounds'⟩ := s'
  cases heq
  obtain ⟨hkept, hlarger⟩ := Grows.refl ⟨billing, requests, rounds⟩
  exact ⟨⟨hs.fresh, hs.numbered, hs.unique⟩, .refl _, hkept, hlarger⟩

end Writes

theorem regular : tokenTerms.toDiscipline.Regular where
  refl _ s := ⟨.refl _, .refl s⟩
  trans _ _ _ _ h h' := ⟨h.requests.trans h'.requests, h.grows.trans h'.grows⟩
  mono _ _ _ _ hL h := ⟨h.requests.mono hL, h.grows⟩

/-! ### Methods -/

/-- The methods keep the terms from one transaction to the next. -/
abbrev KeepsTokens {α : Type} (x : ScanMethod α) : Prop :=
  x.Keeps tokenTerms.toDiscipline tokenTerms.admits

section Statements

variable {L : Hold LockKey → Prop} {K : ScanDb → Prop} {id : ℕ} {cond : ScanDb → Bool}
  {f : OrderRequest → OrderRequest} {hf : ∀ r, (f r).id = r.id} {note : Bool → Note}

/-- The conditional update of a request. -/
theorem wp_updateRequest (hK : tokenTerms.Stable L K)
    (hgives : ∀ L s, tokenTerms.admits (note true) L s → ∀ r ∈ s.orderRequests, r.id = id →
      Gives s f r) :
    tokenTerms.wp (updateWhere (.request id) cond (·.updateRequest id f hf) : ScanTx Bool) L K
      (fun s => s) fun L K g hit => ∃ J,
        CommitsTo tokenTerms.toDiscipline tokenTerms.admits (note hit) L K g J := by
  refine wp_updateWhere hK (fun L' _ => ⟨_, Commits.to regular.commits_id⟩) fun s n _ _ _ =>
    ⟨fun _ => True, stable_true, trivial, _, Commits.to fun s n hs _ hKs => ?_⟩
  exact keeping_giveToken hs (.inl rfl) hf (hgives _ s hKs.2)

theorem keeps_updateRequest (hgives : ∀ L s, tokenTerms.admits (note true) L s →
      ∀ r ∈ s.orderRequests, r.id = id → Gives s f r) :
    KeepsTokens (atomically note (updateWhere (.request id) cond (·.updateRequest id f hf))) :=
  keeps_atomically fun _ _ _ hK => wp_updateRequest hK hgives

/-- The number of a request is left as it is. -/
theorem gives_same (hstatus : ∀ r, (f r).status ≠ .accepted)
    (hsame : ∀ r, (f r).outletId = r.outletId ∧ (f r).tokenNumber = r.tokenNumber) (s : ScanDb)
    (r : OrderRequest) : Gives s f r := ⟨(hsame r).1, .inl ⟨hstatus r, (hsame r).2⟩⟩

end Statements

theorem keeps_requireRequest (user : AuthUser) (requestId : ℕ) :
    KeepsTokens (requireRequest user requestId) :=
  (keeps_look _).bind fun _ => (keeps_getOr _ _).bind fun _ => (keeps_guardOr _ _).bind fun _ =>
    keeps_pure _

theorem keeps_claim (user : AuthUser) (requestId : ℕ) (fails : List Point) :
    KeepsTokens (atomically (fun hit => if hit then .claimed requestId fails else .plain)
      (claimTx user requestId)) := by
  refine keeps_atomically fun L K _ hK => ?_
  simp only [claimTx, Discipline.wp_bind]
  refine wp_draw hK fun s n _ _ => ⟨fun _ => True, stable_true, trivial, ?_⟩
  exact wp_updateRequest ((hK.add _).and stable_true) fun _ s _ r _ _ =>
    gives_same (f := (·.claim n)) (fun _ => RequestStatus.noConfusion) (fun _ => ⟨rfl, rfl⟩) s r

/-- The tables of the orders are not what the terms are about. -/
theorem keeps_punch (req : OrderRequest) (menu : Menu) :
    KeepsTokens (autocommit (.punched req.id) (punchTx req menu)) := by
  refine keeps_of_writes (V := Leaves ScanDb.orderRequests) (fun _ => rfl) (fun _ _ => Leaves.comp)
    (fun w hw L s n hs => keeping_of_requests hs (hw s)) ?_
  exact (writes_onPart _ _ _ _ (fun _ _ => rfl) _).bind fun orderId =>
    (writes_update fun _ => rfl).bind fun _ => trivial

theorem keeps_ingestScanOrder (req : OrderRequest) (menu : Menu) (fails : List Point) :
    KeepsTokens (ingestScanOrder req menu fails) :=
  (keeps_guardOr _ _).bind fun _ => (keeps_punch req menu).bind fun _ =>
    (keeps_guardOr _ _).bind fun _ => keeps_pure _

theorem keeps_putBack (requestId : ℕ) (fails : List Point) (e : ServiceError) :
    KeepsTokens (putBack requestId fails e) := by
  refine (keeps_guardOr _ _).bind fun _ => Keeps.bind (keeps_updateRequest fun _ s _ r _ _ => ?_)
    fun _ => keeps_throw _
  exact gives_same (f := (·.putBack)) (fun _ => RequestStatus.noConfusion) (fun _ => ⟨rfl, rfl⟩) s r

theorem keeps_accept (user : AuthUser) (requestId : ℕ) (menu : Menu) (now : Time)
    (fails : List Point) : KeepsTokens (accept user requestId menu now fails) := by
  refine (keeps_claim user requestId fails).bind fun _ => (keeps_guardOr _ _).bind fun _ =>
    (keeps_guardOr _ _).bind fun _ => (keeps_requireRequest user requestId).bind fun req => ?_
  refine (keeps_tryCatch (keeps_ingestScanOrder req menu fails) fun e =>
    keeps_putBack req.id fails e).bind fun orderId => (keeps_guardOr _ _).bind fun _ => ?_
  refine (keeps_look _).bind fun last => (keeps_guardOr _ _).bind fun _ => Keeps.bind ?_ fun _ =>
    keeps_guardOr _ _
  refine keeps_updateRequest fun L s hadmits r hr hid => ⟨rfl, .inr ?_⟩
  exact congrArg some (hadmits r hr hid).symm

theorem keeps_reject (user : AuthUser) (requestId : ℕ) (now : Time) :
    KeepsTokens (reject user requestId now) := by
  refine (keeps_requireRequest user requestId).bind fun req => (keeps_guardOr _ _).bind fun _ =>
    Keeps.bind (keeps_updateRequest fun _ s _ r _ _ => ?_) fun _ => keeps_guardOr _ _
  exact gives_same (f := (·.reject now)) (fun _ => RequestStatus.noConfusion) (fun _ => ⟨rfl, rfl⟩) s r

theorem keeps_createRequest (sender : Sender) (menu : Menu) (input : SubmitOrderRequestInput) :
    KeepsTokens (createRequest sender menu input) := by
  refine Keeps.bind (fun L K hL hK _ hpost => hpost L K _ hL hK) fun _ =>
    keeps_atomically fun L K _ hK => ?_
  simp only [createRequestTx, Discipline.wp_bind]
  refine wp_draw hK fun s n hs _ => ⟨fun s => s.orderRequests.find? n = none, ?_, ?_, ?_⟩
  · have hrequests : ∀ L s s', tokenTerms.step L s s' →
        TableStep .request L s.orderRequests s'.orderRequests := fun _ _ _ h => h.requests
    exact TableStep.stable_absent hrequests (.inl rfl)
  · exact KeyedTable.find?_eq_none.mpr fun r hr => (hs.fresh r hr).ne
  rw [Discipline.wp_acquire, Discipline.wp_update]
  refine ⟨_, Commits.to fun s m hs hdrawn hK => ?_⟩
  exact keeping_putNew (r := sender.request input n) hs (hdrawn n (.inr (.inl rfl))) (.inl rfl)
    (.inr (.inl rfl)) hK.1.2 rfl rfl

/-- Every method keeps the terms of the token numbers. -/
theorem token_kept (r : ScanRequest) : tokenTerms.Kept r.run.run := by
  refine Terms.kept_of_keeps ?_ fun _ _ => trivial
  cases r with
  | createRequest sender menu input => exact keeps_createRequest sender menu input
  | accept user requestId menu now fails => exact keeps_accept user requestId menu now fails
  | reject user requestId now => exact keeps_reject user requestId now

/-! ### All interleavings -/

/-- No two accepted requests of an outlet have the same number, and those that are accepted later
have larger ones. -/
structure TokensOrdered (s s' : ScanDb) : Prop where
  unique : ∀ r ∈ s'.orderRequests.rows, ∀ r' ∈ s'.orderRequests.rows, r.outletId = r'.outletId →
    r.status = .accepted → r'.status = .accepted → r.tokenNumber = r'.tokenNumber → r.id = r'.id
  later : ∀ r ∈ s.orderRequests.rows, ∀ r' ∈ s'.orderRequests.rows, r.outletId = r'.outletId →
    r.status = .accepted → r'.status = .accepted →
      (∀ q ∈ s.orderRequests.rows, q.id = r'.id → q.status ≠ .accepted) →
        ∃ t ∈ r.tokenNumber, ∃ t' ∈ r'.tokenNumber, t < t'

theorem tokensSound_init {db : ScanDb} {n : ℕ} (h : db.orderRequests = .empty) :
    TokensSound db n := by
  have hnone : ∀ r, r ∉ db.orderRequests := by
    rw [h]
    exact KeyedTable.notMem_empty
  exact ⟨fun r hr => absurd hr (hnone r), fun r hr => absurd hr (hnone r),
    fun r hr => absurd hr (hnone r)⟩

/-- In every run in which an accept writes its number only while no other of the outlet has been
given since it read the last one, the token numbers are unique, and grow. -/
theorem tokens_unique {w : ScanWorld} (h : scanOrders.Reach (World.Admits tokenTerms.admits) w)
    {as : List (WorldAction ScanRequest Empty)}
    (hgood : scanOrders.GoodRun (World.Admits tokenTerms.admits) w as) :
    TokensOrdered w.db (scanOrders.run w as).db := by
  have hinit : ∀ s n, s.orderRequests = .empty ∧ s.rounds = [] → tokenTerms.inv s n :=
    fun _ _ hs => tokensSound_init hs.1
  have hsound := (Terms.holds_of_reach token_kept hinit h).inv
  have hsound' := (Terms.holds_of_reach token_kept hinit (Machine.reach_run as h hgood)).inv
  have hgrows := Terms.relation_of_run token_kept hinit Grows.refl (fun _ _ _ => Grows.trans)
    (fun _ _ _ _ _ hstep => hstep.grows) h hgood
  refine ⟨fun r hr r' hr' houtlet hra _ htoken => ?_, fun r hr r' hr' houtlet hra hra' hnot => ?_⟩
  · obtain ⟨t, ht⟩ := Option.ne_none_iff_exists'.mp (hsound'.numbered r hr hra)
    exact congrArg OrderRequest.id (hsound'.unique r hr r' hr' houtlet t ht (htoken ▸ ht))
  · obtain ⟨t, ht⟩ := Option.ne_none_iff_exists'.mp (hsound.numbered r hr hra)
    obtain ⟨t', hlt, ht'⟩ := hgrows.larger r hr r' hr' houtlet hra' hnot t ht
    exact ⟨t, ht, t', ht', hlt⟩

/-- Two diners have asked for a dosa. -/
def askTwice : List (WorldAction ScanRequest Empty) :=
  .start 0 askForDosa :: WorldAction.steps 0 10 ++ .start 0 askForDosa :: WorldAction.steps 0 10

/-- One accept has read the last number, and stops until another one has ended. -/
def acceptBothRun : List (WorldAction ScanRequest Empty) :=
  .start 0 (acceptRequest 1 []) :: WorldAction.steps 0 26 ++
    .start 1 (acceptRequest 2 []) :: WorldAction.steps 1 60 ++ WorldAction.steps 0 10

/-- Two requests can be given the same number. -/
theorem not_tokens_unique : ¬∀ w, scanOrders.Reachable w →
    ∀ as, TokensOrdered w.db (scanOrders.run w as).db := by
  intro h
  have hreach := Machine.reachable_run askTwice (.init ⟨⟨rfl, rfl⟩, rfl, rfl⟩ :
    scanOrders.Reachable (.atRest kioskDb 1))
  have hunique := (h _ hreach acceptBothRun).unique
  revert hunique
  decide +kernel

/-- Two requests are accepted one after the other. -/
theorem tokens_unique_oneByOne :
    let w := scanOrders.run (.atRest kioskDb 1)
      (askTwice ++ .start 0 (acceptRequest 1 []) :: WorldAction.steps 0 60)
    let w' := scanOrders.run w (.start 0 (acceptRequest 2 []) :: WorldAction.steps 0 60)
    w'.db.orderRequests.rows.map (·.tokenNumber) = [some 1, some 2] ∧ TokensOrdered w.db w'.db :=
  ⟨by decide +kernel, tokens_unique
    (Machine.reach_run _ (.init ⟨⟨rfl, rfl⟩, rfl, rfl⟩) (by decide +kernel)) (by decide +kernel)⟩

end StelloKitchens.ScanOrder
