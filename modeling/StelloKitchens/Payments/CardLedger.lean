import StelloKitchens.Payments.Touches

/-!
# The ledger of gift cards

Every card stands at the sum of its ledger entries, every entry notes the sum up to it, and no
card is ever overdrawn, however the requests interleave. A card that is locked stays as it is,
and a card is written only by who has locked it or drawn its number.

## Main definitions

* `CardsSound` — what holds of cards and their ledgers.
* `CardsStep` — what a commit does to them.
* `cardTerms` — the terms of the two.

## Main results

* `card_kept` — every request keeps the terms.
* `card_ledger` — the ledgers over all interleavings.
-/

namespace StelloKitchens.Payments

open Checked Tx Discipline

/-! ### Cards and their ledgers -/

/-- The cards and their ledgers, with the next number to draw. -/
structure CardsSound (db : PaymentsDb) (n : ℕ) : Prop where
  drawn : ∀ c ∈ db.giftCards, c.id < n
  home : ∀ t ∈ db.giftCardTxns, ∃ c ∈ db.giftCards, c.id = t.giftCardId
  balance : ∀ c ∈ db.giftCards, c.balance.scaled = ((db.ledgerOf c.id).map (·.amount.scaled)).sum
  running : ∀ c ∈ db.giftCards,
    Ledger.Running (·.amount.scaled) (·.balanceAfter.scaled) (db.ledgerOf c.id)
  nonneg : ∀ c ∈ db.giftCards, 0 ≤ c.balance.scaled
  after : ∀ t ∈ db.giftCardTxns, 0 ≤ t.balanceAfter.scaled

/-- What the commit of who holds these does to the cards. -/
structure CardsStep (L : Hold LockKey → Prop) (s s' : PaymentsDb) : Prop where
  kept : ∀ c ∈ s.giftCards, ¬L (.lock (.card c.id)) → c ∈ s'.giftCards
  stay : ∀ c ∈ s.giftCards, ∃ c' ∈ s'.giftCards, c'.id = c.id
  origin : ∀ c' ∈ s'.giftCards, L (.number c'.id) ∨ ∃ c ∈ s.giftCards, c.id = c'.id

/-- The terms of the gift cards; all commits are admitted. -/
def cardTerms : Terms PaymentsDb LockKey Note (Except PaymentError (Option String)) where
  inv := CardsSound
  step := CardsStep
  inv_mono hle h := { h with drawn := fun c hc => (h.drawn c hc).trans_le hle }
  admits _ _ _ := True
  said _ _ := True
  said_step _ _ _ := id

section Sound

variable {s s' : PaymentsDb} {n : ℕ} {L : Hold LockKey → Prop}

theorem CardsSound.same (h : CardsSound s n) (hsame : Table.cards.Same s s') :
    CardsSound s' n := by
  have hledger : s'.ledgerOf = s.ledgerOf := by
    funext id
    rw [PaymentsDb.ledgerOf, PaymentsDb.ledgerOf, hsame.2]
  constructor <;> simp only [hsame.1, hsame.2, hledger]
  · exact h.drawn
  · exact h.home
  · exact h.balance
  · exact h.running
  · exact h.nonneg
  · exact h.after

theorem CardsStep.refl (L : Hold LockKey → Prop) (s : PaymentsDb) : CardsStep L s s :=
  ⟨fun _ hc _ => hc, fun c hc => ⟨c, hc, rfl⟩, fun c hc => .inr ⟨c, hc, rfl⟩⟩

theorem CardsStep.same {s'' : PaymentsDb} (h : CardsStep L s s') (hsame : Table.cards.Same s' s'') :
    CardsStep L s s'' := by
  refine ⟨?_, ?_, ?_⟩ <;> rw [hsame.1]
  · exact h.kept
  · exact h.stay
  · exact h.origin

theorem CardsStep.mono {L' : Hold LockKey → Prop} (h : CardsStep L s s')
    (hL : ∀ k, L k → L' k) : CardsStep L' s s' :=
  ⟨fun c hc hlock => h.kept c hc fun hl => hlock (hL _ hl), h.stay,
    fun c hc => (h.origin c hc).imp_left (hL _)⟩

theorem about_cards : About cardTerms.toDiscipline [.cards] := by
  intro ts f hf hts L s n hs
  have hsame := hf.same s .cards (hts _ (by simp))
  exact ⟨hs.same hsame, (CardsStep.refl L s).same hsame⟩

theorem mem_putCard {db : PaymentsDb} {c x : GiftCard} {t : GiftCardTxn} :
    x ∈ (db.putCard c t).giftCards ↔ x = c ∨ (x ∈ db.giftCards ∧ x.id ≠ c.id) :=
  KeyedTable.mem_put

theorem ledgerOf_putCard (db : PaymentsDb) (c : GiftCard) (t : GiftCardTxn) (id : ℕ) :
    (db.putCard c t).ledgerOf id =
      db.ledgerOf id ++ if t.giftCardId = id then [t] else [] := by
  simp [PaymentsDb.ledgerOf, PaymentsDb.putCard]

/-- A card row and the entry that goes with it keep the ledgers. -/
theorem CardsSound.putCard (h : CardsSound s n) {c : GiftCard} {t : GiftCardTxn} (hid : c.id < n)
    (hcard : t.giftCardId = c.id) (hafter : t.balanceAfter = c.balance)
    (hbalance : c.balance.scaled = ((s.ledgerOf c.id).map (·.amount.scaled)).sum + t.amount.scaled)
    (hrunning : Ledger.Running (·.amount.scaled) (·.balanceAfter.scaled) (s.ledgerOf c.id))
    (hnonneg : 0 ≤ c.balance.scaled) : CardsSound (s.putCard c t) n := by
  refine ⟨fun x hx => ?_, fun e he => ?_, fun x hx => ?_, fun x hx => ?_, fun x hx => ?_,
    fun e he => ?_⟩
  · rcases mem_putCard.mp hx with rfl | ⟨hx, -⟩
    · exact hid
    · exact h.drawn x hx
  · rcases List.mem_append.mp he with he | he
    · obtain ⟨x, hx, hxe⟩ := h.home e he
      by_cases hxc : x.id = c.id
      · exact ⟨c, mem_putCard.mpr (.inl rfl), hxc ▸ hxe⟩
      · exact ⟨x, mem_putCard.mpr (.inr ⟨hx, hxc⟩), hxe⟩
    · rw [List.mem_singleton.mp he]
      exact ⟨c, mem_putCard.mpr (.inl rfl), hcard.symm⟩
  · rw [ledgerOf_putCard]
    rcases mem_putCard.mp hx with rfl | ⟨hx, hne⟩
    · simpa [hcard] using hbalance
    · simpa [hcard, hne.symm] using h.balance x hx
  · rw [ledgerOf_putCard]
    rcases mem_putCard.mp hx with rfl | ⟨hx, hne⟩
    · simpa [hcard] using hrunning.snoc (e := t) (by rw [hafter, hbalance])
    · simpa [hcard, hne.symm] using h.running x hx
  · rcases mem_putCard.mp hx with rfl | ⟨hx, -⟩
    · exact hnonneg
    · exact h.nonneg x hx
  · rcases List.mem_append.mp he with he | he
    · exact h.after e he
    · rw [List.mem_singleton.mp he, hafter]
      exact hnonneg

/-- The row of a card is written with an entry for what it changes by. -/
theorem CardsSound.change (h : CardsSound s n) {c c' : GiftCard} {t : GiftCardTxn}
    (hc : c ∈ s.giftCards) (hid : c'.id = c.id) (hcard : t.giftCardId = c.id)
    (hafter : t.balanceAfter = c'.balance)
    (hamount : c'.balance.scaled = c.balance.scaled + t.amount.scaled)
    (hnonneg : 0 ≤ c'.balance.scaled) : CardsSound (s.putCard c' t) n :=
  h.putCard (hid ▸ h.drawn c hc) (hcard.trans hid.symm) hafter
    (by rw [hamount, hid, h.balance c hc]) (by rw [hid]; exact h.running c hc) hnonneg

theorem CardsStep.putCard (h : CardsStep L s s') {c : GiftCard} (t : GiftCardTxn)
    (hlock : L (.lock (.card c.id)))
    (hold : L (.number c.id) ∨ ∃ c₀ ∈ s.giftCards, c₀.id = c.id) :
    CardsStep L s (s'.putCard c t) := by
  refine ⟨fun x hx hfree => ?_, fun x hx => ?_, fun x hx => ?_⟩
  · refine mem_putCard.mpr (.inr ⟨h.kept x hx hfree, fun hxc => hfree ?_⟩)
    rwa [hxc]
  · obtain ⟨y, hy, hyx⟩ := h.stay x hx
    by_cases hyc : y.id = c.id
    · exact ⟨c, mem_putCard.mpr (.inl rfl), hyc ▸ hyx⟩
    · exact ⟨y, mem_putCard.mpr (.inr ⟨hy, hyc⟩), hyx⟩
  · rcases mem_putCard.mp hx with rfl | ⟨hx, -⟩
    · exact hold
    · exact h.origin x hx

end Sound

/-! ### Writes to cards that are locked -/

/-- The writes so far keep the terms, touch cards that are there only, and do to a card what they
do to it whatever the others are. -/
structure Ready (L : Hold LockKey → Prop) (K : PaymentsDb → Prop) (f : PaymentsDb → PaymentsDb) :
    Prop where
  stable : cardTerms.Stable L K
  commits : cardTerms.Commits L K f
  local' : ∀ s s' id, s'.giftCards.find? id = s.giftCards.find? id →
    (f s').giftCards.find? id = (f s).giftCards.find? id
  known : ∀ s, K s → ∀ c ∈ (f s).giftCards, ∃ c₀ ∈ s.giftCards, c₀.id = c.id

section Ready

variable {L : Hold LockKey → Prop} {K : PaymentsDb → Prop} {f : PaymentsDb → PaymentsDb}

theorem ready_id (hK : cardTerms.Stable L K) : Ready L K id :=
  ⟨hK, fun s _ hs _ _ => ⟨hs, CardsStep.refl L s⟩, fun _ _ _ h => h, fun _ _ c hc => ⟨c, hc, rfl⟩⟩

/-- More locks, and writes to other tables, make no difference. -/
theorem commits_touches (h : cardTerms.Commits L K f) {L' : Hold LockKey → Prop}
    (hL : ∀ k, L k → L' k) {ts : List Table} (hts : .cards ∉ ts) {w : PaymentsDb → PaymentsDb}
    (hw : Touches ts w) : cardTerms.Commits L' K (w ∘ f) := by
  intro s n hs hdrawn hK
  obtain ⟨hinv, hstep⟩ := h s n hs (fun m hm => hdrawn m (hL _ hm)) hK
  exact ⟨hinv.same (hw.same _ _ hts), (hstep.mono hL).same (hw.same _ _ hts)⟩

theorem Ready.anti {L' : Hold LockKey → Prop} (h : Ready L K f) (hL : ∀ k, L k → L' k) :
    Ready L' K f where
  stable := h.stable.anti hL
  commits := commits_touches h.commits hL List.not_mem_nil touches_id
  local' := h.local'
  known := h.known

/-- What is known of a card that is locked. -/
def Locked (f : PaymentsDb → PaymentsDb) (card : GiftCard) (s : PaymentsDb) : Prop :=
  (f s).giftCards.find? card.id = some card ∧ ∃ c ∈ s.giftCards, c.id = card.id

theorem Ready.stable_locked (h : Ready L K f) {card : GiftCard}
    (hlock : L (.lock (.card card.id))) : cardTerms.Stable L (Locked f card) := by
  rintro L' s n s' n' - - hother hstep ⟨hfind, c, hc, hid⟩
  have hc' : c ∈ s'.giftCards := hstep.kept c hc fun hl => hother _ hlock (hid ▸ hl)
  refine ⟨?_, c, hc', hid⟩
  rw [h.local' s s' card.id, hfind]
  rw [← hid, KeyedTable.find?_of_mem hc, KeyedTable.find?_of_mem hc']

/-- A statement reads the row of a card that is locked. -/
theorem Ready.wp_findCard (h : Ready L K f) {id : ℕ} (hlock : L (.lock (.card id)))
    {post : (Hold LockKey → Prop) → (PaymentsDb → Prop) → (PaymentsDb → PaymentsDb) →
      Option GiftCard → Prop}
    (hnone : post L (fun s => K s ∧ True) f none)
    (hsome : ∀ card, card.id = id → Ready L (fun s => K s ∧ Locked f card s) f →
      post L (fun s => K s ∧ Locked f card s) f (some card)) :
    cardTerms.wp (query fun db : PaymentsDb => db.giftCards.find? id : PaymentTx _) L K f post := by
  refine wp_query h.stable fun s n hs hK => ?_
  cases hfind : (f s).giftCards.find? id with
  | none => exact ⟨fun _ => True, stable_true, trivial, hnone⟩
  | some card =>
    obtain ⟨hcard, rfl⟩ := KeyedTable.find?_eq_some.mp hfind
    have hlocked := h.stable_locked hlock
    refine ⟨Locked f card, hlocked, ⟨hfind, h.known s hK card hcard⟩, hsome card rfl ?_⟩
    exact ⟨h.stable.and hlocked, fun s n hs hdrawn hK => h.commits s n hs hdrawn hK.1, h.local',
      fun s hK => h.known s hK.1⟩

/-- The row of a card that is locked is written with its entry. -/
theorem Ready.putCard {card c : GiftCard} {t : GiftCardTxn}
    (h : Ready L (fun s => K s ∧ Locked f card s) f) (hlock : L (.lock (.card card.id)))
    (hid : c.id = card.id) (hcard : t.giftCardId = card.id)
    (hafter : t.balanceAfter = c.balance)
    (hamount : 0 ≤ card.balance.scaled → c.balance.scaled = card.balance.scaled + t.amount.scaled ∧
      0 ≤ c.balance.scaled) :
    Ready L (fun s => K s ∧ Locked f card s) ((fun db => db.putCard c t) ∘ f) where
  stable := h.stable
  commits s n hs hdrawn hK := by
    obtain ⟨hinv, hstep⟩ := h.commits s n hs hdrawn hK
    obtain ⟨-, hfind, c₀, hc₀, hcid⟩ := hK
    have hmem := (KeyedTable.find?_eq_some.mp hfind).1
    obtain ⟨hchange, hnonneg⟩ := hamount (hinv.nonneg card hmem)
    refine ⟨hinv.change hmem hid hcard hafter hchange hnonneg, hstep.putCard t ?_ ?_⟩
    · rw [hid]
      exact hlock
    · exact .inr ⟨c₀, hc₀, hcid.trans hid.symm⟩
  local' s s' id hsame := by
    change ((f s').giftCards.put c).find? id = ((f s).giftCards.put c).find? id
    by_cases hne : id = c.id
    · rw [hne, KeyedTable.find?_put_self, KeyedTable.find?_put_self]
    · rw [KeyedTable.find?_put_of_ne hne, KeyedTable.find?_put_of_ne hne, h.local' s s' id hsame]
  known s hK x hx := by
    rcases mem_putCard.mp hx with rfl | ⟨hx, -⟩
    · obtain ⟨-, -, c₀, hc₀, hcid⟩ := hK
      exact ⟨c₀, hc₀, hcid.trans hid.symm⟩
    · exact h.known s hK x hx

end Ready

/-! ### Amounts -/

theorem store_eq_ok {p : ℕ} {x : Binary64} {d : Decimal p 2} :
    (store x : Except PaymentError (Decimal p 2)) = .ok d ↔ Decimal.ofNumber x = some d :=
  orThrow_eq_ok

/-- Redeeming whole paise from a card takes them off its balance, and notes them as taken. -/
theorem redeem_amounts {amount : Binary64} (hwhole : WholePaise amount)
    {balance after taken : CardAmount} (hle : amount ≤ toPaise (N balance))
    (hafter : store (fromPaise (toPaise (N balance) - amount)) = .ok after)
    (htaken : store (-fromPaise amount) = .ok taken) :
    after.scaled = balance.scaled + taken.scaled ∧ 0 ≤ after.scaled := by
  obtain ⟨m, hm, hval⟩ := hwhole
  have hbalance : (toPaise (N balance)).val = balance.scaled :=
    val_toPaise_of_column (by norm_num) balance
  have hmle : m ≤ balance.scaled := by
    rw [Binary64.le_def, hval, hbalance] at hle
    exact_mod_cast hle
  have hbound := balance.abs_scaled_le (by norm_num)
  have hsub : (toPaise (N balance) - amount).val = ((balance.scaled - m : ℤ) : ℚ) :=
    Binary64.val_sub_intCast hbalance hval (by rw [abs_le] at hbound ⊢; omega)
  rw [store_eq_ok, ofNumber_fromPaise_column (by norm_num) hsub, Decimal.ofScaled_eq_some] at hafter
  rw [store_eq_ok, ofNumber_neg_fromPaise (by norm_num) hval, Decimal.ofScaled_eq_some] at htaken
  omega

/-- Voiding a card forfeits what was on it. -/
theorem void_amount {balance forfeited : CardAmount}
    (h : store (-N balance) = .ok forfeited) : forfeited.scaled = -balance.scaled := by
  rwa [store_eq_ok, ofNumber_neg_toNumber (by norm_num), Decimal.ofScaled_eq_some] at h

/-! ### Redeeming, issuing and voiding -/

section Requests

variable {L : Hold LockKey → Prop} {K : PaymentsDb → Prop} {f : PaymentsDb → PaymentsDb}

/-- Redeeming whole paise from a card. -/
theorem Ready.wp_redeemGiftCard (h : Ready L K f) (user : AuthUser) (now : Time)
    (outletId : String) (orderId : ℕ) (code : String) {amount : Binary64}
    (hwhole : WholePaise amount)
    {post : (Hold LockKey → Prop) → (PaymentsDb → Prop) → (PaymentsDb → PaymentsDb) → Unit → Prop}
    (hpost : ∀ L' K' f', (∀ k, L k → L' k) → Ready L' K' f' → post L' K' f' ()) :
    cardTerms.wp (redeemGiftCard user now outletId orderId code amount) L K f post := by
  unfold redeemGiftCard
  rw [Discipline.wp_bind]
  refine wp_query_any h.stable fun found => ?_
  rw [Discipline.wp_bind]
  refine wp_require fun seen _ => ?_
  have hL : ∀ k, L k → Discipline.add L (.lock (.card seen.id)) k := fun k => .inr
  have hlock : Discipline.add L (.lock (.card seen.id)) (.lock (.card seen.id)) := .inl rfl
  simp only [Discipline.wp_bind, wp_acquire]
  refine (h.anti hL).wp_findCard hlock (wp_require fun _ hnone => by cases hnone)
    fun card hid hready => wp_require fun _ hcard => ?_
  obtain rfl := Option.some.inj hcard
  refine wp_check fun _ => wp_check fun _ => wp_check fun hle => wp_ofExcept fun after hafter =>
    wp_ofExcept fun taken htaken => ?_
  obtain ⟨hchange, hnonneg⟩ := redeem_amounts hwhole hle hafter htaken
  exact hpost _ _ _ hL (hready.putCard (by rwa [hid]) rfl rfl rfl fun _ => ⟨hchange, hnonneg⟩)

/-- Redeeming card by card. -/
theorem Ready.wp_foldlM (user : AuthUser) (now : Time) (outletId : String) (orderId : ℕ)
    {amounts : String → Binary64} (hwhole : ∀ code, WholePaise (amounts code)) (codes : List String)
    (h : Ready L K f)
    {post : (Hold LockKey → Prop) → (PaymentsDb → Prop) → (PaymentsDb → PaymentsDb) → Unit → Prop}
    (hpost : ∀ L' K' f', (∀ k, L k → L' k) → Ready L' K' f' → post L' K' f' ()) :
    cardTerms.wp (codes.foldlM (fun _ code =>
      redeemGiftCard user now outletId orderId code (amounts code)) ()) L K f post := by
  induction codes generalizing L K f with
  | nil => exact hpost L K f (fun _ => id) h
  | cons code codes ih =>
    rw [List.foldlM_cons, Discipline.wp_bind]
    refine h.wp_redeemGiftCard user now outletId orderId code (hwhole code) fun L' K' f' hL h' => ?_
    exact ih h' fun L'' K'' f'' hL' => hpost L'' K'' f'' fun k hk => hL' k (hL k hk)

theorem Ready.wp_redeemGiftCardsTx (h : Ready L K f) (user : AuthUser) (now : Time)
    (outletId : String) (orderId : ℕ) (payments : List CardPayment)
    {post : (Hold LockKey → Prop) → (PaymentsDb → Prop) → (PaymentsDb → PaymentsDb) → Unit → Prop}
    (hpost : ∀ L' K' f', (∀ k, L k → L' k) → Ready L' K' f' → post L' K' f' ()) :
    cardTerms.wp (redeemGiftCardsTx user now outletId orderId payments) L K f post := by
  refine Ready.wp_foldlM user now outletId orderId (fun code => ?_) _ h hpost
  refine wholePaise_foldl _ _ fun p hp => ?_
  obtain ⟨q, -, rfl⟩ := List.mem_map.mp (List.mem_filter.mp hp).1
  exact wholePaise_toPaise q.positive.le

/-- A card is inserted under a number that no card has. -/
theorem wp_createCard {n : ℕ} (hn : L (.number n)) (hK : cardTerms.Stable L K)
    (hfresh : ∀ s, K s → ∀ c ∈ s.giftCards, c.id ≠ n) {ts : List Table} (hts : .cards ∉ ts)
    (hf : Touches ts f) {card : GiftCard} (hid : card.id = n) (hnonneg : 0 ≤ card.balance.scaled)
    (type : CardTxnType) (orderId : Option ℕ) (paymentMode : Option IssueMode)
    (userId note : Option String)
    {post : (Hold LockKey → Prop) → (PaymentsDb → Prop) → (PaymentsDb → PaymentsDb) → Unit → Prop}
    (hpost : ∀ L' f', (∀ k, L k → L' k) → cardTerms.Commits L' K f' → post L' K f' ()) :
    cardTerms.wp (createCard card type orderId paymentMode userId note) L K f post := by
  unfold createCard
  simp only [Discipline.wp_bind, wp_acquire, wp_update]
  refine wp_query_any (hK.add _) fun _ => wp_check fun _ => hpost _ _ (fun k => .inr) ?_
  intro s m hs hdrawn hKs
  have hsame : Table.cards.Same s (f s) := hf.same s _ hts
  have hs' : CardsSound (f s) m := hs.same hsame
  have hnew : ∀ c ∈ (f s).giftCards, c.id ≠ card.id := by
    rw [hsame.1, hid]
    exact hfresh s hKs
  have hempty : (f s).ledgerOf card.id = [] := by
    refine Ledger.entries_of_ne fun t ht htid => ?_
    obtain ⟨c, hc, hcid⟩ := hs'.home t ht
    exact hnew c hc (hcid.trans htid)
  have hnum : Discipline.add L (.lock (.cardCode card.tenantId card.code)) (.number card.id) :=
    .inr (hid ▸ hn)
  refine ⟨hs'.putCard (hdrawn _ hnum) rfl rfl ?_ ?_ hnonneg, fun c hc _ => ?_, fun c hc => ?_,
    fun c hc => ?_⟩
  · rw [hempty]
    simp
  · rw [hempty]
    exact Ledger.running_nil
  · exact mem_putCard.mpr (.inr ⟨hsame.1 ▸ hc, hnew c (hsame.1 ▸ hc)⟩)
  · exact ⟨c, mem_putCard.mpr (.inr ⟨hsame.1 ▸ hc, hnew c (hsame.1 ▸ hc)⟩), rfl⟩
  · rcases mem_putCard.mp hc with rfl | ⟨hc, -⟩
    · exact .inl hnum
    · exact .inr ⟨c, hsame.1 ▸ hc, rfl⟩

/-- No card has a number that was just drawn. -/
theorem wp_drawCard (hK : cardTerms.Stable L K)
    {post : (Hold LockKey → Prop) → (PaymentsDb → Prop) → (PaymentsDb → PaymentsDb) → ℕ → Prop}
    (hpost : ∀ n, cardTerms.Stable (Discipline.add L (.number n))
        (fun s => K s ∧ ∀ c ∈ s.giftCards, c.id ≠ n) →
      post (Discipline.add L (.number n)) (fun s => K s ∧ ∀ c ∈ s.giftCards, c.id ≠ n) f n) :
    cardTerms.wp (draw : PaymentTx ℕ) L K f post := by
  refine wp_draw hK fun s n hs hKs => ?_
  have hstable : cardTerms.Stable (Discipline.add L (.number n))
      fun s => ∀ c ∈ s.giftCards, c.id ≠ n := by
    rintro L' s m s' m' - - hother hstep hfresh c hc rfl
    rcases hstep.origin c hc with hL' | ⟨c₀, hc₀, hid⟩
    · exact hother _ (.inl rfl) hL'
    · exact hfresh c₀ hc₀ hid
  exact ⟨_, hstable, fun c hc => (hs.drawn c hc).ne, hpost n ((hK.add _).and hstable)⟩

end Requests

theorem settlePayments_safe (user : AuthUser) (now : Time) (orderId : ℕ) (input : SettlementInput) :
    cardTerms.Safe (settlePayments user now orderId input) := by
  unfold Discipline.Safe settlePayments
  simp only [Discipline.wp_bind, wp_acquire]
  refine wp_query_any stable_true fun _ => wp_require fun order _ => wp_check fun _ =>
    wp_check fun _ => wp_check fun _ => ?_
  refine (ready_id stable_true).wp_redeemGiftCardsTx user now order.outletId order.id _
    fun L K f _ hready => ?_
  have hrest : TxTouches [.orders, .movements] (recordSettlement order input) :=
    writes_recordSettlement (by simp) (by simp) _ _
  exact wp_of_txTouches hrest hready.stable fun L' w _ hL hw =>
    commits_touches hready.commits hL (by simp) hw

/-- Store credit is issued while no cards are touched yet, and what follows touches none. -/
theorem wp_issueStoreCreditTx {L : Hold LockKey → Prop} {K : PaymentsDb → Prop}
    {f : PaymentsDb → PaymentsDb} (hK : cardTerms.Stable L K) {ts : List Table}
    (hts : .cards ∉ ts) (hf : Touches ts f) (user : AuthUser) (outletId code : String)
    {amount : Binary64} (hamount : 0 < amount) (orderId : ℕ) (note : String)
    (phone name : Option String)
    {post : (Hold LockKey → Prop) → (PaymentsDb → Prop) → (PaymentsDb → PaymentsDb) → Unit → Prop}
    (hpost : ∀ L' K' f', (∀ k, L k → L' k) → cardTerms.Stable L' K' → cardTerms.Commits L' K' f' →
      post L' K' f' ()) :
    cardTerms.wp (issueStoreCreditTx user outletId code amount orderId note phone name) L K f
      post := by
  unfold issueStoreCreditTx
  rw [Discipline.wp_bind]
  refine wp_drawCard hK fun n hstable => ?_
  rw [Discipline.wp_bind]
  refine wp_ofExcept fun value hvalue => ?_
  have hnonneg : 0 ≤ value.scaled := Decimal.scaled_nonneg_of_ofNumber
    (Binary64.nonneg_iff.mp hamount.le) (store_eq_ok.mp hvalue)
  exact wp_createCard (.inl rfl) hstable (fun s hs => hs.2) hts hf rfl hnonneg _ _ _ _ _
    fun L' f' hL hcommits =>
      hpost _ _ _ (fun k hk => hL k (.inr hk)) (hstable.anti hL) hcommits

theorem payRefund_commits (user : AuthUser) (order : Order) (input : RefundInput) (code : String)
    {L : Hold LockKey → Prop} {K : PaymentsDb → Prop} {f : PaymentsDb → PaymentsDb}
    (hK : cardTerms.Stable L K) {ts : List Table} (hts : .cards ∉ ts) (hf : Touches ts f) :
    cardTerms.wp (payRefund user order input code) L K f fun L K f _ =>
      cardTerms.Commits L K f := by
  have hcash : ∀ {L K f}, cardTerms.Stable L K → cardTerms.Commits L K f →
      cardTerms.wp (if input.mode = .tender .cash then
          recordCash order.outletId .refund (-input.amount) none
            (some (input.reason.getD "Refund")) (some order.id)
        else return none : PaymentTx (Option ℕ)) L K f fun L K f _ => cardTerms.Commits L K f := by
    intro L K f hK hcommits
    split
    · have hcash : TxTouches [.movements] (recordCash order.outletId .refund (-input.amount) none
          (some (input.reason.getD "Refund")) (some order.id)) :=
        writes_recordCash List.mem_cons_self _ _ _ _ _ _
      exact wp_of_txTouches hcash hK fun L' w _ hL hw => commits_touches hcommits hL (by simp) hw
    · exact hcommits
  unfold payRefund
  simp only [Discipline.wp_bind, whenever]
  split
  · exact wp_issueStoreCreditTx hK hts hf user order.outletId code input.positive order.id
      _ _ _ fun L' K' f' _ => hcash
  · exact hcash hK (commits_touches (ready_id hK).commits (fun _ => id) hts hf)

theorem reserveRefund_safe (gateway : Gateway) (user : AuthUser) (now : Time) (outletId : String)
    (orderId : ℕ) (input : RefundInput) (code : String) :
    cardTerms.Safe (reserveRefund gateway user now outletId orderId input code) := by
  unfold Discipline.Safe reserveRefund
  simp only [Discipline.wp_bind, wp_acquire]
  refine wp_query_any stable_true fun _ => wp_require fun order _ => wp_check fun _ =>
    wp_query_any stable_true fun existing => ?_
  cases existing with
  | some existing =>
    rw [Discipline.wp_bind]
    exact wp_check fun _ => (ready_id stable_true).commits
  | none =>
    simp only [Discipline.wp_bind]
    have hcheck : TxTouches [] (checkRefundable order input) := writes_checkRefundable _ _
    have hsource : TxTouches [] (refundSource order input) := writes_refundSource _ _
    refine wp_of_txTouches hcheck stable_true fun L w _ _ hw =>
      wp_of_txTouches hsource stable_true fun L' w' _ _ hw' => ?_
    refine wp_ofExcept fun amount _ => wp_drawCard stable_true fun n hK => ?_
    have hempty : Touches [.refunds] (w' ∘ w) :=
      ⟨fun s t _ => (hw.comp hw').same s t List.not_mem_nil, (hw.comp hw').rows⟩
    exact payRefund_commits user order input code hK (by simp)
      (hempty.comp (touches_putRefund List.mem_cons_self _))

theorem sellCard_safe (user : AuthUser) (outletId code : String) (input : IssueGiftCardInput) :
    cardTerms.Safe (sellCard user outletId code input) := by
  unfold Discipline.Safe sellCard
  rw [Discipline.wp_bind]
  refine wp_drawCard stable_true fun n hK => ?_
  rw [Discipline.wp_bind]
  refine wp_ofExcept fun value hvalue => ?_
  have hpos : (0 : ℚ) ≤ input.amount.val := by
    have h := input.least
    rw [Binary64.le_def, Binary64.val_ofNat_of_le (by norm_num)] at h
    norm_num at h
    linarith
  rw [Discipline.wp_bind]
  refine wp_createCard (.inl rfl) hK (fun s hs => hs.2) List.not_mem_nil touches_id rfl
    (Decimal.scaled_nonneg_of_ofNumber hpos (store_eq_ok.mp hvalue)) _ _ _ _ _
    fun L' f' hL hcommits => ?_
  have hcash : TxTouches [.movements] (if input.paymentMode = .cash then
      recordCash outletId .payIn input.amount (some "GIFT_CARD_SALE")
        (some ("Gift card " ++ formatGiftCode code)) none
      else return none : PaymentTx (Option ℕ)) := by
    split
    · exact writes_recordCash List.mem_cons_self _ _ _ _ _ _
    · exact Tx.writes_pure _
  exact wp_of_txTouches hcash (hK.anti hL) fun L w _ hL' hw =>
    commits_touches hcommits hL' (by simp) hw

theorem voidCard_safe (user : AuthUser) (id : ℕ) (reason : String) :
    cardTerms.Safe (voidCard user id reason) := by
  unfold Discipline.Safe voidCard
  simp only [Discipline.wp_bind, wp_acquire]
  have hlock : Discipline.add (fun _ => False) (.lock (LockKey.card id)) (.lock (.card id)) :=
    .inl rfl
  refine (ready_id stable_true).wp_findCard hlock (wp_require fun _ hnone => by cases hnone)
    fun card hid hready => wp_require fun _ hcard => ?_
  obtain rfl := Option.some.inj (Option.filter_eq_some_iff.mp hcard).1
  refine wp_check fun _ => wp_ofExcept fun forfeited hforfeited => ?_
  have hready' := hready.putCard (c := { card with status := .void, balance := 0 })
    (t := ⟨card.id, card.issuedOutletId, .void, forfeited, 0, none, none, some user.id, some reason⟩)
    (by rwa [hid]) rfl rfl rfl fun _ => by simp [void_amount hforfeited]
  exact hready'.commits

/-! ### All requests -/

/-- Every request keeps the terms of the gift cards. -/
theorem card_kept (gateway : Gateway) (r : PaymentRequest) :
    cardTerms.Kept (r.run gateway).run := by
  cases r with
  | settle user now orderId input =>
    unfold Terms.Kept PaymentRequest.run quiet settleOrder
    simp only [Process.wp_method_bind]
    exact Process.wp_atomically_of_safe (settlePayments_safe user now orderId input)
      (fun _ _ _ _ _ _ _ => trivial) fun _ _ _ _ _ _ _ => trivial
  | refund user now outletId orderId input code =>
    unfold Terms.Kept PaymentRequest.run quiet Payments.refund assertOutlet
    simp only [Process.wp_method_bind]
    refine Process.wp_guardOr (fun _ => Process.wp_guardOr (fun _ => ?_) fun _ _ _ _ => trivial)
      fun _ _ _ _ => trivial
    refine Process.wp_atomically_of_safe
      (reserveRefund_safe gateway user now outletId orderId input code) (fun reserved _ _ => ?_)
      fun _ _ _ _ _ _ _ => trivial
    have hsubmit : MethodTouches [.refunds] (submitRefund input reserved) :=
      touches_submitRefund List.mem_cons_self _ _
    refine wp_of_methodTouches about_cards hsubmit (by simp) touches_id fun L K f r _ => ?_
    cases r <;> exact fun _ _ _ _ => trivial
  | issueGiftCard user now outletId code input =>
    unfold Terms.Kept PaymentRequest.run quiet issueGiftCard assertOutlet
    simp only [Process.wp_method_bind]
    refine Process.wp_guardOr (fun _ => Process.wp_guardOr (fun _ => ?_) fun _ _ _ _ => trivial)
      fun _ _ _ _ => trivial
    exact Process.wp_atomically_of_safe (sellCard_safe user outletId code input)
      (fun _ _ _ _ _ _ _ => trivial) fun _ _ _ _ _ _ _ => trivial
  | voidGiftCard user id reason =>
    unfold Terms.Kept PaymentRequest.run quiet voidGiftCard
    simp only [Process.wp_method_bind]
    exact Process.wp_atomically_of_safe (voidCard_safe user id reason)
      (fun _ _ _ _ _ _ _ => trivial) fun _ _ _ _ _ _ _ => trivial
  | _ => exact kept_of_touches about_cards (fun _ _ => trivial) (by simp [PaymentRequest.tables])

/-- Before the first card there are no entries. -/
theorem NoPayments.cardsSound {db : PaymentsDb} {n : ℕ} (h : NoPayments db n) : CardsSound db n := by
  constructor <;> simp [h.giftCards, h.giftCardTxns]

/-- In every state that the requests lead to, side by side, a card stands at the sum of its signed
entries, every entry notes the running sum at its point, and nothing is ever overdrawn. -/
theorem card_ledger (gateway : Gateway) {w : PaymentsWorld} (h : (payments gateway).Reachable w) :
    ∀ c ∈ w.db.giftCards,
      c.balance.scaled = ((w.db.ledgerOf c.id).map (·.amount.scaled)).sum ∧
      (∀ before t later, w.db.ledgerOf c.id = before ++ t :: later →
        t.balanceAfter.scaled = ((before ++ [t]).map (·.amount.scaled)).sum) ∧
      0 ≤ c.balance.scaled ∧ ∀ t ∈ w.db.ledgerOf c.id, 0 ≤ t.balanceAfter.scaled := by
  have hreach : (payments gateway).Reach (World.Admits cardTerms.admits) w :=
    h.mono fun w a _ => World.admits_of_forall (fun _ _ _ => trivial) w a
  have hsound : CardsSound w.db w.next :=
    (Terms.holds_of_reach (card_kept gateway) (fun _ _ => NoPayments.cardsSound) hreach).inv
  intro c hc
  exact ⟨hsound.balance c hc, hsound.running c hc, hsound.nonneg c hc, fun t ht =>
    hsound.after t (Ledger.mem_entries.mp ht).1⟩

/-- Two cards are sold side by side, and one of them is voided. -/
def cardRun : List (WorldAction PaymentRequest ProviderReply) :=
  let user : AuthUser := ⟨"u", "t", ["o"]⟩
  let sale : IssueGiftCardInput :=
    ⟨500, by decide +kernel, by decide +kernel, ⟨50000, by decide +kernel⟩, .upi, none, none, none, none⟩
  [.start 0 (.issueGiftCard user 0 "o" "GCAAAA" sale)] ++ WorldAction.steps 0 2 ++
    [.start 1 (.issueGiftCard user 0 "o" "GCBBBB" sale)] ++ WorldAction.steps 1 6 ++ WorldAction.steps 0 4 ++
    [.start 0 (.voidGiftCard user 0 "lost")] ++ WorldAction.steps 0 5

theorem card_ledger_cardRun :
    let w := (payments ⟨false, false⟩).run (.atRest (.withOrders .empty []) 0) cardRun
    (w.db.giftCards.rows.map fun c => (c.id, c.balance.scaled)) = [(1, 50000), (0, 0)] ∧
      ∀ c ∈ w.db.giftCards,
        c.balance.scaled = ((w.db.ledgerOf c.id).map (·.amount.scaled)).sum ∧
        (∀ before t later, w.db.ledgerOf c.id = before ++ t :: later →
          t.balanceAfter.scaled = ((before ++ [t]).map (·.amount.scaled)).sum) ∧
        0 ≤ c.balance.scaled ∧ ∀ t ∈ w.db.ledgerOf c.id, 0 ≤ t.balanceAfter.scaled := by
  have hempty : NoPayments (.withOrders .empty []) 0 :=
    noPayments_withOrders (by simp) (by simp)
  exact ⟨by decide +kernel,
    card_ledger ⟨false, false⟩ (Machine.reachable_run cardRun (reach_atRest hempty))⟩

end StelloKitchens.Payments
