import StelloKitchens.Accounts.Escalation

/-!
# Links are used once

Someone who is invited or signs up comes with an email that no one has, so that a link that is
opened twice makes one user. A password reset has nothing of the kind: the token is looked up, and
used later, without another look. And a signup is committed in two parts: in between the restaurant
is there, but the link can still be opened, and the password is not the owner's.

## Main definitions

* `OneTimeLinks` — a link takes effect once, is used up, and its owner can sign in.
* `linkAdmits` — resets are committed for tokens that are unused, and no signup is provisioned.

## Main results

* `one_time_links` — links over all interleavings.
-/

namespace StelloKitchens.Accounts

open Process

/-! ### Links that took effect -/

/-- The link cannot be used any more. -/
def AccountDb.Consumed (s : AccountDb) : Link → Prop
  | .reset k => ∃ t ∈ s.authTokens.rows, t.id = k ∧ t.usedAt ≠ none
  | .invite k => ∃ t ∈ s.authTokens.rows, t.id = k ∧ t.usedAt ≠ none
  | .signup k => ∀ p ∈ s.pendingSignups.rows, p.id ≠ k

instance (s : AccountDb) (link : Link) : Decidable (s.Consumed link) :=
  match link with
  | .reset k => inferInstanceAs (Decidable (∃ t ∈ s.authTokens.rows, t.id = k ∧ t.usedAt ≠ none))
  | .invite k => inferInstanceAs (Decidable (∃ t ∈ s.authTokens.rows, t.id = k ∧ t.usedAt ≠ none))
  | .signup k => inferInstanceAs (Decidable (∀ p ∈ s.pendingSignups.rows, p.id ≠ k))

/-- The password that the owner of an account chose last, with a link. -/
def AccountDb.chosen (s : AccountDb) (userId : ℕ) : Option PasswordHash :=
  ((s.uses.filter fun x => x.userId = userId).getLast?).map (·.password)

/-- The account of a link that took effect can be signed into with the password that its owner
chose. -/
def AccountDb.SignsIn (s : AccountDb) (x : LinkUse) : Prop :=
  ∃ u ∈ s.users.rows, u.id = x.userId ∧ s.chosen u.id = some u.passwordHash

instance (s : AccountDb) (x : LinkUse) : Decidable (s.SignsIn x) :=
  inferInstanceAs (Decidable (∃ u ∈ s.users.rows, _))

/-- Links take effect once; and then they are used up, and the account is its owner's. -/
structure OneTimeLinks (s : AccountDb) : Prop where
  once : s.uses.Pairwise fun x y => x.link ≠ y.link
  consumed : ∀ x ∈ s.uses, s.Consumed x.link
  signsIn : ∀ x ∈ s.uses, s.SignsIn x

def Link.IsReset : Link → Prop
  | .reset _ => True
  | .invite _ => False
  | .signup _ => False

/-- Invitations and signups take effect once, and invitations are used up. -/
structure JoinOnce (s : AccountDb) : Prop where
  once : s.uses.Pairwise fun x y => x.link = y.link → x.link.IsReset
  consumed : ∀ x ∈ s.uses, ∀ k, x.link = .invite k → s.Consumed x.link

/-- A password is reset with a token that is unused when that commits; and no signup is
provisioned. -/
def linkAdmits : Note → (Hold LockKey → Prop) → AccountDb → Prop
  | .reset tokenId, _, s => ∀ t ∈ s.authTokens.rows, t.id = tokenId → t.usedAt = none
  | .provision _, _, _ => False
  | _, _, _ => True

instance (note : Note) (held : List (Hold LockKey)) (s : AccountDb) :
    Decidable (linkAdmits note (· ∈ held) s) :=
  match note with
  | .reset tokenId =>
    inferInstanceAs (Decidable (∀ t ∈ s.authTokens.rows, t.id = tokenId → t.usedAt = none))
  | .provision _ => .isFalse id
  | .plain => .isTrue trivial
  | .grant _ => .isTrue trivial
  | .invite _ _ _ => .isTrue trivial

variable {L : Hold LockKey → Prop} {s s' : AccountDb} {note : Note} {n : ℕ}

/-! ### Who joins comes with an email of their own -/

/-- The email that an invitation or a signup is for. -/
def AccountDb.LinkEmail (s : AccountDb) (email : String) : Link → Prop
  | .reset _ => True
  | .invite k => ∃ t ∈ s.authTokens, t.id = k ∧ t.email = some email
  | .signup k => s.signupEmail k = some email

theorem Change.linkEmail (h : Change L s note s') {email : String} {link : Link}
    (hlink : s.LinkEmail email link) : s'.LinkEmail email link := by
  cases link with
  | reset k => trivial
  | invite k =>
    obtain ⟨t, ht, hid, hemail⟩ := hlink
    obtain ⟨t', ht', hsame, -⟩ := h.keeps_token ht
    exact ⟨t', ht', hsame.id.trans hid, hsame.email.trans hemail⟩
  | signup k => exact h.signupEmail hlink

/-- An invitation or a signup is for one email. -/
theorem linkEmail_unique {a b : String} {link : Link} (ha : s.LinkEmail a link)
    (hb : s.LinkEmail b link) : a = b ∨ link.IsReset := by
  cases link with
  | reset k => exact .inr trivial
  | invite k =>
    obtain ⟨t, ht, hid, hemail⟩ := ha
    obtain ⟨t', ht', hid', hemail'⟩ := hb
    obtain rfl := KeyedTable.eq_of_mem ht ht' (hid.trans hid'.symm)
    exact .inl (Option.some.inj (hemail.symm.trans hemail'))
  | signup k => exact .inl (Option.some.inj (ha.symm.trans hb))

/-- What a commit adds to the links that took effect. -/
theorem Change.uses_cases (h : Change L s note s') : s'.uses = s.uses ∨
    ∃ x, s'.uses = s.uses ++ [x] ∧ (∃ u ∈ s'.users, u.id = x.userId ∧ s'.LinkEmail u.email x.link) ∧
      (x.link.IsReset ∨ ∀ u ∈ s.users, ¬s.LinkEmail u.email x.link) := by
  have hnone : ∀ {email : String} {link : Link}, s.emailTaken email = false →
      s.LinkEmail email link → link.IsReset ∨ ∀ u ∈ s.users, ¬s.LinkEmail u.email link := by
    intro email link hfree hlink
    by_cases hreset : link.IsReset
    · exact .inl hreset
    · refine .inr fun u hu hemail => ?_
      exact emailTaken_eq_false.mp hfree u hu ((linkEmail_unique hemail hlink).resolve_right hreset)
  cases h with
  | accept tokenId u hlock hemail hnumber hnew hfree hrole hhome htoken =>
    have hlink : s.LinkEmail u.email (.invite tokenId) := htoken
    refine .inr ⟨_, rfl, ⟨u, KeyedTable.mem_put.mpr (.inl rfl), rfl, ?_⟩, hnone hfree hlink⟩
    exact (Change.accept tokenId u hlock hemail hnumber hnew hfree hrole hhome htoken).linkEmail hlink
  | reset tokenId userId password huser =>
    obtain ⟨u, hu, rfl⟩ := huser
    exact .inr ⟨_, rfl, ⟨_, (mem_modifyUsers (f := User.resetPassword password) fun _ => rfl).mpr
      ⟨u, hu, rfl⟩, by rw [if_pos rfl]; rfl, trivial⟩, .inl trivial⟩
  | provision tenant roles owner pending _ _ _ _ _ _ _ _ _ hfree hsignup =>
    cases pending with
    | none => exact .inl (List.append_nil _)
    | some p =>
      have hlink : s.LinkEmail owner.email (.signup p.id) := hsignup p rfl
      exact .inr ⟨_, rfl, ⟨owner, KeyedTable.mem_put.mpr (.inl rfl), rfl, hlink⟩, hnone hfree hlink⟩
  | _ => exact .inl rfl

/-- Links that took effect are for the email of their account, and those of invitations are used
up. -/
structure Joined (s : AccountDb) : Prop extends JoinOnce s where
  emails : ∀ x ∈ s.uses, ∃ u ∈ s.users, u.id = x.userId ∧ s.LinkEmail u.email x.link

/-- What is used up stays so. -/
theorem Change.consumed_token (h : Change L s note s') {k : ℕ}
    (hk : ∃ t ∈ s.authTokens, t.id = k ∧ t.usedAt ≠ none) :
    ∃ t ∈ s'.authTokens, t.id = k ∧ t.usedAt ≠ none := by
  obtain ⟨t, ht, hid, hused⟩ := hk
  obtain ⟨t', ht', hsame, hkept⟩ := h.keeps_token ht
  exact ⟨t', ht', hsame.id.trans hid, hkept hused⟩

/-- A token is used up. -/
theorem consumed_useToken {k : ℕ} (h : ∃ t ∈ s.authTokens, t.id = k) :
    ∃ t ∈ (s.useToken k).authTokens, t.id = k ∧ t.usedAt ≠ none := by
  obtain ⟨t, ht, rfl⟩ := h
  exact ⟨t.use s.now, mem_useToken.mpr ⟨t, ht, (if_pos rfl).symm⟩, rfl, Option.some_ne_none _⟩

/-- The token of an invitation or a reset that takes effect is used up. -/
theorem Change.consumed_new (h : Change L s note s') {x : LinkUse} (hx : x ∈ s'.uses)
    (hnew : x ∉ s.uses) {k : ℕ} (hlink : x.link = .invite k ∨ x.link = .reset k) :
    ∃ t ∈ s'.authTokens, t.id = k ∧ t.usedAt ≠ none := by
  cases h with
  | accept tokenId u _ _ _ _ _ _ _ htoken =>
    obtain rfl := List.mem_singleton.mp ((List.mem_append.mp hx).resolve_left hnew)
    obtain ⟨t, ht, hid, -⟩ := htoken
    have hk : tokenId = k := hlink.elim Link.invite.inj fun heq => by cases heq
    exact hk ▸ consumed_useToken ⟨t, ht, hid⟩
  | reset tokenId userId password _ htoken =>
    obtain rfl := List.mem_singleton.mp ((List.mem_append.mp hx).resolve_left hnew)
    have hk : tokenId = k := hlink.elim (fun heq => by cases heq) Link.reset.inj
    exact hk ▸ consumed_useToken htoken
  | provision tenant roles owner pending =>
    rcases List.mem_append.mp hx with hx | hx
    · exact absurd hx hnew
    · obtain ⟨p, -, rfl⟩ := Option.map_eq_some_iff.mp (Option.mem_toList.mp hx)
      rcases hlink with hlink | hlink <;> cases hlink
  | _ => exact absurd hx hnew

/-- Changes keep invitations and signups to one use. -/
theorem Joined.step (hs : Joined s) (h : Change L s note s') : Joined s' := by
  have hemails : ∀ x ∈ s.uses, ∃ u ∈ s'.users, u.id = x.userId ∧ s'.LinkEmail u.email x.link := by
    intro x hx
    obtain ⟨u, hu, hid, hemail⟩ := hs.emails x hx
    obtain ⟨u', hu', hsame⟩ := h.user hu
    exact ⟨u', hu', hsame.id.trans hid, hsame.email.symm ▸ h.linkEmail hemail⟩
  have hconsumed : ∀ x ∈ s'.uses, ∀ k, x.link = .invite k → s'.Consumed x.link := by
    intro x hx k hk
    rw [hk]
    by_cases hold : x ∈ s.uses
    · have hused := hs.consumed x hold k hk
      rw [hk] at hused
      exact h.consumed_token hused
    · exact h.consumed_new hx hold (.inl hk)
  rcases h.uses_cases with hsame | ⟨x, huses, hemail, hfree⟩
  · exact ⟨⟨hsame ▸ hs.once, hconsumed⟩, hsame ▸ hemails⟩
  · refine ⟨⟨?_, hconsumed⟩, ?_⟩
    · rw [huses]
      refine List.pairwise_append.mpr ⟨hs.once, List.pairwise_singleton _ _, fun y hy z hz heq => ?_⟩
      obtain rfl := List.mem_singleton.mp hz
      obtain ⟨u, hu, -, hyemail⟩ := hs.emails y hy
      rw [heq] at hyemail ⊢
      exact hfree.resolve_right fun hnone => hnone u hu hyemail
    · rw [huses]
      intro y hy
      rcases List.mem_append.mp hy with hy | hy
      · exact hemails y hy
      · exact List.mem_singleton.mp hy ▸ hemail

theorem Started.joined (h : Started s n) : Joined s := by
  refine ⟨⟨?_, ?_⟩, ?_⟩ <;> simp [h.uses]

/-! ### Where no reset is used twice -/

/-- The password of a user, by the last use of a link. -/
theorem chosen_append {x : LinkUse} {uses : List LinkUse} {userId : ℕ}
    (huses : s'.uses = uses ++ [x]) : s'.chosen userId =
      if x.userId = userId then some x.password
      else ((uses.filter fun y => y.userId = userId).getLast?).map (·.password) := by
  rw [AccountDb.chosen, huses, List.filter_append]
  by_cases hid : x.userId = userId <;> simp [hid]

/-- Links take effect once, where none is of a signup. -/
structure Direct (s : AccountDb) : Prop extends OneTimeLinks s where
  unsigned : ∀ x ∈ s.uses, ∀ k, x.link ≠ .signup k

/-- A user is still there, with the same password. -/
def AccountDb.Keeps (s' : AccountDb) (u : User) : Prop :=
  ∃ u' ∈ s'.users, u'.id = u.id ∧ u'.passwordHash = u.passwordHash

/-- What an admitted change does to the links that took effect, and to passwords. -/
theorem Direct.cases (hs : Direct s) (h : Change L s note s') (hadmits : linkAdmits note L s) :
    (s'.uses = s.uses ∧ ∀ u ∈ s.users, s'.Keeps u) ∨
    ∃ x, s'.uses = s.uses ++ [x] ∧ (∀ k, x.link ≠ .signup k) ∧
      (x.link.IsReset → ¬s.Consumed x.link) ∧
      (∃ u ∈ s'.users, u.id = x.userId ∧ u.passwordHash = x.password) ∧
      ∀ u ∈ s.users, u.id ≠ x.userId → s'.Keeps u := by
  have hput : ∀ {v u : User}, (∀ x ∈ s.users, x.id ≠ v.id) → u ∈ s.users → u ∈ s.users.put v :=
    fun {v u} hnew hu => KeyedTable.mem_put.mpr (.inr ⟨hu, hnew u hu⟩)
  cases h with
  | assignRole user v r =>
    refine .inl ⟨rfl, fun u hu => ⟨_, mem_assignRole.mpr ⟨u, hu, rfl⟩, ?_⟩⟩
    split <;> exact ⟨rfl, rfl⟩
  | accept tokenId v _ _ _ hnew =>
    exact .inr ⟨_, rfl, (fun k heq => by cases heq), False.elim,
      ⟨v, KeyedTable.mem_put.mpr (.inl rfl), rfl, rfl⟩, fun u hu _ => ⟨u, hput hnew hu, rfl, rfl⟩⟩
  | reset tokenId userId password huser htoken =>
    have hmem : ∀ {u : User}, u ∈ (s.resetPassword tokenId userId password).users ↔
        ∃ v ∈ s.users, u = if v.id = userId then v.resetPassword password else v :=
      fun {u} => mem_modifyUsers (f := User.resetPassword password) fun _ => rfl
    obtain ⟨v, hv, rfl⟩ := huser
    refine .inr ⟨_, rfl, (fun k heq => by cases heq), fun _ hused => ?_,
      ⟨v.resetPassword password, hmem.mpr ⟨v, hv, (if_pos rfl).symm⟩, rfl, rfl⟩,
      fun u hu hne => ⟨u, hmem.mpr ⟨u, hu, (if_neg hne).symm⟩, rfl, rfl⟩⟩
    obtain ⟨t, ht, hid, hused⟩ := hused
    exact hused (hadmits t ht hid)
  | provision tenant roles owner pending _ hnote _ _ _ _ _ _ hnew =>
    cases pending with
    | none => exact .inl ⟨List.append_nil _, fun u hu => ⟨u, hput hnew hu, rfl, rfl⟩⟩
    | some p =>
      rw [hnote p rfl] at hadmits
      exact hadmits.elim
  | finish p ownerId huse => exact absurd rfl (hs.unsigned _ huse p.id)
  | _ => exact .inl ⟨rfl, fun u hu => ⟨u, hu, rfl, rfl⟩⟩

/-- A change that is admitted keeps all links to one use. -/
theorem Direct.step (hs : Direct s) (hjoined : Joined s') (h : Change L s note s')
    (hadmits : linkAdmits note L s) : Direct s' := by
  have hold : ∀ x ∈ s.uses, s'.Consumed x.link := by
    intro x hx
    have hused := hs.consumed x hx
    have hsignup := hs.unsigned x hx
    generalize x.link = link at hused hsignup ⊢
    cases link with
    | reset k => exact h.consumed_token hused
    | invite k => exact h.consumed_token hused
    | signup k => exact absurd rfl (hsignup k)
  rcases hs.cases h hadmits with ⟨hsame, hkept⟩ | ⟨x, huses, hsignup, hunused, huser, hkept⟩
  · refine ⟨⟨hsame ▸ hs.once, hsame ▸ hold, fun x hx => ?_⟩, hsame ▸ hs.unsigned⟩
    obtain ⟨u, hu, hid, hchosen⟩ := hs.signsIn x (hsame ▸ hx)
    obtain ⟨u', hu', hid', hpassword⟩ := hkept u hu
    refine ⟨u', hu', hid'.trans hid, ?_⟩
    rw [hid', hpassword, AccountDb.chosen, hsame]
    exact hchosen
  have hxs' : x ∈ s'.uses := huses ▸ List.mem_append_right _ (List.mem_singleton.mpr rfl)
  refine ⟨⟨?_, ?_, ?_⟩, ?_⟩
  · have hjoin := hjoined.once
    rw [huses] at hjoin ⊢
    obtain ⟨-, -, hjoin⟩ := List.pairwise_append.mp hjoin
    refine List.pairwise_append.mpr ⟨hs.once, List.pairwise_singleton _ _, fun y hy z hz heq => ?_⟩
    obtain rfl := List.mem_singleton.mp hz
    exact hunused (heq ▸ hjoin y hy z hz heq) (heq ▸ hs.consumed y hy)
  · rw [huses]
    intro y hy
    rcases List.mem_append.mp hy with hy | hy
    · exact hold y hy
    obtain rfl := List.mem_singleton.mp hy
    by_cases hxs : y ∈ s.uses
    · exact hold y hxs
    cases hlink : y.link with
    | reset k => exact h.consumed_new hxs' hxs (.inr hlink)
    | invite k => exact h.consumed_new hxs' hxs (.inl hlink)
    | signup k => exact absurd hlink (hsignup k)
  · -- the account that the link is of signs in with the new password, the others as before
    intro y hy
    by_cases hsame : y.userId = x.userId
    · obtain ⟨u, hu, hid, hpassword⟩ := huser
      refine ⟨u, hu, hid.trans hsame.symm, ?_⟩
      rw [chosen_append huses, if_pos hid.symm, hpassword]
    · have hy : y ∈ s.uses := by
        rw [huses] at hy
        refine (List.mem_append.mp hy).resolve_right fun hmem => hsame ?_
        rw [List.mem_singleton.mp hmem]
      obtain ⟨u, hu, hid, hchosen⟩ := hs.signsIn y hy
      have hne : u.id ≠ x.userId := fun heq => hsame (hid.symm.trans heq)
      obtain ⟨u', hu', hid', hpassword⟩ := hkept u hu hne
      refine ⟨u', hu', hid'.trans hid, ?_⟩
      rw [chosen_append huses, hid', if_neg (Ne.symm hne), hpassword]
      exact hchosen
  · rw [huses]
    intro y hy
    rcases List.mem_append.mp hy with hy | hy
    · exact hs.unsigned y hy
    · exact List.mem_singleton.mp hy ▸ hsignup

theorem Started.direct (h : Started s n) : Direct s := by
  refine ⟨⟨?_, ?_, ?_⟩, ?_⟩ <;> simp [h.uses]

/-- In every interleaving, invitations and signups take effect once, and an invitation that has is
used up. Where passwords are reset with tokens that are unused when that commits, and no signup is
provisioned, every link takes effect once, is used up then, and leaves an account that can be signed
into with the password that its owner chose. -/
theorem one_time_links (w : AccountWorld) :
    ((accounts fun _ => True).Reachable w → JoinOnce w.db) ∧
      ((accounts fun _ => True).Reach (World.Admits linkAdmits) w → OneTimeLinks w.db) := by
  have hjoined : ∀ {admitted : Note → (Hold LockKey → Prop) → AccountDb → Prop},
      (accounts fun _ => True).Reach (World.Admits admitted) w → Joined w.db :=
    fun h => account_invariant (fun _ _ hs _ => hs.joined)
      (fun _ _ _ _ _ _ _ hchange hs => hs.step hchange) h
  refine ⟨fun h => ?_, fun h => ?_⟩
  · have hreach : (accounts fun _ => True).Reach (World.Admits fun _ _ _ => True) w :=
      h.mono fun w a _ => World.admits_of_forall (fun _ _ _ => trivial) w a
    exact (hjoined hreach).toJoinOnce
  · have hboth : Joined w.db ∧ Direct w.db :=
      account_invariant (I := fun s => Joined s ∧ Direct s) (fun _ _ hs _ => ⟨hs.joined, hs.direct⟩)
        (fun _ _ _ _ _ _ hadmits hchange hs => ⟨hs.1.step hchange,
          hs.2.step (hs.1.step hchange) hchange hadmits⟩) h
    exact hboth.2.toOneTimeLinks

/-! ### Two uses of one link -/

/-- A user asks for a link to reset the password. -/
def linkRun : List (WorldAction AccountRequest Empty) :=
  accountRun 1 (.requestReset "ravi@cafe" "secret")

/-- The link is opened twice, and both have looked the token up before it is used. -/
def twiceRun (steps : ℕ) : List (WorldAction AccountRequest Empty) :=
  linkRun ++ .start 1 (.resetPassword "secret" "first-choice") :: WorldAction.steps 1 steps ++
    accountRun 2 (.resetPassword "secret" "second-choice") ++ WorldAction.steps 1 40

/-- A reset link can be used twice. -/
theorem not_one_time_links :
    ¬∀ w, (accounts fun _ => True).Reachable w → OneTimeLinks w.db := by
  intro h
  have honce := (h _ (Machine.reachable_run (twiceRun 1)
    (.init ⟨⟨twoOwners_started, trivial⟩, rfl, rfl⟩ :
      (accounts fun _ => True).Reachable (.atRest twoOwners 6)))).once
  revert honce
  decide +kernel

/-- A link that is opened a second time when it has been used. -/
theorem one_time_links_reset :
    let w := (accounts fun _ => True).run (.atRest twoOwners 6) (twiceRun 40)
    w.db.uses.map (·.password) = [⟨"first-choice"⟩] ∧ JoinOnce w.db ∧ OneTimeLinks w.db :=
  ⟨by decide +kernel,
    (one_time_links _).1 (Machine.reachable_run _ (.init ⟨⟨twoOwners_started, trivial⟩, rfl, rfl⟩)),
    (one_time_links _).2 (Machine.reach_run _ (.init ⟨⟨twoOwners_started, trivial⟩, rfl, rfl⟩)
      (by decide +kernel))⟩

end StelloKitchens.Accounts
