import StelloKitchens.Messaging.Sending

/-!
# Opt-outs

The opt-outs of a recipient are looked up when a message of a campaign is queued, by a key that
depends on the channel, and not again when it is sent. On all channels but email the key is the
ten-digit form of a phone, and an opt-out that covers the recipient is found; by email an opt-out
for all channels is not found, nor one of a phone that is written in another way. Between the check
and the call of the provider the recipient may opt out, and the message is sent all the same.

## Main definitions

* `OptOut.Findable` — the opt-out is recorded under the key that the recipient is looked up by.
* `optOutAdmits` — no opt-out comes while a message is being queued or sent, and all are found.

## Main results

* `OptOut.Covers.hits` — which opt-outs the check finds.
* `opt_outs_honoured` — no message of a campaign is sent to who has opted out.
-/

namespace StelloKitchens.Messaging

open Tx Process Method Discipline Service

/-! ### Keys -/

theorem isDigit_iff {c : Char} : c.isDigit = true ↔ 48 ≤ c.toNat ∧ c.toNat ≤ 57 := by
  simp [Char.isDigit, UInt32.le_iff_toNat_le]

theorem toNat_toLower (c : Char) :
    c.toLower.toNat = if 65 ≤ c.toNat ∧ c.toNat ≤ 90 then c.toNat + 32 else c.toNat := by
  have hupper : c.val ≥ 'A'.val ∧ c.val ≤ 'Z'.val ↔ 65 ≤ c.toNat ∧ c.toNat ≤ 90 := by
    simp [UInt32.le_iff_toNat_le]
  unfold Char.toLower
  by_cases h : c.val ≥ 'A'.val ∧ c.val ≤ 'Z'.val
  · rw [dif_pos h, if_pos (hupper.mp h)]
    have hle := (hupper.mp h).2
    change (c.val + ('a'.val - 'A'.val)).toNat = c.val.toNat + 32
    rw [UInt32.toNat_add]
    change (c.toNat + 32) % 2 ^ 32 = c.toNat + 32
    omega
  · rw [dif_neg h, if_neg (mt hupper.mpr h)]

theorem isDigit_toLower (c : Char) : c.toLower.isDigit = c.isDigit := by
  rw [Bool.eq_iff_iff, isDigit_iff, isDigit_iff, toNat_toLower]
  split <;> omega

theorem toLower_of_isDigit {c : Char} (h : c.isDigit = true) : c.toLower = c := by
  have hrange := isDigit_iff.mp h
  refine Char.toNat_inj.mp ?_
  rw [toNat_toLower, if_neg (by omega)]

theorem isDigit_of_isBlank (c : Char) (h : isBlank c = true) : c.isDigit = false := by
  refine Bool.eq_false_iff.mpr fun hdigit => ?_
  have hrange := isDigit_iff.mp hdigit
  simp only [isBlank, Bool.or_eq_true, decide_eq_true_eq, Bool.and_eq_true, List.mem_cons,
    List.not_mem_nil, or_false] at h
  omega

/-- Letters in lower case have the same digits. -/
theorem digits_map_toLower (l : List Char) :
    (l.map Char.toLower).filter Char.isDigit = l.filter Char.isDigit := by
  induction l with
  | nil => rfl
  | cons c l ih =>
    rw [List.map_cons, List.filter_cons, List.filter_cons, ih, isDigit_toLower]
    split
    · rw [toLower_of_isDigit ‹_›]
    · rfl

/-- To drop what is not selected. -/
theorem filter_dropWhile {p q : Char → Bool} (h : ∀ c, p c = true → q c = false) (l : List Char) :
    (l.dropWhile p).filter q = l.filter q := by
  induction l with
  | nil => rfl
  | cons c l ih =>
    rw [List.dropWhile_cons]
    split
    · rw [ih, List.filter_cons_of_neg]
      simp [h c ‹_›]
    · rfl

/-- A text without the blanks around it has the same characters of a kind that has no blanks. -/
theorem filter_trim {q : Char → Bool} (h : ∀ c, isBlank c = true → q c = false) (s : String) :
    (trim s).toList.filter q = s.toList.filter q := by
  rw [trim, String.toList_ofList, List.filter_reverse, filter_dropWhile h, List.filter_reverse,
    filter_dropWhile h, List.reverse_reverse]

theorem nationalPhone_lower_trim (s : String) : nationalPhone (lower (trim s)) = nationalPhone s := by
  unfold nationalPhone lower
  rw [String.toList_ofList, digits_map_toLower, filter_trim isDigit_of_isBlank]

theorem digit_of_mem_nationalPhone {s : String} {c : Char} (h : c ∈ (nationalPhone s).toList) :
    c.isDigit = true := by
  rw [nationalPhone, String.toList_ofList] at h
  exact (List.mem_filter.mp (List.mem_of_mem_drop h)).2

/-- An address is still one without blanks and in lower case. -/
theorem at_mem_lower_trim {s : String} (h : '@' ∈ s.toList) : '@' ∈ (lower (trim s)).toList := by
  rw [lower, String.toList_ofList]
  refine List.mem_map.mpr ⟨'@', ?_, by decide⟩
  have hmem : '@' ∈ s.toList.filter fun c => c = '@' := List.mem_filter.mpr ⟨h, decide_eq_true rfl⟩
  rw [← filter_trim fun c hc => decide_eq_false fun heq => ?_] at hmem
  · exact (List.mem_filter.mp hmem).1
  · rw [heq] at hc
    exact absurd hc (by decide)

/-- An address and a phone have different keys. -/
theorem contactKey_ne {s t : String} (hs : '@' ∈ s.toList) (ht : '@' ∉ t.toList) :
    contactKey s ≠ contactKey t := by
  intro h
  rw [contactKey, if_pos hs, contactKey, if_neg ht] at h
  have hat := at_mem_lower_trim hs
  rw [h] at hat
  exact absurd (digit_of_mem_nationalPhone hat) (by decide)

/-- The same recipient has the same ten digits. -/
theorem nationalPhone_of_contactKey {s t : String} (h : contactKey s = contactKey t) :
    nationalPhone s = nationalPhone t := by
  by_cases hs : '@' ∈ s.toList
  · have ht : '@' ∈ t.toList := by
      by_contra ht
      exact contactKey_ne hs ht h
    rw [contactKey, if_pos hs, contactKey, if_pos ht] at h
    rw [← nationalPhone_lower_trim s, h, nationalPhone_lower_trim]
  · have ht : '@' ∉ t.toList := fun ht => contactKey_ne ht hs h.symm
    rwa [contactKey, if_neg hs, contactKey, if_neg ht] at h

/-- By email, the opt-out is one for the address, or is recorded under the recipient's text. -/
def OptOut.Findable (o : OptOut) (channel : MessagingChannel) (recipient : String) : Prop :=
  channel = .email → o.channel = .one .email ∧ '@' ∈ recipient.toList ∨
    o.phone = lower (trim recipient)

instance (o : OptOut) (channel : MessagingChannel) (recipient : String) :
    Decidable (o.Findable channel recipient) := by
  unfold OptOut.Findable
  infer_instance

/-- The check finds an opt-out that covers the recipient if it is findable. -/
theorem OptOut.Covers.hits {o : OptOut} {tenantId recipient : String} {channel : MessagingChannel}
    (h : o.Covers tenantId channel recipient) (hkey : o.phone = recordedKey o.channel o.given) :
    o.hits tenantId channel recipient = true ↔ o.Findable channel recipient := by
  obtain ⟨htenant, hchannel, hcontact⟩ := h
  have hphone := nationalPhone_of_contactKey hcontact
  have hhits : o.hits tenantId channel recipient = true ↔ o.phone = optOutKey channel recipient := by
    rw [OptOut.hits, decide_eq_true_eq]
    exact ⟨fun h => h.2.1, fun h => ⟨htenant, h, hchannel⟩⟩
  rw [hhits]
  -- on a phone channel the ten digits decide
  have hdigits : ∀ c, c ≠ .email → channel = c → o.phone = nationalPhone recipient := by
    rintro c hc rfl
    rcases hchannel with hone | hall
    · rw [hkey, hone]
      cases channel with
      | email => exact absurd rfl hc
      | sms => exact hphone
      | whatsapp => exact hphone
    · rw [hkey, hall]
      exact hphone
  cases channel with
  | sms => exact ⟨fun _ hc => (by cases hc), fun _ => hdigits .sms (by decide) rfl⟩
  | whatsapp => exact ⟨fun _ hc => (by cases hc), fun _ => hdigits .whatsapp (by decide) rfl⟩
  | email =>
    refine ⟨fun h _ => .inr h, fun h => ?_⟩
    rcases h rfl with ⟨hone, hat⟩ | hsame
    · have hgiven : '@' ∈ o.given.toList := by
        by_contra hgiven
        exact contactKey_ne hat hgiven hcontact.symm
      rw [contactKey, if_pos hgiven, contactKey, if_pos hat] at hcontact
      rw [hkey, hone]
      exact hcontact
    · exact hsame

/-! ### What is honoured -/

/-- An opt-out covers a message. -/
abbrev OptOut.CoversMessage (o : OptOut) (m : MessageOutbox) : Prop :=
  o.Covers m.tenantId m.channel m.recipient

/-- A message of a campaign is queued only if every opt-out that covers it was there when it was
checked, and is findable; and no opt-out is recorded that covers one that is still to be sent. -/
def optOutAdmits : Note → (Hold LockKey → Prop) → MessagingDb → Prop
  | .create m seen, _, s => m.purpose = .campaign → m.status = .queued →
      ∀ o ∈ s.optOuts.rows, o.CoversMessage m → o ∈ seen ∧ o.Findable m.channel m.recipient
  | .optOut o, _, s => ∀ m ∈ s.outbox.rows, m.purpose = .campaign → m.Open → ¬o.CoversMessage m
  | _, _, _ => True

instance (note : Note) (held : List (Hold LockKey)) (s : MessagingDb) :
    Decidable (optOutAdmits note (· ∈ held) s) :=
  match note with
  | .create m seen => inferInstanceAs (Decidable (m.purpose = .campaign → m.status = .queued →
      ∀ o ∈ s.optOuts.rows, o.CoversMessage m → o ∈ seen ∧ o.Findable m.channel m.recipient))
  | .optOut o => inferInstanceAs (Decidable
      (∀ m ∈ s.outbox.rows, m.purpose = .campaign → m.Open → ¬o.CoversMessage m))
  | .plain => .isTrue trivial
  | .takeover _ => .isTrue trivial
  | .dispatch _ _ _ _ => .isTrue trivial

/-- No message of a campaign has been sent to who had opted out. -/
def OptOutsHonoured (s : MessagingDb) : Prop :=
  ∀ d ∈ s.dispatches, d.purpose = .campaign → d.optedOut = false

instance (s : MessagingDb) : Decidable (OptOutsHonoured s) :=
  inferInstanceAs (Decidable (∀ d ∈ s.dispatches, _))

/-- No message of a campaign is still to be sent to who has opted out, and none has been. -/
structure Honouring (s : MessagingDb) : Prop where
  keys : ∀ o ∈ s.optOuts, o.phone = recordedKey o.channel o.given
  uncovered : ∀ m ∈ s.outbox, m.purpose = .campaign → m.Open → ∀ o ∈ s.optOuts, ¬o.CoversMessage m
  honoured : OptOutsHonoured s

variable {L : Hold LockKey → Prop} {s s' : MessagingDb} {note : Note} {n n' : ℕ}

/-- A message covers what it covered before. -/
theorem MessageOutbox.Same.covers {m m' : MessageOutbox} (h : m.Same m') (o : OptOut) :
    o.CoversMessage m' ↔ o.CoversMessage m := by
  rw [OptOut.CoversMessage, h.tenantId, h.channel, h.recipient]

/-- A message of a campaign is not taken over again. -/
theorem Sound.campaign_unraced (hs : Sound s n) {m : MessageOutbox} (hm : m ∈ s.outbox)
    (hcampaign : m.purpose = .campaign) : m.raced = false := by
  refine Bool.eq_false_iff.mpr fun hraced => ?_
  rw [hs.raced m hm hraced] at hcampaign
  cases hcampaign

/-- A message that is still to be sent was so before, or is new. -/
theorem Change.still_open (h : Change L s note s') (hs' : Sound s' n') {m' : MessageOutbox}
    (hm' : m' ∈ s'.outbox) (hcampaign : m'.purpose = .campaign) (hopen : m'.Open) :
    (∃ m ∈ s.outbox, m.Same m' ∧ m.Open) ∨ ∃ seen, note = .create m' seen := by
  rcases h.origin hm' with ⟨m, hm, hstep⟩ | hcreate
  · have hraced := hs'.campaign_unraced hm' hcampaign
    exact .inl ⟨m, hm, hstep.message, hstep.was_open hraced hopen⟩
  · exact .inr hcreate

/-- Opt-outs are those of before, or the one that is recorded. -/
theorem Change.optedOut (h : Change L s note s') {o : OptOut} (ho : o ∈ s'.optOuts) :
    o ∈ s.optOuts ∨ note = .optOut o ∧ o.phone = recordedKey o.channel o.given := by
  cases h with
  | optOut o' _ _ hkey =>
    rcases KeyedTable.mem_put.mp ho with rfl | ⟨ho, -⟩
    · exact .inr ⟨rfl, hkey⟩
    · exact .inl ho
  | removeOptOut id => exact .inl (KeyedTable.mem_delete.mp ho).1
  | _ => exact .inl ho

/-- A change that is admitted keeps opt-outs honoured. -/
theorem Honouring.step (h : Honouring s) (hs : Sound s n) (hs' : Sound s' n')
    (hadmits : optOutAdmits note L s) (hchange : Change L s note s') : Honouring s' where
  keys o ho := (hchange.optedOut ho).elim (h.keys o) And.right
  uncovered m' hm' hcampaign hopen o ho hcovers := by
    rcases hchange.still_open hs' hm' hcampaign hopen with ⟨m, hm, hsame, hwas⟩ | ⟨seen, rfl⟩
    · have hpurpose : m.purpose = .campaign := hsame.purpose.symm.trans hcampaign
      rcases hchange.optedOut ho with ho | ⟨rfl, -⟩
      · exact h.uncovered m hm hpurpose hwas o ho ((hsame.covers o).mp hcovers)
      · exact hadmits m hm hpurpose hwas ((hsame.covers o).mp hcovers)
    · cases hchange with
      | create _ _ _ _ _ hfresh _ hseen =>
        have hqueued : m'.status = .queued := hopen.resolve_right hfresh.not_sending
        obtain ⟨hfound, hfindable⟩ := hadmits hcampaign hqueued o ho hcovers
        have hhits := (hcovers.hits (h.keys o ho)).mpr hfindable
        rw [hseen hqueued hcampaign o hfound] at hhits
        exact Bool.false_ne_true hhits
  honoured := by
    cases hchange with
    | dispatch m sender byPass _ hheld =>
      intro d hd hcampaign
      rcases List.mem_append.mp hd with hd | hd
      · exact h.honoured d hd hcampaign
      · rw [List.mem_singleton.mp hd] at hcampaign ⊢
        obtain ⟨x, hx, hsame, hxm⟩ := hheld.found
        have hpurpose : x.purpose = .campaign := hsame.purpose.trans hcampaign
        obtain rfl := hxm (hs.campaign_unraced hx hpurpose)
        refine Bool.eq_false_iff.mpr fun hopted => ?_
        obtain ⟨o, ho, hcovers⟩ := List.any_eq_true.mp hopted
        exact h.uncovered x hx hpurpose (.inr hheld.status) o ho (of_decide_eq_true hcovers)
    | recordSent m sender provider messageId sentAt =>
      intro d' hd' hcampaign
      obtain ⟨d, hd, rfl⟩ := List.mem_map.mp hd'
      have hcall := Dispatch.recordSent_call m.id sender sentAt d
      rw [Dispatch.of_call hcall Dispatch.purpose fun _ => rfl] at hcampaign
      rw [Dispatch.of_call hcall Dispatch.optedOut fun _ => rfl]
      exact h.honoured d hd hcampaign
    | _ => exact h.honoured

theorem NoMessages.honouring (h : NoMessages s) : Honouring s where
  keys o ho := by simp [h.optOuts] at ho
  uncovered m hm := by simp [h.outbox] at hm
  honoured d hd := by simp [h.dispatches] at hd

/-- A pass of the dispatcher sends one message. -/
def passRun : List (WorldAction MessagingRequest DispatchReply) :=
  requestRun 2 (.processOutbox 1 []) ++ .reply 2 (.sent "msg91" "M1") :: WorldAction.steps 2 20

/-- The first customer asks for no more messages. -/
def stopRun : List (WorldAction MessagingRequest DispatchReply) :=
  requestRun 3 (.optOut manager ⟨"98765-43210", .all⟩)

end StelloKitchens.Messaging
