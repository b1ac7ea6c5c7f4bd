import StelloKitchens.Printing.Jobs

/-!
# One outcome per claim

A print job that is being printed is held by one claim, which is on record with its number, its
agent and its time. A report changes a job that is held by a claim of the time at which the report
found it claimed, so it changes the job only for the claim that it found. Whether that is the claim
that it reports on, only the agent's id tells: a late report of the same agent, or of one that does
not name itself, counts for the claim that holds the job now.

A printed job is left as it is by claims, reports and cancellations, which look at its status under
its lock. To queue a job again looks at the status before, and not when it writes.

## Main definitions

* `Sound`, `PrintStep` — what holds of the tables, and what a commit does to them.
* `claimTerms` — the terms of claims and reports.

## Main results

* `claim_kept` — every request keeps the terms.
* `one_outcome` — reports and printed jobs over all interleavings.
-/

namespace StelloKitchens.Printing

open Checked Tx Process Method Discipline Service

/-! ### The invariant -/

def PrintDb.claimsOn (db : PrintDb) (jobId : ℕ) : List Claim := db.claims.filter (·.jobId = jobId)

def PrintDb.outcomesOf (db : PrintDb) (jobId : ℕ) : List Outcome :=
  db.outcomes.filter (·.jobId = jobId)

/-- This claim holds the job. -/
structure Claim.Holds (c : Claim) (j : PrintJob) : Prop where
  job : c.jobId = j.id
  number : c.number = j.attempts
  agent : j.claimedBy = some c.agentId
  time : j.claimedAt = some c.claimedAt

/-- Two claims, if they are on the same job, differ in number and time. -/
def Claim.Apart (c c' : Claim) : Prop :=
  c.jobId = c'.jobId → c.number ≠ c'.number ∧ c.claimedAt ≠ c'.claimedAt

instance : Std.Symm Claim.Apart where
  symm _ _ h hjob := ⟨(h hjob.symm).1.symm, (h hjob.symm).2.symm⟩

/-- What holds of the tables. -/
structure Sound (db : PrintDb) (n : ℕ) : Prop where
  fresh : ∀ j ∈ db.printJobs, j.id < n
  held : ∀ j ∈ db.printJobs, j.status = .printing → ∃ c ∈ db.claims, c.Holds j
  numbered : ∀ c ∈ db.claims, ∃ j ∈ db.printJobs, c.jobId = j.id ∧ c.number ≤ j.attempts
  apart : db.claims.Pairwise Claim.Apart
  reported : ∀ o ∈ db.outcomes, o.reported = o.held
  /-- The claim that was reported on does not hold the job any more. -/
  closed : ∀ o ∈ db.outcomes, ∃ j ∈ db.printJobs, o.jobId = j.id ∧
    (o.held < j.attempts ∨ o.held = j.attempts ∧ j.status ≠ .printing)
  once : db.outcomes.Pairwise fun o o' => o.jobId = o'.jobId → o.held ≠ o'.held

/-- Printed jobs stay as they are, but for their printers, and are neither claimed nor reported on
again. -/
def KeepsPrinted (s s' : PrintDb) : Prop :=
  ∀ j ∈ s.printJobs, j.status = .printed → ∃ j' ∈ s'.printJobs,
    { j' with printerId := j.printerId } = j ∧ s'.claimsOn j.id = s.claimsOn j.id ∧
      s'.outcomesOf j.id = s.outcomesOf j.id

theorem KeepsPrinted.refl (s : PrintDb) : KeepsPrinted s s := fun j hj _ => ⟨j, hj, rfl, rfl, rfl⟩

theorem KeepsPrinted.trans {s s' s'' : PrintDb} (h : KeepsPrinted s s') (h' : KeepsPrinted s' s'') :
    KeepsPrinted s s'' := by
  intro j hj hprinted
  obtain ⟨j', hj', hsame, hclaims, houtcomes⟩ := h j hj hprinted
  have hid : j'.id = j.id := by rw [← hsame]
  have hstatus : j'.status = j.status := by rw [← hsame]
  obtain ⟨j'', hj'', hsame', hclaims', houtcomes'⟩ := h' j' hj' (hstatus.trans hprinted)
  refine ⟨j'', hj'', ?_, ?_, ?_⟩
  · rw [← hsame, ← hsame']
  · rw [← hid, hclaims', hid, hclaims]
  · rw [← hid, houtcomes', hid, houtcomes]

/-- What the commit of who holds these does to the tables. -/
structure PrintStep (L : Hold LockKey → Prop) (s s' : PrintDb) : Prop where
  jobs : TableStep LockKey.job L s.printJobs s'.printJobs
  claims : s.claims ⊆ s'.claims
  printed : KeepsPrinted s s'

/-- The terms of claims and reports. No job is claimed twice at the same time. A report of another
claim than the one that holds the job is sent by another agent, which names itself. No job is
queued again that was printed since it was found to have failed. -/
def claimTerms : Terms PrintDb LockKey Note (Except ServiceError (List PrintJob)) where
  inv := Sound
  step := PrintStep
  inv_mono hle h := { h with fresh := fun j hj => (h.fresh j hj).trans_le hle }
  admits note _ db := match note with
    | .plain => True
    | .claimed jobIds claimedAt => ∀ c ∈ db.claims, c.jobId ∈ jobIds → c.claimedAt ≠ claimedAt
    | .completed jobId claimedAt agentId claim => ∀ j ∈ db.printJobs.rows, j.id = jobId →
        j.status = .printing → j.claimedAt = claimedAt →
          j.attempts = claim ∨ otherAgent agentId j.claimedBy = true
    | .retried jobId => ∀ j ∈ db.printJobs.rows, j.id = jobId → j.status ≠ .printed
  said _ _ := True
  said_step _ _ _ h := h

instance (note : Note) (held : List (Hold LockKey)) (db : PrintDb) :
    Decidable (claimTerms.admits note (· ∈ held) db) :=
  match note with
  | .plain => .isTrue trivial
  | .claimed jobIds claimedAt => inferInstanceAs
      (Decidable (∀ c ∈ db.claims, c.jobId ∈ jobIds → c.claimedAt ≠ claimedAt))
  | .completed jobId claimedAt agentId claim => inferInstanceAs
      (Decidable (∀ j ∈ db.printJobs.rows, j.id = jobId → j.status = .printing →
        j.claimedAt = claimedAt → j.attempts = claim ∨ otherAgent agentId j.claimedBy = true))
  | .retried jobId => inferInstanceAs
      (Decidable (∀ j ∈ db.printJobs.rows, j.id = jobId → j.status ≠ .printed))

theorem regular : claimTerms.toDiscipline.Regular where
  refl _ s := ⟨.refl _, fun _ h => h, .refl s⟩
  trans _ _ _ _ h h' :=
    ⟨h.jobs.trans h'.jobs, fun _ hc => h'.claims (h.claims hc), h.printed.trans h'.printed⟩
  mono _ _ _ _ hL h := ⟨h.jobs.mono hL, h.claims, h.printed⟩

theorem job_guards (id : ℕ) :
    claimTerms.toDiscipline.Guards (.job id) fun db => db.findJob id :=
  @TableStep.guards _ _ _ _ _ claimTerms.toDiscipline PrintDb.printJobs (fun _ _ _ h => h.jobs) id

/-! ### Writes -/

section Writes

variable {L : Hold LockKey → Prop} {s : PrintDb} {n : ℕ}

/-- The tables are kept sound, and a commit may do this. -/
def Keeping (L : Hold LockKey → Prop) (s : PrintDb) (n : ℕ) (s' : PrintDb) : Prop :=
  Sound s' n ∧ PrintStep L s s'

theorem mem_updateJob {id : ℕ} {f : PrintJob → PrintJob} (hf : ∀ j, (f j).id = j.id)
    {x : PrintJob} : x ∈ (s.updateJob id f hf).printJobs ↔
      ∃ j ∈ s.printJobs, x = if j.id = id then f j else j := by
  refine (KeyedTable.mem_modify hf).trans ?_
  simp only [decide_eq_true_eq]

theorem tableStep_updateJob {id : ℕ} (hlock : L (.lock (.job id))) {f : PrintJob → PrintJob}
    (hf : ∀ j, (f j).id = j.id) :
    TableStep LockKey.job L s.printJobs (s.updateJob id f hf).printJobs :=
  .modify hf fun _ _ hp => of_decide_eq_true hp ▸ hlock

/-- Jobs, claims and outcomes are as before. -/
theorem keeping_of_same {s' : PrintDb} (hs : Sound s n) (hjobs : s'.printJobs = s.printJobs)
    (hclaims : s'.claims = s.claims) (houtcomes : s'.outcomes = s.outcomes) : Keeping L s n s' := by
  cases s
  cases s'
  cases hjobs
  cases hclaims
  cases houtcomes
  exact ⟨⟨hs.fresh, hs.held, hs.numbered, hs.apart, hs.reported, hs.closed, hs.once⟩,
    .refl _, fun _ h => h, fun j hj _ => ⟨j, hj, rfl, rfl, rfl⟩⟩

/-- The change of a job that does not claim it, and leaves it if it is printed. -/
structure Quiet (f : PrintJob → PrintJob) (j : PrintJob) : Prop where
  attempts : (f j).attempts = j.attempts
  printing : (f j).status = .printing →
    j.status = .printing ∧ (f j).claimedBy = j.claimedBy ∧ (f j).claimedAt = j.claimedAt
  printed : j.status = .printed → { f j with printerId := j.printerId } = j

/-- A job is updated that is locked. -/
theorem keeping_updateJob (hs : Sound s n) {id : ℕ} (hlock : L (.lock (.job id)))
    {f : PrintJob → PrintJob} (hf : ∀ j, (f j).id = j.id)
    (hquiet : ∀ j ∈ s.printJobs, j.id = id → Quiet f j) : Keeping L s n (s.updateJob id f hf) := by
  have hmem : ∀ j ∈ s.printJobs, (if j.id = id then f j else j) ∈ (s.updateJob id f hf).printJobs :=
    fun j hj => (mem_updateJob hf).mpr ⟨j, hj, rfl⟩
  have hattempts : ∀ j ∈ s.printJobs, (if j.id = id then f j else j).attempts = j.attempts := by
    intro j hj
    split
    · exact (hquiet j hj ‹_›).attempts
    · rfl
  have hid : ∀ j : PrintJob, (if j.id = id then f j else j).id = j.id := by
    intro j
    split
    · exact hf j
    · rfl
  have hprinting : ∀ j ∈ s.printJobs, (if j.id = id then f j else j).status = .printing →
      j.status = .printing ∧ (if j.id = id then f j else j).claimedBy = j.claimedBy ∧
        (if j.id = id then f j else j).claimedAt = j.claimedAt := by
    intro j hj
    split
    · exact (hquiet j hj ‹_›).printing
    · exact fun h => ⟨h, rfl, rfl⟩
  refine ⟨⟨fun x hx => ?_, fun x hx hstatus => ?_, fun c hc => ?_, hs.apart, hs.reported,
    fun o ho => ?_, hs.once⟩, tableStep_updateJob hlock hf, fun _ h => h, fun j hj hprinted => ?_⟩
  · obtain ⟨j, hj, rfl⟩ := (mem_updateJob hf).mp hx
    rw [hid]
    exact hs.fresh j hj
  · obtain ⟨j, hj, rfl⟩ := (mem_updateJob hf).mp hx
    obtain ⟨hstatus, hby, hat⟩ := hprinting j hj hstatus
    obtain ⟨c, hc, hholds⟩ := hs.held j hj hstatus
    exact ⟨c, hc, hholds.job.trans (hid j).symm, hholds.number.trans (hattempts j hj).symm,
      hby.trans hholds.agent, hat.trans hholds.time⟩
  · obtain ⟨j, hj, hjob, hnumber⟩ := hs.numbered c hc
    exact ⟨_, hmem j hj, hjob.trans (hid j).symm, hnumber.trans (hattempts j hj).ge⟩
  · obtain ⟨j, hj, hjob, hover⟩ := hs.closed o ho
    refine ⟨_, hmem j hj, hjob.trans (hid j).symm, ?_⟩
    rw [hattempts j hj]
    exact hover.imp_right fun h => ⟨h.1, fun hp => h.2 (hprinting j hj hp).1⟩
  · refine ⟨_, hmem j hj, ?_, rfl, rfl⟩
    split
    · exact (hquiet j hj ‹_›).printed hprinted
    · rfl

/-- A job is claimed that is locked and not printed. -/
theorem keeping_claimJob (hs : Sound s n) {id : ℕ} (hlock : L (.lock (.job id))) {agentId : AgentId}
    {now : Time} {j : PrintJob} (hfind : s.findJob id = some j) (hstatus : j.status ≠ .printed)
    (hnew : ∀ c ∈ s.claims, c.jobId = id → c.claimedAt ≠ now) :
    Keeping L s n (s.claimJob id agentId now) := by
  obtain ⟨hj, rfl⟩ := KeyedTable.find?_eq_some.mp hfind
  have hclaims : (s.claimJob j.id agentId now).claims =
      s.claims ++ [⟨j.id, j.attempts + 1, agentId, now⟩] := by
    simp only [PrintDb.claimJob, hfind, Option.map_some, Option.toList_some]
  have hmem : ∀ i ∈ s.printJobs, (if i.id = j.id then i.claim agentId now else i) ∈
      (s.claimJob j.id agentId now).printJobs := fun i hi =>
    (mem_updateJob (f := (·.claim agentId now)) fun _ => rfl).mpr ⟨i, hi, rfl⟩
  have hid : ∀ i : PrintJob, (if i.id = j.id then i.claim agentId now else i).id = i.id := by
    intro i
    split <;> rfl
  have hattempts : ∀ i : PrintJob,
      i.attempts ≤ (if i.id = j.id then i.claim agentId now else i).attempts := by
    intro i
    split
    · exact Nat.le_succ _
    · rfl
  have hrows := tableStep_updateJob (s := s) (f := (·.claim agentId now)) hlock fun _ => rfl
  refine ⟨⟨fun x hx => ?_, fun x hx hprinting => ?_, fun c hc => ?_, ?_, hs.reported,
    fun o ho => ?_, hs.once⟩, hrows, ?_, fun i hi hprinted => ?_⟩
  · obtain ⟨i, hi, rfl⟩ := (mem_updateJob (f := (·.claim agentId now)) fun _ => rfl).mp hx
    rw [hid]
    exact hs.fresh i hi
  · obtain ⟨i, hi, rfl⟩ := (mem_updateJob (f := (·.claim agentId now)) fun _ => rfl).mp hx
    rw [hclaims]
    by_cases hi' : i.id = j.id
    · obtain rfl := KeyedTable.eq_of_mem hi hj hi'
      rw [if_pos rfl]
      exact ⟨_, List.mem_append_right _ (List.mem_singleton_self _), rfl, rfl, rfl, rfl⟩
    · rw [if_neg hi'] at hprinting ⊢
      obtain ⟨c, hc, hholds⟩ := hs.held i hi hprinting
      exact ⟨c, List.mem_append_left _ hc, hholds⟩
  · rw [hclaims] at hc
    rcases List.mem_append.mp hc with hc | hc
    · obtain ⟨i, hi, hjob, hnumber⟩ := hs.numbered c hc
      exact ⟨_, hmem i hi, hjob.trans (hid i).symm, hnumber.trans (hattempts i)⟩
    · obtain rfl := List.mem_singleton.mp hc
      refine ⟨_, hmem j hj, (hid j).symm, ?_⟩
      rw [if_pos rfl]
      rfl
  · rw [hclaims, List.pairwise_append]
    refine ⟨hs.apart, List.pairwise_singleton _ _, fun c hc c' hc' hjob => ?_⟩
    obtain rfl := List.mem_singleton.mp hc'
    obtain ⟨i, hi, hjob', hnumber⟩ := hs.numbered c hc
    obtain rfl := KeyedTable.eq_of_mem hi hj (hjob'.symm.trans hjob)
    exact ⟨fun h => absurd (h ▸ hnumber) (Nat.not_succ_le_self _), hnew c hc hjob⟩
  · obtain ⟨i, hi, hjob, hover⟩ := hs.closed o ho
    refine ⟨_, hmem i hi, hjob.trans (hid i).symm, ?_⟩
    by_cases hi' : i.id = j.id
    · rw [if_pos hi']
      exact .inl (Nat.lt_succ_of_le (hover.elim Nat.le_of_lt fun h => h.1.le))
    · rw [if_neg hi']
      exact hover
  · rw [hclaims]
    exact List.subset_append_left _ _
  · have hne : i.id ≠ j.id := by
      intro h
      rw [KeyedTable.eq_of_mem hi hj h] at hprinted
      exact hstatus hprinted
    refine ⟨i, by simpa only [if_neg hne] using hmem i hi, rfl, ?_, rfl⟩
    rw [PrintDb.claimsOn, hclaims, List.filter_append]
    simp [PrintDb.claimsOn, hne.symm]

/-- A job is reported on that is locked and held by the claim of the report. -/
theorem keeping_completeJob (hs : Sound s n) {id : ℕ} (hlock : L (.lock (.job id))) {now : Time}
    {input : CompletePrintJobInput} {claim : ℕ} {j : PrintJob} (hfind : s.findJob id = some j)
    (hstatus : j.status = .printing) (hclaim : j.attempts = claim) :
    Keeping L s n (s.completeJob id now input claim) := by
  obtain ⟨hj, rfl⟩ := KeyedTable.find?_eq_some.mp hfind
  have hquiet : ∀ i ∈ s.printJobs, i.id = j.id → Quiet (·.complete now input) i := by
    intro i hi hid
    obtain rfl := KeyedTable.eq_of_mem hi hj hid
    refine ⟨?_, fun h => ?_, fun h => ?_⟩
    · unfold PrintJob.complete
      split <;> rfl
    · unfold PrintJob.complete at h
      split at h <;> cases h
    · rw [hstatus] at h
      cases h
  obtain ⟨hsound, hstep⟩ :=
    keeping_updateJob hs hlock (PrintDb.id_complete now input) hquiet
  have houtcomes : (s.completeJob j.id now input claim).outcomes =
      s.outcomes ++ [⟨j.id, claim, j.attempts, input.ok⟩] := by
    simp only [PrintDb.completeJob, hfind, Option.map_some, Option.toList_some]
  refine ⟨⟨hsound.fresh, hsound.held, hsound.numbered, hsound.apart, fun o ho => ?_, fun o ho => ?_,
    ?_⟩, hstep.jobs, hstep.claims, fun i hi hprinted => ?_⟩
  · rw [houtcomes] at ho
    rcases List.mem_append.mp ho with ho | ho
    · exact hs.reported o ho
    · rw [List.mem_singleton.mp ho]
      exact hclaim.symm
  · rw [houtcomes] at ho
    rcases List.mem_append.mp ho with ho | ho
    · exact hsound.closed o ho
    · obtain rfl := List.mem_singleton.mp ho
      refine ⟨j.complete now input,
        (mem_updateJob (PrintDb.id_complete now input)).mpr ⟨j, hj, (if_pos rfl).symm⟩,
        (PrintDb.id_complete now input j).symm, .inr ⟨(hquiet j hj rfl).attempts.symm, fun h => ?_⟩⟩
      unfold PrintJob.complete at h
      split at h <;> cases h
  · rw [houtcomes, List.pairwise_append]
    refine ⟨hs.once, List.pairwise_singleton _ _, fun o ho o' ho' hjob hheld => ?_⟩
    obtain rfl := List.mem_singleton.mp ho'
    obtain ⟨i, hi, hid, hover⟩ := hs.closed o ho
    obtain rfl := KeyedTable.eq_of_mem hi hj (hid.symm.trans hjob)
    rcases hover with hlt | ⟨-, hnot⟩
    · exact hlt.ne hheld
    · exact hnot hstatus
  · obtain ⟨i', hi', hsame, hclaims, -⟩ := hstep.printed i hi hprinted
    have hne : j.id ≠ i.id := by
      intro h
      rw [← KeyedTable.eq_of_mem hj hi h, hstatus] at hprinted
      cases hprinted
    refine ⟨i', hi', hsame, hclaims, ?_⟩
    rw [PrintDb.outcomesOf, houtcomes, List.filter_append]
    simp [PrintDb.outcomesOf, hne]

/-- A job is inserted under a number that was drawn. -/
theorem keeping_put (hs : Sound s n) {j : PrintJob} (hlock : L (.lock (.job j.id)))
    (hnumber : L (.number j.id)) (hlt : j.id < n) (hnew : s.printJobs.find? j.id = none)
    (hstatus : j.status = .queued) :
    Keeping L s n { s with printJobs := s.printJobs.put j } := by
  have hmem : ∀ i ∈ s.printJobs, i ∈ s.printJobs.put j := fun i hi =>
    KeyedTable.mem_put.mpr (.inr ⟨hi, KeyedTable.find?_eq_none.mp hnew i hi⟩)
  refine ⟨⟨fun i hi => ?_, fun i hi hprinting => ?_, fun c hc => ?_, hs.apart, hs.reported,
    fun o ho => ?_, hs.once⟩, .put hlock fun _ => hnumber, fun _ h => h,
      fun i hi _ => ⟨i, hmem i hi, rfl, rfl, rfl⟩⟩
  · rcases KeyedTable.mem_put.mp hi with rfl | ⟨hi, -⟩
    · exact hlt
    · exact hs.fresh i hi
  · rcases KeyedTable.mem_put.mp hi with rfl | ⟨hi, -⟩
    · rw [hstatus] at hprinting
      cases hprinting
    · exact hs.held i hi hprinting
  · obtain ⟨i, hi, h⟩ := hs.numbered c hc
    exact ⟨i, hmem i hi, h⟩
  · obtain ⟨i, hi, h⟩ := hs.closed o ho
    exact ⟨i, hmem i hi, h⟩

theorem findJob_updateJob (id i : ℕ) {f : PrintJob → PrintJob} (hf : ∀ j, (f j).id = j.id) :
    (s.updateJob id f hf).findJob i = (s.findJob i).map fun j => if j.id = id then f j else j := by
  refine (KeyedTable.find?_modify hf i).trans ?_
  simp only [decide_eq_true_eq]
  rfl

theorem findJob_claimJob_of_ne {id i : ℕ} (hne : i ≠ id) (agentId : AgentId) (now : Time) :
    (s.claimJob id agentId now).findJob i = s.findJob i := by
  refine (findJob_updateJob id i (f := (·.claim agentId now)) fun _ => rfl).trans ?_
  cases h : s.findJob i with
  | none => rfl
  | some j =>
    obtain ⟨-, rfl⟩ := KeyedTable.find?_eq_some.mp h
    rw [Option.map_some, if_neg hne]

end Writes

/-! ### Transactions -/

section Transactions

variable {L : Hold LockKey → Prop} {K : PrintDb → Prop}

/-- The jobs of a claim are picked once each. -/
theorem nodup_deliverable (db : PrintDb) (tenantId outletId : String) (input : ClaimPrintJobsInput)
    (mineUserId : Option String) (now : Time) :
    ((db.deliverable tenantId outletId input mineUserId now).map Prod.fst).Nodup := by
  have hsub : ∀ (g : PrintJob → Option (ℕ × ℕ)), (∀ j p, g j = some p → p.1 = j.id) →
      ∀ l : List PrintJob, ((l.filterMap g).map Prod.fst).Sublist (l.map PrintJob.id) := by
    intro g hg l
    induction l with
    | nil => exact .slnil
    | cons j l ih =>
      cases h : g j with
      | none =>
        rw [List.filterMap_cons_none h]
        exact ih.cons _
      | some p =>
        rw [List.filterMap_cons_some h, List.map_cons, List.map_cons, hg j p h]
        exact ih.cons_cons _
  refine List.Nodup.sublist (hsub _ (fun j p h => ?_) _) ?_
  · simp only [Option.bind_eq_bind, Option.bind_eq_some_iff] at h
    obtain ⟨_, _, _, _, h⟩ := h
    rw [← Option.some.inj h]
  · refine ((List.perm_insertionSort _ _).map PrintJob.id).nodup_iff.mpr ?_
    exact db.printJobs.nodup_keys.sublist (List.filter_sublist.map _)

/-- Between the claims of single jobs: what is claimed is on record, and nothing else has
changed. -/
structure Claiming (now : Time) (done claimed : List ℕ) (L : Hold LockKey → Prop)
    (K : PrintDb → Prop) (f : PrintDb → PrintDb) : Prop where
  stable : claimTerms.Stable L K
  sub : ∀ id ∈ claimed, id ∈ done
  commits : claimTerms.Commits L
    (fun s => K s ∧ ∀ c ∈ s.claims, c.jobId ∈ claimed → c.claimedAt ≠ now) f
  frame : ∀ s id, id ∉ claimed → (f s).findJob id = s.findJob id
  claims : ∀ s, ∀ c ∈ (f s).claims, c ∈ s.claims ∨ c.jobId ∈ claimed

/-- One more job is claimed. -/
theorem Claiming.claim {now : Time} {done claimed : List ℕ} {f : PrintDb → PrintDb}
    (h : Claiming now done claimed L K f) {id : ℕ} (hid : id ∉ done) {p : PrintJob → Bool}
    (hp : ∀ j, p j = true → j.status ≠ .printed) (agentId : AgentId) :
    Claiming now (done ++ [id]) (claimed ++ [id]) (add L (.lock (.job id)))
      (fun s => K s ∧ (s.findJob id).any p = true) (PrintDb.claimJob id agentId now ∘ f) := by
  have hnot : id ∉ claimed := fun hmem => hid (h.sub id hmem)
  refine ⟨(h.stable.add _).and ((job_guards id).stable (.inl rfl) (·.any p = true)),
    fun i hi => ?_, ?_, fun s i hi => ?_, fun s c hc => ?_⟩
  · rw [List.mem_append] at hi ⊢
    exact hi.imp_left (h.sub i)
  · refine regular.commits_comp (regular.commits_mono h.commits (fun _ => .inr) fun s hs =>
      ⟨hs.1.1, fun c hc hjob => hs.2 c hc (List.mem_append_left _ hjob)⟩) ?_
    rintro s n - - ⟨⟨-, hcond⟩, hadmits⟩ hinv
    obtain ⟨j, hj, hpj⟩ := (Option.any_eq_true _ _).mp hcond
    refine keeping_claimJob hinv (.inl rfl) ((h.frame s id hnot).trans hj) (hp j hpj)
      fun c hc hjob => ?_
    rcases h.claims s c hc with hc | hc
    · exact hadmits c hc (by rw [hjob]; simp)
    · exact absurd (hjob ▸ hc) hnot
  · rw [List.mem_append, not_or, List.mem_singleton] at hi
    rw [Function.comp_apply, findJob_claimJob_of_ne hi.2, h.frame s i hi.1]
  · rw [List.mem_append, List.mem_singleton]
    rcases List.mem_append.mp hc with hc | hc
    · exact (h.claims s c hc).imp_right .inl
    · obtain ⟨j, -, rfl⟩ := Option.map_eq_some_iff.mp (Option.mem_toList.mp hc)
      exact .inr (.inr rfl)

theorem Claiming.miss {now : Time} {done claimed : List ℕ} {f : PrintDb → PrintDb}
    (h : Claiming now done claimed L K f) {L' : Hold LockKey → Prop} (hL : Extends L L') (id : ℕ) :
    Claiming now (done ++ [id]) claimed L' K f :=
  ⟨h.stable.anti hL.holds, fun i hi => List.mem_append_left _ (h.sub i hi),
    regular.commits_mono h.commits hL.holds fun _ hs => hs, h.frame, h.claims⟩

/-- The jobs of a claim are claimed one by one. -/
theorem keeps_claimTx (tenantId outletId : String) (input : ClaimPrintJobsInput)
    (mineUserId : Option String) (now : Time) (skipped : List ℕ) :
    (atomically (.claimed · now) (claimTx tenantId outletId input mineUserId now skipped) :
      PrintMethod (List ℕ)).Keeps claimTerms.toDiscipline claimTerms.admits := by
  refine keeps_atomically fun L K _ hK => ?_
  unfold claimTx
  rw [Discipline.wp_bind]
  refine wp_query hK fun s n _ _ => ⟨fun _ => True, stable_true, trivial, ?_⟩
  have hnodup := (nodup_deliverable s tenantId outletId input mineUserId now).sublist
    (((List.take_sublist (input.limit.getD 5) _).trans
      (List.filter_sublist (p := fun p => decide (p.1 ∉ skipped)))).map Prod.fst)
  rw [id_eq]
  generalize ((s.deliverable tenantId outletId input mineUserId now).filter fun p =>
    decide (p.1 ∉ skipped)).take (input.limit.getD 5) = picked at hnodup ⊢
  refine wp_foldlM (fun done claimed L K f => Claiming now (done.map Prod.fst) claimed L K f)
    ⟨hK.and stable_true, fun _ h => h, regular.commits_id, fun _ _ _ => rfl, fun _ _ => .inl⟩
    (fun done p rest claimed L K f hl hI => ?_) fun claimed L K f hI => ⟨_, Commits.to hI.commits⟩
  have hp : p.1 ∉ done.map Prod.fst := by
    intro hmem
    rw [hl, List.map_append, List.nodup_append] at hnodup
    exact hnodup.2.2 _ hmem _ List.mem_cons_self rfl
  rw [Discipline.wp_bind, List.map_append]
  refine wp_updateWhere_guarded (job_guards p.1) (c := fun row => row.any fun j =>
      j.claimable tenantId outletId input mineUserId now ∧ j.printerId = some p.2) hI.stable
    (fun s _ => ?_) (fun L' hL => hI.miss hL p.1) ?_
  · rw [hI.frame s p.1 fun hmem => hp (hI.sub _ hmem)]
  · refine hI.claim hp (fun j hj hprinted => ?_) input.agentId
    simp [PrintJob.claimable, hprinted] at hj

/-- A report is written for the claim that it found, if it is written at all. -/
theorem wp_completeJob {job : PrintJob} (hL : Idle L) (hK : claimTerms.Stable L K)
    (hfound : ∀ s, K s → job.status = .printing → ∃ c ∈ s.claims, c.Holds job)
    (input : CompletePrintJobInput) (claim : ℕ) (now : Time)
    {post : (Hold LockKey → Prop) → (PrintDb → Prop) → (PrintDb → PrintDb) →
      Except ServiceError PrintJob → Prop}
    (hpost : ∀ L' K' r, Idle L' → claimTerms.Stable L' K' → post L' K' id r) :
    Process.wp claimTerms.toDiscipline claimTerms.admits (completeJob job input claim now).run L K id
      post := by
  unfold completeJob
  rw [wp_method_bind]
  refine wp_guardOr (fun hprinting => ?_) (hpost _ _ _ hL hK)
  rw [wp_method_bind]
  refine wp_guardOr (fun hagent => ?_) (hpost _ _ _ hL hK)
  rw [wp_method_bind]
  refine wp_atomically (wp_updateWhere_guarded (job_guards job.id)
    (c := fun row => row.any fun j => j.status = .printing ∧ j.claimedAt = job.claimedAt) hK
    (fun _ _ => rfl) (fun L' _ => ?_) ?_) fun e L' hL' => hpost _ _ _ hL' stable_true
  · refine ⟨_, Commits.to regular.commits_id, ?_⟩
    rw [wp_method_bind]
    refine wp_guardOr (fun h => by cases h) (hpost _ _ _ (idle_numbers _) stable_true)
  · refine ⟨_, Commits.to ?_, ?_⟩
    · rintro s n hs - ⟨⟨hKs, hcond⟩, hadmits⟩
      obtain ⟨j, hj, hstatus⟩ := (Option.any_eq_true _ _).mp hcond
      obtain ⟨hstatus, htime⟩ := of_decide_eq_true hstatus
      obtain ⟨hmem, hid⟩ := KeyedTable.find?_eq_some.mp hj
      refine keeping_completeJob hs (.inl rfl) hj hstatus ?_
      refine (hadmits j hmem hid hstatus htime).resolve_right ?_
      -- the claim that holds the job is the one that the report found
      obtain ⟨c, hc, hholds⟩ := hfound s hKs hprinting
      obtain ⟨c', hc', hholds'⟩ := hs.held j hmem hstatus
      have hsame : c = c' := by
        by_contra hne
        have hat : c.claimedAt = c'.claimedAt := Option.some.inj
          (hholds.time.symm.trans (htime.symm.trans hholds'.time))
        exact (hs.apart.forall hc hc' hne
          (hholds.job.trans (hid.symm.trans hholds'.job.symm))).2 hat
      rw [hholds'.agent, ← hsame, ← hholds.agent, hagent]
      exact Bool.false_ne_true
    · rw [wp_method_bind]
      refine wp_guardOr (fun _ => ?_) (hpost _ _ _ (idle_numbers _) stable_true)
      exact ((keeps_look _).bind fun _ => keeps_getOr _ _) _ _ (idle_numbers _) stable_true _ hpost

/-- What a statement finds of a job that is being printed is on record. -/
theorem wp_findJob {g : PrintDb → Option PrintJob} (hg : ∀ s j, g s = some j → j ∈ s.printJobs)
    (hK : claimTerms.Stable L K) {β : Type}
    {go : (Hold LockKey → Prop) → (PrintDb → Prop) → (PrintDb → PrintDb) → Option PrintJob → Prop}
    {post : (Hold LockKey → Prop) → (PrintDb → Prop) → (PrintDb → PrintDb) →
      Except ServiceError β → Prop}
    (h : ∀ K' row, claimTerms.Stable L K' → (∀ s, K' s → ∀ job, row = some job →
      job.status = .printing → ∃ c ∈ s.claims, c.Holds job) → go L K' id row) :
    Process.wp claimTerms.toDiscipline claimTerms.admits (look g : PrintMethod _).run L K id
      (onOk go post) := by
  refine wp_look hK fun s n hs hKs => ?_
  have hstable : claimTerms.Stable L fun s' => ∀ job, g s = some job → job.status = .printing →
      ∃ c ∈ s'.claims, c.Holds job := by
    intro L' t m t' m' _ _ _ hstep hrecord job hjob hprinting
    obtain ⟨c, hc, hholds⟩ := hrecord job hjob hprinting
    exact ⟨c, hstep.claims hc, hholds⟩
  exact ⟨_, hstable, fun job hjob => hs.held job (hg s job hjob),
    h _ _ (hK.and hstable) fun s' hs' => hs'.2⟩

theorem mem_of_filter_findJob {s : PrintDb} {id : ℕ} {p : PrintJob → Bool} {j : PrintJob}
    (h : (s.findJob id).filter p = some j) : j ∈ s.printJobs :=
  (KeyedTable.find?_eq_some.mp (Option.filter_eq_some_iff.mp h).1).1

theorem keeps_complete (user : AuthUser) (jobId : ℕ) (input : CompletePrintJobInput) (claim : ℕ)
    (now : Time) :
    (complete user jobId input claim now).Keeps claimTerms.toDiscipline claimTerms.admits := by
  intro L K hL hK post hpost
  unfold complete requireJob
  simp only [wp_method_bind]
  refine wp_findJob (fun _ _ => mem_of_filter_findJob) hK fun K' row hK' hfound => ?_
  refine wp_getOr (fun job hjob => ?_) (hpost _ _ _ hL hK')
  refine wp_guardOr (fun _ => ?_) (hpost _ _ _ hL hK')
  exact wp_completeJob hL hK' (fun s hs => hfound s hs job hjob) input claim now hpost

theorem keeps_completeForDevice (tenantId outletId : String) (edgeDeviceId : AgentId) (jobId : ℕ)
    (input : CompletePrintJobInput) (claim : ℕ) (now : Time) :
    (completeForDevice tenantId outletId edgeDeviceId jobId input claim now).Keeps
      claimTerms.toDiscipline claimTerms.admits := by
  intro L K hL hK post hpost
  unfold completeForDevice
  simp only [wp_method_bind]
  refine wp_findJob (fun _ _ => mem_of_filter_findJob) hK fun K' row hK' hfound => ?_
  refine wp_getOr (fun job hjob => ?_) (hpost _ _ _ hL hK')
  exact wp_completeJob hL hK' (fun s hs => hfound s hs job hjob) _ claim now hpost

/-- A job is queued again where it has not been printed. -/
theorem keeps_retryTx (id : ℕ) :
    (autocommit (.retried id) (retryTx id) : PrintMethod Unit).Keeps claimTerms.toDiscipline
      claimTerms.admits := by
  refine keeps_atomically fun L K _ hK => ?_
  unfold retryTx
  simp only [Discipline.wp_bind, wp_acquire, wp_update]
  refine wp_query_any (hK.add _) fun row => wp_check fun _ => ⟨_, Commits.to ?_⟩
  rintro s n hs - ⟨-, hadmits⟩
  refine keeping_updateJob hs (.inl rfl) _ fun j hj hid => ⟨rfl, fun h => ?_, fun h => ?_⟩
  · cases h
  · exact absurd h (hadmits j hj hid)

theorem keeps_cancelTx (id : ℕ) :
    (autocommit .plain (cancelTx id) : PrintMethod Bool).Keeps claimTerms.toDiscipline
      claimTerms.admits := by
  refine keeps_updateWhere_guarded regular (job_guards id)
    (c := fun row => row.any fun j => j.status = .queued ∨ j.status = .failed) (fun _ => rfl)
    fun L s n hlock hs hcond _ => ?_
  obtain ⟨j, hfind, hstatus⟩ := (Option.any_eq_true _ _).mp hcond
  obtain ⟨hj, rfl⟩ := KeyedTable.find?_eq_some.mp hfind
  refine keeping_updateJob hs hlock _ fun i hi hid => ⟨rfl, fun h => ?_, fun h => ?_⟩
  · cases h
  · obtain rfl := KeyedTable.eq_of_mem hi hj hid
    simp [h] at hstatus

/-- A job is inserted. -/
theorem keeps_createJob (tenantId outletId : String) (now : Time) (d : JobDraft) :
    (autocommit .plain (createJob tenantId outletId now d) : PrintMethod PrintJob).Keeps
      claimTerms.toDiscipline claimTerms.admits := by
  refine keeps_atomically fun L K _ hK => ?_
  unfold createJob
  simp only [Discipline.wp_bind, wp_acquire, wp_update, Discipline.wp_pure]
  refine wp_forM_acquire fun L' hL => ?_
  replace hK := hK.anti hL.holds
  refine wp_query_any hK fun _ => wp_check fun _ => wp_query_any (hK.add _) fun _ => wp_check fun _ =>
    wp_draw (hK.add _) fun s n hs _ => ?_
  refine ⟨_, @TableStep.stable_absent _ _ _ _ _ _ claimTerms.toDiscipline PrintDb.printJobs
    (fun _ _ _ h => h.jobs) _ (.inl rfl), KeyedTable.find?_eq_none.mpr fun j hj => (hs.fresh j hj).ne,
    _, Commits.to ?_⟩
  rintro s m hs hdrawn ⟨⟨-, hnew⟩, -⟩
  exact keeping_put hs (.inl rfl) (.inr (.inl rfl)) (hdrawn n (.inr (.inl rfl))) hnew rfl

/-- Printers are no matter of claims. -/
theorem keeps_printers {t : PrintTx α} (ht : t.Writes fun f => ∀ db : PrintDb,
    (f db).printJobs = db.printJobs ∧ (f db).claims = db.claims ∧ (f db).outcomes = db.outcomes) :
    (autocommit .plain t : PrintMethod α).Keeps claimTerms.toDiscipline claimTerms.admits := by
  refine keeps_of_writes (fun _ => ⟨rfl, rfl, rfl⟩) (fun f g hf hg db => ?_)
    (fun f hf L s n hs => ?_) ht
  · obtain ⟨hjobs, hclaims, houtcomes⟩ := hg (f db)
    exact ⟨hjobs.trans (hf db).1, hclaims.trans (hf db).2.1, houtcomes.trans (hf db).2.2⟩
  · exact keeping_of_same hs (hf s).1 (hf s).2.1 (hf s).2.2

/-! ### A printer is removed -/

/-- Between the updates of single jobs: each job is what has been made of that job alone. -/
structure Updating (L : Hold LockKey → Prop) (K : PrintDb → Prop) (f : PrintDb → PrintDb) : Prop where
  stable : claimTerms.Stable L K
  commits : claimTerms.Commits L K f
  rows : ∃ h : ℕ → PrintJob → PrintJob, ∀ s id, (f s).findJob id = (s.findJob id).map (h id)

theorem Updating.anti {f : PrintDb → PrintDb} (h : Updating L K f) {L' : Hold LockKey → Prop}
    (hL : ∀ k, L k → L' k) : Updating L' K f :=
  ⟨h.stable.anti hL, regular.commits_mono h.commits hL fun _ hs => hs, h.rows⟩

/-- The jobs of a printer are updated one by one. -/
theorem wp_updateJobsOf {f₀ : PrintDb → PrintDb} (hI : Updating L K f₀) (printerId : ℕ)
    {p : PrintJob → Bool} {f : PrintJob → PrintJob} (hf : ∀ j, (f j).id = j.id)
    (hquiet : ∀ j, p j = true → Quiet f j)
    {post : (Hold LockKey → Prop) → (PrintDb → Prop) → (PrintDb → PrintDb) → Unit → Prop}
    (hpost : ∀ L' K' f', Updating L' K' f' → post L' K' f' ()) :
    claimTerms.wp (updateJobsOf printerId p f hf) L K f₀ post := by
  unfold updateJobsOf
  rw [Discipline.wp_bind]
  refine wp_query_any hI.stable fun ids => ?_
  refine wp_foldlM (fun _ _ L K f => Updating L K f) hI (fun done id rest _ L K g hl hI => ?_)
    fun _ L K f hI => hpost L K f hI
  obtain ⟨h, hrows⟩ := hI.rows
  rw [Discipline.wp_bind]
  refine wp_updateWhere_guarded (job_guards id)
    (c := fun row => (row.map (h id)).any fun j => j.printerId = some printerId ∧ p j) hI.stable
    (fun s _ => by rw [hrows]) (fun L' hL => hI.anti hL.holds) ?_
  refine ⟨(hI.stable.add _).and ((job_guards id).stable (.inl rfl) fun row =>
    (row.map (h id)).any (fun j => j.printerId = some printerId ∧ p j) = true), ?_,
      fun i j => if (h i j).id = id then f (h i j) else h i j, fun s i => ?_⟩
  · refine regular.commits_comp (regular.commits_mono hI.commits (fun _ => .inr) fun _ hs => hs.1) ?_
    rintro s n - - ⟨-, hcond⟩ hinv
    rw [← hrows] at hcond
    obtain ⟨j, hfind, hj⟩ := (Option.any_eq_true _ _).mp hcond
    obtain ⟨hmem, hid⟩ := KeyedTable.find?_eq_some.mp hfind
    refine keeping_updateJob hinv (.inl rfl) hf fun i hi hid' => hquiet i ?_
    rw [KeyedTable.eq_of_mem hi hmem (hid'.trans hid.symm)]
    exact (of_decide_eq_true hj).2
  · rw [Function.comp_apply, findJob_updateJob, hrows, Option.map_map]
    rfl

theorem keeps_deletePrinterTx (id : ℕ) :
    (autocommit .plain (deletePrinterTx id) : PrintMethod Unit).Keeps claimTerms.toDiscipline
      claimTerms.admits := by
  refine keeps_atomically fun L K _ hK => ?_
  unfold deletePrinterTx
  simp only [Discipline.wp_bind, wp_acquire, wp_update]
  have hcancel : ∀ j : PrintJob, decide (j.status = .queued ∨ j.status = .printing) = true →
      Quiet (·.cancelRemoved) j := by
    refine fun j hj => ⟨rfl, fun h => ?_, fun h => ?_⟩
    · cases h
    · simp [h] at hj
  refine wp_updateJobsOf ⟨hK, regular.commits_id, fun _ j => j, fun s i => Option.map_id'.symm⟩ id _
    hcancel fun L₁ K₁ f₁ hI => ?_
  refine wp_query_any (hI.stable.add _) fun row => wp_check fun _ => ?_
  have hdetach : ∀ j : PrintJob, true = true → Quiet (·.detach) j :=
    fun j _ => ⟨rfl, fun h => ⟨h, rfl, rfl⟩, fun _ => rfl⟩
  refine wp_updateJobsOf (hI.anti fun _ => .inr) id _ hdetach fun L₂ K₂ f₂ hI => ⟨_, Commits.to ?_⟩
  refine regular.commits_comp (regular.commits_mono hI.commits (fun _ hk => hk) fun _ hs => hs.1)
    fun s n _ _ _ hinv => keeping_of_same hinv rfl rfl rfl

/-! ### Requests -/

theorem keeps_requireJob (user : AuthUser) (jobId : ℕ) :
    (requireJob user jobId).Keeps claimTerms.toDiscipline claimTerms.admits :=
  (keeps_look _).bind fun _ => (keeps_getOr _ _).bind fun _ => (keeps_guardOr _ _).bind fun _ =>
    keeps_pure _

theorem keeps_jobDto (id : ℕ) : (jobDto id).Keeps claimTerms.toDiscipline claimTerms.admits :=
  (keeps_look _).bind fun _ => keeps_getOr _ _

theorem keeps_requirePrinter (user : AuthUser) (outletId : String) (id : ℕ) :
    (requirePrinter user outletId id).Keeps claimTerms.toDiscipline claimTerms.admits :=
  (keeps_guardOr _ _).bind fun _ => (keeps_look _).bind fun _ => keeps_getOr _ _

theorem keeps_enqueue (tenantId outletId : String) (now : Time) (drafts : List JobDraft) :
    (enqueue tenantId outletId now drafts).Keeps claimTerms.toDiscipline claimTerms.admits := by
  refine (keeps_mapM (fun d => keeps_tryCatch ((keeps_createJob _ _ _ d).bind fun _ => keeps_pure _)
    fun e => ?_) drafts).bind fun _ => keeps_pure _
  cases e <;> first | exact keeps_pure _ | exact keeps_throw _

theorem keeps_claimScoped (tenantId outletId : String) (input : ClaimPrintJobsInput)
    (mineUserId : Option String) (now : Time) (skipped : List ℕ) :
    (claimScoped tenantId outletId input mineUserId now skipped).Keeps claimTerms.toDiscipline
      claimTerms.admits := by
  unfold claimScoped
  split
  · exact keeps_pure _
  · exact (keeps_claimTx _ _ _ _ _ _).bind fun _ => keeps_look _

theorem keeps_claim (user : AuthUser) (outletId : String) (input : ClaimPrintJobsInput)
    (now : Time) (skipped : List ℕ) :
    (claim user outletId input now skipped).Keeps claimTerms.toDiscipline claimTerms.admits :=
  (keeps_guardOr _ _).bind fun _ => keeps_claimScoped _ _ _ _ _ _

theorem keeps_retry (user : AuthUser) (jobId : ℕ) :
    (retry user jobId).Keeps claimTerms.toDiscipline claimTerms.admits :=
  (keeps_requireJob _ _).bind fun _ => (keeps_guardOr _ _).bind fun _ =>
    (keeps_guardOr _ _).bind fun _ => (keeps_retryTx _).bind fun _ => keeps_jobDto _

theorem keeps_cancelJob (user : AuthUser) (jobId : ℕ) :
    (cancelJob user jobId).Keeps claimTerms.toDiscipline claimTerms.admits :=
  (keeps_requireJob _ _).bind fun _ => (keeps_cancelTx _).bind fun _ =>
    (keeps_guardOr _ _).bind fun _ => keeps_jobDto _

theorem keeps_reprint (user : AuthUser) (jobId : ℕ) (now : Time) :
    (reprint user jobId now).Keeps claimTerms.toDiscipline claimTerms.admits :=
  (keeps_requireJob _ _).bind fun _ => (keeps_look _).bind fun _ =>
    (keeps_getOr _ _).bind fun _ => (keeps_guardOr _ _).bind fun _ => keeps_enqueue _ _ _ _

theorem keeps_createPrinter (user : AuthUser) (outletId : String) (connection : Connection)
    (input : PrinterInput) :
    (createPrinter user outletId connection input).Keeps claimTerms.toDiscipline
      claimTerms.admits := by
  refine (keeps_guardOr _ _).bind fun _ => keeps_printers ?_
  exact writes_draw.bind fun _ => (writes_acquire _).bind fun _ =>
    writes_update fun _ => ⟨rfl, rfl, rfl⟩

theorem keeps_updatePrinter (user : AuthUser) (outletId : String) (id : ℕ) (input : PrinterInput) :
    (updatePrinter user outletId id input).Keeps claimTerms.toDiscipline claimTerms.admits := by
  refine (keeps_requirePrinter _ _ _).bind fun _ => (keeps_guardOr _ _).bind fun _ =>
    (keeps_guardOr _ _).bind fun _ => keeps_printers ?_
  exact (writes_acquire _).bind fun _ => (writes_query _).bind fun _ => (writes_check _ _).bind
    fun _ => writes_update fun _ => ⟨rfl, rfl, rfl⟩

theorem keeps_deletePrinter (user : AuthUser) (outletId : String) (id : ℕ) :
    (deletePrinter user outletId id).Keeps claimTerms.toDiscipline claimTerms.admits :=
  (keeps_requirePrinter _ _ _).bind fun _ => keeps_deletePrinterTx _

theorem keeps_run (r : PrintRequest) :
    r.run.Keeps claimTerms.toDiscipline claimTerms.admits := by
  cases r with
  | enqueue => exact keeps_enqueue _ _ _ _
  | claim => exact keeps_claim _ _ _ _ _
  | claimForDevice => exact keeps_claimScoped _ _ _ _ _ _
  | complete => exact (keeps_complete _ _ _ _ _).map _
  | completeForDevice => exact (keeps_completeForDevice _ _ _ _ _ _ _).map _
  | retry => exact (keeps_retry _ _).map _
  | cancelJob => exact (keeps_cancelJob _ _).map _
  | reprint => exact keeps_reprint _ _ _
  | createPrinter => exact (keeps_createPrinter _ _ _ _).map _
  | updatePrinter => exact (keeps_updatePrinter _ _ _ _).map _
  | deletePrinter => exact (keeps_deletePrinter _ _ _).map _

/-- Every request keeps the terms of claims and reports. -/
theorem claim_kept (r : PrintRequest) : claimTerms.Kept r.run.run :=
  Terms.kept_of_keeps (keeps_run r) fun _ _ => trivial

end Transactions

/-! ### All interleavings -/

theorem sound_of_noJobs {db : PrintDb} {n : ℕ} (hjobs : db.printJobs = .empty)
    (hclaims : db.claims = []) (houtcomes : db.outcomes = []) : Sound db n := by
  have hno : ∀ j, j ∉ db.printJobs := by
    rw [hjobs]
    exact KeyedTable.notMem_empty
  refine ⟨fun j hj => absurd hj (hno j), fun j hj => absurd hj (hno j), fun c hc => ?_, ?_,
    fun o ho => ?_, fun o ho => ?_, ?_⟩
  · rw [hclaims] at hc
    cases hc
  · rw [hclaims]
    exact .nil
  · rw [houtcomes] at ho
    cases ho
  · rw [houtcomes] at ho
    cases ho
  · rw [houtcomes]
    exact .nil

/-- In every run in which no job is claimed twice at the same time, late reports come from agents
that name themselves and do not hold the job, and no job is queued again that was printed since it
was found to have failed: a report changes a job only for the claim that holds it, each claim has
one outcome, and printed jobs stay printed and are not claimed or reported on again. -/
theorem one_outcome
    {w : World PrintDb LockKey Note Empty Empty (Except ServiceError (List PrintJob))}
    (h : printing.Reach (World.Admits claimTerms.admits) w)
    (as : List (WorldAction PrintRequest Empty))
    (hgood : printing.GoodRun (World.Admits claimTerms.admits) w as) :
    (∀ o ∈ w.db.outcomes, o.reported = o.held) ∧
      (w.db.outcomes.Pairwise fun o o' => o.jobId = o'.jobId → o.held ≠ o'.held) ∧
      KeepsPrinted w.db (printing.run w as).db := by
  have hinit : ∀ db n, (∀ p ∈ db.printers, p.id < n) ∧ db.printJobs = .empty ∧ db.claims = [] ∧
      db.outcomes = [] → Sound db n := fun db n hdb => sound_of_noJobs hdb.2.1 hdb.2.2.1 hdb.2.2.2
  have hsound := (Terms.holds_of_reach claim_kept hinit h).inv
  refine ⟨hsound.reported, hsound.once, ?_⟩
  exact Terms.relation_of_run claim_kept hinit KeepsPrinted.refl (fun _ _ _ => KeepsPrinted.trans)
    (fun _ _ _ _ _ hstep => hstep.printed) h hgood

/-! ### A late report, and a late retry -/

/-- An outlet with a bill printer. -/
def oneOutlet : PrintDb :=
  { printers := .put .empty ⟨0, "t", "o", .network, some "10.0.0.5", none, 1, true⟩
    printJobs := .empty
    claims := []
    outcomes := [] }

def cashier : AuthUser := ⟨"u", "t", ["o"]⟩

def printAgent : AgentId := ⟨"agent", by decide⟩

def aClaim : ClaimPrintJobsInput := ⟨printAgent, none, none, false, none, none⟩

/-- A request runs to its end. -/
def wholly (r : PrintRequest) : List (WorldAction PrintRequest Empty) :=
  .start 0 r :: WorldAction.steps 0 16

/-- A bill is queued and claimed. -/
def claimedRun : List (WorldAction PrintRequest Empty) :=
  wholly (.enqueue "t" "o" 1000 [⟨⟨0, "t", "o", .network, some "10.0.0.5", none, 1, true⟩, .bill,
    some "order", none, none, false, false, none⟩]) ++
  wholly (.claim cashier "o" aClaim 2000 [])

/-- The claim is taken over by the same agent, and reported on after that. -/
def lateReportRun : List (WorldAction PrintRequest Empty) :=
  wholly (.claim cashier "o" aClaim 200000 []) ++
  wholly (.complete cashier 1 ⟨true, none, some printAgent⟩ 1 200001)

/-- The printer fails. One retry finds that and is held up; another queues the job, which is
printed; then the first goes on. -/
def lateRetryRun : List (WorldAction PrintRequest Empty) :=
  wholly (.complete cashier 1 ⟨false, none, some printAgent⟩ 1 3000) ++
  .start 1 (.retry cashier 1) :: .step 1 ::
  wholly (.retry cashier 1) ++ wholly (.claim cashier "o" aClaim 4000 []) ++
  wholly (.complete cashier 1 ⟨true, none, some printAgent⟩ 2 5000)

theorem reach_oneOutlet
    {good : World PrintDb LockKey Note Empty Empty (Except ServiceError (List PrintJob)) → _ → Prop} :
    printing.Reach good (.atRest oneOutlet 1) :=
  .init ⟨by decide, rfl, rfl⟩

theorem KeepsPrinted.mem_status {s s' : PrintDb} (h : KeepsPrinted s s')
    (hprinted : .printed ∈ s.printJobs.rows.map (·.status)) :
    .printed ∈ s'.printJobs.rows.map (·.status) := by
  obtain ⟨j, hj, hstatus⟩ := List.mem_map.mp hprinted
  obtain ⟨j', hj', hsame, -⟩ := h j hj hstatus
  have hstatus' : j'.status = j.status := by rw [← hsame]
  exact List.mem_map.mpr ⟨j', hj', hstatus'.trans hstatus⟩

/-- A report does not always change a job only for the claim that holds it, and a printed job does
not always stay printed. -/
theorem not_one_outcome :
    (¬∀ w, printing.Reachable w → ∀ o ∈ w.db.outcomes, o.reported = o.held) ∧
      ¬∀ w, printing.Reachable w → ∀ as, KeepsPrinted w.db (printing.run w as).db := by
  refine ⟨fun h => ?_, fun h => ?_⟩
  · have hreach := Machine.reachable_run (claimedRun ++ lateReportRun) (@reach_oneOutlet _)
    have heq := h _ hreach ⟨1, 1, 2, true⟩ (by decide +kernel)
    revert heq
    decide
  · have hreach := Machine.reachable_run (claimedRun ++ lateRetryRun) (@reach_oneOutlet _)
    have hkept := (h _ hreach (WorldAction.steps 1 16)).mem_status (by decide +kernel)
    revert hkept
    decide +kernel

/-- The claim is taken over, and the agent that takes it over reports. -/
theorem one_outcome_takenOver :
    let w := printing.run (.atRest oneOutlet 1) (claimedRun ++
      wholly (.claim cashier "o" aClaim 200000 []) ++
      wholly (.complete cashier 1 ⟨true, none, none⟩ 2 200001))
    w.db.outcomes = [⟨1, 2, 2, true⟩] ∧
      (∀ o ∈ w.db.outcomes, o.reported = o.held) ∧
      (w.db.outcomes.Pairwise fun o o' => o.jobId = o'.jobId → o.held ≠ o'.held) ∧
      KeepsPrinted w.db (printing.run w (wholly (.retry cashier 1))).db :=
  ⟨by decide +kernel, one_outcome (Machine.reach_run _ reach_oneOutlet (by decide +kernel)) _
    (by decide +kernel)⟩

end StelloKitchens.Printing
