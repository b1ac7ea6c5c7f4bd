import Mathlib.Data.List.Sort
import StelloKitchens.Shared.Service

/-!
# Print jobs

The API does not reach the printers. It queues what is to be printed, an agent that reaches the
printer claims a job, prints it and reports what became of it, and a claim that is not reported
for two minutes is offered again.

A claim takes the jobs it picks one by one, and skips those that other claims hold locked. The
report of an agent names the job and perhaps the agent, but not the claim that it reports on.

## Main definitions

* `PrintDb` — printers and print jobs, with a history of claims and of reports.
* `createJob`, `claimTx`, `completeTx`, `retryTx`, `deletePrinterTx` — the transactions.
* `PrintRequest.run` — the requests.
-/

namespace StelloKitchens.Printing

open Checked Tx Process Method Service

/-! ### Tables -/

inductive Connection
  | network
  | usb
  | browser
  deriving DecidableEq

structure Printer where
  id : ℕ
  tenantId : String
  outletId : String
  connection : Connection
  host : Option String
  usbPath : Option String
  copies : ℕ
  isActive : Bool
  deriving DecidableEq

inductive JobKind
  | kot
  | bill
  | test
  | drawer
  deriving DecidableEq

inductive JobStatus
  | queued
  | printing
  | printed
  | failed
  | cancelled
  deriving DecidableEq

/-- A status as the messages show it. -/
def JobStatus.text : JobStatus → String
  | .queued => "queued"
  | .printing => "printing"
  | .printed => "printed"
  | .failed => "failed"
  | .cancelled => "cancelled"

/-- The id of a claimant, which is not empty. -/
abbrev AgentId := { s : String // s ≠ "" }

structure PrintJob where
  id : ℕ
  tenantId : String
  outletId : String
  printerId : Option ℕ
  kind : JobKind
  status : JobStatus
  copies : ℕ
  reprint : Bool
  openDrawer : Bool
  orderId : Option String
  kotId : Option String
  sourceKey : Option String
  attempts : ℕ
  error : Option String
  claimedBy : Option AgentId
  claimedAt : Option Time
  printedAt : Option Time
  createdById : Option String
  createdAt : Time
  deriving DecidableEq

/-- A claim on a job, by its number among the claims on that job. -/
structure Claim where
  jobId : ℕ
  number : ℕ
  agentId : AgentId
  claimedAt : Time
  deriving DecidableEq

/-- A report that changed a job: the claim that it reports on and the one that holds the job. -/
structure Outcome where
  jobId : ℕ
  reported : ℕ
  held : ℕ
  ok : Bool
  deriving DecidableEq

structure PrintDb where
  printers : KeyedTable Printer.id
  printJobs : KeyedTable PrintJob.id
  /-- The claims on jobs, which no statement reads. -/
  claims : List Claim
  /-- The reports that changed a job, which no statement reads. -/
  outcomes : List Outcome
  deriving DecidableEq

/-- What transactions lock. -/
inductive LockKey
  | job (id : ℕ)
  | printer (id : ℕ)
  /-- The unique key of an automatic job. -/
  | sourceKey (key : String)
  deriving DecidableEq

/-- What a commit is. -/
inductive Note
  | plain
  /-- Jobs are claimed. -/
  | claimed (jobIds : List ℕ) (claimedAt : Time)
  /-- A job that was read as claimed at a time is reported on. -/
  | completed (jobId : ℕ) (claimedAt : Option Time) (agentId : Option AgentId) (claim : ℕ)
  /-- A job is queued again. -/
  | retried (jobId : ℕ)
  deriving DecidableEq

abbrev PrintTx (α : Type) := ServiceTx PrintDb LockKey α

abbrev PrintMethod := ServiceMethod PrintDb LockKey Note

/-! ### Rows -/

/-- A claim that is not reported after this long is presumed lost. -/
def staleClaimMs : ℤ := 120 * 1000

/-- Jobs older than this are not delivered. -/
def maxJobAgeMs : ℤ := 12 * 3600000

structure ClaimPrintJobsInput where
  agentId : AgentId
  printerIds : Option (List ℕ)
  connections : Option (List Connection)
  mine : Bool
  olderThanSeconds : Option ℕ
  limit : Option ℕ

structure CompletePrintJobInput where
  ok : Bool
  error : Option String
  agentId : Option AgentId

structure JobDraft where
  printer : Printer
  kind : JobKind
  orderId : Option String
  kotId : Option String
  sourceKey : Option String
  reprint : Bool
  openDrawer : Bool
  createdById : Option String

namespace PrintJob

/-- The job can be claimed, as far as its own columns say. -/
def claimable (j : PrintJob) (tenantId outletId : String) (input : ClaimPrintJobsInput)
    (mineUserId : Option String) (now : Time) : Bool :=
  j.tenantId = tenantId ∧ j.outletId = outletId ∧
    (j.status = .queued ∨ j.status = .printing ∧ j.claimedAt.any (· < now - staleClaimMs)) ∧
    now - maxJobAgeMs < j.createdAt ∧
    (input.printerIds.all fun ids => j.printerId.any (· ∈ ids)) ∧
    (mineUserId.all fun id => j.createdById = some id) ∧
    (input.olderThanSeconds.all fun s => j.createdAt < now - s * 1000)

def claim (agentId : AgentId) (now : Time) (j : PrintJob) : PrintJob :=
  { j with status := .printing, claimedBy := some agentId, claimedAt := some now,
           attempts := j.attempts + 1, error := none }

/-- What a report writes. -/
def complete (now : Time) (input : CompletePrintJobInput) (j : PrintJob) : PrintJob :=
  if input.ok then { j with status := .printed, printedAt := some now, error := none }
  else { j with
    status := .failed
    error := some (((input.error.map fun s => String.ofList (s.toList.take 300)).filter
      (· ≠ "")).getD "Printer did not accept the job") }

def requeue (j : PrintJob) : PrintJob :=
  { j with status := .queued, error := none, claimedBy := none, claimedAt := none }

def cancel (j : PrintJob) : PrintJob := { j with status := .cancelled }

/-- The printer is removed before the job is delivered. -/
def cancelRemoved (j : PrintJob) : PrintJob :=
  { j with status := .cancelled, error := some "Printer removed" }

def detach (j : PrintJob) : PrintJob := { j with printerId := none }

end PrintJob

def JobDraft.toJob (d : JobDraft) (id : ℕ) (tenantId outletId : String) (now : Time) : PrintJob where
  id := id
  tenantId := tenantId
  outletId := outletId
  printerId := some d.printer.id
  kind := d.kind
  status := .queued
  copies := d.printer.copies
  reprint := d.reprint
  openDrawer := d.openDrawer
  orderId := d.orderId
  kotId := d.kotId
  sourceKey := d.sourceKey
  attempts := 0
  error := none
  claimedBy := none
  claimedAt := none
  printedAt := none
  createdById := d.createdById
  createdAt := now

/-! ### Statements -/

namespace PrintDb

def findJob (db : PrintDb) (id : ℕ) : Option PrintJob := db.printJobs.find? id

/-- Update a job. -/
def updateJob (id : ℕ) (f : PrintJob → PrintJob) (hf : ∀ j, (f j).id = j.id) (db : PrintDb) :
    PrintDb :=
  { db with printJobs := db.printJobs.modify (fun j => j.id = id) f hf }

/-- A job is claimed. -/
def claimJob (id : ℕ) (agentId : AgentId) (now : Time) (db : PrintDb) : PrintDb :=
  { db.updateJob id (·.claim agentId now) fun _ => rfl with
    claims := db.claims ++ ((db.findJob id).map fun j => ⟨id, j.attempts + 1, agentId, now⟩).toList }

theorem id_complete (now : Time) (input : CompletePrintJobInput) (j : PrintJob) :
    (j.complete now input).id = j.id := by
  unfold PrintJob.complete
  split <;> rfl

/-- A job is reported on. -/
def completeJob (id : ℕ) (now : Time) (input : CompletePrintJobInput) (claim : ℕ) (db : PrintDb) :
    PrintDb :=
  { db.updateJob id (·.complete now input) (id_complete now input) with
    outcomes := db.outcomes ++
      ((db.findJob id).map fun j => ⟨id, claim, j.attempts, input.ok⟩).toList }

/-- The jobs that can be claimed, each with its printer, oldest first. -/
def deliverable (db : PrintDb) (tenantId outletId : String) (input : ClaimPrintJobsInput)
    (mineUserId : Option String) (now : Time) : List (ℕ × ℕ) :=
  ((db.printJobs.rows.filter fun j => j.claimable tenantId outletId input mineUserId now).insertionSort
    fun j j' => j.createdAt ≤ j'.createdAt).filterMap fun j => do
      let p ← j.printerId.bind db.printers.find?
      guard (p.tenantId = tenantId ∧ p.isActive = true ∧
        (input.connections.all fun c => c = [] ∨ p.connection ∈ c))
      return (j.id, p.id)

/-- The jobs with these ids, oldest first. -/
def jobsIn (db : PrintDb) (ids : List ℕ) : List PrintJob :=
  (db.printJobs.rows.filter fun j => j.id ∈ ids).insertionSort fun j j' => j.createdAt ≤ j'.createdAt

end PrintDb

/-! ### Queueing -/

/-- Insert a job; automatic ones carry a key that is used once. -/
def createJob (tenantId outletId : String) (now : Time) (d : JobDraft) : PrintTx PrintJob := do
  d.sourceKey.forM fun key => acquire (.sourceKey key)
  let taken ← query fun db => db.printJobs.rows.any fun j => d.sourceKey.isSome ∧ j.sourceKey = d.sourceKey
  check (taken = false) .p2002
  acquire (.printer d.printer.id)
  let printer ← query fun db => db.printers.find? d.printer.id
  check (printer.isSome = true) .database
  let id ← draw
  acquire (.job id)
  let job := d.toJob id tenantId outletId now
  update fun db => { db with printJobs := db.printJobs.put job }
  return job

/-- Insert jobs; one whose key is taken is left out. -/
def enqueue (tenantId outletId : String) (now : Time) (drafts : List JobDraft) :
    PrintMethod (List PrintJob) := do
  let created ← drafts.mapM fun d =>
    tryCatch (some <$> autocommit .plain (createJob tenantId outletId now d)) fun
      | .p2002 => return none
      | e => throw e
  return created.reduceOption

/-! ### The life of a job -/

/-- Take up to `limit` deliverable jobs, but for those that others have locked. -/
def claimTx (tenantId outletId : String) (input : ClaimPrintJobsInput) (mineUserId : Option String)
    (now : Time) (skipped : List ℕ) : PrintTx (List ℕ) := do
  let picked ← query fun db =>
    ((db.deliverable tenantId outletId input mineUserId now).filter fun p => p.1 ∉ skipped).take
      (input.limit.getD 5)
  picked.foldlM (fun claimed p => do
    let hit ← updateWhere (.job p.1)
      (fun db => (db.findJob p.1).any fun j =>
        j.claimable tenantId outletId input mineUserId now ∧ j.printerId = some p.2)
      (·.claimJob p.1 input.agentId now)
    return if hit then claimed ++ [p.1] else claimed) []

def claimScoped (tenantId outletId : String) (input : ClaimPrintJobsInput)
    (mineUserId : Option String) (now : Time) (skipped : List ℕ) : PrintMethod (List PrintJob) :=
  if input.printerIds = some [] then return []
  else do
    let ids ← atomically (.claimed · now) (claimTx tenantId outletId input mineUserId now skipped)
    look fun db => db.jobsIn ids

def claim (user : AuthUser) (outletId : String) (input : ClaimPrintJobsInput) (now : Time)
    (skipped : List ℕ) : PrintMethod (List PrintJob) := do
  assertOutlet user outletId
  claimScoped user.tenantId outletId input (if input.mine then some user.id else none) now skipped

/-- The claimant is the device itself. -/
def claimForDevice (tenantId outletId : String) (edgeDeviceId : AgentId) (input : ClaimPrintJobsInput)
    (now : Time) (skipped : List ℕ) : PrintMethod (List PrintJob) :=
  claimScoped tenantId outletId { input with agentId := edgeDeviceId, mine := false } none now skipped

def requireJob (user : AuthUser) (jobId : ℕ) : PrintMethod PrintJob := do
  let row ← look fun db => (db.findJob jobId).filter fun j => j.tenantId = user.tenantId
  let job ← getOr row (.notFound "Print job not found")
  assertOutlet user job.outletId
  return job

def jobDto (id : ℕ) : PrintMethod PrintJob := do
  let row ← look fun db => db.findJob id
  getOr row .database

/-- The report names another agent than the one that claimed the job. -/
def otherAgent (agentId claimedBy : Option AgentId) : Bool :=
  agentId.any fun a => claimedBy.any fun c => a ≠ c

/-- The report is written if the job is still printing and was not claimed at another time. -/
def completeTx (job : PrintJob) (input : CompletePrintJobInput) (claim : ℕ) (now : Time) :
    PrintTx Bool :=
  updateWhere (.job job.id)
    (fun db => (db.findJob job.id).any fun j => j.status = .printing ∧ j.claimedAt = job.claimedAt)
    (·.completeJob job.id now input claim)

/-- Report on a job, for the claim on it with a number. -/
def completeJob (job : PrintJob) (input : CompletePrintJobInput) (claim : ℕ) (now : Time) :
    PrintMethod PrintJob := do
  guardOr (job.status = .printing) (.badRequest s!"Job is {job.status.text}, not printing")
  guardOr (otherAgent input.agentId job.claimedBy = false)
    (.badRequest "Job is claimed by another printer agent")
  let updated ← atomically
    (fun hit => if hit then .completed job.id job.claimedAt input.agentId claim else .plain)
    (completeTx job input claim now)
  guardOr (updated = true) (.badRequest "Job was re-claimed; result ignored")
  jobDto job.id

def complete (user : AuthUser) (jobId : ℕ) (input : CompletePrintJobInput) (claim : ℕ)
    (now : Time) : PrintMethod PrintJob := do
  let job ← requireJob user jobId
  completeJob job input claim now

/-- The claimant is the device itself. -/
def completeForDevice (tenantId outletId : String) (edgeDeviceId : AgentId) (jobId : ℕ)
    (input : CompletePrintJobInput) (claim : ℕ) (now : Time) : PrintMethod PrintJob := do
  let row ← look fun db => (db.findJob jobId).filter fun j =>
    j.tenantId = tenantId ∧ j.outletId = outletId
  let job ← getOr row (.notFound "Print job not found")
  completeJob job { input with agentId := some edgeDeviceId } claim now

/-- The job is queued, whatever has become of it. -/
def retryTx (id : ℕ) : PrintTx Unit := do
  acquire (.job id)
  let row ← query fun db => db.findJob id
  check (row.isSome = true) .database
  update (·.updateJob id (·.requeue) fun _ => rfl)

def retry (user : AuthUser) (jobId : ℕ) : PrintMethod PrintJob := do
  let job ← requireJob user jobId
  guardOr (job.status = .failed ∨ job.status = .cancelled)
    (.badRequest "Only failed or cancelled jobs can be retried")
  guardOr (job.printerId.isSome = true) (.badRequest "The job's printer was removed")
  autocommit (.retried job.id) (retryTx job.id)
  jobDto job.id

def cancelTx (id : ℕ) : PrintTx Bool :=
  updateWhere (.job id)
    (fun db => (db.findJob id).any fun j => j.status = .queued ∨ j.status = .failed)
    (·.updateJob id (·.cancel) fun _ => rfl)

def cancelJob (user : AuthUser) (jobId : ℕ) : PrintMethod PrintJob := do
  let job ← requireJob user jobId
  let cancelled ← autocommit .plain (cancelTx job.id)
  guardOr (cancelled = true) (.badRequest "Only queued or failed jobs can be cancelled")
  jobDto job.id

/-- Print what a job printed again. -/
def reprint (user : AuthUser) (jobId : ℕ) (now : Time) : PrintMethod (List PrintJob) := do
  let job ← requireJob user jobId
  let row ← look fun db => job.printerId.bind db.printers.find?
  let printer ← getOr row (.badRequest "The job's printer was removed")
  guardOr (job.kind ≠ .drawer) (.badRequest "Drawer kicks can't be reprinted")
  enqueue job.tenantId job.outletId now [⟨printer, job.kind, job.orderId, job.kotId, none, true,
    false, some user.id⟩]

/-! ### Printers -/

structure PrinterInput where
  connection : Option Connection
  host : Option (Option String)
  usbPath : Option (Option String)
  copies : Option ℕ
  isActive : Option Bool

/-- An empty text is none. -/
def orNull (s : Option String) : Option String := s.filter (· ≠ "")

def Printer.update (input : PrinterInput) (p : Printer) : Printer :=
  { p with
    connection := input.connection.getD p.connection
    host := (input.host.map orNull).getD p.host
    usbPath := (input.usbPath.map orNull).getD p.usbPath
    copies := input.copies.getD p.copies
    isActive := input.isActive.getD p.isActive }

def createPrinterTx (tenantId outletId : String) (connection : Connection) (input : PrinterInput) :
    PrintTx Unit := do
  let id ← draw
  acquire (.printer id)
  update fun db => { db with
    printers := db.printers.put
      (.update { input with connection := some connection }
        ⟨id, tenantId, outletId, connection, none, none, 1, true⟩) }

def createPrinter (user : AuthUser) (outletId : String) (connection : Connection)
    (input : PrinterInput) : PrintMethod Unit := do
  assertOutlet user outletId
  autocommit .plain (createPrinterTx user.tenantId outletId connection input)

def requirePrinter (user : AuthUser) (outletId : String) (id : ℕ) : PrintMethod Printer := do
  assertOutlet user outletId
  let row ← look fun db => (db.printers.find? id).filter fun p =>
    p.tenantId = user.tenantId ∧ p.outletId = outletId
  getOr row (.notFound "Printer not found")

def updatePrinterTx (id : ℕ) (input : PrinterInput) : PrintTx Unit := do
  acquire (.printer id)
  let row ← query fun db => db.printers.find? id
  check (row.isSome = true) .database
  update fun db => { db with
    printers := db.printers.modify (fun p => p.id = id) (·.update input) fun _ => rfl }

def updatePrinter (user : AuthUser) (outletId : String) (id : ℕ) (input : PrinterInput) :
    PrintMethod Unit := do
  let existing ← requirePrinter user outletId id
  let connection := input.connection.getD existing.connection
  let host := input.host.getD existing.host
  let usbPath := input.usbPath.getD existing.usbPath
  guardOr (¬(connection = .network ∧ orNull host = none)) (.badRequest "Network printers need a host")
  guardOr (¬(connection = .usb ∧ orNull usbPath = none)) (.badRequest "USB printers need a device path")
  autocommit .plain (updatePrinterTx existing.id input)

/-- The jobs of a printer that satisfy a condition, each updated if it still does. -/
def updateJobsOf (printerId : ℕ) (p : PrintJob → Bool) (f : PrintJob → PrintJob)
    (hf : ∀ j, (f j).id = j.id) : PrintTx Unit := do
  let ids ← query fun db =>
    (db.printJobs.rows.filter fun j => j.printerId = some printerId ∧ p j).map (·.id)
  ids.foldlM (fun _ id => do
    let _ ← updateWhere (.job id)
      (fun db => (db.findJob id).any fun j => j.printerId = some printerId ∧ p j)
      (·.updateJob id f hf)
    return ()) ()

/-- The undelivered jobs of a printer are cancelled, and it is removed from all of its jobs. -/
def deletePrinterTx (id : ℕ) : PrintTx Unit := do
  updateJobsOf id (fun j => j.status = .queued ∨ j.status = .printing) (·.cancelRemoved) fun _ => rfl
  acquire (.printer id)
  let row ← query fun db => db.printers.find? id
  check (row.isSome = true) .database
  updateJobsOf id (fun _ => true) (·.detach) fun _ => rfl
  update fun db => { db with printers := db.printers.delete fun p => p.id = id }

def deletePrinter (user : AuthUser) (outletId : String) (id : ℕ) : PrintMethod Unit := do
  let existing ← requirePrinter user outletId id
  autocommit .plain (deletePrinterTx existing.id)

/-! ### Requests -/

/-- What comes in: jobs to queue, from an order or a user, and the requests of users and
devices. -/
inductive PrintRequest
  | enqueue (tenantId outletId : String) (now : Time) (drafts : List JobDraft)
  | claim (user : AuthUser) (outletId : String) (input : ClaimPrintJobsInput) (now : Time)
      (skipped : List ℕ)
  | claimForDevice (tenantId outletId : String) (edgeDeviceId : AgentId)
      (input : ClaimPrintJobsInput) (now : Time) (skipped : List ℕ)
  | complete (user : AuthUser) (jobId : ℕ) (input : CompletePrintJobInput) (claim : ℕ) (now : Time)
  | completeForDevice (tenantId outletId : String) (edgeDeviceId : AgentId) (jobId : ℕ)
      (input : CompletePrintJobInput) (claim : ℕ) (now : Time)
  | retry (user : AuthUser) (jobId : ℕ)
  | cancelJob (user : AuthUser) (jobId : ℕ)
  | reprint (user : AuthUser) (jobId : ℕ) (now : Time)
  | createPrinter (user : AuthUser) (outletId : String) (connection : Connection)
      (input : PrinterInput)
  | updatePrinter (user : AuthUser) (outletId : String) (id : ℕ) (input : PrinterInput)
  | deletePrinter (user : AuthUser) (outletId : String) (id : ℕ)

/-- What a request does; its answer is the jobs that it shows. -/
def PrintRequest.run : PrintRequest → PrintMethod (List PrintJob)
  | .enqueue tenantId outletId now drafts => Printing.enqueue tenantId outletId now drafts
  | .claim user outletId input now skipped => Printing.claim user outletId input now skipped
  | .claimForDevice tenantId outletId edgeDeviceId input now skipped =>
    Printing.claimForDevice tenantId outletId edgeDeviceId input now skipped
  | .complete user jobId input number now => ([·]) <$> Printing.complete user jobId input number now
  | .completeForDevice tenantId outletId edgeDeviceId jobId input number now =>
    ([·]) <$> Printing.completeForDevice tenantId outletId edgeDeviceId jobId input number now
  | .retry user jobId => ([·]) <$> Printing.retry user jobId
  | .cancelJob user jobId => ([·]) <$> Printing.cancelJob user jobId
  | .reprint user jobId now => Printing.reprint user jobId now
  | .createPrinter user outletId connection input =>
    (fun _ => []) <$> Printing.createPrinter user outletId connection input
  | .updatePrinter user outletId id input =>
    (fun _ => []) <$> Printing.updatePrinter user outletId id input
  | .deletePrinter user outletId id => (fun _ => []) <$> Printing.deletePrinter user outletId id

/-- The requests side by side, from tables without jobs. -/
def printing : Machine
    (World PrintDb LockKey Note Empty Empty (Except ServiceError (List PrintJob)))
    (WorldAction PrintRequest Empty) :=
  serve (fun r : PrintRequest => r.run.run) fun db n =>
    (∀ p ∈ db.printers, p.id < n) ∧ db.printJobs = .empty ∧ db.claims = [] ∧ db.outcomes = []

end StelloKitchens.Printing
