import Mathlib.Data.Int.ConditionallyCompleteOrder
import Mathlib.Tactic.Ring
import StelloKitchens.Lib.Machine
import StelloKitchens.Shared.JsText

/-!
# Scheduled reports

Every instance of the service looks for due schedules once a minute and claims a run by moving the next
one, if nobody else has. The next run and the days of the report are computed from the time of the
tick: when a tick comes late, on the day after the scheduled one, the report is about another day than
it should be, and a day is reported twice and another one never.

A day is its number; `0` is 1 January 1970, a Thursday. The local clock is ahead of the universal one
by the same offset all year. A tick that does not get to the schedule is none.

## Main definitions

* `computeNextRun`, `reportWindow` — the next run, and the days of a report.
* `SchedulerDb`, `scheduler` — one schedule under the ticks of any number of instances.
* `OnTheDay` — a tick that finds the schedule due comes on the scheduled day.

## Main results

* `scheduler_invariant` — the runs follow one another.
* `reports_cover_every_day` — with ticks on the day, every day is reported once.
* `not_reports_cover_every_day` — a tick half an hour after midnight.
-/

namespace StelloKitchens.ReportExport

/-! ### Dates -/

def msPerDay : ℤ := 86400000

def msPerHour : ℤ := 3600000

inductive Frequency
  | daily | weekly
  deriving DecidableEq

structure Schedule where
  frequency : Frequency
  weekday : Option (Fin 7)
  hour : Fin 24

/-- The days from one run to the next. -/
def Frequency.days : Frequency → ℤ
  | .daily => 1
  | .weekly => 7

section Dates

variable (offset : ℤ)

/-- The day that the local clock shows. -/
def localDay (t : Time) : ℤ := (t + offset) / msPerDay

/-- The schedule's hour on a day. -/
def Schedule.atHour (s : Schedule) (day : ℤ) : Time := day * msPerDay + s.hour * msPerHour - offset

/-- `getDay()`: Sunday is `0`. -/
def getDay (day : ℤ) : ℤ := (day + 4) % 7

/-- The first such weekday from a day on, within a number of days. -/
def seekWeekday (want : Fin 7) : ℕ → ℤ → ℤ
  | 0, day => day
  | n + 1, day => if getDay day = want then day else seekWeekday want n (day + 1)

/-- The next send time strictly after a time. -/
def computeNextRun (s : Schedule) (after : Time) : Time :=
  let today := localDay offset after
  let day := if s.atHour offset today ≤ after then today + 1 else today
  match s.frequency with
  | .daily => s.atHour offset day
  | .weekly => s.atHour offset (seekWeekday (s.weekday.getD 1) 6 day)

/-- The days of a report, the first and the last. -/
structure Window where
  first : ℤ
  last : ℤ
  deriving DecidableEq

/-- The completed days a run reports on. -/
def reportWindow (frequency : Frequency) (runAt : Time) : Window :=
  let last := localDay offset runAt - 1
  match frequency with
  | .daily => ⟨last, last⟩
  | .weekly => ⟨last - 6, last⟩

end Dates

/-! ### Ticks -/

/-- What an instance has read: the schedule's due time, at the tick's time. -/
structure Tick where
  runner : ℕ
  scheduled : Time
  now : Time

structure Run where
  runner : ℕ
  scheduled : Time
  window : Window
  deriving DecidableEq

/-- A schedule's row, the ticks that have found it due, the runs, and the times of the ticks that are
done with it. -/
structure SchedulerDb where
  nextRunAt : Time
  ticks : List Tick
  runs : List Run
  finished : List Time

inductive SchedulerAction
  | tick (runner : ℕ) (now : Time)
  | claim (i : ℕ)
  | stop (i : ℕ)

section Scheduler

variable (offset : ℤ) (s : Schedule)

def SchedulerDb.step (db : SchedulerDb) : SchedulerAction → SchedulerDb
  | .tick runner now =>
    if db.nextRunAt ≤ now then { db with ticks := db.ticks ++ [⟨runner, db.nextRunAt, now⟩] }
    else { db with finished := db.finished ++ [now] }
  | .claim i =>
    match db.ticks[i]? with
    | none => db
    | some t =>
      if db.nextRunAt = t.scheduled then
        { nextRunAt := computeNextRun offset s t.now
          ticks := db.ticks.eraseIdx i
          runs := db.runs ++ [⟨t.runner, t.scheduled, reportWindow offset s.frequency t.now⟩]
          finished := db.finished ++ [t.now] }
      else { db with ticks := db.ticks.eraseIdx i, finished := db.finished ++ [t.now] }
  | .stop i => { db with ticks := db.ticks.eraseIdx i }

/-- A schedule that is created at a time, with its first run after it. -/
def scheduler (created : Time) : Machine SchedulerDb SchedulerAction where
  init db := db = ⟨computeNextRun offset s created, [], [], []⟩
  step := SchedulerDb.step offset s

/-- A tick that finds the schedule due comes on the scheduled day. -/
def OnTheDay (db : SchedulerDb) : SchedulerAction → Prop
  | .tick _ now => db.nextRunAt ≤ now → localDay offset now = localDay offset db.nextRunAt
  | _ => True

end Scheduler

/-! ### The next run -/

section NextRun

variable {offset : ℤ} {s : Schedule}

theorem seekWeekday_eq {want : Fin 7} {n : ℕ} {day : ℤ} (h : ((want : ℤ) - (day + 4)) % 7 ≤ n) :
    seekWeekday want n day = day + ((want : ℤ) - (day + 4)) % 7 := by
  have hwant : (want : ℤ) < 7 := by exact_mod_cast want.isLt
  induction n generalizing day with
  | zero =>
    rw [seekWeekday]
    omega
  | succ n ih =>
    rw [seekWeekday, getDay]
    split
    · omega
    · rw [ih (by omega)]
      omega

/-- A day on which the schedule runs. -/
def Schedule.IsDay (s : Schedule) (day : ℤ) : Prop :=
  s.frequency = .weekly → getDay day = (s.weekday.getD 1 : Fin 7)

theorem localDay_atHour (day : ℤ) : localDay offset (s.atHour offset day) = day := by
  have hhour : ((s.hour : ℕ) : ℤ) < 24 := by exact_mod_cast s.hour.isLt
  rw [localDay, Schedule.atHour, msPerDay, msPerHour]
  omega

/-- The first run is on a day of the schedule. -/
theorem computeNextRun_isDay (after : Time) :
    ∃ day, s.IsDay day ∧ computeNextRun offset s after = s.atHour offset day := by
  unfold computeNextRun
  dsimp only
  generalize (if s.atHour offset (localDay offset after) ≤ after then localDay offset after + 1
    else localDay offset after) = day
  cases hfrequency : s.frequency with
  | daily => exact ⟨day, fun h => absurd (hfrequency.symm.trans h) (by decide), rfl⟩
  | weekly =>
    refine ⟨_, fun _ => ?_, rfl⟩
    have hwant : (((s.weekday.getD 1 : Fin 7) : ℕ) : ℤ) < 7 := by
      exact_mod_cast (s.weekday.getD 1).isLt
    rw [seekWeekday_eq (by omega), getDay]
    omega

/-- From a tick on the day of a run, the next run is a period later. -/
theorem computeNextRun_of_onTheDay {day : ℤ} (hday : s.IsDay day) {now : Time}
    (hdue : s.atHour offset day ≤ now) (hnow : localDay offset now = day) :
    computeNextRun offset s now = s.atHour offset (day + s.frequency.days) := by
  unfold computeNextRun
  dsimp only
  rw [hnow, if_pos hdue]
  cases hfrequency : s.frequency with
  | daily => rfl
  | weekly =>
    have hwant : (((s.weekday.getD 1 : Fin 7) : ℕ) : ℤ) < 7 := by
      exact_mod_cast (s.weekday.getD 1).isLt
    have hday := hday hfrequency
    rw [getDay] at hday
    have hseek : seekWeekday (s.weekday.getD 1) 6 (day + 1) = day + 7 := by
      rw [seekWeekday_eq (by omega)]
      omega
    show s.atHour offset (seekWeekday (s.weekday.getD 1) 6 (day + 1)) = _
    rw [hseek]
    rfl

theorem Schedule.IsDay.add {day : ℤ} (h : s.IsDay day) (k : ℕ) : s.IsDay (day + k * s.frequency.days) := by
  intro hweekly
  rw [hweekly, Frequency.days, ← h hweekly, getDay, getDay]
  omega

theorem days_pos (f : Frequency) : 0 < f.days := by
  cases f <;> decide

theorem reportWindow_eq (f : Frequency) (now : Time) : reportWindow offset f now =
    ⟨localDay offset now - f.days, localDay offset now - 1⟩ := by
  cases f with
  | daily => rfl
  | weekly =>
    show (⟨_, _⟩ : Window) = ⟨_, _⟩
    rw [Frequency.days]
    congr 1
    omega

end NextRun

/-! ### Runs -/

section Invariant

variable {offset : ℤ} {s : Schedule} {created : Time} {db : SchedulerDb}

/-- The day of the `k`-th run, from the first. -/
def runDay (offset : ℤ) (s : Schedule) (created : Time) (k : ℕ) : ℤ :=
  localDay offset (computeNextRun offset s created) + k * s.frequency.days

/-- When the `k`-th run is scheduled. -/
def runTime (offset : ℤ) (s : Schedule) (created : Time) (k : ℕ) : Time :=
  s.atHour offset (runDay offset s created k)

/-- The `k`-th run, as it should be: of the days since the run before. -/
structure Run.IsRun (offset : ℤ) (s : Schedule) (created : Time) (r : Run) (k : ℕ) : Prop where
  scheduled : r.scheduled = runTime offset s created k
  window : r.window = ⟨runDay offset s created k - s.frequency.days, runDay offset s created k - 1⟩

/-- The runs follow one another; an open tick is of the day of a run, the next one or an earlier one;
and what the finished ticks have found due has been run. -/
structure SchedulerDb.Following (offset : ℤ) (s : Schedule) (created : Time) (db : SchedulerDb) :
    Prop where
  next : db.nextRunAt = runTime offset s created db.runs.length
  runs : ∀ k (hk : k < db.runs.length), db.runs[k].IsRun offset s created k
  ticks : ∀ t ∈ db.ticks, ∃ k ≤ db.runs.length, t.scheduled = runTime offset s created k ∧
    t.scheduled ≤ t.now ∧ localDay offset t.now = runDay offset s created k
  finished : ∀ now ∈ db.finished, now < db.nextRunAt

theorem runDay_isDay (k : ℕ) : s.IsDay (runDay offset s created k) := by
  obtain ⟨day, hday, hfirst⟩ := @computeNextRun_isDay offset s created
  rw [runDay, hfirst, localDay_atHour]
  exact hday.add k

theorem runTime_zero : runTime offset s created 0 = computeNextRun offset s created := by
  obtain ⟨day, -, hfirst⟩ := @computeNextRun_isDay offset s created
  rw [runTime, runDay, hfirst, localDay_atHour]
  simp

theorem runDay_succ (k : ℕ) :
    runDay offset s created (k + 1) = runDay offset s created k + s.frequency.days := by
  rw [runDay, runDay]
  push_cast
  ring

theorem atHour_lt {day day' : ℤ} (h : day < day') : s.atHour offset day < s.atHour offset day' := by
  show day * 86400000 + s.hour * msPerHour - offset < day' * 86400000 + s.hour * msPerHour - offset
  omega

theorem lt_atHour_succ (now : Time) : now < s.atHour offset (localDay offset now + 1) := by
  show now < ((now + offset) / 86400000 + 1) * 86400000 + (s.hour : ℕ) * 3600000 - offset
  have hday (x : ℤ) : x < (x / 86400000 + 1) * 86400000 := by omega
  have hlt := hday (now + offset)
  have hhour : (0 : ℤ) ≤ (s.hour : ℕ) := Int.natCast_nonneg _
  linarith

theorem runDay_strictMono : StrictMono (runDay offset s created) :=
  strictMono_nat_of_lt_succ fun k => by
    have hdays := days_pos s.frequency
    rw [runDay_succ]
    omega

theorem runTime_strictMono : StrictMono (runTime offset s created) :=
  fun _ _ h => atHour_lt (runDay_strictMono h)

/-- The run after one of the day of a tick is later than the tick. -/
theorem lt_runTime_succ {now : Time} {k : ℕ} (h : localDay offset now = runDay offset s created k) :
    now < runTime offset s created (k + 1) := by
  have hdays := days_pos s.frequency
  refine lt_of_lt_of_le (@lt_atHour_succ offset s now) ?_
  rw [runTime, runDay_succ, h]
  have hle : runDay offset s created k + 1 ≤ runDay offset s created k + s.frequency.days := by omega
  obtain hday | hday := hle.eq_or_lt
  · rw [hday]
  · exact (atHour_lt hday).le

/-- With ticks on the day, the runs follow one another. -/
theorem scheduler_invariant (h : (scheduler offset s created).Reach (OnTheDay offset) db) :
    db.Following offset s created := by
  refine Machine.invariant (fun db hinit => ?_) (fun db a _ hdb hgood => ?_) h
  · obtain rfl : db = _ := hinit
    exact ⟨runTime_zero.symm, fun k hk => absurd hk (Nat.not_lt_zero k), by simp, by simp⟩
  · have herase (i : ℕ) (n : ℕ) (hn : db.runs.length ≤ n) : ∀ t ∈ db.ticks.eraseIdx i,
        ∃ k ≤ n, t.scheduled = runTime offset s created k ∧
          t.scheduled ≤ t.now ∧ localDay offset t.now = runDay offset s created k := by
      intro t ht
      obtain ⟨k, hk, htick⟩ := hdb.ticks t (List.mem_of_mem_eraseIdx ht)
      exact ⟨k, hk.trans hn, htick⟩
    cases a with
    | tick runner now =>
      show (if _ then _ else _ : SchedulerDb).Following offset s created
      by_cases hdue : db.nextRunAt ≤ now
      · rw [if_pos hdue]
        refine ⟨hdb.next, hdb.runs, fun t ht => ?_, hdb.finished⟩
        obtain ht | ht := List.mem_append.mp ht
        · exact hdb.ticks t ht
        · obtain rfl := List.mem_singleton.mp ht
          refine ⟨db.runs.length, le_rfl, hdb.next, hdue, (hgood hdue).trans ?_⟩
          rw [hdb.next, runTime, localDay_atHour]
      · rw [if_neg hdue]
        refine ⟨hdb.next, hdb.runs, hdb.ticks, fun t ht => ?_⟩
        obtain ht | ht := List.mem_append.mp ht
        · exact hdb.finished t ht
        · rw [List.mem_singleton.mp ht]
          exact not_le.mp hdue
    | claim i =>
      have hstep : (scheduler offset s created).step db (.claim i) = db.step offset s (.claim i) := rfl
      rw [hstep, SchedulerDb.step]
      cases ht : db.ticks[i]? with
      | none => exact hdb
      | some t =>
        obtain ⟨k, hk, hscheduled, hdue, hnow⟩ := hdb.ticks t (List.mem_of_getElem? ht)
        dsimp only
        by_cases hclaim : db.nextRunAt = t.scheduled
        · -- the tick is of the next run
          obtain rfl : k = db.runs.length := by
            by_contra hne
            have hlt := @runTime_strictMono offset s created _ _ (lt_of_le_of_ne hk hne)
            rw [← hscheduled, ← hdb.next, hclaim] at hlt
            exact lt_irrefl _ hlt
          have hnext : computeNextRun offset s t.now =
              runTime offset s created (db.runs.length + 1) := by
            rw [computeNextRun_of_onTheDay (runDay_isDay _) (hscheduled.symm.trans_le hdue) hnow, runTime,
              runDay_succ]
          rw [if_pos hclaim]
          refine ⟨?_, fun k hk => ?_, ?_, fun now hmem => ?_⟩
          · rw [List.length_append]
            exact hnext
          · by_cases hlast : k < db.runs.length
            · simp only [List.getElem_append_left hlast]
              exact hdb.runs k hlast
            · obtain rfl : k = db.runs.length := by
                rw [List.length_append, List.length_singleton] at hk
                omega
              simp only [List.getElem_concat_length]
              exact ⟨hscheduled, by rw [reportWindow_eq, hnow]⟩
          · exact herase i _ (by simp)
          · show now < computeNextRun offset s t.now
            rw [hnext]
            obtain hmem | hmem := List.mem_append.mp hmem
            · have hlt := hdb.finished now hmem
              rw [hdb.next] at hlt
              exact hlt.trans (runTime_strictMono (Nat.lt_succ_self _))
            · rw [List.mem_singleton.mp hmem]
              exact lt_runTime_succ hnow
        · -- someone else has claimed it
          rw [if_neg hclaim]
          refine ⟨hdb.next, hdb.runs, herase i _ le_rfl, fun now hmem => ?_⟩
          obtain hmem | hmem := List.mem_append.mp hmem
          · exact hdb.finished now hmem
          · have hlt : k < db.runs.length := lt_of_le_of_ne hk fun heq => hclaim (by
              rw [hdb.next, hscheduled, heq])
            rw [List.mem_singleton.mp hmem]
            show t.now < db.nextRunAt
            rw [hdb.next]
            exact (lt_runTime_succ hnow).trans_le (runTime_strictMono.monotone hlt)
    | stop i => exact ⟨hdb.next, hdb.runs, herase i _ le_rfl, hdb.finished⟩

/-- While no tick that finds the schedule due comes on a later day than the scheduled one: the runs are
of the scheduled times, one after another and each once, up to the next one; what a finished tick has
found due has been run; the days of a run begin after those of the run before, and every day from the
first one reported to the last is reported by exactly one run. -/
theorem reports_cover_every_day (h : (scheduler offset s created).Reach (OnTheDay offset) db) :
    (db.nextRunAt = runTime offset s created db.runs.length ∧
      (∀ k (hk : k < db.runs.length), db.runs[k].scheduled = runTime offset s created k) ∧
      ∀ now ∈ db.finished, now < db.nextRunAt) ∧
    (∀ k (hk : k + 1 < db.runs.length), db.runs[k + 1].window.first = db.runs[k].window.last + 1) ∧
    ∀ day, runDay offset s created 0 - s.frequency.days ≤ day →
      day < runDay offset s created db.runs.length - s.frequency.days →
      ∃ k, ∃ hk : k < db.runs.length,
        (db.runs[k].window.first ≤ day ∧ day ≤ db.runs[k].window.last) ∧
        ∀ j (hj : j < db.runs.length),
          db.runs[j].window.first ≤ day ∧ day ≤ db.runs[j].window.last → j = k := by
  have hfollowing := scheduler_invariant h
  have hdays := days_pos s.frequency
  refine ⟨⟨hfollowing.next, fun k hk => (hfollowing.runs k hk).scheduled, hfollowing.finished⟩,
    fun k hk => ?_, fun day hfirst hlast => ?_⟩
  · rw [(hfollowing.runs (k + 1) hk).window, (hfollowing.runs k (by omega)).window, runDay_succ]
    show _ - _ = _ - 1 + 1
    omega
  · -- the day is of the run whose period it falls into
    have hwindow (k : ℕ) (hk : k < db.runs.length) :
        (db.runs[k].window.first ≤ day ∧ day ≤ db.runs[k].window.last) ↔
          runDay offset s created k - s.frequency.days ≤ day ∧ day < runDay offset s created k := by
      rw [(hfollowing.runs k hk).window]
      exact and_congr_right fun _ => Int.le_sub_one_iff
    have hexists : ∃ k, day < runDay offset s created k := ⟨db.runs.length, by omega⟩
    have hleast (j : ℕ) (hj : j < Nat.find hexists) : runDay offset s created j ≤ day :=
      not_lt.mp (Nat.find_min hexists hj)
    have hfound := Nat.find_spec hexists
    set k := Nat.find hexists with hk
    have hlow : runDay offset s created k - s.frequency.days ≤ day := by
      cases hcase : k with
      | zero => exact hfirst
      | succ j =>
        rw [runDay_succ, Int.add_sub_cancel]
        exact hleast j (hcase ▸ Nat.lt_succ_self j)
    have hbefore : k < db.runs.length := by
      by_contra hle
      have hmono := (@runDay_strictMono offset s created).monotone (not_lt.mp hle)
      omega
    refine ⟨k, hbefore, (hwindow k hbefore).mpr ⟨hlow, hfound⟩, fun j hj hcovers => ?_⟩
    obtain ⟨hjlow, hjfound⟩ := (hwindow j hj).mp hcovers
    obtain hlt | rfl | hlt := lt_trichotomy j k
    · exact absurd (hleast j hlt) (not_le.mpr hjfound)
    · rfl
    · obtain ⟨i, rfl⟩ : ∃ i, j = i + 1 := ⟨j - 1, by omega⟩
      have hmono := (@runDay_strictMono offset s created).monotone (Nat.lt_succ_iff.mp hlt)
      rw [runDay_succ] at hjlow
      omega

end Invariant

/-- A daily report at eleven in the evening. -/
def eveningReport : Schedule := ⟨.daily, none, 23⟩

/-- The time of a minute of a day. -/
def minuteOf (day minute : ℤ) : Time := day * msPerDay + minute * 60000

/-- The first run is claimed half an hour after midnight, the second one in time. -/
def lateTicks : List SchedulerAction :=
  [.tick 0 (minuteOf 1 30), .claim 0, .tick 1 (minuteOf 1 (23 * 60)), .claim 0]

/-- Two instances claim two runs in time, the second one after the first has found it due too. -/
def timelyTicks : List SchedulerAction :=
  [.tick 0 (minuteOf 0 (23 * 60)), .tick 1 (minuteOf 0 (23 * 60 + 1)), .claim 0, .claim 0,
    .tick 1 (minuteOf 1 (23 * 60)), .claim 0]

def createdAtMidnight : SchedulerDb := ⟨computeNextRun 0 eveningReport (minuteOf 0 0), [], [], []⟩

theorem reports_cover_every_day_timely :
    ((scheduler 0 eveningReport (minuteOf 0 0)).run createdAtMidnight timelyTicks).runs.length = 2 ∧
    ((scheduler 0 eveningReport (minuteOf 0 0)).run createdAtMidnight timelyTicks).nextRunAt =
      runTime 0 eveningReport (minuteOf 0 0) 2 := by
  have hreach : (scheduler 0 eveningReport (minuteOf 0 0)).Reach (OnTheDay 0)
      ((scheduler 0 eveningReport (minuteOf 0 0)).run createdAtMidnight timelyTicks) :=
    Machine.reach_run _ (.init rfl) (by
      refine ⟨fun _ => ?_, fun _ => ?_, trivial, trivial, fun _ => ?_, trivial, trivial⟩ <;> decide)
  have hruns : ((scheduler 0 eveningReport (minuteOf 0 0)).run createdAtMidnight
      timelyTicks).runs.length = 2 := by decide
  refine ⟨hruns, ?_⟩
  have hnext := (reports_cover_every_day hreach).1.1
  rwa [hruns] at hnext

/-- With a tick half an hour after midnight, an hour and a half late, both runs report day `0`, and
none the day before it. -/
theorem not_reports_cover_every_day :
    ((scheduler 0 eveningReport (minuteOf 0 0)).run createdAtMidnight lateTicks).runs =
      [⟨0, minuteOf 0 (23 * 60), ⟨0, 0⟩⟩, ⟨1, minuteOf 1 (23 * 60), ⟨0, 0⟩⟩] := by
  decide

end StelloKitchens.ReportExport
