import Mathlib.Data.List.Sort
import Mathlib.Data.Option.Basic

/-!
# Change feeds and their followers

A feed keeps the last change of every key under a number of its own, later changes under higher
numbers. A follower asks for the changes beyond the number it has come to, some at a time, and writes
them to a copy. The copy is right for every key whose last change the follower has come to, whatever
changes meanwhile.

## Main definitions

* `ChangeFeed.View` — for every key that has been there, the number and content of its last change.
* `ChangeFeed.Later` — a feed after further changes.
* `ChangeFeed.Follows` — a copy is right up to a number.

## Main results

* `ChangeFeed.Follows.later`, `ChangeFeed.Follows.overlay` — a copy stays right as the feed changes, and
  is right up to the last of the changes that are written to it.
* `ChangeFeed.Follows.complete` — a copy that is right up to every number.
* `ChangeFeed.foldl_keyed` — steps that each write under a key of their own.
* `ChangeFeed.mem_take_iff` — the first changes are those up to the last of them.
-/

namespace ChangeFeed

variable {κ δ ρ : Type*}

/-- For every key that has been there, the number of its last change and what is there since, if
anything. -/
abbrev View (κ δ : Type*) := κ → Option (ℕ × Option δ)

/-- What a feed becomes by changes beyond a number. -/
def Later (n : ℕ) (v v' : View κ δ) : Prop :=
  ∀ k, v' k = v k ∨ ∃ s d, v' k = some (s, d) ∧ n < s

/-- A copy is right for the keys whose last change is not beyond a number, and has no others than have
been there. -/
def Follows (v : View κ δ) (c : ℕ) (D : κ → Option δ) : Prop :=
  ∀ k, (v k = none → D k = none) ∧ ∀ s d, v k = some (s, d) → s ≤ c → D k = d

/-- A copy after the changes beyond one number, up to another, were written to it. -/
def overlay (v : View κ δ) (lo hi : ℕ) (D : κ → Option δ) : κ → Option δ := fun k =>
  match v k with
  | none => D k
  | some (s, d) => if lo < s ∧ s ≤ hi then d else D k

variable {v v' v'' : View κ δ} {n n' c lo hi : ℕ} {D : κ → Option δ}

theorem Later.refl (n : ℕ) (v : View κ δ) : Later n v v := fun _ => .inl rfl

theorem Later.trans (h : Later n v v') (h' : Later n' v' v'') (hn : n ≤ n') : Later n v v'' := by
  intro k
  rcases h' k with heq | ⟨s, d, hk, hs⟩
  · rw [heq]
    exact h k
  · exact .inr ⟨s, d, hk, hn.trans_lt hs⟩

/-- A copy stays right as the feed changes. -/
theorem Follows.later (hf : Follows v c D) (h : Later n v v') (hc : c ≤ n) : Follows v' c D := by
  intro k
  rcases h k with heq | ⟨s, d, hk, hs⟩
  · rw [heq]
    exact hf k
  · refine ⟨fun hnone => ?_, fun s' d' hk' hs' => ?_⟩
    · rw [hk] at hnone
      cases hnone
    · rw [hk] at hk'
      cases hk'
      omega

/-- Writing the next changes to a copy makes it right up to the last of them. -/
theorem Follows.overlay (hf : Follows v lo D) : Follows v hi (overlay v lo hi D) := by
  intro k
  unfold ChangeFeed.overlay
  refine ⟨fun hnone => ?_, fun s d hk hs => ?_⟩
  · rw [hnone]
    exact (hf k).1 hnone
  · rw [hk]
    dsimp only
    split
    · rfl
    · exact (hf k).2 s d hk (by omega)

/-- A copy that is right up to every number has what is there. -/
theorem Follows.complete (hf : Follows v c D) (hall : ∀ k s d, v k = some (s, d) → s ≤ c) (k : κ) :
    D k = (v k).bind Prod.snd := by
  cases hk : v k with
  | none => exact (hf k).1 hk
  | some x => exact (hf k).2 x.1 x.2 hk (hall k x.1 x.2 hk)

/-- The empty copy, of a feed whose numbers start at one. -/
theorem follows_nothing (h : ∀ k s d, v k = some (s, d) → 0 < s) : Follows v 0 fun _ => none :=
  fun k => ⟨fun _ => rfl, fun s d hk hs => absurd (h k s d hk) (by omega)⟩

/-! ### Writes under distinct keys -/

/-- Steps that write under distinct keys, and nothing else, leave each what it makes there. -/
theorem foldl_keyed {σ α β : Type*} {P : σ → Prop} {view : σ → κ → β} {key : α → κ} {step : σ → α → σ}
    {Q : α → β → Prop} {base : κ → β} {rows : List α}
    (hstep : ∀ r ∈ rows, ∀ s, P s → view s (key r) = base (key r) → P (step s r) ∧
      Q r (view (step s r) (key r)) ∧ ∀ k, k ≠ key r → view (step s r) k = view s k)
    (hnodup : (rows.map key).Nodup) {s : σ} (h : P s)
    (hbase : ∀ r ∈ rows, view s (key r) = base (key r)) :
    P (rows.foldl step s) ∧ (∀ r ∈ rows, Q r (view (rows.foldl step s) (key r))) ∧
      ∀ k, k ∉ rows.map key → view (rows.foldl step s) k = view s k := by
  induction rows generalizing s with
  | nil => exact ⟨h, by simp, fun k _ => rfl⟩
  | cons r rows ih =>
    rw [List.map_cons, List.nodup_cons] at hnodup
    obtain ⟨hP, hrow, hothers⟩ := hstep r List.mem_cons_self s h (hbase r List.mem_cons_self)
    have hne : ∀ r' ∈ rows, key r' ≠ key r := fun r' hr' heq =>
      hnodup.1 (heq ▸ List.mem_map_of_mem hr')
    obtain ⟨hP', hrows', hothers'⟩ := ih (fun r' hr' => hstep r' (List.mem_cons_of_mem _ hr'))
      hnodup.2 hP fun r' hr' =>
        (hothers (key r') (hne r' hr')).trans (hbase r' (List.mem_cons_of_mem _ hr'))
    refine ⟨hP', fun r' hr' => ?_, fun k hk => ?_⟩
    · rcases List.mem_cons.mp hr' with rfl | hr'
      · rw [List.foldl_cons, hothers' _ hnodup.1]
        exact hrow
      · exact hrows' r' hr'
    · rw [List.map_cons, List.mem_cons, not_or] at hk
      exact (hothers' k hk.2).trans (hothers k hk.1)

/-! ### Pages -/

section Pages

variable {seq : ρ → ℕ} {rows : List ρ}

/-- The number of the last change of a page, or where the page began. -/
def cursorOf (seq : ρ → ℕ) (start : ℕ) (page : List ρ) : ℕ := (page.getLast?.map seq).getD start

/-- A page does not end before it begins. -/
theorem le_cursorOf {start : ℕ} (hstart : ∀ r ∈ rows, start < seq r) (limit : ℕ) :
    start ≤ cursorOf seq start (rows.take limit) := by
  unfold cursorOf
  cases hlast : (rows.take limit).getLast? with
  | none => exact le_rfl
  | some r => exact (hstart r (List.mem_of_mem_take (List.mem_of_getLast? hlast))).le

/-- Of changes in order, the first ones are those up to the last of them. -/
theorem mem_take_iff (hsorted : rows.Pairwise fun a b => seq a < seq b) {start : ℕ}
    (hstart : ∀ r ∈ rows, start < seq r) (limit : ℕ) {r : ρ} :
    r ∈ rows.take limit ↔ r ∈ rows ∧ seq r ≤ cursorOf seq start (rows.take limit) := by
  induction rows generalizing start limit with
  | nil => simp
  | cons a rows ih =>
    obtain ⟨ha, hrows⟩ := List.pairwise_cons.mp hsorted
    cases limit with
    | zero =>
      refine ⟨fun h => absurd h List.not_mem_nil, fun ⟨hr, hle⟩ => ?_⟩
      exact absurd (hstart r hr) (Nat.not_lt.mpr hle)
    | succ limit =>
      have hcursor : cursorOf seq start ((a :: rows).take (limit + 1)) =
          cursorOf seq (seq a) (rows.take limit) := by
        rw [List.take_succ_cons]
        unfold cursorOf
        cases rows.take limit <;> simp [List.getLast?_cons]
      rw [hcursor, List.take_succ_cons, List.mem_cons, List.mem_cons, ih hrows ha]
      refine ⟨fun h => ?_, fun h => ?_⟩
      · rcases h with rfl | ⟨hr, hs⟩
        · exact ⟨.inl rfl, le_cursorOf ha limit⟩
        · exact ⟨.inr hr, hs⟩
      · rcases h with ⟨rfl | hr, hs⟩
        · exact .inl rfl
        · exact .inr ⟨hr, hs⟩

end Pages

end ChangeFeed
