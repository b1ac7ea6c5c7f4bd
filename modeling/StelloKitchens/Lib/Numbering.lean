import Mathlib.Logic.Function.Basic
import Mathlib.Data.Nat.Basic

/-!
# Gapless numbering

Entries are given numbers of several series, each of which counts on from one. A numbering is
gapless if the numbers of a series that are out are those it has counted, each held by one entry.
An entry may also hold a number from elsewhere, which is not of the kind the series give out.

## Main definitions

* `SeriesNumbering` — which entry holds which number, and how far each series has counted.
* `SeriesNumbering.Gapless` — the numbers that are out are those that were counted.

## Main results

* `SeriesNumbering.Gapless.issue` — to count and to give the number out keeps a numbering gapless.
* `SeriesNumbering.Gapless.hold` — so does an entry without a number, or with one from elsewhere.
-/

/-- The number each entry holds, with its series, and the next number of each series. -/
structure SeriesNumbering (ι σ ν : Type) where
  held : ι → Option (σ × ν)
  next : σ → Option ℕ

namespace SeriesNumbering

variable {ι σ ν : Type} [DecidableEq ι] [DecidableEq σ] (own : ℕ → ν) (ours : ν → Prop)

/-- The numbers of our kind that are out are those that were counted, each held once. -/
structure Gapless (N : SeriesNumbering ι σ ν) : Prop where
  counts : ∀ s n, N.next s = some n → 1 ≤ n
  drawn : ∀ i s v, N.held i = some (s, v) → ours v →
    ∃ n k, N.next s = some n ∧ 1 ≤ k ∧ k < n ∧ v = own k
  once : ∀ i j s v, N.held i = some (s, v) → N.held j = some (s, v) → ours v → i = j
  given : ∀ s n k, N.next s = some n → 1 ≤ k → k < n → ∃ i, N.held i = some (s, own k)

/-- An entry holds this. -/
def hold (N : SeriesNumbering ι σ ν) (i : ι) (v : Option (σ × ν)) : SeriesNumbering ι σ ν :=
  { N with held := Function.update N.held i v }

/-- A series counts on. -/
def advance (N : SeriesNumbering ι σ ν) (s : σ) : SeriesNumbering ι σ ν :=
  { N with next := fun t => if t = s then (N.next t).map (· + 1) else N.next t }

variable {own ours} {N : SeriesNumbering ι σ ν} {i : ι} {s : σ}

omit [DecidableEq σ] in
theorem held_hold (v : Option (σ × ν)) (j : ι) :
    (N.hold i v).held j = if j = i then v else N.held j := Function.update_apply N.held i v j

omit [DecidableEq ι] in
theorem next_advance (t : σ) :
    (N.advance s).next t = if t = s then (N.next t).map (· + 1) else N.next t := rfl

omit [DecidableEq σ] in
/-- An entry that holds no number is left without one, or gets one from elsewhere. -/
theorem Gapless.hold (h : N.Gapless own ours) (hi : N.held i = none) {v : Option (σ × ν)}
    (hv : ∀ x ∈ v, ¬ours x.2) : (N.hold i v).Gapless own ours := by
  have hold : ∀ j s w, (N.hold i v).held j = some (s, w) → ours w → N.held j = some (s, w) := by
    intro j s w hj hw
    rw [held_hold] at hj
    split at hj
    · exact absurd hw (hv _ hj)
    · exact hj
  refine ⟨h.counts, fun j s w hj hw => h.drawn j s w (hold j s w hj hw) hw,
    fun j k s w hj hk hw => h.once j k s w (hold j s w hj hw) (hold k s w hk hw) hw,
    fun s n k hn h1 hk => ?_⟩
  obtain ⟨j, hj⟩ := h.given s n k hn h1 hk
  refine ⟨j, ?_⟩
  rw [held_hold, if_neg]
  · exact hj
  · rintro rfl
    rw [hi] at hj
    cases hj

/-- An entry that holds no number gets the next one of a series, which counts on. -/
theorem Gapless.issue (h : N.Gapless own ours) (hinj : Function.Injective own)
    (hours : ∀ k, ours (own k)) (hi : N.held i = none) {n : ℕ} (hn : N.next s = some n) :
    ((N.advance s).hold i (some (s, own n))).Gapless own ours := by
  have hnext : ∀ t, (N.advance s).next t = if t = s then some (n + 1) else N.next t := by
    intro t
    rw [next_advance]
    split
    · next heq => rw [heq, hn]; rfl
    · rfl
  -- no other entry holds the number
  have hnew : ∀ j, N.held j ≠ some (s, own n) := by
    intro j hj
    obtain ⟨m, k, hm, -, hk, heq⟩ := h.drawn j s _ hj (hours n)
    rw [hn, Option.some.injEq] at hm
    rw [← hinj heq, hm] at hk
    exact Nat.lt_irrefl m hk
  refine ⟨fun t m hm => ?_, fun j t v hj hv => ?_, fun j k t v hj hk hv => ?_,
    fun t m k hm h1 hk => ?_⟩
  · change (N.advance s).next t = some m at hm
    rw [hnext] at hm
    split at hm
    · rw [← Option.some.inj hm]
      exact Nat.succ_le_succ (Nat.zero_le n)
    · exact h.counts t m hm
  · change ∃ n' k, (N.advance s).next t = some n' ∧ 1 ≤ k ∧ k < n' ∧ v = own k
    rw [held_hold] at hj
    split at hj
    · obtain ⟨rfl, rfl⟩ := Prod.mk.inj (Option.some.inj hj)
      exact ⟨n + 1, n, by rw [hnext, if_pos rfl], h.counts s n hn, Nat.lt_succ_self n, rfl⟩
    · obtain ⟨m, k, hm, h1, hk, rfl⟩ := h.drawn j t v hj hv
      by_cases hts : t = s
      · rw [hts, hn, Option.some.injEq] at hm
        exact ⟨n + 1, k, by rw [hnext, if_pos hts], h1, by omega, rfl⟩
      · exact ⟨m, k, by rw [hnext, if_neg hts, hm], h1, hk, rfl⟩
  · rw [held_hold] at hj hk
    split at hj <;> split at hk
    · exact ‹j = i›.trans ‹k = i›.symm
    · exact absurd (hk.trans hj.symm) (hnew k)
    · exact absurd (hj.trans hk.symm) (hnew j)
    · exact h.once j k t v hj hk hv
  · change (N.advance s).next t = some m at hm
    have hkeep : ∀ j, N.held j = some (t, own k) →
        ((N.advance s).hold i (some (s, own n))).held j = some (t, own k) := by
      intro j hj
      rw [held_hold, if_neg]
      · exact hj
      · rintro rfl
        rw [hi] at hj
        cases hj
    rw [hnext] at hm
    split at hm
    · next hts =>
      rw [← Option.some.inj hm] at hk
      by_cases hkn : k = n
      · exact ⟨i, by rw [held_hold, if_pos rfl, hts, hkn]⟩
      · obtain ⟨j, hj⟩ := h.given t n k (hts ▸ hn) h1 (by omega)
        exact ⟨j, hkeep j hj⟩
    · obtain ⟨j, hj⟩ := h.given t m k hm h1 hk
      exact ⟨j, hkeep j hj⟩

end SeriesNumbering
