import BytePack.Proofs.Lemmas.Sizing
import Mathlib.Data.List.Induction

/-!
# The exact cursor

Over unbounded numbers the cursor has a position after every step, whatever the counts. Sizing keeps
this position, the furthest one so far and the step that first came there, up to the first step
whose position is past `maxPosition`.
-/

namespace BytePack

/-! ## Positions -/

/-- The position after some steps from the start, over unbounded numbers. -/
def exactCursor (steps : List Step) : Nat := steps.foldl (fun pos s => s.target pos) 0

@[simp] theorem exactCursor_nil : exactCursor [] = 0 := rfl

theorem exactCursor_concat (front : List Step) (s : Step) :
    exactCursor (front ++ [s]) = s.target (exactCursor front) := by
  rw [exactCursor, List.foldl_append, List.foldl_cons, List.foldl_nil, ← exactCursor]

/-- Whether `s` is the first of some steps that takes the cursor to `n` or further, with the steps
`before` it. -/
structure FirstReaches (n : Nat) (steps before : List Step) (s : Step) : Prop where
  stands : before ++ [s] <+: steps
  before_lt : ∀ front, front <+: before → exactCursor front < n
  reaches : n ≤ exactCursor (before ++ [s])

theorem FirstReaches.concat {n : Nat} {steps before : List Step} {s : Step}
    (h : FirstReaches n steps before s) (t : Step) : FirstReaches n (steps ++ [t]) before s :=
  ⟨h.stands.trans (List.prefix_append _ _), h.before_lt, h.reaches⟩

/-- A cursor that gets as far as `n` gets there first with some step. -/
theorem exists_firstReaches {n : Nat} (hn : 0 < n) {steps front : List Step}
    (hfront : front <+: steps) (hreach : n ≤ exactCursor front) :
    ∃ before s, FirstReaches n steps before s := by
  induction steps using List.reverseRecOn generalizing front with
  | nil =>
      rw [List.prefix_nil] at hfront
      subst hfront
      exact absurd hreach (Nat.not_le.2 hn)
  | append_singleton steps s ih =>
      by_cases hearly : ∃ early, early <+: steps ∧ n ≤ exactCursor early
      · obtain ⟨early, hprefix, hreach⟩ := hearly
        obtain ⟨before, t, h⟩ := ih hprefix hreach
        exact ⟨before, t, h.concat s⟩
      · have hlt : ∀ early, early <+: steps → exactCursor early < n := fun early hprefix =>
          Nat.lt_of_not_le fun hle => hearly ⟨early, hprefix, hle⟩
        rcases List.prefix_concat_iff.1 hfront with rfl | hprefix
        · exact ⟨steps, s, List.prefix_refl _, hlt, hreach⟩
        · exact absurd hreach (Nat.not_le.2 (hlt front hprefix))

theorem FirstReaches.eq_of_front {n : Nat} {steps before before' : List Step} {s s' : Step}
    (h : FirstReaches n steps before s) (h' : FirstReaches n steps before' s')
    (hfront : before ++ [s] <+: before' ++ [s']) : before = before' ∧ s = s' := by
  rcases List.prefix_concat_iff.1 hfront with heq | hshorter
  · simpa using heq
  · exact absurd h.reaches (Nat.not_le.2 (h'.before_lt _ hshorter))

theorem FirstReaches.unique {n : Nat} {steps before before' : List Step} {s s' : Step}
    (h : FirstReaches n steps before s) (h' : FirstReaches n steps before' s') :
    before = before' ∧ s = s' := by
  rcases List.prefix_or_prefix_of_prefix h.stands h'.stands with hprefix | hprefix
  · exact h.eq_of_front h' hprefix
  · obtain ⟨rfl, rfl⟩ := h'.eq_of_front h hprefix
    exact ⟨rfl, rfl⟩

/-- Whether the exact cursor is never past `n`. -/
def StaysWithin (n : Nat) (steps : List Step) : Prop :=
  ∀ front, front <+: steps → exactCursor front ≤ n

theorem exists_firstReaches_of_not {n : Nat} {steps : List Step} (h : ¬ StaysWithin n steps) :
    ∃ before s, FirstReaches (n + 1) steps before s := by
  simp only [StaysWithin, not_forall, Nat.not_le] at h
  obtain ⟨front, hfront, hpast⟩ := h
  exact exists_firstReaches (Nat.succ_pos n) hfront hpast

/-! ## Sizing -/

/-- What an extent tells of the steps it has been through. -/
structure Extent.Tracks (e : Extent) (steps : List Step) : Prop where
  pos : e.pos = exactCursor steps
  le_size : ∀ front, front <+: steps → exactCursor front ≤ e.size
  furthest : 0 < e.size → ∃ before s, FirstReaches e.size steps before s ∧ e.furthest = s.symbol

theorem Extent.start_tracks : Extent.start.Tracks [] where
  pos := rfl
  le_size front h := by
    rw [List.prefix_nil] at h
    rw [h]
    exact Nat.le_refl 0
  furthest h := absurd h (Nat.lt_irrefl 0)

theorem Extent.Tracks.after {e : Extent} {steps : List Step} (h : e.Tracks steps) (s : Step) :
    (e.after s).Tracks (steps ++ [s]) where
  pos := by rw [Extent.after_pos, exactCursor_concat, h.pos]
  le_size front hfront := by
    rw [Extent.after_size, h.pos]
    rcases List.prefix_concat_iff.1 hfront with rfl | hprefix
    · rw [exactCursor_concat]
      exact Nat.le_max_right _ _
    · exact Nat.le_trans (h.le_size front hprefix) (Nat.le_max_left _ _)
  furthest hsize := by
    unfold Extent.after Extent.moveTo at hsize ⊢
    by_cases hlt : e.size < s.target e.pos
    · rw [if_pos hlt]
      refine ⟨steps, s, ⟨List.prefix_refl _, fun front hfront => ?_, ?_⟩, rfl⟩
      · exact Nat.lt_of_le_of_lt (h.le_size front hfront) hlt
      · exact Nat.le_of_eq (by rw [exactCursor_concat, h.pos])
    · rw [if_neg hlt] at hsize ⊢
      obtain ⟨before, t, hfirst, hsymbol⟩ := h.furthest hsize
      exact ⟨before, t, hfirst.concat s, hsymbol⟩

theorem measure_tracks {steps : List Step} {e : Extent} (h : (measure steps).outcome = .ok e) :
    e.Tracks steps := by
  -- from the back, because an extent tells of the steps before it
  induction steps using List.reverseRecOn generalizing e with
  | nil =>
      cases h
      exact Extent.start_tracks
  | append_singleton steps s ih =>
      obtain ⟨e', hbefore, hlast, hsound, _⟩ := measure_append h
      obtain ⟨m, hm, hnil⟩ := Reported.run_cons_eq_ok.1 hlast
      cases Reported.run_nil_eq_ok.1 hnil
      obtain ⟨_, rfl⟩ := (Step.extend_eq_ok hsound).1 hm
      exact (ih hbefore).after s

/-- The furthest position is one that the cursor comes to. -/
theorem Extent.Tracks.exists_size {e : Extent} {steps : List Step} (h : e.Tracks steps) :
    ∃ front, front <+: steps ∧ exactCursor front = e.size := by
  by_cases hsize : 0 < e.size
  · obtain ⟨before, s, hfirst, _⟩ := h.furthest hsize
    exact ⟨before ++ [s], hfirst.stands,
      Nat.le_antisymm (h.le_size _ hfirst.stands) hfirst.reaches⟩
  · exact ⟨[], List.nil_prefix, by rw [exactCursor_nil]; omega⟩

theorem Extent.Tracks.size_le_iff {e : Extent} {steps : List Step} (h : e.Tracks steps) {n : Nat} :
    e.size ≤ n ↔ StaysWithin n steps := by
  constructor
  · exact fun hle front hfront => Nat.le_trans (h.le_size front hfront) hle
  · intro hwithin
    obtain ⟨front, hfront, hsize⟩ := h.exists_size
    exact hsize ▸ hwithin front hfront

theorem exactCursor_le_of_measure {steps front : List Step} {e : Extent}
    (h : (measure steps).outcome = .ok e) (hfront : front <+: steps) :
    exactCursor front ≤ maxPosition :=
  Nat.le_trans ((measure_tracks h).le_size front hfront)
    (extent_run_sound Extent.start_sound h).1.size_le

/-- Sizing fails exactly at the first step that takes the exact cursor past `maxPosition`. -/
theorem measure_eq_error_iff {steps : List Step} {err : Error} :
    (measure steps).outcome = .error err ↔
      ∃ before s, FirstReaches (maxPosition + 1) steps before s ∧
        err = .overflow (.position s.symbol) := by
  constructor
  · intro h
    obtain ⟨before, s, after, e, rfl, hbefore, hpast, rfl⟩ := measure_eq_error.1 h
    rw [(measure_tracks hbefore).pos, ← exactCursor_concat] at hpast
    refine ⟨before, s, ⟨⟨after, by simp⟩, fun front hfront => ?_, hpast⟩, rfl⟩
    exact Nat.lt_succ_of_le (exactCursor_le_of_measure hbefore hfront)
  · rintro ⟨before, s, ⟨⟨after, rfl⟩, hlt, hreach⟩, rfl⟩
    refine measure_eq_error.2 ?_
    cases hbefore : (measure before).outcome with
    | ok e =>
        rw [exactCursor_concat, ← (measure_tracks hbefore).pos] at hreach
        exact ⟨before, s, after, e, by simp, hbefore, hreach, rfl⟩
    | error err =>
        obtain ⟨early, t, late, e, rfl, hearly, hpast, _⟩ := measure_eq_error.1 hbefore
        rw [(measure_tracks hearly).pos, ← exactCursor_concat] at hpast
        exact absurd (hlt (early ++ [t]) ⟨late, by simp⟩) (Nat.not_lt.2 hpast)

end BytePack
