import BytePack.Proofs.Cursors
import BytePack.Proofs.Lemmas.Formats
import BytePack.Proofs.Lemmas.Passes

/-!
# Steps back past the start

A step back past the start is clamped in both passes and reported by sizing only. Writing never
stands further than sizing, so it clamps wherever sizing does. It can clamp elsewhere too: a text
that is short of digits leaves it behind sizing, and it stays behind until both are placed alike, by
a jump or by a clamp that is reported.
-/

namespace BytePack

/-! ## Clamps -/

/-- Whether the step at a place goes back past the start from where a cursor stands. -/
def clampsAt (steps : List Step) (cursor : Nat → Option Nat) (k : Nat) : Bool :=
  match steps[k]?, cursor k with
  | some s, some pos => s.layout == .backUp && pos < s.count
  | _, _ => false

/-- What there is to report of the steps that go back past the start, one by one. -/
def clampsReported (steps : List Step) (cursor : Nat → Option Nat) : List Diagnostic :=
  ((List.range steps.length).filter (clampsAt steps cursor)).filterMap fun k =>
    steps[k]?.map fun s => .outsideOfString s.symbol

/-- Whether writing finds the text for the step at a place short of digits. -/
def ShortAt (steps : List Step) (size : Nat) (args : List Scalar) (k : Nat) : Prop :=
  ∃ s w, steps[k]? = some s ∧ (writeSteps (steps.take k) size args).outcome = .ok w ∧
    ¬ s.Supplied w.unread

section
variable {steps : List Step} {size : Nat} {args : List Scalar} {e e' : Extent} {w w' : Writer}
  {k : Nat}

/-! ## Where each pass clamps -/

theorem clampsAt_iff {s : Step} (hs : steps[k]? = some s) {cursor : Nat → Option Nat} {pos : Nat}
    (hpos : cursor k = some pos) :
    clampsAt steps cursor k = true ↔ s.layout = .backUp ∧ pos < s.count := by
  rw [clampsAt, hs, hpos, Bool.and_eq_true, beq_iff_eq, decide_eq_true_iff]

theorem exists_of_clampsAt {cursor : Nat → Option Nat} (h : clampsAt steps cursor k = true) :
    ∃ s pos, steps[k]? = some s ∧ cursor k = some pos := by
  unfold clampsAt at h
  split at h
  · exact ⟨_, _, ‹_›, ‹_›⟩
  · cases h

/-- Writing clamps wherever sizing does. -/
theorem PassesAt.clampsAt_writing (h : PassesAt steps size args k e w) (hle : w.pos ≤ e.pos)
    (hclamps : clampsAt steps (sizingCursor steps) k = true) :
    clampsAt steps (writingCursor steps size args) k = true := by
  obtain ⟨s, _, hs, _⟩ := exists_of_clampsAt hclamps
  obtain ⟨hl, hlt⟩ := (clampsAt_iff hs h.sizingCursor_eq).1 hclamps
  exact (clampsAt_iff hs h.writingCursor_eq).2 ⟨hl, Nat.lt_of_le_of_lt hle hlt⟩

/-- A step takes both cursors to one place if it jumps, if sizing clamps at it, or if they stood at
one place and its text is not short. -/
theorem Step.Strikes.next_eq_target {s : Step} {pos : Nat} {unread : List Scalar} {stroke : Stroke}
    (h : s.Strikes pos unread stroke) {p : Nat} (hle : pos ≤ p)
    (halike : s.layout = .absolute ∨ (s.layout = .backUp ∧ p < s.count) ∨
      (pos = p ∧ s.Supplied unread)) : stroke.next = s.target p := by
  rcases halike with hl | ⟨hl, hlt⟩ | ⟨rfl, hsupplied⟩
  · cases h <;> simp_all [Step.target]
  · cases h <;> simp_all [Step.target]
    omega
  · exact h.next_eq hsupplied

/-- Writing falls behind sizing at a text that is short of digits, and nowhere since has a jump or a
clamp of sizing brought them together. -/
theorem PassesAt.exists_shortAt (hmeasure : (measure steps).outcome = .ok e')
    (hwrite : (writeSteps steps size args).outcome = .ok w') (hsize : e'.size ≤ size)
    (hk : k ≤ steps.length) (h : PassesAt steps size args k e w) (hlag : w.pos < e.pos) :
    ∃ j < k, ShortAt steps size args j ∧ ∀ i s, j < i → i < k → steps[i]? = some s →
      s.layout ≠ .absolute ∧ clampsAt steps (sizingCursor steps) i = false := by
  induction k generalizing e w with
  | zero =>
      obtain ⟨hsized, hwritten⟩ := h
      cases hsized
      cases hwritten
      exact absurd hlag (Nat.lt_irrefl 0)
  | succ k ih =>
      have hs := List.getElem?_eq_getElem hk
      obtain ⟨m, v, hbefore, hle⟩ := exists_passesAt hmeasure hwrite hsize k
      obtain ⟨_, rfl, stroke, hstrikes, rfl⟩ := hbefore.next h hs
      have hapart : stroke.next ≠ (m.after steps[k]).pos := Nat.ne_of_lt hlag
      rw [Extent.after_pos] at hapart
      have hjump : steps[k].layout ≠ .absolute := fun hl =>
        hapart (hstrikes.next_eq_target hle (.inl hl))
      have hclamp : clampsAt steps (sizingCursor steps) k = false := by
        refine Bool.eq_false_iff.2 fun hclamps => hapart ?_
        exact hstrikes.next_eq_target hle
          (.inr (.inl ((clampsAt_iff hs hbefore.sizingCursor_eq).1 hclamps)))
      rcases Nat.lt_or_eq_of_le hle with hlt | heq
      · obtain ⟨j, hj, hshort, hbetween⟩ := ih (Nat.le_of_succ_le hk) hbefore hlt
        refine ⟨j, Nat.lt_succ_of_lt hj, hshort, fun i s hji hik hi => ?_⟩
        rcases Nat.lt_or_eq_of_le (Nat.le_of_lt_succ hik) with hik | rfl
        · exact hbetween i s hji hik hi
        · cases hs.symm.trans hi
          exact ⟨hjump, hclamp⟩
      · refine ⟨k, Nat.lt_succ_self k, ⟨_, v, hs, hbefore.written, fun hsupplied => hapart ?_⟩,
          fun i s hji hik => absurd hik (by omega)⟩
        exact hstrikes.next_eq_target hle (.inr (.inr ⟨heq, hsupplied⟩))

/-! ## What is reported -/

theorem Extent.reports_eq (he : e.Sound) {s : Step} (h : s.target e.pos ≤ maxPosition) :
    (s.extend e).diagnostics = s.clampReports e.pos := by
  rw [s.extend_eq he, if_pos h]

/-- Sizing reports the steps back past the start, in order. -/
theorem measure_take_reports (hmeasure : (measure steps).outcome = .ok e')
    (hwrite : (writeSteps steps size args).outcome = .ok w') (hsize : e'.size ≤ size)
    (hk : k ≤ steps.length) :
    (measure (steps.take k)).diagnostics =
      ((List.range k).filter (clampsAt steps (sizingCursor steps))).filterMap fun k =>
        steps[k]?.map fun s => .outsideOfString s.symbol := by
  induction k with
  | zero => rfl
  | succ k ih =>
      have hs := List.getElem?_eq_getElem hk
      obtain ⟨m, v, hbefore, _⟩ := exists_passesAt hmeasure hwrite hsize k
      obtain ⟨_, _, hafter, _⟩ := exists_passesAt hmeasure hwrite hsize (k + 1)
      obtain ⟨htarget, rfl, _⟩ := hbefore.next hafter hs
      have hmore : (measure (steps.take k ++ [steps[k]])).diagnostics =
          (measure (steps.take k)).diagnostics ++ steps[k].clampReports m.pos := by
        rw [measure, Reported.diagnostics_run_append hbefore.sized, List.foldlM_cons,
          Reported.diagnostics_bind ((Step.extend_eq_ok hbefore.sound).2 ⟨htarget, rfl⟩),
          Extent.reports_eq hbefore.sound htarget]
        exact congrArg _ (List.append_nil _)
      rw [List.take_add_one, hs, Option.toList_some, hmore, ih (Nat.le_of_succ_le hk),
        List.range_succ, List.filter_append, List.filterMap_append, Step.clampReports]
      congr 1
      by_cases hclamps : steps[k].layout = .backUp ∧ m.pos < steps[k].count
      · have hat := (clampsAt_iff hs hbefore.sizingCursor_eq).2 hclamps
        simp [hclamps, hat, hs]
      · have hat : clampsAt steps (sizingCursor steps) k = false :=
          Bool.eq_false_iff.2 fun h =>
            hclamps ((clampsAt_iff hs hbefore.sizingCursor_eq).1 h)
        simp [hclamps, hat]

end

/-! ## Packing -/

/-- The steps back that are reported are those at which sizing goes past the start, one by one and in
order, and writing clamps at each of them. Any other step back at which writing clamps comes after a
text that was short of digits, with no jump and no reported step between the two; if no text was
short, there is none. -/
theorem packFormat_clamps {room : Nat} {format : String} {directives : List Directive}
    {args : List Scalar} {plan : Plan} {bytes : List UInt8}
    (hparse : parseFormat format = .ok directives)
    (hbuild : (Plan.build directives args).outcome = .ok plan)
    (hpack : (packFormat room format args).outcome = .ok bytes) :
    (packFormat room format args).diagnostics.filter Diagnostic.isOutside =
        clampsReported plan.steps (sizingCursor plan.steps) ∧
    (∀ k, clampsAt plan.steps (sizingCursor plan.steps) k = true →
      clampsAt plan.steps (writingCursor plan.steps plan.size args) k = true) ∧
    (∀ k, clampsAt plan.steps (writingCursor plan.steps plan.size args) k = true →
      clampsAt plan.steps (sizingCursor plan.steps) k = false →
      ∃ j < k, ShortAt plan.steps plan.size args j ∧
        ∀ i s, j < i → i < k → plan.steps[i]? = some s →
          s.layout ≠ .absolute ∧ clampsAt plan.steps (sizingCursor plan.steps) i = false) ∧
    ((∀ symbol, .notEnoughCharacters symbol ∉ (packFormat room format args).diagnostics) →
      (packFormat room format args).diagnostics.filter Diagnostic.isOutside =
        clampsReported plan.steps (writingCursor plan.steps plan.size args)) := by
  rw [packFormat_of_parse hparse] at hpack ⊢
  obtain ⟨e, w, hmeasure, hsize, hwrite, _⟩ := packDirectives_passes hbuild hpack
  have hreports : (packDirectives room directives args).diagnostics.filter Diagnostic.isOutside =
      clampsReported plan.steps (sizingCursor plan.steps) := by
    rw [filter_isOutside_reports hbuild hpack, clampsReported,
      ← measure_take_reports hmeasure hwrite (Nat.le_of_eq hsize) (Nat.le_refl _),
      List.take_length]
  have hwriting : ∀ k, clampsAt plan.steps (sizingCursor plan.steps) k = true →
      clampsAt plan.steps (writingCursor plan.steps plan.size args) k = true := by
    intro k hclamps
    obtain ⟨m, v, hat, hle⟩ := exists_passesAt hmeasure hwrite (Nat.le_of_eq hsize) k
    exact hat.clampsAt_writing hle hclamps
  refine ⟨hreports, hwriting, fun k hclamps hquiet => ?_, fun hshort => ?_⟩
  · obtain ⟨m, v, hat, hle⟩ := exists_passesAt hmeasure hwrite (Nat.le_of_eq hsize) k
    obtain ⟨s, _, hs, _⟩ := exists_of_clampsAt hclamps
    obtain ⟨hl, hlt⟩ := (clampsAt_iff hs hat.writingCursor_eq).1 hclamps
    refine hat.exists_shortAt hmeasure hwrite (Nat.le_of_eq hsize)
      (Nat.le_of_lt (List.getElem?_eq_some_iff.1 hs).1) (Nat.lt_of_le_of_ne hle fun heq => ?_)
    rw [(clampsAt_iff hs hat.sizingCursor_eq).2 ⟨hl, heq ▸ hlt⟩] at hquiet
    cases hquiet
  · have hsame : sizingCursor plan.steps = writingCursor plan.steps plan.size args := by
      funext k
      obtain ⟨m, v, hm, _, hv, hpos⟩ := passes_agree hbuild hpack hshort k
      rw [(PassesAt.mk hm hv).sizingCursor_eq, (PassesAt.mk hm hv).writingCursor_eq, hpos]
    rw [hreports, hsame]

/-- After a text short of digits, one step back is clamped by writing alone and the next one by both
passes. -/
theorem packFormat_clamps_twice :
    let steps : List Step := [⟨⟨⟨'H', .hex .highFirst⟩, .count 4, 0⟩, 4⟩,
      ⟨⟨⟨'X', .backUp⟩, .count 2, 2⟩, 2⟩, ⟨⟨⟨'X', .backUp⟩, .count 1, 4⟩, 1⟩]
    (packFormat 2 "H4X2X" [.text "a"]).diagnostics.filter Diagnostic.isOutside =
        clampsReported steps (sizingCursor steps) ∧
      clampsReported steps (sizingCursor steps) = [.outsideOfString 'X'] ∧
      clampsAt steps (writingCursor steps 2 [.text "a"]) 2 = true ∧
      ∃ j < 1, ShortAt steps 2 [.text "a"] j := by
  intro steps
  have hparse : parseFormat "H4X2X" = .ok (steps.map Step.directive) := by decide +kernel
  have hbuild : (Plan.build (steps.map Step.directive) [.text "a"]).outcome =
      .ok ⟨steps, 2, 'H', 1⟩ := by decide +kernel
  have hpack : (packFormat 2 "H4X2X" [.text "a"]).outcome = .ok [0xA0, 0] := by decide +kernel
  obtain ⟨hreports, hboth, hapart, _⟩ := packFormat_clamps hparse hbuild hpack
  obtain ⟨j, hj, hshort, _⟩ := hapart 1 (by decide +kernel) (by decide +kernel)
  exact ⟨hreports, by decide +kernel, hboth 2 (by decide +kernel), j, hj, hshort⟩

/-- Two of four digits are missing: writing stands at 1, where sizing stands at 2, and a step of two
bytes back is clamped without a report. -/
theorem unreported_clamp :
    let digits : Directive := ⟨⟨'H', .hex .highFirst⟩, .count 4, 0⟩
    let back : Directive := ⟨⟨'X', .backUp⟩, .count 2, 2⟩
    let steps : List Step := [⟨digits, 4⟩, ⟨back, 2⟩]
    parseFormat "H4X2" = .ok [digits, back] ∧
      (Plan.build [digits, back] [.text "a"]).outcome = .ok ⟨steps, 2, 'H', 1⟩ ∧
      packFormat defaultRoom "H4X2" [.text "a"] =
        ⟨[.notEnoughCharacters 'H'], .ok [0xA0, 0]⟩ ∧
      clampsReported steps (writingCursor steps 2 [.text "a"]) = [.outsideOfString 'X'] ∧
      (packFormat defaultRoom "H4X2" [.text "a"]).diagnostics.filter Diagnostic.isOutside ≠
        clampsReported steps (writingCursor steps 2 [.text "a"]) := by
  intro digits back steps
  have hpack : packFormat defaultRoom "H4X2" [.text "a"] =
      ⟨[.notEnoughCharacters 'H'], .ok [0xA0, 0]⟩ := by
    apply Reported.ext <;> decide +kernel
  have hclamps : clampsReported steps (writingCursor steps 2 [.text "a"]) =
      [.outsideOfString 'X'] := by decide +kernel
  refine ⟨by decide +kernel, by decide +kernel, hpack, hclamps, ?_⟩
  rw [hpack, hclamps]
  decide

end BytePack
