import BytePack.Proofs.Lemmas.Sizing
import BytePack.Proofs.Lemmas.Taking
import Mathlib.Data.List.Forall2

/-!
# Reading along the steps

A group that asks for what a step stores moves a reader exactly as the step moves sizing: to the
same position, with the same report of a step back past the start. It needs no more input than the
step needs output, so along the steps of a plan the size of the plan is enough.
-/

namespace BytePack

/-! ## One group -/

/-- Whether a group asks for what a step stores. -/
structure Group.Asks (g : Group) (s : Step) : Prop where
  code : g.directive.code = s.directive.code
  repetition : g.directive.repetition = .count s.count

/-- The fields of a layout that lie in some bytes. -/
def Layout.fields (layout : Layout) (name : String) (n : Nat) (bytes : List UInt8) :
    List (String × Value) :=
  match layout with
  | .text padding => numbered name true [.bytes (padding.strip bytes)]
  | .hex order => numbered name true [.bytes (renderNibbles bytes n order)]
  | .number format => numbered name (n == 1) ((pieces format.width n bytes).map format.decode)
  | _ => []

/-- A group reads what lies between the cursor and the target of its step. -/
theorem Group.Asks.read_eq {g : Group} {s : Step} (h : g.Asks s) {r : Reader}
    (hend : s.target r.pos ≤ r.input.length) :
    g.read r = ⟨s.clampReports r.pos,
      .ok ⟨s.layout.fields g.name s.count (r.rest.take (s.layout.span s.count)),
        s.target r.pos⟩⟩ := by
  have hlayout : g.directive.layout = s.layout := congrArg Code.layout h.code
  have hsymbol : g.directive.symbol = s.symbol := congrArg Code.symbol h.code
  have hdistance : g.directive.distance = s.count := by simp [Directive.distance, h.repetition]
  have hquiet : g.directive.ignoredReports = [] := by simp [Directive.ignoredReports, h.repetition]
  rw [Group.read_eq]
  unfold Step.target at hend ⊢
  unfold Step.clampReports Group.reports Group.Fits Group.emits Group.next Group.room Layout.fields
  simp only [hlayout, hsymbol, hdistance, hquiet, h.repetition, Reader.length_rest, Group.wordCount,
    Group.digitCount]
  cases hl : s.layout with
  | text padding =>
      simp only [hl, Layout.span] at hend ⊢
      have hfits : s.count ≤ r.remaining := by
        unfold Reader.remaining
        omega
      simp [hfits, numbered_singleton]
  | hex order =>
      simp only [hl, Layout.span] at hend ⊢
      have hfits : nibbleRoom s.count ≤ r.remaining := by
        unfold Reader.remaining
        omega
      simp [hfits, numbered_singleton]
  | number format =>
      simp only [hl, Layout.span] at hend ⊢
      have hfits : s.count * format.width ≤ r.remaining := by
        unfold Reader.remaining
        omega
      have hsingle : (Repeat.count s.count == Repeat.count 1) = (s.count == 1) := by
        rw [Bool.eq_iff_iff]
        simp
      rw [pieces_take, pieces_eq_map]
      simp [hfits, hsingle, numbered_map_range]
  | nulByte =>
      simp only [hl, Layout.span] at hend ⊢
      have hfits : s.count ≤ r.remaining := by
        unfold Reader.remaining
        omega
      simp [hfits]
  | backUp => simp
  | absolute =>
      simp only [hl] at hend
      simp [hend, Nat.not_lt.2 hend]

/-! ## Some groups -/

/-- The reader after a group. -/
def Group.advance (r : Reader) (g : Group) : Reported Reader := do
  let reading ← g.read r
  pure { r with pos := reading.next }

theorem readFields_of_run {groups : List Group} {r r' : Reader}
    (h : (groups.foldlM Group.advance r).outcome = .ok r') :
    ∃ fields, readFields r groups =
      ⟨(groups.foldlM Group.advance r).diagnostics, .ok fields⟩ := by
  induction groups generalizing r with
  | nil => exact ⟨[], rfl⟩
  | cons g rest ih =>
      obtain ⟨m, hm, hrest⟩ := Reported.run_cons_eq_ok.1 h
      obtain ⟨reading, hread, hm'⟩ := Reported.bind_outcome_eq_ok.1 hm
      cases hm'
      obtain ⟨fields, hfields⟩ := ih hrest
      refine ⟨reading.fields ++ fields, ?_⟩
      rw [readFields, Reported.bind_of_ok hread, hfields, List.foldlM_cons,
        Reported.diagnostics_bind hm, Group.advance, Reported.diagnostics_bind hread]
      simp

/-- Along the steps of a sized run the reader keeps to the cursor of sizing. -/
theorem reader_run_eq {steps : List Step} {groups : List Group}
    (h : List.Forall₂ Group.Asks groups steps) {input : List UInt8} {e e' : Extent}
    (he : e.Sound) (hsize : (steps.foldlM Step.extend e).outcome = .ok e')
    (hlen : e'.size ≤ input.length) :
    groups.foldlM Group.advance ⟨input, e.pos⟩ =
      ⟨(steps.foldlM Step.extend e).diagnostics, .ok ⟨input, e'.pos⟩⟩ := by
  induction h generalizing e with
  | nil =>
      rw [Reported.run_nil_eq_ok] at hsize
      subst hsize
      rfl
  | @cons g s groups steps hg _ ih =>
      have hs := extent_run_cons he hsize
      have hread : g.read ⟨input, e.pos⟩ = _ := hg.read_eq (Nat.le_trans hs.target_le hlen)
      have hadvance : Group.advance ⟨input, e.pos⟩ g =
          ⟨s.clampReports e.pos, .ok ⟨input, s.target e.pos⟩⟩ := by
        rw [Group.advance, hread]
        simp
      have hrun := ih hs.sound hs.run_rest
      rw [Extent.after_pos] at hrun
      rw [List.foldlM_cons, List.foldlM_cons, hadvance, hs.extend, Reported.bind_ok,
        Reported.bind_ok, hrun]

end BytePack
