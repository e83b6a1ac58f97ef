import BytePack.Proofs.Acceptance
import BytePack.Proofs.Lemmas.Spots

/-!
# Inputs inside others

Positions count from the offset, and a step back stops there. So groups that ask for a counted number
of bytes and jump to places inside an input read it in the same way wherever it lies: what stands in
front of the offset is out of reach, and what stands behind the input is not asked for.
-/

namespace BytePack

/-! ## One group -/

namespace Group

/-- Whether a group that reads data has a count. -/
def Counted (g : Group) : Prop :=
  g.directive.repetition = .greedy → g.directive.layout.argumentClass = .none

instance (g : Group) : Decidable g.Counted := inferInstanceAs (Decidable (_ → _))

/-- Whether a group that jumps stays inside an input of `length` bytes. -/
def JumpsWithin (length : Nat) (g : Group) : Prop :=
  g.directive.layout = .absolute → g.directive.distance ≤ length

variable {g : Group} {length length' : Nat}

theorem JumpsWithin.mono (h : g.JumpsWithin length) (hle : length ≤ length') :
    g.JumpsWithin length' :=
  fun hl => Nat.le_trans (h hl) hle

theorem Counted.wordCount_eq (h : g.Counted) (format : Number)
    (hl : g.directive.layout = .number format) (left left' : Nat) :
    g.wordCount format.width left = g.wordCount format.width left' := by
  unfold Counted at h
  unfold wordCount
  cases hr : g.directive.repetition with
  | count n => rfl
  | greedy => simp [hr, hl, Layout.argumentClass] at h

theorem Counted.room_eq (h : g.Counted) (left left' : Nat) : g.room left = g.room left' := by
  have hwords := fun format hl => h.wordCount_eq format hl left left'
  unfold Counted at h
  unfold room
  cases hl : g.directive.layout with
  | text padding | hex order =>
      cases hr : g.directive.repetition with
      | count n => rfl
      | greedy => simp [hr, hl, Layout.argumentClass] at h
  | number format => simp only [hwords format hl]
  | nulByte | backUp | absolute => rfl

theorem Counted.spots_eq (h : g.Counted) (length length' pos : Nat) :
    g.spots length pos = g.spots length' pos := by
  have hroom := h.room_eq (length - pos) (length' - pos)
  have hwords := fun format hl => h.wordCount_eq format hl (length - pos) (length' - pos)
  unfold Counted at h
  unfold spots
  cases hl : g.directive.layout with
  | text padding => simp only [hroom]
  | hex order =>
      have hdigits : g.digitCount (length - pos) = g.digitCount (length' - pos) := by
        unfold digitCount
        cases hr : g.directive.repetition with
        | count n => rfl
        | greedy => simp [hr, hl, Layout.argumentClass] at h
      simp only [hroom, hdigits]
  | number format => simp only [hwords format hl]
  | nulByte | backUp | absolute => rfl

theorem Counted.next_eq (h : g.Counted) (hjump : g.JumpsWithin length)
    (hjump' : g.JumpsWithin length') (pos : Nat) : g.next length pos = g.next length' pos := by
  have hroom := h.room_eq (length - pos) (length' - pos)
  unfold next
  cases hl : g.directive.layout with
  | backUp => rfl
  | absolute => simp only [if_pos (hjump hl), if_pos (hjump' hl)]
  | text | hex | number | nulByte => simp only [hroom]

theorem JumpsWithin.reports_eq (h : g.JumpsWithin length) (h' : g.JumpsWithin length')
    (pos : Nat) : g.reports length pos = g.reports length' pos := by
  unfold reports
  cases hl : g.directive.layout with
  | absolute => simp only [if_neg (Nat.not_lt.2 (h hl)), if_neg (Nat.not_lt.2 (h' hl))]
  | text | hex | number | nulByte | backUp => rfl

theorem Counted.fits_of_le (h : g.Counted) {left left' : Nat} (hfit : g.Fits left)
    (hle : left ≤ left') : g.Fits left' := by
  unfold Fits at hfit ⊢
  rw [h.room_eq left' left]
  exact Nat.le_trans hfit hle

/-- A jump past the end is reported. -/
theorem jumpsWithin_of_reports {pos : Nat} (h : g.directive.layout = .absolute →
    .outsideOfString g.directive.symbol ∉ g.reports length pos) : g.JumpsWithin length := by
  intro hl
  refine Nat.le_of_not_lt fun hpast => h hl ?_
  simp [reports, hl, hpast]

end Group

/-! ## Some groups -/

section
variable {length length' : Nat} {groups : List Group}

theorem jumpsWithin_of_reported {pos : Nat} (h : ∀ g ∈ groups, g.directive.layout = .absolute →
    .outsideOfString g.directive.symbol ∉ reported length pos groups) :
    ∀ g ∈ groups, g.JumpsWithin length := by
  induction groups generalizing pos with
  | nil => exact fun _ hg => absurd hg List.not_mem_nil
  | cons g groups ih =>
      simp only [reported, List.mem_append, not_or] at h
      obtain ⟨hg, hgroups⟩ := List.forall_mem_cons.1 h
      exact List.forall_mem_cons.2 ⟨Group.jumpsWithin_of_reports fun hl => (hg hl).1,
        ih fun g' hg' hl => (hgroups g' hg' hl).2⟩

/-- In a longer input the groups that fit into a shorter one fit at the same places. -/
theorem AllFit.of_le (hle : length ≤ length') (hcounted : ∀ g ∈ groups, g.Counted)
    (hjumps : ∀ g ∈ groups, g.JumpsWithin length) {pos : Nat} (h : AllFit length pos groups) :
    AllFit length' pos groups ∧ reported length' pos groups = reported length pos groups ∧
      spots length' pos groups = spots length pos groups := by
  induction groups generalizing pos with
  | nil => exact ⟨trivial, rfl, rfl⟩
  | cons g groups ih =>
      obtain ⟨hg, hcounted⟩ := List.forall_mem_cons.1 hcounted
      obtain ⟨hjump, hjumps⟩ := List.forall_mem_cons.1 hjumps
      obtain ⟨hfit, hrest⟩ := h
      have hjump' := hjump.mono hle
      have hnext := hg.next_eq hjump' hjump pos
      obtain ⟨hfits, hreports, hspots⟩ := ih hcounted hjumps hrest
      refine ⟨⟨hg.fits_of_le hfit (Nat.sub_le_sub_right hle pos), ?_⟩, ?_, ?_⟩
      · rwa [hnext]
      · rw [reported, reported, hnext, hreports, hjump'.reports_eq hjump]
      · rw [spots, spots, hnext, hspots, hg.spots_eq length' length]

end

theorem Spot.field_append {spot : Spot} {input : List UInt8} (after : List UInt8)
    (h : spot.pos + spot.size ≤ input.length) : spot.field (input ++ after) = spot.field input := by
  refine Agrees.field_eq fun i _ hi => ?_
  exact List.getElem?_append_left (Nat.lt_of_lt_of_le hi h)

theorem emitted_append {input : List UInt8} {groups : List Group} (after : List UInt8)
    (hfit : AllFit input.length 0 groups)
    (hspots : spots (input ++ after).length 0 groups = spots input.length 0 groups) :
    emitted (input ++ after) 0 groups = emitted input 0 groups := by
  rw [emitted_eq, emitted_eq, hspots]
  exact List.map_congr_left fun spot hspot =>
    Spot.field_append after (hfit.spots_within (Nat.zero_le _) spot hspot)

theorem allFit_of_outcome {groups : List Group} {input : List UInt8} {reports : List Diagnostic}
    {record : Record} (h : unpackGroups groups input 0 = ⟨reports, .ok record⟩) :
    AllFit input.length 0 groups := by
  apply Classical.byContradiction
  intro hmisfit
  obtain ⟨before, g, hfirst⟩ := exists_firstMisfit hmisfit
  rw [hfirst.unpackGroups_eq (Nat.zero_le _)] at h
  cases h

/-! ## A part of an input -/

/-- Groups that have a count where they read data, and that read an input without the report of a jump
past its end, read the same wherever that input lies inside another one. -/
theorem unpackGroups_embedded {groups : List Group} {inner : List UInt8}
    {reports : List Diagnostic} {record : Record} (hcounted : ∀ g ∈ groups, g.Counted)
    (hread : unpackGroups groups inner 0 = ⟨reports, .ok record⟩)
    (hjumps : ∀ g ∈ groups, g.directive.layout = .absolute →
      .outsideOfString g.directive.symbol ∉ reports) (before after : List UInt8) :
    unpackGroups groups (before ++ inner ++ after) before.length = ⟨reports, .ok record⟩ := by
  have hfit := allFit_of_outcome hread
  rw [unpackGroups_of_allFit (Nat.zero_le _) hfit] at hread
  obtain ⟨rfl, hrecord⟩ := Reported.mk.inj hread
  have hlen : (before ++ inner ++ after).length - before.length = (inner ++ after).length := by
    rw [List.append_assoc, List.length_append, Nat.add_sub_cancel_left]
  have hdrop : (before ++ inner ++ after).drop before.length = inner ++ after := by
    rw [List.append_assoc, List.drop_left]
  have hle : inner.length ≤ (inner ++ after).length := by simp
  obtain ⟨hfits, hreports, hspots⟩ := hfit.of_le hle hcounted (jumpsWithin_of_reported hjumps)
  rw [unpackGroups_of_allFit (by simp) (by rwa [hlen]), hlen, hdrop, hreports,
    emitted_append after hfit hspots]
  exact congrArg _ hrecord

/-- Back past the start of the inner input, ahead to its last byte, and a `*` that counts as 1. -/
theorem unpackGroups_embedded_seeks :
    let groups : List Group :=
      [⟨⟨⟨'n', .number (.integer .short .bigEndian false)⟩, .count 1, 0⟩, "id"⟩,
        ⟨⟨⟨'X', .backUp⟩, .count 5, 4⟩, ""⟩,
        ⟨⟨⟨'x', .nulByte⟩, .greedy, 7⟩, ""⟩,
        ⟨⟨⟨'H', .hex .highFirst⟩, .count 3, 10⟩, "digits"⟩,
        ⟨⟨⟨'@', .absolute⟩, .count 3, 19⟩, ""⟩,
        ⟨⟨⟨'A', .text .space⟩, .count 1, 22⟩, "id"⟩]
    ∃ record,
      unpackGroups groups [0x12, 0x34, 0x56, 0x20] 0 =
        ⟨[.outsideOfString 'X', .greedyIgnored 'x'], .ok record⟩ ∧
      unpackGroups groups ([0xFF, 0xFE, 0xFD] ++ [0x12, 0x34, 0x56, 0x20] ++ [0x41, 0x42]) 3 =
        ⟨[.outsideOfString 'X', .greedyIgnored 'x'], .ok record⟩ ∧
      record.keys = ["id", "digits"] ∧ record.get? "id" = some (.bytes []) ∧
      record.get? "digits" = some (.bytes [0x33, 0x34, 0x35]) := by
  intro groups
  have hfit : AllFit 4 0 groups := by decide +kernel
  have hread : unpackGroups groups [0x12, 0x34, 0x56, 0x20] 0 =
      ⟨[.outsideOfString 'X', .greedyIgnored 'x'],
        .ok (Record.ofList (emitted [0x12, 0x34, 0x56, 0x20] 0 groups))⟩ :=
    unpackGroups_of_allFit (by decide) hfit
  have hcollects := Record.collects_ofList (emitted [0x12, 0x34, 0x56, 0x20] 0 groups)
  refine ⟨_, hread, unpackGroups_embedded (by decide) hread (by decide) [0xFF, 0xFE, 0xFD]
    [0x41, 0x42], ?_, ?_, ?_⟩
  · rw [hcollects.keys]
    decide +kernel
  · rw [hcollects.get?]
    decide +kernel
  · rw [hcollects.get?]
    decide +kernel

end BytePack
