import BytePack.Proofs.Lemmas.Demands
import BytePack.Proofs.Lemmas.Printing
import BytePack.Proofs.Lemmas.Reading

/-!
# Settled counts

A settled count is the written one, except that `*` stands for the arguments at hand, and for 1
where it is ignored. What sizing accepts is small enough to be written as a repeat, so every step of
a plan can be written as a group.
-/

namespace BytePack

/-- How the count of a step follows from the repeat of its directive. -/
structure Step.Settled (s : Step) : Prop where
  counted : ∀ n, s.directive.repetition = .count n → s.count = n
  ignored : s.directive.repetition = .greedy → s.layout.argumentClass = .none → s.count = 1

theorem Directive.demand_settled {d : Directive} {args : List Scalar} {demand : Demand}
    (h : (d.demand args).outcome = .ok demand) : (Step.mk d demand.count).Settled := by
  rw [d.demand_eq] at h
  simp only at h
  split at h
  · cases h
    constructor
    · intro n hn
      simp only at hn
      simp [Directive.countFor, hn]
    · intro hgreedy hnone
      simp only [Step.layout] at hgreedy hnone
      simp only [Directive.countFor, hgreedy]
      cases hl : d.layout <;> simp_all [Layout.argumentClass, Layout.starCount]
  · cases h

theorem resolve_cons_eq_ok {d : Directive} {ds : List Directive} {args rest : List Scalar}
    {steps : List Step} :
    (resolve (d :: ds) args).outcome = .ok (steps, rest) ↔
      ∃ demand more, (d.demand args).outcome = .ok demand ∧
        (resolve ds (args.drop demand.taken)).outcome = .ok (more, rest) ∧
        steps = ⟨d, demand.count⟩ :: more := by
  simp only [resolve, Reported.bind_outcome_eq_ok, Reported.pure_eq, Except.ok.injEq,
    Prod.mk.injEq]
  constructor
  · rintro ⟨demand, hd, ⟨more, rest'⟩, hmore, rfl, rfl⟩
    exact ⟨demand, more, hd, hmore, rfl⟩
  · rintro ⟨demand, more, hd, hmore, rfl⟩
    exact ⟨demand, hd, (more, rest), hmore, rfl, rfl⟩

theorem resolve_settled {format : List Directive} {args rest : List Scalar} {steps : List Step}
    (h : (resolve format args).outcome = .ok (steps, rest)) :
    ∀ s ∈ steps, s.directive ∈ format ∧ s.Settled := by
  induction format generalizing args steps with
  | nil =>
      cases h
      simp
  | cons d ds ih =>
      obtain ⟨demand, more, hd, hmore, rfl⟩ := resolve_cons_eq_ok.1 h
      refine List.forall_mem_cons.2 ⟨⟨List.mem_cons_self, Directive.demand_settled hd⟩, ?_⟩
      intro s hs
      obtain ⟨hmem, hsettled⟩ := ih hmore s hs
      exact ⟨List.mem_cons_of_mem _ hmem, hsettled⟩

/-! ## What a step looks like as a group -/

/-- The group that asks for what a step stores. -/
def Step.group (s : Step) (name : String) : Group :=
  ⟨{ s.directive with repetition := .count s.count }, name⟩

theorem Step.count_le_of_target_le {s : Step} (hcode : s.directive.repetition.Writable)
    (hs : s.Settled) {pos : Nat} (ht : s.target pos ≤ maxPosition) : s.count ≤ maxCount := by
  have hmax : 2 * maxPosition < maxCount := by decide
  cases hr : s.directive.repetition with
  | count n =>
      rw [hr] at hcode
      rw [hs.counted n hr]
      exact hcode
  | greedy =>
      unfold Step.target at ht
      cases hl : s.layout with
      | text padding =>
          simp only [hl, Layout.span] at ht
          omega
      | hex order =>
          simp only [hl, Layout.span, nibbleRoom] at ht
          omega
      | number format =>
          simp only [hl, Layout.span] at ht
          have := Nat.le_mul_of_pos_right s.count format.width_pos
          omega
      | nulByte =>
          rw [hs.ignored hr (by rw [hl]; rfl)]
          decide
      | backUp =>
          rw [hs.ignored hr (by rw [hl]; rfl)]
          decide
      | absolute =>
          rw [hs.ignored hr (by rw [hl]; rfl)]
          decide

theorem exists_target_of_measure {steps : List Step} {e : Extent}
    (h : (measure steps).outcome = .ok e) :
    ∀ s ∈ steps, ∃ pos, s.target pos ≤ maxPosition := by
  intro s hs
  obtain ⟨before, after, rfl⟩ := List.append_of_mem hs
  obtain ⟨e₁, _, hafter, he₁, _⟩ := measure_append h
  have hs := extent_run_cons he₁ hafter
  exact ⟨e₁.pos, Nat.le_trans hs.target_le (extent_run_sound he₁ hafter).1.size_le⟩

/-! ## The steps of a plan -/

section
variable {format : String} {directives : List Directive} {args : List Scalar} {plan : Plan}

theorem Plan.directive_mem (hbuild : (Plan.build directives args).outcome = .ok plan) :
    ∀ s ∈ plan.steps, s.directive ∈ directives := by
  obtain ⟨_, _, hresolve, _⟩ := Plan.build_eq_ok.1 hbuild
  exact fun s hs => (resolve_settled hresolve s hs).1

theorem Plan.directive_writable (hparse : parseFormat format = .ok directives)
    (hbuild : (Plan.build directives args).outcome = .ok plan) :
    ∀ s ∈ plan.steps, s.directive.Writable :=
  fun s hs => readDirectives_writable hparse _ (Plan.directive_mem hbuild s hs)

theorem Plan.group_writable (hparse : parseFormat format = .ok directives)
    (hbuild : (Plan.build directives args).outcome = .ok plan) {s : Step} (hs : s ∈ plan.steps)
    (name : String) : (s.group name).directive.Writable := by
  obtain ⟨_, _, hresolve, hmeasure, _⟩ := Plan.build_eq_ok.1 hbuild
  obtain ⟨pos, htarget⟩ := exists_target_of_measure hmeasure s hs
  have hd := Plan.directive_writable hparse hbuild s hs
  have hsettled := (resolve_settled hresolve s hs).2
  exact ⟨hd.code, Step.count_le_of_target_le hd.repetition hsettled htarget⟩

/-- The format that asks for named steps. -/
def namedFormat (named : List (Step × String)) : String :=
  groupFormat (named.map fun p => p.1.group p.2)

/-- The steps of a plan, named and written as groups, read back as groups that ask for them. -/
theorem parseGroups_namedFormat (hparse : parseFormat format = .ok directives)
    (hbuild : (Plan.build directives args).outcome = .ok plan) {named : List (Step × String)}
    (hnamed : named.map Prod.fst = plan.steps) (hnames : ∀ p ∈ named, NameWritable p.2)
    (limit : Nat) :
    ∃ groups, parseGroups (namedFormat named) limit = .ok groups ∧
      List.Forall₂ (fun p g => g.Asks p.1 ∧ g.name = cutName limit p.2.toList) named groups := by
  have hwritable : ∀ g ∈ named.map fun p => p.1.group p.2,
      g.directive.Writable ∧ NameWritable g.name := by
    intro g hg
    obtain ⟨p, hp, rfl⟩ := List.mem_map.1 hg
    have hs : p.1 ∈ plan.steps := hnamed ▸ List.mem_map_of_mem hp
    exact ⟨Plan.group_writable hparse hbuild hs p.2, hnames p hp⟩
  obtain ⟨groups, hgroups, hall⟩ := parseGroups_groupFormat limit hwritable
  refine ⟨groups, hgroups, (List.forall₂_map_left_iff.1 hall).imp ?_⟩
  intro p g h
  exact ⟨⟨h.code, h.repetition⟩, h.name⟩

end

end BytePack
