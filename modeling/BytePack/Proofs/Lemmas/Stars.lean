import BytePack.Proofs.Lemmas.Settling
import BytePack.Proofs.Lemmas.Supply

/-!
# Counts in place of stars

The arguments settle what each `*` of a format stands for. Written in its place, the counts make a
format of the same codes without any `*`: a code never looks like more of the count before it. What
a step does depends on its code and its count only, so both formats lead to the same two passes.
-/

namespace BytePack

/-! ## Texts -/

/-- A text with each `*` replaced by one of some counts, in order, as far as they go. -/
def replaceStars : List Char → List Nat → List Char
  | [], _ => []
  | cs, [] => cs
  | c :: cs, n :: counts =>
    if c = '*' then (Repeat.count n).text.toList ++ replaceStars cs counts
    else c :: replaceStars cs (n :: counts)

/-- The counts that the arguments settle for the `*` of some directives. -/
def starCounts : List Directive → List Scalar → List Nat
  | [], _ => []
  | d :: ds, args =>
    match d.repetition with
    | .greedy => d.layout.starCount args :: starCounts ds (args.drop (d.needs args.length))
    | .count _ => starCounts ds (args.drop (d.needs args.length))

/-- A format with each `*` replaced by the count that the arguments settle for it. -/
def settledFormat (format : String) (directives : List Directive) (args : List Scalar) : String :=
  .ofList (replaceStars format.toList (starCounts directives args))

theorem replaceStars_of_not_mem {front : List Char} (h : '*' ∉ front) (cs : List Char)
    (counts : List Nat) : replaceStars (front ++ cs) counts = front ++ replaceStars cs counts := by
  cases counts with
  | nil =>
      cases front with
      | nil => rfl
      | cons c front => cases cs <;> simp [replaceStars]
  | cons n counts =>
      induction front with
      | nil => rfl
      | cons c front ih =>
          simp only [List.mem_cons, not_or] at h
          rw [List.cons_append, replaceStars, if_neg (Ne.symm h.1), ih h.2, List.cons_append]

theorem replaceStars_star (cs : List Char) (n : Nat) (counts : List Nat) :
    replaceStars ('*' :: cs) (n :: counts) =
      (Repeat.count n).text.toList ++ replaceStars cs counts :=
  if_pos rfl

theorem Repeat.Spells.star_not_mem {n : Nat} {spelling rest : List Char}
    (h : (Repeat.count n).Spells rest spelling) : '*' ∉ spelling := by
  cases h with
  | absent => exact List.not_mem_nil
  | digits _ hrun =>
      intro hmem
      exact absurd (hrun '*' hmem) (by decide)

/-- The text that follows a spelling may be replaced by another one that cannot be taken for more of
it. -/
theorem Repeat.Spells.before {r : Repeat} {spelling rest other : List Char}
    (h : r.Spells rest spelling) (hother : ∀ c ∈ other.head?, c ≠ '*' ∧ c.isDigit = false) :
    r.Spells other spelling := by
  cases h with
  | absent => exact .absent hother
  | star => exact .star
  | digits hne hrun _ hvalue => exact .digits hne hrun (fun c hc => (hother c hc).2) hvalue

/-! ## Directives -/

/-- Whether a directive says the same as a step: its code, with the count written out. -/
structure Directive.Spells (d : Directive) (s : Step) : Prop where
  code : d.code = s.directive.code
  repetition : d.repetition = .count s.count

/-- The spelling of a repeat becomes one of the settled count. -/
theorem exists_settled_spelling {d : Directive} {spelling rest : List Char}
    (h : d.repetition.Spells rest spelling) {args : List Scalar}
    (hcount : d.countFor args ≤ maxCount) (more : List Char) (ds : List Directive) :
    ∃ settled, replaceStars (spelling ++ more) (starCounts (d :: ds) args) =
        settled ++ replaceStars more (starCounts ds (args.drop (d.needs args.length))) ∧
      ∀ other : List Char, (∀ c ∈ other.head?, c ≠ '*' ∧ c.isDigit = false) →
        (Repeat.count (d.countFor args)).Spells other settled := by
  unfold Directive.countFor at hcount ⊢
  rw [starCounts]
  cases hr : d.repetition with
  | count n =>
      rw [hr] at h
      exact ⟨spelling, replaceStars_of_not_mem h.star_not_mem _ _, fun _ => h.before⟩
  | greedy =>
      rw [hr] at h hcount
      cases h
      exact ⟨_, replaceStars_star _ _ _, fun other hother =>
        Repeat.Writable.spells (r := .count _) hcount fun c hc => (hother c hc).2⟩

/-- With the settled counts in place of its stars, a text has tokens that spell the steps. -/
theorem exists_tokens_replaceStars {text : List Char} {position : Nat} {ds : List Directive}
    (h : Tokens [] position text ds) {args : List Scalar}
    (hcounts : ∀ s ∈ settle ds args, s.count ≤ maxCount) (start : Nat) :
    ∃ ds', Tokens [] start (replaceStars text (starCounts ds args)) ds' ∧
      List.Forall₂ (fun s d => d.Spells s) (settle ds args) ds' := by
  -- counts are longer than stars, so the tokens of the rest start elsewhere than they did
  induction h generalizing args start with
  | nil => exact ⟨[], .nil, .nil⟩
  | @cons position code r spelling more ds hcode hr _ ih =>
      obtain ⟨hcount, hcounts⟩ := List.forall_mem_cons.1 hcounts
      obtain ⟨settled, htext, hspells⟩ :=
        exists_settled_spelling (d := ⟨code, r, position⟩) hr hcount more ds
      obtain ⟨ds', htokens, hall⟩ :=
        ih hcounts (start + Utf8.size (code.symbol :: settled))
      have hsymbol : '*' ∉ [code.symbol] := by
        simpa using (Code.symbol_not_repeat hcode).1.symm
      rw [← List.singleton_append, replaceStars_of_not_mem hsymbol, htext,
        List.singleton_append]
      have hfollows := hspells _ htokens.head?
      rw [← List.append_nil (replaceStars more _)] at hfollows
      exact ⟨_, .cons hcode hfollows htokens, .cons ⟨rfl, rfl⟩ hall⟩

/-! ## Steps -/

/-- Whether two steps have the same code and count. Their directives may have other repeats and
stand elsewhere. -/
structure Step.Like (s t : Step) : Prop where
  code : s.directive.code = t.directive.code
  count : s.count = t.count

theorem Step.Like.layout_eq {s t : Step} (h : s.Like t) : s.layout = t.layout :=
  congrArg Code.layout h.code

theorem Step.Like.symbol_eq {s t : Step} (h : s.Like t) : s.symbol = t.symbol :=
  congrArg Code.symbol h.code

theorem Step.Like.extend_eq {s t : Step} (h : s.Like t) (e : Extent) : s.extend e = t.extend e := by
  have hmove : s.move e.pos = t.move e.pos := by
    unfold Step.move
    rw [h.layout_eq, h.count, h.symbol_eq]
  rw [Step.extend, Step.extend, hmove, h.symbol_eq]

theorem Step.Like.write_eq {s t : Step} (h : s.Like t) (w : Writer) :
    Step.write w s = Step.write w t := by
  have hstroke : s.stroke w.pos w.unread = t.stroke w.pos w.unread := by
    unfold Step.stroke
    rw [h.layout_eq, h.count, h.symbol_eq]
  rw [Step.write, Step.write, hstroke]

section
variable {steps others : List Step}

theorem run_congr {σ : Type} {f : σ → Step → Reported σ}
    (hf : ∀ {s t : Step}, s.Like t → ∀ m, f m s = f m t) (h : List.Forall₂ Step.Like steps others)
    (m : σ) : steps.foldlM f m = others.foldlM f m := by
  induction h generalizing m with
  | nil => rfl
  | cons hs _ ih =>
      rw [List.foldlM_cons, List.foldlM_cons, hf hs]
      exact Reported.bind_congr_ok fun m' _ => ih m'

theorem measure_congr (h : List.Forall₂ Step.Like steps others) : measure steps = measure others :=
  run_congr (fun hs e => hs.extend_eq e) h _

theorem writeSteps_congr (h : List.Forall₂ Step.Like steps others) (size : Nat)
    (args : List Scalar) : writeSteps steps size args = writeSteps others size args :=
  run_congr (fun hs w => hs.write_eq w) h _

end

/-! ## Plans -/

section
variable {d : Directive} {s : Step} (h : d.Spells s)
include h

theorem Directive.Spells.like (args : List Scalar) : s.Like ⟨d, d.countFor args⟩ :=
  ⟨h.code.symm, by simp [Directive.countFor, h.repetition]⟩

theorem Directive.Spells.needs_eq (left : Nat) : d.needs left = s.taken := by
  have hlayout : d.layout = s.layout := congrArg Code.layout h.code
  unfold Directive.needs Step.taken
  rw [hlayout, h.repetition]
  cases s.layout.argumentClass <;> rfl

theorem Directive.Spells.settleReports_eq : d.settleReports = [] := by
  unfold Directive.settleReports
  rw [h.repetition]
  split <;> simp_all

end

/-- Directives that spell steps settle to such steps, and need the arguments that these take. -/
theorem settle_of_spells {steps : List Step} {ds : List Directive}
    (h : List.Forall₂ (fun s d => d.Spells s) steps ds) {given : List Scalar}
    (henough : takenBy steps ≤ given.length) :
    AllServed given.length ds ∧ leftAfter given.length ds = given.length - takenBy steps ∧
      List.Forall₂ Step.Like steps (settle ds given) ∧ ds.flatMap Directive.settleReports = [] := by
  induction h generalizing given with
  | nil => exact ⟨trivial, rfl, .nil, rfl⟩
  | @cons s d steps ds hs _ ih =>
      rw [takenBy_cons] at henough
      have hmore : takenBy steps ≤ (given.drop s.taken).length := by
        rw [List.length_drop]
        omega
      obtain ⟨hserved, hleft, hlike, hquiet⟩ := ih hmore
      rw [List.length_drop] at hserved hleft
      refine ⟨⟨?_, ?_⟩, ?_, ?_, ?_⟩
      · rw [hs.needs_eq]
        omega
      · rwa [hs.needs_eq]
      · rw [leftAfter, hs.needs_eq, hleft, takenBy_cons]
        omega
      · rw [settle, hs.needs_eq]
        exact .cons (hs.like given) hlike
      · rw [List.flatMap_cons, hs.settleReports_eq, hquiet, List.append_nil]

/-- Whether two plans have the same size and lead to the same output, error and reports. -/
structure Plan.Like (plan other : Plan) : Prop where
  size : other.size = plan.size
  consumed : other.consumed = plan.consumed
  write : ∀ room given, other.write room given = plan.write room given

/-- The steps of a plan, spelled out, make a plan like it from any arguments that are enough. -/
theorem Plan.build_of_spells {directives settled : List Directive} {args given : List Scalar}
    {plan : Plan} (hbuild : (Plan.build directives args).outcome = .ok plan)
    (hsettled : List.Forall₂ (fun s d => d.Spells s) plan.steps settled)
    (henough : plan.consumed ≤ given.length) :
    ∃ other, plan.Like other ∧ Plan.build settled given =
      ⟨unusedReports (given.length - plan.consumed) ++ (measure plan.steps).diagnostics,
        .ok other⟩ := by
  obtain ⟨htaken, _⟩ := Plan.consumed_eq hbuild
  obtain ⟨hserved, hleft, hlike, hquiet⟩ := settle_of_spells hsettled (htaken ▸ henough)
  obtain ⟨_, e, _, hmeasure, hplan⟩ := Plan.build_eq_ok.1 hbuild
  have hsize : plan.size = e.size := congrArg Plan.size hplan
  have hfurthest : plan.furthest = e.furthest := congrArg Plan.furthest hplan
  refine ⟨⟨settle settled given, plan.size, plan.furthest, plan.consumed⟩,
    ⟨rfl, rfl, fun room b => ?_⟩, ?_⟩
  · rw [Plan.write, Plan.write, writeSteps_congr hlike]
  · rw [Plan.build_of_served hserved, hquiet, hleft, ← measure_congr hlike, ← htaken,
      hmeasure, hsize, hfurthest]
    have hleave : given.length - (given.length - plan.consumed) = plan.consumed := by omega
    simp [Except.map, hleave]

end BytePack
