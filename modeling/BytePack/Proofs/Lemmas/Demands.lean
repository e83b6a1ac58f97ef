import BytePack.Proofs.Lemmas.Sizing

/-!
# What directives need

Walking over directives takes numbers of arguments only: a text needs one whatever its count, numbers
need one each, `*` on numbers needs all that are left, and a directive that places the cursor needs
none. Settling succeeds exactly if every directive finds what it needs, and otherwise fails at the
first one that does not.
-/

namespace BytePack

/-! ## One directive -/

/-- The number of arguments that a directive needs where some are left. -/
def Directive.needs (d : Directive) (left : Nat) : Nat :=
  match d.layout.argumentClass, d.repetition with
  | .none, _ => 0
  | .string, _ => 1
  | .repetition, .count n => n
  | .repetition, .greedy => left

/-- What is wrong where a directive needs more arguments than are left. -/
def Directive.shortage (d : Directive) : ArgumentFault :=
  match d.layout.argumentClass with
  | .string => .notEnough d.symbol
  | _ => .tooFew d.symbol

/-- The count that `*` stands for on a layout, with the arguments that are left: the length of the
first one for a text, with a byte more if a NUL ends it, their number for numbers, else 1. -/
def Layout.starCount (layout : Layout) (args : List Scalar) : Nat :=
  match layout with
  | .text .terminated => (args.headD .null).toBytes.length + 1
  | .text _ => (args.headD .null).toBytes.length
  | .hex _ => (args.headD .null).toBytes.length
  | .number _ => args.length
  | _ => 1

/-- The count of a directive with the arguments that are left. -/
def Directive.countFor (d : Directive) (args : List Scalar) : Nat :=
  match d.repetition with
  | .count n => n
  | .greedy => d.layout.starCount args

/-- What is reported of a directive: a `*` that is ignored. -/
def Directive.settleReports (d : Directive) : List Diagnostic :=
  match d.layout.argumentClass, d.repetition with
  | .none, .greedy => [.greedyIgnored d.symbol]
  | _, _ => []

theorem Directive.mem_settleReports {d : Directive} {report : Diagnostic}
    (h : report ∈ d.settleReports) : report = .greedyIgnored d.symbol := by
  unfold Directive.settleReports at h
  split at h
  · exact List.mem_singleton.1 h
  · exact absurd h List.not_mem_nil

theorem greedyLength_eq_starCount {layout : Layout} (h : layout.argumentClass = .string) (a : Scalar)
    (args : List Scalar) : greedyLength layout a = layout.starCount (a :: args) := by
  cases layout with
  | text padding => cases padding <;> rfl
  | hex order => rfl
  | _ => cases h

/-- A directive demands its count and the arguments that it needs, if they are there. -/
theorem Directive.demand_eq (d : Directive) (args : List Scalar) :
    d.demand args = ⟨d.settleReports,
      if d.needs args.length ≤ args.length then .ok ⟨d.countFor args, d.needs args.length⟩
      else .error (.argument d.shortage)⟩ := by
  unfold Directive.demand Directive.needs Directive.countFor Directive.settleReports
    Directive.shortage
  cases hclass : d.layout.argumentClass with
  | none =>
      have hstar : d.layout.starCount args = 1 := by
        cases hl : d.layout <;> simp_all [Layout.argumentClass, Layout.starCount]
      cases d.repetition with
      | greedy => simp [hstar]
      | count n => simp [Reported.done]
  | string =>
      cases args with
      | nil => simp [Reported.fail]
      | cons a args =>
          cases d.repetition with
          | greedy => simp [greedyLength_eq_starCount hclass a args, Reported.done]
          | count n => simp [Reported.done]
  | repetition =>
      have hstar : d.layout.starCount args = args.length := by
        cases hl : d.layout <;> simp_all [Layout.argumentClass, Layout.starCount]
      cases d.repetition with
      | greedy => simp [hstar, Reported.done]
      | count n =>
          by_cases h : args.length < n
          · simp [h, Nat.not_le.2 h, Reported.fail]
          · simp [h, Nat.not_lt.1 h, Reported.done]

/-! ## Some directives -/

/-- The number of arguments that some directives leave over. -/
def leftAfter : Nat → List Directive → Nat
  | left, [] => left
  | left, d :: ds => leftAfter (left - d.needs left) ds

/-- Whether each of some directives finds the arguments that it needs. -/
def AllServed : Nat → List Directive → Prop
  | _, [] => True
  | left, d :: ds => d.needs left ≤ left ∧ AllServed (left - d.needs left) ds

instance decidableAllServed : (left : Nat) → (ds : List Directive) → Decidable (AllServed left ds)
  | _, [] => isTrue trivial
  | left, d :: ds =>
    have := decidableAllServed (left - d.needs left) ds
    inferInstanceAs (Decidable (_ ∧ _))

/-- Whether `d` is the first of some directives that needs more arguments than are left, with the
directives `before` it. -/
structure FirstShort (left : Nat) (ds before : List Directive) (d : Directive) : Prop where
  stands : before ++ [d] <+: ds
  before_served : AllServed left before
  short : leftAfter left before < d.needs (leftAfter left before)

/-- The steps of some directives with the counts that the arguments settle. -/
def settle : List Directive → List Scalar → List Step
  | [], _ => []
  | d :: ds, args => ⟨d, d.countFor args⟩ :: settle ds (args.drop (d.needs args.length))

/-- What is reported of arguments that are left over. -/
def unusedReports (left : Nat) : List Diagnostic :=
  if left = 0 then [] else [.unusedArguments left]

theorem leftAfter_le (left : Nat) (ds : List Directive) : leftAfter left ds ≤ left := by
  induction ds generalizing left with
  | nil => exact Nat.le_refl left
  | cons d ds ih => exact Nat.le_trans (ih _) (Nat.sub_le _ _)

theorem length_drop_leftAfter (args : List Scalar) (ds : List Directive) :
    (args.drop (args.length - leftAfter args.length ds)).length = leftAfter args.length ds := by
  have hle := leftAfter_le args.length ds
  rw [List.length_drop]
  omega

theorem unusedReports_rest (args : List Scalar) (ds : List Directive) :
    (if (args.drop (args.length - leftAfter args.length ds)).isEmpty then []
      else [.unusedArguments (leftAfter args.length ds)]) =
        unusedReports (leftAfter args.length ds) := by
  have hlen := length_drop_leftAfter args ds
  generalize args.drop (args.length - leftAfter args.length ds) = rest at hlen ⊢
  rw [← hlen]
  cases rest <;> rfl

theorem resolve_of_served {args : List Scalar} {ds : List Directive}
    (h : AllServed args.length ds) :
    resolve ds args = ⟨ds.flatMap Directive.settleReports,
      .ok (settle ds args, args.drop (args.length - leftAfter args.length ds))⟩ := by
  induction ds generalizing args with
  | nil => simp [resolve, settle, leftAfter]
  | cons d ds ih =>
      obtain ⟨hd, hrest⟩ := h
      rw [← List.length_drop] at hrest
      have hleft := leftAfter_le (args.length - d.needs args.length) ds
      have hdrop : d.needs args.length + (args.length - d.needs args.length -
          leftAfter (args.length - d.needs args.length) ds) =
            args.length - leftAfter args.length (d :: ds) := by
        rw [leftAfter]
        omega
      rw [resolve, d.demand_eq, if_pos hd]
      simp only [Reported.bind_ok, ih hrest, Reported.pure_eq, List.drop_drop, List.length_drop,
        hdrop, List.append_nil, List.flatMap_cons, settle]

theorem FirstShort.resolve_eq {args : List Scalar} {ds before : List Directive} {d : Directive}
    (h : FirstShort args.length ds before d) :
    resolve ds args =
      ⟨before.flatMap Directive.settleReports, .error (.argument d.shortage)⟩ := by
  obtain ⟨⟨after, rfl⟩, hbefore, hshort⟩ := h
  rw [List.append_assoc, List.singleton_append]
  induction before generalizing args with
  | nil =>
      have hreports : d.settleReports = [] := by
        unfold Directive.needs leftAfter at hshort
        unfold Directive.settleReports
        cases hclass : d.layout.argumentClass <;> simp_all
      rw [leftAfter] at hshort
      rw [List.nil_append, resolve, d.demand_eq, if_neg (Nat.not_le.2 hshort), hreports]
      rfl
  | cons b before ih =>
      obtain ⟨hb, hbefore⟩ := hbefore
      rw [leftAfter] at hshort
      rw [← List.length_drop] at hbefore hshort
      rw [List.cons_append, resolve, b.demand_eq, if_pos hb, Reported.bind_ok, ih hbefore hshort]
      rfl

/-- Directives that are not all served have a first one that is not. -/
theorem exists_firstShort {left : Nat} {ds : List Directive} (h : ¬ AllServed left ds) :
    ∃ before d, FirstShort left ds before d := by
  induction ds generalizing left with
  | nil => exact absurd trivial h
  | cons d ds ih =>
      by_cases hd : d.needs left ≤ left
      · have hrest : ¬ AllServed (left - d.needs left) ds := fun hrest => h ⟨hd, hrest⟩
        obtain ⟨before, b, hstands, hbefore, hshort⟩ := ih hrest
        exact ⟨d :: before, b, List.cons_prefix_cons.2 ⟨rfl, hstands⟩, ⟨hd, hbefore⟩, hshort⟩
      · exact ⟨[], d, ⟨ds, rfl⟩, trivial, Nat.lt_of_not_le hd⟩

/-! ## Plans -/

section
variable {directives : List Directive} {args : List Scalar}

theorem FirstShort.build_eq {before : List Directive} {d : Directive}
    (h : FirstShort args.length directives before d) :
    Plan.build directives args =
      ⟨before.flatMap Directive.settleReports, .error (.argument d.shortage)⟩ := by
  rw [Plan.build, h.resolve_eq, Reported.bind_error]

/-- With enough arguments it is sizing that decides whether there is a plan. -/
theorem Plan.build_of_served (h : AllServed args.length directives) :
    Plan.build directives args =
      ⟨directives.flatMap Directive.settleReports ++ (unusedReports (leftAfter args.length directives)
          ++ (measure (settle directives args)).diagnostics),
        (measure (settle directives args)).outcome.map fun extent =>
          ⟨settle directives args, extent.size, extent.furthest,
            args.length - leftAfter args.length directives⟩⟩ := by
  rw [Plan.build, resolve_of_served h, Reported.bind_ok]
  simp only [Reported.report_bind, length_drop_leftAfter, unusedReports_rest]
  rcases measure (settle directives args) with ⟨reports, _ | extent⟩
  · rfl
  · simp [Except.map]

/-- A plan that was built has the settled steps and takes all that the directives do not leave
over. -/
theorem Plan.build_eq_ok_settle {plan : Plan} :
    (Plan.build directives args).outcome = .ok plan ↔
      AllServed args.length directives ∧
        ∃ e, (measure (settle directives args)).outcome = .ok e ∧
          plan = ⟨settle directives args, e.size, e.furthest,
            args.length - leftAfter args.length directives⟩ := by
  by_cases hserved : AllServed args.length directives
  · rw [Plan.build_of_served hserved]
    cases (measure (settle directives args)).outcome with
    | error err => simp [Except.map]
    | ok e => simp [Except.map, hserved, eq_comm]
  · obtain ⟨before, d, hfirst⟩ := exists_firstShort hserved
    rw [hfirst.build_eq]
    simp [hserved]

end

end BytePack
