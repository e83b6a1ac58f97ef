import BytePack.Proofs.Lemmas.Demands
import BytePack.Proofs.Lemmas.InPlace
import BytePack.Proofs.Lemmas.Printing

/-!
# Sizing with checks

Settling can count the arguments that are used instead of dropping them from a list, and sizing can
halve digits by division and remainder. Here every sum made on the way checks that it is a 64-bit
number, and every difference that it is not negative; nothing is left of a run that fails one check.
With repeats that can be written, and arguments that fit into memory, no check fails.
-/

namespace BytePack

/-! ## Checks -/

section
variable {α β : Type}

/-- Goes on with the value of a call, as long as no check fails. -/
def Reported.andThen? (x : Reported α) (f : α → Option (Reported β)) : Option (Reported β) :=
  match x.outcome with
  | .ok a => (f a).map fun y => ⟨x.diagnostics ++ y.diagnostics, y.outcome⟩
  | .error e => some ⟨x.diagnostics, .error e⟩

theorem Reported.andThen?_eq {x : Reported α} {f : α → Option (Reported β)} {g : α → Reported β}
    (h : ∀ a, x.outcome = .ok a → f a = some (g a)) : x.andThen? f = some (x >>= g) := by
  unfold Reported.andThen?
  cases hx : x.outcome with
  | ok a => simp [h a hx, Reported.bind_of_ok hx]
  | error e => simp [Reported.bind_of_error hx]

end

/-- A difference, unless it is negative. -/
def difference? (m n : Nat) : Option Nat := if n ≤ m then some (m - n) else none

/-- Whether arguments fit into memory: neither their number nor the length of one of them is more
than a position can be. -/
structure InMemory (args : List Scalar) : Prop where
  length_le : args.length ≤ maxPosition
  bytes_le : ∀ a ∈ args, a.toBytes.length ≤ maxPosition

/-! ## Settling -/

/-- The count of `*` for a text. -/
def greedyLengthChecked (layout : Layout) (argument : Scalar) : Option Nat :=
  match layout with
  | .text .terminated => size? (argument.toBytes.length + 1)
  | _ => some argument.toBytes.length

/-- What a directive demands where some arguments are used: its count, and the number of arguments
that are used after it. -/
def Directive.demandChecked (d : Directive) (args : List Scalar) (used : Nat) :
    Option (Reported (Nat × Nat)) :=
  match d.layout.argumentClass with
  | .none =>
    match d.repetition with
    | .greedy => some ⟨[.greedyIgnored d.symbol], .ok (1, used)⟩
    | .count n => some (.done (n, used))
  | .string =>
    match args[used]? with
    | none => some (.fail (.argument (.notEnough d.symbol)))
    | some a => do
      let next ← size? (used + 1)
      let count ← match d.repetition with
        | .greedy => greedyLengthChecked d.layout a
        | .count n => some n
      some (.done (count, next))
  | .repetition => do
    let left ← difference? args.length used
    let count := match d.repetition with
      | .greedy => left
      | .count n => n
    if left < count then some (.fail (.argument (.tooFew d.symbol)))
    else do
      let next ← size? (used + count)
      some (.done (count, next))

/-- The steps of some directives and the number of arguments that are used after them. -/
def resolveChecked : List Directive → List Scalar → Nat → Option (Reported (List Step × Nat))
  | [], _, used => some (.done ([], used))
  | d :: ds, args, used => do
    let demanded ← d.demandChecked args used
    demanded.andThen? fun (count, used) => do
      let resolved ← resolveChecked ds args used
      some ((fun (steps, used) => (⟨d, count⟩ :: steps, used)) <$> resolved)

/-! ## Sizing -/

/-- The position after a step. -/
def Step.moveChecked (s : Step) (pos : Nat) : Option (Reported Nat) :=
  match s.layout with
  | .hex _ => do
    let room ← size? (s.count / 2 + s.count % 2)
    match advance? pos room 1 with
    | some next => some (.done next)
    | none => some (.fail (.overflow (.position s.symbol)))
  | _ => some (s.move pos)

/-- The cursor after some steps. -/
def measureChecked : List Step → Extent → Option (Reported Extent)
  | [], e => some (.done e)
  | s :: rest, e => do
    let moved ← s.moveChecked e.pos
    moved.andThen? fun next => measureChecked rest (e.moveTo s.symbol next)

/-- Settles and sizes a format. -/
def Plan.buildChecked (format : List Directive) (args : List Scalar) : Option (Reported Plan) := do
  let resolved ← resolveChecked format args 0
  resolved.andThen? fun (steps, used) => do
    let left ← difference? args.length used
    let measured ← measureChecked steps .start
    some (do
      .report (if used < args.length then [.unusedArguments left] else [])
      let extent ← measured
      pure ⟨steps, extent.size, extent.furthest, used⟩)

/-! ## No check fails -/

section
variable {args : List Scalar} {used : Nat}

theorem greedyLengthChecked_eq {a : Scalar} (ha : a.toBytes.length ≤ maxPosition)
    (layout : Layout) : greedyLengthChecked layout a = some (greedyLength layout a) := by
  have hmax : maxPosition + 1 < UInt64.size := by decide
  cases layout with
  | text padding =>
      cases padding with
      | terminated => exact if_pos (by omega)
      | _ => rfl
  | _ => rfl

theorem Directive.demandChecked_eq (d : Directive) (hargs : InMemory args)
    (hused : used ≤ args.length) :
    d.demandChecked args used =
      some ((fun demand => (demand.count, used + demand.taken)) <$> d.demand (args.drop used)) := by
  have hlen := hargs.length_le
  unfold Directive.demandChecked Directive.demand
  rw [Reported.map_eq]
  cases d.layout.argumentClass with
  | none => cases d.repetition <;> rfl
  | string =>
      rw [← List.head?_drop]
      cases hrest : args.drop used with
      | nil => rfl
      | cons a rest =>
          have hlt : used < args.length := by
            have := congrArg List.length hrest
            rw [List.length_drop, List.length_cons] at this
            omega
          have ha : a ∈ args := List.mem_of_mem_drop (hrest ▸ List.mem_cons_self)
          have hnext : size? (used + 1) = some (used + 1) := size?_eq (by omega)
          simp only [List.head?_cons, hnext, Option.bind_eq_bind, Option.bind_some]
          cases d.repetition with
          | greedy => rw [greedyLengthChecked_eq (hargs.bytes_le a ha)]; rfl
          | count n => rfl
  | repetition =>
      have hleft : difference? args.length used = some (args.length - used) := if_pos hused
      simp only [hleft, Option.bind_eq_bind, Option.bind_some, List.length_drop]
      cases d.repetition with
      | greedy =>
          have hnext : size? (used + (args.length - used)) = some (used + (args.length - used)) :=
            size?_eq (by omega)
          rw [if_neg (Nat.lt_irrefl _), if_neg (Nat.lt_irrefl _), hnext]
          rfl
      | count n =>
          by_cases hcount : args.length - used < n
          · rw [if_pos hcount, if_pos hcount]
            rfl
          · have hnext : size? (used + n) = some (used + n) := size?_eq (by omega)
            rw [if_neg hcount, if_neg hcount, hnext]
            rfl

theorem resolveChecked_eq (ds : List Directive) (hargs : InMemory args)
    (hused : used ≤ args.length) :
    resolveChecked ds args used =
      some ((fun found => (found.1, args.length - found.2.length)) <$>
        resolve ds (args.drop used)) := by
  induction ds generalizing used with
  | nil =>
      have hback : args.length - (args.length - used) = used := by omega
      simp [resolveChecked, resolve, Reported.map_eq, Except.map, Reported.done, hback]
  | cons d ds ih =>
      -- what is used afterwards is still within the arguments, so the rest finds them dropped
      rw [resolveChecked, d.demandChecked_eq hargs hused, resolve, d.demand_eq, Reported.map_eq]
      by_cases hneeds : d.needs (args.drop used).length ≤ (args.drop used).length
      · have hnext : used + d.needs (args.drop used).length ≤ args.length := by
          rw [List.length_drop] at hneeds ⊢
          omega
        have hrest := ih hnext
        rw [← List.drop_drop] at hrest
        simp only [if_pos hneeds, Except.map, Option.bind_eq_bind, Option.bind_some,
          Reported.andThen?, hrest, Option.map_some, Reported.bind_ok]
        rcases resolve ds ((args.drop used).drop (d.needs (args.drop used).length)) with
          ⟨reports, _ | found⟩ <;> simp [Reported.map_eq, Except.map]
      · rw [if_neg hneeds, Reported.map_eq]
        rfl

end

theorem InMemory.drop {args : List Scalar} (h : InMemory args) (n : Nat) :
    InMemory (args.drop n) where
  length_le := by
    have := h.length_le
    rw [List.length_drop]
    omega
  bytes_le a ha := h.bytes_le a (List.mem_of_mem_drop ha)

theorem InMemory.starCount_le {args : List Scalar} (h : InMemory args) (layout : Layout) :
    layout.starCount args ≤ maxCount := by
  have hmax : maxPosition + 1 ≤ maxCount := by decide
  have hlen := h.length_le
  have hhead : (args.headD .null).toBytes.length ≤ maxPosition := by
    cases args with
    | nil => exact Nat.zero_le _
    | cons a args => exact h.bytes_le a List.mem_cons_self
  unfold Layout.starCount
  split <;> omega

/-- Directives that can be written settle on counts that can be written. -/
theorem settle_count_le {ds : List Directive} (hds : ∀ d ∈ ds, d.repetition.Writable)
    {args : List Scalar} (hargs : InMemory args) : ∀ s ∈ settle ds args, s.count ≤ maxCount := by
  induction ds generalizing args with
  | nil => exact fun s hs => absurd hs List.not_mem_nil
  | cons d ds ih =>
      obtain ⟨hd, hds⟩ := List.forall_mem_cons.1 hds
      refine List.forall_mem_cons.2 ⟨?_, ih hds (hargs.drop _)⟩
      cases hr : d.repetition with
      | count n =>
          rw [hr] at hd
          simp only [Directive.countFor, hr]
          exact hd
      | greedy => simpa [Directive.countFor, hr] using hargs.starCount_le d.layout

theorem Step.moveChecked_eq {s : Step} (h : s.count ≤ maxCount) (pos : Nat) :
    s.moveChecked pos = some (s.move pos) := by
  unfold Step.moveChecked Step.move
  cases s.layout with
  | hex order =>
      simp only [size?_nibbleRoom h, Option.bind_eq_bind, Option.bind_some]
      cases advance? pos (nibbleRoom s.count) 1 <;> rfl
  | _ => rfl

theorem measureChecked_eq {steps : List Step} (h : ∀ s ∈ steps, s.count ≤ maxCount) (e : Extent) :
    measureChecked steps e = some (steps.foldlM Step.extend e) := by
  induction steps generalizing e with
  | nil => rfl
  | cons s rest ih =>
      obtain ⟨hs, hrest⟩ := List.forall_mem_cons.1 h
      rw [measureChecked, Step.moveChecked_eq hs, Option.bind_eq_bind, Option.bind_some,
        Reported.andThen?_eq fun next _ => ih hrest _, List.foldlM_cons, Step.extend, bind_assoc]
      simp only [pure_bind]

theorem unusedReports_used {left total : Nat} (h : left ≤ total) :
    (if total - left < total then [.unusedArguments left] else []) = unusedReports left := by
  unfold unusedReports
  by_cases hzero : left = 0
  · rw [if_neg (by omega), if_pos hzero]
  · rw [if_pos (by omega), if_neg hzero]

/-- No check fails where repeats can be written and arguments fit into memory. -/
theorem Plan.buildChecked_eq {directives : List Directive} {args : List Scalar}
    (hdirectives : ∀ d ∈ directives, d.repetition.Writable) (hargs : InMemory args) :
    Plan.buildChecked directives args = some (Plan.build directives args) := by
  have hresolved := resolveChecked_eq directives hargs (Nat.zero_le _)
  rw [List.drop_zero] at hresolved
  rw [Plan.buildChecked, hresolved, Option.bind_eq_bind, Option.bind_some]
  by_cases hserved : AllServed args.length directives
  · have hle := leftAfter_le args.length directives
    have hleft : difference? args.length (args.length - leftAfter args.length directives) =
        some (leftAfter args.length directives) := by
      rw [difference?, if_pos (Nat.sub_le _ _), Nat.sub_sub_self hle]
    have hmeasure := measureChecked_eq (settle_count_le hdirectives hargs) .start
    rw [resolve_of_served hserved, Plan.build, resolve_of_served hserved]
    simp only [Reported.map_eq, Except.map, Reported.andThen?, Reported.bind_ok,
      length_drop_leftAfter, hleft, hmeasure, unusedReports_used hle, unusedReports_rest,
      Option.bind_eq_bind, Option.bind_some, Option.map_some]
    rfl
  · obtain ⟨before, d, hfirst⟩ := exists_firstShort hserved
    rw [hfirst.resolve_eq, hfirst.build_eq]
    rfl

end BytePack
