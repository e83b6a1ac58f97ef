import BytePack.Proofs.Lemmas.Demands
import BytePack.Proofs.Lemmas.Reports

/-!
# Arguments in the two passes

Settling counts arguments by the class of a directive, and writing takes them one after the other by
its layout. Both come to the same number. A step that finds the arguments it takes does not look at
those behind them, and the only errors it can end with are those of arguments that are no numbers.
-/

namespace BytePack

/-! ## Numbers of arguments -/

/-- The number of arguments that some steps take. -/
def takenBy : List Step → Nat
  | [] => 0
  | s :: steps => s.taken + takenBy steps

@[simp] theorem takenBy_nil : takenBy [] = 0 := rfl

@[simp] theorem takenBy_cons (s : Step) (steps : List Step) :
    takenBy (s :: steps) = s.taken + takenBy steps := rfl

theorem takenBy_append (before after : List Step) :
    takenBy (before ++ after) = takenBy before + takenBy after := by
  induction before with
  | nil => exact (Nat.zero_add _).symm
  | cons s before ih => rw [List.cons_append, takenBy_cons, takenBy_cons, ih, Nat.add_assoc]

theorem Directive.taken_eq (d : Directive) (args : List Scalar) :
    (Step.mk d (d.countFor args)).taken = d.needs args.length := by
  unfold Step.taken Directive.needs Directive.countFor
  cases hl : d.layout <;> cases d.repetition <;>
    simp [Step.layout, hl, Layout.argumentClass, Layout.starCount]

/-- What directives take and what they leave over is all there is. -/
theorem takenBy_settle {args : List Scalar} {ds : List Directive} (h : AllServed args.length ds) :
    takenBy (settle ds args) + leftAfter args.length ds = args.length := by
  induction ds generalizing args with
  | nil => simp [settle, leftAfter]
  | cons d ds ih =>
      obtain ⟨hd, hrest⟩ := h
      rw [← List.length_drop] at hrest
      have hmore := ih hrest
      rw [settle, takenBy_cons, d.taken_eq, leftAfter]
      rw [List.length_drop] at hmore
      omega

theorem Plan.consumed_eq {directives : List Directive} {args : List Scalar} {plan : Plan}
    (h : (Plan.build directives args).outcome = .ok plan) :
    plan.consumed = takenBy plan.steps ∧
      plan.consumed + leftAfter args.length directives = args.length := by
  obtain ⟨hserved, e, _, rfl⟩ := Plan.build_eq_ok_settle.1 h
  have htaken := takenBy_settle hserved
  have hle := leftAfter_le args.length directives
  simp only
  omega

/-- A run of steps takes arguments from the front and leaves the others. -/
theorem writer_run_takes {steps : List Step} {w w' : Writer}
    (h : (steps.foldlM Step.write w).outcome = .ok w') :
    takenBy steps ≤ w.unread.length ∧ w'.unread = w.unread.drop (takenBy steps) := by
  induction steps generalizing w with
  | nil =>
      rw [Reported.run_nil_eq_ok] at h
      simp [h]
  | cons s rest ih =>
      obtain ⟨k, hk, _, hrest⟩ := writer_run_cons h
      obtain ⟨hle, hunread⟩ := hk.takes
      obtain ⟨hmore, hend⟩ := ih hrest
      simp only [Writer.after, hunread, List.length_drop, List.drop_drop] at hmore hend
      exact ⟨by rw [takenBy_cons]; omega, hend⟩

/-! ## Arguments behind those that are taken -/

/-- What a step does, with more arguments left behind. -/
def Stroke.feed (extra : List Scalar) (k : Stroke) : Stroke :=
  { k with unread := k.unread ++ extra }

/-- A writer with more arguments behind those it has. -/
def Writer.feed (extra : List Scalar) (w : Writer) : Writer :=
  { w with unread := w.unread ++ extra }

theorem Number.encodeRun_append (number : Number) (symbol : Char) {n : Nat} {args : List Scalar}
    (h : n ≤ args.length) (extra : List Scalar) :
    number.encodeRun symbol n (args ++ extra) =
      (number.encodeRun symbol n args).map fun found => (found.1, found.2 ++ extra) := by
  induction n generalizing args with
  | zero => rfl
  | succ n ih =>
      cases args with
      | nil => exact absurd h (Nat.not_succ_le_zero n)
      | cons a args =>
          rw [List.cons_append, Number.encodeRun, Number.encodeRun,
            ih (Nat.le_of_succ_le_succ h)]
          cases number.encode a with
          | error e => rfl
          | ok word => cases number.encodeRun symbol n args <;> rfl

theorem Step.stroke_append {s : Step} {args : List Scalar} (h : s.taken ≤ args.length) (pos : Nat)
    (extra : List Scalar) :
    s.stroke pos (args ++ extra) = Stroke.feed extra <$> s.stroke pos args := by
  unfold Step.taken at h
  unfold Step.stroke
  cases hl : s.layout with
  | text padding =>
      cases args with
      | nil => simp [hl, Layout.argumentClass] at h
      | cons a rest => rfl
  | hex order =>
      cases args with
      | nil => simp [hl, Layout.argumentClass] at h
      | cons a rest =>
          rw [Reported.map_eq]
          rfl
  | number format =>
      simp only [hl, Layout.argumentClass] at h
      simp only [format.encodeRun_append s.symbol h]
      cases format.encodeRun s.symbol s.count args <;> rfl
  | nulByte => rfl
  | backUp => rfl
  | absolute => rfl

theorem Step.write_feed {s : Step} {w : Writer} (h : s.taken ≤ w.unread.length)
    (extra : List Scalar) :
    Step.write (w.feed extra) s = Writer.feed extra <$> Step.write w s := by
  unfold Step.write Writer.feed
  rw [Step.stroke_append h, bind_map_left, map_bind]
  rfl

/-- A run that finds the arguments it takes does not depend on those behind them. -/
theorem writer_run_feed {steps : List Step} {w : Writer} (h : takenBy steps ≤ w.unread.length)
    (extra : List Scalar) :
    steps.foldlM Step.write (w.feed extra) = Writer.feed extra <$> steps.foldlM Step.write w := by
  induction steps generalizing w with
  | nil => rfl
  | cons s rest ih =>
      rw [takenBy_cons] at h
      rw [List.foldlM_cons, List.foldlM_cons, Step.write_feed (by omega), bind_map_left, map_bind]
      refine Reported.bind_congr_ok fun m hm => ih ?_
      obtain ⟨k, hk, rfl⟩ := Step.write_eq_ok.1 hm
      rw [Writer.after, hk.takes.2, List.length_drop]
      omega

theorem Plan.write_append {plan : Plan} {given : List Scalar}
    (h : takenBy plan.steps ≤ given.length) (room : Nat) (extra : List Scalar) :
    plan.write room (given ++ extra) = plan.write room given := by
  unfold Plan.write
  split
  · rfl
  · have hrun : writeSteps plan.steps plan.size (given ++ extra) =
        Writer.feed extra <$> writeSteps plan.steps plan.size given :=
      writer_run_feed (w := ⟨List.replicate plan.size 0, 0, given⟩) h extra
    rw [hrun, bind_map_left]
    rfl

/-! ## Errors of writing -/

/-- Whether an error is that of an argument that is no number. -/
def Error.OfConversion (e : Error) : Prop := e.kind = .parse ∨ e.kind = .unsupportedType

theorem Scalar.toInteger_error {a : Scalar} {e : Error} (h : a.toInteger = .error e) :
    e.OfConversion := by
  cases a with
  | text s =>
      simp only [Scalar.toInteger] at h
      split at h <;> cases h
      exact .inl rfl
  | object s =>
      cases h
      exact .inr rfl
  | _ => cases h

theorem Scalar.toFloat_error {a : Scalar} {e : Error} (h : a.toFloat = .error e) :
    e.OfConversion := by
  cases a with
  | text s =>
      simp only [Scalar.toFloat] at h
      split at h <;> cases h
      exact .inl rfl
  | object s =>
      cases h
      exact .inr rfl
  | _ => cases h

theorem Number.encode_error {number : Number} {a : Scalar} {e : Error}
    (h : number.encode a = .error e) : e.OfConversion := by
  cases number with
  | integer width order signed =>
      cases ha : a.toInteger with
      | ok v => simp [Number.encode, ha] at h
      | error e' =>
          have he : e' = e := by simpa [Number.encode, ha] using h
          exact he ▸ Scalar.toInteger_error ha
  | single order =>
      cases ha : a.toFloat with
      | ok v => simp [Number.encode, ha] at h
      | error e' =>
          have he : e' = e := by simpa [Number.encode, ha] using h
          exact he ▸ Scalar.toFloat_error ha
  | double order =>
      cases ha : a.toFloat with
      | ok v => simp [Number.encode, ha] at h
      | error e' =>
          have he : e' = e := by simpa [Number.encode, ha] using h
          exact he ▸ Scalar.toFloat_error ha

theorem Number.encodeRun_error {number : Number} {symbol : Char} {n : Nat} {args : List Scalar}
    {e : Error} (h : number.encodeRun symbol n args = .error e) :
    e.OfConversion ∨ args.length < n ∧ e = .argument (.tooFew symbol) := by
  induction n generalizing args with
  | zero => cases h
  | succ n ih =>
      cases args with
      | nil =>
          cases h
          exact .inr ⟨Nat.succ_pos n, rfl⟩
      | cons a args =>
          rw [Number.encodeRun] at h
          cases ha : number.encode a with
          | error e' =>
              simp only [ha] at h
              cases h
              exact .inl (Number.encode_error ha)
          | ok word =>
              cases hr : number.encodeRun symbol n args with
              | ok found => simp [ha, hr] at h
              | error e' =>
                  simp only [ha, hr] at h
                  cases h
                  exact (ih hr).imp_right fun h => ⟨Nat.succ_lt_succ h.1, h.2⟩

/-- A step fails at an argument that is no number, or because it does not find those it takes. -/
theorem Step.stroke_error {s : Step} {pos : Nat} {args : List Scalar} {e : Error}
    (h : (s.stroke pos args).outcome = .error e) :
    e.OfConversion ∨ args.length < s.taken ∧ e = .argument (.tooFew s.symbol) := by
  unfold Step.stroke at h
  unfold Step.taken
  cases hl : s.layout with
  | text padding =>
      simp only [hl] at h
      cases args with
      | nil =>
          cases h
          exact .inr ⟨Nat.one_pos, rfl⟩
      | cons a rest => cases h
  | hex order =>
      simp only [hl] at h
      cases args with
      | nil =>
          cases h
          exact .inr ⟨Nat.one_pos, rfl⟩
      | cons a rest => cases h
  | number format =>
      simp only [hl] at h
      cases hr : format.encodeRun s.symbol s.count args with
      | ok found => simp [hr] at h
      | error e' =>
          simp only [hr] at h
          cases h
          exact Number.encodeRun_error hr
  | nulByte => simp [hl] at h
  | backUp => simp [hl] at h
  | absolute => simp [hl] at h

theorem Step.write_error {s : Step} {w : Writer} {e : Error}
    (h : (Step.write w s).outcome = .error e) :
    e.OfConversion ∨ w.unread.length < s.taken ∧ e = .argument (.tooFew s.symbol) := by
  refine Step.stroke_error (?_ : (s.stroke w.pos w.unread).outcome = .error e)
  cases hk : (s.stroke w.pos w.unread).outcome with
  | error e' =>
      rw [Step.write, Reported.bind_of_error hk] at h
      cases h
      rfl
  | ok k =>
      rw [Step.write, Reported.bind_of_ok hk] at h
      cases h

/-- A run that finds the arguments it takes fails only at one that is no number. -/
theorem writer_run_error {steps : List Step} {w : Writer} {e : Error}
    (htaken : takenBy steps ≤ w.unread.length)
    (h : (steps.foldlM Step.write w).outcome = .error e) : e.OfConversion := by
  obtain ⟨before, s, after, m, rfl, hbefore, hs⟩ := Reported.run_eq_error.1 h
  obtain ⟨_, hunread⟩ := writer_run_takes hbefore
  refine (Step.write_error hs).resolve_right fun ⟨hshort, _⟩ => ?_
  rw [takenBy_append, takenBy_cons] at htaken
  rw [hunread, List.length_drop] at hshort
  omega

end BytePack
