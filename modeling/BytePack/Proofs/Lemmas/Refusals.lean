import BytePack.Proofs.Lemmas.Supply

/-!
# Arguments that are refused

With the arguments that it takes, a step of numbers fails exactly at the first of them that is no
number, and a step of digits reports what is wrong with its text; no other step does either. So a run
of steps fails at the first one that is refused an argument, and reports the digits of those before it.
-/

namespace BytePack

/-! ## Numbers -/

/-- The error of the first of some arguments that is no number. -/
def Number.refusal? (number : Number) : List Scalar → Option Error
  | [] => none
  | a :: args =>
    match number.encode a with
    | .error e => some e
    | .ok _ => number.refusal? args

theorem Number.encodeRun_eq_error {number : Number} {symbol : Char} {n : Nat} {args : List Scalar}
    (h : n ≤ args.length) {e : Error} :
    number.encodeRun symbol n args = .error e ↔ number.refusal? (args.take n) = some e := by
  induction n generalizing args with
  | zero => simp [Number.encodeRun, Number.refusal?]
  | succ n ih =>
      cases args with
      | nil => exact absurd h (Nat.not_succ_le_zero n)
      | cons a args =>
          have hrest := ih (Nat.le_of_succ_le_succ h)
          rw [Number.encodeRun, List.take_succ_cons, Number.refusal?]
          cases number.encode a with
          | error e' => simp
          | ok word =>
              simp only
              rw [← hrest]
              cases number.encodeRun symbol n args <;> simp

/-! ## One step -/

/-- The error of the first argument of a step that is no number, if the step takes numbers. -/
def Step.refusal? (s : Step) (args : List Scalar) : Option Error :=
  match s.layout with
  | .number format => format.refusal? (args.take s.count)
  | _ => none

/-- What is reported of the digits of a step, if its argument is a text of digits. -/
def Step.digitReports (s : Step) (args : List Scalar) : List Diagnostic :=
  match s.layout, args with
  | .hex _, a :: _ => hexDiagnostics s.symbol s.count a.toBytes
  | _, _ => []

theorem Step.digitReports_of_refusal {s : Step} {args : List Scalar} {e : Error}
    (h : s.refusal? args = some e) : s.digitReports args = [] := by
  unfold Step.refusal? at h
  unfold Step.digitReports
  cases hl : s.layout with
  | hex order =>
      rw [hl] at h
      cases h
  | _ => rfl

theorem Step.stroke_diagnostics (s : Step) (pos : Nat) (args : List Scalar) :
    (s.stroke pos args).diagnostics = s.digitReports args := by
  unfold Step.stroke Step.digitReports
  cases s.layout with
  | text | hex => cases args <;> rfl
  | number format =>
      simp only
      cases format.encodeRun s.symbol s.count args <;> rfl
  | nulByte | backUp | absolute => rfl

theorem Step.stroke_eq_error {s : Step} {args : List Scalar} (h : s.taken ≤ args.length)
    (pos : Nat) {e : Error} :
    (s.stroke pos args).outcome = .error e ↔ s.refusal? args = some e := by
  unfold Step.taken at h
  unfold Step.stroke Step.refusal?
  cases hl : s.layout with
  | text | hex =>
      cases args with
      | nil => simp [hl, Layout.argumentClass] at h
      | cons a rest => simp
  | number format =>
      simp only [hl, Layout.argumentClass] at h
      rw [← format.encodeRun_eq_error h]
      simp only
      cases format.encodeRun s.symbol s.count args <;> simp
  | nulByte | backUp | absolute => simp

theorem Step.write_of_refused {s : Step} {w : Writer} (h : s.taken ≤ w.unread.length) {e : Error}
    (hrefused : s.refusal? w.unread = some e) : Step.write w s = ⟨[], .error e⟩ := by
  have hk := (Step.stroke_eq_error h w.pos).2 hrefused
  rw [Step.write, Reported.bind_of_error hk, s.stroke_diagnostics,
    Step.digitReports_of_refusal hrefused]

theorem Step.write_of_accepted {s : Step} {w : Writer} (h : s.taken ≤ w.unread.length)
    (haccepted : s.refusal? w.unread = none) :
    ∃ w', Step.write w s = ⟨s.digitReports w.unread, .ok w'⟩ ∧
      w'.unread = w.unread.drop s.taken := by
  cases hk : (s.stroke w.pos w.unread).outcome with
  | error e =>
      rw [Step.stroke_eq_error h, haccepted] at hk
      cases hk
  | ok k =>
      refine ⟨w.after k, ?_, (Step.stroke_eq_ok.1 hk).takes.2⟩
      rw [Step.write, Reported.bind_of_ok hk, s.stroke_diagnostics]
      exact congrArg (Reported.mk · _) (List.append_nil _)

/-! ## Some steps -/

/-- What is reported of the digits of some steps, step by step. -/
def digitReports : List Step → List Scalar → List Diagnostic
  | [], _ => []
  | s :: steps, args => s.digitReports args ++ digitReports steps (args.drop s.taken)

/-- Whether no step is refused an argument. -/
def AllAccepted : List Step → List Scalar → Prop
  | [], _ => True
  | s :: steps, args => s.refusal? args = none ∧ AllAccepted steps (args.drop s.taken)

/-- Whether `s` is the first of some steps that is refused an argument, with the steps `before` it and
the error `e`. -/
structure FirstRefused (steps : List Step) (args : List Scalar) (before : List Step) (s : Step)
    (e : Error) : Prop where
  stands : before ++ [s] <+: steps
  before_accepted : AllAccepted before args
  refused : s.refusal? (args.drop (takenBy before)) = some e

theorem exists_firstRefused {steps : List Step} {args : List Scalar}
    (h : ¬ AllAccepted steps args) : ∃ before s e, FirstRefused steps args before s e := by
  induction steps generalizing args with
  | nil => exact absurd trivial h
  | cons s steps ih =>
      cases hs : s.refusal? args with
      | some e => exact ⟨[], s, e, ⟨steps, rfl⟩, trivial, hs⟩
      | none =>
          obtain ⟨before, t, e, hstands, hbefore, hrefused⟩ := ih fun hrest => h ⟨hs, hrest⟩
          rw [List.drop_drop] at hrefused
          exact ⟨s :: before, t, e, List.cons_prefix_cons.2 ⟨rfl, hstands⟩, ⟨hs, hbefore⟩,
            hrefused⟩

theorem writer_run_accepted {steps : List Step} {w : Writer}
    (htaken : takenBy steps ≤ w.unread.length) (h : AllAccepted steps w.unread) :
    ∃ w', steps.foldlM Step.write w = ⟨digitReports steps w.unread, .ok w'⟩ := by
  induction steps generalizing w with
  | nil => exact ⟨w, rfl⟩
  | cons s steps ih =>
      obtain ⟨hs, hrest⟩ := h
      rw [takenBy_cons] at htaken
      obtain ⟨m, hm, hunread⟩ := Step.write_of_accepted (by omega) hs
      rw [← hunread] at hrest
      obtain ⟨w', hw'⟩ := ih (by rw [hunread, List.length_drop]; omega) hrest
      rw [hunread] at hw'
      exact ⟨w', by rw [List.foldlM_cons, hm, Reported.bind_ok, hw', digitReports]⟩

theorem FirstRefused.run_eq {steps before : List Step} {s : Step} {e : Error} {w : Writer}
    (htaken : takenBy steps ≤ w.unread.length) (h : FirstRefused steps w.unread before s e) :
    steps.foldlM Step.write w = ⟨digitReports before w.unread, .error e⟩ := by
  obtain ⟨⟨after, rfl⟩, hbefore, hrefused⟩ := h
  rw [takenBy_append, takenBy_append, takenBy_cons, takenBy_nil] at htaken
  obtain ⟨m, hm⟩ := writer_run_accepted (by omega) hbefore
  have hunread := (writer_run_takes (congrArg Reported.outcome hm)).2
  rw [← hunread] at hrefused
  have hs : s.taken ≤ m.unread.length := by
    rw [hunread, List.length_drop]
    omega
  rw [List.append_assoc, List.singleton_append, List.foldlM_append, hm, Reported.bind_ok,
    List.foldlM_cons, Step.write_of_refused hs hrefused, Reported.bind_error, List.append_nil]

end BytePack
