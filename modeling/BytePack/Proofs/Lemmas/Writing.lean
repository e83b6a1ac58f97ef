import BytePack.Proofs.Lemmas.Sizing
import Mathlib.Data.List.Forall2

/-!
# Writing as rules

`Step.Strikes` says by one rule for each layout what a step stores at a cursor, where the cursor
goes and which arguments are left. A step never goes further than its target, so a run of steps that
was sized never stores beyond the size; it goes exactly to the target unless a hexadecimal text is
too short for its repeat.
-/

namespace BytePack

/-! ## Rules -/

/-- What a step does at a cursor with the arguments that are left. -/
inductive Step.Strikes (s : Step) (pos : Nat) : List Scalar → Stroke → Prop where
  | text {padding : Padding} {a : Scalar} {rest : List Scalar} (hl : s.layout = .text padding) :
      s.Strikes pos (a :: rest) ⟨padding.field s.count a.toBytes, pos + s.count, rest⟩
  | hex {order : NibbleOrder} {a : Scalar} {rest : List Scalar} (hl : s.layout = .hex order) :
      s.Strikes pos (a :: rest)
        ⟨nibbleBytes order (a.toBytes.take s.count),
          pos + nibbleRoom (min s.count a.toBytes.length), rest⟩
  | number {format : Number} {taken rest : List Scalar} {words : List (List UInt8)}
      (hl : s.layout = .number format) (hn : taken.length = s.count)
      (hw : List.Forall₂ (fun a word => format.encode a = .ok word) taken words) :
      s.Strikes pos (taken ++ rest) ⟨words.flatten, pos + s.count * format.width, rest⟩
  | nulByte {args : List Scalar} (hl : s.layout = .nulByte) :
      s.Strikes pos args ⟨List.replicate s.count 0, pos + s.count, args⟩
  | backUp {args : List Scalar} (hl : s.layout = .backUp) :
      s.Strikes pos args ⟨[], pos - s.count, args⟩
  | absolute {args : List Scalar} (hl : s.layout = .absolute) :
      s.Strikes pos args ⟨List.replicate (s.count - pos) 0, s.count, args⟩

theorem Number.length_words {format : Number} {taken : List Scalar} {words : List (List UInt8)}
    (h : List.Forall₂ (fun a word => format.encode a = .ok word) taken words) :
    words.flatten.length = taken.length * format.width := by
  induction h with
  | nil => simp
  | cons ha _ ih =>
      simp only [List.flatten_cons, List.length_append, List.length_cons, ih,
        Number.length_encode ha, Nat.add_mul]
      omega

theorem Number.length_of_mem_words {format : Number} {taken : List Scalar}
    {words : List (List UInt8)}
    (h : List.Forall₂ (fun a word => format.encode a = .ok word) taken words) :
    ∀ word ∈ words, word.length = format.width := by
  induction h with
  | nil => simp
  | cons ha _ ih => exact List.forall_mem_cons.2 ⟨Number.length_encode ha, ih⟩

theorem Number.encodeRun_eq_ok {format : Number} {symbol : Char} {n : Nat}
    {args rest : List Scalar} {stored : List UInt8} :
    format.encodeRun symbol n args = .ok (stored, rest) ↔
      ∃ taken words, args = taken ++ rest ∧ taken.length = n ∧
        List.Forall₂ (fun a word => format.encode a = .ok word) taken words ∧
        stored = words.flatten := by
  induction n generalizing args stored with
  | zero =>
      simp only [Number.encodeRun, Except.ok.injEq, Prod.mk.injEq]
      constructor
      · rintro ⟨rfl, rfl⟩
        exact ⟨[], [], rfl, rfl, .nil, rfl⟩
      · rintro ⟨taken, words, rfl, hn, hw, rfl⟩
        cases List.length_eq_zero_iff.1 hn
        cases hw
        exact ⟨rfl, rfl⟩
  | succ n ih =>
      constructor
      · intro h
        cases args with
        | nil => cases h
        | cons a args =>
            unfold Number.encodeRun at h
            cases ha : format.encode a with
            | error e => simp [ha] at h
            | ok word =>
                cases hr : format.encodeRun symbol n args with
                | error e => simp [ha, hr] at h
                | ok found =>
                    obtain ⟨stored', rest'⟩ := found
                    simp only [ha, hr, Except.ok.injEq, Prod.mk.injEq] at h
                    obtain ⟨rfl, rfl⟩ := h
                    obtain ⟨taken, words, rfl, hn, hw, rfl⟩ := ih.1 hr
                    exact ⟨a :: taken, word :: words, rfl, by simp [hn], .cons ha hw, rfl⟩
      · rintro ⟨taken, words, rfl, hn, hw, rfl⟩
        cases hw with
        | nil => cases hn
        | cons ha hw =>
            have hr := ih.2 ⟨_, _, rfl, Nat.succ.inj hn, hw, rfl⟩
            simp [Number.encodeRun, ha, hr]

theorem Step.stroke_eq_ok {s : Step} {pos : Nat} {args : List Scalar} {k : Stroke} :
    (s.stroke pos args).outcome = .ok k ↔ s.Strikes pos args k := by
  constructor
  · intro h
    unfold Step.stroke at h
    cases hl : s.layout with
    | text padding =>
        rw [hl] at h
        cases args with
        | nil => cases h
        | cons a rest => cases h; exact .text hl
    | hex order =>
        rw [hl] at h
        cases args with
        | nil => cases h
        | cons a rest =>
            cases h
            rw [length_nibbleBytes, List.length_take]
            exact .hex hl
    | number format =>
        rw [hl] at h
        simp only at h
        cases hr : format.encodeRun s.symbol s.count args with
        | error e => simp [hr] at h
        | ok found =>
            obtain ⟨stored, rest⟩ := found
            simp only [hr, Reported.done_outcome, Except.ok.injEq] at h
            obtain ⟨taken, words, rfl, hn, hw, rfl⟩ := Number.encodeRun_eq_ok.1 hr
            rw [← h, Number.length_words hw, hn]
            exact .number hl hn hw
    | nulByte => rw [hl] at h; cases h; exact .nulByte hl
    | backUp => rw [hl] at h; cases h; exact .backUp hl
    | absolute => rw [hl] at h; cases h; exact .absolute hl
  · intro h
    unfold Step.stroke
    cases h with
    | text hl => rw [hl]; rfl
    | hex hl => simp [hl]
    | @number format taken rest words hl hn hw =>
        have hr : format.encodeRun s.symbol s.count (taken ++ rest) = .ok (words.flatten, rest) :=
          Number.encodeRun_eq_ok.2 ⟨taken, words, rfl, hn, hw, rfl⟩
        simp [hl, hr, Number.length_words hw, hn]
    | nulByte hl => rw [hl]; rfl
    | backUp hl => rw [hl]; rfl
    | absolute hl => rw [hl]; rfl

/-- The writer after what a step does. -/
def Writer.after (w : Writer) (k : Stroke) : Writer :=
  ⟨overlay w.output w.pos k.stored, k.next, k.unread⟩

theorem Step.write_eq_ok {s : Step} {w w' : Writer} :
    (Step.write w s).outcome = .ok w' ↔ ∃ k, s.Strikes w.pos w.unread k ∧ w' = w.after k := by
  unfold Step.write Writer.after
  simp only [Reported.bind_outcome_eq_ok, Step.stroke_eq_ok, Reported.pure_eq, Except.ok.injEq,
    eq_comm (a := w')]

theorem writer_run_cons {s : Step} {rest : List Step} {w w' : Writer}
    (h : ((s :: rest).foldlM Step.write w).outcome = .ok w') :
    ∃ k, s.Strikes w.pos w.unread k ∧ (Step.write w s).outcome = .ok (w.after k) ∧
      (rest.foldlM Step.write (w.after k)).outcome = .ok w' := by
  obtain ⟨m, hm, hrest⟩ := Reported.run_cons_eq_ok.1 h
  obtain ⟨k, hk, rfl⟩ := Step.write_eq_ok.1 hm
  exact ⟨k, hk, hm, hrest⟩

/-! ## Which arguments a step takes -/

/-- The number of arguments that a step takes. -/
def Step.taken (s : Step) : Nat :=
  match s.layout.argumentClass with
  | .none => 0
  | .string => 1
  | .repetition => s.count

theorem Step.Strikes.takes {s : Step} {pos : Nat} {args : List Scalar} {k : Stroke}
    (h : s.Strikes pos args k) : s.taken ≤ args.length ∧ k.unread = args.drop s.taken := by
  unfold Step.taken
  cases h with
  | text hl => simp [hl, Layout.argumentClass]
  | hex hl => simp [hl, Layout.argumentClass]
  | number hl hn hw =>
      simp only [hl, Layout.argumentClass, List.length_append]
      exact ⟨by omega, (List.drop_left' hn).symm⟩
  | nulByte hl => simp [hl, Layout.argumentClass]
  | backUp hl => simp [hl, Layout.argumentClass]
  | absolute hl => simp [hl, Layout.argumentClass]

/-! ## How far a step goes -/

theorem Step.Strikes.next_le {s : Step} {pos : Nat} {args : List Scalar} {k : Stroke}
    (h : s.Strikes pos args k) : k.next ≤ s.target pos := by
  unfold Step.target
  cases h with
  | text hl => simp [hl, Layout.span]
  | hex hl => simp only [hl, Layout.span, nibbleRoom]; omega
  | number hl => simp [hl, Layout.span]
  | nulByte hl => simp [hl, Layout.span]
  | backUp hl => simp [hl]
  | absolute hl => simp [hl]

theorem Step.Strikes.end_le {s : Step} {pos : Nat} {args : List Scalar} {k : Stroke}
    (h : s.Strikes pos args k) : pos + k.stored.length ≤ max pos (s.target pos) := by
  unfold Step.target
  cases h with
  | text hl => simp [hl, Layout.span]
  | hex hl =>
      simp only [hl, Layout.span, length_nibbleBytes, List.length_take, nibbleRoom]
      omega
  | number hl hn hw => simp [hl, Layout.span, Number.length_words hw, hn]
  | nulByte hl => simp [hl, Layout.span]
  | backUp hl => simp only [List.length_nil]; omega
  | absolute hl => simp only [hl, List.length_replicate]; omega

theorem Step.Strikes.next_of_not_seeks {s : Step} {pos : Nat} {args : List Scalar} {k : Stroke}
    (h : s.Strikes pos args k) (hseek : s.layout.seeks = false) :
    k.next = pos + k.stored.length := by
  cases h with
  | text hl => simp
  | hex hl => simp
  | number hl hn hw => simp [Number.length_words hw, hn]
  | nulByte hl => simp
  | backUp hl => simp [hl, Layout.seeks] at hseek
  | absolute hl => simp [hl, Layout.seeks] at hseek

/-- Behind the cursor of sizing a step stays behind it, and stores what there is room for. -/
theorem Step.Strikes.behind {s : Step} {rest : List Step} {e e' : Extent} {pos : Nat}
    {args : List Scalar} {k : Stroke} (hk : s.Strikes pos args k) (hs : SizedStep s rest e e')
    (hpos : pos ≤ e.pos) : k.next ≤ (e.after s).pos ∧ pos + k.stored.length ≤ e'.size := by
  have hmono := s.target_mono hpos
  have hnext := hk.next_le
  have hend := hk.end_le
  have hfirst := hs.pos_le
  have hsecond := hs.target_le
  rw [Extent.after_pos]
  omega

/-! ## The output -/

theorem length_overlay {output stored : List UInt8} {pos : Nat}
    (h : pos + stored.length ≤ output.length) :
    (overlay output pos stored).length = output.length := by
  simp only [overlay, List.length_append, List.length_take, List.length_drop]
  omega

theorem getElem?_overlay {output stored : List UInt8} {pos i : Nat}
    (h : pos + stored.length ≤ output.length) :
    (overlay output pos stored)[i]? =
      if pos ≤ i ∧ i < pos + stored.length then stored[i - pos]? else output[i]? := by
  have htake : (output.take pos).length = pos := by rw [List.length_take]; omega
  unfold overlay
  rw [List.append_assoc]
  by_cases hlow : i < pos
  · rw [List.getElem?_append_left (by omega), List.getElem?_take_of_lt hlow, if_neg (by omega)]
  · rw [List.getElem?_append_right (by omega), htake]
    by_cases hhigh : i < pos + stored.length
    · rw [List.getElem?_append_left (by omega), if_pos (by omega)]
    · rw [List.getElem?_append_right (by omega), List.getElem?_drop, if_neg (by omega)]
      congr 1
      omega

/-! ## Some steps -/

/-- The writer stays behind sizing, and what a sized run stores lies inside the output. -/
theorem writer_run_behind {steps : List Step} {e e' : Extent} {w w' : Writer} (he : e.Sound)
    (hsize : (steps.foldlM Step.extend e).outcome = .ok e')
    (hwrite : (steps.foldlM Step.write w).outcome = .ok w')
    (hpos : w.pos ≤ e.pos) (hlen : e'.size ≤ w.output.length) :
    w'.pos ≤ e'.pos ∧ w'.output.length = w.output.length := by
  induction steps generalizing e w with
  | nil =>
      rw [Reported.run_nil_eq_ok] at hsize hwrite
      subst hsize hwrite
      exact ⟨hpos, rfl⟩
  | cons s rest ih =>
      have hs := extent_run_cons he hsize
      obtain ⟨k, hk, _, hrest⟩ := writer_run_cons hwrite
      obtain ⟨hnext, hend⟩ := hk.behind hs hpos
      have hkept : (w.after k).output.length = w.output.length :=
        length_overlay (Nat.le_trans hend hlen)
      obtain ⟨hpos', hout⟩ := ih hs.sound hs.run_rest hrest hnext (by rwa [hkept])
      exact ⟨hpos', hout.trans hkept⟩

theorem writeSteps_behind {steps : List Step} {e : Extent} {size : Nat} {args : List Scalar}
    {w : Writer} (hmeasure : (measure steps).outcome = .ok e)
    (hwrite : (writeSteps steps size args).outcome = .ok w) (hsize : e.size ≤ size) :
    w.pos ≤ e.pos ∧ w.output.length = size := by
  have hbehind := writer_run_behind Extent.start_sound hmeasure hwrite (Nat.le_refl 0)
    (by rwa [List.length_replicate])
  rwa [List.length_replicate] at hbehind

theorem Plan.length_write {directives : List Directive} {args given : List Scalar} {plan : Plan}
    {room : Nat} {bytes : List UInt8} (hbuild : (Plan.build directives args).outcome = .ok plan)
    (hwrite : (plan.write room given).outcome = .ok bytes) : bytes.length = plan.size := by
  obtain ⟨e, hmeasure, hsize⟩ := Plan.measure_steps hbuild
  obtain ⟨_, w, hw, rfl⟩ := Plan.write_eq_ok.1 hwrite
  exact (writeSteps_behind hmeasure hw (Nat.le_of_eq hsize)).2

end BytePack
