import BytePack.Proofs.Arguments
import BytePack.Proofs.Grammar
import BytePack.Proofs.Lemmas.Formats
import BytePack.Proofs.Lemmas.Stars

/-!
# Runs at another place

Steps that place no cursor do the same wherever they start: from a base on, sizing comes to the same
positions above the base, and writing stores the same bytes behind whatever stands before it. A run
that was sized leaves alone what stands behind its output. Where a directive stands in its format
plays no part in what is settled for it.
-/

namespace BytePack

/-! ## Directives that stand elsewhere -/

theorem Directive.sameAs_shift (k : Nat) (ds : List Directive) :
    List.Forall₂ Directive.SameAs ds (ds.map (Directive.shift k)) := by
  induction ds with
  | nil => exact .nil
  | cons d ds ih => exact .cons ⟨rfl, rfl⟩ ih

theorem Directive.SameAs.layout_eq {d d' : Directive} (h : d.SameAs d') : d'.layout = d.layout :=
  congrArg Code.layout h.code

theorem Directive.SameAs.needs_eq {d d' : Directive} (h : d.SameAs d') (left : Nat) :
    d'.needs left = d.needs left := by
  rw [Directive.needs, Directive.needs, h.layout_eq, h.repetition]

theorem Directive.SameAs.like {d d' : Directive} (h : d.SameAs d') (args : List Scalar) :
    Step.Like ⟨d, d.countFor args⟩ ⟨d', d'.countFor args⟩ where
  code := h.code.symm
  count := by rw [Directive.countFor, Directive.countFor, h.layout_eq, h.repetition]

theorem settle_of_sameAs {ds ds' : List Directive} (h : List.Forall₂ Directive.SameAs ds ds')
    {args : List Scalar} (hserved : AllServed args.length ds) :
    AllServed args.length ds' ∧ List.Forall₂ Step.Like (settle ds args) (settle ds' args) := by
  induction h generalizing args with
  | nil => exact ⟨trivial, .nil⟩
  | cons hd _ ih =>
      obtain ⟨hneeds, hrest⟩ := hserved
      rw [← List.length_drop] at hrest
      obtain ⟨hserved, hlike⟩ := ih hrest
      rw [List.length_drop] at hserved
      rw [AllServed, settle, settle, hd.needs_eq]
      exact ⟨⟨hneeds, hserved⟩, .cons (hd.like args) hlike⟩

theorem packDirectives_of_sameAs {ds ds' : List Directive}
    (h : List.Forall₂ Directive.SameAs ds ds') {room : Nat} {args : List Scalar}
    {bytes : List UInt8} (hpack : (packDirectives room ds args).outcome = .ok bytes) :
    (packDirectives room ds' args).outcome = .ok bytes := by
  rw [packDirectives_eq_ok_passes] at hpack ⊢
  obtain ⟨hserved, e, w, hmeasure, hroom, hwrite, hout⟩ := hpack
  obtain ⟨hserved, hlike⟩ := settle_of_sameAs h hserved
  rw [measure_congr hlike] at hmeasure
  rw [writeSteps_congr hlike] at hwrite
  exact ⟨hserved, e, w, hmeasure, hroom, hwrite, hout⟩

/-! ## Directives one after the other -/

theorem allServed_append {left : Nat} {ds es : List Directive} :
    AllServed left (ds ++ es) ↔ AllServed left ds ∧ AllServed (leftAfter left ds) es := by
  induction ds generalizing left with
  | nil => exact ⟨fun h => ⟨trivial, h⟩, fun h => h.2⟩
  | cons d ds ih =>
      rw [List.cons_append, AllServed, AllServed, ih, leftAfter, and_assoc]

theorem settle_append {args : List Scalar} {ds : List Directive} (h : AllServed args.length ds)
    (es : List Directive) :
    settle (ds ++ es) args =
      settle ds args ++ settle es (args.drop (args.length - leftAfter args.length ds)) := by
  induction ds generalizing args with
  | nil => simp [settle, leftAfter]
  | cons d ds ih =>
      obtain ⟨hneeds, hrest⟩ := h
      have hle := leftAfter_le (args.length - d.needs args.length) ds
      rw [← List.length_drop] at hrest
      rw [List.cons_append, settle, settle, ih hrest, List.drop_drop, List.length_drop, leftAfter,
        List.cons_append]
      congr 4
      omega

/-- Directives that need all of some arguments, and then others that find theirs behind them. -/
theorem settle_concat {ds es : List Directive} {args more : List Scalar}
    (hbounded : ∀ d ∈ ds, ¬ d.TakesAll) (hds : AllServed args.length ds)
    (hused : leftAfter args.length ds = 0) (hes : AllServed more.length es) :
    AllServed (args ++ more).length (ds ++ es) ∧
      settle (ds ++ es) (args ++ more) = settle ds args ++ settle es more := by
  obtain ⟨hserved, hleft, hsettle⟩ := served_append hbounded hds more
  rw [hused, Nat.zero_add] at hleft
  refine ⟨allServed_append.2 ⟨hserved, hleft ▸ hes⟩, ?_⟩
  rw [settle_append hserved, hsettle, hleft, List.length_append, Nat.add_sub_cancel,
    List.drop_left]

/-! ## Sizing from a base on -/

theorem Step.target_add {s : Step} (h : s.layout.seeks = false) (base pos : Nat) :
    s.target (base + pos) = base + s.target pos := by
  rw [Step.target_of_not_seeks h, Step.target_of_not_seeks h, Nat.add_assoc]

/-- From a base on, steps that do not seek come to the same positions above it. -/
theorem extent_run_add {steps : List Step} (hseek : ∀ s ∈ steps, s.layout.seeks = false)
    {base : Nat} {e e' f : Extent} (he : e.Sound) (hf : f.Sound)
    (hrun : (steps.foldlM Step.extend e).outcome = .ok e') (hroom : base + e'.size ≤ maxPosition)
    (hpos : f.pos = base + e.pos) (hsize : f.size = base + e.size) :
    ∃ f', (steps.foldlM Step.extend f).outcome = .ok f' ∧ f'.pos = base + e'.pos ∧
      f'.size = base + e'.size := by
  induction steps generalizing e f with
  | nil =>
      rw [Reported.run_nil_eq_ok] at hrun
      subst hrun
      exact ⟨f, rfl, hpos, hsize⟩
  | cons s rest ih =>
      obtain ⟨hs, hrest⟩ := List.forall_mem_cons.1 hseek
      have hsized := extent_run_cons he hrun
      have htarget : s.target f.pos = base + s.target e.pos := by rw [hpos, Step.target_add hs]
      have hreach : s.target f.pos ≤ maxPosition := by
        have := hsized.target_le
        omega
      have hnext : (f.after s).Sound := hf.moveTo s.symbol hreach
      obtain ⟨f', hf', hends⟩ := ih hrest hsized.sound hnext hsized.run_rest
        (by rw [Extent.after_pos, Extent.after_pos, htarget])
        (by rw [Extent.after_size, Extent.after_size, htarget, hsize, Nat.add_max_add_left])
      exact ⟨f', Reported.run_cons_eq_ok.2 ⟨_, (Step.extend_eq_ok hf).2 ⟨hreach, rfl⟩, hf'⟩, hends⟩

/-! ## Writing between other bytes -/

theorem overlay_append_right {output stored : List UInt8} {pos : Nat}
    (h : pos + stored.length ≤ output.length) (tail : List UInt8) :
    overlay (output ++ tail) pos stored = overlay output pos stored ++ tail := by
  rw [overlay, overlay, List.take_append_of_le_length (by omega), List.drop_append_of_le_length h,
    List.append_assoc (output.take pos ++ stored)]

theorem overlay_append_left (front output stored : List UInt8) (pos : Nat) :
    overlay (front ++ output) (front.length + pos) stored =
      front ++ overlay output pos stored := by
  simp only [overlay, List.take_length_add_append, Nat.add_assoc, List.drop_length_add_append,
    List.append_assoc]

/-- A run that was sized leaves alone what stands behind its output. -/
theorem writer_run_tail {steps : List Step} {e e' : Extent} {w w' : Writer} (he : e.Sound)
    (hsize : (steps.foldlM Step.extend e).outcome = .ok e')
    (hwrite : (steps.foldlM Step.write w).outcome = .ok w') (hpos : w.pos ≤ e.pos)
    (hlen : e'.size ≤ w.output.length) (tail : List UInt8) :
    (steps.foldlM Step.write { w with output := w.output ++ tail }).outcome =
      .ok { w' with output := w'.output ++ tail } := by
  induction steps generalizing e w with
  | nil =>
      rw [Reported.run_nil_eq_ok] at hwrite
      subst hwrite
      rfl
  | cons s rest ih =>
      have hs := extent_run_cons he hsize
      obtain ⟨k, hk, _, hrest⟩ := writer_run_cons hwrite
      obtain ⟨hnext, hend⟩ := hk.behind hs hpos
      have hfit := Nat.le_trans hend hlen
      have hkept : (w.after k).output.length = w.output.length := length_overlay hfit
      refine Reported.run_cons_eq_ok.2 ⟨_, Step.write_eq_ok.2 ⟨k, hk, rfl⟩, ?_⟩
      rw [Writer.after, overlay_append_right hfit]
      exact ih hs.sound hs.run_rest hrest hnext (by rwa [hkept])

/-- What a step that does not seek does at a position, it does from a base on. -/
theorem Step.Strikes.add {s : Step} {pos : Nat} {args : List Scalar} {k : Stroke}
    (h : s.Strikes pos args k) (hs : s.layout.seeks = false) (base : Nat) :
    s.Strikes (base + pos) args { k with next := base + k.next } := by
  cases h with
  | text hl =>
      rw [← Nat.add_assoc]
      exact .text hl
  | hex hl =>
      rw [← Nat.add_assoc]
      exact .hex hl
  | number hl hn hw =>
      rw [← Nat.add_assoc]
      exact .number hl hn hw
  | nulByte hl =>
      rw [← Nat.add_assoc]
      exact .nulByte hl
  | backUp hl =>
      rw [hl] at hs
      cases hs
  | absolute hl =>
      rw [hl] at hs
      cases hs

/-- Behind other bytes, steps that do not seek write what they write at the start. -/
theorem writer_run_front {steps : List Step} (hseek : ∀ s ∈ steps, s.layout.seeks = false)
    {w w' : Writer} (h : (steps.foldlM Step.write w).outcome = .ok w') (front : List UInt8) :
    (steps.foldlM Step.write ⟨front ++ w.output, front.length + w.pos, w.unread⟩).outcome =
      .ok ⟨front ++ w'.output, front.length + w'.pos, w'.unread⟩ := by
  induction steps generalizing w with
  | nil =>
      rw [Reported.run_nil_eq_ok] at h
      subst h
      rfl
  | cons s rest ih =>
      obtain ⟨hs, hrest⟩ := List.forall_mem_cons.1 hseek
      obtain ⟨k, hk, _, hrun⟩ := writer_run_cons h
      refine Reported.run_cons_eq_ok.2
        ⟨_, Step.write_eq_ok.2 ⟨_, hk.add hs front.length, rfl⟩, ?_⟩
      rw [Writer.after, overlay_append_left]
      exact ih hrest hrun

end BytePack
