import BytePack.Proofs.Lemmas.Formats
import BytePack.Proofs.Lemmas.Shifting

/-!
# One format after another

If a format uses up its arguments and its writing ends at the end of its output, then a second one
that does not seek finds behind it what it finds at the start: both together pack what they pack
alone, one behind the other.
-/

namespace BytePack

variable {directives : List Directive} {room : Nat} {args : List Scalar}

/-! ## Arguments that are used up -/

theorem leftAfter_eq_zero (hserved : AllServed args.length directives)
    (hused : ∀ n, .unusedArguments n ∉ (packDirectives room directives args).diagnostics) :
    leftAfter args.length directives = 0 := by
  by_contra hleft
  refine hused (leftAfter args.length directives)
    (List.mem_of_mem_filter (p := Diagnostic.isUnused) ?_)
  rw [filter_packDirectives_unused, leftoverReports, if_pos hserved, unusedReports, if_neg hleft]
  exact List.mem_singleton_self _

/-! ## The two passes -/

section
variable {steps more : List Step} {e e' : Extent} {w v : Writer} {given : List Scalar}

/-- Where writing ends at the end of the output, sizing does. -/
theorem sizing_at_end (hmeasure : (measure steps).outcome = .ok e)
    (hwrite : (writeSteps steps e.size args).outcome = .ok w) (hend : w.pos = e.size) :
    e.pos = e.size := by
  have hbehind := (writeSteps_behind hmeasure hwrite (Nat.le_refl _)).1
  have hpos := (extent_run_sound Extent.start_sound hmeasure).1.pos_le
  omega

/-- Sizing goes on where the first steps end. -/
theorem measure_concat (hfirst : (measure steps).outcome = .ok e)
    (hsecond : (measure more).outcome = .ok e') (hend : e.pos = e.size)
    (hseek : ∀ s ∈ more, s.layout.seeks = false) (hmax : e.size + e'.size ≤ maxPosition) :
    ∃ both, (measure (steps ++ more)).outcome = .ok both ∧ both.size = e.size + e'.size := by
  have hsound := (extent_run_sound Extent.start_sound hfirst).1
  obtain ⟨both, hrun, _, hsize⟩ :=
    extent_run_add hseek Extent.start_sound hsound hsecond hmax hend rfl
  exact ⟨both, Reported.run_append_eq_ok.2 ⟨e, hfirst, hrun⟩, hsize⟩

/-- Writing goes on where the first steps end, over the zeros behind their output. -/
theorem writeSteps_concat {size : Nat} (hmeasure : (measure steps).outcome = .ok e)
    (hfirst : (writeSteps steps e.size args).outcome = .ok w) (hused : w.unread = [])
    (hend : w.pos = e.size) (hseek : ∀ s ∈ more, s.layout.seeks = false)
    (hsecond : (writeSteps more size given).outcome = .ok v) :
    (writeSteps (steps ++ more) (e.size + size) (args ++ given)).outcome =
      .ok ⟨w.output ++ v.output, w.pos + v.pos, v.unread⟩ := by
  have hlen := (writeSteps_behind hmeasure hfirst (Nat.le_refl _)).2
  have htail := writer_run_tail Extent.start_sound hmeasure hfirst (Nat.le_refl 0)
    (Nat.le_of_eq List.length_replicate.symm) (List.replicate size 0)
  have hfeed : (steps.foldlM Step.write
      ⟨List.replicate e.size 0 ++ List.replicate size 0, 0, args ++ given⟩).outcome =
        .ok ⟨w.output ++ List.replicate size 0, w.pos, given⟩ := by
    have hrun := writer_run_feed
      (w := ⟨List.replicate e.size 0 ++ List.replicate size 0, 0, args⟩)
      (writer_run_takes htail).1 given
    rw [Writer.feed] at hrun
    rw [hrun, Reported.map_eq, htail, Except.map, Writer.feed, hused, List.nil_append]
  have hmore := writer_run_front hseek hsecond w.output
  rw [hlen, Nat.add_zero, ← hend] at hmore
  rw [writeSteps, ← List.replicate_append_replicate]
  exact Reported.run_append_eq_ok.2 ⟨_, hfeed, hmore⟩

end

/-! ## Packing -/

theorem packDirectives_concat {ds es : List Directive} {a b : List Scalar} {e : Extent}
    {w : Writer} {v : List UInt8} {room₁ room₂ : Nat} (hserved : AllServed a.length ds)
    (hused : ∀ n, .unusedArguments n ∉ (packDirectives room₁ ds a).diagnostics)
    (hbounded : ∀ d ∈ ds, ¬ d.TakesAll) (hmeasure : (measure (settle ds a)).outcome = .ok e)
    (hwrite : (writeSteps (settle ds a) e.size a).outcome = .ok w) (hend : w.pos = e.size)
    (hv : (packDirectives room₂ es b).outcome = .ok v)
    (hseek : ∀ d ∈ es, d.layout.seeks = false)
    (hroom : e.size + v.length ≤ room) (hmax : e.size + v.length ≤ maxPosition) :
    (packDirectives room (ds ++ es) (a ++ b)).outcome = .ok (w.output ++ v) := by
  have hleft := leftAfter_eq_zero hserved hused
  obtain ⟨hserved', e', v, hmeasure', _, hwrite', rfl⟩ := packDirectives_eq_ok_passes.1 hv
  have hlen' := (writeSteps_behind hmeasure' hwrite' (Nat.le_refl _)).2
  rw [hlen'] at hroom hmax
  have hseek := settle_seekFree hseek b
  have hunread : w.unread = [] := by
    have htaken := takenBy_settle hserved
    obtain ⟨_, hunread⟩ := writer_run_takes hwrite
    rw [hunread]
    exact List.drop_of_length_le (by simp only; omega)
  obtain ⟨hboth, hsettle⟩ := settle_concat hbounded hserved hleft hserved'
  obtain ⟨both, hsizing, hsize⟩ :=
    measure_concat hmeasure hmeasure' (sizing_at_end hmeasure hwrite hend) hseek hmax
  have hwriting := writeSteps_concat hmeasure hwrite hunread hend hseek hwrite'
  rw [← hsize] at hroom hwriting
  rw [packDirectives_eq_ok_passes, hsettle]
  exact ⟨hboth, both, _, hsizing, hroom, hwriting, rfl⟩

/-- Packing takes concatenation to concatenation, where the first format uses up its arguments, has
no `*` on numbers and ends writing at the end of its output, and the second one does not place the
cursor. -/
theorem packFormat_concat {f g : String} {a b : List Scalar} {u v : List UInt8} {plan : Plan}
    {w : Writer} {room₁ room₂ : Nat} (hparse : parseFormat f = .ok directives)
    (hbuild : (Plan.build directives a).outcome = .ok plan)
    (hwrite : (writeSteps plan.steps plan.size a).outcome = .ok w)
    (hu : (packFormat room₁ f a).outcome = .ok u)
    (hused : ∀ n, .unusedArguments n ∉ (packFormat room₁ f a).diagnostics)
    (hbounded : ∀ d ∈ directives, ¬ d.TakesAll) (hend : w.pos = u.length)
    (hv : (packFormat room₂ g b).outcome = .ok v)
    (hback : 'X' ∉ g.toList) (hjump : '@' ∉ g.toList)
    (hroom : u.length + v.length ≤ room) (hmax : u.length + v.length ≤ maxPosition) :
    (packFormat room (f ++ g) (a ++ b)).outcome = .ok (u ++ v) := by
  rw [packFormat_of_parse hparse] at hu hused
  obtain ⟨es, hes, hv⟩ := packFormat_eq_ok.1 hv
  obtain ⟨e, w', hmeasure, hsize, hwrite', rfl, hlen⟩ := packDirectives_passes hbuild hu
  cases hwrite.symm.trans hwrite'
  obtain ⟨hserved, _, _, rfl⟩ := Plan.build_eq_ok_settle.1 hbuild
  -- the directives of `g` stand elsewhere in `f ++ g`, which changes nothing of what they pack
  have hv := packDirectives_of_sameAs (Directive.sameAs_shift f.utf8ByteSize es) hv
  have hseek : ∀ d ∈ es.map (Directive.shift f.utf8ByteSize), d.layout.seeks = false := by
    intro d hd
    obtain ⟨d', hd', rfl⟩ := List.mem_map.1 hd
    exact parseFormat_seekFree hes hback hjump d' hd'
  rw [← hsize] at hwrite hlen
  rw [packFormat_of_parse (parseFormat_append hparse hes)]
  rw [hlen] at hend hroom hmax
  exact packDirectives_concat hserved hused hbounded hmeasure hwrite hend hv hseek hroom hmax

/-- Clears two bytes, writes a text and a byte over its end; then a short text of digits and all
numbers that are left, with a zero at the end. -/
theorem packFormat_concat_short_digits :
    (packFormat 8 ("@2A*X1C" ++ "H4n*") ([.text "ab", .int 7] ++ [.text "f", .int 1])).outcome =
      .ok ([0, 0, 0x61, 7] ++ [0xF0, 0, 1, 0]) := by
  let jump : Directive := ⟨⟨'@', .absolute⟩, .count 2, 0⟩
  let text : Directive := ⟨⟨'A', .text .space⟩, .greedy, 2⟩
  let back : Directive := ⟨⟨'X', .backUp⟩, .count 1, 4⟩
  let byte : Directive := ⟨⟨'C', .number (.integer .byte .machine false)⟩, .count 1, 6⟩
  have hparse : parseFormat "@2A*X1C" = .ok [jump, text, back, byte] := by decide +kernel
  have hbuild : (Plan.build [jump, text, back, byte] [.text "ab", .int 7]).outcome =
      .ok ⟨[⟨jump, 2⟩, ⟨text, 2⟩, ⟨back, 1⟩, ⟨byte, 1⟩], 4, 'A', 2⟩ := by decide +kernel
  have hwrite : (writeSteps [⟨jump, 2⟩, ⟨text, 2⟩, ⟨back, 1⟩, ⟨byte, 1⟩] 4
      [.text "ab", .int 7]).outcome = .ok ⟨[0, 0, 0x61, 7], 4, []⟩ := by rfl
  have hu : packFormat 4 "@2A*X1C" [.text "ab", .int 7] = ⟨[], .ok [0, 0, 0x61, 7]⟩ := by
    apply Reported.ext <;> decide +kernel
  have hv : (packFormat 4 "H4n*" [.text "f", .int 1]).outcome = .ok [0xF0, 0, 1, 0] := by
    decide +kernel
  exact packFormat_concat hparse hbuild hwrite (congrArg Reported.outcome hu) (by simp [hu])
    (by simp [Directive.TakesAll, Directive.layout, Layout.argumentClass, jump, text, back, byte])
    rfl hv (by decide) (by decide) (by decide) (by decide)

end BytePack
