import BytePack.Proofs.Lemmas.Demands
import BytePack.Proofs.Lemmas.Matching
import BytePack.Proofs.Lemmas.Words
import BytePack.Proofs.Lemmas.Writing

/-!
# Formats that differ in byte order

Two numbers are akin if they are of one kind and width; then their words have the same bytes, in the
same or in the opposite order. Directives that are akin settle for the same counts, take the same
arguments and the same room, and fail alike. If the orders are the same too (`exact`), they store the
same bytes.
-/

namespace BytePack

/-! ## Numbers -/

/-- The kind of a number. -/
inductive NumberKind where
  | integer
  | single
  | double
  deriving DecidableEq, Repr

/-- The kind of a number. -/
def Number.kind : Number → NumberKind
  | .integer .. => .integer
  | .single _ => .single
  | .double _ => .double

/-- The order of the bytes of a number. -/
def Number.order : Number → ByteOrder
  | .integer _ order _ => order
  | .single order => order
  | .double order => order

/-- Whether two numbers are of one kind and width. -/
structure Number.Akin (n n' : Number) : Prop where
  kind : n'.kind = n.kind
  width : n'.width = n.width

theorem Number.Akin.refl (n : Number) : n.Akin n := ⟨rfl, rfl⟩

theorem ordered_of_resolve_eq {order order' : ByteOrder} (h : order'.resolve = order.resolve)
    (bytes : List UInt8) : ordered order' bytes = ordered order bytes := by
  rw [ordered, ordered, ByteOrder.isBigEndian, ByteOrder.isBigEndian, h]

/-- The bytes of an argument as a number, the least significant first. -/
def Number.plainWord (n : Number) (a : Scalar) : Except Error (List UInt8) :=
  match n with
  | .integer width .. => a.toInteger.map fun v => digits width.bytes v.toUInt64.toNat
  | .single _ => a.toFloat.map fun v => digits 4 v.narrow.bits.toNat
  | .double _ => a.toFloat.map fun v => digits 8 v.bits.toNat

theorem Number.encode_eq (n : Number) (a : Scalar) :
    n.encode a = (n.plainWord a).map (ordered n.order) := by
  cases n with
  | integer width order signed =>
      rw [Number.encode, Number.plainWord]
      cases a.toInteger with
      | ok v => exact congrArg Except.ok (integerWord_eq v width order)
      | error e => rfl
  | single order =>
      rw [Number.encode, Number.plainWord]
      cases a.toFloat with
      | ok v => exact congrArg Except.ok (v.narrow.toBytes_eq order)
      | error e => rfl
  | double order =>
      rw [Number.encode, Number.plainWord]
      cases a.toFloat with
      | ok v => exact congrArg Except.ok (v.toBytes_eq order)
      | error e => rfl

theorem Width.eq_of_bytes_eq {width width' : Width} (h : width'.bytes = width.bytes) :
    width' = width := by
  cases width <;> cases width' <;> first | rfl | cases h

theorem Number.Akin.plainWord_eq {n n' : Number} (h : n.Akin n') (a : Scalar) :
    n'.plainWord a = n.plainWord a := by
  obtain ⟨hkind, hwidth⟩ := h
  cases n with
  | integer width order signed =>
      cases n' with
      | integer width' order' signed' =>
          cases Width.eq_of_bytes_eq hwidth
          rfl
      | single order' => cases hkind
      | double order' => cases hkind
  | single order =>
      cases n' with
      | integer width' order' signed' => cases hkind
      | single order' => rfl
      | double order' => cases hkind
  | double order =>
      cases n' with
      | integer width' order' signed' => cases hkind
      | single order' => cases hkind
      | double order' => rfl

theorem Number.Akin.encode_matches {n n' : Number} (h : n.Akin n') (a : Scalar) :
    Matches (fun word word' => word'.length = word.length ∧
        (n'.order.resolve = n.order.resolve → word' = word))
      (n.encode a) (n'.encode a) := by
  rw [n.encode_eq, n'.encode_eq, h.plainWord_eq]
  cases n.plainWord a with
  | ok word =>
      refine .ok ⟨?_, fun horder => ordered_of_resolve_eq horder word⟩
      rw [length_ordered, length_ordered]
  | error e => exact .error rfl

theorem Number.encodeRun_cons (n : Number) (symbol : Char) (count : Nat) (a : Scalar)
    (args : List Scalar) :
    n.encodeRun symbol (count + 1) (a :: args) = (n.encode a).bind fun word =>
      (n.encodeRun symbol count args).map fun found => (word ++ found.1, found.2) := by
  rw [Number.encodeRun]
  cases n.encode a with
  | error e => rfl
  | ok word => cases n.encodeRun symbol count args <;> rfl

theorem Number.Akin.encodeRun_matches {n n' : Number} (h : n.Akin n') (symbol symbol' : Char)
    (count : Nat) (args : List Scalar) :
    Matches (fun found found' => found'.2 = found.2 ∧ found'.1.length = found.1.length ∧
        (n'.order.resolve = n.order.resolve → found'.1 = found.1))
      (n.encodeRun symbol count args) (n'.encodeRun symbol' count args) := by
  induction count generalizing args with
  | zero => exact .ok ⟨rfl, rfl, fun _ => rfl⟩
  | succ count ih =>
      cases args with
      | nil => exact .error rfl
      | cons a args =>
          rw [n.encodeRun_cons, n'.encodeRun_cons]
          refine (h.encode_matches a).andThen fun word word' hword => (ih args).map ?_
          rintro ⟨words, rest⟩ ⟨words', rest'⟩ ⟨hrest, hlen, hwords⟩
          refine ⟨hrest, ?_, fun horder => congrArg₂ (· ++ ·) (hword.2 horder) (hwords horder)⟩
          rw [List.length_append, List.length_append, hword.1, hlen]

/-! ## Layouts -/

/-- Whether two layouts are the same but for the byte order of their numbers, and, if `exact` says
so, for the name of that order only. -/
inductive Layout.Akin (exact : Prop) : Layout → Layout → Prop where
  | refl (layout : Layout) : Akin exact layout layout
  | number {n n' : Number} (h : n.Akin n')
      (horder : exact → n'.order.resolve = n.order.resolve) :
      Akin exact (.number n) (.number n')

section
variable {exact : Prop} {layout layout' : Layout}

theorem Layout.Akin.argumentClass_eq (h : layout.Akin exact layout') :
    layout'.argumentClass = layout.argumentClass := by
  cases h <;> rfl

theorem Layout.Akin.starCount_eq (h : layout.Akin exact layout') (args : List Scalar) :
    layout'.starCount args = layout.starCount args := by
  cases h <;> rfl

theorem Layout.Akin.span_eq (h : layout.Akin exact layout') (count : Nat) :
    layout'.span count = layout.span count := by
  cases h with
  | refl => rfl
  | number h _ => exact congrArg (count * ·) h.width

end

/-! ## Settling -/

/-- Whether two directives have layouts that are akin and the same repeat. -/
structure Directive.Akin (exact : Prop) (d d' : Directive) : Prop where
  layout : d.layout.Akin exact d'.layout
  repetition : d'.repetition = d.repetition

/-- Whether two steps have layouts that are akin and the same count. -/
structure Step.Akin (exact : Prop) (s t : Step) : Prop where
  layout : s.layout.Akin exact t.layout
  count : t.count = s.count

section
variable {exact : Prop}

theorem Directive.Akin.needs_eq {d d' : Directive} (h : d.Akin exact d') (left : Nat) :
    d'.needs left = d.needs left := by
  rw [Directive.needs, Directive.needs, h.layout.argumentClass_eq, h.repetition]

theorem Directive.Akin.countFor_eq {d d' : Directive} (h : d.Akin exact d')
    (args : List Scalar) : d'.countFor args = d.countFor args := by
  rw [Directive.countFor, Directive.countFor, h.repetition]
  cases d.repetition with
  | count n => rfl
  | greedy => exact h.layout.starCount_eq args

theorem Directive.Akin.demand_matches {d d' : Directive} (h : d.Akin exact d')
    (args : List Scalar) :
    Matches (fun demand demand' => demand' = demand) (d.demand args).outcome
      (d'.demand args).outcome := by
  rw [d.demand_eq, d'.demand_eq, h.needs_eq, h.countFor_eq]
  by_cases hneeds : d.needs args.length ≤ args.length
  · rw [if_pos hneeds, if_pos hneeds]
    exact .ok rfl
  · rw [if_neg hneeds, if_neg hneeds]
    exact .error rfl

theorem resolve_matches {ds ds' : List Directive}
    (h : List.Forall₂ (Directive.Akin exact) ds ds') (args : List Scalar) :
    Matches (fun found found' => List.Forall₂ (Step.Akin exact) found.1 found'.1 ∧
        found'.2 = found.2)
      (resolve ds args).outcome (resolve ds' args).outcome := by
  induction h generalizing args with
  | nil => exact .ok ⟨.nil, rfl⟩
  | cons hd _ ih =>
      rw [resolve, resolve]
      refine (hd.demand_matches args).bind fun demand demand' hdemand => ?_
      rw [hdemand]
      refine (ih (args.drop demand.taken)).bind fun found found' hfound => ?_
      exact .ok ⟨.cons ⟨hd.layout, rfl⟩ hfound.1, hfound.2⟩

/-! ## Sizing -/

theorem Step.Akin.target_eq {s t : Step} (h : s.Akin exact t) (pos : Nat) :
    t.target pos = s.target pos := by
  have hspan := h.layout.span_eq s.count
  have hlayout := h.layout
  unfold Step.target
  rw [h.count]
  generalize s.layout = layout at hspan hlayout ⊢
  generalize t.layout = layout' at hspan hlayout ⊢
  cases hlayout with
  | refl => rfl
  | number _ _ => exact congrArg (pos + ·) hspan

theorem Step.Akin.extend_matches {s t : Step} (h : s.Akin exact t) {e e' : Extent} (he : e.Sound)
    (he' : e'.Sound) (hpos : e'.pos = e.pos) (hsize : e'.size = e.size) :
    Matches (fun f f' => f.Sound ∧ f'.Sound ∧ f'.pos = f.pos ∧ f'.size = f.size)
      (s.extend e).outcome (t.extend e').outcome := by
  rw [s.extend_eq he, t.extend_eq he', hpos, h.target_eq]
  by_cases htarget : s.target e.pos ≤ maxPosition
  · rw [if_pos htarget, if_pos htarget]
    refine .ok ⟨he.moveTo _ htarget, he'.moveTo _ ?_, ?_, ?_⟩
    · rwa [hpos, h.target_eq]
    · rw [Extent.after_pos, Extent.after_pos, hpos, h.target_eq]
    · rw [Extent.after_size, Extent.after_size, hpos, hsize, h.target_eq]
  · rw [if_neg htarget, if_neg htarget]
    exact .error rfl

/-- Sizing comes to the same positions. -/
theorem measure_matches {steps others : List Step}
    (h : List.Forall₂ (Step.Akin exact) steps others) :
    Matches (fun e e' => e'.pos = e.pos ∧ e'.size = e.size) (measure steps).outcome
      (measure others).outcome := by
  have hrun := Matches.run (f := Step.extend) (g := Step.extend)
    (R := fun e e' => e.Sound ∧ e'.Sound ∧ e'.pos = e.pos ∧ e'.size = e.size)
    (fun s t hst e e' he => hst.extend_matches he.1 he.2.1 he.2.2.1 he.2.2.2) h
    ⟨Extent.start_sound, Extent.start_sound, rfl, rfl⟩
  exact hrun.mono fun _ _ he => he.2.2

/-! ## Writing -/

theorem Number.Akin.stroke_matches {n n' : Number} (h : n.Akin n')
    (horder : exact → n'.order.resolve = n.order.resolve) {s t : Step}
    (hs : s.layout = .number n) (ht : t.layout = .number n') (hcount : t.count = s.count)
    (pos : Nat) (args : List Scalar) :
    Matches (fun k k' => k'.next = k.next ∧ k'.unread = k.unread ∧ (exact → k'.stored = k.stored))
      (s.stroke pos args).outcome (t.stroke pos args).outcome := by
  have hrun := h.encodeRun_matches s.symbol t.symbol s.count args
  unfold Step.stroke
  rw [hs, ht, hcount]
  simp only
  generalize n.encodeRun s.symbol s.count args = found at hrun ⊢
  generalize n'.encodeRun t.symbol s.count args = found' at hrun ⊢
  cases hrun with
  | ok hfound =>
      obtain ⟨hrest, hlen, hwords⟩ := hfound
      exact .ok ⟨congrArg (pos + ·) hlen, hrest, fun hexact => hwords (horder hexact)⟩
  | error hkind => exact .error hkind

theorem Step.Akin.stroke_matches {s t : Step} (h : s.Akin exact t) (pos : Nat)
    (args : List Scalar) :
    Matches (fun k k' => k'.next = k.next ∧ k'.unread = k.unread ∧ (exact → k'.stored = k.stored))
      (s.stroke pos args).outcome (t.stroke pos args).outcome := by
  obtain ⟨hlayout, hcount⟩ := h
  generalize hs : s.layout = layout at hlayout
  generalize ht : t.layout = layout' at hlayout
  cases hlayout with
  | number hn horder => exact hn.stroke_matches horder hs ht hcount pos args
  | refl =>
      cases layout with
      | number n => exact (Number.Akin.refl n).stroke_matches (fun _ => rfl) hs ht hcount pos args
      | text padding | hex order =>
          rw [Step.stroke, Step.stroke, hs, ht, hcount]
          cases args with
          | nil => exact .error rfl
          | cons a rest => exact .ok ⟨rfl, rfl, fun _ => rfl⟩
      | nulByte | backUp | absolute =>
          rw [Step.stroke, Step.stroke, hs, ht, hcount]
          exact .ok ⟨rfl, rfl, fun _ => rfl⟩

theorem Step.Akin.write_matches {s t : Step} (h : s.Akin exact t) {w w' : Writer}
    (hpos : w'.pos = w.pos) (hunread : w'.unread = w.unread)
    (houtput : exact → w'.output = w.output) :
    Matches (fun v v' => v'.pos = v.pos ∧ v'.unread = v.unread ∧ (exact → v'.output = v.output))
      (Step.write w s).outcome (Step.write w' t).outcome := by
  rw [Step.write, Step.write, hpos, hunread]
  refine (h.stroke_matches w.pos w.unread).bind fun k k' hk => .ok ⟨hk.1, hk.2.1, fun hexact => ?_⟩
  simp only [houtput hexact, hk.2.2 hexact]

theorem writeSteps_matches {steps others : List Step}
    (h : List.Forall₂ (Step.Akin exact) steps others) (size : Nat) (args : List Scalar) :
    Matches (fun w w' => exact → w'.output = w.output) (writeSteps steps size args).outcome
      (writeSteps others size args).outcome := by
  have hrun := Matches.run (f := Step.write) (g := Step.write)
    (R := fun w w' => w'.pos = w.pos ∧ w'.unread = w.unread ∧ (exact → w'.output = w.output))
    (fun s t hst w w' hw => hst.write_matches hw.1 hw.2.1 hw.2.2) h
    (m := ⟨List.replicate size 0, 0, args⟩) ⟨rfl, rfl, fun _ => rfl⟩
  exact hrun.mono fun _ _ hw => hw.2.2

/-! ## Packing -/

theorem Plan.build_matches {ds ds' : List Directive}
    (h : List.Forall₂ (Directive.Akin exact) ds ds') (args : List Scalar) :
    Matches (fun plan plan' => List.Forall₂ (Step.Akin exact) plan.steps plan'.steps ∧
        plan'.size = plan.size)
      (Plan.build ds args).outcome (Plan.build ds' args).outcome := by
  refine (resolve_matches h args).bind ?_
  rintro ⟨steps, rest⟩ ⟨steps', rest'⟩ hfound
  simp only [Reported.report_bind]
  refine (measure_matches hfound.1).bind fun e e' he => ?_
  exact .ok ⟨hfound.1, he.2⟩

theorem Plan.write_matches {plan plan' : Plan}
    (h : List.Forall₂ (Step.Akin exact) plan.steps plan'.steps) (hsize : plan'.size = plan.size)
    (room : Nat) (args : List Scalar) :
    Matches (fun bytes bytes' => exact → bytes' = bytes) (plan.write room args).outcome
      (plan'.write room args).outcome := by
  rw [Plan.write, Plan.write, hsize]
  by_cases hroom : room < plan.size
  · rw [if_pos hroom, if_pos hroom]
    exact .error rfl
  · rw [if_neg hroom, if_neg hroom]
    exact (writeSteps_matches h plan.size args).bind fun w w' hw => .ok hw

/-- Directives that are akin pack alike. -/
theorem packDirectives_matches {ds ds' : List Directive}
    (h : List.Forall₂ (Directive.Akin exact) ds ds') (room : Nat) (args : List Scalar) :
    Matches (fun bytes bytes' => exact → bytes' = bytes) (packDirectives room ds args).outcome
      (packDirectives room ds' args).outcome :=
  (Plan.build_matches h args).bind fun _ _ hplan => Plan.write_matches hplan.1 hplan.2 room args

end

end BytePack
