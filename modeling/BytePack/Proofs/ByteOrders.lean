import BytePack.Proofs.Lemmas.Formats
import BytePack.Proofs.Lemmas.Recoding
import BytePack.Proofs.Lemmas.Turning

/-!
# Byte orders and signs

Codes for numbers of one kind and width differ in the order of the bytes alone. Where a format does
not seek, little-endian codes in place of big-endian ones reverse each word where it stands and change
nothing else. Codes with the same order on this machine can stand for one another anywhere: how a
number is signed plays no part in packing.
-/

namespace BytePack

/-! ## Codes -/

/-- The little-endian code of the same kind and width, in place of a big-endian one. -/
def littleEndianCode : Char → Char
  | 'n' => 'v'
  | 'N' => 'V'
  | 'J' => 'P'
  | 'G' => 'g'
  | 'E' => 'e'
  | c => c

/-- A format with little-endian codes in place of big-endian ones. -/
def littleEndianFormat (format : String) : String := .ofList (format.toList.map littleEndianCode)

/-- What a code says of numbers, if it is a code for numbers. -/
def Number.ofChar? (c : Char) : Option Number :=
  match (Code.ofChar? c).map Code.layout with
  | some (.number n) => some n
  | _ => none

/-- Whether two codes are for numbers of one kind and width, in the same order on this machine. -/
def Interchangeable (c c' : Char) : Prop :=
  ∃ n n', Number.ofChar? c = some n ∧ Number.ofChar? c' = some n' ∧ n'.kind = n.kind ∧
    n'.width = n.width ∧ n'.order.resolve = n.order.resolve

/-- Whether a word that a big-endian code stored stands at a position of the output. -/
def BigWordAt (plan : Plan) (args : List Scalar) (pos width : Nat) : Prop :=
  ∃ k s p m, plan.steps[k]? = some s ∧ littleEndianCode s.symbol ≠ s.symbol ∧
    writingCursor plan.steps plan.size args k = some p ∧ m < s.count ∧
    width = s.layout.width ∧ pos = p + m * s.layout.width

theorem Number.exists_code_of_ofChar? {c : Char} {n : Number} (h : Number.ofChar? c = some n) :
    ∃ code, Code.ofChar? c = some code ∧ code.layout = .number n := by
  unfold Number.ofChar? at h
  cases hcode : Code.ofChar? c with
  | none =>
      rw [hcode] at h
      cases h
  | some code =>
      rw [hcode, Option.map_some] at h
      cases hl : code.layout with
      | number n' =>
          rw [hl] at h
          cases h
          exact ⟨code, rfl, hl⟩
      | _ =>
          rw [hl] at h
          cases h

theorem Interchangeable.recodes {c c' : Char} (h : Interchangeable c c') :
    Recodes (Layout.Akin True) c c' := by
  obtain ⟨n, n', hc, hc', hkind, hwidth, horder⟩ := h
  obtain ⟨code, hcode, hl⟩ := Number.exists_code_of_ofChar? hc
  obtain ⟨code', hcode', hl'⟩ := Number.exists_code_of_ofChar? hc'
  refine .code hcode hcode' ?_
  rw [hl, hl']
  exact .number ⟨hkind, hwidth⟩ fun _ => horder

theorem Recodes.of_eq {R : Layout → Layout → Prop} (hR : ∀ l, R l l) (c : Char) :
    Recodes R c c := by
  cases h : Code.ofChar? c with
  | none => exact .other h
  | some code => exact .code h h (hR _)

theorem littleEndianCode_of_mem {code : Code} (h : code ∈ codes) :
    (Code.ofChar? (littleEndianCode code.symbol)).map Code.layout = some code.layout.turned ∧
      (littleEndianCode code.symbol ≠ code.symbol ↔ code.layout.isBigEndian = true) := by
  have hall : ∀ code ∈ codes,
      (Code.ofChar? (littleEndianCode code.symbol)).map Code.layout = some code.layout.turned ∧
        (littleEndianCode code.symbol ≠ code.symbol ↔ code.layout.isBigEndian = true) := by
    decide
  exact hall code h

theorem littleEndianCode_of_not_code {c : Char} (h : Code.ofChar? c = none) :
    littleEndianCode c = c := by
  unfold littleEndianCode
  split <;> first | rfl | cases h

theorem recodes_littleEndianCode (c : Char) :
    Recodes (fun l l' => l' = l.turned) c (littleEndianCode c) := by
  cases h : Code.ofChar? c with
  | none =>
      rw [littleEndianCode_of_not_code h]
      exact .other h
  | some code =>
      have hturned := (littleEndianCode_of_mem (Code.mem_of_ofChar? h)).1
      rw [Code.symbol_of_ofChar? h] at hturned
      obtain ⟨code', hcode', hl⟩ := Option.map_eq_some_iff.1 hturned
      exact .code h hcode' hl

/-! ## Formats -/

/-- Formats with codes of layouts that are akin pack alike. -/
theorem packFormat_matches {exact : Prop} {R : Layout → Layout → Prop}
    (hR : ∀ l l', R l l' → l.Akin exact l') {f f' : String}
    (h : List.Forall₂ (Recodes R) f.toList f'.toList) (room : Nat) (args : List Scalar) :
    Matches (fun u v => exact → v = u) (packFormat room f args).outcome
      (packFormat room f' args).outcome := by
  have hparse := parseFormat_recoded h
  refine Matches.bind (x := .ofExcept (parseFormat f)) (y := .ofExcept (parseFormat f')) hparse ?_
  intro ds ds' hds
  exact packDirectives_matches (hds.imp fun d d' hd => ⟨hR _ _ hd.layout, hd.repetition⟩) room args

theorem forall₂_littleEndianCode (cs : List Char) :
    List.Forall₂ (Recodes fun l l' => l' = l.turned) cs (cs.map littleEndianCode) := by
  induction cs with
  | nil => exact .nil
  | cons c cs ih => exact .cons (recodes_littleEndianCode c) ih

theorem forall₂_littleEndianFormat (format : String) :
    List.Forall₂ (Recodes fun l l' => l' = l.turned) format.toList
      (littleEndianFormat format).toList := by
  rw [littleEndianFormat, String.toList_ofList]
  exact forall₂_littleEndianCode format.toList

/-! ## Directives in the other order -/

section
variable {ds ds' : List Directive} {args : List Scalar} {room : Nat} {u u' : List UInt8}
  (h : List.Forall₂ (Directive.Recoded fun l l' => l' = l.turned) ds ds')
include h

theorem settle_turned (args : List Scalar) :
    List.Forall₂ Step.Turned (settle ds args) (settle ds' args) := by
  induction h generalizing args with
  | nil => exact .nil
  | @cons d d' _ _ hd _ ih =>
      have hakin : d.Akin False d' := ⟨hd.layout ▸ d.layout.akin_turned, hd.repetition⟩
      rw [settle, settle, hakin.needs_eq, hakin.countFor_eq]
      exact .cons ⟨hd.layout, rfl⟩ (ih _)

/-- Both outputs consist of the last stores of one run, which are turned in the second. -/
theorem exists_stores_turned (hu : (packDirectives room ds args).outcome = .ok u)
    (hu' : (packDirectives room ds' args).outcome = .ok u') :
    ∃ e w stores, (measure (settle ds args)).outcome = .ok e ∧
      (writeSteps (settle ds args) e.size args).outcome = .ok w ∧ u.length = e.size ∧
      u'.length = e.size ∧ Lays (settle ds args) 0 args stores ∧
      (∀ store ∈ stores, store.Fits e.size) ∧
      (∀ i, u[i]? = (lastStored? stores i).or (List.replicate e.size 0)[i]?) ∧
      ∀ i, u'[i]? = (lastStored? (List.zipWith Step.turnStore (settle ds args) stores) i).or
        (List.replicate e.size 0)[i]? := by
  obtain ⟨_, e, w, hmeasure, _, hwrite, rfl⟩ := packDirectives_eq_ok_passes.1 hu
  obtain ⟨_, e', w', hmeasure', _, hwrite', rfl⟩ := packDirectives_eq_ok_passes.1 hu'
  have hturned := settle_turned h args
  have hsize : e'.size = e.size := by
    have hmatches := measure_matches (hturned.imp fun s t hs =>
      (⟨hs.layout ▸ s.layout.akin_turned, hs.count⟩ : s.Akin False t))
    rw [hmeasure, hmeasure'] at hmatches
    cases hmatches with
    | ok he => exact he.2
  rw [hsize] at hwrite'
  obtain ⟨stores, hlays, hfits⟩ :=
    writer_run_lays Extent.start_sound hmeasure hwrite (Nat.le_refl 0)
  have hroom : ∀ store ∈ stores, store.Fits (List.replicate e.size (0 : UInt8)).length := by
    rwa [List.length_replicate]
  obtain ⟨v, hv, hbytes⟩ := hlays.run _ hroom
  obtain ⟨v', hv', hbytes'⟩ := (hlays.turned hturned).run _ (fits_turned hroom)
  cases hwrite.symm.trans hv
  cases hwrite'.symm.trans hv'
  exact ⟨e, w, stores, hmeasure, hwrite, (writeSteps_behind hmeasure hwrite (Nat.le_refl _)).2,
    (writeSteps_behind hmeasure' hwrite' (Nat.le_of_eq hsize)).2, hlays, hfits, hbytes, hbytes'⟩

end

/-! ## Words -/

theorem Step.Strikes.length_of_isBigEndian {s : Step} {pos : Nat} {args : List Scalar} {k : Stroke}
    (hk : s.Strikes pos args k) (h : s.layout.isBigEndian = true) :
    k.stored.length = s.count * s.layout.width := by
  obtain ⟨n, hl, _⟩ := Layout.isBigEndian_iff.1 h
  cases hk with
  | number hl' hn hw => rw [Number.length_words hw, hn, hl', Layout.width]
  | _ hl' => cases hl.symm.trans hl'

/-- The store of a step stands where writing is before it. -/
theorem exists_store_at {steps : List Step} {size : Nat} {args : List Scalar} {w : Writer}
    {stores : List Store} (hwrite : (writeSteps steps size args).outcome = .ok w)
    (hlays : Lays steps 0 args stores) {k : Nat} {s : Step} (hs : steps[k]? = some s) :
    ∃ store, stores[k]? = some store ∧ writingCursor steps size args k = some store.pos ∧
      (s.layout.isBigEndian = true → store.bytes.length = s.count * s.layout.width) := by
  have hsplit := hwrite
  rw [← List.take_append_drop k steps] at hsplit
  obtain ⟨m, hm, _⟩ := Reported.run_append_eq_ok.1 hsplit
  obtain ⟨stroke, hstroke, hstore⟩ :=
    Lays.store_at (w := ⟨List.replicate size 0, 0, args⟩) hlays hs hm
  refine ⟨⟨m.pos, stroke.stored⟩, hstore, ?_, hstroke.length_of_isBigEndian⟩
  rw [writingCursor, writeSteps, hm]
  rfl

/-- A byte in a store of big-endian numbers is in one of its words. -/
theorem exists_word {s : Step} {store : Store} (hbig : s.layout.isBigEndian = true)
    (hlen : store.bytes.length = s.count * s.layout.width) {i : Nat}
    (hin : store.pos ≤ i ∧ i < store.pos + store.bytes.length) :
    ∃ m < s.count, store.pos + m * s.layout.width ≤ i ∧
      i < store.pos + m * s.layout.width + s.layout.width := by
  obtain ⟨n, hl, _⟩ := Layout.isBigEndian_iff.1 hbig
  have hpos : 0 < s.layout.width := by
    rw [hl]
    exact n.width_pos
  have hlow := Nat.div_mul_le_self (i - store.pos) s.layout.width
  have hhigh := Nat.lt_div_mul_add (a := i - store.pos) hpos
  refine ⟨(i - store.pos) / s.layout.width, (Nat.div_lt_iff_lt_mul hpos).2 ?_, ?_, ?_⟩ <;> omega

theorem settle_symbol_turned {ds : List Directive} {args : List Scalar}
    (hcodes : ∀ d ∈ ds, d.code ∈ codes) {k : Nat} {s : Step} (hs : (settle ds args)[k]? = some s) :
    littleEndianCode s.symbol ≠ s.symbol ↔ s.layout.isBigEndian = true :=
  (littleEndianCode_of_mem (hcodes _ (settle_directive_mem (List.mem_of_getElem? hs)))).2

/-- Directives that do not seek pack the same bytes in the other order, with each big-endian word
reversed where it stands. -/
theorem packDirectives_turned {ds ds' : List Directive} {args : List Scalar} {room : Nat}
    {u u' : List UInt8}
    (h : List.Forall₂ (Directive.Recoded fun l l' => l' = l.turned) ds ds')
    (hcodes : ∀ d ∈ ds, d.code ∈ codes) (hseek : ∀ d ∈ ds, d.layout.seeks = false)
    (hu : (packDirectives room ds args).outcome = .ok u)
    (hu' : (packDirectives room ds' args).outcome = .ok u') :
    ∃ plan, (Plan.build ds args).outcome = .ok plan ∧ u'.length = u.length ∧
      (∀ pos width, BigWordAt plan args pos width → pos + width ≤ u.length ∧
        ∀ b < width, u'[pos + b]? = u[pos + (width - 1 - b)]?) ∧
      ∀ i, (∀ pos width, BigWordAt plan args pos width → ¬ (pos ≤ i ∧ i < pos + width)) →
        u'[i]? = u[i]? := by
  obtain ⟨hserved, _⟩ := packDirectives_eq_ok_passes.1 hu
  obtain ⟨e, w, stores, hmeasure, hwrite, hlen, hlen', hlays, hfits, hbytes, hbytes'⟩ :=
    exists_stores_turned h hu hu'
  refine ⟨_, Plan.build_eq_ok_settle.2 ⟨hserved, e, hmeasure, rfl⟩, hlen'.trans hlen.symm, ?_,
    fun i houtside => ?_⟩
  · rintro pos width ⟨k, s, p, m, hs, hsymbol, hcursor, hm, rfl, rfl⟩
    have hbig := (settle_symbol_turned hcodes hs).1 hsymbol
    obtain ⟨store, hstore, hpos, hstored⟩ := exists_store_at hwrite hlays hs
    cases hcursor.symm.trans hpos
    have hword := word_le (hstored hbig) hm
    have hfit := hfits store (List.mem_of_getElem? hstore)
    rw [Store.Fits] at hfit
    refine ⟨by omega, fun b hb => ?_⟩
    rw [Nat.add_assoc, Nat.add_assoc, hbytes, hbytes', List.getElem?_replicate,
      List.getElem?_replicate, if_pos (by omega), if_pos (by omega),
      hlays.lastStored?_turned_word (settle_turned h args) (settle_seekFree hseek args) hs hstore
        hbig (hstored hbig) hm hb]
  · rw [hbytes, hbytes', lastStored?_turned hlays fun k s store hs hstore hbig hin => ?_]
    obtain ⟨store', hstore', hcursor, hstored⟩ := exists_store_at hwrite hlays hs
    cases hstore.symm.trans hstore'
    obtain ⟨m, hm, hword⟩ := exists_word hbig (hstored hbig) hin
    exact houtside _ _ ⟨k, s, store.pos, m, hs, (settle_symbol_turned hcodes hs).2 hbig,
      hcursor, hm, rfl, rfl⟩ hword

/-! ## Packing -/

/-- Where a format does not seek, little-endian codes in place of big-endian ones pack the same bytes
with each big-endian word reversed where it stands. In any format, a code may be replaced by another
one for numbers of the same kind, width and order on this machine: the bytes stay the same, and an
error stays one of its kind. -/
theorem packFormat_byte_orders (room : Nat) (format : String) (args : List Scalar) :
    ('X' ∉ format.toList → '@' ∉ format.toList →
      ((∃ u, (packFormat room format args).outcome = .ok u) ↔
        ∃ u', (packFormat room (littleEndianFormat format) args).outcome = .ok u') ∧
      ∀ u u', (packFormat room format args).outcome = .ok u →
        (packFormat room (littleEndianFormat format) args).outcome = .ok u' →
        ∃ directives plan, parseFormat format = .ok directives ∧
          (Plan.build directives args).outcome = .ok plan ∧ u'.length = u.length ∧
          (∀ pos width, BigWordAt plan args pos width → pos + width ≤ u.length ∧
            ∀ b < width, u'[pos + b]? = u[pos + (width - 1 - b)]?) ∧
          ∀ i, (∀ pos width, BigWordAt plan args pos width → ¬ (pos ≤ i ∧ i < pos + width)) →
            u'[i]? = u[i]?) ∧
    ∀ other : String,
      List.Forall₂ (fun c c' => c' = c ∨ Interchangeable c c') format.toList other.toList →
      (packFormat room other args).outcome.mapError Error.kind =
        (packFormat room format args).outcome.mapError Error.kind := by
  constructor
  · intro hback hjump
    constructor
    · exact (packFormat_matches (R := fun l l' => l' = l.turned)
        (fun l _ hl => hl ▸ l.akin_turned) (forall₂_littleEndianFormat format) room
        args).exists_ok_iff
    · intro u u' hu hu'
      obtain ⟨ds, hparse, hu⟩ := packFormat_eq_ok.1 hu
      obtain ⟨ds', hparse', hu'⟩ := packFormat_eq_ok.1 hu'
      have hrecoded := parseFormat_recoded (forall₂_littleEndianFormat format)
      rw [hparse, hparse'] at hrecoded
      cases hrecoded with
      | ok hds =>
        obtain ⟨plan, hbuild, hplan⟩ := packDirectives_turned hds
          (fun d hd => (parseFormat_code_mem hparse d hd).1)
          (parseFormat_seekFree hparse hback hjump) hu hu'
        exact ⟨ds, plan, hparse, hbuild, hplan⟩
  · intro other hother
    have hrecodes := hother.imp fun c c' hc =>
      hc.elim (fun h => h ▸ Recodes.of_eq (R := Layout.Akin True) .refl c) Interchangeable.recodes
    have hmatches := packFormat_matches (fun _ _ hl => hl) hrecodes room args
    exact (hmatches.mono fun _ _ h => h trivial).mapError_eq

/-- Two big-endian words between a text and a zero: the first one is turned, the text is not. In place
of the little-endian code stands one for signed numbers. -/
theorem packFormat_byte_orders_pair :
    (packFormat 6 "A1n2x" [.text "z", .int 1, .int 515]).outcome =
        .ok [0x7A, 0, 1, 2, 3, 0] ∧
      (∃ u', (packFormat 6 "A1v2x" [.text "z", .int 1, .int 515]).outcome = .ok u' ∧
        u'.length = 6 ∧ u'[1]? = some 1 ∧ u'[5]? = some 0) ∧
      (packFormat 6 "A1s2x" [.text "z", .int 1, .int 515]).outcome.mapError Error.kind =
        (packFormat 6 "A1v2x" [.text "z", .int 1, .int 515]).outcome.mapError Error.kind := by
  let text : Directive := ⟨⟨'A', .text .space⟩, .count 1, 0⟩
  let words : Directive := ⟨⟨'n', .number (.integer .short .bigEndian false)⟩, .count 2, 2⟩
  let zero : Directive := ⟨⟨'x', .nulByte⟩, .count 1, 4⟩
  have hparse : parseFormat "A1n2x" = .ok [text, words, zero] := by decide +kernel
  have hbuild : (Plan.build [text, words, zero] [.text "z", .int 1, .int 515]).outcome =
      .ok ⟨[⟨text, 1⟩, ⟨words, 2⟩, ⟨zero, 1⟩], 6, 'x', 3⟩ := by decide +kernel
  have hpack : (packFormat 6 "A1n2x" [.text "z", .int 1, .int 515]).outcome =
      .ok [0x7A, 0, 1, 2, 3, 0] := by decide +kernel
  have hformat : littleEndianFormat "A1n2x" = "A1v2x" := by decide +kernel
  obtain ⟨horder, _⟩ := packFormat_byte_orders 6 "A1n2x" [.text "z", .int 1, .int 515]
  obtain ⟨_, hsign⟩ := packFormat_byte_orders 6 "A1v2x" [.text "z", .int 1, .int 515]
  obtain ⟨hsucceeds, hbytes⟩ := horder (by decide) (by decide)
  rw [hformat] at hsucceeds hbytes
  obtain ⟨u', hu'⟩ := hsucceeds.1 ⟨_, hpack⟩
  obtain ⟨_, plan, hparse', hbuild', hlen, hwords, hothers⟩ := hbytes _ u' hpack hu'
  cases hparse.symm.trans hparse'
  cases hbuild.symm.trans hbuild'
  have hword : BigWordAt ⟨[⟨text, 1⟩, ⟨words, 2⟩, ⟨zero, 1⟩], 6, 'x', 3⟩
      [.text "z", .int 1, .int 515] 1 2 :=
    ⟨1, ⟨words, 2⟩, 1, 0, rfl, by decide, by decide +kernel, by decide, rfl, rfl⟩
  have hsigned : Interchangeable 'v' 's' := ⟨_, _, rfl, rfl, rfl, rfl, rfl⟩
  refine ⟨hpack, ⟨u', hu', hlen, (hwords 1 2 hword).2 0 (by decide), hothers 5 ?_⟩,
    hsign "A1s2x" (.cons (.inl rfl) (.cons (.inl rfl) (.cons (.inr hsigned)
      (.cons (.inl rfl) (.cons (.inl rfl) .nil)))))⟩
  rintro pos width ⟨k, s, p, m, hs, hsymbol, hcursor, hm, rfl, rfl⟩
  rcases k with _ | _ | _ | k
  · cases hs
    exact absurd rfl hsymbol
  · cases hs
    have hp : writingCursor [⟨text, 1⟩, ⟨words, 2⟩, ⟨zero, 1⟩] 6
        [.text "z", .int 1, .int 515] 1 = some 1 := by decide +kernel
    cases hcursor.symm.trans hp
    have hwidth : (Step.mk words 2).layout.width = 2 := rfl
    have hcount : m < 2 := hm
    rw [hwidth]
    omega
  · cases hs
    exact absurd rfl hsymbol
  · cases hs

end BytePack
