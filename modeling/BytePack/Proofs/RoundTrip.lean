import BytePack.Codec
import BytePack.Proofs.Lemmas.Fields
import BytePack.Proofs.Lemmas.Records
import BytePack.Proofs.Lemmas.Reports

/-!
# Packing and unpacking again

Without a code that seeks, each step of a plan has a part of the output to itself, and no later step
touches it. So the groups that ask for the steps read back what each step stored: a text without its
padding, a hexadecimal text in lower case, and numbers reduced to their width or precision.
-/

namespace BytePack

/-! ## What comes back -/

/-- The values that the arguments of a step read back as. -/
def Step.values (s : Step) (args : List Scalar) : Except Error (List Value) :=
  match s.layout with
  | .text padding => .ok ((args.take 1).map fun a => .bytes (padding.kept s.count a.toBytes))
  | .hex _ => .ok ((args.take 1).map fun a => .bytes ((a.toBytes.take s.count).map lowerDigit))
  | .number format => (args.take s.count).mapM format.readBack
  | _ => .ok []

/-- Whether a step has one field under the name alone. -/
def Step.single (s : Step) : Bool :=
  match s.layout with
  | .number _ => s.count == 1
  | _ => true

/-- The fields that the arguments of named steps read back as. -/
def canonicalFields : List (Step × String) → List Scalar → Except Error (List (String × Value))
  | [], _ => .ok []
  | (s, name) :: rest, args => do
    let values ← s.values args
    let fields ← canonicalFields rest (args.drop s.taken)
    pure (numbered name s.single values ++ fields)

theorem Number.mapM_readBack {format : Number} {taken : List Scalar} {words : List (List UInt8)}
    (h : List.Forall₂ (fun a word => format.encode a = .ok word) taken words) :
    taken.mapM format.readBack = .ok (words.map format.decode) := by
  induction h with
  | nil => rfl
  | cons ha _ ih =>
      rw [List.mapM_cons, Number.readBack_of_encode ha, ih]
      rfl

theorem Step.Strikes.fields_eq {s : Step} {pos : Nat} {args : List Scalar} {k : Stroke}
    (h : s.Strikes pos args k) (hs : s.Supplied args) (name : String) :
    ∃ values, s.values args = .ok values ∧
      s.layout.fields name s.count k.stored = numbered name s.single values ∧
      k.unread = args.drop s.taken := by
  have hunread := h.takes.2
  unfold Step.values Step.single Layout.fields
  cases h with
  | text hl =>
      simp only [hl]
      exact ⟨_, rfl, by simp [Padding.strip_field], hunread⟩
  | @hex order a rest hl =>
      have hlen : (a.toBytes.take s.count).length = s.count := by
        rw [List.length_take, Nat.min_eq_left (hs _ _ _ hl rfl)]
      have hrender := renderNibbles_nibbleBytes order (a.toBytes.take s.count)
      rw [hlen] at hrender
      simp only [hl]
      exact ⟨_, rfl, by simp [hrender], hunread⟩
  | @number format taken rest words hl hn hw =>
      have hpieces := pieces_flatten (Number.length_of_mem_words hw)
      rw [← hw.length_eq, hn] at hpieces
      simp only [hl, hpieces, List.take_left' hn]
      exact ⟨_, Number.mapM_readBack hw, rfl, hunread⟩
  | nulByte hl =>
      simp only [hl]
      exact ⟨[], rfl, rfl, hunread⟩
  | backUp hl =>
      simp only [hl]
      exact ⟨[], rfl, rfl, hunread⟩
  | absolute hl =>
      simp only [hl]
      exact ⟨[], rfl, rfl, hunread⟩

/-! ## Parts of the output -/

theorem Step.Strikes.length_stored {s : Step} {pos : Nat} {args : List Scalar} {k : Stroke}
    (h : s.Strikes pos args k) (hs : s.Supplied args) (hseek : s.layout.seeks = false) :
    k.stored.length = s.layout.span s.count := by
  cases h with
  | text hl => simp [hl, Layout.span]
  | hex hl => simp [hl, Layout.span, Nat.min_eq_left (hs _ _ _ hl rfl)]
  | number hl hn hw => simp [hl, Layout.span, Number.length_words hw, hn]
  | nulByte hl => simp [hl, Layout.span]
  | backUp hl => simp [hl, Layout.seeks] at hseek
  | absolute hl => simp [hl, Layout.seeks] at hseek

theorem take_overlay {output stored : List UInt8} {pos : Nat} (h : pos ≤ output.length) :
    (overlay output pos stored).take (pos + stored.length) = output.take pos ++ stored := by
  have hlen : (output.take pos ++ stored).length = pos + stored.length := by
    rw [List.length_append, List.length_take]
    omega
  rw [overlay, List.take_left' hlen]

theorem take_and_window {output front stored : List UInt8} {pos : Nat} (hpos : front.length = pos)
    (h : output.take (pos + stored.length) = front ++ stored) :
    output.take pos = front ∧ (output.drop pos).take stored.length = stored := by
  constructor
  · have hfront := congrArg (List.take pos) h
    rwa [List.take_take, Nat.min_eq_left (Nat.le_add_right _ _), List.take_left' hpos] at hfront
  · have hstored := congrArg (List.drop pos) h
    rwa [List.drop_take, Nat.add_sub_cancel_left, List.drop_left' hpos] at hstored

/-- What a step stored stays, if the output stays as it is up to where the step ended. -/
theorem Step.Strikes.stays {s : Step} {w : Writer} {k : Stroke}
    (hk : s.Strikes w.pos w.unread k) (hseek : s.layout.seeks = false)
    (hpos : w.pos ≤ w.output.length) {output : List UInt8}
    (h : output.take k.next = (w.after k).output.take k.next) :
    output.take w.pos = w.output.take w.pos ∧
      (output.drop w.pos).take k.stored.length = k.stored := by
  have hlow : (w.output.take w.pos).length = w.pos := by
    rw [List.length_take, Nat.min_eq_left hpos]
  rw [hk.next_of_not_seeks hseek, Writer.after, take_overlay hpos] at h
  exact take_and_window hlow h

/-- Steps that do not seek leave the output in front of the cursor as it is. -/
theorem writer_run_frame {steps : List Step} {e e' : Extent} {w w' : Writer} (he : e.Sound)
    (hsize : (steps.foldlM Step.extend e).outcome = .ok e')
    (hwrite : (steps.foldlM Step.write w).outcome = .ok w') (hpos : w.pos ≤ e.pos)
    (hlen : e'.size ≤ w.output.length) (hseek : ∀ s ∈ steps, s.layout.seeks = false) :
    w'.output.take w.pos = w.output.take w.pos := by
  induction steps generalizing e w with
  | nil =>
      rw [Reported.run_nil_eq_ok] at hwrite
      rw [hwrite]
  | cons s rest ih =>
      obtain ⟨hkeeps, hseek⟩ := List.forall_mem_cons.1 hseek
      have hs := extent_run_cons he hsize
      obtain ⟨k, hk, _, hrest⟩ := writer_run_cons hwrite
      obtain ⟨hnext, hend⟩ := hk.behind hs hpos
      have hkept : (w.after k).output.length = w.output.length :=
        length_overlay (Nat.le_trans hend hlen)
      have hframe := ih hs.sound hs.run_rest hrest hnext (by rwa [hkept]) hseek
      exact (hk.stays hkeeps (by omega) hframe).1

/-! ## Reading the parts -/

theorem Group.Asks.read_stored {g : Group} {s : Step} (hasks : g.Asks s) {pos : Nat}
    {args : List Scalar} {k : Stroke} (hk : s.Strikes pos args k) (hs : s.Supplied args)
    (hseek : s.layout.seeks = false) {output : List UInt8} (hend : k.next ≤ output.length)
    (hwindow : (output.drop pos).take k.stored.length = k.stored) :
    ∃ values, s.values args = .ok values ∧ k.unread = args.drop s.taken ∧
      g.read ⟨output, pos⟩ = ⟨[], .ok ⟨numbered g.name s.single values, k.next⟩⟩ := by
  have hnext := hk.next_eq hs
  have hread := hasks.read_eq (r := ⟨output, pos⟩) (hnext ▸ hend)
  obtain ⟨values, hvalues, hfields, hunread⟩ := hk.fields_eq hs g.name
  rw [hk.length_stored hs hseek] at hwindow
  simp only [Reader.rest, hwindow, hfields, ← hnext, Step.clampReports_of_not_seeks hseek] at hread
  exact ⟨values, hvalues, hunread, hread⟩

/-- Steps that do not seek are read back from where they stored. -/
theorem readFields_of_writer_run {limit : Nat} {named : List (Step × String)}
    {groups : List Group} {e e' : Extent} {w w' : Writer} (he : e.Sound)
    (hasks : List.Forall₂ (fun p g => g.Asks p.1 ∧ g.name = cutName limit p.2.toList) named groups)
    (hnames : ∀ p ∈ named, Utf8.size p.2.toList ≤ limit)
    (hseek : ∀ s ∈ named.map Prod.fst, s.layout.seeks = false)
    (hsize : ((named.map Prod.fst).foldlM Step.extend e).outcome = .ok e')
    (hwrite : ((named.map Prod.fst).foldlM Step.write w).outcome = .ok w')
    (hshort : ∀ symbol,
      .notEnoughCharacters symbol ∉ ((named.map Prod.fst).foldlM Step.write w).diagnostics)
    (hpos : w.pos = e.pos) (hlen : e'.size ≤ w.output.length) :
    ∃ fields, canonicalFields named w.unread = .ok fields ∧
      readFields ⟨w'.output, w.pos⟩ groups = ⟨[], .ok fields⟩ := by
  induction hasks generalizing e w with
  | nil => exact ⟨[], rfl, rfl⟩
  | @cons p g named groups hg _ ih =>
      obtain ⟨s, name⟩ := p
      obtain ⟨hasks, hname⟩ := hg
      obtain ⟨hfits, hnames⟩ := List.forall_mem_cons.1 hnames
      rw [cutName_of_size_le hfits, String.ofList_toList] at hname
      simp only [List.map_cons] at hsize hwrite hshort hseek
      obtain ⟨hkeeps, hseek⟩ := List.forall_mem_cons.1 hseek
      have hout := (writer_run_behind he hsize hwrite (Nat.le_of_eq hpos) hlen).2
      have hs := extent_run_cons he hsize
      obtain ⟨k, hk, hstep, hrest⟩ := writer_run_cons hwrite
      obtain ⟨hsupplied, hshort⟩ := supplied_of_run hstep hshort
      obtain ⟨hbehind, hend⟩ := hk.behind hs (Nat.le_of_eq hpos)
      have hkept : (w.after k).output.length = w.output.length :=
        length_overlay (Nat.le_trans hend hlen)
      have hlen' : e'.size ≤ (w.after k).output.length := by rwa [hkept]
      have hstand : (w.after k).pos = (e.after s).pos := by
        rw [Extent.after_pos, ← hpos]
        exact hk.next_eq hsupplied
      obtain ⟨fields, hfields, hread⟩ :=
        ih hs.sound hnames hseek hs.run_rest hrest hshort hstand hlen'
      simp only [Writer.after] at hfields hread
      -- the other steps leave what this one stored, so its group finds it in the final output
      have hframe := writer_run_frame hs.sound hs.run_rest hrest hbehind hlen' hseek
      have hwindow := (hk.stays hkeeps (by omega) hframe).2
      obtain ⟨values, hvalues, hunread, hgroup⟩ := hasks.read_stored hk hsupplied hkeeps
        (by rw [hk.next_of_not_seeks hkeeps]; omega) hwindow
      refine ⟨numbered name s.single values ++ fields, ?_, ?_⟩
      · rw [canonicalFields, hvalues, ← hunread, hfields]
        rfl
      · rw [readFields, hgroup, Reported.bind_ok, hread, hname]
        rfl

/-! ## The round trip -/

/-- A format without a code that seeks, in a pack call that is not short of digits: the groups that
ask for the steps read back exactly the canonical fields, and a record with these fields in order if
their keys differ. -/
theorem unpack_pack (codec : Codec) {format : String} {directives : List Directive} {room : Nat}
    {args : List Scalar} {bytes : List UInt8} {plan : Plan}
    (hparse : parseFormat format = .ok directives)
    (hseek : ∀ d ∈ directives, d.layout.seeks = false)
    (hbuild : (Plan.build directives args).outcome = .ok plan)
    (hpack : (packDirectives room directives args).outcome = .ok bytes)
    (hshort : ∀ symbol,
      .notEnoughCharacters symbol ∉ (packDirectives room directives args).diagnostics)
    {named : List (Step × String)} (hnamed : named.map Prod.fst = plan.steps)
    (hnames : ∀ p ∈ named, NameWritable p.2 ∧ Utf8.size p.2.toList ≤ codec.config.nameLimit) :
    ∃ fields, canonicalFields named args = .ok fields ∧
      codec.unpack (namedFormat named) bytes 0 = ⟨[], .ok (Record.ofList fields)⟩ ∧
      ((fields.map Prod.fst).Nodup → (Record.ofList fields).toList = fields) := by
  obtain ⟨groups, hgroups, hasks⟩ := parseGroups_namedFormat hparse hbuild hnamed
    (fun p hp => (hnames p hp).1) codec.config.nameLimit
  obtain ⟨e, w, hmeasure, hsize, hwrite, rfl, _⟩ := packDirectives_passes hbuild hpack
  obtain ⟨ds, _, hreports⟩ := packDirectives_reports hbuild hpack
  have hsteps : ∀ s ∈ named.map Prod.fst, s.layout.seeks = false := by
    intro s hs
    exact hseek s.directive (Plan.directive_mem hbuild s (hnamed ▸ hs))
  have hwriting : ∀ symbol,
      .notEnoughCharacters symbol ∉ (writeSteps plan.steps plan.size args).diagnostics :=
    fun symbol hmem => hshort symbol (hreports ▸ List.mem_append_right _ hmem)
  rw [measure, ← hnamed] at hmeasure
  rw [writeSteps, ← hnamed] at hwrite hwriting
  obtain ⟨fields, hfields, hread⟩ := readFields_of_writer_run Extent.start_sound hasks
    (fun p hp => (hnames p hp).2) hsteps hmeasure hwrite hwriting rfl
    (by rw [List.length_replicate]; exact Nat.le_of_eq hsize)
  refine ⟨fields, hfields, ?_, Record.toList_ofList⟩
  rw [Codec.unpack, hgroups, Reported.ofExcept_ok, Reported.bind_ok, unpackGroups,
    if_neg (Nat.not_lt_zero _), List.drop_zero, hread]
  rfl

/-- A text loses its padding, a number its high bits, and a digit its case. -/
theorem unpack_pack_four_codes :
    ∃ record, Codec.standard.unpack "A3t/s2n/x1/H3h"
        [0x61, 0x62, 0x20, 0xFE, 0xFF, 0x70, 0x11, 0, 0x1A, 0xF0] 0 = ⟨[], .ok record⟩ ∧
      record.toList = [("t", .bytes [0x61, 0x62]), ("n1", .int (-2)), ("n2", .int 4464),
        ("h", .bytes [0x31, 0x61, 0x66])] := by
  let text : Directive := ⟨⟨'A', .text .space⟩, .greedy, 0⟩
  let short : Directive := ⟨⟨'s', .number (.integer .short .machine true)⟩, .count 2, 2⟩
  let nul : Directive := ⟨⟨'x', .nulByte⟩, .count 1, 4⟩
  let digits : Directive := ⟨⟨'H', .hex .highFirst⟩, .count 3, 5⟩
  let args : List Scalar := [.text "ab ", .int (-2), .int 70000, .text "1aF"]
  let named : List (Step × String) :=
    [(⟨text, 3⟩, "t"), (⟨short, 2⟩, "n"), (⟨nul, 1⟩, ""), (⟨digits, 3⟩, "h")]
  have hparse : parseFormat "A*s2xH3" = .ok [text, short, nul, digits] := by decide +kernel
  have hbuild : (Plan.build [text, short, nul, digits] args).outcome =
      .ok ⟨[⟨text, 3⟩, ⟨short, 2⟩, ⟨nul, 1⟩, ⟨digits, 3⟩], 10, 'H', 4⟩ := by decide +kernel
  have hpack : packDirectives 10 [text, short, nul, digits] args =
      ⟨[], .ok [0x61, 0x62, 0x20, 0xFE, 0xFF, 0x70, 0x11, 0, 0x1A, 0xF0]⟩ := by
    apply Reported.ext <;> decide +kernel
  have hformat : namedFormat named = "A3t/s2n/x1/H3h" := by decide +kernel
  have hcanonical : canonicalFields named args = .ok [("t", .bytes [0x61, 0x62]),
      ("n1", .int (-2)), ("n2", .int 4464), ("h", .bytes [0x31, 0x61, 0x66])] := by
    decide +kernel
  obtain ⟨fields, hfields, hunpack, hlist⟩ := unpack_pack Codec.standard hparse (by decide) hbuild
    (congrArg Reported.outcome hpack) (by simp [hpack])
    (show named.map Prod.fst = _ from rfl) (by decide +kernel)
  cases hcanonical.symm.trans hfields
  rw [hformat] at hunpack
  exact ⟨_, hunpack, hlist (by decide)⟩

end BytePack
