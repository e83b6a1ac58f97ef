import BytePack.Codec
import BytePack.Proofs.Lemmas.Printing
import BytePack.Proofs.Lemmas.Records
import BytePack.Proofs.Lemmas.Restoring

/-!
# Unpacking and packing again

A format of directives with counts whose fields keep all that is in them gives an input back byte
for byte, if it is unpacked and what was read is packed again. The fields lie one after the other,
each reads as the arguments that store it, and the directives take just these arguments.
-/

namespace BytePack

/-! ## Directives with counts -/

/-- Whether a directive has a count and keeps all that is in its field. -/
def Directive.Keeps (d : Directive) : Prop := ∃ n, d.repetition = .count n ∧ d.layout.Keeps n

/-- The step of a directive with a count. -/
def Directive.step (d : Directive) : Step where
  directive := d
  count := match d.repetition with
    | .count n => n
    | .greedy => 0

/-- The number of bytes in the field of a directive with a count. -/
def Directive.size (d : Directive) : Nat := d.layout.span d.step.count

/-- The keys of the fields of a group with a count. -/
def Group.keys (g : Group) : List String :=
  g.directive.layout.keys g.name g.directive.step.count

/-- Whether a group is a directive with a name; it may stand elsewhere in its format. -/
structure Group.Names (g : Group) (d : Directive) : Prop where
  code : g.directive.code = d.code
  repetition : g.directive.repetition = d.repetition

theorem Directive.Keeps.repetition_eq {d : Directive} (h : d.Keeps) :
    d.repetition = .count d.step.count := by
  obtain ⟨n, hn, -⟩ := h
  simp [Directive.step, hn]

theorem Directive.Keeps.layout_keeps {d : Directive} (h : d.Keeps) :
    d.layout.Keeps d.step.count := by
  obtain ⟨n, hn, hkeeps⟩ := h
  simpa [Directive.step, hn] using hkeeps

theorem Group.Names.asks {g : Group} {d : Directive} (h : g.Names d) (hd : d.Keeps) :
    g.Asks d.step :=
  ⟨h.code, h.repetition.trans hd.repetition_eq⟩

theorem Group.Names.keys_eq {g : Group} {d : Directive} (h : g.Names d) :
    g.keys = d.layout.keys g.name d.step.count := by
  simp only [Group.keys, Directive.layout, Directive.step, h.code, h.repetition]

/-! ## Sizing -/

theorem extent_run_of_spans {steps : List Step} (hseek : ∀ s ∈ steps, s.layout.seeks = false)
    {e : Extent} (he : e.Sound)
    (hend : e.pos + (steps.map fun s => s.layout.span s.count).sum ≤ maxPosition) :
    ∃ e', steps.foldlM Step.extend e = ⟨[], .ok e'⟩ ∧
      e'.size = max e.size (e.pos + (steps.map fun s => s.layout.span s.count).sum) := by
  induction steps generalizing e with
  | nil => exact ⟨e, rfl, (Nat.max_eq_left he.pos_le).symm⟩
  | cons s steps ih =>
      obtain ⟨hs, hseek⟩ := List.forall_mem_cons.1 hseek
      rw [List.map_cons, List.sum_cons] at hend ⊢
      have htarget := Step.target_of_not_seeks hs e.pos
      have hle : s.target e.pos ≤ maxPosition := by omega
      obtain ⟨e', hrun, hsize⟩ := ih hseek (e := e.after s) (he.moveTo s.symbol hle)
        (by rw [Extent.after_pos]; omega)
      refine ⟨e', ?_, ?_⟩
      · rw [List.foldlM_cons, s.extend_eq he, if_pos hle, Step.clampReports_of_not_seeks hs,
          Reported.bind_ok, hrun, List.nil_append]
      · rw [hsize, Extent.after_pos, Extent.after_size]
        omega

/-! ## Field by field -/

/-- The bytes of a field at a position of an input. -/
def fieldAt (input : List UInt8) (pos n : Nat) : List UInt8 := (input.drop pos).take n

/-- A writer that has stored an input up to a position. -/
def restoredTo (input : List UInt8) (pos : Nat) (unread : List Scalar) : Writer :=
  ⟨input.take pos ++ List.replicate (input.length - pos) 0, pos, unread⟩

section

variable {input : List UInt8} {pos n : Nat}

theorem length_fieldAt (h : pos + n ≤ input.length) : (fieldAt input pos n).length = n := by
  rw [fieldAt, List.length_take, List.length_drop]
  omega

theorem overlay_fieldAt (h : pos + n ≤ input.length) (unread : List Scalar) :
    overlay (restoredTo input pos unread).output pos (fieldAt input pos n) =
      (restoredTo input (pos + n) unread).output := by
  have hfront : (input.take pos).length = pos := by
    rw [List.length_take]
    omega
  rw [overlay, length_fieldAt h]
  simp only [restoredTo, fieldAt]
  rw [List.take_left' hfront, ← List.drop_drop, List.drop_left' hfront, List.drop_replicate,
    List.take_add, Nat.sub_sub]

theorem Group.Names.read_eq {g : Group} {d : Directive} (hg : g.Names d) (hd : d.Keeps)
    (h : pos + d.size ≤ input.length) :
    g.read ⟨input, pos⟩ = ⟨[], .ok ⟨d.layout.fields g.name d.step.count
      (fieldAt input pos d.size), pos + d.size⟩⟩ := by
  have hseek : d.step.layout.seeks = false := hd.layout_keeps.not_seeks
  have htarget : d.step.target pos = pos + d.size := Step.target_of_not_seeks hseek pos
  have hread := (hg.asks hd).read_eq (r := ⟨input, pos⟩) (htarget ▸ h)
  rw [Step.clampReports_of_not_seeks hseek, htarget] at hread
  exact hread

theorem Directive.Keeps.write_eq {d : Directive} (hd : d.Keeps) (h : pos + d.size ≤ input.length)
    {name : String} (hnan : ∀ entry ∈ d.layout.fields name d.step.count
      (fieldAt input pos d.size), entry.2.isNaN = false) (more : List Scalar) :
    Step.write (restoredTo input pos
        (d.layout.arguments d.step.count (fieldAt input pos d.size) ++ more)) d.step =
      ⟨[], .ok (restoredTo input (pos + d.size) more)⟩ := by
  have hfield := length_fieldAt h
  have hstroke : d.step.stroke pos
        (d.layout.arguments d.step.count (fieldAt input pos d.size) ++ more) =
      .done ⟨fieldAt input pos d.size, pos + (fieldAt input pos d.size).length, more⟩ :=
    Step.stroke_restored (s := d.step) hd.layout_keeps hfield hnan pos more
  have houtput := overlay_fieldAt h more
  rw [hfield] at hstroke
  unfold Step.write
  simp only [restoredTo] at houtput ⊢
  rw [hstroke, Reported.done, Reported.bind_ok, houtput]
  rfl

end

/-- The groups read an input field by field, and its fields store it again. -/
theorem fields_restored {groups : List Group} {directives : List Directive}
    (hnames : List.Forall₂ Group.Names groups directives) (hkeeps : ∀ d ∈ directives, d.Keeps)
    {input : List UInt8} {pos : Nat}
    (hlen : pos + (directives.map Directive.size).sum = input.length) :
    ∃ fields, readFields ⟨input, pos⟩ groups = ⟨[], .ok fields⟩ ∧
      fields.map Prod.fst = groups.flatMap Group.keys ∧
      ((∀ entry ∈ fields, entry.2.isNaN = false) →
        resolve directives (fields.map fun entry => entry.2.argument) =
            ⟨[], .ok (directives.map Directive.step, [])⟩ ∧
          (directives.map Directive.step).foldlM Step.write
              (restoredTo input pos (fields.map fun entry => entry.2.argument)) =
            ⟨[], .ok (restoredTo input input.length [])⟩) := by
  induction hnames generalizing pos with
  | nil =>
      obtain rfl : pos = input.length := by simpa using hlen
      exact ⟨[], rfl, rfl, fun _ => ⟨rfl, rfl⟩⟩
  | @cons g d groups directives hg _ ih =>
      obtain ⟨hd, hkeeps⟩ := List.forall_mem_cons.1 hkeeps
      rw [List.map_cons, List.sum_cons] at hlen
      have hend : pos + d.size ≤ input.length := by omega
      obtain ⟨fields, hfields, hkeys, hrest⟩ := ih hkeeps
        (show pos + d.size + (directives.map Directive.size).sum = input.length by omega)
      refine ⟨d.layout.fields g.name d.step.count (fieldAt input pos d.size) ++ fields, ?_, ?_,
        fun hnan => ?_⟩
      · rw [readFields, hg.read_eq hd hend, Reported.bind_ok, hfields]
        rfl
      · rw [List.map_append, Layout.map_fst_fields, hkeys, List.flatMap_cons, hg.keys_eq]
      · obtain ⟨hnumbers, hnan⟩ := List.forall_mem_append.1 hnan
        obtain ⟨hresolve, hwrite⟩ := hrest hnan
        rw [List.map_append, Layout.map_argument_fields]
        constructor
        · rw [resolve, Directive.demand_restored hd.repetition_eq hd.layout_keeps, Reported.done,
            Reported.bind_ok, List.drop_left, hresolve]
          rfl
        · rw [List.map_cons, List.foldlM_cons, hd.write_eq hend hnumbers, Reported.bind_ok, hwrite]
          rfl

/-- What was read from an input that a format fills exactly is packed into that input. The keys
differ, so the record holds every field, and no number in it is a NaN, which may lose bits. The
bounds are those of memory: an input has a length that is a position, and there is room for it. -/
theorem pack_unpack (codec : Codec) {form : String} {groups : List Group}
    {directives : List Directive} (hform : parseGroups form codec.config.nameLimit = .ok groups)
    (hnames : List.Forall₂ Group.Names groups directives) (hkeeps : ∀ d ∈ directives, d.Keeps)
    (hkeys : (groups.flatMap Group.keys).Nodup) {input : List UInt8}
    (hlen : input.length = (directives.map Directive.size).sum)
    (hmax : input.length ≤ maxPosition) {room : Nat} (hroom : input.length ≤ room) :
    ∃ record, codec.unpack form input 0 = ⟨[], .ok record⟩ ∧
      ((∀ entry ∈ record.toList, entry.2.isNaN = false) →
        packDirectives room directives (record.toList.map fun entry => entry.2.argument) =
          ⟨[], .ok input⟩) := by
  obtain ⟨fields, hfields, hkeyed, hrest⟩ := fields_restored hnames hkeeps
    (show 0 + (directives.map Directive.size).sum = input.length by omega)
  have hnodup : (fields.map Prod.fst).Nodup := hkeyed ▸ hkeys
  refine ⟨Record.ofList fields, ?_, ?_⟩
  · rw [Codec.unpack, hform, Reported.ofExcept_ok, Reported.bind_ok, unpackGroups,
      if_neg (Nat.not_lt_zero _), List.drop_zero, hfields]
    rfl
  · rw [Record.toList_ofList hnodup]
    intro hnan
    obtain ⟨hresolve, hwrite⟩ := hrest hnan
    have hsizes : ((directives.map Directive.step).map fun s => s.layout.span s.count).sum =
        input.length := by
      rw [List.map_map, hlen]
      rfl
    have hseek : ∀ s ∈ directives.map Directive.step, s.layout.seeks = false := by
      intro s hs
      obtain ⟨d, hd, rfl⟩ := List.mem_map.1 hs
      exact (hkeeps d hd).layout_keeps.not_seeks
    obtain ⟨e, hrun, hsize⟩ := extent_run_of_spans hseek Extent.start_sound
      (by rw [hsizes]; exact (Nat.zero_add _).trans_le hmax)
    rw [hsizes] at hsize
    change e.size = max 0 (0 + input.length) at hsize
    rw [Nat.zero_max, Nat.zero_add] at hsize
    have hbuild : Plan.build directives (fields.map fun entry => entry.2.argument) =
        ⟨[], .ok ⟨directives.map Directive.step, input.length, e.furthest, fields.length⟩⟩ := by
      simp [Plan.build, hresolve, measure, hrun, hsize]
    have hout : writeSteps (directives.map Directive.step) input.length
        (fields.map fun entry => entry.2.argument) =
          ⟨[], .ok (restoredTo input input.length [])⟩ := hwrite
    have hall : (restoredTo input input.length []).output = input := by
      rw [restoredTo, List.take_length, Nat.sub_self]
      exact List.append_nil input
    rw [packDirectives, hbuild, Reported.bind_ok, Plan.write, if_neg (Nat.not_lt.2 hroom), hout,
      Reported.bind_ok, hall]
    rfl

/-- A text, two words, four digits, the least single precision number and the largest word. -/
theorem pack_unpack_five_codes :
    ∃ record, Codec.standard.unpack "at/s2n/H4h/gx/Qk"
        [0x61, 0xFE, 0xFF, 0x70, 0x11, 0x1A, 0xF0, 1, 0, 0, 0, 255, 255, 255, 255, 255, 255, 255,
          255] 0 = ⟨[], .ok record⟩ ∧
      packDirectives 19 [⟨⟨'a', .text .nul⟩, .count 1, 0⟩,
          ⟨⟨'s', .number (.integer .short .machine true)⟩, .count 2, 1⟩,
          ⟨⟨'H', .hex .highFirst⟩, .count 4, 3⟩,
          ⟨⟨'g', .number (.single .littleEndian)⟩, .count 1, 5⟩,
          ⟨⟨'Q', .number (.integer .longLong .machine false)⟩, .count 1, 6⟩]
        (record.toList.map fun entry => entry.2.argument) =
          ⟨[], .ok [0x61, 0xFE, 0xFF, 0x70, 0x11, 0x1A, 0xF0, 1, 0, 0, 0, 255, 255, 255, 255, 255,
            255, 255, 255]⟩ := by
  let input : List UInt8 := [0x61, 0xFE, 0xFF, 0x70, 0x11, 0x1A, 0xF0, 1, 0, 0, 0, 255, 255, 255,
    255, 255, 255, 255, 255]
  let directives : List Directive := [⟨⟨'a', .text .nul⟩, .count 1, 0⟩,
    ⟨⟨'s', .number (.integer .short .machine true)⟩, .count 2, 1⟩,
    ⟨⟨'H', .hex .highFirst⟩, .count 4, 3⟩, ⟨⟨'g', .number (.single .littleEndian)⟩, .count 1, 5⟩,
    ⟨⟨'Q', .number (.integer .longLong .machine false)⟩, .count 1, 6⟩]
  let groups : List Group := [⟨⟨⟨'a', .text .nul⟩, .count 1, 0⟩, "t"⟩,
    ⟨⟨⟨'s', .number (.integer .short .machine true)⟩, .count 2, 3⟩, "n"⟩,
    ⟨⟨⟨'H', .hex .highFirst⟩, .count 4, 7⟩, "h"⟩,
    ⟨⟨⟨'g', .number (.single .littleEndian)⟩, .count 1, 11⟩, "x"⟩,
    ⟨⟨⟨'Q', .number (.integer .longLong .machine false)⟩, .count 1, 14⟩, "k"⟩]
  let fields : List (String × Value) := [("t", .bytes [0x61]), ("n1", .int (-2)), ("n2", .int 4464),
    ("h", .bytes [0x31, 0x61, 0x66, 0x30]), ("x", .float ⟨0x36A0000000000000⟩), ("k", .int (-1))]
  have hform : parseGroups "at/s2n/H4h/gx/Qk" Codec.standard.config.nameLimit = .ok groups := by
    decide +kernel
  have hfields : readFields ⟨input, 0⟩ groups = ⟨[], .ok fields⟩ := by
    apply Reported.ext <;> decide +kernel
  have hread : Codec.standard.unpack "at/s2n/H4h/gx/Qk" input 0 =
      ⟨[], .ok (Record.ofList fields)⟩ := by
    rw [Codec.unpack, hform, Reported.ofExcept_ok, Reported.bind_ok, unpackGroups,
      if_neg (Nat.not_lt_zero _), List.drop_zero, hfields]
    rfl
  have hnames : List.Forall₂ Group.Names groups directives :=
    .cons ⟨rfl, rfl⟩ (.cons ⟨rfl, rfl⟩ (.cons ⟨rfl, rfl⟩ (.cons ⟨rfl, rfl⟩
      (.cons ⟨rfl, rfl⟩ .nil))))
  have hkeeps : ∀ d ∈ directives, d.Keeps := by
    simp only [directives, List.forall_mem_cons]
    exact ⟨⟨1, rfl, rfl⟩, ⟨2, rfl, trivial⟩, ⟨4, rfl, rfl⟩, ⟨1, rfl, trivial⟩, ⟨1, rfl, trivial⟩,
      by simp⟩
  obtain ⟨record, hunpack, hpack⟩ := pack_unpack Codec.standard hform hnames hkeeps
    (by decide +kernel) (show input.length = 19 from rfl) (by decide) (Nat.le_refl 19)
  obtain rfl := Except.ok.inj (congrArg Reported.outcome (hread.symm.trans hunpack))
  refine ⟨_, hunpack, hpack ?_⟩
  rw [Record.toList_ofList (by decide)]
  decide +kernel

end BytePack
