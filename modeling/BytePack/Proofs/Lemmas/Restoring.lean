import BytePack.Proofs.Lemmas.Fields
import BytePack.Proofs.Lemmas.Reading
import BytePack.Proofs.Lemmas.Rounding

/-!
# Values stored again

A text with NUL padding, whole bytes in hexadecimal and a number keep all that is in their field. So
a step of such a layout, given the values that its field reads as, stores the bytes of the field
again: the digits of a hexadecimal text are its halves, an integer is reduced to the word that it
was read from, and a single precision number is not changed by a detour over double precision.
-/

namespace BytePack

/-- A value that was read, as an argument. -/
def Value.argument : Value → Scalar
  | .bytes b => .bytes b
  | .int v => .int v
  | .float x => .float x

/-- Whether a value is not a number, though of a type for numbers. -/
def Value.isNaN : Value → Bool
  | .float x => x.isNaN
  | _ => false

/-! ## Hexadecimal texts -/

theorem forall_half {P : UInt8 → Prop} (h : ∀ n < 16, P (UInt8.ofNat n)) {v : UInt8}
    (hv : v < 16) : P v := by
  simpa using h v.toNat hv

theorem nibble_hexDigit {v : UInt8} (hv : v < 16) : nibble (hexDigit v) = v :=
  forall_half (P := fun v => nibble (hexDigit v) = v) (by decide +kernel) hv

theorem isHexDigit_hexDigit {v : UInt8} (hv : v < 16) : isHexDigit (hexDigit v) = true :=
  forall_half (P := fun v => isHexDigit (hexDigit v) = true) (by decide +kernel) hv

/-- Bytes shown with all their digits are what the digits stand for. -/
theorem nibbleBytes_digits (order : NibbleOrder) (bytes : List UInt8) :
    nibbleBytes order ((bytes.flatMap order.halves).map hexDigit) = bytes := by
  induction bytes with
  | nil => rfl
  | cons b bytes ih =>
      obtain ⟨first, second, hhalves, hfirst, hsecond, hjoin⟩ := order.exists_halves b
      rw [List.flatMap_cons, hhalves]
      simp only [List.cons_append, List.nil_append, List.map_cons, nibbleBytes,
        nibble_hexDigit hfirst, nibble_hexDigit hsecond, hjoin, ih]

theorem invalidDigits_digits (order : NibbleOrder) (bytes : List UInt8) :
    invalidDigits ((bytes.flatMap order.halves).map hexDigit) = [] := by
  induction bytes with
  | nil => rfl
  | cons b bytes ih =>
      obtain ⟨first, second, hhalves, hfirst, hsecond, -⟩ := order.exists_halves b
      rw [List.flatMap_cons, hhalves]
      unfold invalidDigits at ih ⊢
      simpa [isHexDigit_hexDigit hfirst, isHexDigit_hexDigit hsecond] using ih

theorem renderNibbles_all (order : NibbleOrder) {bytes : List UInt8} {n : Nat}
    (h : n = 2 * bytes.length) :
    renderNibbles bytes n order = (bytes.flatMap order.halves).map hexDigit := by
  rw [renderNibbles, List.take_of_length_le (by rw [length_flatMap_halves, h])]

/-! ## Numbers -/

theorem Number.encode_decode {number : Number} {word : List UInt8}
    (h : word.length = number.width) (hnan : (number.decode word).isNaN = false) :
    number.encode (number.decode word).argument = .ok word := by
  cases number with
  | integer width order signed =>
      change Except.ok (integerWord (readInteger word width order signed) width order) = _
      rw [integerWord_readInteger h]
  | single order =>
      have hword : (Single.ofBytes word order).isNaN = false := by
        cases hsingle : (Single.ofBytes word order).isNaN with
        | false => rfl
        | true => exact (Single.isNaN_widen hsingle).symm.trans hnan
      change Except.ok ((Single.ofBytes word order).widen.narrow.toBytes order) = _
      rw [Single.narrow_widen hword, Single.toBytes_ofBytes h]
  | double order =>
      change Except.ok ((Double.ofBytes word order).toBytes order) = _
      rw [Double.toBytes_ofBytes h]

theorem Number.encodeRun_decode {number : Number} (symbol : Char) {words : List (List UInt8)}
    (h : ∀ word ∈ words, word.length = number.width)
    (hnan : ∀ word ∈ words, (number.decode word).isNaN = false) (more : List Scalar) :
    number.encodeRun symbol words.length
        (words.map (fun word => (number.decode word).argument) ++ more) =
      .ok (words.flatten, more) := by
  induction words with
  | nil => rfl
  | cons word words ih =>
      obtain ⟨hword, hwords⟩ := List.forall_mem_cons.1 h
      obtain ⟨hnumber, hnumbers⟩ := List.forall_mem_cons.1 hnan
      simp only [List.length_cons, List.map_cons, List.cons_append, Number.encodeRun,
        Number.encode_decode hword hnumber, ih hwords hnumbers, List.flatten_cons]

theorem flatten_pieces {width n : Nat} {bytes : List UInt8} (h : bytes.length = n * width) :
    (pieces width n bytes).flatten = bytes := by
  induction n generalizing bytes with
  | zero =>
      rw [Nat.zero_mul, List.length_eq_zero_iff] at h
      rw [h]
      rfl
  | succ n ih =>
      rw [Nat.succ_mul] at h
      rw [pieces, List.flatten_cons, ih (by rw [List.length_drop]; omega), List.take_append_drop]

theorem length_of_mem_pieces {width n : Nat} {bytes word : List UInt8}
    (h : bytes.length = n * width) (hword : word ∈ pieces width n bytes) :
    word.length = width := by
  induction n generalizing bytes with
  | zero => cases hword
  | succ n ih =>
      rw [Nat.succ_mul] at h
      rcases List.mem_cons.1 hword with rfl | hword
      · rw [List.length_take]
        omega
      · exact ih (by rw [List.length_drop]; omega) hword

/-! ## Steps -/

/-- Whether a layout with a count keeps all that is in its field. -/
def Layout.Keeps : Layout → Nat → Prop
  | .text padding, _ => padding = .nul
  | .hex _, n => n % 2 = 0
  | .number _, _ => True
  | _, _ => False

theorem Layout.Keeps.not_seeks {layout : Layout} {n : Nat} (h : layout.Keeps n) :
    layout.seeks = false := by
  cases layout with
  | backUp => cases h
  | absolute => cases h
  | _ => rfl

/-- The arguments that the values of a field are. -/
def Layout.arguments (layout : Layout) (n : Nat) (field : List UInt8) : List Scalar :=
  match layout with
  | .text padding => [.bytes (padding.strip field)]
  | .hex order => [.bytes (renderNibbles field n order)]
  | .number format => (pieces format.width n field).map fun word => (format.decode word).argument
  | _ => []

theorem map_snd_numbered (name : String) (single : Bool) (values : List Value) :
    (numbered name single values).map Prod.snd = values := by
  unfold numbered
  rw [List.map_map]
  exact List.zipIdx_map_fst 0 values

theorem Layout.map_argument_fields (layout : Layout) (name : String) (n : Nat)
    (field : List UInt8) :
    (layout.fields name n field).map (fun entry => entry.2.argument) =
      layout.arguments n field := by
  cases layout with
  | number format =>
      have hvalues := congrArg (List.map Value.argument) (map_snd_numbered name (n == 1)
        ((pieces format.width n field).map format.decode))
      rw [List.map_map, List.map_map] at hvalues
      exact hvalues
  | _ => rfl

/-- The keys of the fields of a layout with a count. -/
def Layout.keys (layout : Layout) (name : String) (n : Nat) : List String :=
  match layout with
  | .text _ => [fieldKey name 1 true]
  | .hex _ => [fieldKey name 1 true]
  | .number _ => (List.range n).map fun i => fieldKey name (i + 1) (n == 1)
  | _ => []

theorem Layout.map_fst_fields (layout : Layout) (name : String) (n : Nat) (field : List UInt8) :
    (layout.fields name n field).map Prod.fst = layout.keys name n := by
  cases layout with
  | number format =>
      apply List.ext_getElem
      · simp [Layout.fields, Layout.keys, numbered]
      · simp [Layout.fields, Layout.keys, numbered]
  | _ => rfl

theorem Directive.demand_restored {d : Directive} {n : Nat} (hd : d.repetition = .count n)
    (hkeeps : d.layout.Keeps n) (field : List UInt8) (more : List Scalar) :
    d.demand (d.layout.arguments n field ++ more) =
      .done ⟨n, (d.layout.arguments n field).length⟩ := by
  unfold Directive.demand Layout.arguments
  cases hl : d.layout with
  | text padding => simp [Layout.argumentClass, hd]
  | hex order => simp [Layout.argumentClass, hd]
  | number format => simp [Layout.argumentClass, hd]
  | nulByte => simp [hl, Layout.Keeps] at hkeeps
  | backUp => simp [hl, Layout.Keeps] at hkeeps
  | absolute => simp [hl, Layout.Keeps] at hkeeps

/-- A step stores the field that its arguments were read from. -/
theorem Step.stroke_restored {s : Step} (hkeeps : s.layout.Keeps s.count) {field : List UInt8}
    (hlen : field.length = s.layout.span s.count) {name : String}
    (hnan : ∀ entry ∈ s.layout.fields name s.count field, entry.2.isNaN = false) (pos : Nat)
    (more : List Scalar) :
    s.stroke pos (s.layout.arguments s.count field ++ more) =
      .done ⟨field, pos + field.length, more⟩ := by
  unfold Step.stroke Layout.arguments
  cases hl : s.layout with
  | text padding =>
      rw [hl] at hkeeps hlen
      cases hkeeps
      change field.length = s.count at hlen
      have hfield : Padding.nul.field s.count field = field := by
        simp [Padding.field, Padding.capacity, ← hlen]
      simp only [List.cons_append, List.nil_append, Padding.strip, Scalar.toBytes, hfield, hlen]
  | hex order =>
      rw [hl] at hkeeps hlen
      change s.count % 2 = 0 at hkeeps
      change field.length = nibbleRoom s.count at hlen
      have hcount : s.count = 2 * field.length := by
        unfold nibbleRoom at hlen
        omega
      have htext := renderNibbles_all order hcount
      have hsize : (renderNibbles field s.count order).length = s.count := by
        rw [htext, List.length_map, length_flatMap_halves, hcount]
      have hbytes : nibbleBytes order (renderNibbles field s.count order) = field := by
        rw [htext, nibbleBytes_digits]
      have hvalid : invalidDigits (renderNibbles field s.count order) = [] := by
        rw [htext, invalidDigits_digits]
      simp only [List.cons_append, List.nil_append, Scalar.toBytes, hexDiagnostics,
        List.take_of_length_le (Nat.le_of_eq hsize), hbytes, hvalid, hsize, Nat.lt_irrefl, if_false,
        List.append_nil, List.map_nil]
      rfl
  | number format =>
      rw [hl] at hlen hnan
      change field.length = s.count * format.width at hlen
      have hwords (word : List UInt8) (hword : word ∈ pieces format.width s.count field) :
          (format.decode word).isNaN = false := by
        have hmem : format.decode word ∈
            ((Layout.number format).fields name s.count field).map Prod.snd := by
          simp only [Layout.fields]
          rw [map_snd_numbered]
          exact List.mem_map_of_mem hword
        obtain ⟨entry, hentry, heq⟩ := List.mem_map.1 hmem
        rw [← heq]
        exact hnan entry hentry
      have hrun := Number.encodeRun_decode s.symbol (fun _ => length_of_mem_pieces hlen) hwords more
      rw [length_pieces, flatten_pieces hlen] at hrun
      simp only [hrun]
  | nulByte => simp [hl, Layout.Keeps] at hkeeps
  | backUp => simp [hl, Layout.Keeps] at hkeeps
  | absolute => simp [hl, Layout.Keeps] at hkeeps

end BytePack
