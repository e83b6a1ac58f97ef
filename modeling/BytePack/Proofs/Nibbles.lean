import BytePack.Proofs.Lemmas.ReadInPlace
import BytePack.Proofs.Lemmas.Restoring

/-!
# Digits and bytes

Digits packed into bytes and shown again are the same digits in lower case, with `0` for whatever is no
digit; bytes shown with all their digits and packed again are the same bytes. The loops that go digit
by digit, with a shift that changes from half to half, come to the same, whatever stood in the bytes
before: a byte is cleared before its first digit.
-/

namespace BytePack

/-! ## Characters -/

def hexCharacters : List Char :=
  ['0', '1', '2', '3', '4', '5', '6', '7', '8', '9',
    'a', 'b', 'c', 'd', 'e', 'f', 'A', 'B', 'C', 'D', 'E', 'F']

/-- How a byte of a text is shown: in lower case, or as `0` where it is no digit. -/
def shownDigit (c : UInt8) : Char :=
  if Char.ofUInt8 c ∈ hexCharacters then (Char.ofUInt8 c).toLower else '0'

theorem isHexDigit_iff (c : UInt8) : isHexDigit c = decide (Char.ofUInt8 c ∈ hexCharacters) :=
  forall_byte (P := fun c => isHexDigit c = decide (Char.ofUInt8 c ∈ hexCharacters))
    (by decide +kernel) c

theorem ofUInt8_lowerDigit (c : UInt8) : Char.ofUInt8 (lowerDigit c) = shownDigit c :=
  forall_byte (P := fun c => Char.ofUInt8 (lowerDigit c) = shownDigit c) (by decide +kernel) c

theorem map_lowerDigit (text : List UInt8) :
    (text.map lowerDigit).map Char.ofUInt8 = text.map shownDigit := by
  rw [List.map_map]
  exact List.map_congr_left fun c _ => ofUInt8_lowerDigit c

theorem invalidDigits_eq (text : List UInt8) :
    invalidDigits text = text.filter fun c => Char.ofUInt8 c ∉ hexCharacters :=
  List.filter_congr fun c _ => by rw [isHexDigit_iff, decide_not]

/-! ## Halves -/

/-- All digits of a text's bytes are those of the text, and a `0` in the half that no digit fills. -/
theorem renderNibbles_room (order : NibbleOrder) (text : List UInt8) :
    renderNibbles (nibbleBytes order text) (2 * nibbleRoom text.length) order =
      text.map lowerDigit ++ List.replicate (text.length % 2) 0x30 := by
  rw [renderNibbles_all order (by rw [length_nibbleBytes])]
  fun_induction nibbleBytes order text with
  | case1 => rfl
  | case2 a =>
      rw [List.flatMap_singleton, order.halves_join (nibble_lt a) (by decide)]
      simp only [List.map_cons, List.map_nil, hexDigit_nibble, List.length_singleton]
      rfl
  | case3 a b rest ih =>
      have hparity : (a :: b :: rest).length % 2 = rest.length % 2 := Nat.add_mod_right _ 2
      rw [List.flatMap_cons, order.halves_join (nibble_lt a) (nibble_lt b), hparity]
      simp only [List.cons_append, List.nil_append, List.map_cons, hexDigit_nibble, ih]

/-! ## Packing and showing -/

theorem take_packNibbles (text : List UInt8) (order : NibbleOrder) (field : List UInt8) :
    (packNibbles text order field).field.take (nibbleRoom text.length) = nibbleBytes order text :=
  List.take_left' (length_nibbleBytes order text)

theorem drop_packNibbles (text : List UInt8) (order : NibbleOrder) (field : List UInt8) :
    (packNibbles text order field).field.drop (nibbleRoom text.length) =
      field.drop (nibbleRoom text.length) :=
  List.drop_left' (length_nibbleBytes order text)

theorem storeDigits_packNibbles (symbol : Char) (order : NibbleOrder) {text field : List UInt8}
    (h : nibbleRoom text.length ≤ field.length) :
    storeDigits symbol text 0 order.firstShift field =
      some ((packNibbles text order field).field, (packNibbles text order field).invalid.map
        fun c => .illegalHexDigit symbol (Char.ofUInt8 c)) := by
  have hstore := @storeDigits_eq symbol order text 0 field (by omega)
  rw [Nat.mul_zero] at hstore
  rw [hstore, overlay, length_nibbleBytes, Nat.zero_add]
  rfl

theorem packNibbles_renderNibbles (order : NibbleOrder) (bytes field : List UInt8) :
    packNibbles (renderNibbles bytes (2 * bytes.length) order) order field =
      ⟨bytes.length, bytes ++ field.drop bytes.length, []⟩ := by
  have hroom : nibbleRoom (2 * bytes.length) = bytes.length := by
    unfold nibbleRoom
    omega
  rw [renderNibbles_all order rfl, packNibbles, List.length_map, length_flatMap_halves, hroom,
    nibbleBytes_digits, invalidDigits_digits]

/-- In either order: what is packed into a field with room takes half as many bytes as there are
digits, rounded up, leaves the bytes after them, does not depend on what stood there, and reports the
bytes that are no digits; shown again it is the text in lower case, and a half without a digit is 0.
Bytes shown with all their digits are packed as they were. The loops over the digits do the same. -/
theorem nibbles_inverse (order : NibbleOrder) :
    (∀ text field : List UInt8, nibbleRoom text.length ≤ field.length →
      let packed := packNibbles text order field
      let touched := packed.field.take packed.used
      packed.used = (text.length + 1) / 2 ∧
      packed.field.length = field.length ∧
      packed.field.drop packed.used = field.drop packed.used ∧
      packed.invalid = text.filter (fun c => Char.ofUInt8 c ∉ hexCharacters) ∧
      (∀ other, (packNibbles text order other).field.take packed.used = touched) ∧
      (renderNibbles touched text.length order).map Char.ofUInt8 = text.map shownDigit ∧
      (renderNibbles touched (2 * packed.used) order).map Char.ofUInt8 =
        text.map shownDigit ++ List.replicate (text.length % 2) '0' ∧
      (∀ symbol, storeDigits symbol text 0 order.firstShift field =
        some (packed.field,
          packed.invalid.map fun c => .illegalHexDigit symbol (Char.ofUInt8 c))) ∧
      ∀ count ≤ 2 * packed.used, renderDigits touched count 0 order.firstShift =
        some (renderNibbles touched count order)) ∧
    ∀ bytes field : List UInt8,
      packNibbles (renderNibbles bytes (2 * bytes.length) order) order field =
        ⟨bytes.length, bytes ++ field.drop bytes.length, []⟩ := by
  refine ⟨fun text field hroom => ?_, packNibbles_renderNibbles order⟩
  intro packed touched
  have htouched : touched = nibbleBytes order text := take_packNibbles text order field
  have hlen : touched.length = packed.used := by
    rw [htouched, length_nibbleBytes]
    rfl
  refine ⟨rfl, ?_, drop_packNibbles text order field, invalidDigits_eq text,
    fun other => (take_packNibbles text order other).trans htouched.symm, ?_, ?_,
    fun symbol => storeDigits_packNibbles symbol order hroom, fun count hcount => ?_⟩
  · change (nibbleBytes order text ++ field.drop (nibbleRoom text.length)).length = field.length
    rw [List.length_append, length_nibbleBytes, List.length_drop]
    omega
  · rw [htouched, renderNibbles_nibbleBytes, map_lowerDigit]
  · have hall : renderNibbles touched (2 * packed.used) order =
        text.map lowerDigit ++ List.replicate (text.length % 2) 0x30 := by
      rw [htouched]
      exact renderNibbles_room order text
    rw [hall, List.map_append, map_lowerDigit, List.map_replicate]
    rfl
  · exact renderDigits_first order touched count (by rwa [hlen])

/-- Three digits with a `g` among them, low halves first, over bytes that were full. -/
theorem nibbles_inverse_odd :
    let packed := packNibbles [0x31, 0x67, 0x46] .lowFirst [0xFF, 0xFF, 0xFF]
    packed.used = 2 ∧ packed.field = [0x01, 0x0F, 0xFF] ∧ packed.invalid = [0x67] ∧
      (renderNibbles [0x01, 0x0F] 3 .lowFirst).map Char.ofUInt8 = ['1', '0', 'f'] ∧
      (renderNibbles [0x01, 0x0F] 4 .lowFirst).map Char.ofUInt8 = ['1', '0', 'f', '0'] ∧
      storeDigits 'h' [0x31, 0x67, 0x46] 0 0 [0xFF, 0xFF, 0xFF] =
        some ([0x01, 0x0F, 0xFF], [.illegalHexDigit 'h' 'g']) ∧
      packNibbles (renderNibbles [0x01, 0x0F] 4 .lowFirst) .lowFirst [0xAA, 0xBB, 0xCC] =
        ⟨2, [0x01, 0x0F, 0xCC], []⟩ := by
  intro packed
  obtain ⟨hpack, hrender⟩ := nibbles_inverse .lowFirst
  obtain ⟨hused, -, -, hinvalid, -, hshown, hall, hstore, -⟩ :=
    hpack [0x31, 0x67, 0x46] [0xFF, 0xFF, 0xFF] (by decide)
  exact ⟨hused, by decide +kernel, hinvalid.trans (by decide +kernel),
    hshown.trans (by decide +kernel), hall.trans (by decide +kernel),
    (hstore 'h').trans (by decide +kernel), hrender [0x01, 0x0F] [0xAA, 0xBB, 0xCC]⟩

end BytePack
