import BytePack.Proofs.Lemmas.Words
import BytePack.Proofs.Lemmas.Writing
import BytePack.Unpack
import Mathlib.Data.List.DropRight

/-!
# Fields read back

What one field gives back after it was stored: a text without its padding, a hexadecimal text in
lower case, a number reduced to its width or precision.
-/

namespace BytePack

/-! ## Texts -/

/-- What a text reads back as after it was stored in a field of `n` bytes. -/
def Padding.kept : Padding → Nat → List UInt8 → List UInt8
  | .nul, n, text => text.take n ++ List.replicate (n - text.length) 0
  | .space, n, text => (text.take n).rdropWhile isPadding
  | .terminated, n, text => (text.take (n - 1)).takeWhile (· != 0)

theorem rdropWhile_append_padding (text : List UInt8) (k : Nat) :
    (text ++ List.replicate k 0x20).rdropWhile isPadding = text.rdropWhile isPadding := by
  induction k with
  | zero => simp
  | succ k ih =>
      rw [List.replicate_succ', ← List.append_assoc, List.rdropWhile_concat_pos isPadding _ _ rfl]
      exact ih

theorem takeWhile_append_zeros (text : List UInt8) (k : Nat) :
    (text ++ List.replicate k 0).takeWhile (· != 0) = text.takeWhile (· != 0) := by
  induction text with
  | nil => cases k <;> simp [List.replicate_succ]
  | cons b text ih => simp only [List.cons_append, List.takeWhile_cons, ih]

theorem Padding.strip_field (padding : Padding) (n : Nat) (text : List UInt8) :
    padding.strip (padding.field n text) = padding.kept n text := by
  cases padding with
  | nul =>
      simp only [Padding.strip, Padding.field, Padding.kept, Padding.capacity, Padding.fill]
      congr 2
      rw [List.length_take]
      omega
  | space => exact rdropWhile_append_padding _ _
  | terminated => exact takeWhile_append_zeros _ _

/-! ## Hexadecimal texts -/

/-- What a byte of a hexadecimal text reads back as: a digit in lower case, and 0 for no digit. -/
def lowerDigit (c : UInt8) : UInt8 :=
  if !isHexDigit c then 0x30 else if 0x41 ≤ c ∧ c ≤ 0x46 then c + 0x20 else c

theorem forall_byte {P : UInt8 → Prop} (h : ∀ n < 256, P (UInt8.ofNat n)) (b : UInt8) : P b := by
  simpa using h b.toNat b.toNat_lt

theorem hexDigit_nibble (c : UInt8) : hexDigit (nibble c) = lowerDigit c :=
  forall_byte (P := fun c => hexDigit (nibble c) = lowerDigit c) (by decide +kernel) c

theorem nibble_lt (c : UInt8) : nibble c < 16 :=
  forall_byte (P := fun c => nibble c < 16) (by decide +kernel) c

theorem NibbleOrder.halves_join (order : NibbleOrder) {a b : UInt8} (ha : a < 16) (hb : b < 16) :
    order.halves (order.join a b) = [a, b] := by
  have h : ∀ m < 16, ∀ n < 16, order.halves (order.join (UInt8.ofNat m) (UInt8.ofNat n)) =
      [UInt8.ofNat m, UInt8.ofNat n] := by
    cases order <;> decide +kernel
  simpa using h a.toNat ha b.toNat hb

/-- The halves of a byte make up the byte. -/
theorem NibbleOrder.exists_halves (order : NibbleOrder) (b : UInt8) :
    ∃ first second, order.halves b = [first, second] ∧ first < 16 ∧ second < 16 ∧
      order.join first second = b := by
  obtain ⟨hlow, hhigh, hjoin⟩ := forall_byte
    (P := fun b => b &&& 0x0F < 16 ∧ b >>> 4 < 16 ∧ (b >>> 4) <<< 4 ||| (b &&& 0x0F) = b)
    (by decide +kernel) b
  cases order with
  | lowFirst => exact ⟨b &&& 0x0F, b >>> 4, rfl, hlow, hhigh, hjoin⟩
  | highFirst => exact ⟨b >>> 4, b &&& 0x0F, rfl, hhigh, hlow, hjoin⟩

theorem length_flatMap_halves (order : NibbleOrder) (bytes : List UInt8) :
    (bytes.flatMap order.halves).length = 2 * bytes.length := by
  induction bytes with
  | nil => rfl
  | cons b bytes ih =>
      obtain ⟨first, second, hhalves, -⟩ := order.exists_halves b
      rw [List.flatMap_cons, List.length_append, ih, hhalves]
      simp only [List.length_cons, List.length_nil]
      omega

theorem renderNibbles_nibbleBytes (order : NibbleOrder) (text : List UInt8) :
    renderNibbles (nibbleBytes order text) text.length order = text.map lowerDigit := by
  unfold renderNibbles
  fun_induction nibbleBytes order text with
  | case1 => rfl
  | case2 a =>
      simp [order.halves_join (nibble_lt a) (show (0 : UInt8) < 16 by decide), hexDigit_nibble]
  | case3 a b rest ih =>
      rw [List.flatMap_cons, order.halves_join (nibble_lt a) (nibble_lt b)]
      simp only [List.length_cons, List.cons_append, List.nil_append, List.take_succ_cons,
        List.map_cons, hexDigit_nibble, ih]

/-! ## Numbers -/

/-- What an argument reads back as after it was stored as a number. -/
def Number.readBack (number : Number) (argument : Scalar) : Except Error Value :=
  match number with
  | .integer width _ signed => argument.toInteger.map fun v => .int (width.reduce signed v)
  | .single _ => argument.toFloat.map fun x => .float x.narrow.widen
  | .double _ => argument.toFloat.map .float

theorem Number.readBack_of_encode {number : Number} {a : Scalar} {word : List UInt8}
    (h : number.encode a = .ok word) : number.readBack a = .ok (number.decode word) := by
  cases number with
  | integer width order signed =>
      simp only [Number.encode] at h
      cases ha : a.toInteger with
      | error e => simp [ha] at h
      | ok v =>
          simp only [ha, Except.ok.injEq] at h
          subst h
          simp [Number.readBack, Number.decode, ha, Except.map, readInteger_integerWord]
  | single order =>
      simp only [Number.encode] at h
      cases ha : a.toFloat with
      | error e => simp [ha] at h
      | ok x =>
          simp only [ha, Except.ok.injEq] at h
          subst h
          simp [Number.readBack, Number.decode, ha, Except.map, Single.ofBytes_toBytes]
  | double order =>
      simp only [Number.encode] at h
      cases ha : a.toFloat with
      | error e => simp [ha] at h
      | ok x =>
          simp only [ha, Except.ok.injEq] at h
          subst h
          simp [Number.readBack, Number.decode, ha, Except.map, Double.ofBytes_toBytes]

end BytePack
