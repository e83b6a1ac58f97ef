/-!
# Numbers as bytes

The digits of a number in base 256, least significant first, and the number that such digits stand
for. A number below `256 ^ w` is given back by its `w` digits. With a sign, a number of eight bytes
lies from `-signedBound` up to but excluding `signedBound`.
-/

namespace BytePack

/-- Half the number of values of a 64-bit word, `2 ^ 63`. -/
def signedBound : Nat := 0x8000000000000000

/-- The `w` least significant bytes of a number, the least significant first. -/
def digits : (w : Nat) → (n : Nat) → List UInt8
  | 0, _ => []
  | w + 1, n => UInt8.ofNat n :: digits w (n / 256)

/-- The number whose bytes are given, the least significant first. -/
def ofDigits : List UInt8 → Nat
  | [] => 0
  | b :: bs => b.toNat + 256 * ofDigits bs

@[simp] theorem length_digits (w n : Nat) : (digits w n).length = w := by
  induction w generalizing n with
  | zero => rfl
  | succ w ih => simp [digits, ih]

theorem ofDigits_digits (w n : Nat) : ofDigits (digits w n) = n % Nat.pow 256 w := by
  induction w generalizing n with
  | zero => simp [digits, ofDigits, Nat.mod_one]
  | succ w ih =>
    have hpow : Nat.pow 256 (w + 1) = 256 * Nat.pow 256 w := Nat.mul_comm (Nat.pow 256 w) 256
    rw [digits, ofDigits, ih, hpow, Nat.mod_mul]
    simp

theorem ofDigits_lt (bs : List UInt8) : ofDigits bs < Nat.pow 256 bs.length := by
  induction bs with
  | nil => simp [ofDigits]
  | cons b bs ih =>
    have := b.toNat_lt
    have hpow : Nat.pow 256 (bs.length + 1) = Nat.pow 256 bs.length * 256 := rfl
    rw [ofDigits, List.length_cons, hpow]
    omega

theorem digits_ofDigits (bs : List UInt8) : digits bs.length (ofDigits bs) = bs := by
  induction bs with
  | nil => rfl
  | cons b bs ih =>
    have hb := b.toNat_lt
    have hdiv : (b.toNat + 256 * ofDigits bs) / 256 = ofDigits bs := by omega
    have hhead : UInt8.ofNat (b.toNat + 256 * ofDigits bs) = b := by
      apply UInt8.toNat_inj.1
      simp
    rw [ofDigits, List.length_cons, digits, hdiv, ih, hhead]

end BytePack
