import BytePack.Number.Double
import Mathlib.Algebra.Order.Field.Power
import Mathlib.Data.Rat.Cast.Order
import Mathlib.Tactic.FieldSimp
import Mathlib.Tactic.Linarith
import Mathlib.Tactic.Positivity

/-!
# Rounding of what a pattern denotes

A finite pattern spells a significand and an exponent in one way only, and the pattern nearest to a
number depends on the number alone. So a number that some pattern denotes rounds to that pattern,
however the number is written, and a single precision number survives a detour over double
precision.
-/

namespace BytePack

namespace Magnitude

/-! ## Values -/

/-- The rational number that a magnitude is. -/
def value (x : Magnitude) : ℚ := x.num / x.den

theorem den_scaled_pos (m : Nat) (q : Int) : 0 < (scaled m q).den := by
  unfold scaled
  split
  · exact Nat.one_pos
  · exact Nat.two_pow_pos _

theorem value_scaled (m : Nat) (q : Int) : (scaled m q).value = m * 2 ^ q := by
  unfold scaled value
  by_cases hq : 0 ≤ q
  · obtain ⟨k, rfl⟩ := Int.eq_ofNat_of_zero_le hq
    simp
  · obtain ⟨k, hk⟩ := Int.eq_ofNat_of_zero_le (a := -q) (by omega)
    obtain rfl : q = -k := by omega
    rw [if_neg hq, div_eq_mul_inv]
    simp

theorem den_shift_pos {x : Magnitude} (h : 0 < x.den) (e : Int) : 0 < (x.shift e).den := by
  unfold shift
  split
  · exact h
  · exact Nat.mul_pos h (Nat.two_pow_pos _)

theorem value_shift (x : Magnitude) (e : Int) : (x.shift e).value = x.value * 2 ^ e := by
  unfold shift value
  by_cases he : 0 ≤ e
  · obtain ⟨k, rfl⟩ := Int.eq_ofNat_of_zero_le he
    simp [mul_div_right_comm]
  · obtain ⟨k, hk⟩ := Int.eq_ofNat_of_zero_le (a := -e) (by omega)
    obtain rfl : e = -k := by omega
    rw [if_neg he]
    simp [div_eq_mul_inv, mul_assoc, mul_comm]

/-- A whole number needs no rounding. -/
theorem round_of_value {x : Magnitude} (hden : 0 < x.den) {n : Nat} (h : x.value = n) :
    x.round = n := by
  have hnum : x.num = n * x.den := by
    have hne : (x.den : ℚ) ≠ 0 := by positivity
    unfold value at h
    rw [div_eq_iff hne] at h
    exact_mod_cast h
  unfold round
  rw [hnum, Nat.mul_div_cancel _ hden, Nat.mul_mod_left, if_pos (.inl (by omega))]

theorem exponent_unique {v : ℚ} {e e' : Int} (hlow : 2 ^ e ≤ v) (hhigh : v < 2 ^ (e + 1))
    (hlow' : 2 ^ e' ≤ v) (hhigh' : v < 2 ^ (e' + 1)) : e = e' := by
  have h : e < e' + 1 := (zpow_lt_zpow_iff_right₀ one_lt_two).1 (hlow.trans_lt hhigh')
  have h' : e' < e + 1 := (zpow_lt_zpow_iff_right₀ one_lt_two).1 (hlow'.trans_lt hhigh)
  omega

/-- The two logarithms give the exponent, or one more. -/
theorem value_bounds {x : Magnitude} (hnum : 0 < x.num) (hden : 0 < x.den) :
    (2 : ℚ) ^ ((x.num.log2 : Int) - x.den.log2 - 1) ≤ x.value ∧
      x.value < 2 ^ ((x.num.log2 : Int) - x.den.log2 + 1) := by
  have hd : (0 : ℚ) < x.den := by exact_mod_cast hden
  have hn₁ : (2 : ℚ) ^ (x.num.log2 : Int) ≤ x.num := by
    exact_mod_cast Nat.log2_self_le hnum.ne'
  have hn₂ : (x.num : ℚ) < 2 ^ ((x.num.log2 : Int) + 1) := by
    exact_mod_cast Nat.lt_log2_self
  have hd₁ : (2 : ℚ) ^ (x.den.log2 : Int) ≤ x.den := by
    exact_mod_cast Nat.log2_self_le hden.ne'
  have hd₂ : (x.den : ℚ) ≤ 2 ^ ((x.den.log2 : Int) + 1) := by
    exact_mod_cast Nat.le_of_lt Nat.lt_log2_self
  unfold value
  constructor
  · rw [le_div_iff₀ hd]
    calc (2 : ℚ) ^ ((x.num.log2 : Int) - x.den.log2 - 1) * x.den
        ≤ 2 ^ ((x.num.log2 : Int) - x.den.log2 - 1) * 2 ^ ((x.den.log2 : Int) + 1) := by gcongr
      _ = 2 ^ (x.num.log2 : Int) := by
          rw [← zpow_add₀ two_ne_zero]
          congr 1
          omega
      _ ≤ x.num := hn₁
  · rw [div_lt_iff₀ hd]
    calc (x.num : ℚ) < 2 ^ ((x.num.log2 : Int) + 1) := hn₂
      _ = 2 ^ ((x.num.log2 : Int) - x.den.log2 + 1) * 2 ^ (x.den.log2 : Int) := by
          rw [← zpow_add₀ two_ne_zero]
          congr 1
          omega
      _ ≤ 2 ^ ((x.num.log2 : Int) - x.den.log2 + 1) * x.den := by gcongr

theorem log2_of_value {x : Magnitude} (hnum : 0 < x.num) (hden : 0 < x.den) {e : Int}
    (hlow : 2 ^ e ≤ x.value) (hhigh : x.value < 2 ^ (e + 1)) : x.log2 = e := by
  obtain ⟨hleast, hmost⟩ := value_bounds hnum hden
  have hd : (0 : ℚ) < x.den := by exact_mod_cast hden
  unfold log2
  generalize (x.num.log2 : Int) - x.den.log2 = near at hleast hmost
  have hunit : ((shift ⟨x.den, 1⟩ near).num ≤ x.num * (shift ⟨x.den, 1⟩ near).den) ↔
      2 ^ near ≤ x.value := by
    have hpos : (0 : ℚ) < (shift ⟨x.den, 1⟩ near).den := by
      exact_mod_cast den_shift_pos (x := ⟨x.den, 1⟩) Nat.one_pos near
    have hvalue := value_shift ⟨x.den, 1⟩ near
    unfold value at hvalue
    rw [div_eq_iff hpos.ne'] at hvalue
    unfold value
    rw [le_div_iff₀ hd, ← Nat.cast_le (α := ℚ), hvalue, Nat.cast_mul, mul_le_mul_iff_left₀ hpos]
    simp [mul_comm]
  by_cases hle : (2 : ℚ) ^ near ≤ x.value
  · rw [if_pos (hunit.2 hle)]
    exact exponent_unique hle hmost hlow hhigh
  · rw [if_neg (mt hunit.1 hle)]
    refine exponent_unique hleast ?_ hlow hhigh
    rw [sub_add_cancel]
    exact not_le.1 hle

end Magnitude

namespace BinaryFormat

/-! ## Fields of a pattern -/

/-- The pattern of a significand and an exponent. -/
def pattern (f : BinaryFormat) (m : Nat) (q : Int) : Nat :=
  (q - f.leastExponent).toNat * Nat.pow 2 f.fractionBits + m

/-- Whether a pattern spells a significand with an exponent. -/
structure Spells (f : BinaryFormat) (m : Nat) (q : Int) : Prop where
  significand_lt : m < 2 * Nat.pow 2 f.fractionBits
  least_le : f.leastExponent ≤ q
  normal : Nat.pow 2 f.fractionBits ≤ m ∨ q = f.leastExponent
  finite : f.pattern m q < f.infinity

theorem signBit_eq (f : BinaryFormat) :
    f.signBit = Nat.pow 2 f.exponentBits * Nat.pow 2 f.fractionBits := by
  simp [signBit, Nat.pow_add, Nat.mul_comm]

theorem topExponent_succ (f : BinaryFormat) :
    f.topExponent + 1 = Nat.pow 2 f.exponentBits :=
  Nat.sub_add_cancel (Nat.two_pow_pos _)

theorem infinity_add_lt_signBit (f : BinaryFormat) {fraction : Nat}
    (h : fraction < Nat.pow 2 f.fractionBits) : f.infinity + fraction < f.signBit := by
  rw [signBit_eq, ← topExponent_succ, infinity, Nat.succ_mul]
  exact Nat.add_lt_add_left h _

theorem infinity_lt_signBit (f : BinaryFormat) : f.infinity < f.signBit :=
  f.infinity_add_lt_signBit (Nat.two_pow_pos _)

theorem exists_fields (f : BinaryFormat) {p : Nat} (h : p < 2 * f.signBit) :
    ∃ negative exponent fraction, exponent < Nat.pow 2 f.exponentBits ∧
      fraction < Nat.pow 2 f.fractionBits ∧
      p = f.signed negative (exponent * Nat.pow 2 f.fractionBits + fraction) := by
  have hpos : 0 < Nat.pow 2 f.fractionBits := Nat.two_pow_pos _
  have hsplit (r : Nat) (hr : r < f.signBit) :
      r / Nat.pow 2 f.fractionBits < Nat.pow 2 f.exponentBits ∧
        r / Nat.pow 2 f.fractionBits * Nat.pow 2 f.fractionBits +
          r % Nat.pow 2 f.fractionBits = r := by
    rw [signBit_eq] at hr
    exact ⟨(Nat.div_lt_iff_lt_mul hpos).2 hr, Nat.div_add_mod' r _⟩
  by_cases hsign : f.signBit ≤ p
  · obtain ⟨hlt, hsum⟩ := hsplit (p - f.signBit) (by omega)
    refine ⟨true, _, (p - f.signBit) % Nat.pow 2 f.fractionBits, hlt, Nat.mod_lt _ hpos, ?_⟩
    rw [hsum, signed, if_pos rfl]
    omega
  · obtain ⟨hlt, hsum⟩ := hsplit p (by omega)
    exact ⟨false, _, p % Nat.pow 2 f.fractionBits, hlt, Nat.mod_lt _ hpos, hsum.symm⟩

/-- Decoding looks at the fields of a pattern. -/
theorem decode_fields (f : BinaryFormat) (negative : Bool) {exponent fraction : Nat}
    (hexponent : exponent < Nat.pow 2 f.exponentBits)
    (hfraction : fraction < Nat.pow 2 f.fractionBits) :
    f.decode (f.signed negative (exponent * Nat.pow 2 f.fractionBits + fraction)) =
      if exponent = f.topExponent then
        if fraction = 0 then .infinite negative else .nan negative fraction
      else if exponent = 0 then .finite negative fraction f.leastExponent
      else .finite negative (Nat.pow 2 f.fractionBits + fraction)
        (f.leastExponent + (exponent - 1)) := by
  have hsignBit := f.signBit_eq
  unfold decode
  generalize Nat.pow 2 f.fractionBits = scale at *
  generalize Nat.pow 2 f.exponentBits = count at *
  have hpos : 0 < scale := by omega
  have hlt : exponent * scale + fraction < f.signBit := by
    have hle : (exponent + 1) * scale ≤ count * scale := Nat.mul_le_mul_right scale hexponent
    rw [Nat.succ_mul] at hle
    omega
  have hsign : decide (f.signBit ≤ f.signed negative (exponent * scale + fraction)) =
      negative := by
    cases negative with
    | false => exact decide_eq_false (Nat.not_le.2 hlt)
    | true => exact decide_eq_true (Nat.le_add_right _ _)
  obtain ⟨lead, hlead, hsum⟩ : ∃ lead, (lead + exponent) % count = exponent ∧
      f.signed negative (exponent * scale + fraction) = fraction + (lead + exponent) * scale := by
    cases negative with
    | false =>
        refine ⟨0, by rw [Nat.zero_add, Nat.mod_eq_of_lt hexponent], ?_⟩
        rw [Nat.zero_add]
        exact Nat.add_comm _ _
    | true =>
        refine ⟨count, by rw [Nat.add_mod_left, Nat.mod_eq_of_lt hexponent], ?_⟩
        rw [signed, if_pos rfl, hsignBit, Nat.add_mul]
        omega
  have hmod : f.signed negative (exponent * scale + fraction) % scale = fraction := by
    rw [hsum, Nat.add_mul_mod_self_right, Nat.mod_eq_of_lt hfraction]
  have hdiv : f.signed negative (exponent * scale + fraction) / scale % count = exponent := by
    rw [hsum, Nat.add_mul_div_right _ _ hpos, Nat.div_eq_of_lt hfraction, Nat.zero_add, hlead]
  simp only [hsign, hmod, hdiv]

theorem infinity_add (f : BinaryFormat) (fraction : Nat) :
    f.infinity + fraction = f.topExponent * Nat.pow 2 f.fractionBits + fraction := rfl

/-- A pattern past the finite ones. -/
theorem decode_top (f : BinaryFormat) (negative : Bool) {fraction : Nat}
    (hfraction : fraction < Nat.pow 2 f.fractionBits) :
    f.decode (f.signed negative (f.infinity + fraction)) =
      if fraction = 0 then .infinite negative else .nan negative fraction := by
  have htop : f.topExponent < Nat.pow 2 f.exponentBits := by
    rw [← topExponent_succ]
    exact Nat.lt_succ_self _
  rw [infinity_add, decode_fields f negative htop hfraction, if_pos rfl]

theorem fraction_lt_of_decode {f : BinaryFormat} {p : Nat} {negative : Bool} {fraction : Nat}
    (h : f.decode p = .nan negative fraction) : fraction < Nat.pow 2 f.fractionBits := by
  simp only [decode] at h
  split at h
  · split at h
    · cases h
    · cases h
      exact Nat.mod_lt _ (Nat.two_pow_pos _)
  · split at h <;> cases h

theorem signed_of_decode_infinite {f : BinaryFormat} {p : Nat} (hp : p < 2 * f.signBit)
    {negative : Bool} (h : f.decode p = .infinite negative) :
    p = f.signed negative f.infinity := by
  obtain ⟨sign, exponent, fraction, hexponent, hfraction, rfl⟩ := f.exists_fields hp
  rw [decode_fields f sign hexponent hfraction] at h
  split at h
  · rename_i htop
    split at h
    · rename_i hzero
      cases h
      rw [htop, hzero]
      rfl
    · cases h
  · split at h <;> cases h

/-- A finite pattern spells what it denotes. -/
theorem spells_of_decode {f : BinaryFormat} {p : Nat} (hp : p < 2 * f.signBit) {negative : Bool}
    {m : Nat} {q : Int} (h : f.decode p = .finite negative m q) :
    f.Spells m q ∧ p = f.signed negative (f.pattern m q) := by
  obtain ⟨sign, exponent, fraction, hexponent, hfraction, rfl⟩ := f.exists_fields hp
  rw [decode_fields f sign hexponent hfraction] at h
  have hbelow (htop : exponent ≠ f.topExponent) :
      exponent * Nat.pow 2 f.fractionBits + fraction < f.infinity := by
    have hlt : exponent + 1 ≤ f.topExponent := by
      rw [← topExponent_succ] at hexponent
      omega
    have hle : (exponent + 1) * Nat.pow 2 f.fractionBits ≤ f.infinity :=
      Nat.mul_le_mul_right _ hlt
    rw [Nat.succ_mul] at hle
    omega
  split at h
  · split at h <;> cases h
  · rename_i htop
    split at h
    · rename_i hzero
      cases h
      have hpattern : f.pattern m f.leastExponent =
          exponent * Nat.pow 2 f.fractionBits + m := by
        rw [pattern, Int.sub_self, hzero]
        rfl
      exact ⟨⟨by omega, Int.le_refl _, .inr rfl, hpattern ▸ hbelow htop⟩, by rw [hpattern]⟩
    · cases h
      have hplace : (f.leastExponent + (exponent - 1) - f.leastExponent).toNat + 1 = exponent := by
        omega
      have hpattern : f.pattern (Nat.pow 2 f.fractionBits + fraction)
          (f.leastExponent + (exponent - 1)) =
            exponent * Nat.pow 2 f.fractionBits + fraction := by
        rw [pattern, ← Nat.add_assoc, ← Nat.succ_mul, Nat.succ_eq_add_one, hplace]
      exact ⟨⟨by omega, by omega, .inl (Nat.le_add_right _ _), hpattern ▸ hbelow htop⟩,
        by rw [hpattern]⟩

/-- What a pattern spells is what it denotes. -/
theorem Spells.decode_signed {f : BinaryFormat} {m : Nat} {q : Int} (h : f.Spells m q)
    (negative : Bool) : f.decode (f.signed negative (f.pattern m q)) = .finite negative m q := by
  obtain ⟨hm, hq, hnormal, hfinite⟩ := h
  have hbelow {exponent fraction : Nat}
      (hpattern : f.pattern m q = exponent * Nat.pow 2 f.fractionBits + fraction) :
      exponent < f.topExponent := by
    rw [hpattern, infinity] at hfinite
    exact Nat.lt_of_mul_lt_mul_right (Nat.lt_of_le_of_lt (Nat.le_add_right _ _) hfinite)
  have hcount := f.topExponent_succ
  by_cases hle : Nat.pow 2 f.fractionBits ≤ m
  · have hpattern : f.pattern m q =
        ((q - f.leastExponent).toNat + 1) * Nat.pow 2 f.fractionBits +
          (m - Nat.pow 2 f.fractionBits) := by
      rw [pattern, Nat.succ_mul]
      omega
    have hexponent := hbelow hpattern
    rw [hpattern, decode_fields f negative (by omega) (by omega), if_neg (Nat.ne_of_lt hexponent),
      if_neg (Nat.succ_ne_zero _), Nat.add_sub_of_le hle]
    congr 1
    omega
  · have hleast := hnormal.resolve_left hle
    have hpattern : f.pattern m q = 0 * Nat.pow 2 f.fractionBits + m := by
      rw [pattern, hleast, Int.sub_self]
      rfl
    have hexponent := hbelow hpattern
    rw [hpattern, decode_fields f negative (by omega) (by omega), if_neg (Nat.ne_of_lt hexponent),
      if_pos rfl, hleast]

/-- The exponent that a number is rounded at is the one that it is spelled with. -/
theorem Spells.rounded_at {f : BinaryFormat} {m : Nat} {q : Int} (h : f.Spells m q) (hm : 0 < m)
    {x : Magnitude} (hnum : 0 < x.num) (hden : 0 < x.den) (hx : x.value = m * 2 ^ q) :
    max (x.log2 - f.fractionBits) f.leastExponent = q := by
  have hlog : x.log2 = m.log2 + q := by
    apply Magnitude.log2_of_value hnum hden
    · rw [hx, zpow_add₀ two_ne_zero, mul_le_mul_iff_left₀ (by positivity)]
      exact_mod_cast Nat.log2_self_le hm.ne'
    · rw [hx, add_right_comm, zpow_add₀ two_ne_zero, mul_lt_mul_iff_left₀ (by positivity)]
      exact_mod_cast Nat.lt_log2_self
  have hmost : m.log2 < f.fractionBits + 1 := by
    rw [Nat.log2_lt hm.ne', Nat.pow_succ, Nat.mul_comm]
    exact h.significand_lt
  have hleast := h.least_le
  rcases h.normal with hnormal | hq
  · have hlow : f.fractionBits ≤ m.log2 := (Nat.le_log2 hm.ne').2 hnormal
    omega
  · omega

/-- The pattern that spells a number is nearest to it. -/
theorem Spells.nearest_eq {f : BinaryFormat} {m : Nat} {q : Int} (h : f.Spells m q)
    {x : Magnitude} (hden : 0 < x.den) (hx : x.value = m * 2 ^ q) :
    f.nearest x = f.pattern m q := by
  have hd : (x.den : ℚ) ≠ 0 := by positivity
  have hzero : x.num = 0 ↔ m = 0 := by
    unfold Magnitude.value at hx
    have htwo : (2 : ℚ) ^ q ≠ 0 := by positivity
    rw [div_eq_iff hd] at hx
    constructor
    · intro hnum
      rw [hnum, Nat.cast_zero, eq_comm] at hx
      simpa [hd, htwo] using hx
    · intro hm
      rw [hm] at hx
      simpa using hx
  unfold nearest
  by_cases hm : m = 0
  · have hleast : q = f.leastExponent := by
      rcases h.normal with hnormal | hq
      · have hpos : 0 < Nat.pow 2 f.fractionBits := Nat.two_pow_pos _
        omega
      · exact hq
    rw [if_pos (hzero.2 hm), pattern, hleast, hm, Int.sub_self]
    simp
  · have hvalue : (x.shift (-q)).value = m := by
      rw [Magnitude.value_shift, hx, mul_assoc, ← zpow_add₀ two_ne_zero, add_neg_cancel, zpow_zero,
        mul_one]
    have hround := Magnitude.round_of_value (Magnitude.den_shift_pos hden (-q)) hvalue
    have hnum : 0 < x.num := Nat.pos_of_ne_zero (mt hzero.1 hm)
    simp only [if_neg (mt hzero.1 hm), h.rounded_at (Nat.pos_of_ne_zero hm) hnum hden hx, hround]
    exact Nat.min_eq_left (Nat.le_of_lt h.finite)

end BinaryFormat

/-! ## Single precision through double precision -/

/-- A significand that is no longer than those of double precision can be spelled there, at most
exponents: it is filled up to a full one. -/
theorem exists_spells {m : Nat} {q : Int} (hm : m < 9007199254740992) (hlow : -1022 ≤ q)
    (hhigh : q ≤ 971) :
    ∃ m' q', BinaryFormat.double.Spells m' q' ∧ (m' : ℚ) * 2 ^ q' = m * 2 ^ q := by
  by_cases hzero : m = 0
  · refine ⟨0, -1074, ⟨by decide, by decide, .inr rfl, by decide⟩, ?_⟩
    rw [hzero, Nat.cast_zero, zero_mul, zero_mul]
  · have hleft := Nat.log2_self_le hzero
    have hright := Nat.lt_log2_self (n := m)
    have hlog : m.log2 < 53 := (Nat.log2_lt hzero).2 hm
    obtain ⟨k, hk⟩ : ∃ k, m.log2 + k = 52 := ⟨52 - m.log2, by omega⟩
    have hleast : 4503599627370496 ≤ m * 2 ^ k := by
      calc 4503599627370496 = 2 ^ m.log2 * 2 ^ k := by rw [← Nat.pow_add, hk]
        _ ≤ m * 2 ^ k := Nat.mul_le_mul_right _ hleft
    have hmost : m * 2 ^ k < 9007199254740992 := by
      calc m * 2 ^ k < 2 ^ (m.log2 + 1) * 2 ^ k :=
            Nat.mul_lt_mul_of_pos_right hright (Nat.two_pow_pos k)
        _ = 9007199254740992 := by rw [← Nat.pow_add, Nat.add_right_comm, hk]
    refine ⟨m * 2 ^ k, q - k, ⟨hmost, ?_, .inl hleast, ?_⟩, ?_⟩
    · change -1074 ≤ q - k
      omega
    · have hplace : (q - k - -1074).toNat ≤ 2045 := by omega
      change (q - k - -1074).toNat * 4503599627370496 + m * 2 ^ k < 9218868437227405312
      linarith
    · rw [Nat.cast_mul, Nat.cast_pow, Nat.cast_ofNat, zpow_sub₀ two_ne_zero, zpow_natCast]
      field_simp

/-- A significand and an exponent of single precision can be spelled in double precision: a number
too small for a full significand there has one here. -/
theorem exists_spells_double {m : Nat} {q : Int} (h : BinaryFormat.single.Spells m q) :
    ∃ m' q', BinaryFormat.double.Spells m' q' ∧ (m' : ℚ) * 2 ^ q' = m * 2 ^ q := by
  obtain ⟨hm, hq, -, hfinite⟩ := h
  change m < 16777216 at hm
  change -149 ≤ q at hq
  change (q - -149).toNat * 8388608 + m < 2139095040 at hfinite
  exact exists_spells (by omega) (by omega) (by omega)

/-- The pattern of a double precision number is what it is made from. -/
theorem Double.value_ofNat {p : Nat} (h : p < 2 * BinaryFormat.double.signBit) :
    (Double.mk (.ofNat p)).value = BinaryFormat.double.decode p := by
  change p < 0x10000000000000000 at h
  rw [Double.value, UInt64.toNat_ofNat_of_lt' h]

theorem signed_lt {f : BinaryFormat} {p : Nat} (h : p < f.signBit) (negative : Bool) :
    f.signed negative p < 2 * f.signBit := by
  unfold BinaryFormat.signed
  split <;> omega

theorem Single.value_widen {x : Single} {negative : Bool} {m : Nat} {q : Int}
    (h : x.value = .finite negative m q) :
    ∃ m' q', x.widen.value = .finite negative m' q' ∧ (m' : ℚ) * 2 ^ q' = m * 2 ^ q := by
  have hx : x.bits.toNat < 2 * BinaryFormat.single.signBit := x.bits.toNat_lt
  obtain ⟨hspells, -⟩ := BinaryFormat.spells_of_decode hx h
  obtain ⟨m', q', hspells', hsame⟩ := exists_spells_double hspells
  have hnearest := hspells'.nearest_eq (Magnitude.den_scaled_pos m q)
    ((Magnitude.value_scaled m q).trans hsame.symm)
  refine ⟨m', q', ?_, hsame⟩
  simp only [Single.widen, h, hnearest]
  rw [Double.value_ofNat (signed_lt (Nat.lt_trans hspells'.finite
    (BinaryFormat.infinity_lt_signBit _)) negative)]
  exact hspells'.decode_signed negative

theorem Single.bits_eq {x : Single} {p : Nat} (h : x.bits.toNat = p) :
    Single.mk (.ofNat p) = x := by
  rw [← h, UInt32.ofNat_toNat]

/-- A single precision number is the nearest one to itself in double precision. -/
theorem Single.narrow_widen {x : Single} (h : x.isNaN = false) : x.widen.narrow = x := by
  have hx : x.bits.toNat < 2 * BinaryFormat.single.signBit := x.bits.toNat_lt
  cases hvalue : x.value with
  | finite negative m q =>
      obtain ⟨m', q', hwiden, hsame⟩ := Single.value_widen hvalue
      obtain ⟨hspells, hbits⟩ := BinaryFormat.spells_of_decode hx hvalue
      have hnearest := hspells.nearest_eq (Magnitude.den_scaled_pos m' q')
        ((Magnitude.value_scaled m' q').trans hsame)
      simp only [Double.narrow, hwiden, hnearest]
      exact Single.bits_eq hbits
  | infinite negative =>
      have hbits := BinaryFormat.signed_of_decode_infinite hx hvalue
      have hwiden : x.widen.value = .infinite negative := by
        simp only [Single.widen, hvalue]
        rw [Double.value_ofNat (signed_lt (BinaryFormat.infinity_lt_signBit _) negative)]
        exact BinaryFormat.double.decode_top negative (Nat.two_pow_pos _)
      simp only [Double.narrow, hwiden]
      exact Single.bits_eq hbits
  | nan negative fraction =>
      rw [Single.isNaN, hvalue] at h
      cases h

theorem Single.isNaN_widen {x : Single} (h : x.isNaN = true) : x.widen.isNaN = true := by
  cases hvalue : x.value with
  | finite => simp [Single.isNaN, hvalue] at h
  | infinite => simp [Single.isNaN, hvalue] at h
  | nan negative fraction =>
      have hfraction : fraction < 2 ^ 23 := BinaryFormat.fraction_lt_of_decode hvalue
      have hquiet : fraction <<< 29 ||| BinaryFormat.double.quietBit < 2 ^ 52 := by
        apply Nat.or_lt_two_pow
        · rw [Nat.shiftLeft_eq]
          omega
        · decide
      have hne : fraction <<< 29 ||| BinaryFormat.double.quietBit ≠ 0 :=
        Nat.ne_of_gt (Nat.lt_of_lt_of_le (by decide) Nat.right_le_or)
      have hwiden : x.widen.value =
          .nan negative (fraction <<< 29 ||| BinaryFormat.double.quietBit) := by
        simp only [Single.widen, hvalue]
        rw [Double.value_ofNat (signed_lt
          (BinaryFormat.double.infinity_add_lt_signBit hquiet) negative)]
        exact (BinaryFormat.double.decode_top negative hquiet).trans (if_neg hne)
      simp only [Double.isNaN, hwiden]

end BytePack
