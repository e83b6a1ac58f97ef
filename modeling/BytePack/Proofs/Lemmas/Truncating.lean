import BytePack.Proofs.Lemmas.Rounding
import Mathlib.Data.Rat.Floor

/-!
# Numbers and their whole parts

A finite pattern of double precision denotes a rational number, given by its three fields. Patterns
without their signs are ordered as the numbers they denote, so a range of numbers can be tested on
patterns; and the whole part of a number is again a number of double precision. So a conversion that
compares, drops the fraction and then takes over an integer loses nothing on the way.
-/

namespace BytePack

/-! ## The order of patterns -/

namespace BinaryFormat

variable {f : BinaryFormat} {m m' : Nat} {q q' : Int}

/-- A greater exponent comes with a full significand, so it makes both the pattern and the number
greater. -/
theorem Spells.lt_of_exponent_lt (h : f.Spells m q) (h' : f.Spells m' q') (hq : q < q') :
    f.pattern m q < f.pattern m' q' ∧ (m : ℚ) * 2 ^ q < m' * 2 ^ q' := by
  have hfull : Nat.pow 2 f.fractionBits ≤ m' := by
    have hleast := h.least_le
    exact h'.normal.resolve_right (by omega)
  have hm := h.significand_lt
  constructor
  · have hplace : (q - f.leastExponent).toNat + 1 ≤ (q' - f.leastExponent).toNat := by
      have hleast := h.least_le
      omega
    have hle := Nat.mul_le_mul_right (Nat.pow 2 f.fractionBits) hplace
    rw [Nat.succ_mul] at hle
    unfold pattern
    omega
  · have hm : (m : ℚ) < 2 * (Nat.pow 2 f.fractionBits : Nat) := by exact_mod_cast hm
    have hfull : ((Nat.pow 2 f.fractionBits : Nat) : ℚ) ≤ m' := by exact_mod_cast hfull
    calc (m : ℚ) * 2 ^ q < 2 * (Nat.pow 2 f.fractionBits : Nat) * 2 ^ q := by gcongr
      _ = (Nat.pow 2 f.fractionBits : Nat) * 2 ^ (q + 1) := by
          rw [zpow_add₀ two_ne_zero, zpow_one]
          ring
      _ ≤ m' * 2 ^ q' := by
          gcongr
          · exact one_le_two
          · omega

theorem Spells.pattern_lt_iff (h : f.Spells m q) (h' : f.Spells m' q') :
    f.pattern m q < f.pattern m' q' ↔ (m : ℚ) * 2 ^ q < m' * 2 ^ q' := by
  rcases lt_trichotomy q q' with hq | rfl | hq
  · obtain ⟨hpattern, hvalue⟩ := h.lt_of_exponent_lt h' hq
    exact iff_of_true hpattern hvalue
  · rw [mul_lt_mul_iff_left₀ (by positivity), Nat.cast_lt, pattern, pattern, Nat.add_lt_add_iff_left]
  · obtain ⟨hpattern, hvalue⟩ := h'.lt_of_exponent_lt h hq
    exact iff_of_false hpattern.not_gt hvalue.not_gt

end BinaryFormat

/-! ## Whole parts -/

namespace Magnitude

theorem scaled_lt_iff (m : Nat) (q : Int) (bound : Nat) :
    (scaled m q).num < bound * (scaled m q).den ↔ (m : ℚ) * 2 ^ q < bound := by
  have hden : (0 : ℚ) < (scaled m q).den := by exact_mod_cast den_scaled_pos m q
  rw [← value_scaled, value, div_lt_iff₀ hden]
  exact_mod_cast Iff.rfl

theorem scaled_le_iff (m : Nat) (q : Int) (bound : Nat) :
    (scaled m q).num ≤ bound * (scaled m q).den ↔ (m : ℚ) * 2 ^ q ≤ bound := by
  have hden : (0 : ℚ) < (scaled m q).den := by exact_mod_cast den_scaled_pos m q
  rw [← value_scaled, value, div_le_iff₀ hden]
  exact_mod_cast Iff.rfl

theorem floor_scaled (m : Nat) (q : Int) : ((scaled m q).floor : Int) = ⌊(m : ℚ) * 2 ^ q⌋ := by
  rw [← value_scaled, value, Rat.floor_natCast_div_natCast, floor, Int.natCast_div]

end Magnitude

def towardZero (r : ℚ) : ℤ := if 0 ≤ r then ⌊r⌋ else ⌈r⌉

theorem towardZero_of_nonneg {r : ℚ} (h : 0 ≤ r) : towardZero r = ⌊r⌋ := if_pos h

theorem towardZero_neg {r : ℚ} (h : 0 ≤ r) : towardZero (-r) = -⌊r⌋ := by
  unfold towardZero
  split
  · obtain rfl : r = 0 := le_antisymm (by linarith) h
    simp
  · exact Int.ceil_neg

namespace Double

/-- The rational number that a pattern denotes, by its fields: a sign of one bit, an exponent of eleven
and a fraction of fifty-two. The largest exponent marks what is no number, and the smallest numbers
have no leading one. -/
def number? (x : Double) : Option ℚ :=
  let bits := x.bits.toNat
  let exponent := bits / 0x10000000000000 % 0x800
  let fraction : ℚ := (bits % 0x10000000000000 : Nat) / 0x10000000000000
  let sign : ℚ := if bits < 0x8000000000000000 then 1 else -1
  if exponent = 0x7FF then none
  else if exponent = 0 then some (sign * (fraction * 2 ^ (-1022 : ℤ)))
  else some (sign * ((1 + fraction) * 2 ^ ((exponent : ℤ) - 1023)))

/-- The integer that a pattern stands for: the number that it denotes without its fraction, if that
number lies from `-2 ^ 63` up to but excluding `2 ^ 63`, and 0 for every other pattern. -/
def wholePart (x : Double) : ℤ :=
  match x.number? with
  | some r => if -0x8000000000000000 ≤ r ∧ r < 0x8000000000000000 then towardZero r else 0
  | none => 0

def signFactor (negative : Bool) : ℚ := if negative then -1 else 1

/-- A fraction counts in steps of its last bit. -/
theorem scale_fraction (n : Nat) (e : ℤ) :
    (n : ℚ) / 0x10000000000000 * 2 ^ (e + 52) = n * 2 ^ e := by
  rw [zpow_add₀ two_ne_zero]
  norm_num
  ring

theorem number?_eq (x : Double) :
    x.number? = match x.value with
      | .finite negative m q => some (signFactor negative * (m * 2 ^ q))
      | _ => none := by
  have hvalue : x.value =
      let negative := decide (0x8000000000000000 ≤ x.bits.toNat)
      let fraction := x.bits.toNat % 0x10000000000000
      let exponent := x.bits.toNat / 0x10000000000000 % 0x800
      if exponent = 0x7FF then
        if fraction = 0 then .infinite negative else .nan negative fraction
      else if exponent = 0 then .finite negative fraction (-1074)
      else .finite negative (0x10000000000000 + fraction) (-1074 + (exponent - 1)) := rfl
  have hsign : (if x.bits.toNat < 0x8000000000000000 then 1 else -1 : ℚ) =
      signFactor (decide (0x8000000000000000 ≤ x.bits.toNat)) := by
    unfold signFactor
    by_cases h : x.bits.toNat < 0x8000000000000000
    · rw [if_pos h, decide_eq_false (Nat.not_le.2 h)]
      rfl
    · rw [if_neg h, decide_eq_true (Nat.not_lt.1 h)]
      rfl
  rw [hvalue]
  unfold number?
  simp only [hsign]
  generalize x.bits.toNat % 0x10000000000000 = fraction
  generalize x.bits.toNat / 0x10000000000000 % 0x800 = exponent
  by_cases htop : exponent = 0x7FF
  · rw [if_pos htop, if_pos htop]
    split_ifs <;> rfl
  · rw [if_neg htop, if_neg htop]
    by_cases hzero : exponent = 0
    · have hplace := scale_fraction fraction (-1074)
      rw [if_pos hzero, if_pos hzero]
      exact congrArg (fun r => some (signFactor _ * r)) hplace
    · have hplace := scale_fraction (0x10000000000000 + fraction : Nat) (-1074 + (exponent - 1))
      have hone : ((0x10000000000000 + fraction : Nat) : ℚ) / 0x10000000000000 =
          1 + fraction / 0x10000000000000 := by
        push_cast
        ring
      rw [hone, show (-1074 + ((exponent : ℤ) - 1) + 52) = exponent - 1023 by ring] at hplace
      rw [if_neg hzero, if_neg hzero]
      exact congrArg (fun r => some (signFactor _ * r)) hplace

theorem wholePart_of_finite {x : Double} {negative : Bool} {m : Nat} {q : Int}
    (h : x.value = .finite negative m q) :
    x.wholePart =
      if (if negative then (m : ℚ) * 2 ^ q ≤ signedBound else (m : ℚ) * 2 ^ q < signedBound) then
        if negative then -⌊(m : ℚ) * 2 ^ q⌋ else ⌊(m : ℚ) * 2 ^ q⌋
      else 0 := by
  have hpos : (0 : ℚ) ≤ m * 2 ^ q := by positivity
  have hbound : ((signedBound : Nat) : ℚ) = 0x8000000000000000 := rfl
  simp only [wholePart, number?_eq, h, hbound]
  generalize (m : ℚ) * 2 ^ q = r at hpos
  cases negative with
  | false =>
      have hrange : (-0x8000000000000000 ≤ signFactor false * r ∧
          signFactor false * r < 0x8000000000000000) ↔ r < 0x8000000000000000 := by
        rw [signFactor, if_neg Bool.false_ne_true, one_mul]
        exact ⟨fun h => h.2, fun h => ⟨by linarith, h⟩⟩
      simp only [hrange, Bool.false_eq_true, if_false]
      rw [signFactor, if_neg Bool.false_ne_true, one_mul, towardZero_of_nonneg hpos]
  | true =>
      have hrange : (-0x8000000000000000 ≤ signFactor true * r ∧
          signFactor true * r < 0x8000000000000000) ↔ r ≤ 0x8000000000000000 := by
        rw [signFactor, if_pos rfl, neg_one_mul]
        exact ⟨fun h => by linarith, fun h => ⟨by linarith, by linarith⟩⟩
      simp only [hrange, if_true]
      rw [signFactor, if_pos rfl, neg_one_mul, towardZero_neg hpos]

/-- What is computed on naturals is the integer that the number stands for. -/
theorem truncate_eq_wholePart (x : Double) : x.truncate = x.wholePart := by
  cases hvalue : x.value with
  | finite negative m q =>
      rw [wholePart_of_finite hvalue, truncate, hvalue]
      cases negative with
      | false =>
          simp only [Bool.false_eq_true, if_false, Magnitude.scaled_lt_iff, Magnitude.floor_scaled]
      | true => simp only [if_true, Magnitude.scaled_le_iff, Magnitude.floor_scaled]
  | infinite | nan => rw [truncate, wholePart, number?_eq, hvalue]

theorem wholePart_bounds (x : Double) :
    -(signedBound : Int) ≤ x.wholePart ∧ x.wholePart < signedBound := by
  have hbound : (0 : Int) < signedBound := by decide
  unfold wholePart
  split
  · rename_i r _
    split
    · rename_i hrange
      obtain ⟨hlow, hhigh⟩ := hrange
      unfold towardZero
      split
      · rename_i hpos
        exact ⟨(by omega : -(signedBound : Int) ≤ 0).trans (Int.floor_nonneg.2 hpos),
          Int.floor_lt.2 hhigh⟩
      · rename_i hneg
        have hceil : ⌈r⌉ ≤ 0 := Int.ceil_le.2 (not_le.1 hneg).le
        have hleast : ((-(signedBound : Int) : Int) : ℚ) ≤ ⌈r⌉ := hlow.trans (Int.le_ceil r)
        exact ⟨Int.cast_le.1 hleast, by omega⟩
    · exact ⟨by omega, hbound⟩
  · exact ⟨by omega, hbound⟩

/-! ## Conversion step by step -/

def isFinite (x : Double) : Bool := x.value matches .finite ..

/-- The place of a pattern in the order of the numbers: by its bits without the sign, and the other way
round below zero. -/
def rank (x : Double) : Int :=
  if 0x8000000000000000 ≤ x.bits.toNat then -(x.bits.toNat - 0x8000000000000000 : Nat)
  else x.bits.toNat

/-- Whether one number is below another; what is not a number is neither below nor above. -/
def numLt (x y : Double) : Bool := !x.isNaN && !y.isNaN && x.rank < y.rank

def numLe (x y : Double) : Bool := !x.isNaN && !y.isNaN && x.rank ≤ y.rank

def negate (x : Double) : Double := ⟨x.bits ^^^ 0x8000000000000000⟩

/-- The first number past the range of signed words, `2 ^ 63`. -/
def limit : Double := ⟨0x43E0000000000000⟩

def dropFraction (x : Double) : Double :=
  match x.value with
  | .finite negative m q => nearest negative ⟨(Magnitude.scaled m q).floor, 1⟩
  | _ => x

/-- A number as a signed word, or nothing where its whole part is none and a cast would saturate. -/
def cast? (x : Double) : Option Int64 :=
  match x.value with
  | .finite negative m q =>
    let size : Int := (Magnitude.scaled m q).floor
    let whole := if negative then -size else size
    if -(signedBound : Int) ≤ whole ∧ whole < signedBound then some (.ofInt whole) else none
  | _ => none

/-- The conversion to a signed word: numbers in the range lose their fraction and are cast, and
everything else is 0. -/
def convert? (x : Double) : Option Int64 :=
  if x.isFinite && limit.negate.numLe x && x.numLt limit then x.dropFraction.cast? else some 0

theorem rank_of_finite {x : Double} {negative : Bool} {m : Nat} {q : Int}
    (h : x.value = .finite negative m q) :
    BinaryFormat.double.Spells m q ∧
      x.rank = if negative then -(BinaryFormat.double.pattern m q : Int)
        else BinaryFormat.double.pattern m q := by
  have hx : x.bits.toNat < 2 * BinaryFormat.double.signBit := x.bits.toNat_lt
  obtain ⟨hspells, hbits⟩ := BinaryFormat.spells_of_decode hx h
  have hlt : BinaryFormat.double.pattern m q < 0x8000000000000000 :=
    Nat.lt_trans hspells.finite BinaryFormat.double.infinity_lt_signBit
  have hsign : BinaryFormat.double.signBit = 0x8000000000000000 := rfl
  refine ⟨hspells, ?_⟩
  rw [rank, hbits, BinaryFormat.signed, hsign]
  cases negative with
  | false => simp only [Bool.false_eq_true, if_false, if_neg (Nat.not_le.2 hlt)]
  | true => simp only [if_true, if_pos (Nat.le_add_right _ _), Nat.add_sub_cancel_left]

theorem spells_limit : BinaryFormat.double.Spells 0x10000000000000 11 :=
  ⟨by decide, by decide, .inl (by decide), by decide⟩

theorem inRange_iff {x : Double} {negative : Bool} {m : Nat} {q : Int}
    (h : x.value = .finite negative m q) :
    (x.isFinite && limit.negate.numLe x && x.numLt limit) = true ↔
      if negative then (m : ℚ) * 2 ^ q ≤ signedBound else (m : ℚ) * 2 ^ q < signedBound := by
  have hfinite : x.isFinite = true := by rw [isFinite, h]
  have hnan : x.isNaN = false := by rw [isNaN, h]
  have hlow : limit.negate.rank = -(BinaryFormat.double.pattern 0x10000000000000 11 : Int) := by
    decide
  have hhigh : limit.rank = (BinaryFormat.double.pattern 0x10000000000000 11 : Int) := by decide
  have hlimit : limit.isNaN = false := by decide
  have hlimit' : limit.negate.isNaN = false := by decide
  -- the bound of the range is itself a number, so numbers below it have patterns below its own
  have hbound : ((signedBound : Nat) : ℚ) = (0x10000000000000 : Nat) * 2 ^ (11 : ℤ) := by
    norm_num [signedBound]
  have hpos : 0 < BinaryFormat.double.pattern 0x10000000000000 11 := by decide
  obtain ⟨hspells, hrank⟩ := rank_of_finite h
  have hlt : (m : ℚ) * 2 ^ q < signedBound ↔ BinaryFormat.double.pattern m q <
      BinaryFormat.double.pattern 0x10000000000000 11 := by
    rw [hbound, hspells.pattern_lt_iff spells_limit]
  have hle : (m : ℚ) * 2 ^ q ≤ signedBound ↔ BinaryFormat.double.pattern m q ≤
      BinaryFormat.double.pattern 0x10000000000000 11 := by
    rw [hbound, ← not_lt, ← Nat.not_lt, spells_limit.pattern_lt_iff hspells]
  rw [hfinite, numLe, numLt, hnan, hlimit, hlimit', hlow, hhigh, hrank, hlt, hle]
  generalize BinaryFormat.double.pattern 0x10000000000000 11 = bound at hpos
  generalize BinaryFormat.double.pattern m q = place
  cases negative with
  | false =>
      have hlow : -(bound : Int) ≤ place := by omega
      simp [hlow]
  | true =>
      have hhigh : -(place : Int) < bound := by omega
      simp [hhigh]

theorem exists_spells_floor {m : Nat} {q : Int} (h : BinaryFormat.double.Spells m q) :
    ∃ m' q', BinaryFormat.double.Spells m' q' ∧
      (m' : ℚ) * 2 ^ q' = (Magnitude.scaled m q).floor := by
  -- with a step of at least 1 there is no fraction, and with a smaller one the whole part is below `m`
  by_cases hq : 0 ≤ q
  · have hwhole : (Magnitude.scaled m q).floor = m * Nat.pow 2 q.toNat := by
      rw [Magnitude.scaled, if_pos hq, Magnitude.floor, Nat.div_one]
    refine ⟨m, q, h, ?_⟩
    obtain ⟨k, rfl⟩ := Int.eq_ofNat_of_zero_le hq
    rw [hwhole]
    simp
  · have hle : (Magnitude.scaled m q).floor ≤ m := by
      rw [Magnitude.scaled, if_neg hq]
      exact Nat.div_le_self m _
    have hlt : (Magnitude.scaled m q).floor < 9007199254740992 :=
      Nat.lt_of_le_of_lt hle h.significand_lt
    obtain ⟨m', q', hspells, hsame⟩ := exists_spells (q := 0) hlt (by decide) (by decide)
    exact ⟨m', q', hspells, by rw [hsame, zpow_zero, mul_one]⟩

theorem value_dropFraction {x : Double} {negative : Bool} {m : Nat} {q : Int}
    (h : x.value = .finite negative m q) :
    ∃ m' q', x.dropFraction.value = .finite negative m' q' ∧
      (Magnitude.scaled m' q').floor = (Magnitude.scaled m q).floor := by
  obtain ⟨hspells, -⟩ := rank_of_finite h
  obtain ⟨m', q', hspells', hsame⟩ := exists_spells_floor hspells
  refine ⟨m', q', ?_, ?_⟩
  · have hvalue : Magnitude.value ⟨(Magnitude.scaled m q).floor, 1⟩ = (m' : ℚ) * 2 ^ q' := by
      rw [hsame, Magnitude.value, Nat.cast_one, div_one]
    rw [dropFraction, h]
    simp only [nearest, hspells'.nearest_eq Nat.one_pos hvalue]
    rw [Double.value_ofNat (signed_lt (Nat.lt_trans hspells'.finite
      (BinaryFormat.infinity_lt_signBit _)) negative)]
    exact hspells'.decode_signed negative
  · have hfloor := Magnitude.floor_scaled m' q'
    rw [hsame, Int.floor_natCast] at hfloor
    exact_mod_cast hfloor

/-- Step by step a number is converted to the integer that it stands for: the fraction is dropped
exactly, and no cast saturates. -/
theorem convert?_eq (x : Double) : x.convert? = some (.ofInt x.wholePart) := by
  cases hvalue : x.value with
  | finite negative m q =>
      have hwhole := wholePart_of_finite hvalue
      rw [convert?]
      by_cases hrange : (x.isFinite && limit.negate.numLe x && x.numLt limit) = true
      · obtain ⟨m', q', hdropped, hfloor⟩ := value_dropFraction hvalue
        rw [if_pos ((inRange_iff hvalue).1 hrange), ← Magnitude.floor_scaled] at hwhole
        have hbounds := x.wholePart_bounds
        rw [if_pos hrange, cast?, hdropped]
        simp only [hfloor, ← hwhole, if_pos hbounds]
      · rw [if_neg (mt (inRange_iff hvalue).2 hrange)] at hwhole
        rw [if_neg hrange, hwhole]
        rfl
  | infinite | nan =>
      have hwhole : x.wholePart = 0 := by rw [wholePart, number?_eq, hvalue]
      rw [convert?, isFinite, hvalue, hwhole]
      rfl

end Double

end BytePack
