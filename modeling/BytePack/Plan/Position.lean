import BytePack.Word.Bytes

/-!
# Positions

A cursor position is at most `maxPosition`, and sizes are 64-bit numbers. `advance?` moves a cursor
over some repetitions; it gives nothing when the product or the sum is no 64-bit number or the
position too large, which is exactly when the true sum is too large.
-/

namespace BytePack

/-- The largest position of a cursor. -/
def maxPosition : Nat := signedBound - 1

/-- A number, if it is a 64-bit one. -/
def size? (n : Nat) : Option Nat := if n < UInt64.size then some n else none

/-- The position after `count` repetitions of `width` bytes. -/
def advance? (pos count width : Nat) : Option Nat := do
  let bytes ← size? (count * width)
  let next ← size? (pos + bytes)
  if next ≤ maxPosition then some next else none

theorem advance?_eq (pos count width : Nat) :
    advance? pos count width =
      if pos + count * width ≤ maxPosition then some (pos + count * width) else none := by
  unfold advance? size?
  generalize count * width = bytes
  have hmax : maxPosition < UInt64.size := by decide
  by_cases hb : bytes < UInt64.size
  · rw [if_pos hb, Option.bind_eq_bind, Option.bind_some]
    by_cases hs : pos + bytes < UInt64.size
    · rw [if_pos hs, Option.bind_some]
    · rw [if_neg hs, if_neg (by omega)]
      rfl
  · rw [if_neg hb, if_neg (by omega)]
    rfl

end BytePack
