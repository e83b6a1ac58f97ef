import BytePack.Proofs.Lemmas.Writing

/-!
# Writing in place

A step can store its bytes piece by piece: fill a field and copy a text over its front, or two
digits into one byte, or word after word. Here every access to a buffer checks its bounds and every
sum of positions checks that it is a 64-bit number; nothing is left of a run that fails one check.
Inside the output no check fails, and the pieces make up what the step stores at once.
-/

namespace BytePack

/-! ## Checked accesses -/

/-- The bytes of a buffer between two positions. -/
def slice? (buffer : List UInt8) (start stop : Nat) : Option (List UInt8) :=
  if start ≤ stop ∧ stop ≤ buffer.length then some ((buffer.take stop).drop start) else none

/-- A buffer with the bytes between two positions replaced by as many others. -/
def store? (buffer : List UInt8) (start stop : Nat) (bytes : List UInt8) : Option (List UInt8) :=
  if start + bytes.length = stop ∧ stop ≤ buffer.length then some (overlay buffer start bytes)
  else none

/-- A byte shifted to the left by less than its width. -/
def shiftLeft? (b : UInt8) (shift : Nat) : Option UInt8 :=
  if shift < 8 then some (b <<< UInt8.ofNat shift) else none

/-! ## Steps -/

/-- A text in a field between two positions: the field is filled, then the text copied over it. -/
def storeText (padding : Padding) (text output : List UInt8) (start stop : Nat) :
    Option (List UInt8) := do
  let field ← slice? output start stop
  let filled := List.replicate field.length padding.fill
  let kept := min text.length (padding.capacity field.length)
  let front ← slice? text 0 kept
  let field ← store? filled 0 kept front
  store? output start stop field

/-- The amount by which the first digit of a byte is shifted. -/
def NibbleOrder.firstShift : NibbleOrder → Nat
  | .lowFirst => 0
  | .highFirst => 4

/-- Digits from the one with number `i` on, and what is reported of them: a byte is cleared before
its first digit. -/
def storeDigits (symbol : Char) :
    List UInt8 → (i shift : Nat) → (field : List UInt8) → Option (List UInt8 × List Diagnostic)
  | [], _, _, field => some (field, [])
  | c :: digits, i, shift, field => do
    let b ← field[i / 2]?
    let kept := if i % 2 = 0 then 0 else b
    let half ← shiftLeft? (nibble c) shift
    let (field, reports) ← storeDigits symbol digits (i + 1) ((shift + 4) &&& 7)
      (field.set (i / 2) (kept ||| half))
    some (field,
      if isHexDigit c then reports else .illegalHexDigit symbol (Char.ofUInt8 c) :: reports)

/-- Digits from a position on, and what is reported of them. -/
def storeHex (symbol : Char) (order : NibbleOrder) (digits output : List UInt8) (pos : Nat) :
    Option (List UInt8 × List Diagnostic) := do
  let field ← slice? output pos output.length
  let (field, reports) ← storeDigits symbol digits 0 order.firstShift field
  let output ← store? output pos output.length field
  some (output, reports)

/-- The words of some arguments, one at a time. -/
def storeWords (format : Number) (symbol : Char) : Nat → Writer → Option (Reported Writer)
  | 0, w => some (.done w)
  | n + 1, w =>
    match w.unread with
    | [] => some (.fail (.argument (.tooFew symbol)))
    | a :: rest =>
      match format.encode a with
      | .error e => some (.fail e)
      | .ok word => do
        let stop ← size? (w.pos + format.width)
        let output ← store? w.output w.pos stop word
        storeWords format symbol n ⟨output, stop, rest⟩

/-- The writer after a step that stores its bytes piece by piece. -/
def Step.writeInPlace (s : Step) (w : Writer) : Option (Reported Writer) :=
  match s.layout with
  | .text padding =>
    match w.unread with
    | [] => some (.fail (.argument (.tooFew s.symbol)))
    | a :: rest => do
      let stop ← size? (w.pos + s.count)
      let output ← storeText padding a.toBytes w.output w.pos stop
      some (.done ⟨output, stop, rest⟩)
  | .hex order =>
    match w.unread with
    | [] => some (.fail (.argument (.tooFew s.symbol)))
    | a :: rest => do
      let digits ← slice? a.toBytes 0 (min s.count a.toBytes.length)
      let (output, reports) ← storeHex s.symbol order digits w.output w.pos
      let stop ← size? (w.pos + nibbleRoom digits.length)
      let short := if a.toBytes.length < s.count then [.notEnoughCharacters s.symbol] else []
      some ⟨short ++ reports, .ok ⟨output, stop, rest⟩⟩
  | .number format => storeWords format s.symbol s.count w
  | .nulByte => do
    let stop ← size? (w.pos + s.count)
    let output ← store? w.output w.pos stop (List.replicate (stop - w.pos) 0)
    some (.done ⟨output, stop, w.unread⟩)
  | .backUp => some (.done { w with pos := w.pos - s.count })
  | .absolute =>
    if w.pos < s.count then do
      let output ← store? w.output w.pos s.count (List.replicate (s.count - w.pos) 0)
      some (.done ⟨output, s.count, w.unread⟩)
    else some (.done { w with pos := s.count })

/-- The writer after some steps that store their bytes piece by piece. -/
def writeStepsInPlace : List Step → Writer → Option (Reported Writer)
  | [], w => some (.done w)
  | s :: rest, w => do
    let stepped ← s.writeInPlace w
    match stepped.outcome with
    | .error e => some ⟨stepped.diagnostics, .error e⟩
    | .ok w' => do
      let written ← writeStepsInPlace rest w'
      some ⟨stepped.diagnostics ++ written.diagnostics, written.outcome⟩

/-- Writes the output of a plan piece by piece. -/
def Plan.writeInPlace (plan : Plan) (room : Nat) (args : List Scalar) :
    Option (Reported (List UInt8)) :=
  if room < plan.size then some (.fail (.overflow (.position plan.furthest)))
  else do
    let written ← writeStepsInPlace plan.steps ⟨List.replicate plan.size 0, 0, args⟩
    some (do
      let w ← written
      pure w.output)

/-! ## Accesses in bounds -/

theorem slice?_eq (buffer : List UInt8) {start stop : Nat} (h : start ≤ stop)
    (hstop : stop ≤ buffer.length) :
    slice? buffer start stop = some ((buffer.take stop).drop start) := if_pos ⟨h, hstop⟩

theorem store?_eq (buffer bytes : List UInt8) {start stop : Nat}
    (h : start + bytes.length = stop) (hstop : stop ≤ buffer.length) :
    store? buffer start stop bytes = some (overlay buffer start bytes) := if_pos ⟨h, hstop⟩

theorem size?_eq {n : Nat} (h : n ≤ maxPosition) : size? n = some n :=
  if_pos (Nat.lt_of_le_of_lt h (by decide))

theorem size?_nibbleRoom {n : Nat} (h : n ≤ maxCount) :
    size? (n / 2 + n % 2) = some (nibbleRoom n) := by
  have hroom : n / 2 + n % 2 = nibbleRoom n := by
    unfold nibbleRoom
    omega
  have hsize : maxCount < UInt64.size := by decide
  rw [hroom]
  apply if_pos
  unfold nibbleRoom
  omega

theorem overlay_nil (output : List UInt8) (pos : Nat) : overlay output pos [] = output := by
  simp [overlay]

theorem overlay_append {output : List UInt8} {pos : Nat} (front more : List UInt8)
    (h : pos + front.length ≤ output.length) :
    overlay (overlay output pos front) (pos + front.length) more =
      overlay output pos (front ++ more) := by
  have hfront : (output.take pos ++ front).length = pos + front.length := by
    rw [List.length_append, List.length_take]
    omega
  unfold overlay
  rw [List.take_left' hfront, List.length_append, ← List.drop_drop, List.drop_left' hfront,
    List.drop_drop]
  simp only [List.append_assoc, Nat.add_assoc]

theorem overlay_cons {output : List UInt8} {pos : Nat} (b : UInt8) (more : List UInt8)
    (h : pos < output.length) :
    overlay (output.set pos b) (pos + 1) more = overlay output pos (b :: more) := by
  have hset : output.set pos b = overlay output pos [b] := by
    rw [overlay, List.set_eq_take_append_cons_drop, if_pos h]
    simp
  rw [hset]
  exact overlay_append [b] more h

/-! ## Texts -/

theorem storeText_eq {padding : Padding} {text output : List UInt8} {pos n : Nat}
    (h : pos + n ≤ output.length) :
    storeText padding text output pos (pos + n) =
      some (overlay output pos (padding.field n text)) := by
  have hfield : ((output.take (pos + n)).drop pos).length = n := by
    rw [List.length_drop, List.length_take]
    omega
  have hcap : padding.capacity n ≤ n := by cases padding <;> simp [Padding.capacity]
  have hfront : text.take (min text.length (padding.capacity n)) =
      text.take (padding.capacity n) := by
    rw [Nat.min_comm, List.take_eq_take_iff]
    omega
  have hlen : (text.take (padding.capacity n)).length =
      min text.length (padding.capacity n) := by
    rw [List.length_take, Nat.min_comm]
  have hover : overlay (List.replicate n padding.fill) 0 (text.take (padding.capacity n)) =
      padding.field n text := by
    simp only [overlay, Padding.field, List.take_zero, List.nil_append, Nat.zero_add,
      List.drop_replicate]
  have hslice := slice?_eq output (Nat.le_add_right pos n) h
  have hfrontSlice := slice?_eq text (Nat.zero_le _)
    (Nat.min_le_left text.length (padding.capacity n))
  have hcopy := store?_eq (List.replicate n padding.fill) (text.take (padding.capacity n))
    (Nat.zero_add _ |>.trans hlen) (by rw [List.length_replicate]; omega)
  have hstore := store?_eq output (padding.field n text) (by rw [Padding.length_field]) h
  simp only [storeText, hslice, Option.bind_eq_bind, Option.bind_some, hfield, hfrontSlice,
    List.drop_zero, hfront, hcopy, hover, hstore]

/-! ## Digits -/

theorem storeDigits_cons {symbol : Char} {c : UInt8} {digits field : List UInt8} {i shift : Nat}
    {b : UInt8} (hb : field[i / 2]? = some b) (hshift : shift < 8) :
    storeDigits symbol (c :: digits) i shift field =
      (storeDigits symbol digits (i + 1) ((shift + 4) &&& 7) (field.set (i / 2)
        ((if i % 2 = 0 then 0 else b) ||| nibble c <<< UInt8.ofNat shift))).map fun stored =>
          (stored.1, if isHexDigit c then stored.2
            else .illegalHexDigit symbol (Char.ofUInt8 c) :: stored.2) := by
  simp only [storeDigits, hb, shiftLeft?, if_pos hshift, Option.bind_eq_bind, Option.bind_some]
  rw [Option.map_eq_bind]
  rfl

theorem NibbleOrder.firstShift_lt (order : NibbleOrder) : order.firstShift < 8 := by
  cases order <;> decide

/-- The half that a first digit does not fill is 0. -/
theorem NibbleOrder.first_digit (order : NibbleOrder) (a : UInt8) :
    0 ||| a <<< UInt8.ofNat order.firstShift = order.join a 0 := by
  cases order <;> simp [NibbleOrder.firstShift, NibbleOrder.join]

theorem NibbleOrder.second_digit (order : NibbleOrder) (a b : UInt8) :
    order.join a 0 ||| b <<< UInt8.ofNat ((order.firstShift + 4) &&& 7) = order.join a b := by
  cases order with
  | lowFirst => simp [NibbleOrder.firstShift, NibbleOrder.join, UInt8.or_comm]
  | highFirst => simp [NibbleOrder.firstShift, NibbleOrder.join]

theorem storeDigits_eq (symbol : Char) (order : NibbleOrder) (digits : List UInt8) {j : Nat}
    {field : List UInt8} (h : j + nibbleRoom digits.length ≤ field.length) :
    storeDigits symbol digits (2 * j) order.firstShift field =
      some (overlay field j (nibbleBytes order digits),
        (invalidDigits digits).map fun c => .illegalHexDigit symbol (Char.ofUInt8 c)) := by
  have hfirst := order.firstShift_lt
  have hsecond : (order.firstShift + 4) &&& 7 < 8 := by cases order <;> decide
  have hback : ((order.firstShift + 4) &&& 7) + 4 &&& 7 = order.firstShift := by
    cases order <;> decide
  have heven : 2 * j / 2 = j := by omega
  have hodd : (2 * j + 1) / 2 = j := by omega
  fun_induction nibbleBytes order digits generalizing j field with
  | case1 => simp [storeDigits, overlay_nil, invalidDigits]
  | case2 a =>
      have hj : j < field.length := by
        simp only [List.length_singleton, nibbleRoom] at h
        omega
      have hget : field[2 * j / 2]? = some field[j] := by
        rw [heven, List.getElem?_eq_getElem hj]
      rw [storeDigits_cons hget hfirst, heven, if_pos (Nat.mul_mod_right 2 j), order.first_digit,
        storeDigits, ← overlay_cons _ [] hj, overlay_nil]
      by_cases ha : isHexDigit a <;> simp [invalidDigits, ha]
  | case3 a b rest ih =>
      have hroom : j + 1 + nibbleRoom rest.length ≤ field.length := by
        simp only [List.length_cons, nibbleRoom] at h ⊢
        omega
      have hj : j < field.length := by omega
      have hget : field[2 * j / 2]? = some field[j] := by
        rw [heven, List.getElem?_eq_getElem hj]
      have hagain : (field.set j (order.join (nibble a) 0))[(2 * j + 1) / 2]? =
          some (order.join (nibble a) 0) := by
        rw [hodd, List.getElem?_set_self hj]
      -- both digits go into byte `j`, and the shift is back at the first half after them
      have hnext : 2 * j + 1 + 1 = 2 * (j + 1) := by omega
      rw [storeDigits_cons hget hfirst, heven, if_pos (Nat.mul_mod_right 2 j), order.first_digit,
        storeDigits_cons hagain hsecond, hodd, if_neg (by omega), order.second_digit, hback,
        List.set_set, hnext, ih (by rwa [List.length_set]) (by omega) (by omega),
        overlay_cons _ _ hj]
      by_cases ha : isHexDigit a <;> by_cases hb : isHexDigit b <;> simp [invalidDigits, ha, hb]

theorem overlay_overlay_drop {output : List UInt8} {pos : Nat} (stored : List UInt8) :
    overlay output pos (overlay (output.drop pos) 0 stored) = overlay output pos stored := by
  have hinner : overlay (output.drop pos) 0 stored =
      stored ++ output.drop (pos + stored.length) := by
    simp [overlay, List.drop_drop]
  have hpast : output.length ≤ pos + (stored ++ output.drop (pos + stored.length)).length := by
    rw [List.length_append, List.length_drop]
    omega
  rw [hinner, overlay, List.drop_eq_nil_of_le hpast, overlay]
  simp

theorem storeHex_eq (symbol : Char) (order : NibbleOrder) (digits : List UInt8)
    {output : List UInt8} {pos : Nat} (h : pos + nibbleRoom digits.length ≤ output.length) :
    storeHex symbol order digits output pos =
      some (overlay output pos (nibbleBytes order digits),
        (invalidDigits digits).map fun c => .illegalHexDigit symbol (Char.ofUInt8 c)) := by
  have hpos : pos ≤ output.length := by omega
  have hfield : slice? output pos output.length = some (output.drop pos) := by
    rw [slice?_eq output hpos (Nat.le_refl _), List.take_length]
  have hroom : 0 + nibbleRoom digits.length ≤ (output.drop pos).length := by
    rw [List.length_drop]
    omega
  have hlen : (overlay (output.drop pos) 0 (nibbleBytes order digits)).length =
      (output.drop pos).length := length_overlay (by rwa [length_nibbleBytes])
  have hdigits := storeDigits_eq symbol order digits hroom
  rw [Nat.mul_zero] at hdigits
  have hstore := store?_eq output (overlay (output.drop pos) 0 (nibbleBytes order digits))
    (show pos + _ = output.length by rw [hlen, List.length_drop]; omega) (Nat.le_refl _)
  simp only [storeHex, hfield, hdigits, hstore, Option.bind_eq_bind, Option.bind_some,
    overlay_overlay_drop]

/-! ## Numbers -/

theorem storeWords_eq (format : Number) (symbol : Char) (n : Nat) {w : Writer}
    (h : w.pos + n * format.width ≤ w.output.length) (hlen : w.output.length ≤ maxPosition) :
    storeWords format symbol n w = some (match format.encodeRun symbol n w.unread with
      | .error e => .fail e
      | .ok (stored, rest) =>
          .done ⟨overlay w.output w.pos stored, w.pos + stored.length, rest⟩) := by
  induction n generalizing w with
  | zero => simp [storeWords, Number.encodeRun, overlay_nil]
  | succ n ih =>
      obtain ⟨output, pos, args⟩ := w
      simp only [Nat.succ_mul] at h hlen
      cases args with
      | nil => rfl
      | cons a rest =>
          cases ha : format.encode a with
          | error e => simp [storeWords, Number.encodeRun, ha]
          | ok word =>
              have hword := Number.length_encode ha
              have hroom : pos + word.length ≤ output.length := by omega
              have hstop : size? (pos + format.width) = some (pos + format.width) :=
                size?_eq (by omega)
              have hstore := store?_eq output word (by rw [hword]) (hword ▸ hroom)
              have hlen' := length_overlay hroom
              have hrest := ih (w := ⟨overlay output pos word, pos + format.width, rest⟩)
                (by simp only [hlen']; omega) (by rwa [hlen'])
              simp only [storeWords, Number.encodeRun, ha, hstop, hstore, hrest,
                Option.bind_eq_bind, Option.bind_some]
              cases format.encodeRun symbol n rest with
              | error e => rfl
              | ok found =>
                  simp only [← hword, overlay_append _ _ hroom, List.length_append, Nat.add_assoc]

/-! ## Steps -/

/-- Inside the output a step that stores piece by piece does what it does at once. -/
theorem Step.writeInPlace_eq {s : Step} {w : Writer} (hend : s.target w.pos ≤ w.output.length)
    (hlen : w.output.length ≤ maxPosition) :
    s.writeInPlace w = some (Step.write w s) := by
  unfold Step.target at hend
  unfold Step.writeInPlace Step.write Step.stroke
  cases hl : s.layout with
  | text padding =>
      simp only [hl, Layout.span] at hend
      cases hargs : w.unread with
      | nil => rfl
      | cons a rest =>
          simp [size?_eq (Nat.le_trans hend hlen), storeText_eq hend, Reported.done]
  | hex order =>
      simp only [hl, Layout.span] at hend
      cases hargs : w.unread with
      | nil => rfl
      | cons a rest =>
          have hdigits : slice? a.toBytes 0 (min s.count a.toBytes.length) =
              some (a.toBytes.take s.count) := by
            rw [slice?_eq _ (Nat.zero_le _) (Nat.min_le_right _ _), List.drop_zero]
            exact congrArg some (List.take_eq_take_iff.2 (by omega))
          have hroom : w.pos + nibbleRoom (a.toBytes.take s.count).length ≤ w.output.length := by
            simp only [List.length_take, nibbleRoom] at hend ⊢
            omega
          simp only [hdigits, storeHex_eq _ _ _ hroom, size?_eq (Nat.le_trans hroom hlen),
            length_nibbleBytes, hexDiagnostics, Option.bind_eq_bind, Option.bind_some,
            Reported.bind_ok, Reported.pure_eq, List.append_nil]
  | number format =>
      simp only [hl, Layout.span] at hend
      simp only [storeWords_eq format s.symbol s.count hend hlen]
      cases format.encodeRun s.symbol s.count w.unread with
      | error e => rfl
      | ok found => simp [Reported.done]
  | nulByte =>
      simp only [hl, Layout.span] at hend
      have hstore := store?_eq w.output (List.replicate s.count 0)
        (by rw [List.length_replicate]) hend
      simp [size?_eq (Nat.le_trans hend hlen), hstore, Reported.done]
  | backUp => simp [overlay_nil, Reported.done]
  | absolute =>
      simp only [hl] at hend
      by_cases hc : w.pos < s.count
      · have hstore := store?_eq w.output (List.replicate (s.count - w.pos) 0)
          (show w.pos + _ = s.count by rw [List.length_replicate]; omega) hend
        simp [hc, hstore, Reported.done]
      · have hzero : s.count - w.pos = 0 := by omega
        simp [hc, hzero, overlay_nil, Reported.done]

/-! ## Some steps -/

/-- Along a sized run no check fails. -/
theorem writeStepsInPlace_eq {steps : List Step} {e e' : Extent} {w : Writer} (he : e.Sound)
    (hsize : (steps.foldlM Step.extend e).outcome = .ok e') (hpos : w.pos ≤ e.pos)
    (hroom : e'.size ≤ w.output.length) (hlen : w.output.length ≤ maxPosition) :
    writeStepsInPlace steps w = some (steps.foldlM Step.write w) := by
  induction steps generalizing e w with
  | nil => rfl
  | cons s rest ih =>
      have hs := extent_run_cons he hsize
      have hend : s.target w.pos ≤ w.output.length :=
        Nat.le_trans (s.target_mono hpos) (Nat.le_trans hs.target_le hroom)
      rw [writeStepsInPlace, Step.writeInPlace_eq hend hlen, List.foldlM_cons]
      cases hv : (Step.write w s).outcome with
      | error err => simp [hv, Reported.bind_of_error hv]
      | ok v =>
          obtain ⟨k, hk, rfl⟩ := Step.write_eq_ok.1 hv
          obtain ⟨hnext, hlast⟩ := hk.behind hs hpos
          have hkept : (w.after k).output.length = w.output.length :=
            length_overlay (Nat.le_trans hlast hroom)
          have hrest := ih hs.sound hs.run_rest hnext (by rwa [hkept]) (by rwa [hkept])
          simp [hv, hrest, Reported.bind_of_ok hv]

end BytePack
