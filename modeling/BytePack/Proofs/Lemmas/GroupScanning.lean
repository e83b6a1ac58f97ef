import BytePack.Proofs.Lemmas.InPlace
import BytePack.Proofs.Lemmas.Pieces
import BytePack.Proofs.Lemmas.Scanning

/-!
# Scanning the bytes of groups

Groups can be scanned with an index into the bytes of their format. The index goes up byte by byte
through a name, and the name is cut out of the bytes between two indices. Here every index and every
bound of a cut checks that it is a 64-bit number and inside the bytes, and the loop has fuel; nothing
is left of a scan that fails one check or lacks fuel. On the bytes of a format none does, and the
scan finds what reading the characters finds.
-/

namespace BytePack

/-! ## The scan -/

/-- The position of the first `/` of some bytes that start at a position, or of their end. -/
def scanName : List UInt8 → Nat → Option Nat
  | [], position => some position
  | b :: bs, position =>
    if b = 0x2F then some position
    else do
      let next ← size? (position + 1)
      scanName bs next

/-- How far a position lies behind another. -/
def distance? (start stop : Nat) : Option Nat :=
  if start ≤ stop then some (stop - start) else none

/-- The position after the byte at a position, or the end if there is none. -/
def pastByte? (bytes : List UInt8) (position : Nat) : Option Nat :=
  if position < bytes.length then size? (position + 1) else some position

/-- The group at a position of the bytes of a format, and the position of the one after it. -/
def scanGroup (limit : Nat) (bytes : List UInt8) (position : Nat) :
    Option (Except Error (Group × Nat)) :=
  match scanDirective position (bytes.drop position) with
  | none => none
  | some (.error e) => some (.error e)
  | some (.ok (d, rest)) => do
    let start ← size? (position + ((bytes.drop position).length - rest.length))
    let stop ← scanName (bytes.drop start) start
    let written ← distance? start stop
    let cut ← size? (start + min written limit)
    let name ← slice? bytes start cut
    let next ← pastByte? bytes stop
    some (.ok (⟨d, .ofList (Utf8.decodeLossy name)⟩, next))

/-- The groups of the bytes of a format from a position on. -/
def scanGroups (limit : Nat) (bytes : List UInt8) :
    (fuel position : Nat) → Option (Except Error (List Group))
  | 0, _ => none
  | fuel + 1, position =>
    if bytes.length ≤ position then some (.ok [])
    else
      match scanGroup limit bytes position with
      | none => none
      | some (.error e) => some (.error e)
      | some (.ok (g, next)) =>
        (scanGroups limit bytes fuel next).map fun found => found.map (g :: ·)

/-- The groups of a format, found by an index into its bytes. -/
def scanFormat (format : String) (limit : Nat) : Option (Except Error (List Group)) :=
  scanGroups limit (Utf8.encode format.toList) (format.utf8ByteSize + 1) 0

/-! ## Names -/

theorem Utf8.encode_append (cs ds : List Char) :
    Utf8.encode (cs ++ ds) = Utf8.encode cs ++ Utf8.encode ds :=
  List.flatMap_append

theorem Utf8.size_pos {cs : List Char} (h : cs ≠ []) : 0 < Utf8.size cs := by
  cases cs with
  | nil => exact absurd rfl h
  | cons c cs => exact Nat.lt_add_right _ c.utf8Size_pos

theorem Utf8.length_le_size (cs : List Char) : cs.length ≤ Utf8.size cs := by
  induction cs with
  | nil => exact Nat.le_refl 0
  | cons c cs ih =>
      have hc := c.utf8Size_pos
      rw [List.length_cons, Utf8.size]
      omega

/-- No byte of another character looks like a `/`. -/
theorem Utf8.not_slash_of_mem {c : Char} (h : c ≠ '/') {b : UInt8}
    (hb : b ∈ String.utf8EncodeChar c) : b ≠ 0x2F := by
  rintro rfl
  by_cases hsize : c.utf8Size = 1
  · rw [String.utf8EncodeChar_eq_singleton hsize, List.mem_singleton] at hb
    apply h
    rw [← ofUInt8_of_ascii hsize]
    have hbyte : c.val.toUInt8 = 0x2F := hb.symm
    rw [hbyte]
    decide
  · have hwide := not_le_of_wide hsize
    simp only [String.utf8EncodeChar, hwide, if_false] at hb
    split at hb
    · simp [← UInt8.toNat_inj] at hb
      omega
    · split at hb
      · simp [← UInt8.toNat_inj] at hb
        omega
      · simp [← UInt8.toNat_inj] at hb
        omega

theorem scanName_of_no_slash {bytes more : List UInt8} (h : ∀ b ∈ bytes, b ≠ 0x2F)
    (hmore : more = [] ∨ ∃ bs, more = 0x2F :: bs) {position : Nat}
    (hlen : position + bytes.length ≤ maxPosition) :
    scanName (bytes ++ more) position = some (position + bytes.length) := by
  induction bytes generalizing position with
  | nil => rcases hmore with rfl | ⟨bs, rfl⟩ <;> simp [scanName]
  | cons b bytes ih =>
      obtain ⟨hb, hbytes⟩ := List.forall_mem_cons.1 h
      rw [List.length_cons] at hlen ⊢
      rw [List.cons_append, scanName, if_neg hb, size?_eq (by omega), Option.bind_eq_bind,
        Option.bind_some, ih hbytes (by omega), Nat.add_right_comm, Nat.add_assoc]

theorem PieceEnd.encode {more : List Char} (h : PieceEnd more) :
    Utf8.encode more = [] ∨ ∃ bs, Utf8.encode more = 0x2F :: bs := by
  rcases h with rfl | ⟨cs, rfl⟩
  · exact .inl rfl
  · exact .inr ⟨Utf8.encode cs, rfl⟩

theorem scanName_encode {written more : List Char} (h : '/' ∉ written) (hmore : PieceEnd more)
    {position : Nat} (hlen : position + Utf8.size written ≤ maxPosition) :
    scanName (Utf8.encode (written ++ more)) position = some (position + Utf8.size written) := by
  rw [← Utf8.length_encode] at hlen ⊢
  rw [Utf8.encode_append]
  refine scanName_of_no_slash (fun b hb => ?_) hmore.encode hlen
  obtain ⟨c, hc, hb⟩ := List.mem_flatMap.1 hb
  refine Utf8.not_slash_of_mem ?_ hb
  rintro rfl
  exact h hc

/-! ## Groups -/

/-- What stands at a position of some bytes, up to their end. -/
structure StandsAt (bytes : List UInt8) (position : Nat) (cs : List Char) : Prop where
  drop : bytes.drop position = Utf8.encode cs
  reach : position + Utf8.size cs = bytes.length

theorem StandsAt.after {bytes : List UInt8} {position : Nat} {cs ds : List Char}
    (h : StandsAt bytes position (cs ++ ds)) : StandsAt bytes (position + Utf8.size cs) ds where
  drop := by
    rw [← List.drop_drop, h.drop, Utf8.encode_append, List.drop_left' (Utf8.length_encode cs)]
  reach := by
    have hreach := h.reach
    rw [Utf8.size_append] at hreach
    omega

theorem StandsAt.name {bytes : List UInt8} {start : Nat} {written more : List Char}
    (h : StandsAt bytes start (written ++ more)) (limit : Nat) :
    slice? bytes start (start + min (Utf8.size written) limit) =
      some ((Utf8.encode written).take (min (Utf8.size written) limit)) := by
  have hreach := h.reach
  rw [Utf8.size_append] at hreach
  rw [slice?_eq bytes (Nat.le_add_right _ _) (by omega), List.drop_take, Nat.add_sub_cancel_left,
    h.drop, Utf8.encode_append, List.take_append_of_le_length]
  rw [Utf8.length_encode]
  exact Nat.min_le_left _ _

/-- After a piece the scan goes on behind the `/`, or is at the end. -/
theorem StandsAt.next {bytes : List UInt8} {stop : Nat} {more : List Char}
    (h : StandsAt bytes stop more) (hmore : PieceEnd more) (hlen : bytes.length ≤ maxPosition)
    (limit : Nat) :
    ∃ next, pastByte? bytes stop = some next ∧ StandsAt bytes next (more.drop 1) ∧
      readGroups limit (stop + 1) (more.drop 1) = readGroups limit next (more.drop 1) := by
  have hreach := h.reach
  rcases hmore with rfl | ⟨cs, rfl⟩
  · have hstop : ¬ stop < bytes.length := by
      simp only [Utf8.size] at hreach
      omega
    exact ⟨stop, if_neg hstop, h, by simp [readGroups]⟩
  · have hsize : Utf8.size ['/'] = 1 := by decide
    have hstands : StandsAt bytes stop (['/'] ++ cs) := h
    have hafter := hstands.after
    rw [hsize] at hafter
    have hle := hafter.reach
    refine ⟨stop + 1, ?_, hafter, rfl⟩
    rw [pastByte?, if_pos (by omega), size?_eq (by omega)]

theorem Piece.Reads.scanGroup_eq {limit : Nat} {bytes : List UInt8} {piece : Piece} {g : Group}
    {more : List Char} (hg : piece.Reads limit g) (hslash : '/' ∉ piece.text)
    (hmore : PieceEnd more) (h : StandsAt bytes piece.position (piece.text ++ more))
    (hlen : bytes.length ≤ maxPosition) {next : Nat}
    (hnext : pastByte? bytes (piece.position + Utf8.size piece.text) = some next) :
    scanGroup limit bytes piece.position = some (.ok (g, next)) := by
  cases hg with
  | @group position code r spelling written hcode hr =>
      have hscan := (hr.followed hmore.head?).scan_directive hcode position
      have hwritten : '/' ∉ written := by simp_all
      have htext : code.symbol :: (spelling ++ written) ++ more =
          (code.symbol :: spelling) ++ (written ++ more) := by simp
      simp only at h hnext
      rw [htext] at h
      have hrest := h.after
      have hsize := hrest.reach
      rw [Utf8.size_append] at hsize
      have hconsumed : (bytes.drop position).length - (Utf8.encode (written ++ more)).length =
          Utf8.size (code.symbol :: spelling) := by
        rw [h.drop, Utf8.length_encode, Utf8.length_encode, Utf8.size_append, Nat.add_sub_cancel]
      have hstop : position + Utf8.size (code.symbol :: spelling) + Utf8.size written =
          position + Utf8.size (code.symbol :: (spelling ++ written)) := by
        simp only [Utf8.size, Utf8.size_append]
        omega
      have hdistance : distance? (position + Utf8.size (code.symbol :: spelling))
          (position + Utf8.size (code.symbol :: spelling) + Utf8.size written) =
            some (Utf8.size written) := by
        rw [distance?, if_pos (Nat.le_add_right _ _), Nat.add_sub_cancel_left]
      unfold scanGroup
      rw [← List.cons_append, ← h.drop] at hscan
      simp only [hscan, hconsumed, Option.bind_eq_bind]
      rw [size?_eq (by omega), Option.bind_some, hrest.drop,
        scanName_encode hwritten hmore (by omega), Option.bind_some, hdistance, Option.bind_some,
        size?_eq (by omega), Option.bind_some, hrest.name limit, Option.bind_some, hstop, hnext,
        Option.bind_some]

/-- No check of a scan fails, and it finds what reading the characters finds. -/
theorem scanGroups_encode {limit : Nat} {bytes : List UInt8} {fuel position : Nat}
    {cs : List Char} (h : StandsAt bytes position cs) (hlen : bytes.length ≤ maxPosition)
    (hfuel : cs.length < fuel) :
    scanGroups limit bytes fuel position = some (readGroups limit position cs) := by
  induction fuel generalizing position cs with
  | zero => exact absurd hfuel (Nat.not_lt_zero _)
  | succ fuel ih =>
      have hreach := h.reach
      by_cases hempty : cs = []
      · subst hempty
        rw [Utf8.size, Nat.add_zero] at hreach
        rw [scanGroups, if_pos (Nat.le_of_eq hreach.symm), readGroups]
      · have hsize := Utf8.size_pos hempty
        obtain ⟨text, more, rfl, hslash, hmore⟩ := exists_piece cs
        rw [scanGroups, if_neg (by omega)]
        rcases Piece.reads_or_fails limit ⟨position, text⟩ with ⟨g, hg⟩ | ⟨e, he⟩
        · obtain ⟨next, hnext, hstands, hlabel⟩ := h.after.next hmore hlen limit
          have hread := hg.readGroups_eq hslash hmore
          have hless : (more.drop 1).length < fuel := by
            have htext : 0 < text.length := List.length_pos_iff.2 hg.text_ne_nil
            rw [List.length_append] at hfuel
            rw [List.length_drop]
            omega
          simp only at hread
          rw [hg.scanGroup_eq hslash hmore h hlen hnext, hread, hlabel]
          simp only [ih hstands hless, Option.map_some]
        · have hne : text ≠ [] ∨ more ≠ [] := by
            by_cases htext : text = []
            · exact .inr fun hnil => hempty (by rw [htext, hnil]; rfl)
            · exact .inl htext
          have hfails := he.followed hmore hne
          have hscan : scanGroup limit bytes position = some (.error e) := by
            rw [scanGroup, h.drop, hfails.scan_directive]
          rw [hscan, hfails.readGroups_eq]

theorem scanFormat_eq {format : String} {limit : Nat} (h : format.utf8ByteSize ≤ maxPosition) :
    scanFormat format limit = some (parseGroups format limit) := by
  rw [utf8ByteSize_eq] at h
  have hstands : StandsAt (Utf8.encode format.toList) 0 format.toList :=
    ⟨rfl, by rw [Utf8.length_encode, Nat.zero_add]⟩
  have hfuel : format.toList.length < Utf8.size format.toList + 1 :=
    Nat.lt_succ_of_le (Utf8.length_le_size _)
  rw [scanFormat, utf8ByteSize_eq, scanGroups_encode hstands (by rwa [Utf8.length_encode]) hfuel]
  rfl

end BytePack
