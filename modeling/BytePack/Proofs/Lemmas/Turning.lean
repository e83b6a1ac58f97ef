import BytePack.Proofs.LastStore
import BytePack.Proofs.Lemmas.Akin
import BytePack.Proofs.Lemmas.Passes

/-!
# Words turned around

A number stored with its most significant byte first has the bytes of the other order in reverse. So
if the big-endian numbers of some steps become little-endian, each step stores what it stored before,
with the bytes of each such word reversed; where steps do not seek, no store covers another, and the
same holds of the output.
-/

namespace BytePack

/-! ## Turned numbers -/

/-- Least significant byte first instead of most significant byte first. -/
def ByteOrder.turned : ByteOrder → ByteOrder
  | .bigEndian => .littleEndian
  | order => order

/-- A number in the other order, if it is big-endian. -/
def Number.turned : Number → Number
  | .integer width order signed => .integer width order.turned signed
  | .single order => .single order.turned
  | .double order => .double order.turned

/-- A layout with its number in the other order, if it is big-endian. -/
def Layout.turned : Layout → Layout
  | .number n => .number n.turned
  | layout => layout

/-- The words of some bytes, each reversed. -/
def reverseWords (width : Nat) : (count : Nat) → List UInt8 → List UInt8
  | 0, bytes => bytes
  | count + 1, bytes =>
    (bytes.take width).reverse ++ reverseWords width count (bytes.drop width)

/-- Whether a layout is that of big-endian numbers. -/
def Layout.isBigEndian : Layout → Bool
  | .number n => n.order == .bigEndian
  | _ => false

/-- What a step stores after its layout is turned, in terms of what it stored before. -/
def Step.turnStored (s : Step) (stored : List UInt8) : List UInt8 :=
  if s.layout.isBigEndian then reverseWords s.layout.width s.count stored else stored

/-- A store with its words turned. -/
def Step.turnStore (s : Step) (store : Store) : Store := ⟨store.pos, s.turnStored store.bytes⟩

/-- Whether a step is another one with its layout turned. -/
structure Step.Turned (s t : Step) : Prop where
  layout : t.layout = s.layout.turned
  count : t.count = s.count

theorem Layout.isBigEndian_iff {layout : Layout} :
    layout.isBigEndian = true ↔ ∃ n, layout = .number n ∧ n.order = .bigEndian := by
  cases layout with
  | number n => simp [Layout.isBigEndian]
  | _ => simp [Layout.isBigEndian]

theorem Number.akin_turned (n : Number) : n.Akin n.turned := by
  cases n <;> exact ⟨rfl, rfl⟩

theorem Layout.akin_turned (layout : Layout) : layout.Akin False layout.turned := by
  cases layout with
  | number n => exact .number n.akin_turned False.elim
  | _ => exact .refl _

theorem Number.order_turned (n : Number) : n.turned.order = n.order.turned := by
  cases n <;> rfl

theorem Number.turned_of_ne {n : Number} (h : n.order ≠ .bigEndian) : n.turned = n := by
  have horder : n.order.turned = n.order := by
    cases hn : n.order <;> first | rfl | exact absurd hn h
  cases n <;> simp_all [Number.turned, Number.order]

theorem Number.encode_turned {n : Number} (h : n.order = .bigEndian) {a : Scalar}
    {word : List UInt8} (ha : n.encode a = .ok word) : n.turned.encode a = .ok word.reverse := by
  rw [n.encode_eq] at ha
  rw [n.turned.encode_eq, n.akin_turned.plainWord_eq, n.order_turned, h]
  cases hplain : n.plainWord a with
  | error e =>
      rw [hplain] at ha
      cases ha
  | ok plain =>
      rw [hplain, h] at ha
      cases ha
      exact congrArg Except.ok (List.reverse_reverse plain).symm

theorem Number.forall₂_encode_turned {n : Number} (h : n.order = .bigEndian) {taken : List Scalar}
    {words : List (List UInt8)}
    (hw : List.Forall₂ (fun a word => n.encode a = .ok word) taken words) :
    List.Forall₂ (fun a word => n.turned.encode a = .ok word) taken (words.map List.reverse) := by
  induction hw with
  | nil => exact .nil
  | cons ha _ ih => exact .cons (Number.encode_turned h ha) ih

/-! ## Reversed words -/

theorem length_reverseWords (width count : Nat) (bytes : List UInt8) :
    (reverseWords width count bytes).length = bytes.length := by
  induction count generalizing bytes with
  | zero => rfl
  | succ count ih =>
      rw [reverseWords, List.length_append, List.length_reverse, ih, ← List.length_append,
        List.take_append_drop]

theorem reverseWords_flatten {width : Nat} {words : List (List UInt8)}
    (h : ∀ word ∈ words, word.length = width) :
    reverseWords width words.length words.flatten = (words.map List.reverse).flatten := by
  induction words with
  | nil => rfl
  | cons word words ih =>
      obtain ⟨hword, hwords⟩ := List.forall_mem_cons.1 h
      rw [List.length_cons, reverseWords, List.flatten_cons, List.take_left' hword,
        List.drop_left' hword, ih hwords, List.map_cons, List.flatten_cons]

theorem getElem?_reverseWords {width count : Nat} {bytes : List UInt8}
    (h : bytes.length = count * width) {m b : Nat} (hm : m < count) (hb : b < width) :
    (reverseWords width count bytes)[m * width + b]? =
      bytes[m * width + (width - 1 - b)]? := by
  induction count generalizing bytes m with
  | zero => exact absurd hm (Nat.not_lt_zero m)
  | succ count ih =>
      rw [Nat.succ_mul] at h
      have hfirst : (bytes.take width).length = width := by
        rw [List.length_take]
        omega
      rw [reverseWords]
      cases m with
      | zero =>
          rw [Nat.zero_mul, Nat.zero_add, Nat.zero_add,
            List.getElem?_append_left (by rwa [List.length_reverse, hfirst]),
            List.getElem?_reverse (by rwa [hfirst]), hfirst,
            List.getElem?_take_of_lt (by omega)]
      | succ m =>
          have hrest : (bytes.drop width).length = count * width := by
            rw [List.length_drop]
            omega
          have hplace (i : Nat) : (m + 1) * width + i = width + (m * width + i) := by
            rw [Nat.succ_mul]
            omega
          rw [hplace, hplace,
            List.getElem?_append_right (by rw [List.length_reverse, hfirst]; omega),
            List.length_reverse, hfirst, Nat.add_sub_cancel_left,
            ih hrest (Nat.lt_of_succ_lt_succ hm), List.getElem?_drop]

/-! ## Turned steps -/

theorem Step.length_turnStored (s : Step) (stored : List UInt8) :
    (s.turnStored stored).length = stored.length := by
  unfold Step.turnStored
  split
  · exact length_reverseWords _ _ _
  · rfl

theorem Layout.turned_of_not_bigEndian {layout : Layout} (h : ¬ layout.isBigEndian = true) :
    layout.turned = layout := by
  cases layout with
  | number n =>
      have horder : n.order ≠ .bigEndian := fun horder =>
        h (Layout.isBigEndian_iff.2 ⟨n, rfl, horder⟩)
      rw [Layout.turned, Number.turned_of_ne horder]
  | _ => rfl

/-- What a step stores depends on its layout and its count. -/
theorem Step.Strikes.of_layout_eq {s t : Step} {pos : Nat} {args : List Scalar} {k : Stroke}
    (hk : s.Strikes pos args k) (hlayout : t.layout = s.layout) (hcount : t.count = s.count) :
    t.Strikes pos args k := by
  cases hk with
  | text hl => exact hcount ▸ .text (hlayout.trans hl)
  | hex hl => exact hcount ▸ .hex (hlayout.trans hl)
  | number hl hn hw => exact hcount ▸ .number (hlayout.trans hl) (hn.trans hcount.symm) hw
  | nulByte hl => exact hcount ▸ .nulByte (hlayout.trans hl)
  | backUp hl => exact hcount ▸ .backUp (hlayout.trans hl)
  | absolute hl => exact hcount ▸ .absolute (hlayout.trans hl)

/-- Big-endian numbers that are turned are stored with each word reversed. -/
theorem Step.Strikes.turned_number {s t : Step} {n : Number} (hl : s.layout = .number n)
    (horder : n.order = .bigEndian) (hlayout : t.layout = .number n.turned)
    (hcount : t.count = s.count) {pos : Nat} {args : List Scalar} {k : Stroke}
    (hk : s.Strikes pos args k) :
    t.Strikes pos args { k with stored := reverseWords n.width s.count k.stored } := by
  cases hk with
  | @number n' taken rest words hl' hn hw =>
      cases hl.symm.trans hl'
      have hwords : s.count = words.length := by rw [← hn, hw.length_eq]
      have hreversed := reverseWords_flatten (Number.length_of_mem_words hw)
      have hturned := Number.forall₂_encode_turned horder hw
      rw [← hwords] at hreversed
      rw [hreversed, ← hcount, ← n.akin_turned.width]
      exact .number hlayout (hn.trans hcount.symm) hturned
  | _ hl' => cases hl.symm.trans hl'

theorem Step.Strikes.turned {s t : Step} (h : s.Turned t) {pos : Nat} {args : List Scalar}
    {k : Stroke} (hk : s.Strikes pos args k) :
    t.Strikes pos args { k with stored := s.turnStored k.stored } := by
  obtain ⟨hlayout, hcount⟩ := h
  unfold Step.turnStored
  by_cases hbig : s.layout.isBigEndian = true
  · obtain ⟨n, hl, horder⟩ := Layout.isBigEndian_iff.1 hbig
    rw [if_pos hbig, hl, Layout.width]
    exact hk.turned_number hl horder (by rw [hlayout, hl, Layout.turned]) hcount
  · rw [Layout.turned_of_not_bigEndian hbig] at hlayout
    rw [if_neg hbig]
    exact hk.of_layout_eq hlayout hcount

theorem Layout.seeks_turned (layout : Layout) : layout.turned.seeks = layout.seeks := by
  cases layout <;> rfl

theorem seekFree_turned {steps others : List Step} (h : List.Forall₂ Step.Turned steps others)
    (hseek : ∀ s ∈ steps, s.layout.seeks = false) : ∀ t ∈ others, t.layout.seeks = false := by
  induction h with
  | nil => exact hseek
  | cons hs _ ih =>
      obtain ⟨hfirst, hrest⟩ := List.forall_mem_cons.1 hseek
      exact List.forall_mem_cons.2 ⟨by rw [hs.layout, Layout.seeks_turned, hfirst], ih hrest⟩

/-! ## Turned stores -/

theorem Lays.turned {steps others : List Step} (h : List.Forall₂ Step.Turned steps others)
    {pos : Nat} {args : List Scalar} {stores : List Store} (hlays : Lays steps pos args stores) :
    Lays others pos args (List.zipWith Step.turnStore steps stores) := by
  induction h generalizing pos args stores with
  | nil =>
      cases hlays
      exact .nil
  | cons hs _ ih =>
      cases hlays with
      | cons hk hrest => exact .cons (hk.turned hs) (ih hrest)

theorem fits_turned {steps : List Step} {stores : List Store} {size : Nat}
    (h : ∀ store ∈ stores, store.Fits size) :
    ∀ store ∈ List.zipWith Step.turnStore steps stores, store.Fits size := by
  intro store hstore
  obtain ⟨k, hk⟩ := List.getElem?_of_mem hstore
  obtain ⟨s, before, _, hbefore, rfl⟩ := List.getElem?_zipWith_eq_some.1 hk
  rw [Store.Fits, Step.turnStore, s.length_turnStored]
  exact h before (List.mem_of_getElem? hbefore)

/-- The store of the step at a place, where writing is before it. -/
theorem Lays.store_at {steps : List Step} {w m : Writer} {stores : List Store}
    (h : Lays steps w.pos w.unread stores) {k : Nat} {s : Step} (hs : steps[k]? = some s)
    (hrun : ((steps.take k).foldlM Step.write w).outcome = .ok m) :
    ∃ stroke, s.Strikes m.pos m.unread stroke ∧ stores[k]? = some ⟨m.pos, stroke.stored⟩ := by
  obtain ⟨hk, hget⟩ := List.getElem?_eq_some_iff.1 hs
  rw [← List.take_append_drop k steps] at h
  have hrest := Lays.of_append h hrun
  rw [List.length_take, Nat.min_eq_left (Nat.le_of_lt hk), List.drop_eq_getElem_cons hk, hget]
    at hrest
  have hstores : stores[k]? = (stores.drop k)[0]? := by rw [List.getElem?_drop, Nat.add_zero]
  rw [hstores]
  generalize stores.drop k = later at hrest
  cases hrest with
  | cons hk _ => exact ⟨_, hk, rfl⟩

theorem Store.byte?_eq_none {store : Store} {i : Nat}
    (h : ¬ (store.pos ≤ i ∧ i < store.pos + store.bytes.length)) : store.byte? i = none := by
  unfold Store.byte?
  split
  · exact List.getElem?_eq_none (by omega)
  · rfl

theorem Step.byte?_turnStore (s : Step) (store : Store) {i : Nat}
    (houtside : s.layout.isBigEndian = true →
      ¬ (store.pos ≤ i ∧ i < store.pos + store.bytes.length)) :
    (s.turnStore store).byte? i = store.byte? i := by
  cases hbig : s.layout.isBigEndian with
  | true =>
      have hout := houtside hbig
      rw [Store.byte?_eq_none hout, Store.byte?_eq_none]
      rwa [Step.turnStore, s.length_turnStored]
  | false => rw [Step.turnStore, Step.turnStored, hbig, if_neg Bool.false_ne_true]

/-- Where no word is turned, the last store gives the byte that it gave. -/
theorem lastStored?_turned {steps : List Step} {pos : Nat} {args : List Scalar}
    {stores : List Store} (h : Lays steps pos args stores) {i : Nat}
    (houtside : ∀ (k : Nat) (s : Step) (store : Store), steps[k]? = some s →
      stores[k]? = some store → s.layout.isBigEndian = true →
      ¬ (store.pos ≤ i ∧ i < store.pos + store.bytes.length)) :
    lastStored? (List.zipWith Step.turnStore steps stores) i = lastStored? stores i := by
  induction h with
  | nil => rfl
  | @cons s rest pos args k stores _ _ ih =>
      have hrest := ih fun j t store ht hstore => houtside (j + 1) t store ht hstore
      have hfirst := s.byte?_turnStore ⟨pos, k.stored⟩ (houtside 0 s _ rfl rfl)
      rw [List.zipWith_cons_cons, lastStored?, lastStored?, hrest, hfirst]

/-! ## Stores of steps that do not seek -/

theorem Lays.pos_le {steps : List Step} (hseek : ∀ s ∈ steps, s.layout.seeks = false) {pos : Nat}
    {args : List Scalar} {stores : List Store} (h : Lays steps pos args stores) :
    ∀ store ∈ stores, pos ≤ store.pos := by
  induction h with
  | nil => exact fun _ hstore => absurd hstore List.not_mem_nil
  | cons hk _ ih =>
      obtain ⟨hs, hseek⟩ := List.forall_mem_cons.1 hseek
      have hnext := hk.next_of_not_seeks hs
      refine List.forall_mem_cons.2 ⟨Nat.le_refl _, fun store hstore => ?_⟩
      have := ih hseek store hstore
      omega

theorem lastStored?_eq_none {stores : List Store} {i : Nat} (h : ∀ store ∈ stores, i < store.pos) :
    lastStored? stores i = none := by
  induction stores with
  | nil => rfl
  | cons store stores ih =>
      obtain ⟨hfirst, hrest⟩ := List.forall_mem_cons.1 h
      rw [lastStored?, ih hrest, Store.byte?, if_neg (Nat.not_le.2 hfirst), Option.none_or]

/-- No later store covers a store of steps that do not seek. -/
theorem Lays.lastStored?_eq {steps : List Step} (hseek : ∀ s ∈ steps, s.layout.seeks = false)
    {pos : Nat} {args : List Scalar} {stores : List Store} (h : Lays steps pos args stores) {k : Nat}
    {store : Store} (hstore : stores[k]? = some store) {i : Nat} (hlow : store.pos ≤ i)
    (hhigh : i < store.pos + store.bytes.length) :
    lastStored? stores i = store.byte? i := by
  induction h generalizing k with
  | nil => cases hstore
  | @cons s rest pos args stroke stores hk hrest ih =>
      obtain ⟨hs, hseek⟩ := List.forall_mem_cons.1 hseek
      cases k with
      | succ k =>
          have hlater := ih hseek hstore
          have hbyte : (store.byte? i).isSome := by
            rw [Store.byte?, if_pos hlow, List.getElem?_eq_getElem (by omega)]
            rfl
          rw [lastStored?, hlater, Option.or_of_isSome hbyte]
      | zero =>
          cases hstore
          have hnext := hk.next_of_not_seeks hs
          have hnone : lastStored? stores i = none := by
            refine lastStored?_eq_none fun later hlater => ?_
            have := hrest.pos_le hseek later hlater
            simp only at hhigh
            omega
          rw [lastStored?, hnone, Option.none_or]

theorem word_le {length count width m : Nat} (h : length = count * width) (hm : m < count) :
    m * width + width ≤ length := by
  rw [h, ← Nat.succ_mul]
  exact Nat.mul_le_mul_right width hm

theorem Store.byte?_add (store : Store) (i : Nat) : store.byte? (store.pos + i) = store.bytes[i]? := by
  rw [Store.byte?, if_pos (Nat.le_add_right _ _), Nat.add_sub_cancel_left]

/-- A byte of a word that is turned is the one across from it. -/
theorem Lays.lastStored?_turned_word {steps others : List Step}
    (hturned : List.Forall₂ Step.Turned steps others)
    (hseek : ∀ s ∈ steps, s.layout.seeks = false) {pos : Nat} {args : List Scalar}
    {stores : List Store} (hlays : Lays steps pos args stores) {k : Nat} {s : Step} {store : Store}
    (hs : steps[k]? = some s) (hstore : stores[k]? = some store)
    (hbig : s.layout.isBigEndian = true)
    (hlen : store.bytes.length = s.count * s.layout.width) {m b : Nat} (hm : m < s.count)
    (hb : b < s.layout.width) :
    lastStored? (List.zipWith Step.turnStore steps stores)
        (store.pos + (m * s.layout.width + b)) =
      lastStored? stores (store.pos + (m * s.layout.width + (s.layout.width - 1 - b))) := by
  have hword := word_le hlen hm
  have hturn : (List.zipWith Step.turnStore steps stores)[k]? = some (s.turnStore store) :=
    List.getElem?_zipWith_eq_some.2 ⟨s, store, hs, hstore, rfl⟩
  have hafter := (hlays.turned hturned).lastStored?_eq (seekFree_turned hturned hseek) hturn
    (i := store.pos + (m * s.layout.width + b)) (Nat.le_add_right _ _)
    (by simp only [Step.turnStore, s.length_turnStored]; omega)
  have hbefore := hlays.lastStored?_eq hseek hstore
    (i := store.pos + (m * s.layout.width + (s.layout.width - 1 - b))) (Nat.le_add_right _ _)
    (by omega)
  rw [hafter, hbefore, store.byte?_add, Step.turnStore, Store.byte?_add, Step.turnStored, if_pos hbig,
    getElem?_reverseWords hlen hm hb]

end BytePack
