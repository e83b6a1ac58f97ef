import BytePack.Proofs.Lemmas.InPlace
import BytePack.Proofs.Lemmas.Reports

/-!
# The last store wins

Writing goes over the output with a cursor that also moves back, so a byte may be stored many times.
The rules of the steps alone tell which bytes each step stores and where. Every byte of the output
is the one that the last step to cover it stored, and 0 where no step stored anything; what was in
the output before does not matter.
-/

namespace BytePack

/-! ## Stores -/

/-- Some bytes stored from a position on. -/
structure Store where
  pos : Nat
  bytes : List UInt8
  deriving DecidableEq, Repr

/-- The byte stored at a position. -/
def Store.byte? (store : Store) (i : Nat) : Option UInt8 :=
  if store.pos ≤ i then store.bytes[i - store.pos]? else none

/-- The byte at a position after the last store that covers it. -/
def lastStored? : List Store → Nat → Option UInt8
  | [], _ => none
  | store :: later, i => (lastStored? later i).or (store.byte? i)

theorem lastStored?_append (before after : List Store) (i : Nat) :
    lastStored? (before ++ after) i = (lastStored? after i).or (lastStored? before i) := by
  induction before with
  | nil => simp [lastStored?]
  | cons store before ih => rw [List.cons_append, lastStored?, lastStored?, ih, Option.or_assoc]

/-- What steps store, one after the other, from a cursor on. -/
inductive Lays : List Step → Nat → List Scalar → List Store → Prop where
  | nil {pos : Nat} {args : List Scalar} : Lays [] pos args []
  | cons {s : Step} {rest : List Step} {pos : Nat} {args : List Scalar} {k : Stroke}
      {stores : List Store} (hk : s.Strikes pos args k) (hrest : Lays rest k.next k.unread stores) :
      Lays (s :: rest) pos args (⟨pos, k.stored⟩ :: stores)

/-- A store with room for it in an output. -/
def Store.Fits (store : Store) (size : Nat) : Prop := store.pos + store.bytes.length ≤ size

theorem getElem?_overlay_store {store : Store} {output : List UInt8}
    (h : store.Fits output.length) (i : Nat) :
    (overlay output store.pos store.bytes)[i]? = (store.byte? i).or output[i]? := by
  rw [getElem?_overlay h, Store.byte?]
  by_cases hlow : store.pos ≤ i
  · by_cases hhigh : i < store.pos + store.bytes.length
    · rw [if_pos ⟨hlow, hhigh⟩, if_pos hlow, List.getElem?_eq_getElem (by omega), Option.some_or]
    · have hnone : store.bytes[i - store.pos]? = none := List.getElem?_eq_none (by omega)
      rw [if_neg (by omega), if_pos hlow, hnone, Option.none_or]
  · rw [if_neg (by omega), if_neg hlow, Option.none_or]

/-! ## Runs -/

theorem writer_run_lays {steps : List Step} {e e' : Extent} {w w' : Writer} (he : e.Sound)
    (hsize : (steps.foldlM Step.extend e).outcome = .ok e')
    (hwrite : (steps.foldlM Step.write w).outcome = .ok w') (hpos : w.pos ≤ e.pos) :
    ∃ stores, Lays steps w.pos w.unread stores ∧ ∀ store ∈ stores, store.Fits e'.size := by
  induction steps generalizing e w with
  | nil => exact ⟨[], .nil, by simp⟩
  | cons s rest ih =>
      have hs := extent_run_cons he hsize
      obtain ⟨k, hk, _, hrest⟩ := writer_run_cons hwrite
      obtain ⟨hnext, hend⟩ := hk.behind hs hpos
      obtain ⟨stores, hlays, hfits⟩ := ih hs.sound hs.run_rest hrest hnext
      exact ⟨⟨w.pos, k.stored⟩ :: stores, .cons hk hlays, List.forall_mem_cons.2 ⟨hend, hfits⟩⟩

/-- Where steps store something, writing them gives the last store, whatever the output was. -/
theorem Lays.run {steps : List Step} {pos : Nat} {args : List Scalar} {stores : List Store}
    (h : Lays steps pos args stores) (output : List UInt8)
    (hfits : ∀ store ∈ stores, store.Fits output.length) :
    ∃ w, (steps.foldlM Step.write ⟨output, pos, args⟩).outcome = .ok w ∧
      ∀ i, w.output[i]? = (lastStored? stores i).or output[i]? := by
  induction h generalizing output with
  | nil => exact ⟨_, rfl, fun i => by rw [lastStored?, Option.none_or]⟩
  | @cons s rest pos args k stores hk _ ih =>
      obtain ⟨hfit, hfits⟩ := List.forall_mem_cons.1 hfits
      have hlen : (overlay output pos k.stored).length = output.length := length_overlay hfit
      obtain ⟨w, hw, hbytes⟩ := ih (overlay output pos k.stored) (by rwa [hlen])
      refine ⟨w, Reported.run_cons_eq_ok.2 ⟨_, Step.write_eq_ok.2 ⟨k, hk, rfl⟩, hw⟩, fun i => ?_⟩
      have hover := getElem?_overlay_store hfit i
      simp only at hover
      rw [hbytes, hover, lastStored?, Option.or_assoc]

/-- The rules leave no choice of what a run stores. -/
theorem Lays.of_append {before after : List Step} {w m : Writer} {stores : List Store}
    (h : Lays (before ++ after) w.pos w.unread stores)
    (hrun : (before.foldlM Step.write w).outcome = .ok m) :
    Lays after m.pos m.unread (stores.drop before.length) := by
  induction before generalizing w stores with
  | nil =>
      rw [Reported.run_nil_eq_ok] at hrun
      subst hrun
      exact h
  | cons s before ih =>
      obtain ⟨k, hk, _, hrun⟩ := writer_run_cons hrun
      cases h with
      | @cons _ _ _ _ k' stores hk' hrest =>
          have hsame : k' = k :=
            Except.ok.inj ((Step.stroke_eq_ok.2 hk').symm.trans (Step.stroke_eq_ok.2 hk))
          subst hsame
          exact ih hrest hrun

/-! ## Packing -/

/-- Every byte of the output is what the last step that covers it stored, and 0 where none does.
From any step on, and also where the bytes are stored piece by piece, the bytes that are covered do
not depend on what was in the output before. -/
theorem pack_last_store_wins {room : Nat} {directives : List Directive} {args : List Scalar}
    {bytes : List UInt8} (hpack : (packDirectives room directives args).outcome = .ok bytes) :
    ∃ plan stores, (Plan.build directives args).outcome = .ok plan ∧
      Lays plan.steps 0 args stores ∧ bytes.length = plan.size ∧
      (∀ i < plan.size, bytes[i]? = some ((lastStored? stores i).getD 0)) ∧
      ∀ before after w junk, plan.steps = before ++ after →
        (writeSteps before plan.size args).outcome = .ok w → junk.length = plan.size →
        ∃ written w', writeStepsInPlace after ⟨junk, w.pos, w.unread⟩ = some written ∧
          written.outcome = .ok w' ∧
          ∀ i, (lastStored? (stores.drop before.length) i).isSome → w'.output[i]? = bytes[i]? := by
  obtain ⟨plan, hbuild, _⟩ := packDirectives_eq_ok.1 hpack
  obtain ⟨e, w, hmeasure, hsize, hwrite, rfl, hlen⟩ := packDirectives_passes hbuild hpack
  obtain ⟨stores, hlays, hfits⟩ :=
    writer_run_lays Extent.start_sound hmeasure hwrite (Nat.le_refl 0)
  rw [hsize] at hfits
  obtain ⟨w', hw', hbytes⟩ := hlays.run (List.replicate plan.size 0)
    (by rwa [List.length_replicate])
  cases (Except.ok.inj (hwrite.symm.trans hw'))
  refine ⟨plan, stores, hbuild, hlays, hlen, fun i hi => ?_, ?_⟩
  · rw [hbytes, List.getElem?_replicate, if_pos hi]
    cases lastStored? stores i <;> rfl
  · intro before after m junk hsplit hbefore hjunk
    obtain ⟨e₁, e₂, he₁, hsound, hle, he₂, hsize₂⟩ := Plan.measure_append hbuild hsplit
    have hbehind := (writeSteps_behind he₁ hbefore hle).1
    have hchecked := writeStepsInPlace_eq (w := ⟨junk, m.pos, m.unread⟩) hsound he₂ hbehind
      (Nat.le_of_eq (hsize₂.trans hjunk.symm)) (hjunk ▸ Plan.size_le_maxPosition hbuild)
    -- whatever the run before did, the other steps store at the same places
    have hafter : Lays after m.pos m.unread (stores.drop before.length) := by
      rw [hsplit] at hlays
      exact Lays.of_append hlays hbefore
    obtain ⟨v, hv, hjunked⟩ := hafter.run junk fun store hstore =>
      hjunk ▸ hfits store (List.mem_of_mem_drop hstore)
    refine ⟨_, v, hchecked, hv, fun i hi => ?_⟩
    obtain ⟨b, hb⟩ := Option.isSome_iff_exists.1 hi
    rw [hjunked, hbytes, hb, ← List.take_append_drop before.length stores, lastStored?_append, hb]
    rfl

/-- A digit stored over the second byte of a text. -/
theorem pack_last_store_wins_over_text :
    ∃ plan stores,
      (Plan.build [⟨⟨'A', .text .space⟩, .count 4, 0⟩, ⟨⟨'X', .backUp⟩, .count 3, 2⟩,
        ⟨⟨'H', .hex .highFirst⟩, .count 1, 4⟩] [.text "abc", .text "f"]).outcome = .ok plan ∧
      Lays plan.steps 0 [.text "abc", .text "f"] stores ∧
      ∀ i < 4, [0x61, 0xF0, 0x63, 0x20][i]? = some ((lastStored? stores i).getD 0) := by
  have hpack : (packDirectives 4 [⟨⟨'A', .text .space⟩, .count 4, 0⟩, ⟨⟨'X', .backUp⟩, .count 3, 2⟩,
      ⟨⟨'H', .hex .highFirst⟩, .count 1, 4⟩] [.text "abc", .text "f"]).outcome =
      .ok [0x61, 0xF0, 0x63, 0x20] := by decide +kernel
  obtain ⟨plan, stores, hbuild, hlays, hlen, hbytes, _⟩ := pack_last_store_wins hpack
  exact ⟨plan, stores, hbuild, hlays, fun i hi => hbytes i (hlen ▸ hi)⟩

end BytePack
