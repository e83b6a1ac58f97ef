import BytePack.Proofs.Lemmas.Supply
import BytePack.Proofs.OutputSize

/-!
# Arguments recast

Another argument in the place of one is not told from it by a format without floating-point numbers,
as long as the two stand for the same bytes and for the same integer, or the same error. The lengths
that `*` looks at are equal then, and so is what a step stores, reports and leaves; what is left over
is the rest of the arguments, recast in the same way.
-/

namespace BytePack

/-- Whether what becomes of every argument stands for the same bytes and the same integer. -/
structure Recasts (f : Scalar → Scalar) : Prop where
  toBytes_eq : ∀ a, (f a).toBytes = a.toBytes
  toInteger_eq : ∀ a, (f a).toInteger = a.toInteger

/-! ## Layouts -/

def Number.isFloat : Number → Bool
  | .integer .. => false
  | .single _ => true
  | .double _ => true

def Layout.storesFloats : Layout → Bool
  | .number format => format.isFloat
  | _ => false

/-- The codes of floating-point numbers. -/
def floatSymbols : List Char := ['f', 'g', 'G', 'd', 'e', 'E']

theorem Code.symbol_of_storesFloats {code : Code} (h : code ∈ codes)
    (hfloats : code.layout.storesFloats = true) : code.symbol ∈ floatSymbols := by
  have hall : ∀ code ∈ codes, code.layout.storesFloats = true → code.symbol ∈ floatSymbols := by
    decide
  exact hall code h hfloats

theorem parseFormat_floatFree {format : String} {ds : List Directive}
    (h : parseFormat format = .ok ds) (hfree : ∀ c ∈ floatSymbols, c ∉ format.toList) :
    ∀ d ∈ ds, d.layout.storesFloats = false := by
  intro d hd
  obtain ⟨hmem, hsymbol⟩ := parseFormat_code_mem h d hd
  exact Bool.eq_false_iff.2 fun hfloats =>
    hfree _ (Code.symbol_of_storesFloats hmem hfloats) hsymbol

/-! ## Steps -/

def Stroke.recast (f : Scalar → Scalar) (stroke : Stroke) : Stroke :=
  { stroke with unread := stroke.unread.map f }

def Writer.recast (f : Scalar → Scalar) (w : Writer) : Writer :=
  { w with unread := w.unread.map f }

section
variable {f : Scalar → Scalar} (hf : Recasts f)
include hf

theorem Number.encode_recast {number : Number} (hnumber : number.isFloat = false) (a : Scalar) :
    number.encode (f a) = number.encode a := by
  cases number with
  | integer width order signed => rw [Number.encode, Number.encode, hf.toInteger_eq]
  | single | double => cases hnumber

theorem Number.encodeRun_recast {number : Number} (hnumber : number.isFloat = false)
    (symbol : Char) (n : Nat) (args : List Scalar) :
    number.encodeRun symbol n (args.map f) =
      (number.encodeRun symbol n args).map fun found => (found.1, found.2.map f) := by
  induction n generalizing args with
  | zero => rfl
  | succ n ih =>
      cases args with
      | nil => rfl
      | cons a args =>
          rw [List.map_cons, Number.encodeRun, Number.encodeRun, ih,
            Number.encode_recast hf hnumber]
          cases number.encode a with
          | error e => rfl
          | ok word => cases number.encodeRun symbol n args <;> rfl

theorem Step.stroke_recast {s : Step} (hs : s.layout.storesFloats = false) (pos : Nat)
    (args : List Scalar) :
    s.stroke pos (args.map f) = Stroke.recast f <$> s.stroke pos args := by
  unfold Step.stroke
  -- texts and digits look at the bytes of an argument, numbers at its integer
  cases hl : s.layout with
  | text padding =>
      cases args with
      | nil => rfl
      | cons a rest =>
          simp only [List.map_cons, hf.toBytes_eq]
          rfl
  | hex order =>
      cases args with
      | nil => rfl
      | cons a rest =>
          simp only [List.map_cons, hf.toBytes_eq, Reported.map_eq]
          rfl
  | number format =>
      rw [hl] at hs
      simp only [format.encodeRun_recast hf hs]
      cases format.encodeRun s.symbol s.count args <;> rfl
  | nulByte => rfl
  | backUp => rfl
  | absolute => rfl

theorem Step.write_recast {s : Step} (hs : s.layout.storesFloats = false) (w : Writer) :
    Step.write (w.recast f) s = Writer.recast f <$> Step.write w s := by
  unfold Step.write Writer.recast
  rw [Step.stroke_recast hf hs, bind_map_left, map_bind]
  rfl

theorem writer_run_recast {steps : List Step} (h : ∀ s ∈ steps, s.layout.storesFloats = false)
    (w : Writer) :
    steps.foldlM Step.write (w.recast f) = Writer.recast f <$> steps.foldlM Step.write w := by
  induction steps generalizing w with
  | nil => rfl
  | cons s rest ih =>
      obtain ⟨hs, hrest⟩ := List.forall_mem_cons.1 h
      rw [List.foldlM_cons, List.foldlM_cons, Step.write_recast hf hs, bind_map_left, map_bind]
      exact Reported.bind_congr_ok fun m _ => ih hrest m

/-! ## Plans -/

theorem Plan.write_recast {plan : Plan} (h : ∀ s ∈ plan.steps, s.layout.storesFloats = false)
    (room : Nat) (args : List Scalar) : plan.write room (args.map f) = plan.write room args := by
  unfold Plan.write
  split
  · rfl
  · have hrun : writeSteps plan.steps plan.size (args.map f) =
        Writer.recast f <$> writeSteps plan.steps plan.size args :=
      writer_run_recast hf h ⟨List.replicate plan.size 0, 0, args⟩
    rw [hrun, bind_map_left]
    rfl

theorem Plan.build_recast (ds : List Directive) (args : List Scalar) :
    Plan.build ds (args.map f) = Plan.build ds args := by
  -- a plan depends on the arguments only by their lengths
  have hsizes : SameSizes ds args (args.map f) := by
    refine ⟨(List.length_map f).symm, fun place a a' _ ha ha' => ?_⟩
    rw [List.getElem?_map, ha] at ha'
    cases ha'
    rw [hf.toBytes_eq]
  exact hsizes.build_eq.symm

/-- A format without floating-point numbers packs recast arguments as it packs the arguments. -/
theorem packFormat_recast {format : String} (hfree : ∀ c ∈ floatSymbols, c ∉ format.toList)
    (room : Nat) (args : List Scalar) :
    packFormat room format (args.map f) = packFormat room format args := by
  cases hparse : parseFormat format with
  | error e => rw [packFormat_of_error hparse, packFormat_of_error hparse]
  | ok ds =>
      rw [packFormat_of_parse hparse, packFormat_of_parse hparse, packDirectives, packDirectives,
        Plan.build_recast hf]
      refine Reported.bind_congr_ok fun plan hplan => Plan.write_recast hf (fun s hs => ?_) room args
      obtain ⟨-, e, -, rfl⟩ := Plan.build_eq_ok_settle.1 hplan
      exact parseFormat_floatFree hparse hfree _ (settle_directive_mem hs)

end

end BytePack
