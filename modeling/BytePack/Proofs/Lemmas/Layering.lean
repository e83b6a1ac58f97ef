import BytePack.Config.Library
import Mathlib.Data.List.Nodup

/-!
# Settings in layers

What the laws of a library say of the layers that the codec builds: a malformed file leaves nothing
of them, and else each name has the value of the strongest source that gives one, put over what the
weaker ones give. A source without a value for a name does not count for it, and the defaults can be
left out, because a field that is not set is read as its default.
-/

namespace BytePack.Config

/-! ## Fields -/

section
variable {Value α : Type} {read : Value → Option α} {otherwise a : α}

end

/-! ## A value under each name -/

namespace Library

variable {lib : Library}

/-- Whether a file exists and is malformed. -/
def Malformed (lib : Library) (kind : FileSyntax) (file : Option String) : Prop :=
  ∃ text ∈ file, lib.settings? (lib.ofFile kind (some text)) = none

theorem Malformed.settings {kind : FileSyntax} {file : Option String}
    (h : lib.Malformed kind file) : lib.settings? (lib.ofFile kind file) = none := by
  obtain ⟨text, rfl, hnone⟩ := h
  exact hnone

end Library

end BytePack.Config
