import BytePack.Config
import BytePack.Proofs.Lemmas.Readers

/-!
# Loading field by field

The environment is over the YAML file, that one over the TOML file, and each field is taken on its
own from the strongest of them that sets it. Files are checked by themselves, but settings only
where they count, and the limit only in the result.
-/

namespace BytePack.Config

namespace Library

variable {lib : Library} {toml yaml : Option String} {vars : List (String × String)}

end Library

end BytePack.Config
