import FaustLens.Unicode.Letter
import FaustLens.Unicode.Mark
import FaustLens.Unicode.Number
import FaustLens.Unicode.Punctuation
import FaustLens.Unicode.Symbol
import FaustLens.Unicode.Separator

/-!
# General categories

Every code point has exactly one general category in Unicode 17. `GeneralCategory.ofChar` finds it
in the range tables of the categories, a code point in none of them being unassigned.
`GeneralCategory.named` gives the set of categories that a property name stands for, as in `Lu`,
`Letter` or `Punctuation`; names are compared loosely, ignoring case, spaces, hyphens and
underscores (`looseName`).
-/

namespace FaustLens.Unicode

/-- The general categories of scalar values. -/
inductive GeneralCategory
  | uppercaseLetter | lowercaseLetter | titlecaseLetter | modifierLetter | otherLetter
  | nonspacingMark | spacingMark | enclosingMark
  | decimalNumber | letterNumber | otherNumber
  | connectorPunctuation | dashPunctuation | openPunctuation | closePunctuation
  | initialPunctuation | finalPunctuation | otherPunctuation
  | mathSymbol | currencySymbol | modifierSymbol | otherSymbol
  | spaceSeparator | lineSeparator | paragraphSeparator
  | control | format | surrogate | privateUse | unassigned
deriving DecidableEq, Repr, Inhabited

namespace GeneralCategory

/-- The categories that have a table, each with its table. -/
def tables : List (GeneralCategory × RangeTable) :=
  [(uppercaseLetter, Unicode.uppercaseLetter), (lowercaseLetter, Unicode.lowercaseLetter),
   (titlecaseLetter, Unicode.titlecaseLetter), (modifierLetter, Unicode.modifierLetter),
   (otherLetter, Unicode.otherLetter), (nonspacingMark, Unicode.nonspacingMark),
   (spacingMark, Unicode.spacingMark), (enclosingMark, Unicode.enclosingMark),
   (decimalNumber, Unicode.decimalNumber), (letterNumber, Unicode.letterNumber),
   (otherNumber, Unicode.otherNumber), (connectorPunctuation, Unicode.connectorPunctuation),
   (dashPunctuation, Unicode.dashPunctuation), (openPunctuation, Unicode.openPunctuation),
   (closePunctuation, Unicode.closePunctuation), (initialPunctuation, Unicode.initialPunctuation),
   (finalPunctuation, Unicode.finalPunctuation), (otherPunctuation, Unicode.otherPunctuation),
   (mathSymbol, Unicode.mathSymbol), (currencySymbol, Unicode.currencySymbol),
   (modifierSymbol, Unicode.modifierSymbol), (otherSymbol, Unicode.otherSymbol),
   (spaceSeparator, Unicode.spaceSeparator), (lineSeparator, Unicode.lineSeparator),
   (paragraphSeparator, Unicode.paragraphSeparator), (control, Unicode.control),
   (format, Unicode.format), (privateUse, Unicode.privateUse)]

/-- The general category of a character. -/
def ofChar (c : Char) : GeneralCategory :=
  match tables.find? (·.2.contains c.toNat) with
  | some (g, _) => g
  | none => unassigned

/-- The letters. -/
def letters : List GeneralCategory :=
  [uppercaseLetter, lowercaseLetter, titlecaseLetter, modifierLetter, otherLetter]

/-- The combining marks. -/
def marks : List GeneralCategory := [nonspacingMark, spacingMark, enclosingMark]

/-- The numbers. -/
def numbers : List GeneralCategory := [decimalNumber, letterNumber, otherNumber]

/-- The punctuation characters. -/
def punctuation : List GeneralCategory :=
  [connectorPunctuation, dashPunctuation, openPunctuation, closePunctuation, initialPunctuation,
   finalPunctuation, otherPunctuation]

/-- The symbols. -/
def symbols : List GeneralCategory := [mathSymbol, currencySymbol, modifierSymbol, otherSymbol]

/-- The separators. -/
def separators : List GeneralCategory := [spaceSeparator, lineSeparator, paragraphSeparator]

/-- Controls, format characters, and code points without an assigned character. -/
def others : List GeneralCategory := [control, format, surrogate, privateUse, unassigned]

/-- Every category. -/
def all : List GeneralCategory :=
  letters ++ marks ++ numbers ++ punctuation ++ symbols ++ separators ++ others

/-- Every category of an assigned character. -/
def assigned : List GeneralCategory := all.filter (· != unassigned)

/-- A property name without a leading `is`, spaces, hyphens and underscores, in lower case. -/
def looseName (name : List Char) : String :=
  let (stripped, name) :=
    match name with
    | i :: s :: rest =>
      if i.toLower = 'i' ∧ s.toLower = 's' then (true, rest) else (false, name)
    | _ => (false, name)
  let plain := (name.filter fun c => !(c == ' ' || c == '-' || c == '_') && c.toNat < 128).map
    Char.toLower
  if stripped ∧ plain = ['c'] then "isc" else String.ofList plain

/-- The loose names, short and long, with the categories each stands for. -/
def names : List (List String × List GeneralCategory) :=
  [(["lu", "uppercaseletter"], [uppercaseLetter]), (["ll", "lowercaseletter"], [lowercaseLetter]),
   (["lt", "titlecaseletter"], [titlecaseLetter]), (["lm", "modifierletter"], [modifierLetter]),
   (["lo", "otherletter"], [otherLetter]),
   (["lc", "casedletter"], [uppercaseLetter, lowercaseLetter, titlecaseLetter]),
   (["l", "letter"], letters),
   (["mn", "nonspacingmark"], [nonspacingMark]), (["mc", "spacingmark"], [spacingMark]),
   (["me", "enclosingmark"], [enclosingMark]), (["m", "mark", "combiningmark"], marks),
   (["nd", "decimalnumber", "digit"], [decimalNumber]), (["nl", "letternumber"], [letterNumber]),
   (["no", "othernumber"], [otherNumber]), (["n", "number"], numbers),
   (["pc", "connectorpunctuation"], [connectorPunctuation]),
   (["pd", "dashpunctuation"], [dashPunctuation]), (["ps", "openpunctuation"], [openPunctuation]),
   (["pe", "closepunctuation"], [closePunctuation]),
   (["pi", "initialpunctuation"], [initialPunctuation]),
   (["pf", "finalpunctuation"], [finalPunctuation]),
   (["po", "otherpunctuation"], [otherPunctuation]), (["p", "punctuation", "punct"], punctuation),
   (["sm", "mathsymbol"], [mathSymbol]), (["sc", "currencysymbol"], [currencySymbol]),
   (["sk", "modifiersymbol"], [modifierSymbol]), (["so", "othersymbol"], [otherSymbol]),
   (["s", "symbol"], symbols),
   (["zs", "spaceseparator"], [spaceSeparator]), (["zl", "lineseparator"], [lineSeparator]),
   (["zp", "paragraphseparator"], [paragraphSeparator]), (["z", "separator"], separators),
   (["cc", "control", "cntrl"], [control]), (["cf", "format"], [format]),
   (["co", "privateuse"], [privateUse]),
   (["cn", "unassigned"], [unassigned]), (["c", "other"], others),
   (["any"], all), (["assigned"], assigned)]

/-- The categories that a loose name stands for, if it is a name of categories. -/
def named (name : String) : Option (List GeneralCategory) :=
  (names.find? (·.1.contains name)).map (·.2)

end GeneralCategory

end FaustLens.Unicode
