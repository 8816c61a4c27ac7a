import FaustLens.Pattern.CharSet
import FaustLens.Unicode.Casing
import FaustLens.Unicode.Emoji
import FaustLens.Unicode.Identifier
import FaustLens.Unicode.Script
import FaustLens.Unicode.Writing

/-!
# Properties by name

Stands for the classes `\p` of the library `regex`, without those that tell the age of a character
and where graphemes, words and sentences break.

A pattern may name a set of characters by a property: a general category, a script, or a property
that a character has or lacks. `CharSet.named?` gives the set of a name that stands alone, and
`CharSet.valued?` that of a name with a value, as in `sc=Greek`. Names are compared loosely.

Most properties are general categories with a few more characters, which come from the tables of
`FaustLens.Unicode`.
-/

namespace FaustLens

namespace CharSet

open Unicode (GeneralCategory Script)

/-! ## Properties that a character has or lacks -/

/-- Lowercase letters and the like. -/
def lowercase : CharSet := union (categories [.lowercaseLetter]) (table Unicode.otherLowercase)

/-- Uppercase letters and the like. -/
def uppercase : CharSet := union (categories [.uppercaseLetter]) (table Unicode.otherUppercase)

/-- Characters that case mappings skip. -/
def caseIgnorable : CharSet :=
  union (categories [.nonspacingMark, .enclosingMark, .format, .modifierLetter, .modifierSymbol])
    (table Unicode.otherCaseIgnorable)

/-- Characters that titlecasing changes. -/
def changesWhenTitlecased : CharSet :=
  union (diff (table Unicode.changesWhenUppercased) (table Unicode.uppercasedOnly))
    (table Unicode.titlecasedOnly)

/-- Characters that case folding changes. -/
def changesWhenCasefolded : CharSet :=
  union (diff (table Unicode.changesWhenLowercased) (table Unicode.lowercasedOnly))
    (table Unicode.casefoldedOnly)

/-- Characters that extend the grapheme before them. -/
def graphemeExtend : CharSet :=
  union (categories [.nonspacingMark, .enclosingMark]) (table Unicode.otherGraphemeExtend)

/-- Characters that begin a grapheme of their own. -/
def graphemeBase : CharSet :=
  compl (union graphemeExtend
    (categories (.lineSeparator :: .paragraphSeparator :: GeneralCategory.others)))

/-- Characters that may begin an identifier. -/
def idStart : CharSet :=
  union (diff (categories (.letterNumber :: GeneralCategory.letters)) (table Unicode.patternSyntax))
    (table Unicode.otherIdStart)

/-- Characters that may continue an identifier. -/
def idContinue : CharSet :=
  union idStart (union
    (categories [.nonspacingMark, .spacingMark, .decimalNumber, .connectorPunctuation])
    (table Unicode.otherIdContinue))

/-- The properties that a character has or lacks, with their loose names. -/
def traits : List (List String × CharSet) :=
  [(["alphabetic", "alpha"], alphabetic),
   (["asciihexdigit", "ahex"], union asciiDigit (union (range 'A' 'F') (range 'a' 'f'))),
   (["bidicontrol", "bidic"], table Unicode.bidiControl),
   (["bidimirrored", "bidim"], table Unicode.bidiMirrored),
   (["caseignorable", "ci"], caseIgnorable),
   (["cased"], union (categories [.titlecaseLetter]) (union lowercase uppercase)),
   (["changeswhencasefolded", "cwcf"], changesWhenCasefolded),
   (["changeswhencasemapped", "cwcm"],
    union (table Unicode.changesWhenLowercased)
      (union (table Unicode.changesWhenUppercased) (table Unicode.titlecasedOnly))),
   (["changeswhenlowercased", "cwl"], table Unicode.changesWhenLowercased),
   (["changeswhentitlecased", "cwt"], changesWhenTitlecased),
   (["changeswhenuppercased", "cwu"], table Unicode.changesWhenUppercased),
   (["dash"], table Unicode.dash),
   (["defaultignorablecodepoint", "di"], table Unicode.defaultIgnorable),
   (["deprecated", "dep"], table Unicode.deprecated),
   (["diacritic", "dia"], table Unicode.diacritic),
   (["emoji"], table Unicode.emoji),
   (["emojicomponent", "ecomp"], table Unicode.emojiComponent),
   (["emojimodifier", "emod"], table Unicode.emojiModifier),
   (["emojimodifierbase", "ebase"], table Unicode.emojiModifierBase),
   (["emojipresentation", "epres"], table Unicode.emojiPresentation),
   (["extendedpictographic", "extpict"], table Unicode.extendedPictographic),
   (["extender", "ext"], table Unicode.extender),
   (["graphemebase", "grbase"], graphemeBase),
   (["graphemeextend", "grext"], graphemeExtend),
   (["hexdigit", "hex"], table Unicode.hexDigit),
   (["hyphen"], table Unicode.hyphen),
   (["idcontinue", "idc"], idContinue),
   (["idsbinaryoperator", "idsb"], table Unicode.binaryComposition),
   (["idstart", "ids"], idStart),
   (["idstrinaryoperator", "idst"], table Unicode.ternaryComposition),
   (["ideographic", "ideo"], table Unicode.ideographic),
   (["joincontrol", "joinc"], range '\u200c' '\u200d'),
   (["logicalorderexception", "loe"], table Unicode.visualOrder),
   (["lowercase", "lower"], lowercase),
   (["math"], union (categories [.mathSymbol]) (table Unicode.otherMath)),
   (["noncharactercodepoint", "nchar"], table Unicode.noncharacter),
   (["otheralphabetic", "oalpha"], table Unicode.otherAlphabetic),
   (["othergraphemeextend", "ogrext"], table Unicode.otherGraphemeExtend),
   (["otheridcontinue", "oidc"], table Unicode.otherIdContinue),
   (["otheridstart", "oids"], table Unicode.otherIdStart),
   (["otherlowercase", "olower"], table Unicode.otherLowercase),
   (["othermath", "omath"], table Unicode.otherMath),
   (["otheruppercase", "oupper"], table Unicode.otherUppercase),
   (["patternsyntax", "patsyn"], table Unicode.patternSyntax),
   (["patternwhitespace", "patws"], table Unicode.patternWhiteSpace),
   (["prependedconcatenationmark", "pcm"], table Unicode.prependedMark),
   (["quotationmark", "qmark"], table Unicode.quotationMark),
   (["radical"], table Unicode.radical),
   (["regionalindicator", "ri"], table Unicode.regionalIndicator),
   (["sentenceterminal", "sterm"], table Unicode.sentenceTerminal),
   (["softdotted", "sd"], table Unicode.softDotted),
   (["terminalpunctuation", "term"], table Unicode.terminalPunctuation),
   (["unifiedideograph", "uideo"], table Unicode.unifiedIdeograph),
   (["uppercase", "upper"], uppercase),
   (["variationselector", "vs"], table Unicode.variationSelector),
   (["whitespace", "wspace", "space"], space),
   (["xidcontinue", "xidc"], diff idContinue (table Unicode.unstableIdContinue)),
   (["xidstart", "xids"], diff idStart (table Unicode.unstableIdStart))]

/-! ## Names -/

/-- The set of a category name; ASCII counts as one. -/
def category? (name : String) : Option CharSet :=
  if name = "ascii" then some ascii else (GeneralCategory.named name).map categories

/-- The set of a script's members. -/
def ofScript (s : Script) : CharSet := table s.members

/-- The set of the characters that are used with a script. -/
def usedWith (s : Script) : CharSet :=
  union (diff (table s.members) (table s.unshared)) (table s.shared)

/-- The set of a property's name that stands alone: a property that a character has or lacks, a
category or a script. -/
def named? (name : List Char) : Option CharSet :=
  let name := GeneralCategory.looseName name
  match traits.find? (·.1.contains name) with
  | some (_, s) => some s
  | none =>
    match category? name with
    | some s => some s
    | none => (Script.named name).map ofScript

/-- The set of a property's name with a value. -/
def valued? (name value : List Char) : Option CharSet :=
  let value := GeneralCategory.looseName value
  match GeneralCategory.looseName name with
  | "gc" | "generalcategory" => category? value
  | "sc" | "script" => (Script.named value).map ofScript
  | "scx" | "scriptextensions" => (Script.named value).map usedWith
  | _ => none

end CharSet

end FaustLens
