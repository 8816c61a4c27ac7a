import FaustLens.Unicode.RangeTable

/-!
# Casing

What letters with case need besides their general categories, as range tables of Unicode 17.
-/

namespace FaustLens.Unicode

/-- Lowercase characters that are no lowercase letters. -/
def otherLowercase : RangeTable := .ofText
  "AA BA 2B0-2B8 2C0-2C1 2E0-2E4 345 37A 10FC 1D2C-1D6A 1D78 1D9B-1DBF 2071 207F 2090-209C
  2170-217F 24D0-24E9 2C7C-2C7D A69C-A69D A770 A7F1-A7F4 A7F8-A7F9 AB5C-AB5F AB69 10780
  10783-10785 10787-107B0 107B2-107BA 1E030-1E06D"

/-- Uppercase characters that are no uppercase letters. -/
def otherUppercase : RangeTable := .ofText
  "2160-216F 24B6-24CF 1F130-1F149 1F150-1F169 1F170-1F189"

/-- Characters that case mappings skip for their place within words. -/
def otherCaseIgnorable : RangeTable := .ofText
  "27 2E 3A B7 387 55F 5F4 2018-2019 2024 2027 FE13 FE52 FE55 FF07 FF0E FF1A"

/-- Characters that lowercasing changes. -/
def changesWhenLowercased : RangeTable := .ofText
  "41-5A C0-D6 D8-DE 100-136/2 139-147/2 14A-178/2 179-17D/2 181-182 184 186-187 189-18B
  18E-191 193-194 196-198 19C-19D 19F-1A0 1A2-1A6/2 1A7 1A9 1AC 1AE-1AF 1B1-1B3 1B5 1B7-1B8
  1BC 1C4-1C5 1C7-1C8 1CA-1CB 1CD-1DB/2 1DE-1EE/2 1F1-1F2 1F4 1F6-1F8 1FA-232/2 23A-23B
  23D-23E 241 243-246 248-24E/2 370 372 376 37F 386 388-38A 38C 38E-38F 391-3A1 3A3-3AB 3CF
  3D8-3EE/2 3F4 3F7 3F9-3FA 3FD-42F 460-480/2 48A-4C0/2 4C1-4CD/2 4D0-52E/2 531-556
  10A0-10C5 10C7 10CD 13A0-13F5 1C89 1C90-1CBA 1CBD-1CBF 1E00-1E94/2 1E9E-1EFE/2 1F08-1F0F
  1F18-1F1D 1F28-1F2F 1F38-1F3F 1F48-1F4D 1F59-1F5F/2 1F68-1F6F 1F88-1F8F 1F98-1F9F
  1FA8-1FAF 1FB8-1FBC 1FC8-1FCC 1FD8-1FDB 1FE8-1FEC 1FF8-1FFC 2126 212A-212B 2132 2160-216F
  2183 24B6-24CF 2C00-2C2F 2C60 2C62-2C64 2C67-2C6D/2 2C6E-2C70 2C72 2C75 2C7E-2C80
  2C82-2CE2/2 2CEB 2CED 2CF2 A640-A66C/2 A680-A69A/2 A722-A72E/2 A732-A76E/2 A779-A77D/2
  A77E-A786/2 A78B A78D A790 A792 A796-A7AA/2 A7AB-A7AE A7B0-A7B4 A7B6-A7C4/2 A7C5-A7C7
  A7C9 A7CB-A7CC A7CE-A7DC/2 A7F5 FF21-FF3A 10400-10427 104B0-104D3 10570-1057A 1057C-1058A
  1058C-10592 10594-10595 10C80-10CB2 10D50-10D65 118A0-118BF 16E40-16E5F 16EA0-16EB8
  1E900-1E921"

/-- Characters that uppercasing changes. -/
def changesWhenUppercased : RangeTable := .ofText
  "61-7A B5 DF-F6 F8-FF 101-137/2 13A-148/2 149-177/2 17A-17E/2 17F-180 183 185 188 18C 192
  195 199-19B 19E 1A1-1A5/2 1A8 1AD 1B0 1B4 1B6 1B9 1BD 1BF 1C5-1C6 1C8-1C9 1CB-1CC
  1CE-1DC/2 1DD-1EF/2 1F0 1F2-1F3 1F5 1F9-21F/2 223-233/2 23C 23F-240 242 247-24F/2 250-254
  256-257 259 25B-25C 260-261 263-266 268-26C 26F 271-272 275 27D 280 282-283 287-28C 292
  29D-29E 345 371 373 377 37B-37D 390 3AC-3CE 3D0-3D1 3D5-3D7 3D9-3EF/2 3F0-3F3 3F5 3F8 3FB
  430-45F 461-481/2 48B-4BF/2 4C2-4CE/2 4CF-52F/2 561-587 10D0-10FA 10FD-10FF 13F8-13FD
  1C80-1C88 1C8A 1D79 1D7D 1D8E 1E01-1E95/2 1E96-1E9B 1EA1-1EFF/2 1F00-1F07 1F10-1F15
  1F20-1F27 1F30-1F37 1F40-1F45 1F50-1F57 1F60-1F67 1F70-1F7D 1F80-1FB4 1FB6-1FB7 1FBC 1FBE
  1FC2-1FC4 1FC6-1FC7 1FCC 1FD0-1FD3 1FD6-1FD7 1FE0-1FE7 1FF2-1FF4 1FF6-1FF7 1FFC 214E
  2170-217F 2184 24D0-24E9 2C30-2C5F 2C61 2C65-2C66 2C68-2C6C/2 2C73 2C76 2C81-2CE3/2 2CEC
  2CEE 2CF3 2D00-2D25 2D27 2D2D A641-A66D/2 A681-A69B/2 A723-A72F/2 A733-A76F/2 A77A A77C
  A77F-A787/2 A78C A791 A793-A794 A797-A7A9/2 A7B5-A7C3/2 A7C8 A7CA A7CD-A7DB/2 A7F6 AB53
  AB70-ABBF FB00-FB06 FB13-FB17 FF41-FF5A 10428-1044F 104D8-104FB 10597-105A1 105A3-105B1
  105B3-105B9 105BB-105BC 10CC0-10CF2 10D70-10D85 118C0-118DF 16E60-16E7F 16EBB-16ED3
  1E922-1E943"

/-- Characters that titlecasing changes and uppercasing does not. -/
def titlecasedOnly : RangeTable := .ofText
  "1C4 1C7 1CA 1F1"

/-- Characters that uppercasing changes and titlecasing does not. -/
def uppercasedOnly : RangeTable := .ofText
  "1C5 1C8 1CB 1F2 10D0-10FA 10FD-10FF 1F88-1F8F 1F98-1F9F 1FA8-1FAF 1FBC 1FCC 1FFC"

/-- Characters that case folding changes and lowercasing does not. -/
def casefoldedOnly : RangeTable := .ofText
  "B5 DF 149 17F 345 3C2 3D0-3D1 3D5-3D6 3F0-3F1 3F5 587 13F8-13FD 1C80-1C88 1E9A-1E9B
  1F80-1F87 1F90-1F97 1FA0-1FA7 1FB2-1FB4 1FB7 1FC2-1FC4 1FC7 1FF2-1FF4 1FF7 AB70-ABBF
  FB00-FB06 FB13-FB17"

/-- Characters that lowercasing changes and case folding does not. -/
def lowercasedOnly : RangeTable := .ofText
  "13A0-13F5"

/-- Letters that lose their dot below an accent. -/
def softDotted : RangeTable := .ofText
  "69-6A 12F 249 268 29D 2B2 3F3 456 458 1D62 1D96 1DA4 1DA8 1E2D 1ECB 2071 2148-2149 2C7C
  1D422-1D423 1D456-1D457 1D48A-1D48B 1D4BE-1D4BF 1D4F2-1D4F3 1D526-1D527 1D55A-1D55B
  1D58E-1D58F 1D5C2-1D5C3 1D5F6-1D5F7 1D62A-1D62B 1D65E-1D65F 1D692-1D693 1DF1A 1E04C-1E04D
  1E068"

end FaustLens.Unicode
