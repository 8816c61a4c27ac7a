import FaustLens.Unicode.RangeTable

/-!
# Writing

Properties of characters in running text, as range tables of Unicode 17.
-/

namespace FaustLens.Unicode

/-- Dashes, the minus sign among them. -/
def dash : RangeTable := .ofText
  "2D 58A 5BE 1400 1806 2010-2015 2053 207B 208B 2212 2E17 2E1A 2E3A-2E3B 2E40 2E5D 301C
  3030 30A0 FE31-FE32 FE58 FE63 FF0D 10D6E 10EAD"

/-- Hyphens. -/
def hyphen : RangeTable := .ofText
  "2D AD 58A 1806 2010-2011 2E17 30FB FE63 FF0D FF65"

/-- Quotation marks. -/
def quotationMark : RangeTable := .ofText
  "22 27 AB BB 2018-201F 2039-203A 2E42 300C-300F 301D-301F FE41-FE44 FF02 FF07 FF62-FF63"

/-- Punctuation at the end of a unit of text. -/
def terminalPunctuation : RangeTable := .ofText
  "21 2C 2E 3A-3B 3F 37E 387 589 5C3 60C 61B 61D-61F 6D4 700-70A 70C 7F8-7F9 830-835 837-83E
  85E 964-965 E5A-E5B F08 F0D-F12 104A-104B 1361-1368 166E 16EB-16ED 1735-1736 17D4-17D6
  17DA 1802-1805 1808-1809 1944-1945 1AA8-1AAB 1B4E-1B4F 1B5A-1B5B 1B5D-1B5F 1B7D-1B7F
  1C3B-1C3F 1C7E-1C7F 2024 203C-203D 2047-2049 2CF9-2CFB 2E2E 2E3C 2E41 2E4C 2E4E-2E4F
  2E53-2E54 3001-3002 A4FE-A4FF A60D-A60F A6F3-A6F7 A876-A877 A8CE-A8CF A92F A9C7-A9C9
  AA5D-AA5F AADF AAF0-AAF1 ABEB FE12 FE15-FE16 FE50-FE52 FE54-FE57 FF01 FF0C FF0E FF1A-FF1B
  FF1F FF61 FF64 1039F 103D0 10857 1091F 10A56-10A57 10AF0-10AF5 10B3A-10B3F 10B99-10B9C
  10F55-10F59 10F86-10F89 11047-1104D 110BE-110C1 11141-11143 111C5-111C6 111CD 111DE-111DF
  11238-1123C 112A9 113D4-113D5 1144B-1144D 1145A-1145B 115C2-115C5 115C9-115D7 11641-11642
  1173C-1173E 11944 11946 11A42-11A43 11A9B-11A9C 11AA1-11AA2 11C41-11C43 11C71 11EF7-11EF8
  11F43-11F44 12470-12474 16A6E-16A6F 16AF5 16B37-16B39 16B44 16D6E-16D6F 16E97-16E98 1BC9F
  1DA87-1DA8A"

/-- Punctuation at the end of a sentence. -/
def sentenceTerminal : RangeTable := .ofText
  "21 2E 3F 589 61D-61F 6D4 700-702 7F9 837 839 83D-83E 964-965 104A-104B 1362 1367-1368
  166E 1735-1736 17D4-17D5 1803 1809 1944-1945 1AA8-1AAB 1B4E-1B4F 1B5A-1B5B 1B5E-1B5F
  1B7D-1B7F 1C3B-1C3C 1C7E-1C7F 2024 203C-203D 2047-2049 2CF9-2CFB 2E2E 2E3C 2E53-2E54 3002
  A4FF A60E-A60F A6F3 A6F7 A876-A877 A8CE-A8CF A92F A9C8-A9C9 AA5D-AA5F AAF0-AAF1 ABEB FE12
  FE15-FE16 FE52 FE56-FE57 FF01 FF0E FF1F FF61 10A56-10A57 10F55-10F59 10F86-10F89
  11047-11048 110BE-110C1 11141-11143 111C5-111C6 111CD 111DE-111DF 11238-11239 1123B-1123C
  112A9 113D4-113D5 1144B-1144C 115C2-115C3 115C9-115D7 11641-11642 1173C-1173E 11944 11946
  11A42-11A43 11A9B-11A9C 11C41-11C42 11EF7-11EF8 11F43-11F44 16A6E-16A6F 16AF5 16B37-16B38
  16B44 16D6E-16D6F 16E98 1BC9F 1DA88"

/-- Diacritics. -/
def diacritic : RangeTable := .ofText
  "5E 60 A8 AF B4 B7-B8 2B0-34E 350-357 35D-362 374-375 37A 384-385 483-487 559 591-5BD 5BF
  5C1-5C2 5C4-5C5 5C7 64B-652 657-658 6DF-6E0 6E5-6E6 6EA-6EC 730-74A 7A6-7B0 7EB-7F5
  818-819 898-89F 8C9-8D2 8E3-8FE 93C 94D 951-954 971 9BC 9CD A3C A4D ABC ACD AFD-AFF B3C
  B4D B55 BCD C3C C4D CBC CCD D3B-D3C D4D DCA E3A E47-E4C E4E EBA EC8-ECC F18-F19 F35-F39/2
  F3E-F3F F82-F84 F86-F87 FC6 1037 1039-103A 1063-1064 1069-106D 1087-108D 108F 109A-109B
  135D-135F 1714-1715 1734 17C9-17D3 17DD 1939-193B 1A60 1A75-1A7C 1A7F 1AB0-1ABE 1AC1-1ACB
  1ACF-1ADD 1AE0-1AEB 1B34 1B44 1B6B-1B73 1BAA-1BAB 1BE6 1BF2-1BF3 1C36-1C37 1C78-1C7D
  1CD0-1CE8 1CED 1CF4 1CF7-1CF9 1D2C-1D6A 1D9B-1DBE 1DC4-1DCF 1DF5-1DFF 1FBD 1FBF-1FC1
  1FCD-1FCF 1FDD-1FDF 1FED-1FEF 1FFD-1FFE 2CEF-2CF1 2E2F 302A-302F 3099-309C 30FC A66F
  A67C-A67D A67F A69C-A69D A6F0-A6F1 A700-A721 A788-A78A A7F1 A7F8-A7F9 A806 A82C A8C4
  A8E0-A8F1 A92B-A92E A953 A9B3 A9C0 A9E5 AA7B-AA7D AABF-AAC2 AAF6 AB5B-AB5F AB69-AB6B
  ABEC-ABED FB1E FE20-FE2F FF3E FF40 FF70 FF9E-FF9F FFE3 102E0 10780-10785 10787-107B0
  107B2-107BA 10A38-10A3A 10A3F 10AE5-10AE6 10D22-10D27 10D4E 10D69-10D6D 10EFA 10EFD-10EFF
  10F46-10F50 10F82-10F85 11046 11070 110B9-110BA 11133-11134 11173 111C0 111CA-111CC
  11235-11236 112E9-112EA 1133B-1133C 1134D 11366-1136C 11370-11374 113CE-113D0 113D2-113D3
  113E1-113E2 11442 11446 114C2-114C3 115BF-115C0 1163F 116B6-116B7 1172B 11839-1183A
  1193D-1193E 11943 119E0 11A34 11A47 11A99 11C3F 11D42 11D44-11D45 11D97 11DD9 11F41-11F42
  11F5A 13447-13455 1612F 16AF0-16AF4 16B30-16B36 16D6B-16D6C 16F8F-16F9F 16FF0-16FF1
  1AFF0-1AFF3 1AFF5-1AFFB 1AFFD-1AFFE 1CF00-1CF2D 1CF30-1CF46 1D167-1D169 1D16D-1D172
  1D17B-1D182 1D185-1D18B 1D1AA-1D1AD 1E030-1E06D 1E130-1E136 1E2AE 1E2EC-1E2EF 1E5EE-1E5EF
  1E8D0-1E8D6 1E944-1E946 1E948-1E94A"

/-- Characters that lengthen the one before them. -/
def extender : RangeTable := .ofText
  "B7 2D0-2D1 640 7FA A71 AFB B55 E46 EC6 180A 1843 1AA7 1C36 1C7B 3005 3031-3035 309D-309E
  30FC-30FE A015 A60C A9CF A9E6 AA70 AADD AAF3-AAF4 FF70 10781-10782 10D4E 10D6A 10D6F
  11237 1135D 113D2-113D3 115C6-115C8 11A98 11DD9 16B42-16B43 16FE0-16FE1 16FE3 16FF2-16FF3
  1E13C-1E13D 1E5EF 1E944-1E946"

/-- Ideographs. -/
def ideographic : RangeTable := .ofText
  "3006-3007 3021-3029 3038-303A 3400-4DBF 4E00-9FFF F900-FA6D FA70-FAD9 16FE4 16FF2-16FF6
  17000-18CD5 18CFF-18D1E 18D80-18DF2 1B170-1B2FB 20000-2A6DF 2A700-2B81D 2B820-2CEAD
  2CEB0-2EBE0 2EBF0-2EE5D 2F800-2FA1D 30000-3134A 31350-33479"

/-- Unified ideographs. -/
def unifiedIdeograph : RangeTable := .ofText
  "3400-4DBF 4E00-9FFF FA0E-FA0F FA11 FA13-FA14 FA1F-FA23/2 FA24 FA27-FA29 20000-2A6DF
  2A700-2B81D 2B820-2CEAD 2CEB0-2EBE0 2EBF0-2EE5D 30000-3134A 31350-33479"

/-- Radicals of ideographs. -/
def radical : RangeTable := .ofText
  "2E80-2E99 2E9B-2EF3 2F00-2FD5"

/-- Operators that describe an ideograph by two parts. -/
def binaryComposition : RangeTable := .ofText
  "2FF0-2FF1 2FF4-2FFD 31EF"

/-- Operators that describe an ideograph by three parts. -/
def ternaryComposition : RangeTable := .ofText
  "2FF2-2FF3"

/-- Vowels that are written in visual order. -/
def visualOrder : RangeTable := .ofText
  "E40-E44 EC0-EC4 19B5-19B7 19BA AAB5-AAB6 AAB9 AABB-AABC"

/-- Characters that control the direction of text. -/
def bidiControl : RangeTable := .ofText
  "61C 200E-200F 202A-202E 2066-2069"

/-- Characters that are mirrored in text from right to left. -/
def bidiMirrored : RangeTable := .ofText
  "28-29 3C 3E 5B 5D 7B 7D AB BB F3A-F3D 169B-169C 2039-203A 2045-2046 207D-207E 208D-208E
  2140 2201-2204 2208-220D 2211 2215-2216 221A-221D 221F-2222 2224 2226 222B-2233 2239
  223B-224C 2252-2255 225F-2260 2262 2264-226B 226D-228C 228F-2292 2298 22A2-22A3 22A6-22B8
  22BE-22BF 22C9-22CD 22D0-22D1 22D6-22ED 22F0-22FF 2308-230B 2320-2321 2329-232A 2768-2775
  27C0 27C3-27C6 27C8-27C9 27CB-27CD 27D3-27D6 27DC-27DE 27E2-27EF 2983-2998 299B-29A0
  29A2-29AF 29B8 29C0-29C5 29C9 29CE-29D2 29D4-29D5 29D8-29DC 29E1 29E3-29E5 29E8-29E9
  29F4-29F9 29FC-29FD 2A0A-2A1C 2A1E-2A21 2A24 2A26 2A29 2A2B-2A2E 2A34-2A35 2A3C-2A3E
  2A57-2A58 2A64-2A65 2A6A-2A6D 2A6F-2A70 2A73-2A74 2A79-2AA3 2AA6-2AAD 2AAF-2AD6 2ADC 2ADE
  2AE2-2AE6 2AEC-2AEE 2AF3 2AF7-2AFB 2AFD 2BFE 2E02-2E05 2E09-2E0A 2E0C-2E0D 2E1C-2E1D
  2E20-2E29 2E55-2E5C 3008-3011 3014-301B FE59-FE5E FE64-FE65 FF08-FF09 FF1C FF1E FF3B FF3D
  FF5B-FF5F/2 FF60 FF62-FF63 1D6DB 1D715 1D74F 1D789 1D7C3"

/-- Characters of formulas that are no mathematical symbols. -/
def otherMath : RangeTable := .ofText
  "5E 3D0-3D2 3D5 3F0-3F1 3F4-3F5 2016 2032-2034 2040 2061-2064 207D-207E 208D-208E
  20D0-20DC 20E1 20E5-20E6 20EB-20EF 2102 2107 210A-2113 2115 2119-211D 2124 2128-2129
  212C-212D 212F-2131 2133-2138 213C-213F 2145-2149 2195-2199 219C-219F 21A1-21A2 21A4-21A5
  21A7 21A9-21AD 21B0-21B1 21B6-21B7 21BC-21CD 21D0-21D1 21D3 21D5-21DB 21DD 21E4-21E5
  2308-230B 23B4-23B5 23B7 23D0 23E2 25A0-25A1 25AE-25B6 25BC-25C0 25C6-25C7 25CA-25CB
  25CF-25D3 25E2 25E4 25E7-25EC 2605-2606 2640 2642 2660-2663 266D-266E 27C5-27C6 27E6-27EF
  2983-2998 29D8-29DB 29FC-29FD FE61 FE63 FE68 FF3C FF3E 1D400-1D454 1D456-1D49C
  1D49E-1D49F 1D4A2 1D4A5-1D4A6 1D4A9-1D4AC 1D4AE-1D4B9 1D4BB 1D4BD-1D4C3 1D4C5-1D505
  1D507-1D50A 1D50D-1D514 1D516-1D51C 1D51E-1D539 1D53B-1D53E 1D540-1D544 1D546 1D54A-1D550
  1D552-1D6A5 1D6A8-1D6C0 1D6C2-1D6DA 1D6DC-1D6FA 1D6FC-1D714 1D716-1D734 1D736-1D74E
  1D750-1D76E 1D770-1D788 1D78A-1D7A8 1D7AA-1D7C2 1D7C4-1D7CB 1D7CE-1D7FF 1EE00-1EE03
  1EE05-1EE1F 1EE21-1EE22 1EE24 1EE27 1EE29-1EE32 1EE34-1EE37 1EE39 1EE3B 1EE42
  1EE47-1EE4D/2 1EE4E-1EE4F 1EE51-1EE52 1EE54 1EE57-1EE61/2 1EE62 1EE64 1EE67-1EE6A
  1EE6C-1EE72 1EE74-1EE77 1EE79-1EE7C 1EE7E 1EE80-1EE89 1EE8B-1EE9B 1EEA1-1EEA3 1EEA5-1EEA9
  1EEAB-1EEBB"

/-- Hexadecimal digits, fullwidth ones among them. -/
def hexDigit : RangeTable := .ofText
  "30-39 41-46 61-66 FF10-FF19 FF21-FF26 FF41-FF46"

/-- Format characters that enclose what follows them. -/
def prependedMark : RangeTable := .ofText
  "600-605 6DD 70F 890-891 8E2 110BD 110CD"

/-- Characters that are not shown where they are not supported. -/
def defaultIgnorable : RangeTable := .ofText
  "AD 34F 61C 115F-1160 17B4-17B5 180B-180F 200B-200F 202A-202E 2060-206F 3164 FE00-FE0F
  FEFF FFA0 FFF0-FFF8 1BCA0-1BCA3 1D173-1D17A E0000-E0FFF"

/-- Characters whose use is discouraged. -/
def deprecated : RangeTable := .ofText
  "149 673 F77 F79 17A3-17A4 206A-206F 2329-232A E0001"

/-- Code points that are never characters. -/
def noncharacter : RangeTable := .ofText
  "FDD0-FDEF FFFE-FFFF 1FFFE-1FFFF 2FFFE-2FFFF 3FFFE-3FFFF 4FFFE-4FFFF 5FFFE-5FFFF
  6FFFE-6FFFF 7FFFE-7FFFF 8FFFE-8FFFF 9FFFE-9FFFF AFFFE-AFFFF BFFFE-BFFFF CFFFE-CFFFF
  DFFFE-DFFFF EFFFE-EFFFF FFFFE-FFFFF 10FFFE-10FFFF"

end FaustLens.Unicode
