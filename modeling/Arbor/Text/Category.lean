import Arbor.Text.CharSet

/-!
The general categories of the Unicode standard, in its sixteenth edition. Every code point belongs
to exactly one of them.
-/

namespace Arbor.Category

/-- Capital letters. -/
def uppercaseLetter : CharSet := .ofRuns
  "41-5A C0-D6 8-E 100/36 9/47 A/76 8-9 B D 81-2 4 6-7 9-B E-91 3-4 6-8 C-D F-A0 2 4 6-7 9 C E-F
    B1-3 5 7-8 C C4 7 A D/DB E/EE F1 4 6-8 A/232 A-B D-E 41 3-6 8/E 370 2 6 F 86 8-A C E-F 91-A1 3-B
    CF D2-4 8/EE F4 7 9-A D-42F 60/80 A/BE C0-1 3/D D0/52E 31-56 10A0-C5 7 D 3A0-F5 C89 90-BA D-F
    E00/94 E/FE F08-F 18-D 28-F 38-F 48-D 59/F 68-F B8-B C8-B D8-B E8-C F8-B 2102 7 B-D 10-2 5 9-D
    24/8 A-D 30-3 E-F 45 83 C00-2F 60 2-4 7/B D-70 2 5 E-80 2/E2 B D F2 A640/6C 80/9A 722/E 32/6E 79
    B D-E 80/6 B D 90 2 6/A8 A-E B0-4 6/C2 4-7 9 B-C D0 6/C F5 FF21-3A 10400-27 B0-D3 570-A C-8A
    C-92 4-5 C80-B2 D50-65 18A0-BF 6E40-5F D400-19 34-4D 68-81 9C E-F A2 5-6 9-C E-B5 D0-E9 504-5
    7-A D-14 6-C 38-9 B-E 40-4 6 A-50 6C-85 A0-B9 D4-ED 608-21 3C-55 70-89 A8-C0 E2-FA 71C-34 56-6E
    90-A8 CA E900-21"

/-- Small letters. -/
def lowercaseLetter : CharSet := .ofRuns
  "61-7A B5 DF-F6 8-F 101/35 7-8 A/46 8-9 B/77 A C E-80 3 5 8 C-D 92 5 9-B E A1/5 8 A-B D B0 4 6
    9-A D-F C6 9 C/DA C-D F/ED F-F0 3 5 9/231 3-9 C F-40 2 7/D F-93 5-AF 371 3 7 B-D 90 AC-CE D0-1
    5-7 9/ED F-F3 5 8 B-C 430-5F 61/81 B/BF C2/C E-F D1/52F 60-88 10D0-FA D-F 3F8-D C80-8 A D00-2B
    6B-77 9-9A E01/93 5-D F/FD F-F07 10-5 20-7 30-7 40-5 50-7 60-7 70-D 80-7 90-7 A0-7 B0-4 6-7 E
    C2-4 6-7 D0-3 6-7 E0-7 F2-4 6-7 210A E-F 13 2F 34 9 C-D 46-9 E 84 C30-5F 61 5-6 8/C 71 3-4 6-B
    81/E1 3-4 C E F3 D00-25 7 D A641/6D 81/9B 723/D F-31 3/6F 71-8 A C F/87 C E 91 3-5 7/A9 F B5/C3
    8 A D D1/B F6 A B30-5A 60-8 70-BF FB00-6 13-7 F41-5A 10428-4F D8-FB 597-A1 3-B1 3-9 B-C CC0-F2
    D70-85 18C0-DF 6E60-7F D41A-33 4E-54 6-67 82-9B B6-9 B D-C3 5-F EA-503 1E-37 52-6B 86-9F BA-D3
    EE-607 22-3B 56-6F 8A-A5 C2-DA C-E1 FC-714 6-B 36-4E 50-5 70-88 A-F AA-C2 4-9 B F00-9 B-1E 25-A
    E922-43"

/-- Pairs of letters of which the first is a capital. -/
def titlecaseLetter : CharSet := .ofRuns
  "1C5 8 B F2 1F88-F 98-F A8-F BC CC FC"

/-- Letters that modify others. -/
def modifierLetter : CharSet := .ofRuns
  "2B0-C1 6-D1 E0-4 C E 374 A 559 640 E5-6 7F4-5 A 81A 24 8 C9 971 E46 C6 10FC 7D7 843 AA7 C78-D
    D2C-6A 78 9B-BF 2071 F 90-C C7C-D D6F E2F 3005 31-5 B 9D-E FC-E A015 4F8-D 60C 7F 9C-D 717-F 70
    88 F2-4 8-9 9CF E6 A70 DD F3-4 B5C-F 69 FF70 9E-F 10780-5 7-B0 2-A D4E 6F 6B40-3 D40-2 6B-C
    F93-F E0-1 3 AFF0-3 5-B D-E E030-6D 137-D 4EB 94B"

/-- Letters without case. -/
def otherLetter : CharSet := .ofRuns
  "AA BA 1BB C0-3 294 5D0-EA F-F2 620-3F 41-A 6E-F 71-D3 5 EE-F FA-C F 710 2-2F 4D-A5 B1 CA-EA
    800-15 40-58 60-A 70-87 9-E A0-C8 904-39 D 50 8-61 72-80 5-C F-90 3-A8 A-B0 2 6-9 D CE DC-D F-E1
    F0-1 C A05-A F-10 3-28 A-30 2-3 5-6 8-9 59-C E 72-4 85-D F-91 3-A8 A-B0 2-3 5-9 D D0 E0-1 F9
    B05-C F-10 3-28 A-30 2-3 5-9 D 5C-D F-61 71 83 5-A E-90 2-5 9-A C E-F A3-4 8-A E-B9 D0 C05-C
    E-10 2-28 A-39 D 58-A D 60-1 80 5-C E-90 2-A8 A-B3 5-9 D DD-E E0-1 F1-2 D04-C E-10 2-3A D 4E
    54-6 F-61 7A-F 85-96 A-B1 3-B D C0-6 E01-30 2-3 40-5 81-2 4 6-A C-A3 5 7-B0 2-3 D C0-4 DC-F F00
    40-7 9-6C 88-C 1000-2A 3F 50-5 A-D 61 5-6 E-70 5-81 E 100-248 A-D 50-6 8 A-D 60-88 A-D 90-B0 2-5
    8-E C0 2-5 8-D6 8-310 2-5 8-5A 80-F 401-66C F-7F 81-9A A0-EA F1-8 700-11 F-31 40-51 60-C E-70
    80-B3 DC 820-42 4-78 80-4 7-A8 A B0-F5 900-1E 50-6D 70-4 80-AB B0-C9 A00-16 20-54 B05-33 45-C
    83-A0 E-F BA-E5 C00-23 4D-F 5A-77 E9-C E-F3 5-6 A 2135-8 D30-67 80-96 A0-6 8-E B0-6 8-E C0-6 8-E
    D0-6 8-E 3006 3C 41-96 F A1-FA F 105-2F 31-8E A0-BF F0-F 400-4DBF E00-A014 6-48C D0-F7 500-60B
    10-F 2A-B 6E A0-E5 78F F7 B-801 3-5 7-A C-22 40-73 82-B3 F2-7 B D-E 90A-25 30-46 60-7C 84-B2
    E0-4 7-F FA-E A00-28 40-2 4-B 60-F 71-6 A E-AF B1 5-6 9-D C0 2 DB-C E0-A F2 B01-6 9-E 11-6 20-6
    8-E C0-E2 C00-D7A3 B0-C6 B-FB F900-A6D 70-D9 B1D F-28 A-36 8-C E 40-1 3-4 6-B1 D3-D3D 50-8F
    92-C7 F0-B E70-4 6-FC F66-F 71-9D A0-BE C2-7 A-F D2-7 A-C 10000-B D-26 8-3A C-D F-4D 50-D 80-FA
    280-9C A0-D0 300-1F 2D-40 2-9 50-75 80-9D A0-C3 8-F 450-9D 500-27 30-63 C0-F3 600-736 40-55 60-7
    800-5 8 A-35 7-8 C F-55 60-76 80-9E E0-F2 4-5 900-15 20-39 80-B7 E-F A00 10-3 5-7 9-35 60-7C
    80-9C C0-7 9-E4 B00-35 40-55 60-72 80-91 C00-48 D00-23 4A-D F E80-A9 B0-1 C2-4 F00-1C 27 30-45
    70-81 B0-C4 E0-F6 1003-37 71-2 5 83-AF D0-E8 103-26 44 7 50-72 6 83-B2 C1-4 DA C 200-11 3-2B
    3F-40 80-6 8 A-D F-9D F-A8 B0-DE 305-C F-10 3-28 A-30 2-3 5-9 D 50 D-61 80-9 B E 90-B5 7 D1 3
    400-34 47-A 5F-61 80-AF C4-5 7 580-AE D8-B 600-2F 44 80-AA B8 700-1A 40-6 800-2B FF-906 9 C-13
    5-6 8-2F 3F 41 A0-7 A-D0 E1 3 A00 B-32 A 50 C-89 9D B0-F8 BC0-E0 C00-8 A-2E 40 72-8F D00-6 8-9
    B-30 46 60-5 7-8 A-89 98 EE0-F2 F02 4-10 2-33 B0 2000-399 480-543 F90-F0 3000-42F 41-6 60-43FA
    400-646 6100-1D 800-A38 40-5E 70-BE D0-ED B00-2F 63-77 D-8F D43-6A F00-4A 50 7000-87F7 800-CD5
    FF-D08 B000-122 32 50-2 5 64-7 70-2FB C00-6A 70-C 80-8 90-9 DF0A E100-2C 4E 290-AD C0-EB 4D0-EA
    5D0-ED F0 7E0-6 8-B D-E F0-E 800-C4 E00-3 5-1F 21-2 4 7 9-32 4-7 9 B 42 7/B D-F 51-2 4 7/F 61-2
    4 7-A C-72 4-7 9-C E 80-9 B-9B A1-3 5-9 B-BB 20000-A6DF 700-B739 40-81D 20-CEA1 B0-EBE0 F0-E5D
    F800-A1D 30000-134A 50-23AF"

/-- Marks that take up no room. -/
def nonspacingMark : CharSet := .ofRuns
  "300-6F 483-7 591-BD F C1-2 4-5 7 610-A 4B-5F 70 D6-C F-E4 7-8 A-D 711 30-4A A6-B0 EB-F3 D 816-9
    B-23 5-7 9-D 59-B 97-F CA-E1 3-902 3A C 41-8 D 51-7 62-3 81 BC C1-4 D E2-3 FE A01-2 3C 41-2 7-8
    B-D 51 70-1 5 81-2 BC C1-5 7-8 D E2-3 FA-F B01 3C F 41-4 D 55-6 62-3 82 C0 D C00 4 3C E-40 6-8
    A-D 55-6 62-3 81 BC F C6 C-D E2-3 D00-1 3B-C 41-4 D 62-3 81 CA D2-4 6 E31 4-A 47-E B1 4-C C8-E
    F18-9 35/9 71-E 80-4 6-7 D-97 9-BC C6 102D-30 2-7 9-A D-E 58-9 E-60 71-4 82 5-6 D 9D 35D-F 712-4
    32-3 52-3 72-3 B4-5 7-D C6 9-D3 D 80B-D F 85-6 A9 920-2 7-8 32 9-B A17-8 B 56 8-E 60 2 5-C 73-C
    F B0-D F-CE B00-3 34 6-A C 42 6B-73 80-1 A2-5 8-9 B-D E6 8-9 D F-F1 C2C-33 6-7 D0-2 4-E0 2-8 D
    F4 8-9 DC0-FF 20D0-C E1 5-F0 CEF-F1 D7F E0-FF 302A-D 99-A A66F 74-D 9E-F F0-1 802 6 B 25-6 C
    C4-5 E0-F1 F 926-D 47-51 80-2 B3 6-9 C-D E5 A29-E 31-2 5-6 43 C 7C B0 2-4 7-8 E-F C1 EC-D F6 BE5
    8 D FB1E E00-F 20-F 101FD 2E0 376-A A01-3 5-6 C-F 38-A F E5-6 D24-7 69-D EAB-C FC-F F46-50 82-5
    1001 38-46 70 3-4 F-81 B3-6 9-A C2 100-2 27-B D-34 73 80-1 B6-E C9-C F 22F-31 4 6-7 E 41 DF E3-A
    300-1 3B-C 40 66-C 70-4 BB-C0 E/D2 E1-2 438-F 42-4 6 5E B3-8 A F-C0 2-3 5B2-5 C-D F-C0 DC-D
    633-A D F-40 AB D B0-5 7 71D F 22-5 7-B 82F-37 9-A 93B-C E 43 D4-7 A-B E0 A01-A 33-8 B-E 47 51-6
    9-B 8A-96 8-9 C30-6 8-D F 92-A7 A-B0 2-3 5-6 D31-6 A C-D F-45 7 90-1 5 7 EF3-4 F00-1 36-A 40 2
    5A 3440 7-55 611E-29 D-F AF0-4 B30-6 F4F 8F-92 E4 BC9D-E CF00-2D 30-46 D167-9 7B-82 5-B AA-D
    242-4 A00-36 B-6C 75 84 9B-F A1-F E000-6 8-18 B-21 3-4 6-A 8F 130-6 2AE EC-F 4EC-F 5EE-F 8D0-6
    944-A E0100-EF"

/-- Marks that take up room. -/
def spacingMark : CharSet := .ofRuns
  "903 3B E-40 9-C E-F 82-3 BE-C0 7-8 B-C D7 A03 3E-40 83 BE-C0 9 B-C B02-3 3E 40 7-8 B-C 57 BE-F
    C1-2 6-8 A-C D7 C01-3 41-4 82-3 BE C0-4 7-8 A-B D5-6 F3 D02-3 3E-40 6-8 A-C 57 82-3 CF-D1 8-F
    F2-3 F3E-F 7F 102B-C 31 8 B-C 56-7 62-4 7-D 83-4 7-C F 9A-C 715 34 B6 E-C5 7-8 923-6 9-B 30-1
    3-8 A19-A 55 7 61 3-4 D-72 B04 35 B D-41 3-4 82 A1 6-7 A E7 A-C E F2-3 C24-B 34-5 E1 F7 302E-F
    A823-4 7 80-1 B4-C3 952-3 83 B4-5 A-B E-C0 A2F-30 3-4 4D 7B D EB E-F F5 BE3-4 6-7 9-A C 11000 2
    82 B0-2 7-8 12C 45-6 82 B3-5 F-C0 E 22C-E 32-3 5 E0-2 302-3 3E-F 41-4 7-8 B-D 57 62-3 B8-A C2 5
    7-A C-D F 435-7 40-1 5 B0-2 9 B-E C1 5AF-B1 8-B E 630-2 B-C E AC E-F B6 71E 20-1 6 82C-E 38
    930-5 7-8 D 40 2 D1-3 C-F E4 A39 57-8 97 C2F 3E A9 B1 4 D8A-E 93-4 6 EF5-6 F03 34-5 E-F 41
    612A-C F51-87 F0-1 D165-6 D-72"

/-- Marks that enclose a character. -/
def enclosingMark : CharSet := .ofRuns
  "488-9 1ABE 20DD-E0 2-4 A670-2"

/-- Decimal digits. -/
def decimalNumber : CharSet := .ofRuns
  "30-9 660-9 F0-9 7C0-9 966-F E6-F A66-F E6-F B66-F E6-F C66-F E6-F D66-F E6-F E50-9 D0-9 F20-9
    1040-9 90-9 7E0-9 810-9 946-F D0-9 A80-9 90-9 B50-9 B0-9 C40-9 50-9 A620-9 8D0-9 900-9 D0-9 F0-9
    A50-9 BF0-9 FF10-9 104A0-9 D30-9 40-9 1066-F F0-9 136-F D0-9 2F0-9 450-9 D0-9 650-9 C0-9 D0-E3
    730-9 8E0-9 950-9 BF0-9 C50-9 D50-9 A0-9 F50-9 6130-9 A60-9 C0-9 B50-9 D70-9 CCF0-9 D7CE-FF
    E140-9 2F0-9 4F0-9 5F1-A 950-9 FBF0-9"

/-- Numbers that look like letters. -/
def letterNumber : CharSet := .ofRuns
  "16EE-F0 2160-82 5-8 3007 21-9 38-A A6E6-F 10140-74 341 A D1-5 2400-6E"

/-- Other numbers. -/
def otherNumber : CharSet := .ofRuns
  "B2-3 9 C-E 9F4-9 B72-7 F0-2 C78-E D58-E 70-8 F2A-33 1369-7C 7F0-9 9DA 2070 4-9 80-9 150-F 89
    460-9B EA-FF 776-93 CFD 3192-5 220-9 48-F 51-F 80-9 B1-F A830-5 10107-33 75-8 8A-B 2E1-FB 320-3
    858-F 79-F A7-F FB-F 916-B BC-D C0-F D2-FF A40-8 7D-E 9D-F EB-F B58-F 78-F A9-F CFA-F E60-7E
    F1D-26 51-4 C5-B 1052-65 1E1-F4 73A-B 8EA-F2 C5A-6C FC0-D4 6B5B-61 E80-96 D2C0-D3 E0-F3 360-78
    E8C7-F C71-AB D-F B1-4 D01-2D F-3D F100-C"

/-- Punctuation that connects. -/
def connectorPunctuation : CharSet := .ofRuns
  "5F 203F-40 54 FE33-4 4D-F F3F"

/-- Dashes and hyphens. -/
def dashPunctuation : CharSet := .ofRuns
  "2D 58A BE 1400 806 2010-5 E17 A 3A-B 40 5D 301C 30 A0 FE31-2 58 63 F0D 10D6E EAD"

/-- Opening brackets. -/
def openPunctuation : CharSet := .ofRuns
  "28 5B 7B F3A C 169B 201A E 45 7D 8D 308 A 29 768/74 C5 E6/E 983/97 D8 A FC E22/8 42 55/B 3008/10
    4/A D FD3F E17 35/43 7 59/D F08 3B 5B F 62"

/-- Closing brackets. -/
def closePunctuation : CharSet := .ofRuns
  "29 5D 7D F3B D 169C 2046 7E 8E 309 B 2A 769/75 C6 E7/F 984/98 D9 B FD E23/9 56/C 3009/11 5/B E-F
    FD3E E18 36/44 8 5A/E F09 3D 5D 60 3"

/-- Opening quotes. -/
def initialPunctuation : CharSet := .ofRuns
  "AB 2018 B-C F 39 E02 4 9 C 1C 20"

/-- Closing quotes. -/
def finalPunctuation : CharSet := .ofRuns
  "BB 2019 D 3A E03 5 A D 1D 21"

/-- Other punctuation. -/
def otherPunctuation : CharSet := .ofRuns
  "21-3 5-7 A C E-F 3A-B F-40 5C A1 7 B6-7 F 37E 87 55A-F 89 C0 3 6 F3-4 609-A C-D 1B D-F 6A-D D4
    700-D F7-9 830-E 5E 964-5 70 FD A76 F0 C77 84 DF4 E4F 5A-B F04-12 4 85 D0-4 9-A 104A-F FB 360-8
    66E EB-D 735-6 D4-6 8-A 800-5 7-A 944-5 A1E-F A0-6 8-D B4E-F 5A-60 7D-F FC-F C3B-F 7E-F C0-7 D3
    2016-7 20-7 30-8 B-E 41-3 7-51 3 5-E CF9-C E-F D70 E00-1 6-8 B E-16 8-9 B E-F 2A-E 30-9 C-F 41
    3-F 52-4 3001-3 3D FB A4FE-F 60D-F 73 E F2-7 874-7 CE-F F8-A C 92E-F 5F C1-D DE-F A5C-F DE-F
    F0-1 BEB FE10-6 9 30 45-6 9-C 50-2 4-7 F-61 8 A-B F01-3 5-7 A C E-F 1A-B F-20 3C 61 4-5 10100-2
    39F D0 56F 857 91F 3F A50-8 7F F0-6 B39-F 99-C F55-9 86-9 1047-D BB-C E-C1 140-3 74-5 C5-8 D DB
    D-F 238-D A9 3D4-5 7-8 44B-F 5A-B D C6 5C1-D7 641-3 60-C B9 73C-E 83B 944-6 E2 A3F-46 9A-C E-A2
    B00-9 E1 C41-5 70-1 EF7-8 F43-F FF 2470-4 FF1-2 6A6E-F F5 B37-B 44 D6D-F E97-A FE2 BC9F DA87-B
    E5FF 95E-F"

/-- Signs of mathematics. -/
def mathSymbol : CharSet := .ofRuns
  "2B 3C-E 7C E AC B1 D7 F7 3F6 606-8 2044 52 7A-C 8A-C 118 40-4 B 90-4 A-B A0 3 6 E CE-F D2 4
    F4-2FF 320-1 7C 9B-B3 DC-E1 5B7 C1 F8-F 66F 7C0-4 7-E5 F0-F 900-82 99-D7 C-FB E-AFF B30-44 7-C
    FB29 E62 4-6 F0B 1C-E 5C E E2 9-C 10D8E-F D6C1 DB FB 715 35 4F 6F 89 A9 C3 EEF0-1"

/-- Signs of currencies. -/
def currencySymbol : CharSet := .ofRuns
  "24 A2-5 58F 60B 7FE-F 9F2-3 B AF1 BF9 E3F 17DB 20A0-C0 A838 FDFC E69 F04 E0-1 5-6 11FDD-E0 E2FF
    CB0"

/-- Signs that modify others. -/
def modifierSymbol : CharSet := .ofRuns
  "5E 60 A8 F B4 8 2C2-5 D2-F E5-B D F-FF 375 84-5 888 1FBD F-C1 D-F DD-F ED-F FD-E 309B-C A700-16
    20-1 89-A B5B 6A-B FBB2-C2 F3E 40 E3 1F3FB-F"

/-- Other signs. -/
def otherSymbol : CharSet := .ofRuns
  "A6 9 E B0 482 58D-E 60E-F DE E9 FD-E 7F6 9FA B70 F3-8 A C7F D4F 79 F01-3 13 5-7 A-F 34/8 BE-C5
    7-C E-F D5-8 109E-F 390-9 66D 940 DE-FF B61-A 74-C 2100-1 3-6 8-9 14 6-7 E-23 5/9 E 3A-B 4A C-D
    F 8A-B 95-9 C-F A1-2 4-5 7-D F-CD D0-1 3 5-F3 300-7 C-1F 22-8 B-7B D-9A B4-DB E2-429 40-A 9C-E9
    500-B6 8-C0 2-F7 600-6E 70-767 94-BF 800-FF B00-2F 45-6 D-73 6-95 7-FF CE5-A E50-1 80-99 B-F3
    F00-D5 F0-F 3004 12-3 20 36-7 E-F 190-1 6-F C0-E5 F 200-1E 2A-47 50 60-7F 8A-B0 C0-3FF 4DC0-FF
    A490-C6 828-B 36-7 9 A77-9 FD40-F CF FD-F FE4 8 D-E FC-D 10137-F 79-89 C-E 90-C A0 D0-FC 877-8
    AC8 173F FD5-C E1-F1 6B3C-F 45 BC9C CC00-EF D00-EB3 F50-C3 D000-F5 100-26 9-64 A-C 83-4 C-A9
    E-EA 200-41 5 300-56 800-9FF A37-A 6D-74 6-83 5-6 E14F CAC D2E F000-2B 30-93 A0-E B1-F C1-F
    D1-F5 10D-AD E6-202 10-3B 40-8 50-1 60-5 300-FA 400-6D7 C-EC F0-C 700-76 B-D9 E0-B F0 800-B
    10-47 50-9 60-87 90-AD B0-B C0-1 900-A53 60-D 70-C 80-9 F-C6 E-DC F-E9 F0-8 B00-92 4-EF"

/-- Blanks within a line. -/
def spaceSeparator : CharSet := .ofRuns
  "20 A0 1680 2000-A 2F 5F 3000"

/-- The separator of lines. -/
def lineSeparator : CharSet := .ofRuns
  "2028"

/-- The separator of paragraphs. -/
def paragraphSeparator : CharSet := .ofRuns
  "2029"

/-- Control characters. -/
def control : CharSet := .ofRuns
  "0-1F 7F-9F"

/-- Characters that control the layout. -/
def format : CharSet := .ofRuns
  "AD 600-5 1C DD 70F 890-1 E2 180E 200B-F 2A-E 60-4 6-F FEFF FF9-B 110BD CD 3430-F BCA0-3 D173-A
    E0001 20-7F"

/-- Characters for private use. -/
def privateUse : CharSet := .ofRuns
  "E000-F8FF F0000-FFFD 100000-FFFD"

/-- Letters with case. -/
def casedLetter : CharSet := .anyOf [uppercaseLetter, lowercaseLetter, titlecaseLetter]

/-- Letters. -/
def letter : CharSet := .anyOf [casedLetter, modifierLetter, otherLetter]

/-- Marks. -/
def mark : CharSet := .anyOf [nonspacingMark, spacingMark, enclosingMark]

/-- Numbers. -/
def number : CharSet := .anyOf [decimalNumber, letterNumber, otherNumber]

/-- Punctuation. -/
def punctuation : CharSet :=
  .anyOf [connectorPunctuation, dashPunctuation, openPunctuation, closePunctuation,
    initialPunctuation, finalPunctuation, otherPunctuation]

/-- Signs. -/
def symbol : CharSet := .anyOf [mathSymbol, currencySymbol, modifierSymbol, otherSymbol]

/-- Blanks and separators. -/
def separator : CharSet := .anyOf [spaceSeparator, lineSeparator, paragraphSeparator]

/-- All characters that have a meaning of their own. -/
def assigned : CharSet :=
  .anyOf [letter, mark, number, punctuation, symbol, separator, control, format, privateUse]

/-- Code points that stand for nothing yet. -/
def unassigned : CharSet := assigned.compl

/-- Code points that stand for no character that can be seen. -/
def other : CharSet := .anyOf [control, format, privateUse, unassigned]

/-- The category with a name, short or long, in small letters and without marks between words. -/
def named? : String → Option CharSet
  | "any" => some .all
  | "ascii" => some (.range 0 0x7F)
  | "assigned" => some assigned
  | "l" | "letter" => some letter
  | "lc" | "casedletter" => some casedLetter
  | "lu" | "uppercaseletter" => some uppercaseLetter
  | "ll" | "lowercaseletter" => some lowercaseLetter
  | "lt" | "titlecaseletter" => some titlecaseLetter
  | "lm" | "modifierletter" => some modifierLetter
  | "lo" | "otherletter" => some otherLetter
  | "m" | "mark" | "combiningmark" => some mark
  | "mn" | "nonspacingmark" => some nonspacingMark
  | "mc" | "spacingmark" => some spacingMark
  | "me" | "enclosingmark" => some enclosingMark
  | "n" | "number" => some number
  | "nd" | "decimalnumber" | "digit" => some decimalNumber
  | "nl" | "letternumber" => some letterNumber
  | "no" | "othernumber" => some otherNumber
  | "p" | "punctuation" | "punct" => some punctuation
  | "pc" | "connectorpunctuation" => some connectorPunctuation
  | "pd" | "dashpunctuation" => some dashPunctuation
  | "ps" | "openpunctuation" => some openPunctuation
  | "pe" | "closepunctuation" => some closePunctuation
  | "pi" | "initialpunctuation" => some initialPunctuation
  | "pf" | "finalpunctuation" => some finalPunctuation
  | "po" | "otherpunctuation" => some otherPunctuation
  | "s" | "symbol" => some symbol
  | "sm" | "mathsymbol" => some mathSymbol
  | "sc" | "currencysymbol" => some currencySymbol
  | "sk" | "modifiersymbol" => some modifierSymbol
  | "so" | "othersymbol" => some otherSymbol
  | "z" | "separator" => some separator
  | "zs" | "spaceseparator" => some spaceSeparator
  | "zl" | "lineseparator" => some lineSeparator
  | "zp" | "paragraphseparator" => some paragraphSeparator
  | "c" | "other" => some other
  | "cc" | "control" | "cntrl" => some control
  | "cf" | "format" => some format
  | "co" | "privateuse" => some privateUse
  | "cn" | "unassigned" => some unassigned
  | _ => none

end Arbor.Category
