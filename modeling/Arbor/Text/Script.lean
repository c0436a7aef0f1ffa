import Arbor.Text.CharSet

/-!
The scripts of the Unicode standard, in its sixteenth edition. Most characters belong to one script;
others are common to all or take the script of the character before them, and of these some are
known to go with certain scripts only.
-/

namespace Arbor

/-- A script, with its names in small letters and without marks between words. -/
structure Script where
  names : List String
  /-- The runs of its characters. -/
  own : String
  /-- The runs of characters that belong to no single script but go with this one. -/
  further : String := ""

namespace Script

/-- The scripts. -/
def table : List Script :=
  [⟨["adlm", "adlam"], "1E900-4B 50-9 E-F", "61F 40 204F E41"⟩,
   ⟨["ahom"], "11700-1A D-2B 30-46", ""⟩,
   ⟨["hluw", "anatolianhieroglyphs"], "14400-646", ""⟩,
   ⟨["arab", "arabic"],
     "600-4 6-B D-1A C-E 20-3F 41-A 56-6F 71-DC E-FF 750-7F 870-8E 90-1 7-E1 3-FF FB50-C2 D3-D3D
      40-8F 92-C7 F F0-F E70-4 6-FC 10E60-7E C2-4 FC-F EE00-3 5-1F 21-2 4 7 9-32 4-7 9 B 42 7/B D-F
      51-2 4 7/F 61-2 4 7-A C-72 4-7 9-C E 80-9 B-9B A1-3 5-9 B-BB F0-1",
     "60C 1B F 40 B-55 70 204F E41 FD3E-F 102E0-FB"⟩,
   ⟨["armn", "armenian"], "531-56 9-8A D-F FB13-7", "308"⟩,
   ⟨["avst", "avestan"], "10B00-35 10B39-F", "B7 2E30-1"⟩,
   ⟨["bali", "balinese"], "1B00-4C 1B4E-7F", ""⟩,
   ⟨["bamu", "bamum"], "A6A0-F7 16800-A38", ""⟩,
   ⟨["bass", "bassavah"], "16AD0-ED 16AF0-5", ""⟩,
   ⟨["batk", "batak"], "1BC0-F3 1BFC-F", ""⟩,
   ⟨["beng", "bengali"],
     "980-3 5-C F-90 3-A8 A-B0 2 6-9 C-C4 7-8 B-E D7 C-D F-E3 6-FE",
     "2BC 951-2 64-5 1CD0 2 5-6 8 E1 A D F2 5-7 A8F1"⟩,
   ⟨["bhks", "bhaiksuki"], "11C00-8 A-36 8-45 50-6C", ""⟩,
   ⟨["bopo", "bopomofo"],
     "2EA-B 3105-2F A0-BF",
     "2C7 9-B D9 3001-3 8-11 3-F 2A-D 30 7 FB FE45-6 F61-5"⟩,
   ⟨["brah", "brahmi"], "11000-4D 52-75 F", ""⟩,
   ⟨["brai", "braille"], "2800-FF", ""⟩,
   ⟨["bugi", "buginese"], "1A00-1B 1A1E-F", "A9CF"⟩,
   ⟨["buhd", "buhid"], "1740-53", "1735-6"⟩,
   ⟨["cans", "canadianaboriginal"], "1400-67F 8B0-F5 11AB0-F", ""⟩,
   ⟨["cari", "carian"], "102A0-D0", "B7 205A D E31"⟩,
   ⟨["aghb", "caucasianalbanian"], "10530-63 1056F", "304 31 5E"⟩,
   ⟨["cakm", "chakma"], "11100-34 11136-47", "9E6-F 1040-9"⟩,
   ⟨["cham"], "AA00-36 40-D 50-9 C-F", ""⟩,
   ⟨["cher", "cherokee"], "13A0-F5 8-D AB70-BF", "300-2 4 B-C 23-4 30-1"⟩,
   ⟨["chrs", "chorasmian"], "10FB0-CB", ""⟩,
   ⟨["zyyy", "common"],
     "0-40 5B-60 7B-A9 B-B9 B-F D7 F7 2B9-DF E5-9 C-FF 374 E 85 7 605 C 1B F 40 DD 8E2 964-5 E3F
      FD5-8 10FB 6EB-D 735-6 802-3 5 CD3 E1 9-C E-F3 5-7 A 2000-B E-64 6-70 4-E 80-E A0-C0 100-25
      7-9 C-31 3-4D F-5F 89-B 90-429 40-A 60-7FF 900-B73 6-95 7-FF E00-5D FF0-3004 6 8-20 30-7 C-F
      9B-C A0 FB-C 190-F C0-E5 F 220-5F 7F-CF FF 358-FF 4DC0-FF A700-21 88-A 830-9 92E CF B5B 6A-B
      FD3E-F E10-9 30-52 4-66 8-B FF F01-20 3B-40 5B-65 70 9E-F E0-6 8-E F9-D 10100-2 7-33 7-F 90-C
      D0-FC 2E1-FB BCA0-3 CC00-F9 D00-EB3 F50-C3 D000-F5 100-26 9-66 A-7A 83-4 C-A9 E-EA 2C0-D3
      E0-F3 300-56 60-78 400-54 6-9C E-F A2 5-6 9-C E-B9 B D-C3 5-505 7-A D-14 6-C E-39 B-E 40-4 6
      A-50 2-6A5 8-7CB E-FF EC71-B4 D01-3D F000-2B 30-93 A0-E B1-F C1-F D1-F5 100-AD E6-FF 201-2
      10-3B 40-8 50-1 60-5 300-6D7 C-EC F0-C 700-76 B-D9 E0-B F0 800-B 10-47 50-9 60-87 90-AD B0-B
      C0-1 900-A53 60-D 70-C 80-9 F-C6 E-DC F-E9 F0-8 B00-92 4-F9 E0001 20-7F", ""⟩,
   ⟨["xsux", "cuneiform"], "12000-399 400-6E 70-4 80-543", ""⟩,
   ⟨["cprt", "cypriot"],
     "10800-5 8 A-35 7-8 C F",
     "10100-2 7-33 7-F"⟩,
   ⟨["cpmn", "cyprominoan"], "12F90-F2", "10100-1"⟩,
   ⟨["cyrl", "cyrillic"],
     "400-84 7-52F 1C80-A D2B 78 2DE0-FF A640-9F FE2E-F 1E030-6D 8F",
     "2BC 300-2 4/8 B 11 485-6 1DF8 2E43"⟩,
   ⟨["dsrt", "deseret"], "10400-4F", ""⟩,
   ⟨["deva", "devanagari"],
     "900-50 5-63 6-7F A8E0-FF 11B00-9",
     "2BC 951-2 64-5 1CD0-F6 8-9 20F0 A830-9"⟩,
   ⟨["diak", "divesakuru"],
     "11900-6 9 C-13 5-6 8-35 7-8 B-46 50-9", ""⟩,
   ⟨["dogr", "dogra"], "11800-3B", "964-F A830-9"⟩,
   ⟨["dupl", "duployan"],
     "1BC00-6A 70-C 80-8 90-9 C-F",
     "B7 307-8 A 23-4 2E3C 1BCA0-3"⟩,
   ⟨["egyp", "egyptianhieroglyphs"], "13000-455 13460-43FA", ""⟩,
   ⟨["elba", "elbasan"], "10500-27", "B7 305"⟩,
   ⟨["elym", "elymaic"], "10FE0-F6", ""⟩,
   ⟨["ethi", "ethiopic"],
     "1200-48 A-D 50-6 8 A-D 60-88 A-D 90-B0 2-5 8-E C0 2-5 8-D6 8-310 2-5 8-5A D-7C 80-99 2D80-96
      A0-6 8-E B0-6 8-E C0-6 8-E D0-6 8-E AB01-6 9-E 11-6 20-6 8-E 1E7E0-6 8-B D-E F0-E",
     "30E"⟩,
   ⟨["gara", "garay"], "10D40-65 9-85 E-F", "60C 1B F"⟩,
   ⟨["geor", "georgian"],
     "10A0-C5 7 D D0-FA C-F C90-BA D-F 2D00-25 7 D",
     "B7 589 10FB 205A E31"⟩,
   ⟨["glag", "glagolitic"],
     "2C00-5F 1E000-6 8-18 B-21 3-4 6-A",
     "B7 303 5 484 7 589 10FB 205A E43 A66F"⟩,
   ⟨["goth", "gothic"], "10330-4A", "B7 304-5 8 31"⟩,
   ⟨["gran", "grantha"],
     "11300-3 5-C F-10 3-28 A-30 2-3 5-9 C-44 7-8 B-D 50 7 D-63 6-C 70-4",
     "951-2 64-5 BE6-F3 1CD0 2-3 F2-4 8-9 20F0 1133B FD0-1 3"⟩,
   ⟨["grek", "greek"],
     "370-3 5-7 A-D F 84 6 8-A C E-A1 3-E1 F0-F 1D26-A 5D-61 6-A BF F00-15 8-D 20-45 8-D 50-7 9/D
      F-7D 80-B4 6-C4 6-D3 6-B D-EF F2-4 6-E 2126 AB65 10140-8E A0 D200-45",
     "B7 300-1 4/8 13 42 5 74 1DC0-1 205D"⟩,
   ⟨["gujr", "gujarati"],
     "A81-3 5-D F-91 3-A8 A-B0 2-3 5-9 C-C5 7-9 B-D D0 E0-3 6-F1 9-F",
     "951-2 64-5 A830-9"⟩,
   ⟨["gong", "gunjalagondi"],
     "11D60-5 7-8 A-8E 90-1 3-8 A0-9",
     "B7 964-5"⟩,
   ⟨["guru", "gurmukhi"],
     "A01-3 5-A F-10 3-28 A-30 2-3 5-6 8-9 C E-42 7-8 B-D 51 9-C E 66-76",
     "951-2 64-5 A830-9"⟩,
   ⟨["gukh", "gurungkhema"], "16100-39", "965"⟩,
   ⟨["hani", "han"],
     "2E80-99 B-F3 F00-D5 3005 7 21-9 38-B 400-4DBF E00-9FFF F900-A6D 70-D9 16FE2-3 F0-1 20000-A6DF
      700-B739 40-81D 20-CEA1 B0-EBE0 F0-E5D F800-A1D 30000-134A 50-23AF",
     "B7 2FF0-F 3001-3 6 8-11 3-F 2A-D 30 7 C-F FB 190-F C0-E5 F 220-47 80-B0 C0-B FF 358-70 B-F
      E0-FE A700-7 FE45-6 F61-5 1D360-71 F250-1"⟩,
   ⟨["hang", "hangul"],
     "1100-FF 302E-F 131-8E 200-1E 60-7E A960-7C C00-D7A3 B0-C6 B-FB FFA0-BE C2-7 A-F D2-7 A-C",
     "3001-3 8-11 3-F 30 7 FB FE45-6 F61-5"⟩,
   ⟨["rohg", "hanifirohingya"], "10D00-27 10D30-9", "60C 1B F 40 D4"⟩,
   ⟨["hano", "hanunoo"], "1720-34", "1735-6"⟩,
   ⟨["hatr", "hatran"], "108E0-F2 4-5 B-F", ""⟩,
   ⟨["hebr", "hebrew"],
     "591-C7 D0-EA F-F4 FB1D-36 8-C E 40-1 3-4 6-F",
     "307-8"⟩,
   ⟨["hira", "hiragana"],
     "3041-96 D-F 1B001-11F 32 50-2 F200",
     "3001-3 8-11 3-F 30-5 7 C-D 99-C A0 FB-C FE45-6 F61-5 70 9E-F"⟩,
   ⟨["armi", "imperialaramaic"], "10840-55 10857-F", ""⟩,
   ⟨["phli", "inscriptionalpahlavi"], "10B60-72 10B78-F", ""⟩,
   ⟨["prti", "inscriptionalparthian"], "10B40-55 10B58-F", ""⟩,
   ⟨["java", "javanese"], "A980-CD D0-9 E-F", "A9CF"⟩,
   ⟨["kthi", "kaithi"], "11080-C2 110CD", "966-F 2E31 A830-9"⟩,
   ⟨["knda", "kannada"],
     "C80-C E-90 2-A8 A-B3 5-9 C-C4 6-8 A-D D5-6 D-E E0-3 6-F F1-3",
     "951-2 64-5 1CD0 2-3 A F2 4 A830-5"⟩,
   ⟨["kana", "katakana"],
     "30A1-FA D-F 1F0-F 2D0-FE 300-57 FF66-F 71-9D 1AFF0-3 5-B D-E B000 120-2 55 64-7",
     "305 23 3001-3 8-11 3-F 30-5 7 C-D 99-C A0 FB-C FE45-6 F61-5 70 9E-F"⟩,
   ⟨["kawi"], "11F00-10 2-3A E-5A", ""⟩,
   ⟨["kali", "kayahli"], "A900-2D A92F", "A92E"⟩,
   ⟨["khar", "kharoshthi"],
     "10A00-3 5-6 C-13 5-7 9-35 8-A F-48 50-8", ""⟩,
   ⟨["kits", "khitansmallscript"], "16FE4 8B00-CD5 FF", ""⟩,
   ⟨["khmr", "khmer"], "1780-DD E0-9 F0-9 9E0-FF", ""⟩,
   ⟨["khoj", "khojki"], "11200-11 11213-41", "AE6-F A830-9"⟩,
   ⟨["sind", "khudawadi"], "112B0-EA 112F0-9", "964-5 A830-9"⟩,
   ⟨["krai", "kiratrai"], "16D40-79", ""⟩,
   ⟨["laoo", "lao"],
     "E81-2 4 6-A C-A3 5 7-BD C0-4 6 8-E D0-9 C-F", ""⟩,
   ⟨["latn", "latin"],
     "41-5A 61-7A AA BA C0-D6 8-F6 8-2B8 E0-4 1D00-25 C-5C 62-5 B-77 9-BE E00-FF 2071 F 90-C 12A-B
      32 4E 60-88 C60-7F A722-87 B-CD D0-1 3 5-C F2-F B30-5A C-64 6-9 FB00-6 F21-3A 41-5A 10780-5
      7-B0 2-A DF00-1E 25-A",
     "B7 2BC C7 9-B D D7 9 300-E 10-1 3 20 3-5 D-E 30-1 58 E 63-F 485-6 951-2 10FB DF8 202F F0 E17
      A700-7 92E"⟩,
   ⟨["lepc", "lepcha"], "1C00-37 B-49 D-F", ""⟩,
   ⟨["limb", "limbu"], "1900-1E 20-B 30-B 40 4-F", "965"⟩,
   ⟨["lina", "lineara"], "10600-736 40-55 60-7", "10107-33"⟩,
   ⟨["linb", "linearb"],
     "10000-B D-26 8-3A C-D F-4D 50-D 80-FA",
     "10100-2 7-33 7-F"⟩,
   ⟨["lisu"], "A4D0-FF 11FB0", "2BC CD 300A-B"⟩,
   ⟨["lyci", "lycian"], "10280-9C", "205A"⟩,
   ⟨["lydi", "lydian"], "10920-39 1093F", "B7 2E31"⟩,
   ⟨["mahj", "mahajani"], "11150-76", "B7 964-F A830-9"⟩,
   ⟨["maka", "makasar"], "11EE0-F8", ""⟩,
   ⟨["mlym", "malayalam"],
     "D00-C E-10 2-44 6-8 A-F 54-63 6-7F",
     "951-2 64-5 1CDA F2 A830-2"⟩,
   ⟨["mand", "mandaic"], "840-5B 85E", "640"⟩,
   ⟨["mani", "manichaean"], "10AC0-E6 10AEB-F6", "640"⟩,
   ⟨["marc", "marchen"], "11C70-8F 92-A7 9-B6", ""⟩,
   ⟨["gonm", "masaramgondi"],
     "11D00-6 8-9 B-36 A C-D F-47 50-9",
     "964-5"⟩,
   ⟨["medf", "medefaidrin"], "16E40-9A", ""⟩,
   ⟨["mtei", "meeteimayek"], "AAE0-F6 BC0-ED F0-9", ""⟩,
   ⟨["mend", "mendekikakui"], "1E800-C4 1E8C7-D6", ""⟩,
   ⟨["merc", "meroiticcursive"], "109A0-B7 C-CF D2-FF", ""⟩,
   ⟨["mero", "meroitichieroglyphs"], "10980-9F", "205D"⟩,
   ⟨["plrd", "miao"], "16F00-4A F-87 F-9F", ""⟩,
   ⟨["modi"], "11600-44 11650-9", "A830-9"⟩,
   ⟨["mong", "mongolian"],
     "1800-1 4 6-19 20-78 80-AA 11660-C",
     "1802-3 5 202F 3001-2 8-B"⟩,
   ⟨["mroo", "mro"], "16A40-5E 60-9 E-F", ""⟩,
   ⟨["mult", "multani"], "11280-6 8 A-D F-9D F-A9", "A66-F"⟩,
   ⟨["mymr", "myanmar"], "1000-9F A9E0-FE A60-7F 116D0-E3", "A92E"⟩,
   ⟨["nbat", "nabataean"], "10880-9E 108A7-F", ""⟩,
   ⟨["nagm", "nagmundari"], "1E4D0-F9", ""⟩,
   ⟨["nand", "nandinagari"],
     "119A0-7 A-D7 A-E4",
     "964-5 CE6-F 1CE9 F2 A A830-5"⟩,
   ⟨["talu", "newtailue"], "1980-AB B0-C9 D0-A E-F", ""⟩,
   ⟨["newa"], "11400-5B 1145D-61", ""⟩,
   ⟨["nkoo", "nko"], "7C0-FA 7FD-F", "60C 1B F FD3E-F"⟩,
   ⟨["nshu", "nushu"], "16FE1 1B170-2FB", ""⟩,
   ⟨["hmnp", "nyiakengpuachuehmong"], "1E100-2C 30-D 40-9 E-F", ""⟩,
   ⟨["ogam", "ogham"], "1680-9C", ""⟩,
   ⟨["olck", "olchiki"], "1C50-7F", ""⟩,
   ⟨["onao", "olonal"], "1E5D0-FA 1E5FF", "964-5"⟩,
   ⟨["hung", "oldhungarian"], "10C80-B2 C0-F2 A-F", "205A D E31 41"⟩,
   ⟨["ital", "olditalic"], "10300-23 1032D-F", ""⟩,
   ⟨["narb", "oldnortharabian"], "10A80-9F", ""⟩,
   ⟨["perm", "oldpermic"], "10350-7A", "B7 300 6-8 13 483"⟩,
   ⟨["xpeo", "oldpersian"], "103A0-C3 103C8-D5", ""⟩,
   ⟨["sogo", "oldsogdian"], "10F00-27", ""⟩,
   ⟨["sarb", "oldsoutharabian"], "10A60-7F", ""⟩,
   ⟨["orkh", "oldturkic"], "10C00-48", "205A 2E30"⟩,
   ⟨["ougr", "olduyghur"], "10F70-89", "640 10AF2"⟩,
   ⟨["orya", "oriya"],
     "B01-3 5-C F-10 3-28 A-30 2-3 5-9 C-44 7-8 B-D 55-7 C-D F-63 6-77",
     "951-2 64-5 1CDA F2"⟩,
   ⟨["osge", "osage"], "104B0-D3 104D8-FB", "301 4 B 58"⟩,
   ⟨["osma", "osmanya"], "10480-9D 104A0-9", ""⟩,
   ⟨["hmng", "pahawhhmong"], "16B00-45 50-9 B-61 3-77 D-8F", ""⟩,
   ⟨["palm", "palmyrene"], "10860-7F", ""⟩,
   ⟨["pauc", "paucinhau"], "11AC0-F8", ""⟩,
   ⟨["phag", "phagspa"], "A840-77", "1802-3 5 202F 3002"⟩,
   ⟨["phnx", "phoenician"], "10900-1B 1091F", ""⟩,
   ⟨["phlp", "psalterpahlavi"], "10B80-91 9-C A9-F", "640"⟩,
   ⟨["copt", "coptic", "qaac"],
     "3E2-F 2C80-F3 9-F",
     "B7 300 4-5 7 74-5 2E17 102E0-FB"⟩,
   ⟨["zinh", "inherited", "qaai"],
     "300-6F 485-6 64B-55 70 951-4 1AB0-CE CD0-2 4-E0 2-8 D F4 8-9 DC0-FF 200C-D D0-F0 302A-D 99-A
      FE00-F 20-D 101FD 2E0 133B CF00-2D 30-46 D167-9 7B-82 5-B AA-D E0100-EF", ""⟩,
   ⟨["rjng", "rejang"], "A930-53 A95F", ""⟩,
   ⟨["runr", "runic"], "16A0-EA 16EE-F8", "16EB-D"⟩,
   ⟨["samr", "samaritan"], "800-2D 830-E", "2E31"⟩,
   ⟨["saur", "saurashtra"], "A880-C5 A8CE-D9", ""⟩,
   ⟨["shrd", "sharada"], "11180-DF", "951 1CD7 9 C-D E0 A830-5 8"⟩,
   ⟨["shaw", "shavian"], "10450-7F", "B7"⟩,
   ⟨["sidd", "siddham"], "11580-B5 115B8-DD", ""⟩,
   ⟨["sgnw", "signwriting"], "1D800-A8B 9B-F A1-F", ""⟩,
   ⟨["sinh", "sinhala"],
     "D81-3 5-96 A-B1 3-B D C0-6 A F-D4 6 8-F E6-F F2-4 111E1-F4",
     "964-5 1CF2"⟩,
   ⟨["sogd", "sogdian"], "10F30-59", "640"⟩,
   ⟨["sora", "sorasompeng"], "110D0-E8 110F0-9", ""⟩,
   ⟨["soyo", "soyombo"], "11A50-A2", ""⟩,
   ⟨["sund", "sundanese"], "1B80-BF 1CC0-7", ""⟩,
   ⟨["sunu", "sunuwar"], "11BC0-E1 11BF0-9", "300-1 3 D 10 2D 31"⟩,
   ⟨["sylo", "sylotinagri"], "A800-2C", "964-5 9E6-F"⟩,
   ⟨["syrc", "syriac"],
     "700-D F-4A D-F 860-A",
     "303-4 7-8 A 20 3-5 D-E 30 60C 1B-C F 40 B-55 70 1DF8 A"⟩,
   ⟨["tglg", "tagalog"], "1700-15 171F", "1735-6"⟩,
   ⟨["tagb", "tagbanwa"], "1760-C E-70 2-3", "1735-6"⟩,
   ⟨["tale", "taile"], "1950-6D 1970-4", "300-1 7-8 C 1040-9"⟩,
   ⟨["lana", "taitham"], "1A20-5E 60-7C F-89 90-9 A0-D", ""⟩,
   ⟨["tavt", "taiviet"], "AA80-C2 AADB-F", ""⟩,
   ⟨["takr", "takri"], "11680-B9 116C0-9", "964-5 A830-9"⟩,
   ⟨["taml", "tamil"],
     "B82-3 5-A E-90 2-5 9-A C E-F A3-4 8-A E-B9 E-C2 6-8 A-D D0 7 E6-FA 11FC0-F1 F",
     "951-2 64-5 1CDA A8F3 11301 3 3B-C"⟩,
   ⟨["tnsa", "tangsa"], "16A70-BE 16AC0-9", ""⟩,
   ⟨["tang", "tangut"], "16FE0 7000-87F7 800-AFF D00-8", "2FF0-F 31EF"⟩,
   ⟨["telu", "telugu"],
     "C00-C E-10 2-28 A-39 C-44 6-8 A-D 55-6 8-A D 60-3 6-F 77-F",
     "951-2 64-5 1CDA F2"⟩,
   ⟨["thaa", "thaana"], "780-B1", "60C 1B-C F 60-9 FDF2 D"⟩,
   ⟨["thai"], "E01-3A E40-5B", "2BC D7 303 31"⟩,
   ⟨["tibt", "tibetan"], "F00-47 9-6C 71-97 9-BC E-CC E-D4 9-A", "3008-B"⟩,
   ⟨["tfng", "tifinagh"], "2D30-67 F-70 F", "302 4 7 9"⟩,
   ⟨["tirh", "tirhuta"], "11480-C7 114D0-9", "951-2 64-5 1CF2 A830-9"⟩,
   ⟨["todr", "todhri"], "105C0-F3", "301 4 7 11 3 5E"⟩,
   ⟨["toto"], "1E290-AE", "2BC"⟩,
   ⟨["tutg", "tulutigalari"],
     "11380-9 B E 90-B5 7-C0 2 5 7-A C-D5 7-8 E1-2",
     "CE6-F 1CF2 4 A830-5 F1"⟩,
   ⟨["ugar", "ugaritic"], "10380-9D 1039F", ""⟩,
   ⟨["vaii", "vai"], "A500-62B", ""⟩,
   ⟨["vith", "vithkuqi"],
     "10570-A C-8A C-92 4-5 7-A1 3-B1 3-9 B-C", ""⟩,
   ⟨["wcho", "wancho"], "1E2C0-F9 1E2FF", ""⟩,
   ⟨["wara", "warangciti"], "118A0-F2 118FF", ""⟩,
   ⟨["yezi", "yezidi"], "10E80-A9 B-D B0-1", "60C 1B F 60-9"⟩,
   ⟨["yiii", "yi"], "A000-48C A490-C6", "3001-2 8-11 4-B FB FF61-5"⟩,
   ⟨["zanb", "zanabazarsquare"], "11A00-47", ""⟩]

/-- The script with a name. -/
def named? (name : String) : Option Script :=
  table.find? (·.names.contains name)

/-- The characters of the script. -/
def characters (s : Script) : CharSet := .ofRuns s.own

/-- The characters that go with certain scripts only, though they belong to none of them. -/
def shared : CharSet := .anyOf (table.map (.ofRuns ·.further))

/-- The characters that go with the script. Those shared by certain scripts count neither as common
to all nor as taking the script of what stands before them. -/
def extended (s : Script) : CharSet :=
  if s.names.contains "common" || s.names.contains "inherited" then s.characters.diff shared
  else s.characters.union (.ofRuns s.further)

end Script

end Arbor
