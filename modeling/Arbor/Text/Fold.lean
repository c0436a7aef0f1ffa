import Arbor.Text.CharSet

/-!
Letters that differ in case only. Each letter folds to one letter of its kind, and two letters are
the same but for case if they fold to one.
-/

namespace Arbor

/-- The letters that do not fold to themselves: runs of letters, each with what the first letter of
the run folds to. -/
def foldRuns : String :=
  "41-5A>61 B5>3BC 0C0-D6>E0 D8-E>F8 100/2E>01 32/6>3 9/47>3A 4A/76>4B 78>0FF 179/D>A F>073 181>253
    182/4>3 6>254 187>8 9-A>256 18B>C E>DD 8F>259 190>25B 191>2 3>260 194>263 196>269 197>268 198>9
    C>26F 19D>272 19F>275 1A0/4>1 6>280 1A7>8 9>283 1AC>D E>288 1AF>B0 1-2>28A 1B3/5>4 7>292 1B8>9
    C>D C4>6 5>6 7>9 8>9 A>C B/DB>CC DE/EE>DF F1>3 2/4>3 6>95 F7>BF F8/21E>1F9 220>19E 222/32>23
    3A>2C65 023B>C D>19A 23E>2C66 0241>2 3>180 244>89 45>8C 46/E>7 345>B9 70/2>1 6>7 F>F3 86>AC
    88-A>AD 8C>CC 8E-F>CD 91-A1>B1 A3-B>C3 2>3 F>D7 0>B2 D1>B8 D5>C6 D6>C0 D8/EE>D9 F0>BA F1>C1
    F4>B8 F5>B5 F7>8 9>2 A>B D-F>7B 400-F>50 10-2F>30 60/80>61 8A/BE>8B C0>F 1/D>2 D0/52E>4D1
    531-56>61 10A0-C5>2D00 10C7>2D27 10CD>2D2D 13F8-D>0 C80>0432 1C81>0434 1C82>043E 1C83-4>0441
    1C85>0442 1C86>044A 1C87>0463 1C88>A64B 1C89>A 90-BA>0D0 CBD-F>0FD E00/94>01 9B>61 9E>00DF
    1EA0/FE>A1 F08-F>0 18-D>0 28-F>0 38-F>0 48-D>0 59/F>1 68-F>0 88-F>0 98-F>0 A8-F>0 B8-9>0 A-B>70
    BC>3 E>03B9 1FC8-B>72 CC>3 D3>0390 1FD8-9>0 A-B>76 E3>03B0 1FE8-9>0 A-B>7A EC>5 F8-9>78 FA-B>7C
    FC>3 2126>03C9 212A>006B 212B>00E5 2132>4E 60-F>70 83>4 4B6-CF>D0 C00-2F>30 60>1 2>026B
    2C63>1D7D 2C64>027D 2C67/B>8 D>0251 2C6E>0271 2C6F>0250 2C70>0252 2C72>3 5>6 E-F>023F 2C80/E2>81
    EB/D>C F2>3 A640/6C>41 80/9A>81 722/E>3 32/6E>33 79/B>A D>1D79 A77E/86>7F 8B>C D>0265 A790/2>1
    6/A8>97 AA>0266 A7AB>025C A7AC>0261 A7AD>026C A7AE>026A A7B0>029E A7B1>0287 A7B2>029D A7B3>B53
    7B4/C2>B5 C4>94 C5>0282 A7C6>1D8E A7C7/9>8 B>0264 A7CC>D D0>1 6/A>7 C>019B A7F5>6 B70-BF>13A0
    FB05>6 F21-3A>41 10400-27>8 B0-D3>8 570-A>97 7C-8A>A3 8C-92>B3 94-5>BB C80-B2>C0 D50-65>70
    18A0-BF>C0 6E40-5F>60 E900-21>2"

/-- The letters of runs and what they fold to, which lies at a constant distance. -/
def foldPairsOf : List CharRun → List (Nat × Nat)
  | letters :: target :: rest =>
    letters.members.map (fun n => (n, target.first + (n - letters.first))) ++ foldPairsOf rest
  | _ => []

/-- The letters that do not fold to themselves, each with what it folds to. -/
def foldPairs : List (Nat × Nat) := foldPairsOf (CharRun.read foldRuns)

namespace CharSet

/-- The set with all characters that differ from a member in case only. -/
def withCases (s : CharSet) : CharSet :=
  let t := s.union (.ofList ((foldPairs.filter (s.contains ·.1)).map (·.2)))
  t.union (.ofList ((foldPairs.filter (t.contains ·.2)).map (·.1)))

/-- The set with all ASCII letters that differ from a member in case only. -/
def withAsciiCases (s : CharSet) : CharSet :=
  let pairs := (List.range 26).map fun i => (0x41 + i, 0x61 + i)
  s.union (.ofList ((pairs.filter fun p => s.contains p.1 || s.contains p.2).flatMap fun p =>
    [p.1, p.2]))

end CharSet

end Arbor
