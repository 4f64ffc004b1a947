import IlsCompiler.Text.Cluster

namespace IlsCompiler.Text

/-!
# Width on a terminal

How many columns text takes, and text cut down to a number of columns.
-/

/-- Characters that take two columns, as ascending ranges with both ends included. -/
def wideRanges : List (Nat × Nat) := [
  (4352, 4447), (8986, 8987), (9001, 9002), (9193, 9196), (9200, 9200),
  (9203, 9203), (9725, 9726), (9748, 9749), (9800, 9811), (9855, 9855),
  (9875, 9875), (9889, 9889), (9898, 9899), (9917, 9918), (9924, 9925),
  (9934, 9934), (9940, 9940), (9962, 9962), (9970, 9971), (9973, 9973),
  (9978, 9978), (9981, 9981), (9989, 9989), (9994, 9995), (10024, 10024),
  (10060, 10060), (10062, 10062), (10067, 10069), (10071, 10071), (10133, 10135),
  (10160, 10160), (10175, 10175), (11035, 11036), (11088, 11088), (11093, 11093),
  (11904, 11929), (11931, 12019), (12032, 12245), (12272, 12350), (12353, 12438),
  (12441, 12543), (12549, 12591), (12593, 12686), (12688, 12771), (12783, 12830),
  (12832, 12871), (12880, 19903), (19968, 42124), (42128, 42182), (43360, 43388),
  (44032, 55203), (63744, 64255), (65040, 65049), (65072, 65106), (65108, 65126),
  (65128, 65131), (65281, 65376), (65504, 65510), (94176, 94180), (94192, 94193),
  (94208, 100343), (100352, 101589), (101632, 101640), (110576, 110579), (110581, 110587),
  (110589, 110590), (110592, 110882), (110898, 110898), (110928, 110930), (110933, 110933),
  (110948, 110951), (110960, 111355), (126980, 126980), (127183, 127183), (127374, 127374),
  (127377, 127386), (127488, 127490), (127504, 127547), (127552, 127560), (127568, 127569),
  (127584, 127589), (127744, 127776), (127789, 127797), (127799, 127868), (127870, 127891),
  (127904, 127946), (127951, 127955), (127968, 127984), (127988, 127988), (127992, 128062),
  (128064, 128064), (128066, 128252), (128255, 128317), (128331, 128334), (128336, 128359),
  (128378, 128378), (128405, 128406), (128420, 128420), (128507, 128591), (128640, 128709),
  (128716, 128716), (128720, 128722), (128725, 128727), (128732, 128735), (128747, 128748),
  (128756, 128764), (128992, 129003), (129008, 129008), (129292, 129338), (129340, 129349),
  (129351, 129535), (129648, 129660), (129664, 129672), (129680, 129725), (129727, 129733),
  (129742, 129755), (129760, 129768), (129776, 129784), (131072, 196605), (196608, 262141)]

/-- Marks that take no column of their own. -/
def combiningRanges : List (Nat × Nat) := [
  (768, 879), (1155, 1159), (2027, 2035), (3072, 3072), (3076, 3076),
  (3315, 3315), (3328, 3329), (4957, 4959), (6783, 6783), (6832, 6862),
  (7019, 7027), (7616, 7679), (8400, 8432), (11503, 11505), (11744, 11775),
  (12441, 12442), (42607, 42610), (42612, 42621), (42654, 42655), (42736, 42737),
  (43232, 43249), (65056, 65071), (66045, 66045), (66422, 66426), (69291, 69292),
  (69446, 69456), (69506, 69509), (70400, 70401), (70459, 70460), (70502, 70508),
  (70512, 70516), (92912, 92916), (118528, 118573), (118576, 118598), (119141, 119145),
  (119149, 119154), (119163, 119170), (119173, 119179), (119210, 119213), (119362, 119364),
  (122880, 122886), (122888, 122904), (122907, 122913), (122915, 122916), (122918, 122922),
  (123023, 123023), (125136, 125142)]

/-- Characters that are not shown. -/
def invisibleRanges : List (Nat × Nat) := [
  (0, 31), (127, 159), (173, 173), (1807, 1807), (6155, 6158),
  (8203, 8207), (8232, 8238), (8298, 8303), (65279, 65279), (65529, 65531),
  (65534, 65535)]

/-- The columns that a character takes. -/
def charWidth (value : Char) : Nat :=
  let code := value.toNat
  if inRanges invisibleRanges code then 0
  else if code < 0x300 then 1
  else if inRanges combiningRanges code then 0
  else if inRanges wideRanges code then 2
  else 1

/-- The columns that a cluster takes: those of its first character that takes any. -/
def clusterWidth (cluster : List Char) : Nat :=
  ((cluster.map charWidth).find? fun width => width != 0).getD 0

/-- The columns that a text takes. -/
def textWidth (text : String) : Nat :=
  (clusters text.toList).foldl (fun width cluster => width + clusterWidth cluster) 0

/-- The clusters at the front that fit into a number of columns. -/
def fittingClusters (width : Nat) : List (List Char) → List Char
  | [] => []
  | cluster :: rest =>
      if clusterWidth cluster ≤ width then
        cluster ++ fittingClusters (width - clusterWidth cluster) rest
      else
        []

/-- The characters at the front that fit into a number of columns. -/
def fittingChars (width : Nat) : List Char → List Char
  | [] => []
  | value :: rest =>
      if charWidth value ≤ width then
        value :: fittingChars (width - charWidth value) rest
      else
        []

/-- What stands for the part of a text that was cut off. -/
def ellipsis : String := "..."

/--
A text in at most a number of columns. It is cut at the front, since the end of a
path says more than its start; where there is no room for the ellipsis it is cut at
the end.
-/
def shorten (width : Int) (text : String) : String :=
  if width ≤ 0 || (textWidth text : Int) ≤ width then
    text
  else if width ≤ ellipsis.length then
    String.ofList (fittingClusters width.toNat (clusters text.toList))
  else
    ellipsis ++
      String.ofList (fittingChars (width.toNat - ellipsis.length) text.toList.reverse).reverse

/-- Characters with tabs as blanks and line ends of one kind. -/
def plainBlanks : List Char → List Char
  | [] => []
  | '\t' :: rest => ' ' :: ' ' :: ' ' :: ' ' :: plainBlanks rest
  | '\r' :: '\n' :: rest => '\n' :: plainBlanks rest
  | value :: rest => value :: plainBlanks rest

/-- Characters split at every line end. -/
def splitLines : List Char → List (List Char)
  | [] => [[]]
  | value :: rest =>
      if value = '\n' then
        [] :: splitLines rest
      else
        match splitLines rest with
        | [] => [[value]]
        | line :: others => (value :: line) :: others

/-- A text without tabs whose lines, if there are several, take the same number of columns. -/
def evenLines (text : String) : String :=
  let lines := (splitLines (plainBlanks text.toList)).map String.ofList
  let widest := (lines.map textWidth).foldl max 0
  "\n".intercalate (lines.map fun line =>
    line ++ String.ofList (List.replicate (widest - textWidth line) ' '))

end IlsCompiler.Text
