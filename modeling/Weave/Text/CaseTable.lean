namespace Weave.Text

/-!
# Case tables

What the letters beyond ASCII become in the other case.  Most small letters and their capitals are
each other's other case: they stand side by side, or a run of small letters lies at one distance
from the run of capitals.  Letters for which this holds in one direction only, those that become
several characters, and those whose title form is not their upper case are listed on their own.
-/

/-- Runs of pairs, in which a small letter follows its capital: the first capital and the number of
pairs. -/
def pairRuns : List (Nat × Nat) :=
  [
    (256,24),(306,3),(313,8),(330,23),(377,3),(386,2),(391,1),(395,1),(401,1),(408,1),(416,3),
    (423,1),(428,1),(431,1),(435,2),(440,1),(444,1),(461,8),(478,9),(500,1),(504,20),(546,9),
    (571,1),(577,1),(582,5),(880,2),(886,1),(984,12),(1015,1),(1018,1),(1120,17),(1162,27),(1217,7),
    (1232,48),(7680,75),(7840,48),(8579,1),(11360,1),(11367,3),(11378,1),(11381,1),(11392,50),
    (11499,2),(11506,1),(42560,23),(42624,14),(42786,7),(42802,31),(42873,2),(42878,5),(42891,1),
    (42896,2),(42902,10),(42932,8),(42951,2),(42960,1),(42966,2),(42997,1)]

/-- Runs of letters that move by one distance: the first letter, their number and the distance. -/
abbrev CaseRuns :=
  List (Nat × Nat × Int)

/-- The runs of small letters whose capitals have them as their lower case. -/
def shiftRuns : CaseRuns :=
  [
    (224,23,-32),(248,7,-32),(255,1,121),(384,1,195),(405,1,97),(410,1,163),(414,1,130),(447,1,56),
    (454,1,-2),(457,1,-2),(460,1,-2),(477,1,-79),(499,1,-2),(575,2,10815),(592,1,10783),
    (593,1,10780),(594,1,10782),(595,1,-210),(596,1,-206),(598,2,-205),(601,1,-202),(603,1,-203),
    (604,1,42319),(608,1,-205),(609,1,42315),(611,1,-207),(613,1,42280),(614,1,42308),(616,1,-209),
    (617,1,-211),(618,1,42308),(619,1,10743),(620,1,42305),(623,1,-211),(625,1,10749),(626,1,-213),
    (629,1,-214),(637,1,10727),(640,1,-218),(642,1,42307),(643,1,-218),(647,1,42282),(648,1,-218),
    (649,1,-69),(650,2,-217),(652,1,-71),(658,1,-219),(669,1,42261),(670,1,42258),(891,3,130),
    (940,1,-38),(941,3,-37),(945,17,-32),(963,9,-32),(972,1,-64),(973,2,-63),(983,1,-8),(1010,1,7),
    (1011,1,-116),(1072,32,-32),(1104,16,-80),(1231,1,-15),(1377,38,-48),(4304,43,3008),
    (4349,3,3008),(5112,6,-8),(7545,1,35332),(7549,1,3814),(7566,1,35384),(7936,8,8),(7952,6,8),
    (7968,8,8),(7984,8,8),(8000,6,8),(8017,1,8),(8019,1,8),(8021,1,8),(8023,1,8),(8032,8,8),
    (8048,2,74),(8050,4,86),(8054,2,100),(8056,2,128),(8058,2,112),(8060,2,126),(8112,2,8),
    (8144,2,8),(8160,2,8),(8165,1,7),(8526,1,-28),(8560,16,-16),(9424,26,-26),(11312,48,-48),
    (11365,1,-10795),(11366,1,-10792),(11520,38,-7264),(11559,1,-7264),(11565,1,-7264),(42900,1,48),
    (43859,1,-928),(43888,80,-38864),(65345,26,-32),(66600,40,-40),(66776,36,-40),(66967,11,-39),
    (66979,15,-39),(66995,7,-39),(67003,2,-39),(68800,51,-64),(71872,32,-32),(93792,32,-32),
    (125218,34,-34)]

/-- The runs of letters that are not the lower case of their upper case. -/
def upperOnlyRuns : CaseRuns :=
  [
    (181,1,743),(305,1,-232),(383,1,-300),(453,1,-1),(456,1,-1),(459,1,-1),(498,1,-1),(837,1,84),
    (962,1,-31),(976,1,-62),(977,1,-57),(981,1,-47),(982,1,-54),(1008,1,-86),(1009,1,-80),
    (1013,1,-96),(7296,1,-6254),(7297,1,-6253),(7298,1,-6244),(7299,2,-6242),(7301,1,-6243),
    (7302,1,-6236),(7303,1,-6181),(7304,1,35266),(7835,1,-59),(8126,1,-7205)]

/-- The runs of letters that are not the upper case of their lower case. -/
def lowerOnlyRuns : CaseRuns :=
  [
    (453,1,1),(456,1,1),(459,1,1),(498,1,1),(1012,1,-60),(7838,1,-7615),(8072,8,-8),(8088,8,-8),
    (8104,8,-8),(8124,1,-9),(8140,1,-9),(8188,1,-9),(8486,1,-7517),(8490,1,-8383),(8491,1,-8262)]

/-- The Greek letters with an iota, eight small ones and eight capitals with each first letter. -/
def iotaSequences : List (Nat × List Nat) :=
  [(8064, 7944), (8080, 7976), (8096, 8040)].flatMap fun (first, capital) =>
    (List.range 16).map fun offset => (first + offset, [capital + offset % 8, 921])

def upperSequences : List (Nat × List Nat) :=
  iotaSequences ++ [
    (223, [83, 83]), (329, [700, 78]), (496, [74, 780]), (912, [921, 776, 769]),
    (944, [933, 776, 769]), (1415, [1333, 1362]), (7830, [72, 817]), (7831, [84, 776]),
    (7832, [87, 778]), (7833, [89, 778]), (7834, [65, 702]), (8016, [933, 787]),
    (8018, [933, 787, 768]), (8020, [933, 787, 769]), (8022, [933, 787, 834]), (8114, [8122, 921]),
    (8115, [913, 921]), (8116, [902, 921]), (8118, [913, 834]), (8119, [913, 834, 921]),
    (8124, [913, 921]), (8130, [8138, 921]), (8131, [919, 921]), (8132, [905, 921]),
    (8134, [919, 834]), (8135, [919, 834, 921]), (8140, [919, 921]), (8146, [921, 776, 768]),
    (8147, [921, 776, 769]), (8150, [921, 834]), (8151, [921, 776, 834]), (8162, [933, 776, 768]),
    (8163, [933, 776, 769]), (8164, [929, 787]), (8166, [933, 834]), (8167, [933, 776, 834]),
    (8178, [8186, 921]), (8179, [937, 921]), (8180, [911, 921]), (8182, [937, 834]),
    (8183, [937, 834, 921]), (8188, [937, 921]), (64256, [70, 70]), (64257, [70, 73]),
    (64258, [70, 76]), (64259, [70, 70, 73]), (64260, [70, 70, 76]), (64261, [83, 84]),
    (64262, [83, 84]), (64275, [1348, 1350]), (64276, [1348, 1333]), (64277, [1348, 1339]),
    (64278, [1358, 1350]), (64279, [1348, 1341])]

def lowerSequences : List (Nat × List Nat) :=
  [(304, [105, 775])]

/-- The runs of letters whose title form is a letter other than their upper case. -/
def titleRuns : CaseRuns :=
  [
    (452,1,1),(453,1,0),(454,1,-1),(455,1,1),(456,1,0),(457,1,-1),(458,1,1),(459,1,0),(460,1,-1),
    (497,1,1),(498,1,0),(499,1,-1),(4304,43,0),(4349,3,0),(8064,8,8),(8072,8,0),(8080,8,8),
    (8088,8,0),(8096,8,8),(8104,8,0),(8115,1,9),(8124,1,0),(8131,1,9),(8140,1,0),(8179,1,9),
    (8188,1,0)]

/-- The letters whose title form is a sequence other than their upper case. -/
def titleSequences : List (Nat × List Nat) :=
  [
    (223,[83,115]),(1415,[1333,1410]),(8114,[8122,837]),(8116,[902,837]),(8119,[913,834,837]),
    (8130,[8138,837]),(8132,[905,837]),(8135,[919,834,837]),(8178,[8186,837]),(8180,[911,837]),
    (8183,[937,834,837]),(64256,[70,102]),(64257,[70,105]),(64258,[70,108]),(64259,[70,102,105]),
    (64260,[70,102,108]),(64261,[83,116]),(64262,[83,116]),(64275,[1348,1398]),(64276,[1348,1381]),
    (64277,[1348,1387]),(64278,[1358,1398]),(64279,[1348,1389])]

/-- The letters that have a case and are not skipped around a sigma. -/
def casedRuns : List Nat :=
  [
    65,26,6,26,47,1,10,1,4,1,5,23,1,31,1,195,1,4,4,208,1,27,192,4,2,2,3,3,1,1,6,1,1,3,1,1,1,20,1,83,
    1,139,8,166,1,38,9,41,2839,38,1,1,5,1,2,43,2,3,672,86,2,6,2178,9,7,43,2,3,64,44,63,13,1,34,101,
    278,2,6,2,38,2,6,2,8,1,1,1,1,1,1,1,31,2,53,1,7,1,1,3,3,1,7,3,4,2,6,4,13,5,3,1,7,261,1,4,1,2,10,
    1,1,3,5,6,1,1,1,1,1,1,4,1,6,4,1,2,4,5,5,4,1,17,32,3,2,817,52,1814,124,2,103,6,4,3,2,12,38,1,1,5,
    1,30994,46,18,28,134,78,1,23,3,4,1,59,5,2,1,1,1,5,27,2,3,1,821,43,5,9,7,80,20288,7,12,5,1033,26,
    6,26,1189,80,96,36,4,36,116,11,1,15,1,7,1,2,1,11,1,15,1,7,1,2,1731,51,13,51,2989,64,21856,64,
    25984,85,1,71,1,2,2,1,2,2,2,4,1,12,1,1,1,7,1,65,1,4,2,8,1,7,1,28,1,4,1,5,1,1,3,7,1,340,2,25,1,
    25,1,31,1,25,1,31,1,25,1,31,1,25,1,31,1,25,1,8,1844,10,1,20,2529,68,2028,26,6,26,6,26]

def skippedRuns : List Nat :=
  [
    39,1,6,1,11,1,35,1,1,1,71,1,4,1,1,1,4,1,2,2,503,192,4,2,4,1,9,2,1,1,251,7,207,1,5,1,49,45,1,1,1,
    2,1,2,1,1,44,1,11,6,10,11,1,1,35,1,10,21,16,1,101,8,1,10,1,4,33,1,1,1,30,27,91,11,58,11,4,1,2,1,
    24,24,43,3,44,1,7,2,6,8,41,58,55,1,1,1,4,8,4,1,3,7,10,2,13,1,15,1,58,1,4,4,8,1,20,2,26,1,2,2,57,
    1,4,2,4,2,2,3,3,1,30,2,3,1,11,2,57,1,4,5,1,2,4,1,20,2,22,6,1,1,58,1,2,1,1,4,8,1,7,2,11,2,30,1,
    61,1,12,1,50,1,3,1,55,1,1,3,5,3,1,4,7,2,11,2,29,1,58,1,2,1,6,1,5,2,20,2,28,2,57,2,4,4,8,1,20,2,
    29,1,72,1,7,3,1,1,90,1,2,7,11,9,98,1,2,9,9,1,1,6,74,2,27,1,1,1,1,1,55,14,1,5,1,2,5,11,1,36,9,1,
    102,4,1,6,1,2,2,2,25,2,4,3,16,4,13,1,2,2,6,1,15,1,94,1,608,3,946,3,29,2,30,2,30,2,64,2,1,7,8,1,
    2,11,3,1,5,1,45,5,51,1,65,2,34,1,118,3,4,2,9,1,6,3,219,2,2,1,58,1,1,7,1,1,1,1,2,8,6,10,2,1,39,1,
    8,31,49,4,48,1,1,5,1,1,5,1,40,9,12,2,32,4,2,2,1,3,56,1,1,2,3,1,1,3,58,8,2,2,64,6,82,3,1,13,1,7,
    4,1,6,1,3,2,50,63,13,1,34,101,445,1,1,3,11,3,13,3,13,3,13,2,12,5,8,2,10,1,2,1,2,5,49,5,1,10,1,1,
    13,1,16,13,51,33,2955,2,113,3,125,1,15,1,96,32,47,1,469,1,36,4,3,5,5,1,93,6,93,3,28438,1,1250,6,
    270,1,98,4,1,10,1,1,28,4,80,2,14,34,78,1,23,3,103,3,3,2,8,1,3,1,4,1,25,2,5,1,151,2,26,18,13,1,
    38,8,25,11,46,3,48,1,2,4,2,2,17,1,21,2,66,6,2,2,2,2,12,1,8,1,35,1,11,1,51,1,1,3,2,2,5,2,1,1,27,
    1,14,2,5,2,1,1,100,5,9,3,121,1,2,1,4,1,20272,1,147,17,573,16,3,1,12,16,34,1,2,1,169,1,7,1,6,1,
    11,1,35,1,1,1,47,1,45,2,67,1,21,3,513,1,226,1,149,5,1029,6,1,42,1,9,582,3,1,2,5,4,40,3,4,1,165,
    2,573,4,387,2,153,11,49,4,123,1,54,15,41,1,2,2,10,3,49,4,2,2,2,1,4,1,10,1,50,3,36,5,1,8,62,1,12,
    2,52,9,10,4,2,1,95,3,2,1,1,2,6,1,160,1,3,8,21,2,57,2,3,1,37,7,3,5,195,8,2,3,1,1,23,1,84,6,1,1,4,
    2,1,2,238,4,6,2,1,2,27,2,85,8,2,1,1,2,106,1,1,1,2,6,1,1,101,3,2,4,1,5,259,9,1,2,256,2,1,1,4,1,
    144,4,2,2,4,1,32,10,40,6,2,4,8,1,9,6,2,3,46,13,1,2,406,7,1,6,1,1,82,22,2,7,1,2,1,2,122,6,3,1,1,
    2,1,7,1,1,72,2,3,1,1,1,347,2,5435,9,14007,5,59,7,9,4,1035,1,63,17,64,2,1,2,16395,4,1,7,1,2,3230,
    2,1,4,4700,46,2,23,544,3,9,16,2,7,30,4,148,3,1979,55,4,50,8,1,14,1,22,5,1,15,1360,7,1,17,2,7,1,
    2,1,5,261,14,368,1,61,4,1504,7,109,8,2735,5,789505,1,30,96,128,240]

end Weave.Text
