namespace Weave

/-!
# Names of the built-in functions

The functions every script can use.  The reserved names that start with an
underscore are what operators and infix words call; the sum is not among them,
because it is called from a position.
-/

/-- The functions that are built in. -/
inductive Builtin where
  | concat
  | diff
  | abs
  | avg
  | ceil
  | contains
  | endsWith
  | entriesOf
  | entrySet
  | isBlank
  | isDecimal
  | filterObject
  | find
  | divideBy
  | mergeWith
  | filter
  | nameSet
  | keySet
  | valueSet
  | takeWhile
  | everyEntry
  | someEntry
  | floor
  | flatMap
  | flatten
  | isEmpty
  | isInteger
  | isEven
  | isOdd
  | indexOf
  | joinBy
  | keysOf
  | lower
  | lastIndexOf
  | maximum
  | minimum
  | maxBy
  | minBy
  | now
  | distinctBy
  | groupBy
  | orderBy
  | groups
  | fullMatch
  | round
  | splitBy
  | range
  | sizeOf
  | startsWith
  | sum
  | trim
  | pluck
  | upper
  | valuesOf
  | log
  | logDebug
  | logInfo
  | logWarn
  | logError
  | random
  | randomInt
  | times
  | divide
  | mapItems
  | reduceItems
  | filterItems
  | flatMapItems
  | distinctItems
  | rangeItems
  | equal
  | notEqual
  | greater
  | less
  | greaterEqual
  | lessEqual
  | both
  | either
  deriving Repr, DecidableEq

namespace Builtin

def name : Builtin → String
  | .concat => "_binary_concat"
  | .diff => "_binary_diff"
  | .abs => "abs"
  | .avg => "avg"
  | .ceil => "ceil"
  | .contains => "contains"
  | .endsWith => "endsWith"
  | .entriesOf => "entriesOf"
  | .entrySet => "entrySet"
  | .isBlank => "isBlank"
  | .isDecimal => "isDecimal"
  | .filterObject => "filterObject"
  | .find => "find"
  | .divideBy => "divideBy"
  | .mergeWith => "mergeWith"
  | .filter => "filter"
  | .nameSet => "nameSet"
  | .keySet => "keySet"
  | .valueSet => "valueSet"
  | .takeWhile => "takeWhile"
  | .everyEntry => "everyEntry"
  | .someEntry => "someEntry"
  | .floor => "floor"
  | .flatMap => "flatMap"
  | .flatten => "flatten"
  | .isEmpty => "isEmpty"
  | .isInteger => "isInteger"
  | .isEven => "isEven"
  | .isOdd => "isOdd"
  | .indexOf => "indexOf"
  | .joinBy => "joinBy"
  | .keysOf => "keysOf"
  | .lower => "lower"
  | .lastIndexOf => "lastIndexOf"
  | .maximum => "max"
  | .minimum => "min"
  | .maxBy => "maxBy"
  | .minBy => "minBy"
  | .now => "now"
  | .distinctBy => "distinctBy"
  | .groupBy => "groupBy"
  | .orderBy => "orderBy"
  | .groups => "match"
  | .fullMatch => "matches"
  | .round => "round"
  | .splitBy => "splitBy"
  | .range => "to"
  | .sizeOf => "sizeOf"
  | .startsWith => "startsWith"
  | .sum => "sum"
  | .trim => "trim"
  | .pluck => "pluck"
  | .upper => "upper"
  | .valuesOf => "valuesOf"
  | .log => "log"
  | .logDebug => "logDebug"
  | .logInfo => "logInfo"
  | .logWarn => "logWarn"
  | .logError => "logError"
  | .random => "random"
  | .randomInt => "randomInt"
  | .times => "_binary_times"
  | .divide => "_binary_divide"
  | .mapItems => "_infix_map"
  | .reduceItems => "_infix_reduce"
  | .filterItems => "_infix_filter"
  | .flatMapItems => "_infix_flatMap"
  | .distinctItems => "_infix_distinctBy"
  | .rangeItems => "_infix_to"
  | .equal => "_binary_eq"
  | .notEqual => "_binary_neq"
  | .greater => "_binary_gt"
  | .less => "_binary_lt"
  | .greaterEqual => "_binary_gte"
  | .lessEqual => "_binary_lte"
  | .both => "_binary_and"
  | .either => "_binary_or"

/-- The functions that modules find among their variables, in order. -/
def core : List Builtin :=
  [.concat, .diff, .abs, .avg, .ceil, .contains, .endsWith, .entriesOf, .entrySet, .isBlank,
    .isDecimal, .filterObject, .find, .divideBy, .mergeWith, .filter, .nameSet, .keySet, .valueSet,
    .takeWhile, .everyEntry, .someEntry, .floor, .flatMap, .flatten, .isEmpty, .isInteger, .isEven,
    .isOdd, .indexOf, .joinBy, .keysOf, .lower, .lastIndexOf, .maximum, .minimum, .maxBy, .minBy,
    .now, .distinctBy, .groupBy, .orderBy, .groups, .fullMatch, .round, .splitBy, .range, .sizeOf,
    .startsWith, .sum, .trim, .pluck, .upper, .valuesOf, .log, .logDebug, .logInfo, .logWarn,
    .logError, .random, .randomInt]

/-- The functions that operators and infix words call beyond the core. -/
def operators : List Builtin :=
  [.times, .divide, .mapItems, .reduceItems, .filterItems, .flatMapItems, .distinctItems,
    .rangeItems, .equal, .notEqual, .greater, .less, .greaterEqual, .lessEqual, .both, .either]

def inCore? (name : String) : Option Builtin :=
  core.find? fun builtin => builtin.name == name

/-- The function or operator with a name. -/
def named? (name : String) : Option Builtin :=
  (core ++ operators).find? fun builtin => builtin.name == name

/-- How many arguments must be given. -/
def leastArguments : Builtin → Nat
  | .now | .random => 0
  | .abs | .avg | .ceil | .entriesOf | .entrySet | .isBlank | .isDecimal | .nameSet | .keySet
  | .valueSet | .floor | .flatten | .isEmpty | .isInteger | .isEven | .isOdd | .keysOf | .lower
  | .maximum | .minimum | .round | .sizeOf | .sum | .trim | .upper | .valuesOf | .randomInt
  | .log | .logDebug | .logInfo | .logWarn | .logError => 1
  | _ => 2

/-- How many arguments may be given. -/
def mostArguments : Builtin → Nat
  | .log | .logDebug | .logInfo | .logWarn | .logError => 2
  | builtin => builtin.leastArguments

end Builtin

end Weave
