import Dynval.Suite.Basic

/-!
# The built-in suite

The cases that every run includes unless it is told otherwise, group by group.
-/

namespace Dynval.Suite

namespace Core

/-- A case that returns a value with the given text. -/
def returns (name : String) (op : Operation) (args : List Toml) (text : String) : Case where
  name := name
  op := op
  args := args
  expect := some text

/-- A case that fails with a fault of the given kind. -/
def fails (name : String) (op : Operation) (args : List Toml) (kind : FaultKind) : Case where
  name := name
  op := op
  args := args
  raises := some kind.name

/-- A case that is always run with strict subscripts. -/
def strictly (c : Case) : Case :=
  { c with policy := some .strict }

/-- A float in decimal notation. -/
def real (text : String) : Toml :=
  .float ((Text.readFloat text).getD Binary64.nan)

/-- A tagged table. -/
def tagged (tag : String) (payload : Toml) : Toml :=
  .table [(tag, payload)]

def nil : Toml := tagged "$nil" (.boolean true)

def truth : List Case := [
  returns "truthy zero int" .truthy [.integer 0] "False",
  returns "truthy negative zero float" .truthy [real "-0.0"] "False",
  returns "truthy nan" .truthy [real "nan"] "True",
  returns "truthy empty string" .truthy [.string ""] "False",
  returns "truthy string zero" .truthy [.string "0"] "True",
  returns "truthy empty list" .truthy [.array []] "False",
  returns "truthy list of zero" .truthy [.array [.integer 0]] "True",
  returns "truthy empty map" .truthy [.table []] "False",
  returns "truthy empty bytes" .truthy [tagged "$bytes" (.array [])] "False",
  returns "truthy nil" .truthy [nil] "False"]

def conversion : List Case := [
  returns "to_int truncates positive" .toInt [real "3.9"] "3",
  returns "to_int truncates negative" .toInt [real "-3.9"] "-3",
  returns "to_int saturates" .toInt [real "1e300"] "9223372036854775807",
  returns "to_int nan" .toInt [real "nan"] "0",
  returns "to_int padded string" .toInt [.string " 42 "] "42",
  returns "to_int signed string" .toInt [.string "+7"] "7",
  returns "to_int grouped digits" .toInt [.string "1_000"] "1000",
  returns "to_int unparsable string" .toInt [.string "4a"] "0",
  returns "to_int bool" .toInt [.boolean true] "1",
  returns "to_int nil" .toInt [nil] "0",
  returns "to_float string" .toFloat [.string "2.5"] "2.5",
  returns "to_float exponent string" .toFloat [.string "1e3"] "1000.0",
  returns "to_float unparsable string" .toFloat [.string "abc"] "0.0",
  returns "to_float int" .toFloat [.integer 3] "3.0",
  returns "to_str nil is empty" .toStr [nil] "''",
  returns "to_str float" .toStr [real "2.0"] "'2.0'",
  returns "to_str list" .toStr [.array [.integer 1, .string "a"]] "\"[1, 'a']\""]

def floatText : List Case := [
  returns "float repr large positional" .toFloat [real "1e15"] "1000000000000000.0",
  returns "float repr large scientific" .toFloat [real "1e16"] "1e+16",
  returns "float repr small positional" .toFloat [real "0.0001"] "0.0001",
  returns "float repr small scientific" .toFloat [real "0.00001"] "1e-05",
  returns "float repr negative zero" .toFloat [real "-0.0"] "-0.0",
  returns "float repr infinity" .toFloat [real "-inf"] "-inf",
  returns "float repr shortest round trip" .add [real "0.1", real "0.2"] "0.30000000000000004"]

def subscripts : List Case := [
  returns "get_index wraps negative" .getIndex
    [.array [.integer 10, .integer 20, .integer 30], .integer (-1)] "30",
  returns "get_index past end yields default" .getIndex
    [.array [.integer 10, .integer 20, .integer 30], .integer 5] "0",
  returns "get_index before start yields default" .getIndex
    [.array [.integer 10, .integer 20, .integer 30], .integer (-4)] "0",
  strictly <| fails "get_index past end raises when strict" .getIndex
    [.array [.integer 10, .integer 20, .integer 30], .integer 5] .index,
  returns "get_index string" .getIndex [.string "abc", .integer (-1)] "'c'",
  returns "get_index string past end" .getIndex [.string "abc", .integer 3] "''",
  returns "get_index bytes" .getIndex
    [tagged "$bytes" (.array [.integer 1, .integer 2]), .integer (-1)] "2",
  returns "get_index map" .getIndex
    [tagged "$map" (.array [.array [.integer 1, .string "a"]]), .integer 1] "'a'",
  returns "get_index map missing" .getIndex
    [tagged "$map" (.array [.array [.integer 1, .string "a"]]), .integer 2] "None",
  strictly <| fails "get_index map missing raises when strict" .getIndex
    [tagged "$map" (.array [.array [.integer 1, .string "a"]]), .integer 2] .key,
  strictly <| fails "get_index scalar raises when strict" .getIndex [.integer 5, .integer 0] .type,
  returns "get_item map key" .getItem [.table [("a", .integer 1)], .string "a"] "1",
  returns "get_item map missing" .getItem [.table [("a", .integer 1)], .string "b"] "None",
  strictly <| fails "get_item map missing raises when strict" .getItem
    [.table [("a", .integer 1)], .string "b"] .key,
  returns "get_item bool index" .getItem [.array [.integer 1, .integer 2], .boolean true] "2",
  strictly <| fails "get_item string index raises when strict" .getItem
    [.array [.integer 1, .integer 2], .string "0"] .type,
  returns "set_index wraps negative" .setIndex
    [.array [.integer 1, .integer 2, .integer 3], .integer (-1), .integer 9] "[1, 2, 9]",
  returns "set_index past end is dropped" .setIndex
    [.array [.integer 1, .integer 2, .integer 3], .integer 5, .integer 9] "[1, 2, 3]",
  strictly <| fails "set_index past end raises when strict" .setIndex
    [.array [.integer 1, .integer 2, .integer 3], .integer 5, .integer 9] .index,
  returns "set_index bytearray masks" .setIndex
    [tagged "$bytearray" (.array [.integer 1, .integer 2]), .integer 0, .integer 300]
    "bytearray(b',\\x02')",
  strictly <| fails "set_index bytearray out of byte range raises when strict" .setIndex
    [tagged "$bytearray" (.array [.integer 1, .integer 2]), .integer 0, .integer 300] .value,
  returns "set_index string is dropped" .setIndex [.string "abc", .integer 0, .string "x"] "'abc'",
  strictly <| fails "set_index string raises when strict" .setIndex
    [.string "abc", .integer 0, .string "x"] .type,
  returns "set_index map inserts" .setIndex [.table [], .integer 2, .string "x"] "\x7b2: 'x'\x7d"]

def slices : List Case := [
  returns "slice negative start" .slice
    [.string "hello world", .integer (-5), .integer 11] "'world'",
  returns "slice open end" .slice
    [.array [.integer 1, .integer 2, .integer 3, .integer 4], .integer 1] "[2, 3, 4]",
  returns "slice omitted start" .slice
    [.array [.integer 1, .integer 2, .integer 3], nil, .integer 2] "[1, 2]",
  returns "slice inverted bounds" .slice
    [.array [.integer 1, .integer 2, .integer 3], .integer 2, .integer 1] "[]",
  returns "slice clamps" .slice
    [.array [.integer 1, .integer 2, .integer 3], .integer (-100), .integer 100] "[1, 2, 3]",
  returns "slice bytes" .slice
    [tagged "$bytes" (.array [.integer 97, .integer 98, .integer 99]), .integer 1] "b'bc'",
  returns "slice non-sequence" .slice [.integer 5, .integer 0, .integer 1] "None"]

def arithmetic : List Case := [
  returns "floordiv rounds toward negative infinity" .floordiv [.integer (-7), .integer 2] "-4",
  returns "floordiv negative divisor" .floordiv [.integer 7, .integer (-2)] "-4",
  returns "floordiv float" .floordiv [real "-7.0", .integer 2] "-4.0",
  returns "floordiv wraps at 64 bits" .floordiv
    [.integer (-9223372036854775808), .integer (-1)] "-9223372036854775808",
  fails "floordiv by zero" .floordiv [.integer 7, .integer 0] .divisionByZero,
  fails "floordiv by float zero" .floordiv [real "7.5", real "0.0"] .divisionByZero,
  fails "floordiv string" .floordiv [.string "a", .integer 1] .type,
  returns "mod takes divisor sign" .mod [.integer (-7), .integer 2] "1",
  returns "mod negative divisor" .mod [.integer 7, .integer (-2)] "-1",
  returns "mod float" .mod [real "-7.5", .integer 2] "0.5",
  returns "mod float negative divisor" .mod [real "5.5", .integer (-2)] "-0.5",
  fails "mod by zero" .mod [.integer 1, .integer 0] .divisionByZero,
  returns "add ints" .add [.integer 1, .integer 2] "3",
  returns "add promotes to float" .add [.integer 1, real "2.5"] "3.5",
  returns "add bools" .add [.boolean true, .boolean true] "2",
  returns "add wraps at 64 bits" .add
    [.integer 9223372036854775807, .integer 1] "-9223372036854775808",
  returns "add strings" .add [.string "a", .string "b"] "'ab'",
  returns "add lists" .add [.array [.integer 1], .array [.integer 2]] "[1, 2]",
  returns "add bytearray and bytes" .add
    [tagged "$bytearray" (.array [.integer 1]), tagged "$bytes" (.array [.integer 2])]
    "bytearray(b'\\x01\\x02')",
  returns "add bytes and bytearray" .add
    [tagged "$bytes" (.array [.integer 104]), tagged "$bytearray" (.array [.integer 105])] "b'hi'",
  fails "add string and int" .add [.string "a", .integer 1] .type,
  returns "sub ints" .sub [.integer 5, .integer 7] "-2",
  returns "sub float" .sub [real "1.5", .integer 1] "0.5",
  returns "mul repeats string" .mul [.string "ab", .integer 3] "'ababab'",
  returns "mul repeats string from the right" .mul [.integer 3, .string "ab"] "'ababab'",
  returns "mul repeats list" .mul [.array [.integer 1, .integer 2], .integer 2] "[1, 2, 1, 2]",
  returns "mul negative count" .mul [.array [.integer 1], .integer (-1)] "[]",
  returns "mul nested rows" .mul [.array [.array [.integer 0]], .integer 3] "[[0], [0], [0]]",
  returns "mul numbers" .mul [.integer 2, real "2.5"] "5.0",
  fails "mul string by float" .mul [.string "a", real "1.5"] .type,
  returns "truediv always float" .truediv [.integer 4, .integer 2] "2.0",
  returns "truediv fraction" .truediv [.integer 1, .integer 3] "0.3333333333333333",
  fails "truediv by zero" .truediv [.integer 1, real "0.0"] .divisionByZero,
  returns "neg int" .neg [.integer 5] "-5",
  returns "neg zero float" .neg [real "0.0"] "-0.0",
  returns "neg bool" .neg [.boolean true] "-1",
  fails "neg string" .neg [.string "a"] .type]

def ordering : List Case := [
  returns "compare int and float equal" .compare [.integer 1, real "1.0"] "0",
  returns "compare ints" .compare [.integer 1, .integer 2] "-1",
  returns "compare int and float exactly" .compare
    [.integer 9007199254740993, real "9007199254740992.0"] "1",
  returns "compare strings" .compare [.string "b", .string "a"] "1",
  returns "compare lists" .compare
    [.array [.integer 1, .integer 2], .array [.integer 1, .integer 2, .integer 0]] "-1",
  returns "compare nan is unordered" .compare [real "nan", .integer 1] "None",
  fails "compare string and int" .compare [.string "a", .integer 1] .type,
  returns "min of arguments" .min [.integer 3, .integer 1, .integer 2] "1",
  returns "max of list" .max [.array [.integer 3, .integer 1, .integer 2]] "3",
  returns "max mixed numbers" .max [.integer 1, real "2.5"] "2.5",
  returns "min keeps first on tie" .min [.integer 1, real "1.0"] "1",
  returns "min strings" .min [.string "b", .string "a"] "'a'",
  fails "min of empty list" .min [.array []] .value,
  fails "max of string and int" .max [.integer 1, .string "a"] .type]

def factories : List Case := [
  returns "bytearray zero filled" .bytearray [.integer 3] "bytearray(b'\\x00\\x00\\x00')",
  returns "bytearray negative length" .bytearray [.integer (-1)] "bytearray(b'')",
  returns "bytearray masks elements" .bytearray
    [.array [.integer 300, .integer (-1), .integer 65]] "bytearray(b',\\xffA')",
  returns "bytearray from string" .bytearray [.string "hi"] "bytearray(b'hi')",
  fails "bytearray from nil" .bytearray [nil] .type,
  returns "bytes from list" .bytes [.array [.integer 104, .integer 105]] "b'hi'",
  returns "bytes zero filled" .bytes [.integer 2] "b'\\x00\\x00'",
  returns "bytes of masked bytearray" .bytes
    [tagged "$bytearray" (.array [.integer 256, .integer 511])] "b'\\x00\\xff'",
  fails "bytes from float" .bytes [real "2.0"] .type,
  returns "list_repeat scalar" .listRepeat [.integer 0, .integer 3] "[0, 0, 0]",
  returns "list_repeat rows" .listRepeat [.array [.integer 0], .integer 3] "[[0], [0], [0]]",
  returns "list_repeat zero count" .listRepeat [.string "x", .integer 0] "[]",
  returns "list_repeat negative count" .listRepeat [.integer 1, .integer (-2)] "[]",
  returns "range ascending" .range [.integer 0, .integer 5, .integer 1] "[0, 1, 2, 3, 4]",
  returns "range descending" .range [.integer 5, .integer 0, .integer (-2)] "[5, 3, 1]",
  returns "range stop only" .range [.integer 3] "[0, 1, 2]",
  returns "range empty" .range [.integer 5, .integer 2] "[]",
  returns "range negative stop" .range [.integer (-3)] "[]",
  fails "range zero step" .range [.integer 0, .integer 5, .integer 0] .value,
  returns "enumerate list" .enumerate [.array [.string "a", .string "b"]] "[[0, 'a'], [1, 'b']]",
  returns "enumerate string" .enumerate [.string "hi"] "[[0, 'h'], [1, 'i']]",
  returns "enumerate map keys in order" .enumerate
    [.table [("a", .integer 2), ("b", .integer 1)]] "[[0, 'a'], [1, 'b']]",
  returns "enumerate scalar" .enumerate [.integer 5] "[]"]

def characters : List Case := [
  returns "isdigit empty" .isdigit [.string ""] "False",
  returns "isdigit digits" .isdigit [.string "42"] "True",
  returns "isdigit mixed" .isdigit [.string "4a"] "False",
  returns "isdigit non-ascii digit" .isdigit [.string "٣"] "False",
  fails "isdigit int" .isdigit [.integer 1] .type,
  returns "isalpha letters" .isalpha [.string "abcXYZ"] "True",
  returns "isalpha with digit" .isalpha [.string "ab1"] "False",
  returns "isalpha non-ascii letter" .isalpha [.string "é"] "False",
  returns "isspace whitespace" .isspace [.string " \t\n"] "True",
  returns "isspace empty" .isspace [.string ""] "False",
  returns "isalnum letters and digits" .isalnum [.string "a1"] "True",
  returns "isalnum with space" .isalnum [.string "a 1"] "False",
  returns "ord ascii" .ord [.string "A"] "65",
  returns "ord non-ascii" .ord [.string "é"] "233",
  fails "ord long string" .ord [.string "ab"] .type,
  fails "ord int" .ord [.integer 1] .type,
  returns "chr ascii" .chr [.integer 65] "'A'",
  returns "chr non-ascii" .chr [.integer 233] "'é'",
  fails "chr negative" .chr [.integer (-1)] .value,
  fails "chr past unicode" .chr [.integer 1114112] .value]

def membership : List Case := [
  returns "len counts characters" .len [.string "héllo"] "5",
  returns "len list" .len [.array [.integer 1, .integer 2]] "2",
  returns "len map" .len [.table [("a", .integer 1)]] "1",
  returns "len bytes" .len [tagged "$bytes" (.array [.integer 1, .integer 2, .integer 3])] "3",
  fails "len int" .len [.integer 5] .type,
  returns "contains substring" .contains [.string "hello", .string "ell"] "True",
  returns "contains numeric equality" .contains
    [.array [.integer 1, .integer 2], real "2.0"] "True",
  returns "contains map key" .contains [.table [("a", .integer 1)], .string "a"] "True",
  fails "contains unhashable map key" .contains
    [.table [("a", .integer 1)], .array [.integer 1]] .type,
  fails "contains int in string" .contains [.string "abc", .integer 1] .type,
  returns "contains byte" .contains
    [tagged "$bytes" (.array [.integer 1, .integer 2]), .integer 2] "True",
  fails "contains out of byte range" .contains
    [tagged "$bytes" (.array [.integer 1, .integer 2]), .integer 300] .value]

def textForms : List Case := [
  returns "stringify float" .stringify [real "1.0"] "'1.0'",
  returns "stringify nil" .stringify [nil] "'None'",
  returns "stringify bool" .stringify [.boolean true] "'True'",
  returns "stringify string list" .stringify [.array [.string "a"]] "\"['a']\"",
  returns "repr float" .repr [real "0.1"] "'0.1'",
  returns "repr list with nil" .repr [.array [real "1.5", nil]] "'[1.5, None]'",
  returns "print joins with spaces" .print
    [.string "a", .integer 1, nil, real "2.0"] "'a 1 None 2.0'",
  returns "print nothing" .print [] "''"]

def allocation : List Case := [
  fails "list_repeat unallocatable count" .listRepeat
    [.integer 0, .integer 9223372036854775807] .memory,
  fails "mul unallocatable string" .mul [.string "ab", .integer 9223372036854775807] .memory,
  returns "mul empty list by huge count" .mul [.array [], .integer 9223372036854775807] "[]",
  fails "bytearray unallocatable length" .bytearray [.integer 9223372036854775807] .memory,
  fails "range unallocatable length" .range [.integer 9223372036854775807] .memory]

def elementary : List Case := [
  returns "abs int" .abs [.integer (-5)] "5",
  returns "abs float" .abs [real "-2.5"] "2.5",
  returns "abs wraps at 64 bits" .abs [.integer (-9223372036854775808)] "-9223372036854775808",
  fails "abs string" .abs [.string "a"] .type,
  returns "sqrt perfect square" .sqrt [.integer 16] "4.0",
  fails "sqrt negative" .sqrt [.integer (-1)] .value,
  returns "sin zero" .sin [.integer 0] "0.0",
  fails "sin infinity" .sin [real "inf"] .value,
  returns "cos zero" .cos [real "0.0"] "1.0",
  returns "exp zero" .exp [.integer 0] "1.0",
  fails "exp overflow" .exp [.integer 1000] .overflow,
  returns "floor negative float" .floor [real "-2.5"] "-3",
  returns "floor int" .floor [.integer 7] "7",
  fails "floor infinity" .floor [real "inf"] .overflow,
  fails "floor nan" .floor [real "nan"] .value]

end Core

/-- The cases that every run includes unless it is told otherwise. -/
def core : Suite where
  name := "core"
  description := some "Behaviour every code generation target must reproduce"
  cases := Core.truth ++
    Core.conversion ++
    Core.floatText ++
    Core.subscripts ++
    Core.slices ++
    Core.arithmetic ++
    Core.ordering ++
    Core.factories ++
    Core.characters ++
    Core.membership ++
    Core.textForms ++
    Core.allocation ++
    Core.elementary

def builtin [Allocator] : Action SuiteError Suite :=
  core.accept "builtin suite"

end Dynval.Suite
