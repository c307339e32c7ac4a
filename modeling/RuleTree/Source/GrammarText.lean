/-!
# The packaged grammar

The text of the grammar that is read when no other is asked for, and the line ends of a grammar
that is read from a file.
-/

namespace RuleTree

/-- The text of the packaged grammar. -/
def grammarText : String :=
  "\n".intercalate [
    "// Tessel surface grammar.",
    "// Rule names are the tags the tree builders dispatch on; keep them in sync",
    "// with RULE in ast_nodes.py.",
    "",
    "main: stmt*",
    "",
    "stmt: expr \";\"",
    "",
    "expr: term (operator term)?",
    "",
    "term: value",
    "    | \"(\" expr \")\"",
    "",
    "value: primitive_value",
    "     | string",
    "     | array",
    "     | tuple",
    "",
    "primitive_value: integer",
    "               | float",
    "               | char",
    "",
    "array: \"[\" [_exprs] \"]\"",
    "",
    "tuple: \"(\" \")\"",
    "     | \"(\" expr \",\" [_exprs] \")\"",
    "",
    "_exprs: expr (\",\" expr)* [\",\"]",
    "",
    "operator: op_add | op_sub | op_mul | op_div | op_pow",
    "op_add: \"+\"",
    "op_sub: \"-\"",
    "op_mul: \"*\"",
    "op_div: \"/\"",
    "op_pow: \"**\"",
    "",
    "integer: integer_dec | integer_bin | integer_oct | integer_hex",
    "integer_dec: DEC_INT",
    "integer_bin: BIN_INT",
    "integer_oct: OCT_INT",
    "integer_hex: HEX_INT",
    "",
    "float: FLOAT",
    "char: CHAR",
    "string: STRING",
    "",
    "// FLOAT accepts a radix-prefixed integer part; only the radix_floats",
    "// option knows how to decode it.",
    "FLOAT.3: /(?:0[xX][0-9a-fA-F]+|0[bB][01]+|0[oO][0-7]+|[0-9]+)\\.[0-9]+/",
    "HEX_INT.2: /0[xX][0-9a-fA-F]+/",
    "BIN_INT.2: /0[bB][01]+/",
    "OCT_INT.2: /0[oO][0-7]+/",
    "DEC_INT: /[0-9]+/",
    "CHAR: /'[^'\\n]*'/",
    "STRING: /\"(?:\\\\.|[^\"\\\\\\n])*\"/",
    "",
    "COMMENT: /\\/\\/[^\\n]*/",
    "",
    "%import common.WS",
    "%ignore WS",
    "%ignore COMMENT",
    ""]

/-- The characters of a text with every line end written as a line feed: a carriage return counts as
one, alone or together with the line feed after it. -/
def unifyLineEnds : List Char → List Char
  | '\r' :: '\n' :: cs => '\n' :: unifyLineEnds cs
  | '\r' :: cs => '\n' :: unifyLineEnds cs
  | c :: cs => c :: unifyLineEnds cs
  | [] => []

/-- The text of a grammar file with the given content. -/
def readGrammarFile (content : String) : String :=
  String.ofList (unifyLineEnds content.toList)

end RuleTree
