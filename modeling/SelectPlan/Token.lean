/-!
# Tokens

What a lexeme is: a mark, a name, a literal of some kind, a comparison or a
keyword.  Each token has a label, by which lexeme lists and error messages name
it, and belongs to at most one of four bands.
-/

namespace SelectPlan

/-- The keywords of the language, written as their spelling. -/
inductive Keyword
  | SELECT | FROM | JOIN | INNER | LEFT | RIGHT | FULL | OUTER | ON | WHERE | AND | OR
  | GROUP | BY | ORDER | LIMIT | OFFSET | HAVING | DISTINCT | AS
  deriving DecidableEq, Repr

namespace Keyword

/-- The keyword in upper case. -/
def spelling : Keyword → String
  | SELECT => "SELECT"
  | FROM => "FROM"
  | JOIN => "JOIN"
  | INNER => "INNER"
  | LEFT => "LEFT"
  | RIGHT => "RIGHT"
  | FULL => "FULL"
  | OUTER => "OUTER"
  | ON => "ON"
  | WHERE => "WHERE"
  | AND => "AND"
  | OR => "OR"
  | GROUP => "GROUP"
  | BY => "BY"
  | ORDER => "ORDER"
  | LIMIT => "LIMIT"
  | OFFSET => "OFFSET"
  | HAVING => "HAVING"
  | DISTINCT => "DISTINCT"
  | AS => "AS"

/-- Every keyword, once. -/
def all : List Keyword :=
  [SELECT, FROM, JOIN, INNER, LEFT, RIGHT, FULL, OUTER, ON, WHERE, AND, OR, GROUP, BY, ORDER,
   LIMIT, OFFSET, HAVING, DISTINCT, AS]

theorem mem_all (word : Keyword) : word ∈ all := by
  cases word <;> decide

/-- The keyword that a word spells, in any mixture of ASCII cases. -/
def ofWord? (word : List Char) : Option Keyword :=
  all.find? fun keyword => keyword.spelling.toList = word.map Char.toUpper

end Keyword

/-- The six comparisons. -/
inductive Comparison
  | eq | ne | lt | le | gt | ge
  deriving DecidableEq, Repr

namespace Comparison

/-- The operator as it is written. -/
def spelling : Comparison → String
  | eq => "="
  | ne => "<>"
  | lt => "<"
  | le => "<="
  | gt => ">"
  | ge => ">="

/-- Every comparison, once. -/
def all : List Comparison := [eq, ne, lt, le, gt, ge]

/-- The comparison that a text writes. -/
def ofText? (text : List Char) : Option Comparison :=
  all.find? fun comparison => comparison.spelling.toList = text

end Comparison

/-- The kinds of literal values. -/
inductive LiteralKind
  | int | float | string
  deriving DecidableEq, Repr

/-- The lexical categories.  `eof` stands for the end of the text and `illegal`
for characters that start no lexeme. -/
inductive Token
  | eof
  | illegal
  | asterisk
  | comma
  | semicolon
  | ident
  | literal (kind : LiteralKind)
  | comparison (operator : Comparison)
  | keyword (word : Keyword)
  deriving DecidableEq, Repr

namespace Token

/-- The name of a token in lexeme lists.  `GROUP` and `ORDER` carry the `BY`
that has to follow them. -/
def label : Token → String
  | eof => "EOF"
  | illegal => "ILLEGAL"
  | asterisk => "ASTERISK"
  | comma => "COMMA"
  | semicolon => "SEMICOLON"
  | ident => "IDENT"
  | literal .int => "INT"
  | literal .float => "FLOAT"
  | literal .string => "STRING"
  | comparison .eq => "EQ"
  | comparison .ne => "NEQ"
  | comparison .lt => "LT"
  | comparison .le => "LTE"
  | comparison .gt => "GT"
  | comparison .ge => "GTE"
  | keyword .GROUP => "GROUP BY"
  | keyword .ORDER => "ORDER BY"
  | keyword word => word.spelling

/-! ## Bands -/

/-- Whether a token is in the band of marks without a meaning of their own. -/
def isMisc : Token → Bool
  | asterisk => true
  | _ => false

/-- Whether a token is in the band of separators, names and values. -/
def isLiteral : Token → Bool
  | comma | semicolon | ident | literal _ => true
  | _ => false

/-- Whether a token is a comparison. -/
def isComparison : Token → Bool
  | comparison _ => true
  | _ => false

/-- Whether a token is a keyword. -/
def isKeyword : Token → Bool
  | keyword _ => true
  | _ => false

/-- Whether a statement may end at this token. -/
def isTerminal : Token → Bool
  | eof | semicolon => true
  | _ => false

/-- Whether a token is a literal value. -/
def isValue : Token → Bool
  | literal _ => true
  | _ => false

end Token

end SelectPlan
