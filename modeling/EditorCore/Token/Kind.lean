/-!
# Kinds of tokens

The lexer tells kinds apart finely – every bracket and every reserved word
has its own – and editor features read them coarsely, by the `Category` a
kind falls into. Operators count as keywords, so a lone dot does too.
-/

namespace EditorCore

/-- What the lexer tells apart. -/
inductive TokenKind
  | whitespace | lineComment | blockComment
  | leftParen | rightParen | leftBracket | rightBracket | leftBrace | rightBrace
  | comma | semicolon | backtick
  | operator
  | kwAlias | kwAs | kwCase | kwElse | kwExposing | kwIf | kwImport | kwIn
  | kwInfix | kwLet | kwModule | kwOf | kwPort | kwThen | kwType | kwWhere
  | lowerIdent | upperIdent | number
  | string | multilineString | char
  | unterminatedString | unterminatedChar
  | error
  deriving DecidableEq, Repr

/-- What editor features tell apart. -/
inductive Category
  /-- Lower-case identifiers. -/
  | lowerIdentifier
  /-- Upper-case identifiers and the segments of a module path. -/
  | upperIdentifier
  /-- Reserved words and operators. -/
  | keyword
  /-- String and character literals. -/
  | string
  /-- Unterminated literals and characters that start no token. -/
  | error
  /-- White space, comments, punctuation and numbers. -/
  | other
  deriving DecidableEq, Repr

namespace TokenKind

/-- White space and comments. -/
def isTrivia : TokenKind → Bool
  | whitespace | lineComment | blockComment => true
  | _ => false

/-- Reserved words. -/
def isKeyword : TokenKind → Bool
  | kwAlias | kwAs | kwCase | kwElse | kwExposing | kwIf | kwImport | kwIn
  | kwInfix | kwLet | kwModule | kwOf | kwPort | kwThen | kwType | kwWhere => true
  | _ => false

/-- The category of a kind. -/
def category : TokenKind → Category
  | lowerIdent => .lowerIdentifier
  | upperIdent => .upperIdentifier
  | operator => .keyword
  | string | multilineString | char => .string
  | unterminatedString | unterminatedChar | error => .error
  | kind => if kind.isKeyword then .keyword else .other

/-- The name a kind is listed by. -/
def name : TokenKind → String
  | whitespace => "Whitespace"
  | lineComment => "LineComment"
  | blockComment => "BlockComment"
  | leftParen => "LParen"
  | rightParen => "RParen"
  | leftBracket => "LBracket"
  | rightBracket => "RBracket"
  | leftBrace => "LBrace"
  | rightBrace => "RBrace"
  | comma => "Comma"
  | semicolon => "Semicolon"
  | backtick => "Backtick"
  | operator => "Operator"
  | kwAlias => "KwAlias"
  | kwAs => "KwAs"
  | kwCase => "KwCase"
  | kwElse => "KwElse"
  | kwExposing => "KwExposing"
  | kwIf => "KwIf"
  | kwImport => "KwImport"
  | kwIn => "KwIn"
  | kwInfix => "KwInfix"
  | kwLet => "KwLet"
  | kwModule => "KwModule"
  | kwOf => "KwOf"
  | kwPort => "KwPort"
  | kwThen => "KwThen"
  | kwType => "KwType"
  | kwWhere => "KwWhere"
  | lowerIdent => "LowerIdent"
  | upperIdent => "UpperIdent"
  | number => "Number"
  | string => "String"
  | multilineString => "MultilineString"
  | char => "Char"
  | unterminatedString => "UnterminatedString"
  | unterminatedChar => "UnterminatedChar"
  | error => "Error"

end TokenKind

namespace Category

/-- The name a category is listed by. -/
def name : Category → String
  | lowerIdentifier => "LowerIdentifier"
  | upperIdentifier => "UpperIdentifier"
  | keyword => "Keyword"
  | string => "String"
  | error => "Error"
  | other => "Other"

end Category

end EditorCore
