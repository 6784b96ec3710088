/-!
# Kinds of tokens

Words with a meaning in some contexts only, such as `async` and `of`, are identifiers.
-/
namespace Uncurry

inductive TokenKind
  | number | bigInt | string | regex | template | templateHead | templateMiddle | templateTail
  | identifier | privateName
  | kwBreak | kwCase | kwCatch | kwClass | kwConst | kwContinue | kwDebugger | kwDefault
  | kwDelete | kwDo | kwElse | kwExport | kwExtends | kwFinally | kwFor | kwFunction | kwIf
  | kwImport | kwIn | kwInstanceof | kwNew | kwReturn | kwSuper | kwSwitch | kwThis | kwThrow
  | kwTry | kwTypeof | kwVar | kwVoid | kwWhile | kwWith | kwTrue | kwFalse | kwNull
  | plus | minus | star | slash | percent | starStar | plusPlus | minusMinus | ampersand | pipe
  | caret | tilde | shiftLeft | shiftRight | shiftRightUnsigned | looseEqual | looseUnequal
  | strictEqual | strictUnequal | less | lessEqual | greater | greaterEqual | logicalAnd
  | logicalOr | coalesce | bang | assign | plusAssign | minusAssign | starAssign | slashAssign
  | percentAssign | starStarAssign | shiftLeftAssign | shiftRightAssign
  | shiftRightUnsignedAssign | ampersandAssign | pipeAssign | caretAssign | logicalAndAssign
  | logicalOrAssign | coalesceAssign
  | leftParen | rightParen | leftBracket | rightBracket | leftBrace | rightBrace | dot | comma
  | colon | semicolon | question | optionalChain | arrow | ellipsis | atSign
  | comment | endOfInput
  deriving DecidableEq, Inhabited

namespace TokenKind

/-- The name of a kind in listings and messages. -/
def name : TokenKind → String
  | .number => "NUMBER"
  | .bigInt => "BIGINT"
  | .string => "STRING"
  | .regex => "REGEX"
  | .template => "TEMPLATE"
  | .templateHead => "TEMPLATE_HEAD"
  | .templateMiddle => "TEMPLATE_MIDDLE"
  | .templateTail => "TEMPLATE_TAIL"
  | .identifier => "IDENT"
  | .privateName => "PRIVATE_NAME"
  | .kwBreak => "BREAK"
  | .kwCase => "CASE"
  | .kwCatch => "CATCH"
  | .kwClass => "CLASS"
  | .kwConst => "CONST"
  | .kwContinue => "CONTINUE"
  | .kwDebugger => "DEBUGGER"
  | .kwDefault => "DEFAULT"
  | .kwDelete => "DELETE"
  | .kwDo => "DO"
  | .kwElse => "ELSE"
  | .kwExport => "EXPORT"
  | .kwExtends => "EXTENDS"
  | .kwFinally => "FINALLY"
  | .kwFor => "FOR"
  | .kwFunction => "FUNCTION"
  | .kwIf => "IF"
  | .kwImport => "IMPORT"
  | .kwIn => "IN"
  | .kwInstanceof => "INSTANCEOF"
  | .kwNew => "NEW"
  | .kwReturn => "RETURN"
  | .kwSuper => "SUPER"
  | .kwSwitch => "SWITCH"
  | .kwThis => "THIS"
  | .kwThrow => "THROW"
  | .kwTry => "TRY"
  | .kwTypeof => "TYPEOF"
  | .kwVar => "VAR"
  | .kwVoid => "VOID"
  | .kwWhile => "WHILE"
  | .kwWith => "WITH"
  | .kwTrue => "TRUE"
  | .kwFalse => "FALSE"
  | .kwNull => "NULL"
  | .plus => "PLUS"
  | .minus => "MINUS"
  | .star => "STAR"
  | .slash => "SLASH"
  | .percent => "MOD"
  | .starStar => "POW"
  | .plusPlus => "INCR"
  | .minusMinus => "DECR"
  | .ampersand => "AMP"
  | .pipe => "PIPE"
  | .caret => "CARET"
  | .tilde => "TILDE"
  | .shiftLeft => "SHL"
  | .shiftRight => "SHR"
  | .shiftRightUnsigned => "USHR"
  | .looseEqual => "EQ"
  | .looseUnequal => "NEQ"
  | .strictEqual => "SEQ"
  | .strictUnequal => "SNEQ"
  | .less => "LT"
  | .lessEqual => "LTE"
  | .greater => "GT"
  | .greaterEqual => "GTE"
  | .logicalAnd => "AND"
  | .logicalOr => "OR"
  | .coalesce => "NULLISH"
  | .bang => "NEG"
  | .assign => "ASSIGN"
  | .plusAssign => "PLUSEQ"
  | .minusAssign => "MINUSEQ"
  | .starAssign => "STAREQ"
  | .slashAssign => "SLASHEQ"
  | .percentAssign => "MODEQ"
  | .starStarAssign => "POWEQ"
  | .shiftLeftAssign => "SHLEQ"
  | .shiftRightAssign => "SHREQ"
  | .shiftRightUnsignedAssign => "USHREQ"
  | .ampersandAssign => "AMPEQ"
  | .pipeAssign => "PIPEEQ"
  | .caretAssign => "CARETEQ"
  | .logicalAndAssign => "ANDEQ"
  | .logicalOrAssign => "OREQ"
  | .coalesceAssign => "NULLISHEQ"
  | .leftParen => "LPAR"
  | .rightParen => "RPAR"
  | .leftBracket => "LSQB"
  | .rightBracket => "RSQB"
  | .leftBrace => "LBRACE"
  | .rightBrace => "RBRACE"
  | .dot => "DOT"
  | .comma => "COMMA"
  | .colon => "COLON"
  | .semicolon => "SEMI"
  | .question => "QMARK"
  | .optionalChain => "OPTCHAIN"
  | .arrow => "ARROW"
  | .ellipsis => "SPREAD"
  | .atSign => "AT"
  | .comment => "COMMENT"
  | .endOfInput => "EOF"

/-- The reserved words with their kinds. -/
def reservedWords : List (String × TokenKind) :=
  [("break", .kwBreak), ("case", .kwCase), ("catch", .kwCatch), ("class", .kwClass),
   ("const", .kwConst), ("continue", .kwContinue), ("debugger", .kwDebugger),
   ("default", .kwDefault), ("delete", .kwDelete), ("do", .kwDo), ("else", .kwElse),
   ("export", .kwExport), ("extends", .kwExtends), ("finally", .kwFinally), ("for", .kwFor),
   ("function", .kwFunction), ("if", .kwIf), ("import", .kwImport), ("in", .kwIn),
   ("instanceof", .kwInstanceof), ("new", .kwNew), ("return", .kwReturn), ("super", .kwSuper),
   ("switch", .kwSwitch), ("this", .kwThis), ("throw", .kwThrow), ("try", .kwTry),
   ("typeof", .kwTypeof), ("var", .kwVar), ("void", .kwVoid), ("while", .kwWhile),
   ("with", .kwWith), ("true", .kwTrue), ("false", .kwFalse), ("null", .kwNull)]

/-- Operators and punctuation, longer spellings before their prefixes. -/
def punctuators : List (String × TokenKind) :=
  [(">>>=", .shiftRightUnsignedAssign), ("===", .strictEqual), ("!==", .strictUnequal),
   ("**=", .starStarAssign), ("...", .ellipsis), ("<<=", .shiftLeftAssign),
   (">>=", .shiftRightAssign), (">>>", .shiftRightUnsigned), ("&&=", .logicalAndAssign),
   ("||=", .logicalOrAssign), ("??=", .coalesceAssign), ("=>", .arrow), ("==", .looseEqual),
   ("!=", .looseUnequal), ("<=", .lessEqual), (">=", .greaterEqual), ("&&", .logicalAnd),
   ("||", .logicalOr), ("??", .coalesce), ("?.", .optionalChain), ("++", .plusPlus),
   ("--", .minusMinus), ("+=", .plusAssign), ("-=", .minusAssign), ("*=", .starAssign),
   ("/=", .slashAssign), ("%=", .percentAssign), ("&=", .ampersandAssign), ("|=", .pipeAssign),
   ("^=", .caretAssign), ("<<", .shiftLeft), (">>", .shiftRight), ("**", .starStar),
   ("(", .leftParen), (")", .rightParen), ("[", .leftBracket), ("]", .rightBracket),
   (";", .semicolon), (",", .comma), ("<", .less), (">", .greater), ("+", .plus), ("-", .minus),
   ("*", .star), ("/", .slash), ("%", .percent), ("&", .ampersand), ("|", .pipe), ("^", .caret),
   ("!", .bang), ("~", .tilde), ("?", .question), (":", .colon), ("=", .assign), (".", .dot),
   ("@", .atSign), ("\x7b", .leftBrace), ("\x7d", .rightBrace)]

/-- The operators that assign to what stands on their left. -/
def assignments : List TokenKind :=
  [.assign, .plusAssign, .minusAssign, .starAssign, .slashAssign, .percentAssign,
   .starStarAssign, .shiftLeftAssign, .shiftRightAssign, .shiftRightUnsignedAssign,
   .ampersandAssign, .pipeAssign, .caretAssign, .logicalAndAssign, .logicalOrAssign,
   .coalesceAssign]

def isReservedWord (kind : TokenKind) : Bool := reservedWords.any fun entry => entry.2 = kind

def isAssignment (kind : TokenKind) : Bool := assignments.contains kind

/-- Brackets of all four sorts that open something. -/
def opens : TokenKind → Bool
  | .leftParen | .leftBracket | .leftBrace | .templateHead => true
  | _ => false

/-- Brackets of all four sorts that close something. -/
def closes : TokenKind → Bool
  | .rightParen | .rightBracket | .rightBrace | .templateTail => true
  | _ => false

end TokenKind

end Uncurry
