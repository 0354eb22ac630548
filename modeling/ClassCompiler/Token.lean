/-!
# Tokens

The vocabulary that the front end shares with the compiler: reserved words, operators, separators,
and the kinds of token whose text varies.

* `Token.image`: the fixed text of a kind, or a placeholder in angle brackets
* `Token.reserved?`: the reserved word with a given text
* `TokenInfo`: a token of a source file
-/

namespace ClassCompiler

/-- A kind of token. -/
inductive Token
  | eof
  | kwAbstract
  | kwBoolean
  | kwBreak
  | kwByte
  | kwCase
  | kwCatch
  | kwChar
  | kwClass
  | kwConst
  | kwContinue
  | kwDefault
  | kwDo
  | kwDouble
  | kwElse
  | kwExtends
  | kwFinal
  | kwFinally
  | kwFloat
  | kwFor
  | kwGoto
  | kwIf
  | kwImplements
  | kwImport
  | kwInstanceof
  | kwInt
  | kwInterface
  | kwLong
  | kwNative
  | kwNew
  | kwPackage
  | kwPrivate
  | kwProtected
  | kwPublic
  | kwReturn
  | kwShort
  | kwStatic
  | kwStrictfp
  | kwSuper
  | kwSwitch
  | kwSynchronized
  | kwThis
  | kwThrow
  | kwThrows
  | kwTransient
  | kwTry
  | kwVoid
  | kwVolatile
  | kwWhile
  | equal
  | notEqual
  | logicalNot
  | logicalAnd
  | logicalOr
  | greater
  | greaterEqual
  | less
  | lessEqual
  | decrement
  | increment
  | minus
  | plus
  | star
  | slash
  | percent
  | shiftRight
  | unsignedShiftRight
  | shiftLeft
  | bar
  | caret
  | ampersand
  | tilde
  | question
  | assign
  | plusAssign
  | minusAssign
  | starAssign
  | slashAssign
  | percentAssign
  | shiftLeftAssign
  | shiftRightAssign
  | unsignedShiftRightAssign
  | ampersandAssign
  | barAssign
  | caretAssign
  | leftParen
  | rightParen
  | leftBrace
  | rightBrace
  | leftBracket
  | rightBracket
  | semicolon
  | colon
  | comma
  | dot
  | identifier
  | kwNull
  | kwFalse
  | kwTrue
  | intLiteral
  | longLiteral
  | doubleLiteral
  | floatLiteral
  | charLiteral
  | stringLiteral
  deriving DecidableEq, Inhabited

namespace Token

/-- Every kind, its name and its text. -/
def table : List (Token × String × String) :=
  [(eof, "Eof", "<EOF>"), (kwAbstract, "Abstract", "abstract"), (kwBoolean, "Boolean", "boolean"),
    (kwBreak, "Break", "break"), (kwByte, "Byte", "byte"), (kwCase, "Case", "case"),
    (kwCatch, "Catch", "catch"), (kwChar, "Char", "char"), (kwClass, "Class", "class"),
    (kwConst, "Const", "const"), (kwContinue, "Continue", "continue"),
    (kwDefault, "Default", "default"), (kwDo, "Do", "do"), (kwDouble, "Double", "double"),
    (kwElse, "Else", "else"), (kwExtends, "Extends", "extends"), (kwFinal, "Final", "final"),
    (kwFinally, "Finally", "finally"), (kwFloat, "Float", "float"), (kwFor, "For", "for"),
    (kwGoto, "Goto", "goto"), (kwIf, "If", "if"), (kwImplements, "Implements", "implements"),
    (kwImport, "Import", "import"), (kwInstanceof, "Instanceof", "instanceof"),
    (kwInt, "Int", "int"), (kwInterface, "Interface", "interface"), (kwLong, "Long", "long"),
    (kwNative, "Native", "native"), (kwNew, "New", "new"), (kwPackage, "Package", "package"),
    (kwPrivate, "Private", "private"), (kwProtected, "Protected", "protected"),
    (kwPublic, "Public", "public"), (kwReturn, "Return", "return"), (kwShort, "Short", "short"),
    (kwStatic, "Static", "static"), (kwStrictfp, "Strictfp", "strictfp"),
    (kwSuper, "Super", "super"), (kwSwitch, "Switch", "switch"),
    (kwSynchronized, "Synchronized", "synchronized"), (kwThis, "This", "this"),
    (kwThrow, "Throw", "throw"), (kwThrows, "Throws", "throws"),
    (kwTransient, "Transient", "transient"), (kwTry, "Try", "try"), (kwVoid, "Void", "void"),
    (kwVolatile, "Volatile", "volatile"), (kwWhile, "While", "while"), (equal, "Eq", "=="),
    (notEqual, "Neq", "!="), (logicalNot, "LNot", "!"), (logicalAnd, "LAnd", "&&"),
    (logicalOr, "LOr", "||"), (greater, "Gt", ">"), (greaterEqual, "Ge", ">="), (less, "Lt", "<"),
    (lessEqual, "Le", "<="), (decrement, "Dec", "--"), (increment, "Inc", "++"),
    (minus, "Minus", "-"), (plus, "Plus", "+"), (star, "Star", "*"), (slash, "Div", "/"),
    (percent, "Mod", "%"), (shiftRight, "ShiftR", ">>"), (unsignedShiftRight, "UShiftR", ">>>"),
    (shiftLeft, "ShiftL", "<<"), (bar, "Or", "|"), (caret, "Xor", "^"), (ampersand, "And", "&"),
    (tilde, "Tilde", "~"), (question, "Ternary", "?"), (assign, "Assign", "="),
    (plusAssign, "PlusAssign", "+="), (minusAssign, "MinusAssign", "-="),
    (starAssign, "StarAssign", "*="), (slashAssign, "DivAssign", "/="),
    (percentAssign, "ModAssign", "%="), (shiftLeftAssign, "ShiftLAssign", "<<="),
    (shiftRightAssign, "ShiftRAssign", ">>="),
    (unsignedShiftRightAssign, "UShiftRAssign", ">>>="), (ampersandAssign, "AndAssign", "&="),
    (barAssign, "OrAssign", "|="), (caretAssign, "XorAssign", "^="), (leftParen, "LParen", "("),
    (rightParen, "RParen", ")"), (leftBrace, "LCurly", "\x7b"), (rightBrace, "RCurly", "\x7d"),
    (leftBracket, "LBrack", "["), (rightBracket, "RBrack", "]"), (semicolon, "Semi", ";"),
    (colon, "Colon", ":"), (comma, "Comma", ","), (dot, "Dot", "."),
    (identifier, "Identifier", "<IDENTIFIER>"), (kwNull, "Null", "null"),
    (kwFalse, "False", "false"), (kwTrue, "True", "true"),
    (intLiteral, "IntLiteral", "<INT_LITERAL>"), (longLiteral, "LongLiteral", "<LONG_LITERAL>"),
    (doubleLiteral, "DoubleLiteral", "<DOUBLE_LITERAL>"),
    (floatLiteral, "FloatLiteral", "<FLOAT_LITERAL>"),
    (charLiteral, "CharLiteral", "<CHAR_LITERAL>"),
    (stringLiteral, "StringLiteral", "<STRING_LITERAL>")]

def entry? (token : Token) : Option (String × String) :=
  (table.find? fun row => row.1 == token).map (·.2)

def name (token : Token) : String := (token.entry?.map (·.1)).getD ""

/-- The text of the kind, or a placeholder where the text varies. -/
def image (token : Token) : String := (token.entry?.map (·.2)).getD ""

def ofName? (name : String) : Option Token :=
  (table.find? fun row => row.2.1 == name).map (·.1)

/-! ## Classes of tokens -/

/-- The words that are not identifiers: the reserved words, `null`, `true` and `false`. -/
def words : List Token :=
  [kwAbstract, kwBoolean, kwBreak, kwByte, kwCase, kwCatch, kwChar, kwClass, kwConst, kwContinue,
    kwDefault, kwDo, kwDouble, kwElse, kwExtends, kwFinal, kwFinally, kwFloat, kwFor, kwGoto,
    kwIf, kwImplements, kwImport, kwInstanceof, kwInt, kwInterface, kwLong, kwNative, kwNew,
    kwPackage, kwPrivate, kwProtected, kwPublic, kwReturn, kwShort, kwStatic, kwStrictfp, kwSuper,
    kwSwitch, kwSynchronized, kwThis, kwThrow, kwThrows, kwTransient, kwTry, kwVoid, kwVolatile,
    kwWhile, kwNull, kwTrue, kwFalse]

def reserved? (word : String) : Option Token :=
  words.find? fun token => token.image == word

def isAssignment : Token → Bool
  | assign | plusAssign | minusAssign | starAssign | slashAssign | percentAssign
  | shiftLeftAssign | shiftRightAssign | unsignedShiftRightAssign | ampersandAssign | barAssign
  | caretAssign => true
  | _ => false

def isComparison : Token → Bool
  | greater | greaterEqual | less | lessEqual => true
  | _ => false

/-- Does the text start like a placeholder? The operators `<`, `<=`, `<<` and `<<=` do so too. -/
def hasVariableImage (token : Token) : Bool := token.image.startsWith "<"

end Token

/-- A token of a source file: its kind, its text and its line. -/
structure TokenInfo where
  kind : Token
  image : String
  line : Nat
  deriving DecidableEq

/-- A token whose text is the fixed one of its kind. -/
def TokenInfo.fixed (kind : Token) (line : Nat) : TokenInfo := ⟨kind, kind.image, line⟩

end ClassCompiler
