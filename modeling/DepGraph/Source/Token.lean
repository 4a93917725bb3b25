/-!
# Tokens of source text

A source text is a sequence of tokens with blanks between them. Brackets are tokens of their own,
and so are the two ends of a template literal and of a substitution inside one, so that the
nesting of a text can be read off its tokens.

Main definitions: `Bracket`, `Token`, the classes of characters `isGap`, `isLineEnd` and
`isNameChar`.
-/

set_option autoImplicit false

namespace DepGraph.Source

/-- The pairs of brackets that enclose parts of a text. -/
inductive Bracket where
  | round
  | square
  | curly
  | template
  | substitution
  deriving DecidableEq, Repr

/-- The kinds of token. A `literal` is a number or a regular expression, a `chunk` is the text of a
template between its substitutions, a `mark` is an operator or a separator. -/
inductive TokenKind where
  | hashBang
  | comment
  | htmlComment
  | string
  | literal
  | chunk
  | word
  | mark
  | opening (bracket : Bracket)
  | closing (bracket : Bracket)
  deriving DecidableEq, Repr

/-- A token with its exact text. `afterBreak` tells whether a line ends between it and the last
token that is not a comment. -/
structure Token where
  kind : TokenKind
  text : String
  afterBreak : Bool
  deriving DecidableEq, Repr

/-- Tokens that may stand between any two others. -/
def TokenKind.isComment : TokenKind → Bool
  | .comment | .htmlComment => true
  | _ => false

/-- The characters that end a line comment. -/
def isLineEnd (c : Char) : Bool :=
  c == '\n' || c == '\r' || c == '\u2028' || c == '\u2029'

/-- The line ends that a statement may end at. -/
def isBreak (c : Char) : Bool :=
  c == '\n' || c == '\u2028' || c == '\u2029'

/-- The characters that separate tokens. -/
def isGap (c : Char) : Bool :=
  let n := c.toNat
  (9 ≤ n && n ≤ 13) || n == 32 || n == 0xA0 || n == 0x1680 || (0x2000 ≤ n && n ≤ 0x200B) ||
  n == 0x2028 || n == 0x2029 || n == 0x202F || n == 0x205F || n == 0x2060 || n == 0x3000 ||
  n == 0xFEFF

/-- The printed characters of ASCII that no name holds. -/
def punctuation : List Char :=
  [':', ';', '\x60', '"', '\'', '@', '#', '.', ',', '|', '^', '&', '<', '=', '>', '+', '-', '*',
    '/', '\\', '%', '?', '!', '~', '(', ')', '[', ']', '\x7b', '\x7d']

/-- The characters of a name after its first one. -/
def isNameChar (c : Char) : Bool :=
  !(c.toNat < 32 || isGap c || punctuation.contains c)

end DepGraph.Source
