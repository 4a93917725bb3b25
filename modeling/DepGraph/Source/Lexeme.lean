import DepGraph.Source.Token

/-!
# Lexemes

Each function reads the lexeme of one kind at the start of a text and gives it with the rest, so
that the two together are the text that was read. Nothing here depends on what stands before the
lexeme.
-/

set_option autoImplicit false

namespace DepGraph.Source

/-- A lexeme with the text after it. -/
abbrev Lexeme := List Char × List Char

/-- Up to the end of the line, as the given test tells it. -/
def lineLexeme (ends : Char → Bool) (s : List Char) : Lexeme :=
  s.span fun c => !ends c

/-- A comment in `/*` and `*/` after its first two characters; `acc` holds what was read, last
first. -/
def blockLexeme (acc : List Char) : List Char → Lexeme
  | [] => (acc.reverse, [])
  | '*' :: '/' :: rest => (('/' :: '*' :: acc).reverse, rest)
  | c :: rest => blockLexeme (c :: acc) rest

/-- A string after its opening quotation mark, up to the next such mark that no backslash
precedes. -/
def stringLexeme (quote : Char) (acc : List Char) : List Char → Lexeme
  | [] => (acc.reverse, [])
  | '\\' :: c :: rest => stringLexeme quote (c :: '\\' :: acc) rest
  | c :: rest =>
    if c == quote then ((c :: acc).reverse, rest) else stringLexeme quote (c :: acc) rest

/-- The text of a template up to its end or its next substitution. -/
def chunkLexeme (acc : List Char) : List Char → Lexeme
  | [] => (acc.reverse, [])
  | '\\' :: c :: rest => chunkLexeme (c :: '\\' :: acc) rest
  | '$' :: '\x7b' :: rest => (acc.reverse, '$' :: '\x7b' :: rest)
  | c :: rest => if c == '\x60' then (acc.reverse, c :: rest) else chunkLexeme (c :: acc) rest

/-- The body of a regular expression after its opening slash. A slash in a class does not end it;
there is no such body when a line feed comes first. -/
def patternLexeme? (inClass : Bool) (acc : List Char) : List Char → Option Lexeme
  | [] => none
  | '\\' :: c :: rest =>
    if c == '\n' then none else patternLexeme? inClass (c :: '\\' :: acc) rest
  | c :: rest =>
    if c == '\n' then none
    else if c == '/' && !inClass then
      let (flags, rest) := rest.span isNameChar
      some ((c :: acc).reverse ++ flags, rest)
    else
      patternLexeme? (if c == '[' then true else if c == ']' then false else inClass)
        (c :: acc) rest

/-- A name: characters of names, and escapes of such characters. `braced` tells that the text stands
inside the braces of an escape. -/
def nameLexeme (braced : Bool) (acc : List Char) : List Char → Lexeme
  | '\\' :: 'u' :: '\x7b' :: rest => nameLexeme true ('\x7b' :: 'u' :: '\\' :: acc) rest
  | '\\' :: 'u' :: rest => nameLexeme braced ('u' :: '\\' :: acc) rest
  | c :: rest =>
    if braced then nameLexeme (c != '\x7d') (c :: acc) rest
    else if isNameChar c then nameLexeme false (c :: acc) rest
    else (acc.reverse, c :: rest)
  | [] => (acc.reverse, [])

/-- The digits of a number, with the separators between them. -/
def isDigitOrSeparator (c : Char) : Bool := c.isDigit || c == '_'

/-- The exponent of a number, if one stands here. -/
def exponentLexeme (s : List Char) : Lexeme :=
  match s with
  | e :: rest =>
    if e == 'e' || e == 'E' then
      match rest with
      | '+' :: rest =>
        let (digits, rest) := rest.span isDigitOrSeparator
        (e :: '+' :: digits, rest)
      | '-' :: rest =>
        let (digits, rest) := rest.span isDigitOrSeparator
        (e :: '-' :: digits, rest)
      | rest =>
        let (digits, rest) := rest.span isDigitOrSeparator
        (e :: digits, rest)
    else ([], s)
  | [] => ([], s)

/-- A number, which starts with a digit or with a point before one. -/
def numberLexeme (s : List Char) : Lexeme :=
  match s with
  | '0' :: mark :: rest =>
    if ['x', 'X', 'o', 'O', 'b', 'B'].contains mark then
      let (digits, rest) := rest.span isNameChar
      ('0' :: mark :: digits, rest)
    else decimalLexeme s
  | _ => decimalLexeme s
where
  /-- A number to the base ten. -/
  decimalLexeme (s : List Char) : Lexeme :=
    let (whole, s) := s.span isDigitOrSeparator
    let (fraction, s) := match s with
      | '.' :: rest =>
        let (digits, rest) := rest.span isDigitOrSeparator
        ('.' :: digits, rest)
      | s => ([], s)
    let (exponent, s) := exponentLexeme s
    match s with
    | 'n' :: rest => (whole ++ fraction ++ exponent ++ ['n'], rest)
    | s => (whole ++ fraction ++ exponent, s)

end DepGraph.Source
