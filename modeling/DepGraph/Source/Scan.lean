import DepGraph.Source.Lexeme

/-!
# Reading tokens

What a slash, a brace or an arrow of a comment means depends on the tokens before it: a slash
starts a regular expression where no operand has just ended, and divides otherwise. `Context` is
what has to be remembered of those tokens, `readStep` reads the next token in a context, and
`tokens` reads a whole text.
-/

set_option autoImplicit false

namespace DepGraph.Source

/-- An open bracket. `isOperand` tells whether its closing bracket ends an operand: the parenthesis
after `if` and the braces of a block do not. -/
structure Frame where
  bracket : Bracket
  isOperand : Bool
  deriving Repr

/-- Whether what stands directly inside an open bracket is a part of an expression or a type. -/
def Frame.holdsValues (f : Frame) : Bool :=
  match f.bracket with
  | .curly => f.isOperand
  | _ => true

/-- What has to be remembered of the tokens read so far. -/
structure Context where
  /-- Whether nothing but comments was read. -/
  fresh : Bool := true
  /-- Whether an operand has just ended. -/
  operand : Bool := false
  /-- The text of the last token that is not a comment. -/
  last : String := ""
  /-- Whether that token is a word that governs the parenthesis after it. -/
  governs : Bool := false
  /-- Whether a line has ended since that token. -/
  broken : Bool := false
  /-- The open brackets, the innermost first. -/
  frames : List Frame := []
  deriving Repr

/-- Words after which an operand may stand. -/
def operatorWords : List String :=
  ["return", "typeof", "case", "in", "of", "delete", "void", "new", "instanceof", "throw", "else",
    "do", "yield", "await", "default"]

/-- Words that govern the parenthesis after them. -/
def governingWords : List String := ["if", "while", "for", "with"]

/-- Tokens after which a brace opens a block; the empty text stands for the start. -/
def blockStarts : List String :=
  ["", ";", "\x7b", "\x7d", ")", "=>", ">", "else", "do", "try", "finally"]

namespace Context

/-- The context after a token that is not a comment. -/
def afterToken (text : String) (operand governs : Bool) (frames : List Frame) : Context :=
  { fresh := false, operand, last := text, governs, broken := false, frames }

/-- Whether a brace here opens an object or a type and not a block. -/
def opensValue (ctx : Context) : Bool :=
  !ctx.operand && !blockStarts.contains ctx.last &&
    (ctx.last != ":" || (ctx.frames.head?.map Frame.holdsValues).getD false)

/-- Records a word. -/
def afterWord (ctx : Context) (text : String) : Context :=
  let isMember := ctx.last == "."
  let governs := !isMember &&
    (governingWords.contains text || (text == "await" && ctx.governs && ctx.last == "for"))
  afterToken text (isMember || !operatorWords.contains text) governs ctx.frames

/-- Records a mark. A mark that follows its operand, on the same line, leaves it one. -/
def afterMark (ctx : Context) (text : String) : Context :=
  let follows := ctx.operand && !ctx.broken && ["++", "--", "!"].contains text
  afterToken text follows false ctx.frames

/-- Records an opening bracket. -/
def afterOpening (ctx : Context) (bracket : Bracket) (text : String) : Context :=
  let isOperand := match bracket with
    | .round => !ctx.governs
    | .curly => ctx.opensValue
    | _ => true
  afterToken text false false (⟨bracket, isOperand⟩ :: ctx.frames)

/-- Records a closing bracket. -/
def afterClosing (ctx : Context) (text : String) : Context :=
  match ctx.frames with
  | [] => afterToken text true false []
  | frame :: frames =>
    afterToken text (match frame.bracket with
      | .substitution => false
      | _ => frame.isOperand) false frames

/-- Whether the text here is the text of a template. -/
def inTemplate (ctx : Context) : Bool :=
  match ctx.frames with
  | frame :: _ => frame.bracket == .template
  | [] => false

/-- The bracket that a closing brace closes. -/
def closedByBrace (ctx : Context) : Bracket :=
  match ctx.frames with
  | frame :: _ => if frame.bracket == .substitution then .substitution else .curly
  | [] => .curly

end Context

/-- The operators and separators of more than one character that are told from their parts. -/
def markLexeme (s : List Char) : Lexeme :=
  match s with
  | '.' :: '.' :: '.' :: rest => (['.', '.', '.'], rest)
  | '=' :: '>' :: rest => (['=', '>'], rest)
  | '+' :: '+' :: rest => (['+', '+'], rest)
  | '-' :: '-' :: rest => (['-', '-'], rest)
  | c :: rest => ([c], rest)
  | [] => ([], [])

/-- What was read: a token if there was one, the context after it, and the rest. -/
structure Step where
  token? : Option Token := none
  context : Context
  rest : List Char

/-- A step that read a comment. -/
def Context.comment (ctx : Context) (kind : TokenKind) (lexeme : Lexeme) : Step :=
  let text := String.ofList lexeme.1
  let endsLine := lexeme.1.head? != some '/' || lexeme.1.any isBreak ||
    lexeme.1.take 2 == ['/', '/']
  { token? := some ⟨kind, text, ctx.broken⟩
    context := { ctx with broken := ctx.broken || endsLine }
    rest := lexeme.2 }

/-- A step that read a token other than a comment. -/
def Context.token (ctx : Context) (kind : TokenKind) (text : String) (rest : List Char)
    (next : Context) : Step :=
  { token? := some ⟨kind, text, ctx.broken⟩, context := next, rest }

/-- A step that read a mark. -/
def Context.mark (ctx : Context) (s : List Char) : Step :=
  let (chars, rest) := markLexeme s
  let text := String.ofList chars
  ctx.token .mark text rest (ctx.afterMark text)

/-- A step that read an operand of one token. -/
def Context.operandToken (ctx : Context) (kind : TokenKind) (lexeme : Lexeme) : Step :=
  let text := String.ofList lexeme.1
  ctx.token kind text lexeme.2 (.afterToken text true false ctx.frames)

/-- A step that read an opening bracket. -/
def Context.opening (ctx : Context) (bracket : Bracket) (text : String) (rest : List Char) : Step :=
  ctx.token (.opening bracket) text rest (ctx.afterOpening bracket text)

/-- A step that read a closing bracket. -/
def Context.closing (ctx : Context) (bracket : Bracket) (text : String) (rest : List Char) : Step :=
  ctx.token (.closing bracket) text rest (ctx.afterClosing text)

/-- A step inside the text of a template. -/
def templateStep (ctx : Context) (s : List Char) : Step :=
  match s with
  | '\x60' :: rest => ctx.closing .template "\x60" rest
  | '$' :: '\x7b' :: rest => ctx.opening .substitution "$\x7b" rest
  | s => ctx.operandToken .chunk (chunkLexeme [] s)

/-- A step at a slash that starts no comment. -/
def slashStep (ctx : Context) (rest : List Char) : Step :=
  if ctx.operand then ctx.mark ('/' :: rest)
  else
    match patternLexeme? false [] rest with
    | some (body, rest) => ctx.operandToken .literal ('/' :: body, rest)
    | none => ctx.mark ('/' :: rest)

/-- A step at a character that starts a name, a number or a mark. -/
def plainStep (ctx : Context) (s : List Char) : Step :=
  match s with
  | [] => { context := ctx, rest := [] }
  | c :: rest =>
    if c.isDigit || (c == '.' && (rest.head?.map Char.isDigit).getD false) then
      ctx.operandToken .literal (numberLexeme s)
    else if c == '#' && ctx.fresh && rest.head? == some '!' then
      let (line, rest) := lineLexeme (· == '\n') s
      let text := String.ofList line
      ctx.token .hashBang text rest (.afterToken "" false false ctx.frames)
    else if isNameChar c || c == '\\' || c == '#' then
      let (name, rest) := nameLexeme false [c] rest
      let text := String.ofList name
      ctx.token .word text rest (ctx.afterWord text)
    else ctx.mark s

/-- Reads the next token or the next gap. -/
def readStep (ctx : Context) (s : List Char) : Step :=
  if ctx.inTemplate then templateStep ctx s
  else
    match s with
    | '/' :: '/' :: _ => ctx.comment .comment (lineLexeme isLineEnd s)
    | '/' :: '*' :: rest => ctx.comment .comment (blockLexeme ['*', '/'] rest)
    | '<' :: '!' :: '-' :: '-' :: _ =>
      if ctx.operand then ctx.mark s else ctx.comment .htmlComment (lineLexeme isBreak s)
    | '-' :: '-' :: '>' :: _ =>
      if ctx.operand then ctx.mark s else ctx.comment .htmlComment (lineLexeme isBreak s)
    | '/' :: rest => slashStep ctx rest
    | '"' :: rest => ctx.operandToken .string (stringLexeme '"' ['"'] rest)
    | '\'' :: rest => ctx.operandToken .string (stringLexeme '\'' ['\''] rest)
    | '\x60' :: rest => ctx.opening .template "\x60" rest
    | '(' :: rest => ctx.opening .round "(" rest
    | ')' :: rest => ctx.closing .round ")" rest
    | '[' :: rest => ctx.opening .square "[" rest
    | ']' :: rest => ctx.closing .square "]" rest
    | '\x7b' :: rest => ctx.opening .curly "\x7b" rest
    | '\x7d' :: rest => ctx.closing ctx.closedByBrace "\x7d" rest
    | s =>
      match s.span isGap with
      | ([], s) => plainStep ctx s
      | (gap, rest) => { context := { ctx with broken := ctx.broken || gap.any isBreak }, rest }

/-- The tokens of a text in a context. Every step reads at least one character, so that a `fuel` of
the length of the text suffices. -/
def readTokens : Nat → Context → List Char → List Token
  | 0, _, _ => []
  | _ + 1, _, [] => []
  | fuel + 1, ctx, s =>
    let step := readStep ctx s
    match step.token? with
    | some token => token :: readTokens fuel step.context step.rest
    | none => readTokens fuel step.context step.rest

/-- The tokens of a whole text. -/
def tokens (text : String) : List Token :=
  let s := text.toList
  readTokens s.length {} s

end DepGraph.Source
