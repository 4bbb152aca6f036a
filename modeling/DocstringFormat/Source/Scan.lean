import DocstringFormat.Error
import DocstringFormat.Source.Lexeme

/-!
Scanning: from source text to tokens, one physical line after another.

Between two lines the scanner remembers the enclosing indentations, the depth of brackets, a
backslash that joins lines, and a string that is still open.
-/

set_option autoImplicit false

namespace DocstringFormat.Source

structure OpenString where
  start : Place
  text : Text
  lines : Text
  quote : Text

structure Scanner where
  /-- The columns of the enclosing blocks, innermost first; the last is zero. -/
  indents : List Nat
  depth : Nat
  /-- Whether a backslash joins the next line to the last one. -/
  continued : Bool
  pending : Option OpenString

def Scanner.start : Scanner :=
  ⟨[0], 0, false, none⟩

def isSpacing (c : Char) : Bool :=
  c == ' ' || c == '\t' || c == '\x0c'

/-- The depth of brackets after an operator that starts with a character. -/
def depthAfter (depth : Nat) (c : Char) : Nat :=
  if c ∈ openBrackets then depth + 1 else if c ∈ closeBrackets then depth - 1 else depth

def depthAfterToken (depth : Nat) (kind : TokenKind) (c : Char) : Nat :=
  if kind = .op then depthAfter depth c else depth

/-- The rest of a line after scanning: its tokens, and what the scanner remembers. -/
structure LineScan where
  tokens : List Token
  depth : Nat
  continued : Bool
  pending : Option OpenString

def LineScan.push (t : Token) (l : LineScan) : LineScan :=
  { l with tokens := t :: l.tokens }

def tokenAt (kind : TokenKind) (text : Text) (row column : Nat) (line : Text) : Token :=
  ⟨kind, text, ⟨row, column⟩, ⟨row, column + text.size⟩, line⟩

def scanFrom (row : Nat) (line : Text) (column depth : Nat) : Text → LineScan
  | [] => ⟨[], depth, false, none⟩
  | c :: rest =>
    if isSpacing c then scanFrom row line (column + 1) depth rest
    else
      match lexeme c rest with
      | .lineEnd =>
        ⟨[tokenAt (if 0 < depth then .nl else .newline) (c :: rest) row column line],
          depth, false, none⟩
      | .continuation => ⟨[], depth, true, none⟩
      | .openString quote =>
        ⟨[], depth, false, some ⟨⟨row, column⟩, c :: rest, line, quote⟩⟩
      | .token kind more =>
        let text : Text := c :: rest.take more
        (scanFrom row line (column + text.size) (depthAfterToken depth kind c)
          (rest.drop more)).push (tokenAt kind text row column line)
termination_by s => s.length

/-- The column that some spacing leads to: a tab goes to the next multiple of eight, and a form
feed back to zero. -/
def indentColumn : Nat → Text → Nat
  | column, [] => column
  | column, c :: rest =>
    if c = '\t' then indentColumn ((column / 8 + 1) * 8) rest
    else if c = '\x0c' then indentColumn 0 rest
    else indentColumn (column + 1) rest

def unmatchedIndent : Text :=
  "unindent does not match any outer indentation level".toList

/-- Opens or closes blocks at the start of a line of code that is indented with `lead`. -/
def adjustIndents (indents : List Nat) (row : Nat) (lead line : Text) :
    Except Error (List Nat × List Token) :=
  let column := indentColumn 0 lead
  let current := indents.headD 0
  if current < column then
    .ok (column :: indents, [tokenAt .indent lead row 0 line])
  else if column < current then
    if column ∉ indents then .error (.indentation row unmatchedIndent)
    else
      let closed := indents.takeWhile (column < ·)
      .ok (indents.drop closed.length,
        closed.map fun _ => tokenAt .dedent [] row lead.size line)
  else .ok (indents, [])

def emptyLineTokens (row column : Nat) (rest line : Text) : List Token :=
  match rest with
  | '#' :: _ =>
    let comment := rest.dropLineEnding
    [tokenAt .comment comment row column line,
      tokenAt .nl (rest.drop comment.length) row (column + comment.size) line]
  | _ => [tokenAt .nl rest row column line]

def isCodeless : Text → Bool
  | [] => true
  | c :: _ => c == '#' || c == '\n' || c == '\r'

def Scanner.after (indents : List Nat) (before : List Token) (l : LineScan) :
    List Token × Scanner :=
  (before ++ l.tokens, ⟨indents, l.depth, l.continued, l.pending⟩)

def scanInString (st : Scanner) (p : OpenString) (row : Nat) (line : Text) :
    List Token × Scanner :=
  match closingLength? p.quote line with
  | some n =>
    let head : Text := line.take n
    let t : Token := ⟨.string, p.text ++ head, p.start, ⟨row, head.size⟩, p.lines ++ line⟩
    Scanner.after st.indents [t] (scanFrom row line head.size st.depth (line.drop n))
  | none =>
    if p.quote.length = 1 ∧ !endsInBackslash line then
      ([⟨.errorToken, p.text ++ line, p.start, ⟨row, line.size⟩, p.lines ++ line⟩],
        { st with pending := none })
    else
      ([], { st with
        pending := some { p with text := p.text ++ line, lines := p.lines ++ line } })

def scanFresh (st : Scanner) (row : Nat) (line : Text) : Except Error (List Token × Scanner) :=
  let lead : Text := line.takeWhile isSpacing
  let rest : Text := line.drop lead.length
  if isCodeless rest then .ok (emptyLineTokens row lead.size rest line, st)
  else do
    let (indents, moves) ← adjustIndents st.indents row lead line
    return Scanner.after indents moves (scanFrom row line lead.size st.depth rest)

def scanLine (st : Scanner) (row : Nat) (line : Text) : Except Error (List Token × Scanner) :=
  match st.pending with
  | some p => .ok (scanInString st p row line)
  | none =>
    if st.depth = 0 ∧ !st.continued then scanFresh st row line
    else .ok (Scanner.after st.indents [] (scanFrom row line 0 st.depth line))

def scanLines (st : Scanner) (row : Nat) : List Text → Except Error (List Token × Scanner)
  | [] => .ok ([], st)
  | line :: rest => do
    let (tokens, next) ← scanLine st row line
    let (more, last) ← scanLines next (row + 1) rest
    return (tokens ++ more, last)

def openStringAtEnd : Text := "EOF in multi-line string".toList

def openStatementAtEnd : Text := "EOF in multi-line statement".toList

def hasLineEnding (line : Text) : Bool :=
  match line.getLast? with
  | some c => c == '\n' || c == '\r'
  | none => false

def endsLine (tokens : List Token) : Bool :=
  match tokens.getLast? with
  | none => true
  | some t => t.kind == .newline || t.kind == .nl

/-- The tokens at the end of a source of `rows` lines: the end of an open last line, the ends of
all blocks, and the end marker. -/
def closingTokens (tokens : List Token) (st : Scanner) (rows : Nat) (lastLine : Text) :
    List Token :=
  let eof : Place := ⟨rows + 1, 0⟩
  let newline : List Token :=
    if !lastLine.isEmpty && !hasLineEnding lastLine && !endsLine tokens then
      [⟨.newline, [], ⟨rows, lastLine.size⟩, ⟨rows, lastLine.size + 1⟩, []⟩]
    else []
  let dedents := (st.indents.drop 1).map fun _ => (⟨.dedent, [], eof, eof, []⟩ : Token)
  newline ++ dedents ++ [⟨.endMarker, [], eof, eof, []⟩]

def tokenize (source : Text) : Except Error (List Token) := do
  let ls := source.rawLines
  let lastLine := ls.getLast?.getD []
  let (tokens, st) ← scanLines .start 1 ls
  match st.pending with
  | some p => .error (.tokenize p.start.row p.start.column openStringAtEnd)
  | none =>
    if 0 < st.depth ∨ st.continued then
      .error (.tokenize ls.length lastLine.size openStatementAtEnd)
    else .ok (tokens ++ closingTokens tokens st ls.length lastLine)

end DocstringFormat.Source
