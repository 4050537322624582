import MipsLab.Statement.Grammar
import MipsLab.Token.Lexer

/-!
# From lexemes to statements

A source text is parsed line by line: labels first, then at most one instruction or directive. A
line that is wrong is reported with its first error and skipped, its leading labels apart, so that
one error does not bring others with it. Every line is parsed on its own (`ParsedLine.ofLexemes`);
the lines only share the labels that wait for a body (`Statement.gather`).
-/

namespace MipsLab

/-- The lexemes of each line. A newline ends its line and belongs to none. -/
def splitLines : List Lexeme → List (List Lexeme)
  | [] => [[]]
  | lexeme :: rest =>
    match lexeme.result, splitLines rest with
    | .ok .newline, lines => [] :: lines
    | _, [] => [[lexeme]]
    | _, line :: lines => (lexeme :: line) :: lines

/-- The first lexeme of a line that is no token. -/
def firstLexError? : List Lexeme → Option ParseError
  | [] => none
  | ⟨.error cause, span⟩ :: _ => some ⟨.lexical cause, span⟩
  | ⟨.ok _, _⟩ :: rest => firstLexError? rest

/-- The tokens of a line up to its first error, without comments. -/
def tokensOfLine : List Lexeme → List Located
  | [] => []
  | ⟨.error _, _⟩ :: _ => []
  | ⟨.ok .comment, _⟩ :: rest => tokensOfLine rest
  | ⟨.ok token, span⟩ :: rest => ⟨token, span⟩ :: tokensOfLine rest

/-- Splits off the labels at the start of a line. -/
def takeLabels : List Located → List Label × List Located
  | ⟨.identifier name, span⟩ :: ⟨.colon, _⟩ :: rest =>
    let (labels, body) := takeLabels rest
    (⟨name, span.start⟩ :: labels, body)
  | tokens => ([], tokens)

/-- What one line holds. -/
structure ParsedLine where
  labels : List Label
  body : Option (Body × Span) := none
  error : Option ParseError := none
  deriving DecidableEq, Repr

namespace ParsedLine

def ofLexemes (line : List Lexeme) : ParsedLine :=
  let tokens := tokensOfLine line
  let (labels, rest) := takeLabels tokens
  match firstLexError? line with
  | some error => { labels, error := some error }
  | none =>
    match rest.head?, tokens.getLast? with
    | some first, some last =>
      match (LineReader.body.run last.span.stop).run rest with
      | .ok (body, _) => { labels, body := some (body, ⟨first.span.start, last.span.stop⟩) }
      | .error error => { labels, error := some error }
    | _, _ => { labels }

end ParsedLine

/-- The statement of labels that nothing follows, if there are any. -/
def Statement.ofTrailing (labels : List Label) : List Statement :=
  match labels.getLast? with
  | some last => [{ labels, body := none, span := last.span }]
  | none => []

/-- The statements of a list of lines; `pending` are the labels of earlier lines that no body has
followed yet. -/
def Statement.gather (pending : List Label) : List ParsedLine → List Statement
  | [] => Statement.ofTrailing pending
  | line :: rest =>
    match line.body with
    | some (body, span) =>
      { labels := pending ++ line.labels, body := some body, span } :: Statement.gather [] rest
    | none => Statement.gather (pending ++ line.labels) rest

/-- The lines of a source text, parsed. -/
def parseLines (chars : List Char) : List ParsedLine :=
  (splitLines (Token.lex chars)).map ParsedLine.ofLexemes

/-- The statements of a source text, and what is wrong with its other lines. -/
def parse (chars : List Char) : List Statement × List ParseError :=
  let lines := parseLines chars
  (Statement.gather [] lines, lines.filterMap ParsedLine.error)

end MipsLab
