import Protobuf.Declaration.Error
import Protobuf.Declaration.Token

/-! Reading tokens from the front of a list.  A group that is left before its end does not fail at
once; that tokens were left over is remembered.
-/

namespace Protobuf.Declaration

/-- The tokens that are left, and whether some were left over in a group. -/
structure TokenInput where
  rest : List Token
  leftover : Bool := false

/-- A computation that consumes tokens from the front. -/
abbrev TokenReader := StateT TokenInput (Except PathFault)

/-- Words that are no identifiers. -/
def reservedWords : List String :=
  ["_", "abstract", "as", "become", "box", "break", "const", "continue", "crate", "do", "else",
    "enum", "extern", "false", "final", "fn", "for", "if", "impl", "in", "let", "loop", "macro",
    "match", "mod", "move", "mut", "override", "priv", "pub", "ref", "return", "Self", "self",
    "static", "struct", "super", "trait", "true", "type", "typeof", "unsafe", "unsized", "use",
    "virtual", "where", "while", "yield"]

namespace TokenReader

/-! ## Looking ahead -/

/-- The tokens begin with the marks of an operator; another mark may be joined behind them. -/
def hasMarks : List Char → List Token → Bool
  | [], _ => true
  | [c], .mark char _ :: _ => char == c
  | c :: marks, .mark char joined :: tokens => char == c && joined && hasMarks marks tokens
  | _, _ => false

/-- The tokens begin with the operator. -/
def hasOperator (marks : String) (tokens : List Token) : Bool :=
  hasMarks marks.toList tokens

/-- The tokens begin with the word. -/
def hasWord (word : String) : List Token → Bool
  | .word text :: _ => text == word
  | _ => false

/-- The tokens begin with one of the words. -/
def hasAnyWord (words : List String) : List Token → Bool
  | .word text :: _ => words.contains text
  | _ => false

/-- The tokens begin with an identifier. -/
def hasIdentifier : List Token → Bool
  | .word text :: _ => !reservedWords.contains text
  | _ => false

/-- The tokens begin with a lifetime. -/
def hasLifetime : List Token → Bool
  | .mark '\'' true :: .word _ :: _ => true
  | _ => false

/-- The tokens begin with a group between the brackets. -/
def hasGroup (bracket : Bracket) : List Token → Bool
  | .group found _ :: _ => found == bracket
  | _ => false

/-- The literal at the front of tokens and how many of them it takes: a number may be negative. -/
def literal? : List Token → Option (List Token × Nat)
  | .literal text :: _ => some ([.literal text], 1)
  | .word "true" :: _ => some ([.word "true"], 1)
  | .word "false" :: _ => some ([.word "false"], 1)
  | .mark '-' _ :: .literal text :: _ =>
      if text.toList.head?.any Char.isDigit then some ([.mark '-' false, .literal text], 2)
      else none
  | _ => none

/-- The tokens behind the first; a lifetime counts as one. -/
def behindOne : List Token → List Token
  | .mark '\'' true :: .word _ :: rest => rest
  | _ :: rest => rest
  | [] => []

/-- The tokens behind the first two. -/
def behindTwo (tokens : List Token) : List Token :=
  behindOne (behindOne tokens)

/-! ## Reading -/

/-- The tokens that are left. -/
def ahead : TokenReader (List Token) :=
  return (← get).rest

/-- Fails because none of the symbols is there. -/
def expected {α : Type} (symbols : List Symbol) : TokenReader α := do
  throw (.expected symbols (← ahead).isEmpty)

/-- Consumes `n` tokens and gives others in their place. -/
def replace (n : Nat) (tokens : List Token) : TokenReader (List Token) := do
  modify fun s => { s with rest := s.rest.drop n }
  return tokens

/-- An operator; its absence is reported without regard to the end of the tokens. -/
def operator (marks : String) : TokenReader (List Token) := do
  if hasOperator marks (← ahead) then replace marks.length (Token.operator marks.toList)
  else throw (.expected [.spelled marks] false)

/-- An operator if it is there. -/
def operator? (marks : String) : TokenReader (List Token) := do
  if hasOperator marks (← ahead) then operator marks else return []

/-- A keyword. -/
def word (text : String) : TokenReader (List Token) := do
  if hasWord text (← ahead) then replace 1 [.word text]
  else expected [.spelled text]

/-- A keyword if it is there. -/
def word? (text : String) : TokenReader (List Token) := do
  if hasWord text (← ahead) then word text else return []

/-- Any word. -/
def anyWord : TokenReader (List Token) := do
  match ← ahead with
  | .word text :: _ => replace 1 [.word text]
  | _ => expected [.identifier]

/-- An identifier. -/
def identifier : TokenReader (List Token) := do
  if hasIdentifier (← ahead) then anyWord else expected [.identifier]

/-- A lifetime. -/
def lifetime : TokenReader (List Token) := do
  match ← ahead with
  | .mark '\'' true :: .word text :: _ => replace 2 [.mark '\'' true, .word text]
  | _ => expected [.lifetime]

/-- A literal. -/
def literal : TokenReader (List Token) := do
  match literal? (← ahead) with
  | some (tokens, n) => replace n tokens
  | none => expected [.literal]

/-- The symbol for a group between brackets. -/
def groupSymbol : Bracket → Symbol
  | .round => .parentheses
  | .square => .squareBrackets
  | .curly => .curlyBraces

/-- A group whose tokens are read by `inner`. -/
def group {α : Type} (bracket : Bracket) (inner : TokenReader α) : TokenReader α := do
  let s ← get
  match s.rest with
  | .group found tokens :: rest =>
      if found = bracket then
        set { s with rest := tokens }
        let value ← inner
        modify fun t => { rest := rest, leftover := t.leftover || !t.rest.isEmpty }
        return value
      else expected [groupSymbol bracket]
  | _ => expected [groupSymbol bracket]

/-- A group between brackets as it is written again around what `inner` gives. -/
def grouped (bracket : Bracket) (inner : TokenReader (List Token)) : TokenReader (List Token) := do
  return [.group bracket (← group bracket inner)]

/-- Items with commas between them up to the end of the tokens; `n` bounds their number. -/
def separated (item : TokenReader (List Token)) : Nat → TokenReader (List Token)
  | 0 => return []
  | n + 1 => do
      if (← ahead).isEmpty then return []
      let first ← item
      if (← ahead).isEmpty then return first
      let comma ← operator ","
      return first ++ comma ++ (← separated item n)

/-- Items with commas between them up to the end of the tokens. -/
def allSeparated (item : TokenReader (List Token)) : TokenReader (List Token) := do
  separated item ((← ahead).length + 1)

/-- The tokens that a reader consumes, as they were written. -/
def verbatim (reader : TokenReader (List Token)) : TokenReader (List Token) := do
  let before ← ahead
  let _ ← reader
  return before.take (before.length - (← ahead).length)

end TokenReader

end Protobuf.Declaration
