import Protobuf.Declaration.Attribute
import Protobuf.Declaration.Literal
import Protobuf.Declaration.Token

/-! Lexemes: the pieces of a text between which blanks and comments do not count.  Brackets turn the
lexemes between them into a group of tokens.
-/

namespace Protobuf.Declaration

open Text Literal

/-- A piece of a text: a bracket or a token. -/
inductive Lexeme where
  | opening (bracket : Bracket)
  | closing (bracket : Bracket)
  | token (token : Token)

namespace Lexeme

/-! ## Blanks and comments -/

/-- The line at the front of a text, and what is from its end on. -/
def takeLine : List Char → List Char × List Char
  | [] => ([], [])
  | '\n' :: rest => ([], '\n' :: rest)
  | '\r' :: '\n' :: rest => ([], '\n' :: rest)
  | c :: rest =>
      let (line, behind) := takeLine rest
      (c :: line, behind)

/-- What is behind the end of a comment inside `depth` comments. -/
def behindComment? (depth : Nat) : List Char → Option (List Char)
  | '/' :: '*' :: rest => behindComment? (depth + 1) rest
  | '*' :: '/' :: rest => if depth ≤ 1 then some rest else behindComment? (depth - 1) rest
  | _ :: rest => behindComment? depth rest
  | [] => none

/-- What is behind the blank or the comment at the front of a text.  A comment that documents what
follows does not count as one.
-/
def behindBlank? (text : List Char) : Option (List Char) :=
  match text with
  | '/' :: '/' :: '!' :: _ => none
  | '/' :: '/' :: '/' :: '/' :: rest => some (takeLine rest).2
  | '/' :: '/' :: '/' :: _ => none
  | '/' :: '/' :: rest => some (takeLine rest).2
  | '/' :: '*' :: '*' :: '/' :: rest => some rest
  | '/' :: '*' :: '!' :: _ => none
  | '/' :: '*' :: '*' :: '*' :: rest => behindComment? 1 ('*' :: '*' :: rest)
  | '/' :: '*' :: '*' :: _ => none
  | '/' :: '*' :: rest => behindComment? 1 rest
  | c :: rest => if isBlank c || c == '\u200e' || c == '\u200f' then some rest else none
  | [] => none

/-- A text without the blanks and comments at its front. -/
def dropBlanks (text : List Char) : List Char :=
  match behindBlank? text with
  | some rest => if rest.length < text.length then dropBlanks rest else text
  | none => text
termination_by text.length

/-- Every carriage return has a line feed behind it. -/
def hasWholeLines : List Char → Bool
  | [] => true
  | '\r' :: '\n' :: rest => hasWholeLines rest
  | c :: rest => c != '\r' && hasWholeLines rest

/-- Text as a string literal. -/
def quotedLiteral : List Char → String
  | [] => ""
  | c :: rest =>
      (if c = '\x00' then
        if rest.head?.any fun next => '0' ≤ next && next ≤ '7' then "\\x00" else "\\0"
      else quotedChar c) ++ quotedLiteral rest

/-- The attribute that documentation stands for. -/
def documentation? (inner : Bool) (text : List Char) : Option (List Lexeme) :=
  if hasWholeLines text then
    some ([.token (.mark '#' false)] ++ (if inner then [.token (.mark '!' false)] else [])
      ++ [.token (.group .square [.word "doc", .mark '=' false,
        .literal ("\"" ++ quotedLiteral text ++ "\"")])])
  else none

/-- A comment with documentation at the front of a text, and what is behind it. -/
def documented? (text : List Char) : Option (List Lexeme × List Char) :=
  let line (inner : Bool) (text : List Char) :=
    let (line, rest) := takeLine text
    (documentation? inner line).map fun lexemes => (lexemes, rest)
  let block (inner : Bool) (text : List Char) :=
    match behindComment? 1 text with
    | none => none
    | some rest =>
        let body := (text.take (text.length - rest.length)).drop 1
        (documentation? inner (body.take (body.length - 2))).map fun lexemes => (lexemes, rest)
  match text with
  | '/' :: '/' :: '!' :: rest => line true rest
  | '/' :: '*' :: '!' :: rest => block true ('!' :: rest)
  | '/' :: '/' :: '/' :: '/' :: _ => none
  | '/' :: '/' :: '/' :: rest => line false rest
  | '/' :: '*' :: '*' :: '*' :: _ => none
  | '/' :: '*' :: '*' :: rest => block false ('*' :: rest)
  | _ => none

/-! ## Tokens -/

/-- A word at the front of a text, and what is behind it. -/
def word? (text : List Char) : Option (String × List Char) :=
  match text with
  | 'r' :: '#' :: rest =>
      match identifier? rest with
      | some (name, rest) =>
          if ["_", "super", "self", "Self", "crate"].contains (String.ofList name) then none
          else some ("r#" ++ String.ofList name, rest)
      | none => none
  | text => (identifier? text).map fun (name, rest) => (String.ofList name, rest)

/-- The front of a text is that of a literal, so that it is no word. -/
def beginsLiteral (text : List Char) : Bool :=
  ["r\"", "r#\"", "r##", "b\"", "b'", "br\"", "br#", "c\"", "cr\"", "cr#"].any fun front =>
    front.toList.isPrefixOf text

/-- A character of punctuation at the front of a text, and what is behind it.  The slash of a
comment is none.
-/
def markChar? (text : List Char) : Option (Char × List Char) :=
  match text with
  | '/' :: '/' :: _ => none
  | '/' :: '*' :: _ => none
  | c :: rest => if "~!@#$%^&*-=+|;:,<.>/?'".toList.contains c then some (c, rest) else none
  | [] => none

/-- A mark at the front of a text, and what is behind it.  An apostrophe is one only in front of the
word of a lifetime.
-/
def mark? (text : List Char) : Option (Token × List Char) :=
  match markChar? text with
  | none => none
  | some ('\'', rest) =>
      match word? rest with
      | none => none
      | some (_, behind) =>
          if behind.head? = some '\'' then none
          else if behind.head? = some '#' && !(['r', '#'].isPrefixOf rest) then none
          else some (.mark '\'' true, rest)
  | some (c, rest) => some (.mark c (markChar? rest).isSome, rest)

/-- What stands for a faulty literal. -/
def faultMark : List Char :=
  "(/*ERROR*/)".toList

/-- A token that is no group at the front of a text, and what is behind it. -/
def leaf? (text : List Char) : Option (Token × List Char) :=
  match behind? text with
  | some rest => some (.literal (String.ofList (text.take (text.length - rest.length))), rest)
  | none =>
      match mark? text with
      | some found => some found
      | none =>
          if faultMark.isPrefixOf text then
            some (.literal (String.ofList faultMark), text.drop faultMark.length)
          else if beginsLiteral text then none
          else (word? text).map fun (word, rest) => (.word word, rest)

/-- The lexemes at the front of a text without blanks there, and what is behind them. -/
def next? (text : List Char) : Option (List Lexeme × List Char) :=
  match documented? text with
  | some found => some found
  | none =>
      let leaf := (leaf? text).map fun (leaf, rest) => ([Lexeme.token leaf], rest)
      match text with
      | '(' :: rest => if faultMark.isPrefixOf text then leaf else some ([.opening .round], rest)
      | '[' :: rest => some ([.opening .square], rest)
      | '\x7b' :: rest => some ([.opening .curly], rest)
      | ')' :: rest => some ([.closing .round], rest)
      | ']' :: rest => some ([.closing .square], rest)
      | '\x7d' :: rest => some ([.closing .curly], rest)
      | _ => leaf

/-- The lexemes of a text, if all of it consists of lexemes. -/
def all? (text : List Char) : Option (List Lexeme) :=
  match dropBlanks text with
  | [] => some []
  | c :: tail =>
      match next? (c :: tail) with
      | none => none
      | some (lexemes, rest) =>
          if rest.length < text.length then (all? rest).map (lexemes ++ ·) else none
termination_by text.length

/-- The tokens that lexemes stand for, behind the open groups, innermost first, and the tokens of
the last one in reverse.
-/
def nest? (outer : List (Bracket × List Token)) (tokens : List Token)
    : List Lexeme → Option (List Token)
  | [] => if outer.isEmpty then some tokens.reverse else none
  | .token leaf :: rest => nest? outer (leaf :: tokens) rest
  | .opening bracket :: rest => nest? ((bracket, tokens) :: outer) [] rest
  | .closing bracket :: rest =>
      match outer with
      | (opened, before) :: outer =>
          if opened = bracket then nest? outer (.group bracket tokens.reverse :: before) rest
          else none
      | [] => none

end Lexeme

/-- The tokens of a text; a byte order mark at its front does not count. -/
def Token.ofText? (text : List Char) : Option (List Token) :=
  let text := match text with
    | '\ufeff' :: rest => rest
    | text => text
  (Lexeme.all? text).bind (Lexeme.nest? [] [])

end Protobuf.Declaration
