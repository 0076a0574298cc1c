/-! Tokens of declarations: words, marks, literals, and groups of tokens between brackets.  The text
of tokens has blanks between them, but none behind a mark that is joined to the next.
-/

namespace Protobuf.Declaration

/-- The brackets around a group of tokens. -/
inductive Bracket where
  | round
  | square
  | curly
deriving DecidableEq, Repr

/-- A token of a declaration. -/
inductive Token where
  /-- An identifier or a keyword; a raw identifier has `r#` in front. -/
  | word (text : String)
  /-- A character of punctuation, and whether another one is joined to it. -/
  | mark (char : Char) (joined : Bool)
  | literal (text : String)
  | group (bracket : Bracket) (tokens : List Token)
deriving Repr

namespace Token

/-- The next token follows without a blank. -/
def isJoined : Token → Bool
  | .mark _ joined => joined
  | _ => false

/-- The marks of an operator, of which all but the last are joined. -/
def operator : List Char → List Token
  | [] => []
  | [c] => [.mark c false]
  | c :: rest => .mark c true :: operator rest

mutual

/-- The text of a token. -/
def text : Token → String
  | .word text => text
  | .mark char _ => String.singleton char
  | .literal text => text
  | .group .round tokens => "(" ++ textOf tokens ++ ")"
  | .group .square tokens => "[" ++ textOf tokens ++ "]"
  | .group .curly tokens =>
      "\x7b " ++ textOf tokens ++ (if tokens.isEmpty then "" else " ") ++ "\x7d"

/-- The text of tokens. -/
def textOf : List Token → String
  | [] => ""
  | token :: tokens =>
      token.text ++ (if tokens.isEmpty || token.isJoined then "" else " ") ++ textOf tokens

/-- How many tokens there are, inside groups too. -/
def count : Token → Nat
  | .group _ tokens => countOf tokens + 1
  | _ => 1

/-- How many tokens a list holds, inside groups too. -/
def countOf : List Token → Nat
  | [] => 0
  | token :: tokens => token.count + countOf tokens

end

end Token

end Protobuf.Declaration
