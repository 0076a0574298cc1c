import Protobuf.Declaration.Lexeme
import Protobuf.Declaration.TokenReader

/-! The grammar of paths, whose segments may have types, lifetimes and constants as arguments.
Readers give the tokens of what they read in the form in which it is written again; types and
expressions inside others are read by the readers of one nesting level less.
-/

namespace Protobuf.Declaration.PathGrammar

open TokenReader

/-- How a type may go on as a list of bounds. -/
inductive TypeForm where
  /-- A path, which may be the first of several bounds. -/
  | path
  /-- A single bound with a binder or a question mark. -/
  | bound
  | other
deriving DecidableEq, Repr

/-- A type that was read. -/
structure TypeTree where
  tokens : List Token
  form : TypeForm := .other

/-- The readers of nested types, which may be a sum of bounds or not, and expressions. -/
structure Nested where
  type : Bool → TokenReader TypeTree
  expression : TokenReader (List Token)

/-- A path that was read, apart from the arguments of its last segment. -/
structure PathTree where
  front : List Token
  arguments : List Token
  /-- The last segment has no arguments, or brackets without any between them. -/
  withoutLast : Bool
  /-- Some segment has brackets for arguments. -/
  bracketed : Bool
  /-- The path begins with a type between angle brackets. -/
  qualified : Bool

/-- All tokens of a path. -/
def PathTree.tokens (p : PathTree) : List Token :=
  p.front ++ p.arguments

/-- The tokens begin with one of the words that may begin a path but are no identifiers. -/
def hasPathWord (tokens : List Token) : Bool :=
  hasAnyWord ["super", "self", "Self", "crate"] tokens

/-- Tokens of a type. -/
def Nested.typeTokens (g : Nested) (sum : Bool) : TokenReader (List Token) := do
  return (← g.type sum).tokens

/-! ## Arguments -/

/-- An argument between angle brackets, with the comma behind it. -/
structure Argument where
  isLifetime : Bool
  tokens : List Token
  comma : List Token := []

/-- An argument with the comma behind it. -/
def Argument.text (a : Argument) : List Token :=
  a.tokens ++ a.comma

/-- Arguments with a comma in front of each that follows one without. -/
def joinArguments (separated : Bool) : List Argument → List Token
  | [] => []
  | a :: arguments =>
      (if separated then [] else [.mark ',' false]) ++ a.text
        ++ joinArguments (!a.comma.isEmpty) arguments

/-- Arguments as they are written again: lifetimes stand before all others. -/
def writeArguments (arguments : List Argument) : List Token :=
  let lifetimes := arguments.filter Argument.isLifetime
  let others := arguments.filter fun a => !a.isLifetime
  lifetimes.flatMap Argument.text
    ++ joinArguments (lifetimes.getLast?.all fun a => !a.comma.isEmpty) others

/-- An argument between angle brackets. -/
def argument (g : Nested) : TokenReader Argument := do
  let tokens ← ahead
  let block := verbatim (grouped .curly g.expression)
  if hasLifetime tokens && !hasOperator "+" (behindOne tokens) then
    return { isLifetime := true, tokens := ← lifetime }
  else if hasIdentifier tokens && hasOperator "=" (behindOne tokens) then
    let name ← identifier
    let sign ← operator "="
    let value ←
      if (literal? (← ahead)).isSome then verbatim literal
      else if hasGroup .curly (← ahead) then block
      else g.typeTokens true
    return { isLifetime := false, tokens := name ++ sign ++ value }
  else if (literal? tokens).isSome then
    return { isLifetime := false, tokens := ← literal }
  else if hasGroup .curly tokens then
    return { isLifetime := false, tokens := ← block }
  else
    return { isLifetime := false, tokens := ← g.typeTokens true }

/-- Arguments up to the closing angle bracket; `n` bounds their number. -/
def argumentList (g : Nested) : Nat → TokenReader (List Argument)
  | 0 => return []
  | n + 1 => do
      if hasOperator ">" (← ahead) then return []
      let first ← argument g
      if hasOperator ">" (← ahead) then return [first]
      let comma ← operator ","
      return { first with comma := comma } :: (← argumentList g n)

/-- Arguments between angle brackets, and whether there are none. -/
def angleArguments (g : Nested) : TokenReader (List Token × Bool) := do
  let colons ← operator? "::"
  let opening ← operator "<"
  let arguments ← argumentList g ((← ahead).length + 1)
  let closing ← operator ">"
  return (colons ++ opening ++ writeArguments arguments ++ closing, arguments.isEmpty)

/-- The type behind an arrow, if there is an arrow. -/
def result (g : Nested) : TokenReader (List Token) := do
  if hasOperator "->" (← ahead) then
    let arrow ← operator "->"
    return arrow ++ (← g.typeTokens false)
  else return []

/-- Arguments between parentheses and the type of the result. -/
def roundArguments (g : Nested) : TokenReader (List Token) := do
  let arguments ← grouped .round (allSeparated (g.typeTokens true))
  return arguments ++ (← result g)

/-- Arguments between parentheses follow, or stand behind colons. -/
def hasRoundArguments (tokens : List Token) : Bool :=
  hasGroup .round tokens || (hasOperator "::" tokens && hasGroup .round (behindTwo tokens))

/-! ## Paths -/

/-- A segment behind the front of a path.  In an expression colons have to stand before its angle
brackets.
-/
def segment (g : Nested) (inExpression : Bool) (front : List Token) (bracketed : Bool)
    : TokenReader PathTree := do
  let plain (name : List Token) : PathTree :=
    { front := front ++ name, arguments := [], withoutLast := true, bracketed, qualified := false }
  if hasAnyWord ["super", "self", "crate"] (← ahead) then return plain (← anyWord)
  let name ← if hasWord "Self" (← ahead) then anyWord else identifier
  let tokens ← ahead
  if (!inExpression && hasOperator "<" tokens && !hasOperator "<=" tokens)
      || (hasOperator "::" tokens && hasOperator "<" (behindTwo tokens)) then
    let (arguments, isEmpty) ← angleArguments g
    return { plain name with arguments, withoutLast := isEmpty, bracketed := true }
  else return plain name

/-- Further segments of a path; `n` bounds their number. -/
def moreSegments (g : Nested) (inExpression : Bool) (p : PathTree) : Nat → TokenReader PathTree
  | 0 => return p
  | n + 1 => do
      let tokens ← ahead
      if hasOperator "::" tokens && !(hasGroup .round (behindTwo tokens) && !p.qualified) then
        let colons ← operator "::"
        let next ← segment g inExpression (p.tokens ++ colons) p.bracketed
        moreSegments g inExpression { next with qualified := p.qualified } n
      else return p

/-- A path. -/
def path (g : Nested) (inExpression : Bool) : TokenReader PathTree := do
  let colons ← operator? "::"
  let first ← segment g inExpression colons false
  moreSegments g inExpression first ((← ahead).length + 1)

/-- A path that may begin with a type between angle brackets. -/
def qualifiedPath (g : Nested) (inExpression : Bool) : TokenReader PathTree := do
  if hasOperator "<" (← ahead) then
    let opening ← operator "<"
    let type ← g.typeTokens true
    let trait ←
      if hasWord "as" (← ahead) then do
        let word ← word "as"
        pure (word ++ (← path g false).tokens)
      else pure []
    let closing ← operator ">"
    let colons ← operator "::"
    let first ← segment g inExpression (opening ++ type ++ trait ++ closing ++ colons) false
    moreSegments g inExpression { first with qualified := true } ((← ahead).length + 1)
  else path g inExpression

/-- Puts arguments between parentheses behind a path whose last segment has none. -/
def withRoundArguments (g : Nested) (p : PathTree) : TokenReader PathTree := do
  if p.withoutLast && hasRoundArguments (← ahead) then
    let _ ← operator? "::"
    return { p with arguments := ← roundArguments g, withoutLast := false, bracketed := true }
  else return p

/-- The path of an attribute up to the end of its segments; `n` bounds their number. -/
def plainSegments (before : List Token) : Nat → TokenReader (List Token)
  | 0 => return before
  | n + 1 => do
      let tokens ← ahead
      if hasIdentifier tokens || hasPathWord tokens then
        let name ← anyWord
        if hasOperator "::" (← ahead) then
          plainSegments (before ++ name ++ (← operator "::")) n
        else return before ++ name
      else expected [.pathSegment]

/-- An attribute in brackets. -/
def attributeBody : TokenReader (List Token) := do
  let colons ← operator? "::"
  let tokens ← ahead
  if hasIdentifier tokens || hasPathWord tokens then
    let front ← plainSegments colons (tokens.length + 1)
    let rest ← ahead
    return front ++ (← replace rest.length rest)
  else expected [.path]

/-- Attributes; `n` bounds their number. -/
def attributes : Nat → TokenReader (List Token)
  | 0 => return []
  | n + 1 => do
      if hasOperator "#" (← ahead) then
        let pound ← operator "#"
        let body ← grouped .square attributeBody
        return pound ++ body ++ (← attributes n)
      else return []

/-- All attributes that follow. -/
def allAttributes : TokenReader (List Token) := do
  attributes ((← ahead).length + 1)

/-! ## Bounds -/

/-- The bounds of a lifetime; `n` bounds their number. -/
def lifetimeBounds : Nat → TokenReader (List Token)
  | 0 => return []
  | n + 1 => do
      let tokens ← ahead
      if hasOperator "," tokens || hasOperator ">" tokens then return []
      let first ← lifetime
      if hasOperator "+" (← ahead) then
        let plus ← operator "+"
        return first ++ plus ++ (← lifetimeBounds n)
      else return first

/-- The lifetimes of a binder; `n` bounds their number. -/
def boundLifetimes : Nat → TokenReader (List Token)
  | 0 => return []
  | n + 1 => do
      if hasOperator ">" (← ahead) then return []
      let attributes ← allAttributes
      let name ← lifetime
      let colon ← operator? ":"
      let bounds ← if colon.isEmpty then pure [] else lifetimeBounds ((← ahead).length + 1)
      let first := attributes ++ name ++ (if bounds.isEmpty then [] else colon ++ bounds)
      if hasOperator ">" (← ahead) then return first
      let comma ← operator ","
      return first ++ comma ++ (← boundLifetimes n)

/-- A binder of lifetimes, `for<…>`. -/
def binder : TokenReader (List Token) := do
  let word ← word "for"
  let opening ← operator "<"
  let lifetimes ← boundLifetimes ((← ahead).length + 1)
  return word ++ opening ++ lifetimes ++ (← operator ">")

/-- A trait as a bound. -/
def traitBound (g : Nested) : TokenReader (List Token) := do
  let question ← operator? "?"
  let lifetimes ← if hasWord "for" (← ahead) then binder else pure []
  let p ← withRoundArguments g (← path g false)
  return question ++ lifetimes ++ p.tokens

/-- A bound, and whether it is a trait. -/
def bound (g : Nested) : TokenReader (List Token × Bool) := do
  let tokens ← ahead
  if hasLifetime tokens then return (← lifetime, false)
  else if hasGroup .round tokens then return (← grouped .round (traitBound g), true)
  else return (← traitBound g, true)

/-- The tokens may begin a bound. -/
def beginsBound (tokens : List Token) : Bool :=
  hasIdentifier tokens || hasOperator "::" tokens || hasOperator "?" tokens
    || hasLifetime tokens || hasGroup .round tokens

/-- Bounds, of which there may be several in a sum, and whether one of them is a trait. -/
def bounds (g : Nested) (sum : Bool) : Nat → TokenReader (List Token × Bool)
  | 0 => return ([], false)
  | n + 1 => do
      let (first, isTrait) ← bound g
      if sum && hasOperator "+" (← ahead) then
        let plus ← operator "+"
        let tokens ← ahead
        if beginsBound tokens || hasOperator "~" tokens then
          let (rest, hasTrait) ← bounds g sum n
          return (first ++ plus ++ rest, isTrait || hasTrait)
        else return (first ++ plus, isTrait)
      else return (first, isTrait)

/-- Bounds of which one has to be a trait. -/
def traitBounds (g : Nested) (ofObject sum : Bool) : TokenReader (List Token) := do
  let (tokens, hasTrait) ← bounds g sum ((← ahead).length + 1)
  if hasTrait then return tokens else throw (.traitRequired ofObject)

/-- An object type, with or without its keyword. -/
def objectType (g : Nested) (sum : Bool) : TokenReader (List Token) := do
  let word ← word? "dyn"
  return word ++ (← traitBounds g true sum)

/-- Further bounds of a sum; each plus has one behind it. -/
def addedBounds (g : Nested) : Nat → TokenReader (List Token)
  | 0 => return []
  | n + 1 => do
      if hasOperator "+" (← ahead) then
        let plus ← operator "+"
        let (next, _) ← bound g
        return plus ++ next ++ (← addedBounds g n)
      else return []

/-- Further bounds of a sum that may end with a plus. -/
def furtherBounds (g : Nested) : Nat → TokenReader (List Token)
  | 0 => return []
  | n + 1 => do
      if hasOperator "+" (← ahead) then
        let plus ← operator "+"
        if beginsBound (← ahead) then
          let (next, _) ← bound g
          return plus ++ next ++ (← furtherBounds g n)
        else return plus
      else return []

/-! ## Types -/

/-- What stands between the parentheses of a type. -/
inductive RoundType where
  | closed (tokens : List Token)
  | questioned (tokens : List Token)
  | single (type : TypeTree)

/-- The inside of parentheses in the place of a type. -/
def roundInside (g : Nested) : TokenReader RoundType := do
  let tokens ← ahead
  if tokens.isEmpty then return .closed []
  else if hasLifetime tokens then return .closed (← objectType g true)
  else if hasOperator "?" tokens then return .questioned (← traitBound g)
  else
    let first ← g.type true
    if hasOperator "," (← ahead) then
      let comma ← operator ","
      return .closed (first.tokens ++ comma ++ (← allSeparated (g.typeTokens true)))
    else return .single first

/-- A type between parentheses, a tuple, or a sum whose first bound is between parentheses. -/
def roundType (g : Nested) (sum : Bool) : TokenReader TypeTree := do
  let inside ← group .round (roundInside g)
  let more (first : List Token) : TokenReader TypeTree := do
    let added ← addedBounds g ((← ahead).length + 1)
    return { tokens := .group .round first :: added
             form := if added.isEmpty then .bound else .other }
  match inside with
  | .closed tokens => return { tokens := [.group .round tokens] }
  | .questioned tokens => more tokens
  | .single first =>
      if sum && first.form != .other && hasOperator "+" (← ahead) then more first.tokens
      else return { tokens := [.group .round first.tokens] }

/-- A parameter of a function type, and whether it is the receiver that may be changed. -/
def parameter (g : Nested) : TokenReader (List Token × Bool) := do
  let tokens ← ahead
  let named (tokens : List Token) : Bool := hasOperator ":" tokens && !hasOperator "::" tokens
  if hasWord "mut" tokens && hasWord "self" (behindOne tokens) then
    let _ ← replace 2 []
    if named (← ahead) then
      let _ ← operator ":"
      let _ ← g.typeTokens true
      return ([], true)
    else return ([], true)
  else
    let name ←
      if (hasIdentifier tokens || hasAnyWord ["_", "self"] tokens)
        && named (behindOne tokens) then do
        let name ← anyWord
        pure (name ++ (← operator ":"))
      else pure []
    let type ← if hasOperator "..." (← ahead) then operator "..." else g.typeTokens true
    return (name ++ type, false)

/-- The parameters of a function type, and whether one is the receiver that may be changed. -/
def parameters (g : Nested) : Nat → TokenReader (List Token × Bool)
  | 0 => return ([], false)
  | n + 1 => do
      if (← ahead).isEmpty then return ([], false)
      let attributes ← allAttributes
      if hasOperator "..." (← ahead) then return (attributes ++ (← operator "..."), false)
      let (first, changes) ← parameter g
      if (← ahead).isEmpty then return (attributes ++ first, changes)
      let comma ← operator ","
      let (rest, changesLater) ← parameters g n
      return (attributes ++ first ++ comma ++ rest, changes || changesLater)

/-- A function type; one with a receiver that may be changed stays as it is written. -/
def functionType (g : Nested) : TokenReader (List Token) := do
  let before ← ahead
  let unsafety ← word? "unsafe"
  let linkage ← word? "extern"
  let name ← match linkage.isEmpty, ← ahead with
    | false, .literal text :: _ =>
        if text.toList.head?.any fun c => c == '"' || c == 'r' then literal else pure []
    | _, _ => pure []
  let word ← word "fn"
  let (inside, changes) ← group .round do parameters g ((← ahead).length + 1)
  let output ← result g
  if changes then return before.take (before.length - (← ahead).length)
  else return unsafety ++ linkage ++ name ++ word ++ [.group .round inside] ++ output

/-- A type that begins with a path. -/
def pathType (g : Nested) (sum : Bool) (lifetimes : List Token) : TokenReader TypeTree := do
  let before ← ahead
  if hasWord "dyn" before then
    let word ← word "dyn"
    let star ← operator? "*"
    let bounds ← traitBounds g true sum
    if star.isEmpty then return { tokens := word ++ bounds }
    else return { tokens := before.take (before.length - (← ahead).length) }
  else
    let p ← withRoundArguments g (← qualifiedPath g false)
    let tokens ← ahead
    if p.qualified then return { tokens := p.tokens }
    else if hasOperator "!" tokens && !hasOperator "!=" tokens && !p.bracketed then
      let bang ← operator "!"
      match ← ahead with
      | .group bracket inside :: _ =>
          return { tokens := p.tokens ++ bang ++ (← replace 1 [.group bracket inside]) }
      | _ => expected [.delimiter]
    else if !lifetimes.isEmpty || (sum && hasOperator "+" tokens) then
      let added ← if sum then furtherBounds g (tokens.length + 1) else pure []
      return { tokens := lifetimes ++ p.tokens ++ added
               form := if added.isEmpty then .bound else .other }
    else return { tokens := p.tokens, form := .path }

/-- An array type or a slice type between its brackets. -/
def squareType (g : Nested) : TokenReader (List Token) := do
  let element ← g.typeTokens true
  if hasOperator ";" (← ahead) then
    let semicolon ← operator ";"
    return element ++ semicolon ++ (← g.expression)
  else return element

/-- A pointer type. -/
def pointerType (g : Nested) : TokenReader (List Token) := do
  let star ← operator "*"
  let word ←
    if hasAnyWord ["const", "mut"] (← ahead) then anyWord
    else expected [.spelled "const", .spelled "mut"]
  return star ++ word ++ (← g.typeTokens false)

/-- A reference type. -/
def referenceType (g : Nested) : TokenReader (List Token) := do
  let sign ← operator "&"
  let name ← if hasLifetime (← ahead) then lifetime else pure []
  let word ← word? "mut"
  return sign ++ name ++ word ++ (← g.typeTokens false)

/-- The symbols that may begin a type. -/
def typeSymbols : List Symbol :=
  [.spelled "for", .parentheses, .spelled "fn", .spelled "unsafe", .spelled "extern", .identifier,
    .spelled "::", .spelled "<", .squareBrackets, .spelled "*", .spelled "&", .spelled "!",
    .spelled "impl", .spelled "_", .lifetime]

/-- A type behind the binder of its lifetimes. -/
def boundType (g : Nested) (sum : Bool) (lifetimes : List Token) : TokenReader TypeTree := do
  let tokens ← ahead
  let tree (reader : TokenReader (List Token)) : TokenReader TypeTree :=
    return { tokens := ← reader }
  if hasGroup .round tokens then roundType g sum
  else if hasAnyWord ["fn", "unsafe", "extern"] tokens then
    tree (return lifetimes ++ (← functionType g))
  else if hasIdentifier tokens || hasPathWord tokens || hasOperator "::" tokens
      || hasOperator "<" tokens then
    pathType g sum lifetimes
  else if hasGroup .square tokens then tree (grouped .square (squareType g))
  else if hasOperator "*" tokens then tree (pointerType g)
  else if hasOperator "&" tokens then tree (referenceType g)
  else if hasOperator "!" tokens then tree (operator "!")
  else if hasWord "impl" tokens then
    tree (return (← word "impl") ++ (← traitBounds g false sum))
  else if hasWord "_" tokens then tree anyWord
  else if hasLifetime tokens then tree (objectType g true)
  else expected typeSymbols

/-- A type; where a sum of bounds is no type, `sum` is false. -/
def type (g : Nested) (sum : Bool) : TokenReader TypeTree := do
  if hasWord "for" (← ahead) then
    let lifetimes ← binder
    let tokens ← ahead
    if !(hasIdentifier tokens || hasAnyWord ["fn", "unsafe", "extern"] tokens
        || hasPathWord tokens) then
      expected [.identifier, .spelled "fn", .spelled "unsafe", .spelled "extern",
        .spelled "super", .spelled "self", .spelled "Self", .spelled "crate"]
    else if hasWord "dyn" tokens then throw .unexpectedToken
    else boundType g sum lifetimes
  else boundType g sum []

/-! ## Expressions -/

/-- An expression that is not composed. -/
def atom (g : Nested) : TokenReader (List Token) := do
  let tokens ← ahead
  if (literal? tokens).isSome then literal
  else if hasGroup .round tokens then grouped .round g.expression
  else if hasIdentifier tokens || hasPathWord tokens || hasOperator "::" tokens
      || hasOperator "<" tokens then
    return (← qualifiedPath g true).tokens
  else if tokens.isEmpty then expected [.expression]
  else throw .unsupportedExpression

/-- The member behind a point. -/
def member : TokenReader (List Token) := do
  match ← ahead with
  | .literal text :: _ =>
      match text.splitOn "." with
      | [index] =>
          if index.all Char.isDigit then replace 1 [.literal index]
          else expected [.identifierOrInteger]
      | [first, second] =>
          if first.all Char.isDigit && second.all Char.isDigit then
            replace 1 ([.literal first, .mark '.' false]
              ++ (if second.isEmpty then [] else [.literal second]))
          else expected [.identifierOrInteger]
      | _ => expected [.identifierOrInteger]
  | tokens => if hasIdentifier tokens then identifier else expected [.identifierOrInteger]

/-- Calls, members and indices behind an expression; `n` bounds their number. -/
def trailers (g : Nested) : Nat → TokenReader (List Token)
  | 0 => return []
  | n + 1 => do
      let tokens ← ahead
      if hasGroup .round tokens then
        let call ← grouped .round (allSeparated g.expression)
        return call ++ (← trailers g n)
      else if hasOperator "." tokens && !hasOperator ".." tokens
          && !hasWord "await" (behindOne tokens) then
        let point ← operator "."
        let name ← member
        return point ++ name ++ (← trailers g n)
      else if hasGroup .square tokens then
        let index ← grouped .square g.expression
        return index ++ (← trailers g n)
      else return []

/-- An expression behind any signs; `n` bounds their number. -/
def signed (g : Nested) : Nat → TokenReader (List Token)
  | 0 => return []
  | n + 1 => do
      let tokens ← ahead
      match ["*", "!", "-"].find? fun sign => hasOperator sign tokens with
      | some sign =>
          let sign ← operator sign
          return sign ++ (← signed g n)
      | none =>
          let front ← atom g
          return front ++ (← trailers g (tokens.length + 1))

/-- Operators between two expressions, longer ones first. -/
def binaryOperators : List String :=
  ["&&", "||", "<<", ">>", "==", "<=", "!=", ">=", "+", "-", "*", "/", "%", "^", "&", "|", "<",
    ">"]

/-- What can not follow a cast, if it follows. -/
def castFollower? (tokens : List Token) : Option CastFollower :=
  if hasOperator "." tokens && !hasOperator ".." tokens then
    let second := behindOne tokens
    let third := behindTwo tokens
    if hasWord "await" second then some .awaiting
    else if hasIdentifier second && (hasGroup .round third || hasOperator "::" third) then
      some .methodCall
    else some .fieldAccess
  else if hasOperator "?" tokens then some .question
  else if hasGroup .square tokens then some .indexing
  else if hasGroup .round tokens then some .functionCall
  else none

/-- Operators with their right sides, and casts; `n` bounds their number. -/
def operations (g : Nested) : Nat → TokenReader (List Token)
  | 0 => return []
  | n + 1 => do
      let tokens ← ahead
      match binaryOperators.find? fun sign => hasOperator sign tokens with
      | some sign =>
          let sign ← operator sign
          let right ← signed g (tokens.length + 1)
          return sign ++ right ++ (← operations g n)
      | none =>
          if hasWord "as" tokens then
            let word ← word "as"
            let type ← g.typeTokens false
            match castFollower? (← ahead) with
            | some follower => throw (.castFollowed follower)
            | none => return word ++ type ++ (← operations g n)
          else return []

/-- An expression. -/
def expression (g : Nested) : TokenReader (List Token) := do
  let n := (← ahead).length + 1
  let first ← signed g n
  return first ++ (← operations g n)

/-! ## Nesting -/

/-- The readers of types and expressions that nest at most `n` deep. -/
def nested : Nat → Nested
  | 0 => { type := fun _ => throw .unexpectedToken, expression := throw .unexpectedToken }
  | n + 1 => { type := type (nested n), expression := expression (nested n) }

end PathGrammar

/-- The tokens of the path that a text spells, in the form in which it is written again. -/
def pathTokens (text : List Char) : Except PathFault (List Token) :=
  match Token.ofText? text with
  | none => .error .noTokens
  | some tokens =>
      match PathGrammar.path (PathGrammar.nested (Token.countOf tokens + 1)) false
        |>.run ⟨tokens, false⟩ with
      | .error fault => .error fault
      | .ok (path, input) =>
          if input.leftover || !input.rest.isEmpty then .error .unexpectedToken
          else .ok path.tokens

end Protobuf.Declaration
