import Stencil.Expr.Basic
import Stencil.Expr.Literal

/-! The grammar of expressions.

From the loosest to the tightest: sequences, conditionals, the six levels of
binary operators, unary operators, and members and calls. Conditionals and
unary operators may nest to a fixed depth. A parser gives a value and the
tokens after it, which are fewer, so every loop over tokens ends.
-/

set_option autoImplicit false

namespace Stencil.Grammar

/-- What the faults of a parse refer to: the source, and the fault that ends
its tokens if they do not all read. -/
structure Source where
  text : String
  fault : Option SyntaxError

/-- A value and the tokens after it, fewer than a bound. -/
structure Parsed (α : Type) (bound : Nat) where
  value : α
  rest : List Token
  fewer : rest.length < bound

def Parsed.map {α β : Type} {bound : Nat} (f : α → β) (parsed : Parsed α bound) : Parsed β bound :=
  ⟨f parsed.value, parsed.rest, parsed.fewer⟩

def Parsed.widen {α : Type} {bound wider : Nat} (parsed : Parsed α bound) (le : bound ≤ wider) :
    Parsed α wider :=
  ⟨parsed.value, parsed.rest, Nat.lt_of_lt_of_le parsed.fewer le⟩

abbrev Parser (α : Type) :=
  (tokens : List Token) → Except SyntaxError (Parsed α tokens.length)

variable (source : Source)

def Source.error (fault : SyntaxFault) : SyntaxError :=
  ⟨fault, source.text⟩

/-- Taking a token reads the one after it, which is where a text that does
not read comes to light. -/
def Source.take (rest : List Token) : Except SyntaxError Unit :=
  match rest, source.fault with
  | [], some fault => .error fault
  | _, _ => .ok ()

def Source.expect (punct : Punct) : Parser Unit
  | .punct p :: rest =>
      if p = punct then do
        source.take rest
        pure ⟨(), rest, by simp⟩
      else .error (source.error (.expected (.punct punct) (some (.punct p))))
  | tokens => .error (source.error (.expected (.punct punct) tokens.head?))

mutual
/-- An operand, and the operators after it that bind at least as tightly as asked for. -/
def Source.binary (operand : Parser Expr) (least : Nat) (tokens : List Token) :
    Except SyntaxError (Parsed Expr tokens.length) := do
  let first ← operand tokens
  have := first.fewer
  let whole ← climb operand least first.value first.rest
  pure (whole.widen (by omega))
termination_by tokens.length

/-- The operators after a left operand, one after another. The right operand of each takes all
operators that bind more tightly. -/
def Source.climb (operand : Parser Expr) (least : Nat) (left : Expr) (tokens : List Token) :
    Except SyntaxError (Parsed Expr (tokens.length + 1)) :=
  match tokens with
  | .punct p :: rest =>
      match p.precedence? with
      | some precedence =>
          if least ≤ precedence then do
            source.take rest
            let right ← binary operand (precedence + 1) rest
            have := right.fewer
            let whole ← climb operand least (.operator p.text [left, right.value]) right.rest
            pure (whole.widen (by simp only [List.length_cons]; omega))
          else pure ⟨left, .punct p :: rest, by simp⟩
      | none => pure ⟨left, .punct p :: rest, by simp⟩
  | tokens => pure ⟨left, tokens, by simp⟩
termination_by tokens.length
end

/-- A test alone, or a test with a consequent and an alternate. -/
def Source.ternary (conditional unary : Parser Expr) : Parser Expr := fun tokens => do
  let test ← source.binary unary 1 tokens
  have := test.fewer
  match same : test.rest with
  | .punct .question :: rest => do
      have : rest.length < test.rest.length := by simp [same]
      source.take rest
      let consequent ← conditional rest
      have := consequent.fewer
      let colon ← source.expect .colon consequent.rest
      have := colon.fewer
      let alternate ← conditional colon.rest
      have := alternate.fewer
      pure ⟨.operator Operator.conditional [test.value, consequent.value, alternate.value],
        alternate.rest, by omega⟩
  | _ => pure test

/-- Expressions after the first one of a sequence. -/
def Source.sequenceFrom (conditional : Parser Expr) (tokens : List Token) :
    Except SyntaxError (Parsed (List Expr) (tokens.length + 1)) :=
  match tokens with
  | .punct .comma :: rest => do
      source.take rest
      let next ← conditional rest
      have := next.fewer
      let more ← sequenceFrom conditional next.rest
      pure ((more.map (next.value :: ·)).widen (by simp only [List.length_cons]; omega))
  | tokens => pure ⟨[], tokens, by simp⟩
termination_by tokens.length

/-- One expression stands for itself, and more than one for a sequence. -/
def Source.sequence (conditional : Parser Expr) : Parser Expr := fun tokens => do
  let first ← conditional tokens
  let more ← source.sequenceFrom conditional first.rest
  have := first.fewer
  pure ((more.map fun
    | [] => first.value
    | others => .sequence (first.value :: others)).widen (by omega))

/-- Items up to a closing mark, with commas between them and perhaps one after
the last. -/
def Source.items {α : Type} (close : Punct) (item : Parser α) (tokens : List Token) :
    Except SyntaxError (Parsed (List α) tokens.length) :=
  if tokens.head? = some (.punct close) then do
    let closed ← source.expect close tokens
    pure (closed.map fun _ => [])
  else do
    let first ← item tokens
    have := first.fewer
    match same : first.rest with
    | .punct .comma :: rest => do
        have : rest.length < first.rest.length := by simp [same]
        source.take rest
        let more ← items close item rest
        pure ((more.map (first.value :: ·)).widen (by omega))
    | _ => do
        let closed ← source.expect close first.rest
        pure ((closed.map fun _ => [first.value]).widen (by omega))
termination_by tokens.length

/-- An array is a literal if all its items are. -/
def arrayOf (items : List Expr) : Expr :=
  match items.mapM Expr.literal? with
  | some values => .literal (.array values)
  | none => .operator Operator.array items

/-- An object is a literal if all its values are; a repeated name keeps its
first place and its last value. -/
def objectOf (members : List (String × Expr)) : Expr :=
  match members.mapM fun (name, value) => value.literal?.map (name, ·) with
  | some values => .literal (.object (.ofEntries values))
  | none =>
      .operator Operator.object (members.flatMap fun (name, value) => [.literal (.string name), value])

/-- The name of a member of an object. -/
def Source.key : Token → Except SyntaxError String
  | .identifier name | .number name => pure name
  | .string quoted => pure (Token.stringText quoted)
  | token => .error (source.error (.unexpectedKey token))

/-- The value after a key and a colon. An identifier alone stands for the value
of that name. -/
def Source.keyed (conditional : Parser Expr) (key : Token) (tokens : List Token) :
    Except SyntaxError (Parsed Expr (tokens.length + 1)) :=
  match tokens, key with
  | .punct .colon :: rest, _ => do
      source.take rest
      let value ← conditional rest
      pure (value.widen (by simp only [List.length_cons]; omega))
  | tokens, .identifier name => pure ⟨.ofName name, tokens, by simp⟩
  | tokens, _ => .error (source.error (.expected (.punct .colon) tokens.head?))

/-- A name and its value in an object. -/
def Source.member (conditional : Parser Expr) : Parser (String × Expr)
  | [] => .error (source.error (.expected .objectKey none))
  | token :: rest => do
      source.take rest
      let name ← source.key token
      let value ← source.keyed conditional token rest
      pure (value.map (name, ·))

/-- The name after a point in a path. -/
def Source.segmentName : Parser String
  | [] => .error (source.error .missingMember)
  | token :: rest => do
      source.take rest
      match token with
      | .identifier name | .number name => pure ⟨name, rest, by simp⟩
      | _ => .error (source.error .missingMember)

/-- The members of a path after its root, and the arguments of a call, which
ends the path. -/
def Source.members (conditional : Parser Expr) (root : Root) (segments : List Segment)
    (tokens : List Token) : Except SyntaxError (Parsed Expr (tokens.length + 1)) :=
  match tokens with
  | .punct .dot :: rest => do
      source.take rest
      let name ← source.segmentName rest
      have := name.fewer
      let whole ← members conditional root (segments ++ [.name name.value]) name.rest
      pure (whole.widen (by simp only [List.length_cons]; omega))
  | .punct .openBracket :: rest => do
      source.take rest
      let index ← source.sequence conditional rest
      have := index.fewer
      let closed ← source.expect .closeBracket index.rest
      have := closed.fewer
      let whole ← members conditional root (segments ++ [.index index.value]) closed.rest
      pure (whole.widen (by simp only [List.length_cons]; omega))
  | .punct .openParen :: rest => do
      source.take rest
      let args ← source.items .closeParen conditional rest
      pure ((args.map (Expr.call ⟨root, segments⟩)).widen (by simp only [List.length_cons]; omega))
  | tokens => pure ⟨.path ⟨root, segments⟩, tokens, by simp⟩
termination_by tokens.length

/-- The literals that are written as names. -/
def constant? (name : String) : Option Value :=
  if name = "true" then some (.bool true)
  else if name = "false" then some (.bool false)
  else if name = "null" || name = "undefined" then some .null
  else none

/-- An operand: a literal, an expression in brackets of any kind, or a path. -/
def Source.operand (conditional : Parser Expr) : Parser Expr
  | [] => .error (source.error (.expected .expression none))
  | token :: rest => do
      source.take rest
      let path (root : Root) (segments : List Segment) :
          Except SyntaxError (Parsed Expr (token :: rest).length) :=
        source.members conditional root segments rest
      match token with
      | .number text =>
          match Value.ofNumber? text.toList with
          | some value => pure ⟨.literal value, rest, by simp⟩
          | none => .error ⟨.invalidNumber, text⟩
      | .string quoted => pure ⟨.literal (.string (Token.stringText quoted)), rest, by simp⟩
      | .punct .openParen => do
          let inner ← source.sequence conditional rest
          have := inner.fewer
          let closed ← source.expect .closeParen inner.rest
          pure ((closed.map fun _ => inner.value).widen (by simp only [List.length_cons]; omega))
      | .punct .openBrace => do
          let members ← source.items .closeBrace (source.member conditional) rest
          pure ((members.map objectOf).widen (by simp))
      | .punct .openBracket => do
          let items ← source.items .closeBracket conditional rest
          pure ((items.map arrayOf).widen (by simp))
      | .punct _ => .error (source.error (.unexpectedToken token))
      | .identifier name =>
          match constant? name with
          | some value => pure ⟨.literal value, rest, by simp⟩
          | none => if name = "this" then path .relative [] else path .context [.name name]
      | .aliasName name => path (.ofAlias name) []
      | .attributeName name => path (.ofAttribute name) []

/-- A unary operator on its argument; a minus before a number literal is a part
of the literal, if there is a number of the other sign. -/
def unaryOf (punct : Punct) (arg : Expr) : Expr :=
  match if punct = .minus then arg.literal?.bind Value.neg? else none with
  | some value => .literal value
  | none => .operator punct.text [arg]

def Source.prefixed (conditional unary : Parser Expr) : Parser Expr
  | .punct p :: rest =>
      if p ∈ Punct.unary then do
        source.take rest
        let arg ← unary rest
        pure ((arg.map (unaryOf p)).widen (by simp))
      else source.operand conditional (.punct p :: rest)
  | tokens => source.operand conditional tokens

/-- The two parsers that nest. -/
structure Level where
  conditional : Parser Expr
  unary : Parser Expr

/-- The parsers that may still nest to the given depth. -/
def Source.level : Nat → Level
  | 0 => ⟨fun _ => .error (source.error .tooDeep), fun _ => .error (source.error .tooDeep)⟩
  | depth + 1 =>
      let inner := level depth
      ⟨source.ternary inner.conditional inner.unary, source.prefixed inner.conditional inner.unary⟩

/-- The depth to which conditionals and unary operators nest together. Every
pair of brackets takes two. -/
def depthLimit : Nat := 256

end Grammar

namespace Expr

open Grammar

/-- The tree of a source whose tokens are read. -/
def ofTokens (text : String) (tokens : Reading Token SyntaxError) : Except SyntaxError Expr := do
  let source : Source := ⟨text, tokens.fault⟩
  source.take tokens.items
  let parsed ← source.sequence (source.level depthLimit).conditional tokens.items
  match parsed.rest with
  | [] => pure parsed.value
  | token :: _ => .error (source.error (.unexpectedToken token))

/-- The tree of an expression, or the fault that comes first. -/
def parse (text : String) : Except SyntaxError Expr :=
  ofTokens text (Token.readSource text)

end Stencil.Expr
