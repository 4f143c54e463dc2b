import BranchText.Script.Syntax
import BranchText.Script.Token

/-!
# Reading scripts

The grammar of scripts, loosest operators first:

    expression := sum ('==' sum)*
    sum        := product (('+' | '-') product)*
    product    := unary (('*' | '/' | '%') unary)*
    unary      := '-' unary | operand ('.' name ('(' arguments ')')?)*

Statements end with a semicolon, which those that end in a block do without. Functions are defined
at the top only. A text that does not follow the grammar has no reading at all.
-/

namespace BranchText

namespace Script

/-- Something read from tokens, and the tokens after it, fewer than `limit`. -/
structure Taken (α : Type) (limit : Nat) where
  value : α
  rest : List Token
  fewer : rest.length < limit

/-- Words with a meaning of their own, which name no variable and no function. -/
def keywords : List String :=
  ["true", "false", "let", "const", "if", "else", "switch", "do", "while", "until", "loop", "for",
    "in", "continue", "break", "return", "throw", "try", "catch", "fn", "private", "import",
    "export", "as", "global", "var", "static", "is", "goto", "exit", "match", "case", "default",
    "public", "protected", "new", "use", "with", "module", "package", "super", "async", "await",
    "yield", "thread", "spawn", "go", "sync", "null", "nil", "void", "shared", "each", "then",
    "this"]

/-- Whether a word can name something. -/
def isName (word : String) : Bool := !keywords.contains word

/-- Takes one symbol. -/
def expect (symbol : Symbol) (tokens : List Token) : Option (Taken Unit tokens.length) :=
  match tokens with
  | .symbol found :: rest =>
    if found = symbol then some ⟨(), rest, Nat.lt_succ_self _⟩ else none
  | _ => none

/-- Takes the rest of a list of parameters, up to the symbol that closes it. -/
def parameters (closing : Symbol) : (tokens : List Token) →
    Option (Taken (List String) tokens.length)
  | .symbol found :: rest =>
    if found = closing then some ⟨[], rest, Nat.lt_succ_self _⟩ else none
  | .word name :: .symbol found :: rest =>
    if !isName name then none
    else if found = closing then
      some ⟨[name], rest, by simp only [List.length_cons]; omega⟩
    else if found = .comma then do
      let others ← parameters closing rest
      if others.value.contains name then none
      else
        some ⟨name :: others.value, others.rest, by
          have := others.fewer; simp only [List.length_cons]; omega⟩
    else none
  | _ => none

/-- The binary operator of a symbol and how strongly it binds. -/
def operator? : Symbol → Option (Operator × Nat)
  | .equal => some (.equal, 0)
  | .plus => some (.add, 1)
  | .minus => some (.subtract, 1)
  | .times => some (.multiply, 2)
  | .slash => some (.divide, 2)
  | .percent => some (.remainder, 2)
  | _ => none

/-- A statement, and whether it ends in a block and needs no semicolon. -/
structure Terminated where
  statement : Statement
  endsInBlock : Bool

/-- Takes the semicolons before the next statement. -/
def skipSemicolons : (tokens : List Token) → Taken Unit (tokens.length + 1)
  | .symbol .semicolon :: rest =>
    let skipped := skipSemicolons rest
    ⟨(), skipped.rest, by have := skipped.fewer; simp only [List.length_cons]; omega⟩
  | tokens => ⟨(), tokens, Nat.lt_succ_self _⟩

mutual

/-- Takes an expression whose operators bind at least as strongly as `level`. -/
def expression (level : Nat) (tokens : List Token) :
    Option (Taken Expression tokens.length) := do
  let left ← unary tokens
  have leftLt := left.fewer
  let whole ← operations level left.value left.rest
  return ⟨whole.value, whole.rest, by have := whole.fewer; omega⟩
termination_by 8 * tokens.length + 3

/-- Takes the operators and operands that follow a left operand. -/
def operations (level : Nat) (left : Expression) (tokens : List Token) :
    Option (Taken Expression (tokens.length + 1)) :=
  match tokens with
  | .symbol symbol :: rest =>
    match operator? symbol with
    | some (operator, strength) =>
      if strength < level then some ⟨left, .symbol symbol :: rest, Nat.lt_succ_self _⟩
      else do
        let right ← expression (strength + 1) rest
        have rightLt := right.fewer
        let whole ← operations level (.binary operator left right.value) right.rest
        return ⟨whole.value, whole.rest, by
          have := whole.fewer; simp only [List.length_cons]; omega⟩
    | none => some ⟨left, .symbol symbol :: rest, Nat.lt_succ_self _⟩
  | tokens => some ⟨left, tokens, Nat.lt_succ_self _⟩
termination_by 8 * tokens.length

/-- Takes an operand with the signs before it and the accesses after it. -/
def unary (tokens : List Token) : Option (Taken Expression tokens.length) :=
  match tokens with
  | .symbol .minus :: rest => do
    let operand ← unary rest
    let value : Expression :=
      match operand.value with
      | .integer value => .integer (-value)
      | .double value => .double (-value)
      | value => .negate value
    return ⟨value, operand.rest, by have := operand.fewer; simp only [List.length_cons]; omega⟩
  | tokens => do
    let receiver ← operand tokens
    have receiverLt := receiver.fewer
    let whole ← accesses receiver.value receiver.rest
    return ⟨whole.value, whole.rest, by have := whole.fewer; omega⟩
termination_by 8 * tokens.length + 2

/-- Takes the properties and methods that follow an operand. -/
def accesses (receiver : Expression) (tokens : List Token) :
    Option (Taken Expression (tokens.length + 1)) :=
  match tokens with
  | .symbol .dot :: .word name :: .symbol .leftParen :: rest =>
    if isName name then do
      let values ← items .rightParen rest
      have valuesLt := values.fewer
      let whole ← accesses (.method receiver name values.value) values.rest
      return ⟨whole.value, whole.rest, by
        have := whole.fewer; simp only [List.length_cons]; omega⟩
    else none
  | .symbol .dot :: .word name :: rest =>
    if isName name then do
      let whole ← accesses (.property receiver name) rest
      return ⟨whole.value, whole.rest, by
        have := whole.fewer; simp only [List.length_cons]; omega⟩
    else none
  | .symbol .dot :: _ => none
  | tokens => some ⟨receiver, tokens, Nat.lt_succ_self _⟩
termination_by 8 * tokens.length

/-- Takes expressions with commas between them, up to the symbol that closes the list. -/
def items (closing : Symbol) (tokens : List Token) :
    Option (Taken (List Expression) tokens.length) :=
  match expect closing tokens with
  | some close => some ⟨[], close.rest, close.fewer⟩
  | none => do
    let first ← expression 0 tokens
    have firstLt := first.fewer
    match expect closing first.rest with
    | some close => return ⟨[first.value], close.rest, by have := close.fewer; omega⟩
    | none =>
      let comma ← expect .comma first.rest
      have commaLt := comma.fewer
      let others ← items closing comma.rest
      return ⟨first.value :: others.value, others.rest, by have := others.fewer; omega⟩
termination_by 8 * tokens.length + 4

/-- Takes the fields of an object, up to the closing brace. -/
def fields (tokens : List Token) : Option (Taken (List Field) tokens.length) :=
  let named : Option (String × List Token) :=
    match tokens with
    | .word name :: rest => some (name, rest)
    | .text name :: rest => some (name, rest)
    | _ => none
  match expect .rightBrace tokens with
  | some close => some ⟨[], close.rest, close.fewer⟩
  | none =>
    match tokens, named with
    | _ :: rest, some (name, _) => do
      let colon ← expect .colon rest
      have colonLt := colon.fewer
      let value ← expression 0 colon.rest
      have valueLt := value.fewer
      match expect .rightBrace value.rest with
      | some close =>
        return ⟨[⟨name, value.value⟩], close.rest, by
          have := close.fewer; simp only [List.length_cons]; omega⟩
      | none =>
        let comma ← expect .comma value.rest
        have commaLt := comma.fewer
        let others ← fields comma.rest
        if others.value.any (·.name = name) then none
        else
          return ⟨⟨name, value.value⟩ :: others.value, others.rest, by
            have := others.fewer; simp only [List.length_cons]; omega⟩
    | _, _ => none
termination_by 8 * tokens.length

/-- Takes an operand. -/
def operand (tokens : List Token) : Option (Taken Expression tokens.length) :=
  match tokens with
  | .integer value :: rest => some ⟨.integer value, rest, Nat.lt_succ_self _⟩
  | .double value :: rest => some ⟨.double value, rest, Nat.lt_succ_self _⟩
  | .text value :: rest => some ⟨.text value, rest, Nat.lt_succ_self _⟩
  | .symbol .leftParen :: .symbol .rightParen :: rest =>
    some ⟨.unit, rest, by simp only [List.length_cons]; omega⟩
  | .symbol .leftParen :: rest => do
    let inner ← expression 0 rest
    have innerLt := inner.fewer
    let close ← expect .rightParen inner.rest
    return ⟨inner.value, close.rest, by
      have := close.fewer; simp only [List.length_cons]; omega⟩
  | .symbol .leftBracket :: rest => do
    let values ← items .rightBracket rest
    return ⟨.array values.value, values.rest, by
      have := values.fewer; simp only [List.length_cons]; omega⟩
  | .symbol .hashBrace :: rest => do
    let found ← fields rest
    return ⟨.object found.value, found.rest, by
      have := found.fewer; simp only [List.length_cons]; omega⟩
  | .symbol .leftBrace :: rest => do
    let body ← statements rest
    return ⟨.block body.value, body.rest, by
      have := body.fewer; simp only [List.length_cons]; omega⟩
  | .symbol .doubleBar :: rest => do
    let body ← statement rest
    return ⟨.closure [] [body.value.statement], body.rest, by
      have := body.fewer; simp only [List.length_cons]; omega⟩
  | .symbol .bar :: rest => do
    let names ← parameters .bar rest
    have namesLt := names.fewer
    let body ← statement names.rest
    return ⟨.closure names.value [body.value.statement], body.rest, by
      have := body.fewer; simp only [List.length_cons]; omega⟩
  | .word "true" :: rest => some ⟨.boolean true, rest, Nat.lt_succ_self _⟩
  | .word "false" :: rest => some ⟨.boolean false, rest, Nat.lt_succ_self _⟩
  | .word "if" :: rest => do
    let found ← conditional rest
    return ⟨found.value, found.rest, by
      have := found.fewer; simp only [List.length_cons]; omega⟩
  | .word name :: .symbol .leftParen :: rest =>
    if isName name then do
      let values ← items .rightParen rest
      return ⟨.call name values.value, values.rest, by
        have := values.fewer; simp only [List.length_cons]; omega⟩
    else none
  | .word name :: rest =>
    if isName name then some ⟨.variable name, rest, Nat.lt_succ_self _⟩ else none
  | _ => none
termination_by 8 * tokens.length + 1

/-- Takes the condition and the branches after `if`. -/
def conditional (tokens : List Token) : Option (Taken Expression tokens.length) := do
  let condition ← expression 0 tokens
  have conditionLt := condition.fewer
  let positive ← block condition.rest
  have positiveLt := positive.fewer
  match next : positive.rest with
  | .word "else" :: .word "if" :: rest =>
    have : rest.length + 2 = positive.rest.length := by simp [next]
    let negative ← conditional rest
    return ⟨.conditional condition.value positive.value [.expression negative.value],
      negative.rest, by have := negative.fewer; omega⟩
  | .word "else" :: rest =>
    have : rest.length + 1 = positive.rest.length := by simp [next]
    let negative ← block rest
    return ⟨.conditional condition.value positive.value negative.value, negative.rest, by
      have := negative.fewer; omega⟩
  | rest =>
    return ⟨.conditional condition.value positive.value [], rest, by
      rw [← next]; omega⟩
termination_by 8 * tokens.length + 4

/-- Takes a block with its braces. -/
def block (tokens : List Token) : Option (Taken (List Statement) tokens.length) := do
  let opening ← expect .leftBrace tokens
  have openingLt := opening.fewer
  let body ← statements opening.rest
  return ⟨body.value, body.rest, by have := body.fewer; omega⟩
termination_by 8 * tokens.length

/-- Takes statements up to the brace that closes their block, and that brace. -/
def statements (tokens : List Token) : Option (Taken (List Statement) tokens.length) := do
  let ⟨_, start, startLt⟩ := skipSemicolons tokens
  match expect .rightBrace start with
  | some close => return ⟨[], close.rest, by have := close.fewer; omega⟩
  | none =>
    let first ← statement start
    have firstLt := first.fewer
    match expect .rightBrace first.rest with
    | some close =>
      return ⟨[first.value.statement], close.rest, by have := close.fewer; omega⟩
    | none =>
      let next : Taken Unit start.length ←
        match expect .semicolon first.rest with
        | some semicolon => some ⟨(), semicolon.rest, by have := semicolon.fewer; omega⟩
        | none => if first.value.endsInBlock then some ⟨(), first.rest, firstLt⟩ else none
      have nextLt := next.fewer
      let others ← statements next.rest
      return ⟨first.value.statement :: others.value, others.rest, by
        have := others.fewer; omega⟩
termination_by 8 * tokens.length + 6

/-- Takes a statement, without the semicolon after it. -/
def statement (tokens : List Token) : Option (Taken Terminated tokens.length) :=
  match tokens with
  | .word "let" :: .word name :: .symbol .assign :: rest =>
    if isName name then do
      let value ← expression 0 rest
      return ⟨⟨.define name (some value.value), false⟩, value.rest, by
        have := value.fewer; simp only [List.length_cons]; omega⟩
    else none
  | .word "let" :: .word name :: rest =>
    if isName name then
      some ⟨⟨.define name none, false⟩, rest, by simp only [List.length_cons]; omega⟩
    else none
  | .word name :: .symbol .assign :: rest =>
    if isName name then do
      let value ← expression 0 rest
      return ⟨⟨.assign name value.value, false⟩, value.rest, by
        have := value.fewer; simp only [List.length_cons]; omega⟩
    else none
  | .word name :: .symbol .increase :: rest =>
    if isName name then do
      let value ← expression 0 rest
      return ⟨⟨.increase name value.value, false⟩, value.rest, by
        have := value.fewer; simp only [List.length_cons]; omega⟩
    else none
  | .word "for" :: .word name :: .word "in" :: rest =>
    if isName name then do
      let low ← expression 0 rest
      have lowLt := low.fewer
      let dots ← expect .range low.rest
      have dotsLt := dots.fewer
      let high ← expression 0 dots.rest
      have highLt := high.fewer
      let body ← block high.rest
      return ⟨⟨.count name low.value high.value body.value, true⟩, body.rest, by
        have := body.fewer; simp only [List.length_cons]; omega⟩
    else none
  | .word "throw" :: rest =>
    match rest with
    | [] => some ⟨⟨.throw none, false⟩, [], Nat.lt_succ_self _⟩
    | .symbol .semicolon :: later =>
      some ⟨⟨.throw none, false⟩, .symbol .semicolon :: later, Nat.lt_succ_self _⟩
    | .symbol .rightBrace :: later =>
      some ⟨⟨.throw none, false⟩, .symbol .rightBrace :: later, Nat.lt_succ_self _⟩
    | rest => do
      let value ← expression 0 rest
      return ⟨⟨.throw (some value.value), false⟩, value.rest, by
        have := value.fewer; simp only [List.length_cons]; omega⟩
  | .word "try" :: rest => do
    let body ← block rest
    have bodyLt := body.fewer
    match next : body.rest with
    | .word "catch" :: rest =>
      have : rest.length + 1 = body.rest.length := by simp [next]
      let handler ← block rest
      return ⟨⟨.attempt body.value handler.value, true⟩, handler.rest, by
        have := handler.fewer; simp only [List.length_cons]; omega⟩
    | _ => none
  | .word "if" :: rest => do
    let found ← conditional rest
    return ⟨⟨.expression found.value, true⟩, found.rest, by
      have := found.fewer; simp only [List.length_cons]; omega⟩
  | .symbol .leftBrace :: rest => do
    let body ← statements rest
    return ⟨⟨.expression (.block body.value), true⟩, body.rest, by
      have := body.fewer; simp only [List.length_cons]; omega⟩
  | tokens => do
    let value ← expression 0 tokens
    return ⟨⟨.expression value.value, false⟩, value.rest, value.fewer⟩
termination_by 8 * tokens.length + 5

end

/-- Takes a function definition after its keyword. -/
def definition (tokens : List Token) : Option (Taken FunctionDefinition tokens.length) :=
  match tokens with
  | .word name :: .symbol .leftParen :: rest =>
    if isName name then do
      let names ← parameters .rightParen rest
      have namesLt := names.fewer
      let body ← block names.rest
      return ⟨⟨name, names.value, body.value⟩, body.rest, by
        have := body.fewer; simp only [List.length_cons]; omega⟩
    else none
  | _ => none

/-- Takes functions and statements up to the end. -/
def toplevel (tokens : List Token) : Option Program := do
  let ⟨_, start, startLt⟩ := skipSemicolons tokens
  match next : start with
  | [] => return ⟨[], []⟩
  | .word "fn" :: rest =>
    have : rest.length + 1 = start.length := by simp [next]
    let found ← definition rest
    have foundLt := found.fewer
    let program ← toplevel found.rest
    let again := program.functions.any fun other =>
      other.name = found.value.name
        && other.parameters.length = found.value.parameters.length
    if again then none else some { program with functions := found.value :: program.functions }
  | rest =>
    have : rest.length = start.length := by simp [next]
    let first ← statement rest
    have firstLt := first.fewer
    match after : first.rest with
    | [] => return ⟨[], [first.value.statement]⟩
    | .symbol .semicolon :: later =>
      have : later.length + 1 = first.rest.length := by simp [after]
      let program ← toplevel later
      return { program with body := first.value.statement :: program.body }
    | later =>
      have : later.length = first.rest.length := by simp [after]
      if first.value.endsInBlock then
        let program ← toplevel later
        return { program with body := first.value.statement :: program.body }
      else none
termination_by tokens.length

/-- Reads a script; nothing if it does not follow the grammar. -/
def Program.read? (source : String) : Option Program := do
  toplevel (← tokenize source.toList)

end Script

end BranchText
