import Reckoner.Command.Basic
import Reckoner.Expr.Parser
import Reckoner.Token.Scanner

/-! # Parsing commands

```text
command := 'let' IDENTIFIER '=' expression | 'explain' expression | 'symbols'
         | 'exit' | 'quit' | expression
```

A command takes up its whole line.
-/
namespace Reckoner.Command

open ParseError (fail)

def parseAssign : Parser Unit
  | ⟨.mark .assign, _⟩ :: rest => .ok ((), rest)
  | ts => fail (.unexpectedToken "`=`") ts

/-- A command, and the tokens after it. -/
def parseFront : Parser Command
  | ⟨.keyword .letWord, _⟩ :: ts => do
    let (name, ts) ← Expr.parseIdentifier ts
    let ((), ts) ← parseAssign ts
    let (e, ts) ← Expr.parse ts
    return (define name e, ts)
  | ⟨.keyword .explain, _⟩ :: ts => do
    let (e, ts) ← Expr.parse ts
    return (explain e, ts)
  | ⟨.keyword .symbols, _⟩ :: ts => .ok (symbols, ts)
  | ⟨.keyword .exit, _⟩ :: ts => .ok (exit, ts)
  | ⟨.keyword .quit, _⟩ :: ts => .ok (exit, ts)
  | ts => do
    let (e, ts) ← Expr.parse ts
    return (expression e, ts)

def parseTokens (ts : List Token) : Except ParseError.Failure Command := do
  let (command, rest) ← parseFront ts
  match rest with
  | [] => return command
  | rest => fail .trailingInput rest

def ofTokenLine (line : TokenLine) : Except ParseError Command :=
  (parseTokens line.tokens).mapError (ParseError.ofFailure line.stop)

def parse (line : String) : Except ParseError Command :=
  ofTokenLine (TokenLine.ofString line)

end Reckoner.Command
