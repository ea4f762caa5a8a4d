import CstGrammar.Grammar.Basic
import CstGrammar.Parser.Rule
import CstGrammar.Token.Lexer

namespace CstGrammar

/-- All that a source text gives: the grammar of what could be read, the errors, and the log. -/
structure Parse where
  grammar : Grammar
  errors : ErrorList
  log : List Event

namespace Parser

/-- A stretch of the tokens of a source. The rule of a definition is missing if its body failed. -/
inductive Passage
  | skipped (log : List Event)
  | definition (name : Token) (rule : Option Rule) (errors : ErrorList) (log : List Event)

variable (finish : Location)

theorem length_rest_alt_tail_lt (ts : List Token) :
    (alt finish ts.tail).rest.length < ts.length + 1 :=
  Nat.lt_of_lt_of_le (alt finish ts.tail).rest_lt (by rw [List.length_tail]; omega)

def passages : List Token → List Passage
  | [] => []
  | name :: ts =>
    if startsDefinition (name :: ts) then
      have := length_rest_alt_tail_lt finish ts
      let body := alt finish ts.tail
      .definition name body.value body.errors (pulls finish 2 (name :: ts) ++ body.log) ::
        passages body.rest
    else
      have := length_resume_le ts
      .skipped (recovery finish (name :: ts)) :: passages (resume ts)
termination_by ts => ts.length

/-- Enters the definitions into a grammar. The last definition of a name wins, and each one after
the first is reported. -/
def assemble (g : Grammar) : List Passage → Parse
  | [] => ⟨g, [], []⟩
  | .skipped log :: ps =>
    let p := assemble g ps
    { p with log := log ++ p.log }
  | .definition _ none errors log :: ps =>
    let p := assemble g ps
    { p with errors := errors ++ p.errors, log := log ++ p.log }
  | .definition name (some rule) errors log :: ps =>
    let p := assemble (g.insert name.value name.location rule) ps
    if g.contains name.value then
      let e : ParseError := ⟨name.location, .duplicateName name.value⟩
      { p with errors := errors ++ e :: p.errors, log := log ++ .reported e :: p.log }
    else { p with errors := errors ++ p.errors, log := log ++ p.log }

end Parser

namespace Parse

def ofTokens (s : TokenStream) : Parse :=
  let p := Parser.assemble {} (Parser.passages s.finish s.tokens)
  { p with log := p.log ++ [.finished p.grammar.size p.errors.length] }

def ofSource (source : String) : Parse := ofTokens (.ofSource source)

def accepted (p : Parse) : Except ErrorList Grammar := p.errors.accept p.grammar

end Parse

end CstGrammar
