import CstGrammar.Command.Arguments
import CstGrammar.Command.Basic
import CstGrammar.Command.Run
import CstGrammar.Event
import CstGrammar.File.Directory
import CstGrammar.Grammar.Basic
import CstGrammar.Grammar.Load
import CstGrammar.Grammar.Source
import CstGrammar.Json.Basic
import CstGrammar.Main
import CstGrammar.Parser.Grammar
import CstGrammar.Parser.Rule
import CstGrammar.Proofs.Command.Run
import CstGrammar.Proofs.Grammar.Concatenation
import CstGrammar.Proofs.Grammar.Definition
import CstGrammar.Proofs.Grammar.Layout
import CstGrammar.Proofs.Grammar.Redefinition
import CstGrammar.Proofs.Grammar.RoundTrip
import CstGrammar.Proofs.Grammar.Shape
import CstGrammar.Proofs.Json.Grammar
import CstGrammar.Proofs.Json.Reader
import CstGrammar.Proofs.Parser.Acceptance
import CstGrammar.Proofs.Parser.Breaking
import CstGrammar.Proofs.Parser.Clauses
import CstGrammar.Proofs.Parser.Contract
import CstGrammar.Proofs.Parser.Derivation
import CstGrammar.Proofs.Parser.Entries
import CstGrammar.Proofs.Parser.Errors
import CstGrammar.Proofs.Parser.Language
import CstGrammar.Proofs.Parser.Leaves
import CstGrammar.Proofs.Parser.Log
import CstGrammar.Proofs.Parser.Placeholders
import CstGrammar.Proofs.Parser.Progress
import CstGrammar.Proofs.Parser.Reach
import CstGrammar.Proofs.Parser.Reader
import CstGrammar.Proofs.Parser.Recovery
import CstGrammar.Proofs.Parser.Reprint
import CstGrammar.Proofs.Parser.Results
import CstGrammar.Proofs.Parser.Run
import CstGrammar.Proofs.Parser.Simulation
import CstGrammar.Proofs.Parser.Spelling
import CstGrammar.Proofs.Parser.Termination
import CstGrammar.Proofs.Parser.Tolerance
import CstGrammar.Proofs.Parser.Transport
import CstGrammar.Proofs.Parser.View
import CstGrammar.Proofs.Rule.Canonical
import CstGrammar.Proofs.Rule.Relocation
import CstGrammar.Proofs.Rule.Shape
import CstGrammar.Proofs.Rule.Words
import CstGrammar.Proofs.Token.Layout
import CstGrammar.Proofs.Token.Lexeme
import CstGrammar.Proofs.Token.Lexer
import CstGrammar.Proofs.Token.Literal
import CstGrammar.Proofs.Token.Order
import CstGrammar.Proofs.Token.Pulling
import CstGrammar.Proofs.Token.Quoted
import CstGrammar.Proofs.Token.Scanner
import CstGrammar.Proofs.Token.Scans
import CstGrammar.Proofs.Token.Tokenized
import CstGrammar.Proofs.Token.Word
import CstGrammar.Rule.Basic
import CstGrammar.Rule.Shape
import CstGrammar.Settings.File
import CstGrammar.Text.Basic
import CstGrammar.Text.Visible
import CstGrammar.Token.Basic
import CstGrammar.Token.Lexeme
import CstGrammar.Token.Lexer
import CstGrammar.Token.Literal
