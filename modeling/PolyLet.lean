import PolyLet.Builtin
import PolyLet.Command.Run
import PolyLet.Diagnostic.Render
import PolyLet.Expr.Outline
import PolyLet.Expr.Parser
import PolyLet.Expr.Printer
import PolyLet.Infer
import PolyLet.JavaScript
import PolyLet.Main
import PolyLet.Proofs.Binding
import PolyLet.Proofs.Composition
import PolyLet.Proofs.Inference.Collision
import PolyLet.Proofs.Inference.Completeness
import PolyLet.Proofs.Inference.Freshness
import PolyLet.Proofs.Inference.Idempotence
import PolyLet.Proofs.Inference.Independence
import PolyLet.Proofs.Inference.Run
import PolyLet.Proofs.Inference.Scope
import PolyLet.Proofs.Inference.Soundness
import PolyLet.Proofs.Instance
import PolyLet.Proofs.Principality
import PolyLet.Proofs.Renaming
import PolyLet.Proofs.Supply
import PolyLet.Proofs.Typing
import PolyLet.Proofs.Unification
import PolyLet.Proofs.Unification.Calls
import PolyLet.Session
import PolyLet.Token.Lexer
import PolyLet.Unify
import PolyLet.Proofs.Lexing.Run
import PolyLet.Proofs.Lexing.Tiling
import PolyLet.Proofs.Parsing.Grammar
import PolyLet.Proofs.Parsing.Reader
import PolyLet.Proofs.Parsing.Reads
import PolyLet.Proofs.Parsing.Acceptance
import PolyLet.Proofs.Parsing.FirstError
import PolyLet.Proofs.Lexing.Words
import PolyLet.Proofs.Printing.Spelling
import PolyLet.Proofs.Printing.RoundTrip
import PolyLet.Proofs.Lexing.Excerpt
import PolyLet.Proofs.Lexing.Separation
import PolyLet.Proofs.Parsing.Layout
import PolyLet.Proofs.Parsing.Places
import PolyLet.Proofs.JavaScript.Names
import PolyLet.Proofs.Parsing.Faithful
import PolyLet.Proofs.JavaScript.Decoding
import PolyLet.Proofs.JavaScript.Bindings
import PolyLet.Proofs.Command.Locations
import PolyLet.Proofs.Command.Effects
import PolyLet.Proofs.Command.Overwriting
import PolyLet.Proofs.AlphaEquivalence
import PolyLet.Proofs.Printing.Typing
import PolyLet.Proofs.Unification.Errors
import PolyLet.Proofs.Inference.Failure
import PolyLet.Proofs.NormalForm
import PolyLet.Proofs.Inference.FreeNames
import PolyLet.Proofs.Generalization
import PolyLet.Proofs.Printing.Types
import PolyLet.Proofs.Printing.Schemes
import PolyLet.Proofs.Lexing.Calls
import PolyLet.Proofs.Parsing.Nesting
import PolyLet.Proofs.Parsing.Unclosed
import PolyLet.Proofs.Printing.Outline
import PolyLet.Proofs.Command.Atomicity
import PolyLet.Proofs.Parsing.Descent
import PolyLet.Proofs.Parsing.Termination
import PolyLet.Proofs.Parsing.Integers
import PolyLet.Proofs.Width
