import Lindenmayer.Main
import Lindenmayer.Random.AnySource
import Lindenmayer.Session
import Lindenmayer.Proofs.Production.Validation
import Lindenmayer.Proofs.Derivation.Failure
import Lindenmayer.Proofs.Derivation.History
import Lindenmayer.Proofs.Grammar.Printer
import Lindenmayer.Proofs.Derivation.Symbols
import Lindenmayer.Proofs.Derivation.Truncation
import Lindenmayer.Proofs.Derivation.Simulation
import Lindenmayer.Proofs.CommandLine.Interactive
import Lindenmayer.Proofs.Number.Nearest
import Lindenmayer.Proofs.Number.Rounding
import Lindenmayer.Proofs.Number.Arithmetic
import Lindenmayer.Proofs.Number.Magnitude
import Lindenmayer.Proofs.Number.Hundredths
import Lindenmayer.Proofs.RandomGrammar.Probabilities
import Lindenmayer.Proofs.Random.Drawing
import Lindenmayer.Proofs.RandomGrammar.Words
import Lindenmayer.Proofs.RandomGrammar.Lines
import Lindenmayer.Proofs.RandomGrammar.Alternatives
import Lindenmayer.Proofs.Grammar.Coverage
import Lindenmayer.Proofs.RandomGrammar.Coverage
import Lindenmayer.Proofs.RandomGrammar.Generate
import Lindenmayer.Proofs.Random.Twister
import Lindenmayer.Proofs.Derivation.Certain
import Lindenmayer.Proofs.Derivation.Order
import Lindenmayer.Proofs.Derivation.ContextFree
import Lindenmayer.Proofs.Derivation.Branches
import Lindenmayer.Proofs.RandomGrammar.Branches
import Lindenmayer.Proofs.Derivation.Selection
import Lindenmayer.Proofs.Derivation.Coverage
import Lindenmayer.Proofs.Expr.Layout
import Lindenmayer.Proofs.Element.Layout
import Lindenmayer.Proofs.Production.Layout
import Lindenmayer.Proofs.Expr.Parentheses
import Lindenmayer.Proofs.Expr.Dependence
import Lindenmayer.Proofs.Expr.Renaming
import Lindenmayer.Proofs.Production.Renaming
import Lindenmayer.Proofs.Grammar.Fault
import Lindenmayer.Proofs.Element.Spelling
import Lindenmayer.Proofs.Grammar.Comment
