import Guardedness.Main
import Guardedness.Proofs.Check.Agreement
import Guardedness.Proofs.Check.Exposure
import Guardedness.Proofs.Check.Once
import Guardedness.Proofs.Check.Pending
import Guardedness.Proofs.Check.Renaming
import Guardedness.Proofs.Check.Scope
import Guardedness.Proofs.Check.Siblings
import Guardedness.Proofs.CommandLine
import Guardedness.Proofs.Ignored
import Guardedness.Proofs.Layout
import Guardedness.Proofs.Lexer.Munch
import Guardedness.Proofs.Lexer.Places
import Guardedness.Proofs.Parser.Acceptance
import Guardedness.Proofs.Parser.Conservation
import Guardedness.Proofs.Parser.Deriving
import Guardedness.Proofs.Parser.Descent
import Guardedness.Proofs.Parser.Grouping
import Guardedness.Proofs.Parser.Longest
import Guardedness.Proofs.Parser.Refusal
import Guardedness.Proofs.Parser.Session
import Guardedness.Proofs.Parser.Writing
import Guardedness.Proofs.PlainText
import Guardedness.Proofs.Proc
import Guardedness.Proofs.RoundTrip
import Guardedness.Proofs.Settings
import Guardedness.Proofs.Verdict
