import LoxLang.Machine.Describe
import LoxLang.Main
import LoxLang.Proofs.Console.Braces
import LoxLang.Proofs.Console.Continuation
import LoxLang.Proofs.Console.Invariant
import LoxLang.Proofs.Family.Sharing
import LoxLang.Proofs.Film.Acyclic
import LoxLang.Proofs.Grammar.Composition
import LoxLang.Proofs.InPlace.Discipline
import LoxLang.Proofs.Line.Equivariance
import LoxLang.Proofs.Loop.Desugaring
import LoxLang.Proofs.Number.Fewest
import LoxLang.Proofs.Number.ReadBack
import LoxLang.Proofs.Program.Globals
import LoxLang.Proofs.Reach.Activation
import LoxLang.Proofs.Report.Offending
import LoxLang.Proofs.Report.Recovery
import LoxLang.Proofs.Return.Answered
import LoxLang.Proofs.Scope.Stack
import LoxLang.Proofs.Session.History
import LoxLang.Proofs.Session.Splitting
import LoxLang.Proofs.Token.Layout
import LoxLang.Tree.Printer
