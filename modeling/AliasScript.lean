import AliasScript.Main
import AliasScript.Program.Written
import AliasScript.Proofs.Number.Truncated
import AliasScript.Proofs.Program.Rendering
import AliasScript.Proofs.Token.Scanned
import AliasScript.Proofs.Token.Account
import AliasScript.Proofs.Token.Respaced
import AliasScript.Proofs.Scope.Walk
import AliasScript.Proofs.Scope.Addresses
import AliasScript.Proofs.Scope.Lawful
import AliasScript.Proofs.Store.Bisimilar
import AliasScript.Proofs.Store.AlongPath
import AliasScript.Proofs.Store.Shown
import AliasScript.Proofs.Store.Drawn
import AliasScript.Proofs.Store.Lineage
import AliasScript.Proofs.Machine.Chain
import AliasScript.Proofs.Machine.Growth
import AliasScript.Proofs.Machine.ScopeLaws
import AliasScript.Proofs.Evaluation.Contained
import AliasScript.Proofs.Evaluation.Meets
import AliasScript.Proofs.Evaluation.Alias
import AliasScript.Proofs.Evaluation.Operator
import AliasScript.Proofs.Evaluation.Call
import AliasScript.Proofs.Evaluation.Arity
import AliasScript.Proofs.Evaluation.Place
import AliasScript.Proofs.Evaluation.Expression
import AliasScript.Proofs.Evaluation.Module
import AliasScript.Proofs.Evaluation.Declaration
import AliasScript.Proofs.Evaluation.Statement
import AliasScript.Proofs.Evaluation.Watch
import AliasScript.Proofs.Evaluation.AliasChain
import AliasScript.Proofs.Evaluation.Corresponds
import AliasScript.Proofs.Session.Addressing
import AliasScript.Proofs.Session.Safety
import AliasScript.Proofs.Session.Usable
import AliasScript.Proofs.Session.Enclosed
import AliasScript.Proofs.Session.Confined
import AliasScript.Proofs.Session.Grounded
import AliasScript.Proofs.Session.Dispatch
import AliasScript.Proofs.Session.Unnoticed
import AliasScript.Proofs.Session.Lasting
import AliasScript.Proofs.Session.Answers
import AliasScript.Proofs.Session.Bounds
import AliasScript.Proofs.Program.Progress
import AliasScript.Proofs.Program.Within
import AliasScript.Proofs.Scope.Place
import AliasScript.Proofs.Scope.Violations
import AliasScript.Proofs.Scope.SourceOrder
import AliasScript.Proofs.Token.LineEnds
import AliasScript.Proofs.Program.Separators
import AliasScript.Proofs.Program.Recovery
import AliasScript.Proofs.Token.StringLiteral
import AliasScript.Proofs.Library.Range
