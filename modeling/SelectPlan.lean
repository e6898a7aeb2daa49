import SelectPlan.Main
import SelectPlan.Proofs.Scanner.Symbols
import SelectPlan.Proofs.Scanner.Spelling
import SelectPlan.Proofs.Parser.Offer
import SelectPlan.Proofs.Parser.Outcome
import SelectPlan.Proofs.Parser.Phrase
import SelectPlan.Proofs.Grammar.Basic
import SelectPlan.Proofs.Grammar.Production
import SelectPlan.Proofs.Grammar.Clauses
import SelectPlan.Proofs.Grammar.Following
import SelectPlan.Proofs.Grammar.Statement
import SelectPlan.Proofs.Grammar.Parse
import SelectPlan.Proofs.Scanner.Places
import SelectPlan.Proofs.Grammar.FirstFault
import SelectPlan.Proofs.Rendering.RoundTrip
import SelectPlan.Proofs.Planner.CheckOrder
import SelectPlan.Proofs.Text.Bytes
import SelectPlan.Proofs.Scanner.Calls
import SelectPlan.Proofs.Compile.Errors
import SelectPlan.Proofs.Catalog.Document
import SelectPlan.Proofs.Scanner.Content
import SelectPlan.Proofs.Batch.Cuts
import SelectPlan.Proofs.Batch.Statements
import SelectPlan.Proofs.Batch.Splitting
import SelectPlan.Proofs.Planner.Widening
import SelectPlan.Proofs.Scanner.Layout
import SelectPlan.Proofs.Parser.Lockstep
import SelectPlan.Proofs.Grammar.Lockstep
import SelectPlan.Proofs.Compile.Layout
import SelectPlan.Proofs.Text.Utf8
import SelectPlan.Proofs.Shell.Lines
import SelectPlan.Proofs.Shell.Arguments
import SelectPlan.Proofs.Shell.Session
import SelectPlan.Proofs.Shell.Modes
import SelectPlan.Proofs.Planner.Hiding
import SelectPlan.Proofs.Rendering.Explanation
import SelectPlan.Proofs.Text.ByteOrder
import SelectPlan.Proofs.Catalog.Latest
import SelectPlan.Proofs.Catalog.Draft
import SelectPlan.Proofs.Catalog.History
import SelectPlan.Proofs.Planner.Independence
import SelectPlan.Proofs.Scanner.LexicalGrammar
import SelectPlan.Proofs.Rendering.Lines
import SelectPlan.Proofs.Parser.Entry
import SelectPlan.Proofs.Shell.Truncation
import SelectPlan.Proofs.Batch.StatementEnd
import SelectPlan.Proofs.Grammar.Interruption
import SelectPlan.Proofs.Compile.Counts
import SelectPlan.Proofs.Catalog.Loading
import SelectPlan.Proofs.Shell.Groups
import SelectPlan.Proofs.Shell.ExitCodes
import SelectPlan.Proofs.Grammar.Pushback
import SelectPlan.Proofs.Expr.Walk
