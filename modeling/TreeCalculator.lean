import TreeCalculator.Session
import TreeCalculator.Proofs.Expr.Height
import TreeCalculator.Proofs.Stacks.Grouping
import TreeCalculator.Proofs.Token.Spelling
import TreeCalculator.Proofs.Entry.Acceptance
import TreeCalculator.Proofs.Analysis
import TreeCalculator.Proofs.Expr.Rereading
import TreeCalculator.Proofs.Expr.Reentry
import TreeCalculator.Proofs.Expr.Exact
import TreeCalculator.Proofs.Session.History
import TreeCalculator.Proofs.Entry.Spacing
import TreeCalculator.Proofs.Session.Buffer
import TreeCalculator.Proofs.Stacks.Reached
import TreeCalculator.Proofs.Stacks.Conservation
import TreeCalculator.Proofs.Stacks.LowerLimit
import TreeCalculator.Proofs.Stacks.Group
import TreeCalculator.Proofs.Drawing.Block
import TreeCalculator.Proofs.Drawing.Decoding
import TreeCalculator.Proofs.Expr.Polish
import TreeCalculator.Proofs.Drawing.Extent
import TreeCalculator.Proofs.Drawing.Marks
import TreeCalculator.Proofs.Expr.Bits
import TreeCalculator.Proofs.Token.Echo
import TreeCalculator.Proofs.Expr.Parentheses
import TreeCalculator.Proofs.Expr.Fraction
import TreeCalculator.Proofs.Stacks.Layers
