import Packrat.Main
import Packrat.Tree.Row
import Packrat.Proofs.Agreement
import Packrat.Proofs.Consistency
import Packrat.Proofs.Outcome
import Packrat.Proofs.Soundness
import Packrat.Proofs.Run.Bounds
import Packrat.Proofs.Tree.Listing
import Packrat.Proofs.Tree.Structure
import Packrat.Proofs.Run.Limit
import Packrat.Proofs.Termination
import Packrat.Proofs.DepthLimit
import Packrat.Proofs.Token.Quoting
import Packrat.Proofs.Token.Words
import Packrat.Proofs.RuleSet.Syntax
import Packrat.Proofs.RuleSet.Plain
import Packrat.Proofs.RuleSet.RoundTrip
import Packrat.Proofs.Tree.Root
import Packrat.Proofs.Tree.Instances
import Packrat.Proofs.Run.Replay
import Packrat.Proofs.Run.Rest
import Packrat.Proofs.FixedPoint
import Packrat.Proofs.Checked
import Packrat.Proofs.RuleSet.Reading
import Packrat.Proofs.Command.Status
import Packrat.Proofs.Growth
import Packrat.Proofs.Run.Lasting
import Packrat.Proofs.Run.Direct
import Packrat.Proofs.LongestMatch
import Packrat.Proofs.Text.Place
import Packrat.Proofs.Token.Tiling
import Packrat.Proofs.RuleSet.Marks
import Packrat.Proofs.Run.Counter
import Packrat.Proofs.Run.Exits
import Packrat.Proofs.LeftRecursion
import Packrat.Proofs.RightRecursion
import Packrat.Proofs.Tree.Discarding
import Packrat.Proofs.RuleSet.Compiling
import Packrat.Proofs.Memo.History
