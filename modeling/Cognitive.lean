import Cognitive.Main
import Cognitive.Proofs.Scoring.Shares
import Cognitive.Proofs.Scoring.Parentheses
import Cognitive.Proofs.Grammar.Parse
import Cognitive.Proofs.Scoring.Comments
import Cognitive.Proofs.Batch.Refusal
import Cognitive.Proofs.Batch.Naming
import Cognitive.Proofs.Batch.Isolation
import Cognitive.Proofs.Batch.Order
import Cognitive.Proofs.Batch.Packed
import Cognitive.Proofs.Scoring.ElseChain
import Cognitive.Proofs.Scoring.LogicalRuns
import Cognitive.Proofs.Settings.Loading
import Cognitive.Proofs.Scoring.Skipped
import Cognitive.Proofs.Scoring.SelfCalls
import Cognitive.Proofs.Grammar.FirstError
import Cognitive.Proofs.Metrics.LineFigures
import Cognitive.Proofs.Batch.OwnRoot
import Cognitive.Proofs.Settings.Usable
import Cognitive.Proofs.Metrics.Walkable
import Cognitive.Proofs.Scoring.LeastScore
import Cognitive.Proofs.Text.Decoding
import Cognitive.Proofs.Report.HotSpots
import Cognitive.Proofs.Report.Average
