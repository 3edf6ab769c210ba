import CHeader.Main
import CHeader.Proofs.Config.Unread
import CHeader.Proofs.Console.Analysis
import CHeader.Proofs.Constant.Expression
import CHeader.Proofs.Constant.Integer
import CHeader.Proofs.Constant.Merge
import CHeader.Proofs.Extraction
import CHeader.Proofs.Include
import CHeader.Proofs.Item.Agreement
import CHeader.Proofs.LineEnding
import CHeader.Proofs.Parameter.Shown
import CHeader.Proofs.Prototype.Search
import CHeader.Proofs.Record.Boundary
import CHeader.Proofs.Resolver.Canonical
import CHeader.Proofs.Resolver.ClosedGraph
import CHeader.Proofs.Resolver.Composition
import CHeader.Proofs.Resolver.Once
import CHeader.Proofs.Resolver.Persistence
import CHeader.Proofs.Resolver.PostOrder
import CHeader.Proofs.Resolver.Prefix
import CHeader.Proofs.Resolver.Refusal
import CHeader.Proofs.Resolver.SearchPaths
import CHeader.Proofs.Resolver.Unsettled
import CHeader.Proofs.Text.CommentLine
import CHeader.Proofs.Text.Composition
import CHeader.Proofs.Text.NormalForm
import CHeader.Proofs.Parameter.Decomposition
import CHeader.Proofs.Parameter.Tagged
import CHeader.Proofs.Prototype.Pointer
import CHeader.Proofs.Parameter.Behind
import CHeader.Proofs.Record.Member
import CHeader.Proofs.Record.Names
import CHeader.Proofs.Syntax.Body
import CHeader.Proofs.Syntax.Position
