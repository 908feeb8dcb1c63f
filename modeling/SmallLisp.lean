import SmallLisp.Store.Print
import SmallLisp.Main
import SmallLisp.Proofs.Cond
import SmallLisp.Proofs.Isolation
import SmallLisp.Proofs.Mending
import SmallLisp.Proofs.Transcript
import SmallLisp.Proofs.WellFormed
import SmallLisp.Proofs.TokenGrammar
import SmallLisp.Proofs.Layout
import SmallLisp.Proofs.Constancy
import SmallLisp.Proofs.ExprGrammar
import SmallLisp.Proofs.Operations
import SmallLisp.Proofs.Chunks
import SmallLisp.Proofs.Renaming
import SmallLisp.Proofs.Scope
import SmallLisp.Proofs.Ahead
import SmallLisp.Proofs.Equality
import SmallLisp.Proofs.Identity
import SmallLisp.Proofs.Comparison
import SmallLisp.Proofs.LineFeeds
import SmallLisp.Proofs.Streaming
