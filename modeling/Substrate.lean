import Substrate.Basic
import Substrate.Collections
import Substrate.Codec
import Substrate.ChangesTrie.Input
import Substrate.ChangesTrie.Overlay
import Substrate.ChangesTrie.Build
import Substrate.ChangesTrie.ExtrinsicsInput
import Substrate.ChangesTrie.DigestInput
import Substrate.ChangesTrie.Children
import Substrate.ChangesTrie.DigestRecords
import Substrate.ChangesTrie.Materialize
import Substrate.ChangesTrie.Determinism
import Substrate.ChangesTrie.Tries
import Substrate.ChangesTrie.History
import Substrate.StateMachine.Testing
import Substrate.TransactionPool.Pool
import Substrate.TransactionPool.Prune
import Substrate.TransactionPool.Runs
import Substrate.Slice
import Substrate.ScoredPool.Module
import Substrate.ScoredPool.Calls
import Substrate.ScoredPool.Invariants
import Substrate.ScoredPool.Ranking
import Substrate.Support.Error
