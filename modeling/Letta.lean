import Letta.Block
import Letta.History
import Letta.Updates
import Letta.Invariant
import Letta.Refinement
import Letta.ValueLimit
import Letta.Like
import Letta.Listing
import Letta.Transactions
import Letta.Lifecycle
import Letta.Paging
import Letta.AgentSchema
