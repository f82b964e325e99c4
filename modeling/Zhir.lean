import Zhir.Kernel.AdmissionMoves
import Zhir.Kernel.EventMoves
import Zhir.Kernel.Replay
import Zhir.Core.Causality
import Zhir.Core.Chain
import Zhir.Core.Envelope
import Zhir.Storage.Race
import Zhir.Models.RoundTrip
import Zhir.Models.Delivered
import Zhir.Models.EffectOrder
import Zhir.Storage.Reclaim
import Zhir.Kernel.Finishing
import Zhir.Kernel.Outbox
import Zhir.Kernel.Endings
import Zhir.Kernel.Interrupts
import Zhir.Kernel.CommandDelivery
import Zhir.Kernel.Receipts
import Zhir.MiniMax.Coverage
import Zhir.Kernel.Compaction
import Zhir.Core.Portions
import Zhir.Core.Projecting
import Zhir.Core.Turns
import Zhir.Models.Chat
import Zhir.Models.Messages
import Zhir.Models.Adjacency
import Zhir.Models.Unrecorded
import Zhir.Models.Rtp
import Zhir.Models.SseEncoding
import Zhir.Tools.Circuit
import Zhir.Models.Fidelity
import Zhir.Models.FallbackNesting
import Zhir.MiniMax.Sealing
import Zhir.OpenAI.Delegations
import Zhir.Streaming.Panics
import Zhir.Streaming.MessagesAgreement
import Zhir.Streaming.ChatAgreement
import Zhir.Kernel.Observation
import Zhir.Kernel.Concurrency
import Zhir.Builtins.Edit
import Zhir.Models.ExchangeOrder
import Zhir.Kernel.CommandRecords
import Zhir.Kernel.Spending
import Zhir.Kernel.Openings
import Zhir.Kernel.Approvals
import Zhir.Builtins.Children
import Zhir.Models.WebSocket
import Zhir.Models.Credentials
import Zhir.Models.Leases
import Zhir.Models.Establishment
import Zhir.Core.Cancellation
import Zhir.Builtins.Search
import Zhir.Storage.Ephemeral
import Zhir.Storage.Streamed
import Zhir.Tools.Catalogs
import Zhir.Tools.Retrying
