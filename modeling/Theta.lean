import Theta.Proofs.Wraparound
import Theta.Proofs.Counters
import Theta.Proofs.Opening
import Theta.Proofs.Reorder
import Theta.Proofs.Mapping
import Theta.Net.Pair
import Theta.Net.Udp
import Theta.Proofs.Acknowledgements
import Theta.Proofs.Alignment
import Theta.Proofs.Registration
import Theta.Proofs.Utterances
import Theta.Proofs.Agreement
import Theta.Proofs.Peers
import Theta.Proofs.Charts
import Theta.Proofs.Prefixes
import Theta.Proofs.Frames
import Theta.Proofs.Events
import Theta.Proofs.Maintenance
import Theta.Lib.Table
import Theta.Lib.Act
import Theta.Lib.Base128
import Theta.Proofs.Rejection
import Theta.Lib.Sequencer
import Theta.Proofs.Moves
import Theta.Proofs.Orderer
import Theta.Proofs.Calls
import Theta.Proofs.Initial
import Theta.Proofs.Lifetime
import Theta.Proofs.Replay
import Theta.Proofs.Atomicity
import Theta.Proofs.Custody
import Theta.Lib.Collector
import Theta.Proofs.Joiner
import Theta.Proofs.Keys
import Theta.Proofs.Segmentation
import Theta.Proofs.Rings
import Theta.Proofs.Receipts
import Theta.Lib.ReorderBuffer
import Theta.Proofs.Decoding
import Theta.Lib.Steps
import Theta.Proofs.Placements
import Theta.Lib.Ledger
import Theta.Proofs.Ledgers
import Theta.Proofs.StrayKeys
import Theta.Proofs.Entries
import Theta.Proofs.Crowding
import Theta.Proofs.Interleaving
import Theta.Proofs.Sizes
import Theta.Proofs.Numbering
import Theta.Proofs.Datagrams
import Theta.Proofs.Chronicle
import Theta.Proofs.Soundness
import Theta.Proofs.Framing
import Theta.Proofs.Stages
import Theta.Proofs.Admission
import Theta.Proofs.Vouching
import Theta.Proofs.Outstanding
import Theta.Proofs.Occupancy
import Theta.Proofs.Emissions
import Theta.Proofs.Accounting
import Theta.Proofs.Clocks
import Theta.Proofs.Budget
import Theta.Proofs.Establishing
import Theta.Proofs.Batches
import Theta.Proofs.Integers
import Theta.Proofs.Handshake
import Theta.Proofs.Confinement
import Theta.Lib.Trace
import Theta.Net.Lane
import Theta.Proofs.Isolation
import Theta.Net.Server
import Theta.Proofs.Pipeline
import Theta.Net.Hosts
import Theta.Proofs.Deployment
import Theta.Proofs.EndToEnd
import Theta.Proofs.Completion
import Theta.Proofs.Deliveries
import Theta.Proofs.Pursuit
import Theta.Proofs.Reading
import Theta.Proofs.Restart
import Theta.Proofs.KeepAlive
import Theta.Lib.Stowage
import Theta.Proofs.Holders
import Theta.Proofs.Safekeeping
