import Entangrid.Types.Proof.Container
import Entangrid.Crypto.Proof.Verify
import Entangrid.Crypto.Proof.Handshake
import Entangrid.Network.Proof.Frames
import Entangrid.Network.Proof.Lane
import Entangrid.Network.Proof.RoundTrip
import Entangrid.Node.Proof.Signing
import Entangrid.Ledger.Proof.Execution
import Entangrid.Consensus.Proof.Assignment
import Entangrid.Consensus.Proof.Counters
import Entangrid.Node.Handle
import Entangrid.Storage.Proof.JsonLines
import Entangrid.Node.Proof.Quorum
import Entangrid.Node.Proof.Step
import Entangrid.Node.Proof.BlockStore
import Entangrid.Node.Proof.Branch
import Entangrid.Node.Proof.Agreement
import Entangrid.Node.Proof.Restart
import Entangrid.Node.Proof.Numbering
import Entangrid.Node.Proof.Headers
import Entangrid.Node.Proof.Witnessing
import Entangrid.Node.Proof.PeerStatus
import Entangrid.Node.Proof.Hybrid
import Entangrid.Node.Proof.Export
import Entangrid.Node.Proof.ChainFiles
import Entangrid.Node.Proof.Transactions
import Entangrid.Node.Proof.Mempool
import Entangrid.Node.Proof.Gating
import Entangrid.Node.Proof.SnapshotVotes
import Entangrid.Node.Proof.Termination
import Entangrid.Node.Proof.SuffixExchange
import Entangrid.Node.Proof.Certificates
import Entangrid.Node.Proof.Evidence
import Entangrid.Node.Proof.Sends
import Entangrid.Node.Proof.Extension
import Entangrid.Node.Proof.Proposal
import Entangrid.Node.Proof.Rejection
import Entangrid.Node.Proof.Slots
import Entangrid.Node.Proof.SnapshotExchange
import Entangrid.Node.Proof.BlockBuilding
import Entangrid.Node.Proof.Attestation
import Entangrid.Node.Proof.CleanRestart
import Entangrid.Node.Proof.RateLimit
import Entangrid.Node.Proof.ChainToTip
import Entangrid.Node.Proof.CommitmentBundle
import Entangrid.Node.Proof.Anchors
import Entangrid.Ledger.Proof.Order
import Entangrid.Node.Proof.Writes
import Entangrid.Node.Proof.Conduct
import Entangrid.Node.Proof.Speech
import Entangrid.Node.Proof.HonestNetwork
import Entangrid.Node.Proof.Production
import Entangrid.Node.Proof.Provenance
import Entangrid.Node.Proof.Plain
import Entangrid.Node.Proof.Progress
import Entangrid.Node.Proof.Hearing
import Entangrid.Node.Proof.Assembly
