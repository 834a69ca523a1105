import PaxosWasm.Library.OrdMap
import PaxosWasm.Library.Run
import PaxosWasm.Library.Replication
import PaxosWasm.Library.Quorum
import PaxosWasm.Library.Text
import PaxosWasm.Library.Calls
import PaxosWasm.Library.Framing
import PaxosWasm.Library.Decimals
import PaxosWasm.Library.Routing
import PaxosWasm.Types
import PaxosWasm.Core.Storage
import PaxosWasm.Core.Acceptor
import PaxosWasm.Core.AcceptorVotes
import PaxosWasm.Core.Choosable
import PaxosWasm.Core.AcceptorBallots
import PaxosWasm.Core.AcceptorRecords
import PaxosWasm.Core.AcceptorRecovery
import PaxosWasm.Core.AcceptorStops
import PaxosWasm.Core.Proposer
import PaxosWasm.Core.PhaseOne
import PaxosWasm.Core.ProposerCalls
import PaxosWasm.Core.Proposals
import PaxosWasm.Core.RequestLedger
import PaxosWasm.Core.Rounds
import PaxosWasm.Core.KvStore
import PaxosWasm.Core.Learner
import PaxosWasm.Core.LearnerQuorum
import PaxosWasm.Core.LearnerRecovery
import PaxosWasm.Core.RecoveryCursor
import PaxosWasm.Core.StoreCalls
import PaxosWasm.Agents.LearnerAgent
import PaxosWasm.Agents.LearnerRuns
import PaxosWasm.Agents.LearnerExecution
import PaxosWasm.Agents.LearnerRetries
import PaxosWasm.Agents.Coordinator
import PaxosWasm.Agents.Leader
import PaxosWasm.Agents.ProposerInterface
import PaxosWasm.Agents.LearnReplies
import PaxosWasm.Agents.ProposerFrame
import PaxosWasm.Agents.PrepareTimeout
import PaxosWasm.Agents.Responses
import PaxosWasm.Agents.ProposerRuns
import PaxosWasm.Agents.LearnerVotes
import PaxosWasm.Agents.LearnerConvergence
import PaxosWasm.Agents.AcceptorRuns
import PaxosWasm.Agents.ProposerSound
import PaxosWasm.Agents.Reports
import PaxosWasm.Agents.TrioSound
import PaxosWasm.Agents.Node
import PaxosWasm.Agents.LearnerFrame
import PaxosWasm.Agents.LearnerSteps
import PaxosWasm.Agents.Replica
import PaxosWasm.Agents.Outspoken
import PaxosWasm.Agents.Campaign
import PaxosWasm.Agents.Cursor
import PaxosWasm.Agents.Leadership
import PaxosWasm.Agents.OwnAcceptor
import PaxosWasm.Agents.Steadfast
import PaxosWasm.Cluster.Membership
import PaxosWasm.Cluster.PhaseOneRounds
import PaxosWasm.Cluster.PromiseRange
import PaxosWasm.Cluster.NodeSound
import PaxosWasm.Cluster.Interleaving
import PaxosWasm.Cluster.Ballots
import PaxosWasm.Cluster.Rivals
import PaxosWasm.Cluster.Broadcasts
import PaxosWasm.Cluster.ClientAnswers
import PaxosWasm.Cluster.Lasting
import PaxosWasm.Cluster.ChosenValues
import PaxosWasm.Cluster.ExecutedOnce
import PaxosWasm.Cluster.Replication
import PaxosWasm.Cluster.History
import PaxosWasm.Cluster.Split
import PaxosWasm.Cluster.Validity
import PaxosWasm.Cluster.LearnedSlots
import PaxosWasm.Cluster.LearnerAgreement
import PaxosWasm.Cluster.PhaseOneFirst
import PaxosWasm.Network.Serializer
import PaxosWasm.Core.Changelog
import PaxosWasm.Core.LeaderDetector
import PaxosWasm.Core.FailureDetector
import PaxosWasm.Core.FailureRuns
import PaxosWasm.Core.LeaderVerdicts
import PaxosWasm.Agents.Runner
import PaxosWasm.Agents.MainLoop
import PaxosWasm.Cluster.Deployment
import PaxosWasm.Cluster.ClientListener
import PaxosWasm.Cluster.Election
import PaxosWasm.Cluster.Launching
import PaxosWasm.Network.ReadBack
import PaxosWasm.Network.RoundTrip
import PaxosWasm.Network.FrameLoop
import PaxosWasm.Network.Writes
import PaxosWasm.Network.Inbox
import PaxosWasm.Network.Unread
import PaxosWasm.Network.NetworkServer
import PaxosWasm.Network.ClientServer
import PaxosWasm.Network.ResponseRouting
import PaxosWasm.Network.TcpClient
import PaxosWasm.Network.PaxosClient
import PaxosWasm.Network.ClientAgreement
import PaxosWasm.Network.WriteLimit
import PaxosWasm.Network.LogicalClient
import PaxosWasm.Network.NativeTcpClient
import PaxosWasm.Storage.Files
import PaxosWasm.Storage.Resource
import PaxosWasm.Storage.Runs
import PaxosWasm.Storage.Timestamps
import PaxosWasm.Storage.BoundedLoss
import PaxosWasm.Storage.Checkpoint
import PaxosWasm.Storage.HostStorage
