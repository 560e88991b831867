import PeerLink.Framing.Joined
import PeerLink.Path
import PeerLink.Timer.Workers
import PeerLink.Config.Document
import PeerLink.Bench
import PeerLink.Tree.Hooked
import PeerLink.Proofs.EnvelopeJson
import PeerLink.Proofs.FrameLayout
import PeerLink.Proofs.MessageFrames
import PeerLink.Proofs.Assembly
import PeerLink.Proofs.Link
import PeerLink.Proofs.LinkCounters
import PeerLink.Proofs.LinkCredit
import PeerLink.Proofs.LinkStall
import PeerLink.Proofs.LinkDelivery
import PeerLink.Proofs.LinkOrder
import PeerLink.Proofs.Tables
import PeerLink.Proofs.RequestStreams
import PeerLink.Proofs.RequestRuns
import PeerLink.Proofs.Updates
import PeerLink.Proofs.RegistrySteps
import PeerLink.Proofs.Wishes
import PeerLink.Proofs.Coherence
import PeerLink.Proofs.Feed
import PeerLink.Proofs.Convergence
import PeerLink.Proofs.Payloads
import PeerLink.Proofs.RoundTrip
import PeerLink.Proofs.DialogueRuns
import PeerLink.Proofs.ServiceRuns
import PeerLink.Proofs.Bulletin
import PeerLink.Proofs.WireRuns
import PeerLink.Proofs.FramePieces
import PeerLink.Proofs.LinePieces
import PeerLink.Proofs.FrameAnswers
import PeerLink.Proofs.OwnLimits
import PeerLink.Proofs.SetValues
import PeerLink.Proofs.LifecycleRuns
import PeerLink.Proofs.Members
import PeerLink.Proofs.BatchingRuns
import PeerLink.Proofs.RegistrationRuns
import PeerLink.Proofs.OverlapRuns
import PeerLink.Proofs.ShortestFrames
import PeerLink.Proofs.LocalErrors
import PeerLink.Proofs.TimerIntegrity
import PeerLink.Proofs.FiringTimes
import PeerLink.Proofs.WorkerSessions
import PeerLink.Proofs.NumberReading
import PeerLink.Proofs.Windows
import PeerLink.Proofs.Listings
import PeerLink.Proofs.RetryRuns
