import PubSub.TreeLaws
import PubSub.TreeOrder
import PubSub.TreeInvariant
import PubSub.GlobMeaning
import PubSub.Convergence
import PubSub.Interference
import PubSub.Receivers
import PubSub.LagRecovery
import PubSub.ForgottenHandles
import PubSub.Framing
import PubSub.Stalling
import PubSub.LoopEnding
import PubSub.ConnectionCount
import PubSub.Interleaving
import PubSub.Publishing
import PubSub.TreeInserts
import PubSub.Withdrawal
import PubSub.HandlerProgress
import PubSub.ReadTask
import PubSub.Client
import PubSub.Session
import PubSub.System
import PubSub.EndToEnd
import PubSub.HangUp
import PubSub.Receiving
import PubSub.CommandLine
import PubSub.MeteredCounts
import PubSub.ReportOrder
import PubSub.Descent
import PubSub.Rest
