import Dmcs.Lib.BitScan
import Dmcs.Lib.History
import Dmcs.Lib.Page
import Dmcs.Lib.Service
import Dmcs.Lib.Odometer
import Dmcs.Lib.Interleaving
import Dmcs.Lib.Packs
import Dmcs.Lib.TransitionSystem
import Dmcs.Mcs.NewBeliefState
import Dmcs.Mcs.Combine
import Dmcs.Mcs.Join
import Dmcs.Mcs.CachePosition
import Dmcs.Mcs.FindPosition
import Dmcs.Mcs.BridgeRuleEvaluator
import Dmcs.Mcs.DLVEvaluator
import Dmcs.Mcs.Guess
import Dmcs.Mcs.WellFormed
import Dmcs.Mcs.PageRun
import Dmcs.Mcs.NewContext
import Dmcs.Mcs.CycleBreaker
import Dmcs.Mcs.NormalContext
import Dmcs.Mcs.WindowArithmetic
import Dmcs.Mcs.BeliefStateRuns
import Dmcs.Mcs.QueryID
import Dmcs.Mcs.EvaluatorSharing
import Dmcs.Network.ConcurrentMessageQueue
import Dmcs.Network.RequestDispatcher
import Dmcs.Mcs.StreamingJoiner
import Dmcs.Mcs.AskNeighbors
import Dmcs.Mcs.JoinPacks
import Dmcs.Mcs.PackSizes
import Dmcs.Mcs.JoinIsolation
import Dmcs.Mcs.JoinBlocks
import Dmcs.Mcs.CombineOrder
import Dmcs.Mcs.ConsistentWith
import Dmcs.Mcs.GuessEnumeration
import Dmcs.Mcs.ComputeCalls
import Dmcs.Mcs.RecordOrder
import Dmcs.Mcs.System
import Dmcs.Mcs.Unfolding
import Dmcs.Mcs.Equilibrium
import Dmcs.Mcs.JoinedAnswers
import Dmcs.Mcs.AcyclicSystem
import Dmcs.Mcs.CyclicSystem
import Dmcs.Lib.Channel
import Dmcs.Lib.Qi
import Dmcs.Mcs.BeliefTable
import Dmcs.Generator.NewStaticGen
import Dmcs.Parser.BaseParser
import Dmcs.Parser.DLVResultGrammar
import Dmcs.Parser.ReturnPlanGrammar
import Dmcs.Parser.QueryPlanGrammar
import Dmcs.Parser.BridgeRuleGrammar
import Dmcs.Generator.ContextGenerator
import Dmcs.Generator.RingTopologies
import Dmcs.Generator.OptTopologies
import Dmcs.Parser.BridgeRuleRoundTrip
import Dmcs.Lib.QiInvariants
import Dmcs.Lib.QiRelations
import Dmcs.Lib.Reuse
import Dmcs.Parser.BeliefNames
import Dmcs.Parser.ParserReuse
import Dmcs.Mcs.NewDmcsd
import Dmcs.Network.RequestStream
import Dmcs.Mcs.ReturnedBeliefState
import Dmcs.Network.NewOutputThread
import Dmcs.Network.NewJoinerDispatcher
import Dmcs.Network.ServerShutdown
import Dmcs.Mcs.ResetProcess
import Dmcs.Mcs.FirstPacks
import Dmcs.Mcs.RemoveDuplication
import Dmcs.Mcs.FreshQueryIDs
import Dmcs.Network.NewConcurrentMessageDispatcher
import Dmcs.Network.NewDmcsc
import Dmcs.Mcs.PlanPositions
import Dmcs.Generator.Topologies
import Dmcs.Generator.RandomGeneration
import Dmcs.Process.NewProcessBuf
import Dmcs.Lib.OrderedUnique
import Dmcs.Lib.Completions
import Dmcs.Dyndmcs.RuleBinding
import Dmcs.Dyndmcs.ContextTerms
import Dmcs.Mcs.StreamedRequest
import Dmcs.Mcs.StreamedJoins
import Dmcs.Lib.Levels
import Dmcs.Lib.StableModels
import Dmcs.Mcs.UniqueEquilibrium
import Dmcs.Mcs.StreamedSystem
import Dmcs.Mcs.StreamedClient
import Dmcs.Generator.LocalKb
import Dmcs.Generator.GeneratedSystem
import Dmcs.Network.Startup
import Dmcs.Lib.Configurations
import Dmcs.Dyndmcs.ConfigurationSearch
import Dmcs.Lib.Triples
import Dmcs.Dyndmcs.ConfigurationRuns
import Dmcs.Lib.Framing
import Dmcs.Network.Connection
import Dmcs.Network.RequestConnection
