import GraftSupernode.Runs
import GraftSupernode.Peeling
import GraftSupernode.Loop
import GraftSupernode.StdMap
import GraftSupernode.AtomicProgram
import GraftSupernode.GlobalContext
import GraftSupernode.StateMachine
import GraftSupernode.Supernode
import GraftSupernode.RequestDefines
import GraftSupernode.AuthorizeRtaTx
import GraftSupernode.AuthVotes
import GraftSupernode.AuthQuorum
import GraftSupernode.AuthVoters
import GraftSupernode.AuthDecision
import GraftSupernode.LostUpdate
import GraftSupernode.AuthLostVote
import GraftSupernode.SaleHandlers
import GraftSupernode.FiniteStatus
import GraftSupernode.BoundedQueue
import GraftSupernode.ThreadPool
import GraftSupernode.PriorityQueue
import GraftSupernode.ExpiringList
import GraftSupernode.InOut
import GraftSupernode.UpstreamManager
import GraftSupernode.ConnectionPool
import GraftSupernode.TaskManager
import GraftSupernode.Looper
import GraftSupernode.TaskPlaces
import GraftSupernode.TaskJobs
import GraftSupernode.TaskBooks
import GraftSupernode.TaskConservation
import GraftSupernode.TaskRows
import GraftSupernode.TableComplete
import GraftSupernode.TaskRuns
import GraftSupernode.Rendezvous
import GraftSupernode.TaskPostponed
import GraftSupernode.PostponeRuns
import GraftSupernode.BlockchainLists
import GraftSupernode.UniformSelection
import GraftSupernode.SampleSize
import GraftSupernode.SignedMessages
import GraftSupernode.PaymentTtl
import GraftSupernode.RefusedSale
import GraftSupernode.RemoteInput
import GraftSupernode.CallbackDelivery
import GraftSupernode.TypedStore
import GraftSupernode.BlockingRequests
import GraftSupernode.ForcedStop
import GraftSupernode.TaskRelease
import GraftSupernode.HandlerExceptions
import GraftSupernode.AuthSample
import GraftSupernode.Stakes
import GraftSupernode.RtEntry
import GraftSupernode.RadixTree
import GraftSupernode.PrefixTable
import GraftSupernode.RadixShape
import GraftSupernode.RadixTable
import GraftSupernode.RadixInsert
import GraftSupernode.RadixErase
import GraftSupernode.BlackList
import GraftSupernode.RuleFile
import GraftSupernode.LongestPrefix
import GraftSupernode.Bans
import GraftSupernode.FirstMatch
import GraftSupernode.RateLimit
import GraftSupernode.GraftletLoader
import GraftSupernode.GraftletDependants
import GraftSupernode.GraftletCycles
import GraftSupernode.BaseBlock
import GraftSupernode.Spellings
import GraftSupernode.TimedMap
import GraftSupernode.TSHashtable
import GraftSupernode.TableNodes
import GraftSupernode.TableCleanup
import GraftSupernode.TableMap
import GraftSupernode.TSGroups
import GraftSupernode.GroupMembers
import GraftSupernode.GroupRuns
import GraftSupernode.GroupMembership
import GraftSupernode.GroupAccess
import GraftSupernode.TtlKept
import GraftSupernode.InsertRace
import GraftSupernode.UpstreamRequest
import GraftSupernode.WebHookUrl
import GraftSupernode.BlockingFlow
import GraftSupernode.AnyMap
import GraftSupernode.SendTransfer
import GraftSupernode.ProgramPaths
import GraftSupernode.ResponsePhases
import GraftSupernode.PoolSimulation
import GraftSupernode.ContextTable
import GraftSupernode.Strand
import GraftSupernode.StrandRuns
import GraftSupernode.WorkerTasks
import GraftSupernode.WebHookCallback
import GraftSupernode.BitSpread
import GraftSupernode.ResultQueue
import GraftSupernode.RouteConflicts
import GraftSupernode.CoapRequest
import GraftSupernode.LowerBound
import GraftSupernode.ExpiringListRuns
import GraftSupernode.PackedPair
import GraftSupernode.DependencyDeclarations
import GraftSupernode.UriGrammar
import GraftSupernode.MakeUri
import GraftSupernode.MPMCCalls
import GraftSupernode.ClientRuns
import GraftSupernode.UpstreamRuns
import GraftSupernode.WorkerPoolRuns
import GraftSupernode.ReflectorHttp
import GraftSupernode.GraftletCalls
import GraftSupernode.FixedFunction
import GraftSupernode.NoAuthorization
