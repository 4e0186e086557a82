import CloudI.Queue.Drain
import CloudI.Pqueue3.Refine
import CloudI.Btrie.Agree
import CloudI.Trie.FoldMatchSpec
import CloudI.RequestInfo.Reencode
import CloudI.ServicesMonitor.Intensity
import CloudI.ServicesMonitor.NeverFails
import CloudI.ServicesMonitor.AllOrNothing
import CloudI.Crdt.Converge
import CloudI.Crdt.Stability
import CloudI.Crdt.Duplicates
import CloudI.ApiC.KeyValue
import CloudI.Configurator.Nodes
import CloudI.Quorum.Answers
import CloudI.WriteAheadLogging.Recovered
import CloudI.ApiC.Calls
import CloudI.ApiPython.Decode
import CloudI.ServicesExternal.HandledOnce
import CloudI.Configuration.Tracked
import CloudI.Key2value.Values
import CloudI.Keys1value.Operations
import CloudI.ServiceFilesystem.LosesNothing
import CloudI.ApiPython.Erlang.Reencoding
import CloudI.ApiPython.Erlang.Rejection
import CloudI.Trie.Prefixed
import CloudI.Trie.SimilarSpec
import CloudI.Pqueue2.Refine
import CloudI.Pqueue.Join
import CloudI.Cpg.PickSpec
import CloudI.Cpg.Exchange
import CloudI.Cpg.LeaveCounts
import CloudI.RateBased.Formats
import CloudI.Configuration.ServiceIds
import CloudI.Status.Durations
import CloudI.Configuration.AclExpanded
import CloudI.Queue.Deliveries
import CloudI.ServicesInternal.QueuedInfo
import CloudI.ServicesInternal.ReceivedOnce
import CloudI.Uuid.Increment
import CloudI.Uuid.Text
import CloudI.WriteAheadLogging.FetchKeys
import CloudI.ServiceFilesystem.RangeAppend
import CloudI.ServiceFilesystem.ConditionalRanges
import CloudI.ServiceCron.Ends
import CloudI.ServiceCron.Service
import CloudI.Trie.Suffix
