import DaemonProxy.Soundness.Signals
import DaemonProxy.Soundness.RBTree
import DaemonProxy.Soundness.Services
import DaemonProxy.Soundness.FdTable
import DaemonProxy.Soundness.ServiceVars
import DaemonProxy.Soundness.Controllers
import DaemonProxy.Soundness.BufferCursors
import DaemonProxy.Soundness.Descriptors
import DaemonProxy.Soundness.Log
import DaemonProxy.Soundness.ServiceLists
import DaemonProxy.Soundness.Triggers
import DaemonProxy.Soundness.Termination
import DaemonProxy.Soundness.Refusals
import DaemonProxy.Soundness.Exec
import DaemonProxy.Soundness.ServiceDelete
import DaemonProxy.Soundness.TriggerParsing
import DaemonProxy.Soundness.HeapVars
import DaemonProxy.Soundness.ServiceStores
import DaemonProxy.Soundness.Client
import DaemonProxy.Soundness.Arguments
import DaemonProxy.Soundness.StartTimes
import DaemonProxy.Soundness.CommandTable
import DaemonProxy.Soundness.Pools
import DaemonProxy.Soundness.ObjectPools
import DaemonProxy.Soundness.FlagReplay
import DaemonProxy.Soundness.StrSeg
import DaemonProxy.Soundness.SocketAddresses
import DaemonProxy.Soundness.Iterators
import DaemonProxy.Soundness.ControlSocket
