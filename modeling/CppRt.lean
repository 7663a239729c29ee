import CppRt.Library.Transition
import CppRt.Library.Concurrent
import CppRt.Library.Family
import CppRt.Library.Mutex
import CppRt.Queue.Fifo
import CppRt.ThreadPool.ThreadSafeQueue
import CppRt.ThreadPool.QueueInvariant
import CppRt.ThreadPool.QueueLinearization
import CppRt.ThreadPool.QueueServing
import CppRt.ThreadPool.QueueCorrect
import CppRt.ActiveObject.QueueInvariant
import CppRt.Workers.Crew
import CppRt.Workers.Ledger
import CppRt.Workers.Shutdown
import CppRt.ActiveObject.QueueServing
import CppRt.Workers.Solo
import CppRt.ThreadPool.Pool
import CppRt.ActiveObject.ActiveObject
import CppRt.ActiveObject.Logger
import CppRt.ActiveObject.NestedTasks
import CppRt.Queue.Outcomes
import CppRt.ActiveObject.QueuesAgree
import CppRt.Accumulate.MultithreadSum
import CppRt.Histogram.MainThreaded
import CppRt.Library.RwLock
import CppRt.Library.Guarded
import CppRt.Library.SearchTree
import CppRt.RwlockTree.Memory
import CppRt.RwlockTree.HeldTree
import CppRt.RwlockTree.Btree
import CppRt.RwlockTree.BtreeInvariant
import CppRt.RwlockTree.BtreeLinearization
import CppRt.RwlockTree.BtreeCorrect
import CppRt.Workers.EmptyTasks
import CppRt.ActiveObject.EmptyTasks
import CppRt.ExTsq.ProducerConsumer
import CppRt.RwlockTree.Sequential
import CppRt.RwlockTree.DestroyTree
import CppRt.ThreadPool.Construction
import CppRt.Socknet.UnixAddress
import CppRt.Socknet.UnixSocket
import CppRt.Socknet.Descriptors
import CppRt.Socknet.BaseSocket
import CppRt.Socknet.PeerDisconnected
import CppRt.Socknet.TcpServerThreaded
import CppRt.Socknet.UnixDatagramSocket
import CppRt.Socknet.UnixServer
import CppRt.Socknet.SessionIsolation
import CppRt.ThreadPool.QueueExceptions
import CppRt.ActiveObject.KeptMutex
import CppRt.ThreadPool.LostWakeup
import CppRt.LaunchThread.Ownership
import CppRt.Socknet.SendAll
import CppRt.Socknet.SockaddrUn
import CppRt.SockInet.AddressList
import CppRt.SockInet.CreatePassive
import CppRt.Socknet.UnixBind
import CppRt.SockInet.Connect
import CppRt.Histogram.Counts
import CppRt.Histogram.Strips
import CppRt.Counter.SharedCounter
import CppRt.Histogram.DrawHistogram
import CppRt.ProdCons.ProducerConsumer
import CppRt.ExPi.CalculateThreaded
import CppRt.PthreadsFuture.Future
import CppRt.Socknet.InetAton
import CppRt.Socknet.ResolveHostname
import CppRt.Histogram.ReadPPM
import CppRt.Histogram.WritePPM
import CppRt.Histogram.PpmHeader
import CppRt.Histogram.PpmPixels
import CppRt.Histogram.PpmRoundTrip
import CppRt.Histogram.PpmAnyFile
import CppRt.Histogram.PpmBitmap
import CppRt.Histogram.PpmCopies
import CppRt.Socknet.UdpSocket
import CppRt.Library.Barrier
import CppRt.Library.ForkJoinEnds
import CppRt.PthreadBarrier.Barrier
import CppRt.Library.Heap
import CppRt.Tss.ThreadSpecific
import CppRt.UnixStreamServer.Main
import CppRt.UnixStreamServer.Served
import CppRt.UnixStreamServer.Progress
import CppRt.Library.GuardedLive
import CppRt.Library.ProgramOrder
import CppRt.RwlockTree.NeverStuck
import CppRt.Library.RealTime
import CppRt.RwlockTree.RealTime
import CppRt.RwlockTree.TreePrograms
