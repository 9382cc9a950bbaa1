import Bindu.Garnet.MeshRouting
import Bindu.Garnet.BubbleWalk
import Bindu.Garnet.BubbleMoves
import Bindu.Dev.PacketFifo
import Bindu.Garnet.AllPairs
import Bindu.Garnet.MarkedFlits
import Bindu.Garnet.OrderedVnets
import Bindu.Garnet.TorusRouting
import Bindu.Ruby.VisibleSize
import Bindu.Ruby.WireBuffer
import Bindu.Ruby.PseudoLRU
import Bindu.Ruby.SwitchProgress
import Bindu.Ruby.CacheMemory
import Bindu.Ruby.Consumer
import Bindu.Mem.MshrFlags
import Bindu.Mem.MshrQueue
import Bindu.Mem.MshrWritable
import Bindu.Mem.PacketQueue
import Bindu.Mem.FalseAlarm
import Bindu.Mem.DramAccess
import Bindu.Mem.DramSchedule
import Bindu.Mem.StackDistRuns
import Bindu.Base.Interleaving
import Bindu.Base.ChunkGenerator
import Bindu.Base.LookupCache
import Bindu.O3.RenameZero
import Bindu.O3.LsqProgramOrder
import Bindu.Sim.EventService
import Bindu.Testers.TrafficPatterns
import Bindu.Testers.TrafficRetry
import Bindu.Garnet.SwitchMatching
import Bindu.Garnet.Multicast
import Bindu.Garnet.StallQueue
