import AxVirtLayer.Lib.Run
import AxVirtLayer.Lib.Refine
import AxVirtLayer.Lib.Server
import AxVirtLayer.Lib.Fair
import AxVirtLayer.Lib.Bits
import AxVirtLayer.Cpu
import AxVirtLayer.Ir
import AxVirtLayer.Mips
import AxVirtLayer.Tblock.Assoc
import AxVirtLayer.Tblock.RegMap
import AxVirtLayer.Tblock.AllocInvariant
import AxVirtLayer.Tblock.Flush
import AxVirtLayer.Tblock.Meaning
import AxVirtLayer.I64.Sib
import AxVirtLayer.I64.Agrees
import AxVirtLayer.I64.Reject
import AxVirtLayer.Tblock.Operands
import AxVirtLayer.Tblock.Expand
import AxVirtLayer.Tblock.Reuse
import AxVirtLayer.Tblock.Frame
import AxVirtLayer.Tblock.Space
import AxVirtLayer.Tblock.Emitted
import AxVirtLayer.Pipe.Owner
import AxVirtLayer.Pipe.Search
import AxVirtLayer.Pipe.First
import AxVirtLayer.Pipe.Dispatch
import AxVirtLayer.Pipe.Presence
import AxVirtLayer.Pipe.Flags
import AxVirtLayer.Pipe.Bypass
import AxVirtLayer.Pipe.Queue
import AxVirtLayer.Pipe.Ranges
import AxVirtLayer.Pipe.Pop
import AxVirtLayer.Pipe.Counts
import AxVirtLayer.Pipe.Create
import AxVirtLayer.Pipe.Serve
import AxVirtLayer.Pipe.Through
import AxVirtLayer.Pipe.Delete
import AxVirtLayer.Pipe.Shutdown
import AxVirtLayer.Pipe.Open
import AxVirtLayer.Pipe.Full
import AxVirtLayer.Pipe.Priority
import AxVirtLayer.Pipe.Drain
