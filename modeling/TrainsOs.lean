import TrainsOs.Lib.DList
import TrainsOs.Lib.Run
import TrainsOs.Lib.Bits
import TrainsOs.Macro
import TrainsOs.PgMgr.Basic
import TrainsOs.PgMgr.Blocks
import TrainsOs.PgMgr.Ops
import TrainsOs.PgMgr.Init
import TrainsOs.PgMgr.Place
import TrainsOs.PgMgr.Seed
import TrainsOs.PgMgr.Exclusive
import TrainsOs.PgMgr.Blank
import TrainsOs.PgMgr.Pieces
import TrainsOs.PgMgr.Recombine
import TrainsOs.Slab.Layout
import TrainsOs.Kernel.Basic
import TrainsOs.Kernel.Handlers
import TrainsOs.Kernel.Loop
import TrainsOs.Kernel.Core
import TrainsOs.Kernel.Moves
import TrainsOs.Kernel.WaitQueues
import TrainsOs.Kernel.Handled
import TrainsOs.Kernel.Interrupts
import TrainsOs.Kernel.Invariant
import TrainsOs.Kernel.Boot
import TrainsOs.Kernel.Arena
import TrainsOs.Kernel.Creation
import TrainsOs.Kernel.States
import TrainsOs.Kernel.Rounds
import TrainsOs.Kernel.Senders
import TrainsOs.Kernel.Ready
import TrainsOs.Lib.BinHeapOrder
import TrainsOs.Kernel.ReadyQueue
import TrainsOs.Lib.IndexChain
import TrainsOs.Slab.Ops
import TrainsOs.Slab.Contents
import TrainsOs.Slab.Live
import TrainsOs.Lib.Bytes
import TrainsOs.MsgBox.Basic
import TrainsOs.MsgBox.Decode
import TrainsOs.MsgBox.Encode
import TrainsOs.MsgBox.RoundTrip
import TrainsOs.Uart.Server
import TrainsOs.Uart.Transmit
import TrainsOs.Clock.Server
import TrainsOs.Clock.Wait
import TrainsOs.Bluetooth.Table
import TrainsOs.Bluetooth.Server
import TrainsOs.Bluetooth.Layout
import TrainsOs.Bluetooth.Requests
import TrainsOs.Bluetooth.Total
import TrainsOs.Bluetooth.Monitors
import TrainsOs.Bluetooth.Notify
import TrainsOs.Names.Server
import TrainsOs.Names.Lookup
import TrainsOs.Gpio.Bank
import TrainsOs.Kernel.Paths
import TrainsOs.Kernel.Preempted
import TrainsOs.Uart.Streams
import TrainsOs.Uart.Survival
import TrainsOs.Loader.Elf
import TrainsOs.Loader.Reader
import TrainsOs.Loader.Segments
import TrainsOs.Loader.Relocate
import TrainsOs.Loader.Contain
import TrainsOs.Lib.Program
import TrainsOs.Kernel.Keys
import TrainsOs.Kernel.Freed
import TrainsOs.MsgBox.Dispatch
import TrainsOs.MsgBox.Truncated
import TrainsOs.Bluetooth.Reader
import TrainsOs.Bluetooth.Framing
import TrainsOs.Bluetooth.Construct
import TrainsOs.Lib.Tiling
import TrainsOs.PgMgr.Search
import TrainsOs.PgMgr.Split
import TrainsOs.PgMgr.Tile
import TrainsOs.Kernel.Frame
import TrainsOs.Slab.Overlaid
import TrainsOs.Kernel.Allocators
import TrainsOs.Kernel.Sane
import TrainsOs.Kernel.Lives
import TrainsOs.PgMgr.Carve
import TrainsOs.PgMgr.Mmap
import TrainsOs.Kernel.Wakeup
import TrainsOs.MsgBox.Builder
import TrainsOs.Uart.Prompt
import TrainsOs.Bluetooth.Discovery
import TrainsOs.Gpio.Levels
import TrainsOs.Gpio.Server
import TrainsOs.Imu.Collector
import TrainsOs.Uart.Program
import TrainsOs.Uart.Armed
import TrainsOs.Uart.Broker
import TrainsOs.Base.Ring
import TrainsOs.Base.Strtoul
import TrainsOs.Base.Timer
import TrainsOs.Kernel.Mmu
import TrainsOs.Kernel.Clocked
import TrainsOs.Loader.Args
import TrainsOs.Loader.EntryArgs
import TrainsOs.Base.Hashtable
import TrainsOs.Bluetooth.Clear
import TrainsOs.Kernel.Rendezvous
import TrainsOs.Kernel.Exchange
import TrainsOs.Lib.Leaderboard
import TrainsOs.PgMgr.Trims
import TrainsOs.Lib.Newton
import TrainsOs.Base.Sqrt
import TrainsOs.Clock.Ticking
import TrainsOs.Base.RbtreeSort
import TrainsOs.Base.RbtreeWalk
import TrainsOs.Kernel.TidTree
import TrainsOs.Switch.Private
import TrainsOs.Bluetooth.Commander
