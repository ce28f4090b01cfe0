import Comp3301.Lib.Memory
import Comp3301.Lib.Stream
import Comp3301.Lib.System
import Comp3301.Lib.Ring
import Comp3301.Lib.Tiling
import Comp3301.Crypto.Buffers
import Comp3301.Crypto.Transfer
import Comp3301.Crypto.TransferSpec
import Comp3301.Crypto.Device
import Comp3301.Crypto.Registry
import Comp3301.Crypto.Ids
import Comp3301.Crypto.Attachment
import Comp3301.Crypto.Sharing
import Comp3301.Crypto.Session
import Comp3301.Crypto.Fifo
import Comp3301.Pth.Pqueue
import Comp3301.Pth.Lottery
import Comp3301.Lib.CString
import Comp3301.Lib.ByteFile
import Comp3301.Shell.Main
import Comp3301.Shell.Lines
import Comp3301.Ext3301.File
import Comp3301.Ext3301.Immediate
import Comp3301.Ext3301.Encrypt
import Comp3301.Ext3301.Namei
import Comp3301.Ext3301.Moves
import Comp3301.Ext3301.EntryTypes
import Comp3301.Ext3301.Blocks
import Comp3301.Ext3301.Hygiene
import Comp3301.Ext3301.InodeIo
import Comp3301.Ext3301.Super
import Comp3301.Ext3301.Mounts
import Comp3301.Pth.Queues
import Comp3301.Pth.Scheduler
import Comp3301.Pth.Places
import Comp3301.Pth.Steps
import Comp3301.Pth.Runs
import Comp3301.Crypto.Commute
import Comp3301.Crypto.Rings
import Comp3301.Crypto.Failures
import Comp3301.Crypto.Chunks
import Comp3301.Shell.Independence
import Comp3301.Ext3301.AddrLimit
import Comp3301.Ext3301.Outgrow
import Comp3301.Pth.Priorities
import Comp3301.Pth.Shares
import Comp3301.Ext3301.WriteFailures
import Comp3301.Ext3301.ZeroKey
import Comp3301.Ext3301.Truncate
import Comp3301.Ext3301.MountOptions
import Comp3301.Ext3301.Releases
import Comp3301.Shell.Overlong
import Comp3301.Lib.Loops
import Comp3301.Lib.Records
import Comp3301.Shell.Files
import Comp3301.Shell.Cp
import Comp3301.Shell.Ls
import Comp3301.Shell.Rm
import Comp3301.Pth.Links
import Comp3301.Pth.Rwlock
import Comp3301.Pth.Barrier
import Comp3301.Lib.Runs
import Comp3301.Lib.Strtok
import Comp3301.Shell.Parse
import Comp3301.Lib.Bytes
import Comp3301.Lib.Splice
import Comp3301.Lib.Refine
import Comp3301.Lib.Table
import Comp3301.Lib.Windows
import Comp3301.Ext3301.DirPages
import Comp3301.Ext3301.DirEntries
import Comp3301.Ext3301.Dir
import Comp3301.Ext3301.DirRuns
import Comp3301.Ext3301.DirLists
import Comp3301.Ext3301.Readdir
import Comp3301.Lib.Bits
import Comp3301.Lib.SearchTree
import Comp3301.Lib.Intervals
import Comp3301.Ext3301.Reservations
import Comp3301.Ext3301.Balloc
import Comp3301.Ext3301.NewBlocks
import Comp3301.Ext3301.NewBlocksSpec
import Comp3301.Ext3301.FreeBlocks
import Comp3301.Ext3301.BlockRuns
import Comp3301.Lib.RefCounts
import Comp3301.Ext3301.MakeRemove
import Comp3301.Ext3301.NameTree
import Comp3301.Ext3301.LinkCounts
import Comp3301.Ext3301.LinkCalls
import Comp3301.Ext3301.LinkRename
import Comp3301.Ext3301.LinkRuns
