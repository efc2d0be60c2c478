import RetrOS.Kernel.WorkOrder
import RetrOS.Archive.RoundTrip
import RetrOS.Lib.Run
import RetrOS.Lib.Slice
import RetrOS.Kernel.PcbQueue
import RetrOS.Kernel.Conservation
import RetrOS.Kernel.MutexOrder
import RetrOS.Kernel.Zombie
import RetrOS.Admin.Commands
import RetrOS.Developer.ConstantValue
import RetrOS.Developer.ControlFlow
import RetrOS.Developer.StackDiscipline
import RetrOS.Kernel.RingQueue
import RetrOS.Lib.Bits
import RetrOS.Lib.Span
import RetrOS.Lib.Stream
import RetrOS.Kernel.Kmem
import RetrOS.Kernel.KmemRun
import RetrOS.Kernel.VmemHeap
import RetrOS.Net.SocketStream
import RetrOS.Net.Acked
import RetrOS.Net.Link
import RetrOS.Net.Listener
import RetrOS.Net.Handshake
import RetrOS.Net.Quiescence
import RetrOS.Net.FinOrder
import RetrOS.Net.Close
import RetrOS.Net.Receive
import RetrOS.Net.Ownership
import RetrOS.Net.Retry
import RetrOS.Net.SynAck
import RetrOS.Net.SendResult
import RetrOS.Fs.ReadBack
import RetrOS.Fs.Format
import RetrOS.Fs.Lookup
import RetrOS.Fs.Atomic
import RetrOS.Fs.Files
import RetrOS.Fs.Path
import RetrOS.Fs.TableLock
import RetrOS.Fs.Descriptors
import RetrOS.Fs.StreamLaw
import RetrOS.Ext.ReadBack
import RetrOS.Ext.ReadCalls
import RetrOS.Ext.Layout
import RetrOS.Ext.Directory
import RetrOS.Ext.Path
import RetrOS.Archive.Tar
import RetrOS.Archive.TarLoops
import RetrOS.Archive.TarExtract
import RetrOS.Archive.LzBounds
import RetrOS.Developer.Overrun
import RetrOS.Developer.Interning
import RetrOS.Developer.ObjectImage
import RetrOS.Fs.Exhausted
import RetrOS.Fs.Remove
import RetrOS.Fs.Spelling
import RetrOS.Fs.Listing
import RetrOS.Fs.Rename
import RetrOS.Fs.Reformat
import RetrOS.Graphics.Workspaces
import RetrOS.Apps.Document
import RetrOS.Apps.Typing
import RetrOS.Net.FindTcp
import RetrOS.Net.Ports
import RetrOS.Net.FindUdp
import RetrOS.Net.Checksum
import RetrOS.Net.UdpChecksum
import RetrOS.Net.Arp
import RetrOS.Net.ArpReply
import RetrOS.Net.Icmp
import RetrOS.Net.IpToInt
import RetrOS.Net.Dns
import RetrOS.Net.SkbFifo
import RetrOS.Net.Loopback
import RetrOS.Kernel.Pmem
import RetrOS.Kernel.VmemAllocator
import RetrOS.Net.DnsName
import RetrOS.Net.DnsCache
import RetrOS.Net.DhcpOptions
import RetrOS.Kernel.VmemUsed
import RetrOS.Kernel.KernelHeap
import RetrOS.Kernel.PcbCreate
import RetrOS.Kernel.IndexChecks
import RetrOS.Kernel.Encoding
import RetrOS.Kernel.Sleep
import RetrOS.Graphics.Draw
import RetrOS.Graphics.EventQueue
import RetrOS.Kernel.Terminal
import RetrOS.Kernel.Config
import RetrOS.Kernel.ConfigLookup
import RetrOS.Lib.Digits
import RetrOS.Libc.Numbers
import RetrOS.Libc.Format
import RetrOS.Libc.Tokens
import RetrOS.Kernel.Symbols
import RetrOS.Kernel.SymbolTable
import RetrOS.Kernel.Script
import RetrOS.Libc.GetOpt
import RetrOS.Kernel.HashMap
import RetrOS.Apps.TextFile
import RetrOS.Developer.Programs
import RetrOS.Net.Datagrams
import RetrOS.Developer.Sources
import RetrOS.Net.Interrupts
