import RubyBrs.Lib.WhileTrue
import RubyBrs.Lib.Window
import RubyBrs.Lib.StreamCodec
import RubyBrs.Lib.StreamFormat
import RubyBrs.Lib.Exchange
import RubyBrs.Lib.Outlet
import RubyBrs.Lib.Threads
import RubyBrs.Lib.Progress
import RubyBrs.Ext.Error
import RubyBrs.Ext.Memory
import RubyBrs.Ext.Brotli
import RubyBrs.Ext.Reading
import RubyBrs.Ext.FormatDecoder
import RubyBrs.Ext.Stored
import RubyBrs.Ruby.Value
import RubyBrs.Ruby.Option
import RubyBrs.Ruby.HashHeap
import RubyBrs.Ruby.Documented
import RubyBrs.Ext.Option
import RubyBrs.Ext.OptionValues
import RubyBrs.Ruby.SizeHint
import RubyBrs.Ext.String
import RubyBrs.Ext.StringRefine
import RubyBrs.Ext.StringRun
import RubyBrs.Ext.Stdio
import RubyBrs.Ext.Io
import RubyBrs.Ext.Native
import RubyBrs.Ext.IoRefine
import RubyBrs.Ext.IoLoops
import RubyBrs.Ext.IoMoved
import RubyBrs.Ext.LibraryCalls
import RubyBrs.Ext.DriveLoops
import RubyBrs.Ext.IoCompress
import RubyBrs.Ext.IoDecompress
import RubyBrs.Ext.IoFaults
import RubyBrs.Ext.IoLossless
import RubyBrs.Ext.OneShot
import RubyBrs.Ext.Truncated
import RubyBrs.Ext.NativeRun
import RubyBrs.Ext.Unfinished
import RubyBrs.Ext.Delivery
import RubyBrs.Ext.StreamObject
import RubyBrs.Ext.StreamCaller
import RubyBrs.Ext.StreamCompressor
import RubyBrs.Ext.StreamWriting
import RubyBrs.Ext.StreamDecompressor
import RubyBrs.Ext.StreamReading
import RubyBrs.Ext.StreamHeld
import RubyBrs.Ext.Ledger
import RubyBrs.Ext.StreamLifecycle
import RubyBrs.Ruby.Accepted
import RubyBrs.Ext.OptionLayer
import RubyBrs.Ext.Completion
import RubyBrs.Ext.StreamFollowing
import RubyBrs.Ext.StreamPipeline
import RubyBrs.Ext.StreamProgress
import RubyBrs.Ext.StreamMethods
import RubyBrs.Ext.StreamLeaks
import RubyBrs.Ext.StreamOutlet
import RubyBrs.Ext.StreamThreads
import RubyBrs.Ext.StreamLinear
import RubyBrs.Ext.Returned
import RubyBrs.Ext.Interchange
import RubyBrs.Ext.FailingCalls
import RubyBrs.Ext.IoParts
import RubyBrs.Ext.Allocations
import RubyBrs.Ext.StringExplained
import RubyBrs.Ext.Explained
import RubyBrs.Ext.Work
import RubyBrs.Ext.FreshMemory
import RubyBrs.Ext.StreamFreshMemory
import RubyBrs.Ruby.Processing
import RubyBrs.Ruby.RoundTrip
