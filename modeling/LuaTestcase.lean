import LuaTestcase.Core.Effect
import LuaTestcase.Lua.Value
import LuaTestcase.Trim
import LuaTestcase.Core.Pathname
import LuaTestcase.Filesystem.Def
import LuaTestcase.Filesystem.Shorten
import LuaTestcase.Core.Sorting
import LuaTestcase.Filesystem.Names
import LuaTestcase.Filesystem.Search
import LuaTestcase.Filesystem.Links
import LuaTestcase.Lua.Table
import LuaTestcase.Registry.Def
import LuaTestcase.Registry.History
import LuaTestcase.Registry.List
import LuaTestcase.Registry.Order
import LuaTestcase.Registry.NeverMixes
import LuaTestcase.Core.Dialogue
import LuaTestcase.Runner.Def
import LuaTestcase.Runner.Stops
import LuaTestcase.Runner.Plan
import LuaTestcase.Runner.Trace
import LuaTestcase.Runner.Select
import LuaTestcase.Runner.Account
import LuaTestcase.Core.Heap
import LuaTestcase.Runner.Aliasing
import LuaTestcase.Runner.Directory
import LuaTestcase.Runner.Verdict
import LuaTestcase.Command.Def
import LuaTestcase.Core.Lists
import LuaTestcase.Command.Files
import LuaTestcase.Command.Loading
import LuaTestcase.Command.Verdict
import LuaTestcase.Command.Report
import LuaTestcase.Core.Machine
import LuaTestcase.Output.Iohook
import LuaTestcase.Output.Sessions
import LuaTestcase.Lua.Pattern
import LuaTestcase.Core.Lines
import LuaTestcase.Eval.Def
import LuaTestcase.Eval.Lines
import LuaTestcase.Eval.Reading
import LuaTestcase.Eval.Inline
import LuaTestcase.Eval.Identity
import LuaTestcase.Process.Def
import LuaTestcase.Process.ExitStatus
import LuaTestcase.Lua.Format
import LuaTestcase.Output.Printer
import LuaTestcase.Output.Notes
import LuaTestcase.Output.Prepared
import LuaTestcase.Output.Formatting
import LuaTestcase.Output.Arguments
import LuaTestcase.Command.Options
import LuaTestcase.Output.Printline
import LuaTestcase.Timer.Def
import LuaTestcase.Timer.Runs
import LuaTestcase.Process.Kernel
import LuaTestcase.Process.Ownership
import LuaTestcase.Filesystem.Readdir
import LuaTestcase.Filesystem.Entries
import LuaTestcase.Lua.Capi
import LuaTestcase.Signal.Lookup
import LuaTestcase.Signal.Names
import LuaTestcase.Signal.Index
import LuaTestcase.Signal.Frame
import LuaTestcase.Core.Kernel
import LuaTestcase.Lua.Arguments
import LuaTestcase.Core.Casts
import LuaTestcase.Posix.Def
import LuaTestcase.Posix.Integers
import LuaTestcase.Rlimit.Def
import LuaTestcase.Rlimit.Setting
import LuaTestcase.Rlimit.RoundTrip
import LuaTestcase.Socket.Buffers
import LuaTestcase.Socket.Closing
import LuaTestcase.Signal.Nosigchld
import LuaTestcase.Core.Inodes
import LuaTestcase.Filesystem.Stat
import LuaTestcase.Filesystem.Agree
import LuaTestcase.Core.Tables
import LuaTestcase.Socket.Kernel
import LuaTestcase.Socket.Process
import LuaTestcase.Socket.Stream
import LuaTestcase.Socket.Nonblock
import LuaTestcase.Output.Fence
import LuaTestcase.Runner.Transcript
import LuaTestcase.Command.Console
import LuaTestcase.Registry.Register
import LuaTestcase.Runner.Defined
import LuaTestcase.Command.Defined
import LuaTestcase.Filesystem.Parent
import LuaTestcase.Runner.OwnDirectory
import LuaTestcase.Process.Accounted
import LuaTestcase.Runner.Timed
import LuaTestcase.Command.Search
import LuaTestcase.Command.Messages
