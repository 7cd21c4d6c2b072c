import SandD.Snapshot.Manager
import SandD.Snapshot.Objects
import SandD.Snapshot.Put
import SandD.Snapshot.ObjectMap
import SandD.Snapshot.Create
import SandD.Snapshot.Busy
import SandD.Snapshot.Tags
import SandD.Snapshot.Faults
import SandD.Snapshot.Names
import SandD.Snapshot.Listing
import SandD.Snapshot.Hashes
import SandD.Snapshot.Steps
import SandD.Snapshot.Again
import SandD.Snapshot.Inventory
import SandD.Snapshot.Directories
import SandD.Snapshot.TagNames
import SandD.Server.Waiting
import SandD.Server.Loop
import SandD.Server.Matching
import SandD.Server.Sessions
import SandD.Server.Entries
import SandD.Server.Reaper
import SandD.Daemon.Commands
import SandD.Daemon.Handle
import SandD.Daemon.Download
import SandD.Daemon.Serve
import SandD.Daemon.Handshake
import SandD.Daemon.Terminals
import SandD.Daemon.AckDeadline
import SandD.Protocol.Wire
import SandD.Posix.Disk
import SandD.Python.Keys
import SandD.Windows.Path
import SandD.Snapshot.Race
import SandD.Snapshot.Failing
import SandD.Snapshot.Spared
