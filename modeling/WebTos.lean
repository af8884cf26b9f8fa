import WebTos.Image.Enforce
import WebTos.Vfs.LinksRun
import WebTos.Vfs.SnapshotFrame
import WebTos.Fd.Terminal
import WebTos.Proc.Spaces
import WebTos.Files.Mounted
import WebTos.Files.Hidden
import WebTos.Net.Handles
import WebTos.Proc.Exec
import WebTos.Proc.Waiters
import WebTos.Vm.Budget
import WebTos.Web.Snapshots
import WebTos.Image.Install
import WebTos.Mem.Unmaps
import WebTos.Files.PipesRun
import WebTos.Mem.SharedRun
import WebTos.Proc.Timers
import WebTos.Proc.Stops
import WebTos.Proc.Unblockable
import WebTos.Vfs.Errors
import WebTos.Vfs.Walks
import WebTos.Mem.Ranges
import WebTos.Mem.Layers
import WebTos.Files.Inotify
import WebTos.Net.Batches
import WebTos.Net.Deliveries
import WebTos.Net.Gateway
