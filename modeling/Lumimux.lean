import Lumimux.Attach.Echo
import Lumimux.Attach.Flush
import Lumimux.Attach.Paste
import Lumimux.Attach.Restoring
import Lumimux.Attach.Selection
import Lumimux.Attach.Viewer
import Lumimux.Attr.Persist
import Lumimux.Attr.Serial
import Lumimux.Edit.Build
import Lumimux.Libdraw.Surface
import Lumimux.Libtext.Find
import Lumimux.Libtext.Inverse
import Lumimux.Libtui.Pads
import Lumimux.Libwm.Arranging
import Lumimux.Libwm.Bounds
import Lumimux.Libwm.Composite
import Lumimux.Libwm.Stacking
import Lumimux.Mserver.Blocks
import Lumimux.Mserver.Fit
import Lumimux.Mserver.Handshake
import Lumimux.Mserver.Inject
import Lumimux.Mserver.Input
import Lumimux.Mserver.Interest
import Lumimux.Mserver.Listing
import Lumimux.Mserver.ViewOnly
import Lumimux.Proxy.Announce
import Lumimux.Proxy.Approval
import Lumimux.Proxy.Revocation
import Lumimux.Proxy.Routing
import Lumimux.Render.Marks
import Lumimux.Sessdir.LayoutFiles
import Lumimux.Sessdir.Mailbox
import Lumimux.Sessdir.Numbers
import Lumimux.Sessdir.Rules
import Lumimux.Syn.Line
import Lumimux.Taskbar.Arena
import Lumimux.Tile.Resizing
import Lumimux.Tile.Tiling
import Lumimux.Utf8.Truncation
import Lumimux.Vt.Bounds
import Lumimux.Vt.Printing
import Lumimux.Vt.Reset
import Lumimux.Vt.Scrollback
import Lumimux.Vt.StyleDump
