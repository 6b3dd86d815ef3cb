import Nanami.Oci.ContainerPath
import Nanami.Usb.Keyboard
import Nanami.Alter.Pipe
import Nanami.Communication.Handover
import Nanami.Communication.BufferHandover
import Nanami.Process.Custody
import Nanami.Ext2.PathConfinement
import Nanami.Net.TcpStream
import Nanami.Ext2.BlockArray
import Nanami.Alter.StopContinue
import Nanami.Alter.ForkFiles
import Nanami.Net.FrameBounds
import Nanami.Net.Deliveries
import Nanami.Block.Bounds
import Nanami.Alter.MappingRuns
import Nanami.Memory.Searches
import Nanami.Process.ReservationLayout
import Nanami.Boot.RoundTrip
import Nanami.Alter.UnixCollect
import Nanami.Alter.PtyRuns
import Nanami.Net.Dhcp
import Nanami.Net.TcpReceiveRuns
import Nanami.Net.TcpIndexRuns
import Nanami.Terminal.ByteRing
import Nanami.Timer.Deadlines
