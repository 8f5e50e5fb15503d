import Norx.Vfs.Namespaces
import Norx.Vfs.Mounting
import Norx.Vfs.ReadOnly
import Norx.Vfs.Handles
import Norx.Vfs.Listing
import Norx.Wasm.Sound
import Norx.Process.Fresh
import Norx.Process.Exits
import Norx.Process.Context
import Norx.Ipc.Teardown
import Norx.Memory.Complete
import Norx.Exec.Atomic
import Norx.Service.Handles
import Norx.Fat32.WriteRead
import Norx.Dynamic.GnuHash
import Norx.Dynamic.Bias
import Norx.Block.Linear
import Norx.Net.Dhcp
import Norx.Net.Tcp
import Norx.Wasm.Cancel
import Norx.Sched.Fair
import Norx.Usb.Configuration
import Norx.Usb.Completions
