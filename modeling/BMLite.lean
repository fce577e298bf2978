import BMLite.Abort
import BMLite.Bulk
import BMLite.Bus
import BMLite.Capacity
import BMLite.Console
import BMLite.Damage
import BMLite.Endless
import BMLite.Enroll
import BMLite.HalSpi
import BMLite.HalTimebase
import BMLite.Identify
import BMLite.Liveness
import BMLite.Main
import BMLite.Notes
import BMLite.Order
import BMLite.Pairing
import BMLite.Panel
import BMLite.Ready
import BMLite.Search
import BMLite.Timeouts
import BMLite.Timer
import BMLite.Transport
