import Enet.Channels.Dispatch
import Enet.Runs.Isolation
import Enet.Runs.Events
import Enet.Runs.Drivers
import Enet.Runs.Counters
import Enet.Runs.Wakeups
import Enet.Runs.WaitingData
import Enet.Runs.Bounds
import Enet.Runs.Drops
import Enet.Runs.Stalls
import Enet.Runs.Pings
import Enet.Fragments.Late
import Enet.Runs.PacketCalls
import Enet.Compress.Buffers
import Enet.Compress.Invariant
import Enet.Compress.RoundTrip
import Enet.Datagrams.Header
import Enet.Bandwidth.Unbounded
import Enet.Datagrams.Unsequenced
import Enet.Datagrams.Checksum
import Enet.Lists.Operations
import Enet.Lists.Dispatch
import Enet.Datagrams.RoundTrip
import Enet.Runs.Lingering
import Enet.Failures.Sending
import Enet.Failures.Connecting
import Enet.Failures.Receiving
import Enet.Runs.Vacant
import Enet.Timing.Samples
import Enet.Timing.Timeouts
import Enet.Runs.Admissions
import Enet.Runs.Memory
import Enet.Runs.Destroyed
import Enet.Bandwidth.Division
