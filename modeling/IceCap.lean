import IceCap.Library.Exec
import IceCap.Library.Buddy
import IceCap.Library.TwoWay
import IceCap.Library.Circular
import IceCap.Dyndl.CRegion
import IceCap.Dyndl.Node
import IceCap.Dyndl.Allocator
import IceCap.Dyndl.AllocatorRuns
import IceCap.Dyndl.RealizerExterns
import IceCap.Dyndl.RealmSlots
import IceCap.Events.Runs
import IceCap.Ring.Fifo
import IceCap.Biterate
import IceCap.Gic.Panics
import IceCap.Gic.Delivery
import IceCap.Gic.Mirrors
import IceCap.Gic.Again
import IceCap.Gic.Privacy
import IceCap.Sync.Mutex
import IceCap.Events.Delivery
import IceCap.Library.Holdings
import IceCap.Resources.Joint
import IceCap.Serial.WakeUps
import IceCap.FiniteSet.Derive
import IceCap.TimerServer.Arming
import IceCap.Resources.Timeouts
import IceCap.Resources.Transport
import IceCap.Vmm.IrqMap
import IceCap.Events.Subscriptions
import IceCap.Gic.Pending
import IceCap.Gic.Plain
import IceCap.Gic.Summary
import IceCap.Gic.Overlap
import IceCap.Gic.Accept
import IceCap.Gic.Watched
import IceCap.Dyndl.AllocatorAdmission
import IceCap.Dyndl.AllocatorFailure
import IceCap.Dyndl.RealmCNode
import IceCap.Dyndl.RealizerSpace
import IceCap.Serial.Output
import IceCap.Ring.Hostile
import IceCap.Ring.Packets
import IceCap.Events.Borrows
import IceCap.Events.Renewal
import IceCap.Events.Isolation
import IceCap.Events.Rebinding
import IceCap.Ring.Queued
import IceCap.Ring.RoundTrip
import IceCap.Ring.Draining
import IceCap.TimerServer.Periods
import IceCap.Serial.Input
import IceCap.Resources.Bulk
import IceCap.Resources.Integrity
import IceCap.Vmm.Fault
import IceCap.Fdt.Readable
import IceCap.Fdt.RoundTrip
import IceCap.Rpc.Lossless
import IceCap.Dispatch
import IceCap.Drivers.BcmSystemTimer
import IceCap.Firmware.Ram
import IceCap.Runtime.Heap
import IceCap.Runtime.Tls
import IceCap.Runtime.Config
import IceCap.Dyndl.SlotRuns
import IceCap.NineP.Listing
import IceCap.Vmm.Replies
import IceCap.Vmm.Cpus
import IceCap.Vmm.Progress
import IceCap.Fdt.Append
