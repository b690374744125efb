import Arsenal.Lib.Temporal
import Arsenal.Lib.Transition
import Arsenal.Lib.Replay
import Arsenal.Lib.Window
import Arsenal.Lib.Iterate
import Arsenal.Lib.Channel
import Arsenal.Lib.Conduit
import Arsenal.Lib.Heap
import Arsenal.Lib.Interrupt
import Arsenal.Lib.RoundRobin
import Arsenal.Lib.Machine
import Arsenal.Lib.CycleRing
import Arsenal.Lib.Word
import Arsenal.Lib.Circular
import Arsenal.Lib.Preorder
import Arsenal.Lib.Overlay
import Arsenal.Lib.Raster
import Arsenal.Lib.Logged
import Arsenal.Lib.Periodic
import Arsenal.Lib.Bytes
import Arsenal.Lib.Calls
import Arsenal.Frames.Model
import Arsenal.Frames.Alloc
import Arsenal.Frames.Init
import Arsenal.Paging.Table
import Arsenal.Paging.Clone
import Arsenal.Paging.Mmio
import Arsenal.Virtio.Queue
import Arsenal.Virtio.Chain
import Arsenal.Virtio.Ownership
import Arsenal.Virtio.Robust
import Arsenal.Virtio.Device
import Arsenal.Virtio.Refinement
import Arsenal.Virtio.Contract
import Arsenal.Virtio.Port
import Arsenal.Virtio.Exchange
import Arsenal.Virtio.Call
import Arsenal.Virtio.Transport
import Arsenal.Virtio.Capabilities
import Arsenal.Linuxkpi.Tokens
import Arsenal.Linuxkpi.FindVqs
import Arsenal.Linuxkpi.Lists
import Arsenal.Linuxkpi.Slab
import Arsenal.Linuxkpi.Slots
import Arsenal.Pci.Config
import Arsenal.Linuxkpi.Bars
import Arsenal.Linuxkpi.Msix
import Arsenal.Linuxkpi.Routing
import Arsenal.Linuxkpi.Vectors
import Arsenal.Linuxkpi.Pages
import Arsenal.Linuxkpi.Conservation
import Arsenal.Linuxkpi.Balloon
import Arsenal.Linuxkpi.Walk
import Arsenal.Linuxkpi.PciMatch
import Arsenal.Linuxkpi.Register
import Arsenal.Linuxkpi.Lifecycle
import Arsenal.Linuxkpi.Time
import Arsenal.VirtioBalloon.Driver
import Arsenal.VirtioBalloon.Shelf
import Arsenal.VirtioBalloon.Invariant
import Arsenal.VirtioBalloon.Steps
import Arsenal.VirtioBalloon.Host
import Arsenal.VirtioBalloon.Runs
import Arsenal.VirtioBlk.Smoke
import Arsenal.Net.Model
import Arsenal.Net.Receive
import Arsenal.Net.Transmit
import Arsenal.Net.Tls
import Arsenal.Workqueue.Model
import Arsenal.Workqueue.Progress
import Arsenal.Workqueue.Cancel
import Arsenal.Workqueue.Fifo
import Arsenal.Workqueue.Sync
import Arsenal.Irq.Ioapic
import Arsenal.Irq.Locking
import Arsenal.Irq.Safety
import Arsenal.Sched.Model
import Arsenal.Sched.Rotation
import Arsenal.Sched.Fifo
import Arsenal.Sched.Slice
import Arsenal.Switch.Model
import Arsenal.Switch.Frame
import Arsenal.Switch.Context
import Arsenal.Xhci.EventRing
import Arsenal.Xhci.Dwords
import Arsenal.Xhci.Driver
import Arsenal.Xhci.Descriptors
import Arsenal.Xhci.Endpoints
import Arsenal.Xhci.System
import Arsenal.Xhci.Consumer
import Arsenal.Xhci.Protocol
import Arsenal.Xhci.HandOver
import Arsenal.Xhci.Attribution
import Arsenal.Xhci.TransferRing
import Arsenal.Xhci.Report
import Arsenal.Xhci.Pipeline
import Arsenal.Nvme.Queue
import Arsenal.Nvme.Rounds
import Arsenal.Nvme.BringUp
import Arsenal.Nvme.Admission
import Arsenal.Kbd.Ring
import Arsenal.Kbd.Single
import Arsenal.Kbd.Producers
import Arsenal.Kbd.Scancode
import Arsenal.Fb.Console
import Arsenal.Acpi.Model
import Arsenal.Acpi.Madt
import Arsenal.Acpi.Bounds
import Arsenal.Idt.Vectors
import Arsenal.Smp.Model
import Arsenal.Smp.BringUp
import Arsenal.Smp.Online
