import Aero.Audio.Theorems.Ring
import Aero.Devices.Theorems.HpetBalance
import Aero.Devices.Theorems.Pit8254
import Aero.Interrupts.Theorems.Delivery
import Aero.Interrupts.Theorems.Lines
import Aero.Interrupts.Theorems.Nesting
import Aero.Interrupts.Theorems.PicAcknowledge
import Aero.Interrupts.Theorems.RemoteIrr
import Aero.Interrupts.Theorems.Reset
import Aero.Interrupts.Theorems.TimerPoll
import Aero.Ipc.Theorems.Layout
import Aero.Ipc.Theorems.Protocol
import Aero.Ipc.Theorems.RingSystem
import Aero.Jit.Theorems.HotnessProfile
import Aero.Jit.Theorems.Runtime
import Aero.Memory.Theorems.Bus
import Aero.Mmu.Theorems.Marks
import Aero.Mmu.Theorems.Transparent
import Aero.Net.Theorems.GuestTrace
import Aero.Net.Theorems.HttpRange
import Aero.Net.Theorems.ProxyTrace
import Aero.Net.Theorems.StackPolicy
import Aero.Net.Theorems.UdpRelay
import Aero.Nvme.Theorems.Completion
import Aero.Shared.Theorems.DirtyTiles
import Aero.Shared.Theorems.Handshake
import Aero.Shared.Theorems.Snapshot
import Aero.Snapshot.Theorems.Chain
import Aero.Storage.Theorems.RangeSet
import Aero.Tier0.Theorems.Div
import Aero.Tier2.Opt.Theorems.WellFormed
import Aero.Tier2.Theorems.CodeGuards
import Aero.Tier2.Theorems.RegCache
import Aero.Time.Theorems.Scheduler
import Aero.Timers.Theorems.Ticks
import Aero.Usb.Theorems.EventSystem
