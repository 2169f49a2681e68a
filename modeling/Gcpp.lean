import Gcpp.Proof.AllocContract
import Gcpp.Proof.Refinement
import Gcpp.Proof.GlobalRoots
import Gcpp.Proof.LocalRoots
import Gcpp.Proof.Undisturbed
import Gcpp.Proof.Promotion
import Gcpp.Proof.FailedCollection
import Gcpp.Proof.Overrun
import Gcpp.Proof.ScanEnd
import Gcpp.Proof.DeadStacks
import Gcpp.Proof.Shutdown
import Gcpp.Proof.OneCollection
import Gcpp.Proof.Capacity
import Gcpp.Proof.DataKept
import Gcpp.Proof.Interleavings
import Gcpp.Proof.Termination
import Gcpp.Proof.Padding
import Gcpp.Proof.CopyBounds
import Gcpp.Proof.SpaceUse
import Gcpp.Proof.StackRanges
import Gcpp.Proof.Reservation
import Gcpp.Proof.HeapRegistry
import Gcpp.Proof.RegionRun
import Gcpp.Proof.RegionAssign
import Gcpp.Proof.SafeArray
import Gcpp.Proof.SlotUpdates
import Gcpp.FrontEnd
import Gcpp.Lib.StateFrame
import Gcpp.ManyCollectors
import Gcpp.Proof.CollectionFrame
import Gcpp.Proof.CurrentSpace
import Gcpp.Proof.FreeSpace
import Gcpp.Proof.FrontEnd
import Gcpp.Proof.ManyCollectors
import Gcpp.Proof.Reclamation
import Gcpp.Proof.RootedCollector
import Gcpp.Proof.TaskBound
import Gcpp.Proof.Confinement
import Gcpp.Proof.Patience
import Gcpp.Proof.RootsCalls
import Gcpp.Proof.SharedRegistry
