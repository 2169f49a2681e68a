import Gcpp.Lib.Tracing
import Gcpp.CopyCollector

/-!
# The graph of managed objects

What a collection is to keep, read off the memory it starts from. Root slots and the slots that a
scan reports inside an object are the locations; a location holds an object when it passes the
pointer test and the pointer is a key of the metadata map.
-/

namespace Gcpp

open ByteMemory Tracing

def objectGraph (m : Memory) (metadata : AssocMap FatPtr MetaData) (roots : List Nat) :
    PointerGraph Nat FatPtr where
  root := fun slot => slot ∈ roots
  field := fun v slot => ∃ data slots, metadata.lookup v = some data ∧
    scanMemory m v.asPtr (v.asPtr + data.size) = some slots ∧ slot ∈ slots
  target := fun slot w => testPtr m slot = some w ∧ w ∈ metadata

/-- An object that a path of slots leads to from a root slot. -/
def Reachable (m : Memory) (metadata : AssocMap FatPtr MetaData) (roots : List Nat) (w : FatPtr) :
    Prop :=
  (objectGraph m metadata roots).Reach w

/-- The two blocks are at least 8 bytes apart. -/
def SpacesApart (cfg : Config) : Prop :=
  cfg.base .zero + cfg.heapSize + 8 ≤ cfg.base .one ∨
    cfg.base .one + cfg.heapSize + 8 ≤ cfg.base .zero

/-- A root slot lies outside both blocks, and not in the 8 bytes behind one of them. -/
def RootApart (cfg : Config) (root : Nat) : Prop :=
  ∀ space, root + gcPtrSize ≤ cfg.base space ∨ cfg.base space + cfg.heapSize + 8 ≤ root

end Gcpp
