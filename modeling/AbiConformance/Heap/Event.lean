namespace AbiConformance

inductive Event where
  | blockAllocated (bytes : Nat)
  | blockReleased (bytes : Nat)
  | structAllocated
  | structFreed
  deriving DecidableEq

namespace Event

def line : Event → String
  | blockAllocated bytes => s!"TRACE marshal::heap: block allocated bytes={bytes}"
  | blockReleased bytes => s!"TRACE marshal::heap: block released bytes={bytes}"
  | structAllocated => "TRACE marshal::record: struct allocated"
  | structFreed => "TRACE marshal::record: struct freed"

end Event

end AbiConformance
