import AbiConformance.Proofs.Matrix.Generation
import AbiConformance.Proofs.Sum.Integers

namespace AbiConformance

open Integral

namespace OwnedMatrix

variable {α σ : Type} {m : OwnedMatrix α}

variable [Inhabited α]

end OwnedMatrix

section Order

variable {α β : Type} [Integral α] {xs ys : List α}

variable [Accumulator β] [Integral β] [Wrapping β] [Widening α β] [SignExtending α]

end Order

namespace Memory

variable {α β : Type} [Scalar α] [Accumulator β] [Widening α β]

variable [Integral α] [Integral β] [Wrapping β] [SignExtending α]

end Memory

end AbiConformance
