import KludgeOS.Reach

/-!
What no run changes: the frames the kernel took for itself, and with them the upper half of every
address space.
-/

namespace KludgeOS
open Kern Event List Mem

variable {K : Finset Nat} {s s' : Kern} {f : Nat}

end KludgeOS
