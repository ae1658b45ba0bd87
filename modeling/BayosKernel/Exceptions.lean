import BayosKernel.InterruptHandlers

/-!
`exception_handler.asm`: what `exception_handler` gets to report of an exception.

The function prints its report and halts.
-/

namespace BayosKernel

open Foundation

section

variable {σ : Type}

variable {st : CodeState σ} {top b err : UInt64} {v : Nat}

end

end BayosKernel
