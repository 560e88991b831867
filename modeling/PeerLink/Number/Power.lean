/-! # Powers of numbers

A power of natural numbers is that of the core library, also where a library defines powers of other
kinds: both ways in which an instance is chosen take this one first.
-/

namespace PeerLink
set_option autoImplicit false

@[default_instance 20000]
instance (priority := 20000) natPow : Pow Nat Nat := instPowNat

end PeerLink
