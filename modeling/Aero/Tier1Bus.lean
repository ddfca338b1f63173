import Aero.Types

namespace Aero

-- The trait's methods as functions on the state of the bus. Reading may change that state, since a
-- bus can use interior mutability.
structure Tier1Bus (β : Type) where
  read : β → U64 → Width → U64 × β
  write : β → U64 → Width → U64 → β

instance {β : Type} : Inhabited (Tier1Bus β) where
  default := { read := fun b _ _ => (0, b), write := fun b _ _ _ => b }

inductive BusAccess
  | read (addr : U64) (width : Width)
  | write (addr : U64) (width : Width) (value : U64)
  deriving DecidableEq, Repr

end Aero
