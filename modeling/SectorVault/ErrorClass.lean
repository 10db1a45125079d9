/-!
# Classes of failure

Each layer has its own type of errors, which says what went wrong and where.  A caller that only
wants to decide what to do next needs less: whether the bytes are of a foreign format, contradict
themselves, are absent, or could not be obtained.  `ErrorClass` is that coarse answer, and every
error type maps onto it.
-/

namespace SectorVault

/-- What kind of thing went wrong, whatever the layer. -/
inductive ErrorClass where
  /-- The bytes are of no known format. -/
  | format
  /-- The bytes are of a known format, and break its rules. -/
  | corruption
  /-- What was asked for does not exist. -/
  | notFound
  /-- The bytes could not be obtained at all. -/
  | unreadable
  deriving DecidableEq, Repr

end SectorVault
