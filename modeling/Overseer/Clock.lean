import Overseer.Duration

/-!
# The monotonic clock

An instant is the number of nanoseconds since the clock's origin. The clock counts seconds in a signed
64-bit word, so an instant later than that cannot be represented: `Instant.after?` is undefined there.
-/
namespace Overseer

/-- A reading of the monotonic clock, in nanoseconds since its origin. -/
abbrev Instant := Nat

namespace Instant

/-- Whether the clock can show `i`. -/
def Representable (i : Instant) : Prop := i / nanosPerSecond < Word.half64

instance (i : Instant) : Decidable (Representable i) :=
  inferInstanceAs (Decidable (i / nanosPerSecond < Word.half64))

/-- The instant `d` after `now`, if the clock can show it. -/
def after? (now : Instant) (d : Duration) : Option Instant :=
  if Representable (now + d.nanos) then some (now + d.nanos) else none

/-- The time from `earlier` to `later`, zero if they are the other way round. -/
def since (later earlier : Instant) : Duration := Duration.ofNanos (later - earlier)

end Instant

end Overseer
