/-!
# Time

Durations and instants are counted in nanoseconds.  The clock of a connection starts at zero.
-/

namespace Fieldbus

abbrev Nanoseconds := Nat

abbrev Instant := Nat

def microsecond : Nanoseconds := 1000

def millisecond : Nanoseconds := 1000 * microsecond

def second : Nanoseconds := 1000 * millisecond

def minute : Nanoseconds := 60 * second

def hour : Nanoseconds := 60 * minute

/-- The longest duration that a clock of 64-bit seconds and 32-bit nanoseconds can express. -/
def longestDuration : Nanoseconds := (UInt64.size - 1) * second + (second - 1)

end Fieldbus
