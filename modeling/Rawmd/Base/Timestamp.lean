import Rawmd.Lib.MachineInt

/-!
# `base/Timestamp.h`: time stamps in microseconds

A `Timestamp` is its `microSecondsSinceEpoch_`.  A `double` number of seconds is kept as
what the code reads of it: the test `> 0.0` and the truncated number of microseconds that
`addTime` computes (`Seconds`).
-/

namespace Rawmd

open MachineInt

abbrev Timestamp := Int

def kMicroSecondsPerSecond : Int := 1000 * 1000

namespace Timestamp

/-- `Timestamp::invalid()`, also the default-constructed value. -/
def invalid : Timestamp := 0

def valid (t : Timestamp) : Bool := decide (0 < t)

end Timestamp

/-- A `double` number of seconds: `positive` is `seconds > 0.0`, `micros` is
`static_cast<int64_t>(seconds * kMicroSecondsPerSecond)`.  The cast truncates, so a
positive number of seconds may give `0` microseconds, never fewer. -/
structure Seconds where
  positive : Bool
  micros : Int
  fits : Fits 64 micros
  nonneg : positive = true → 0 ≤ micros

/-- `0.0` -/
def Seconds.zero : Seconds := ⟨false, 0, by decide, by simp⟩

def addTime (timestamp : Timestamp) (seconds : Seconds) : Timestamp :=
  wrap 64 (timestamp + seconds.micros)

end Rawmd
