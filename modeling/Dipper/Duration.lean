/-! Durations, as numbers of nanoseconds. -/

namespace Dipper

namespace Duration

def fromSecs (secs : Nat) : Nat := secs * 1000000000

def asSecs (d : Nat) : Nat := d / 1000000000

/-- The longest duration: the most seconds 64 bits hold, and a nanosecond less than another one. -/
def longest : Nat := 18446744073709551615999999999

def saturatingAdd (d d' : Nat) : Nat := min (d + d') longest

def saturatingMul (d n : Nat) : Nat := min (d * n) longest

end Duration

end Dipper
