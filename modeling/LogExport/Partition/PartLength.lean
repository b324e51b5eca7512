import LogExport.Error

/-! Partition lengths and the rounding of moments to partition bounds. Bounds
lie at whole multiples of the length after midnight, on the clock of the
moment's own offset. -/

namespace LogExport

/-- A whole number of minutes that divides the day. -/
structure PartLength where
  length : Duration
  positive : 0 < length.nanos
  minutes : length.nanos % Duration.minute.nanos = 0
  ofDay : Duration.day.nanos % length.nanos = 0
deriving Repr

namespace PartLength

def ofDuration (d : Duration) : Except LengthFault PartLength :=
  if h : 0 < d.nanos then
    if hm : d.nanos % Duration.minute.nanos = 0 then
      if hd : Duration.day.nanos % d.nanos = 0 then .ok ⟨d, h, hm, hd⟩
      else .error (.notOfDay d)
    else .error (.notMinutes d)
  else .error .zero

def step (p : PartLength) : Int := p.length.nanos

/-- Nanoseconds since the last bound, if the clock at the offset is in range. -/
def sinceBound? (p : PartLength) (t : Stamp) : Option Int :=
  t.shown.checked.map fun c => (c.secondOfDay * Instant.perSecond + c.nano) % p.step

/-- The last bound at or before the moment. -/
def floor? (p : PartLength) (t : Stamp) : Option Stamp := do
  let rest ← p.sinceBound? t
  let utc ← t.utc.sub? rest
  return { t with utc }

/-- The first bound at or after the moment. -/
def ceil? (p : PartLength) (t : Stamp) : Option Stamp := do
  let rest ← p.sinceBound? t
  if rest = 0 then return t
  let utc ← t.utc.add? (p.step - rest)
  return { t with utc }

/-- The range widened to bounds on both sides. -/
def normalize? (p : PartLength) (start stop : Stamp) : Option (Instant × Instant) := do
  let a ← p.floor? start
  let b ← p.ceil? stop
  return (a.utc, b.utc)

end PartLength

end LogExport
