import Mathlib.Logic.Basic

/- The send gate (`start_gate.h`): a one-way latch, open unless it is armed shut. -/
namespace Tombstone

structure StartGate where
  opened : Bool := true
  requested : Bool := false
  deriving DecidableEq, Repr

namespace StartGate

/-- `StartGate::arm`: an earlier explicit request survives. -/
def arm (g : StartGate) (autoStart : Bool) : StartGate :=
  { g with opened := autoStart || g.requested }

/-- `StartGate::set`: the gate after it, and whether this call opened it. -/
def set (g : StartGate) : StartGate × Bool := ({ opened := true, requested := true }, !g.opened)

end StartGate

end Tombstone
