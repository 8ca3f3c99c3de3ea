import FluxBridge.Transport.Wire

/-!
# Calls of an open device

The worker owns a device and calls it as it likes, whatever the calls return.
-/

namespace FluxBridge

open Atomic

/-- The calls of the `Device` trait. -/
inductive DeviceCall where
  | status
  | setMotor (enabled quick : Bool)
  | seek (cylinder : Nat)
  | selectSide (side : Side)
  | noClickStep
  | readTrack (mode : ReadMode) (density : DensityMode)
  | writeTrack (words : List (BitVec 16)) (bitLen : Nat) (fromIndex : Bool) (density : DensityMode)

/-- Calls one after the other. -/
def session {D : Type} (serve : DeviceCall → Host D Unit) : List DeviceCall → Host D Unit
  | [] => pure ()
  | call :: calls => do
    let _ ← Fallible.attempt (serve call)
    session serve calls

theorem keeps_session {D : Type} {serve : DeviceCall → Host D Unit} {env : Env wireSig}
    {N : D → WireOp → History wireSig → Prop} {J : D → History wireSig → Prop}
    (h : ∀ call, (serve call).Keeps env N J) (calls : List DeviceCall) :
    (session serve calls).Keeps env N J := by
  induction calls with
  | nil => exact Fallible.keeps_pure ()
  | cons call calls ih => exact (h call).attempt.bind fun _ => ih

end FluxBridge
