import ExchangeFees.Value.Integer

/-!
The guard in front of fills. While fills are paused no fill goes through, and while fills against
the market's own maker are paused those do not. The first of the two that is paused is named.
-/
namespace ExchangeFees

def Mask.allowFill (mask : Int) (againstAmm : Bool) : Except Error Unit :=
  if Mask.overlap mask PausedOperation.fill.mask then .error (.paused .fill mask)
  else if againstAmm && Mask.overlap mask PausedOperation.ammFills.mask then
    .error (.paused .ammFills mask)
  else .ok ()

def allowFill (mask : Value) (againstAmm : Bool) : Except Error Unit := do
  Mask.allowFill (← mask.toInteger) againstAmm

def isPaused (mask operation : Value) : Except Error Bool := do
  let mask ← mask.toInteger
  let operation ← operation.toInteger
  return Mask.overlap mask operation

end ExchangeFees
