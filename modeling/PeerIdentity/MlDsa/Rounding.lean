import PeerIdentity.MlDsa.Ring

/-!
# Rounding

A coefficient is split into a high and a low part in two ways: by multiples of `2 ^ 13` for the
public key, and by multiples of `2 γ₂` for the commitment of a signature. The multiples of `2 γ₂`
wrap: the last one, `q - 1`, counts as the first. A hint of one bit tells whether adding a small
number changes the high part.
-/

namespace PeerIdentity.MlDsa

/-- Half the distance between two high parts, `(q - 1) / 32`. -/
def gamma2 : Nat :=
  261888

/-- The high part of a coefficient of the public key, with low parts in `(-2 ^ 12, 2 ^ 12]`. -/
def highDigit (x : Nat) : Nat :=
  (x + 4095) / 8192

/-- The low part of a coefficient of the public key, modulo `q`. -/
def lowDigit (x : Nat) : Nat :=
  subMod x (8192 * highDigit x) q

/-- The high part of a coefficient of the commitment, with low parts in `(-γ₂, γ₂]`, or one less
where it wraps. -/
def highPart (x : Nat) : Nat :=
  (x + gamma2 - 1) / (2 * gamma2) % 16

/-- The low part of a coefficient of the commitment, modulo `q`. -/
def lowPart (x : Nat) : Nat :=
  subMod x (2 * gamma2 * highPart x) q

/-- Whether adding `z` changes the high part of `x`. -/
def makeHint (z x : Nat) : Bool :=
  highPart x != highPart ((x + z) % q)

/-- The high part of `x`, moved one step towards its low part if there is a hint. -/
def useHint (hint : Bool) (x : Nat) : Nat :=
  if hint then
    if 0 < lowPart x ∧ lowPart x ≤ (q - 1) / 2 then (highPart x + 1) % 16
    else (highPart x + 15) % 16
  else highPart x

end PeerIdentity.MlDsa
