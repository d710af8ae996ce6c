import PeerIdentity.Text.Decimal

/-!
# Configuration

The size of generated RSA keys, which an environment variable may set. The sizes that are accepted
are the same for generated and for decoded keys.

* `minRsaBits`, `maxRsaBits`: the bounds of the size;
* `Config.load`: the configuration for a value of the variable.
-/

namespace PeerIdentity

/-- The smallest number of binary digits of an RSA modulus. -/
def minRsaBits : Nat :=
  2048

/-- The largest number of binary digits of an RSA modulus. -/
def maxRsaBits : Nat :=
  8192

/-- The settings of this library. -/
structure Config where
  /-- The number of binary digits of the moduli of generated RSA keys. -/
  rsaBits : Nat := 2048
  min_le : minRsaBits ≤ rsaBits := by decide
  le_max : rsaBits ≤ maxRsaBits := by decide

namespace Config

/-- The settings when nothing is set. -/
def standard : Config :=
  {}

/-- The name of the environment variable. -/
def variableName : String :=
  "LIBP2P_IDENTITY_RSA_BITS"

/-- Why a value of the variable is refused. -/
inductive Fault where
  /-- The value is no integer. -/
  | notInteger (text : String)
  /-- The integer is out of bounds. -/
  | outOfRange (bits : Int)
  deriving DecidableEq, Repr

/-- The message for a value of the variable that is refused. -/
def Fault.message : Fault → String
  | notInteger text =>
    s!"Invalid {variableName} environment variable: '{text}'. Expected an integer."
  | outOfRange bits =>
    s!"Invalid {variableName} environment variable: '{bits}'. " ++
      s!"Supported range: [{minRsaBits}, {maxRsaBits}]"

/-- The settings for a value of the variable, or for the lack of one. -/
def load : Option String → Except Fault Config
  | none => .ok standard
  | some text =>
    match Decimal.readInteger? text with
    | none => .error (.notInteger text)
    | some v =>
      if h : 0 ≤ v ∧ minRsaBits ≤ v.toNat ∧ v.toNat ≤ maxRsaBits then
        .ok { rsaBits := v.toNat, min_le := h.2.1, le_max := h.2.2 }
      else .error (.outOfRange v)

end Config

end PeerIdentity
