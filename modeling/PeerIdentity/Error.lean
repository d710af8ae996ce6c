import PeerIdentity.KeyType

/-!
# Errors

The errors of identity keys and peer identifiers. Every error has a name, the names of the more
general errors that it is a case of, and a message.

* `IdentityError`: the errors;
* `IdentityError.message`: the message, which quotes the error's detail;
* `IdentityError.describe`: the name with the quoted message.
-/

namespace PeerIdentity

/-- An error of identity keys or peer identifiers. -/
inductive IdentityError where
  /-- An error that no other case describes. -/
  | general (message : String)
  /-- An encoded key is refused: its envelope, or the contents of a given type. -/
  | decoding (keyType : Option KeyType) (detail : String)
  /-- The envelope of a key has no type, or a number that is no type's. -/
  | unsupportedKeyType (code : Option Int)
  /-- A key refuses to sign. -/
  | signing (keyType : KeyType) (detail : String)
  /-- A key is used after its secret was erased. -/
  | erased (keyType : KeyType)
  /-- A key cannot be generated. -/
  | generation (keyType : KeyType) (detail : String)
  /-- A key is asked for as a key of another type. -/
  | otherVariant (actual expected : KeyType)
  /-- Bytes or text do not write a peer identifier. -/
  | parse (message : String)
  deriving DecidableEq, Repr

namespace IdentityError

/-- The name of an error. -/
def name : IdentityError → String
  | general _ => "IdentityError"
  | decoding .. => "DecodingError"
  | unsupportedKeyType _ => "UnsupportedKeyTypeError"
  | signing .. => "SigningError"
  | erased _ => "ErasedKeyError"
  | generation .. => "KeyGenerationError"
  | otherVariant .. => "OtherVariantError"
  | parse _ => "ParseError"

/-- The names of the errors that an error is a case of, nearest first. -/
def generalizations : IdentityError → List String
  | general _ => []
  | unsupportedKeyType _ => ["DecodingError", "IdentityError"]
  | erased _ => ["SigningError", "IdentityError"]
  | _ => ["IdentityError"]

/-- What went wrong, for the errors that tell it apart from the message. -/
def detail? : IdentityError → Option String
  | decoding _ detail => some detail
  | unsupportedKeyType none => some "missing key type"
  | unsupportedKeyType (some v) => some s!"unsupported key type {v}"
  | signing _ detail => some detail
  | erased _ => some "secret key material has been erased"
  | generation _ detail => some detail
  | _ => none

/-- The key type that an error is about. -/
def keyType? : IdentityError → Option KeyType
  | decoding t _ => t
  | signing t _ => some t
  | erased t => some t
  | generation t _ => some t
  | _ => none

/-- What an error's message says before the detail. -/
def heading : IdentityError → String
  | general m => m
  | decoding none _ => "Failed to decode key"
  | decoding (some t) _ => s!"Failed to decode {t.name} key"
  | unsupportedKeyType _ => "Failed to decode key"
  | signing t _ => s!"Failed to sign with {t.name} key"
  | erased t => s!"Failed to sign with {t.name} key"
  | generation t _ => s!"Failed to generate {t.name} key"
  | otherVariant actual expected => s!"Cannot convert {actual.name} key into {expected.name} key"
  | parse m => m

/-- The message of an error. -/
def message (e : IdentityError) : String :=
  match e.detail? with
  | some detail => s!"{e.heading}: {detail}"
  | none => e.heading

/-- The name of an error with its message in quotes. -/
def describe (e : IdentityError) : String :=
  s!"{e.name}({quoted e.message})"

end IdentityError

end PeerIdentity
