import PeerIdentity.Json.Value
import PeerIdentity.PublicKey

/-!
# Identity records

The public facts about an identity, as a JSON object of five fields. Each field has a name and an
alias. Writing uses one of the two for all fields, and reading takes either for each.

* `IdentityRecord.ofPublicKey`: the record of a public key;
* `IdentityRecord.render`, `IdentityRecord.renderPretty`: the object on one line and on many;
* `IdentityRecord.ofMembers`: the record that the members of an object give, or everything that is
  wrong with them;
* `IdentityRecord.ofText`: the record that a text writes.
-/

namespace PeerIdentity

/-- The public facts about an identity. -/
structure IdentityRecord where
  /-- The name of the algorithm. -/
  keyType : String
  /-- The peer identifier in base 58. -/
  peerId : String
  /-- The peer identifier as a content identifier. -/
  peerIdCid : String
  /-- The envelope of the public key in hexadecimal. -/
  publicKey : String
  /-- Whether the peer identifier embeds the public key. -/
  inlined : Bool
  deriving DecidableEq, Repr

namespace IdentityRecord

/-- The record of a public key. -/
def ofPublicKey (k : PublicKey) : IdentityRecord where
  keyType := k.keyType.lowerName
  peerId := k.peerId.toBase58
  peerIdCid := k.peerId.toCid
  publicKey := Bytes.hex k.encode
  inlined := (Multihash.ofData k.encode).code = .identity

/-! ## Fields -/

/-- A field of a record. -/
inductive Field where
  | keyType
  | peerId
  | peerIdCid
  | publicKey
  | inlined
  deriving DecidableEq, Repr

namespace Field

/-- The fields in the order in which they are written. -/
def all : List Field :=
  [keyType, peerId, peerIdCid, publicKey, inlined]

/-- The alias of a field. -/
def aliasName : Field → String
  | keyType => "keyType"
  | peerId => "peerId"
  | peerIdCid => "peerIdCid"
  | publicKey => "publicKey"
  | inlined => "inlined"

/-- The name of a field. -/
def name : Field → String
  | keyType => "key_type"
  | peerId => "peer_id"
  | peerIdCid => "peer_id_cid"
  | publicKey => "public_key"
  | inlined => "inlined"

end Field

/-! ## Writing -/

/-- The value of a field. -/
def value (r : IdentityRecord) : Field → Json
  | .keyType => .text r.keyType
  | .peerId => .text r.peerId
  | .peerIdCid => .text r.peerIdCid
  | .publicKey => .text r.publicKey
  | .inlined => .bool r.inlined

/-- The notation of a text or a truth value. -/
def renderValue : Json → List Char
  | .text s => Json.literal s
  | .bool true => "true".toList
  | .bool false => "false".toList
  | _ => "null".toList

/-- The members of the object, each as its key, `separator` and its value. -/
def renderMembers (key : Field → String) (separator : List Char) (r : IdentityRecord) :
    List (List Char) :=
  Field.all.map fun f => Json.literal (key f) ++ separator ++ renderValue (r.value f)

/-- The object on one line, under given keys. -/
def render (key : Field → String) (r : IdentityRecord) : String :=
  String.ofList
    ('\x7b' :: [','].intercalate (renderMembers key [':'] r) ++ ['\x7d'])

/-- The object with a line for each member, under given keys. -/
def renderPretty (key : Field → String) (r : IdentityRecord) : String :=
  String.ofList
    ('\x7b' :: '\n' :: ' ' :: ' ' ::
      [',', '\n', ' ', ' '].intercalate (renderMembers key [':', ' '] r) ++ ['\n', '\x7d'])

/-! ## Reading -/

/-- What is wrong with a text that should write a record. -/
inductive Violation where
  /-- The text is no JSON. -/
  | notJson
  /-- The value is no object. -/
  | notObject
  /-- A field is not given. -/
  | missing (field : Field)
  /-- The value that is given for a field, under a key, is not of the field's type. -/
  | wrongType (field : Field) (key : String)
  /-- A key is that of no field, or of a field that is given by its alias. -/
  | extra (key : String)
  deriving DecidableEq, Repr

namespace Violation

/-- Where in the object something is wrong: at the key that is given, or at the alias of a field
that is not given. -/
def path : Violation → List String
  | notJson | notObject => []
  | missing f => [f.aliasName]
  | wrongType _ key | extra key => [key]

/-- The name of what is wrong. -/
def kind : Violation → String
  | notJson => "json_invalid"
  | notObject => "model_type"
  | missing _ => "missing"
  | wrongType .inlined _ => "bool_type"
  | wrongType .. => "string_type"
  | extra _ => "extra_forbidden"

end Violation

/-- The key under which a field is given: its alias, or else its name. -/
def key? (members : List (String × Json)) (f : Field) : Option String :=
  [f.aliasName, f.name].find? fun key => (Json.lookup? members key).isSome

/-- The value that is given for a field. -/
def value? (members : List (String × Json)) (f : Field) : Option Json :=
  (key? members f).bind (Json.lookup? members)

/-- Whether a value has the type of a field. -/
def hasType : Field → Json → Bool
  | .inlined, .bool _ => true
  | .inlined, _ => false
  | _, .text _ => true
  | _, _ => false

/-- What is wrong with a field. -/
def fieldViolation? (members : List (String × Json)) (f : Field) : Option Violation :=
  match key? members f with
  | none => some (.missing f)
  | some key =>
    if (Json.lookup? members key).any (hasType f) then none else some (.wrongType f key)

/-- The keys under which fields are given. -/
def usedKeys (members : List (String × Json)) : List String :=
  Field.all.filterMap (key? members)

/-- Everything that is wrong with the members of an object. A key that does not count is told as
often as it is given. -/
def violations (members : List (String × Json)) : List Violation :=
  Field.all.filterMap (fieldViolation? members) ++
    ((Json.keys members).filter fun key => ¬ (usedKeys members).contains key).map Violation.extra

/-- The text that is given for a field, and no text when none is. -/
def textOf (members : List (String × Json)) (f : Field) : String :=
  match value? members f with
  | some (.text s) => s
  | _ => ""

/-- The truth value that is given for a field, and `false` when none is. -/
def flagOf (members : List (String × Json)) (f : Field) : Bool :=
  match value? members f with
  | some (.bool b) => b
  | _ => false

/-- The record that the members of an object give. -/
def ofMembers (members : List (String × Json)) : Except (List Violation) IdentityRecord :=
  match violations members with
  | [] =>
    .ok {
      keyType := textOf members .keyType
      peerId := textOf members .peerId
      peerIdCid := textOf members .peerIdCid
      publicKey := textOf members .publicKey
      inlined := flagOf members .inlined }
  | wrong => .error wrong

/-- The record that a value gives. -/
def ofJson : Json → Except (List Violation) IdentityRecord
  | .object members => ofMembers members
  | _ => .error [.notObject]

/-- The record that a text writes. -/
def ofText (s : String) : Except (List Violation) IdentityRecord :=
  match Json.parse s with
  | some v => ofJson v
  | none => .error [.notJson]

end IdentityRecord

end PeerIdentity
