import PeerIdentity.Main
import PeerIdentity.Proofs.CidText
import PeerIdentity.Proofs.Consistency
import PeerIdentity.Proofs.Derivation
import PeerIdentity.Proofs.Erasure
import PeerIdentity.Proofs.Interchange
import PeerIdentity.Proofs.KeyFiles
import PeerIdentity.Proofs.Separation
import PeerIdentity.Proofs.Truncation
import PeerIdentity.Proofs.Records
import PeerIdentity.Proofs.Decimal
import PeerIdentity.Proofs.Disclosure
import PeerIdentity.Proofs.ModulusSize
import PeerIdentity.Proofs.Concatenation
import PeerIdentity.Proofs.PeerIdBytes
import PeerIdentity.Proofs.LowS
import PeerIdentity.Proofs.Order
import PeerIdentity.Proofs.Spelling
import PeerIdentity.Proofs.Halves
import PeerIdentity.Proofs.Ed25519
import PeerIdentity.Proofs.Secp256k1
import PeerIdentity.Proofs.VarintFaults
import PeerIdentity.Proofs.Json.Members
import PeerIdentity.Proofs.Validation
import PeerIdentity.Proofs.Json.Literal
import PeerIdentity.Proofs.Json.Text
import PeerIdentity.Proofs.RecordText
