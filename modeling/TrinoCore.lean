import TrinoCore.Lib.Bytes
import TrinoCore.Crypto
import TrinoCore.Lib.Mut
import TrinoCore.Ratchet.Model
import TrinoCore.Lib.BoundedQueue
import TrinoCore.Ratchet.Bank
import TrinoCore.Ratchet.Steps
import TrinoCore.Ratchet.Fifo
import TrinoCore.Symbolic
import TrinoCore.Ratchet.Schedule
import TrinoCore.Ratchet.Session
import TrinoCore.Ratchet.Invariant
import TrinoCore.Ratchet.Accepting
import TrinoCore.Ratchet.Run
import TrinoCore.Ratchet.Delivery
import TrinoCore.Ratchet.Authenticity
import TrinoCore.Ratchet.Secrecy
import TrinoCore.Identity.Model
import TrinoCore.Identity.Rotation
import TrinoCore.X3dh.Binding
import TrinoCore.Ratchet.FirstChain
import TrinoCore.Lib.Positional
import TrinoCore.Lib.Base32
import TrinoCore.Totp.Model
import TrinoCore.Totp.Validity
import TrinoCore.Totp.Encoding
import TrinoCore.Lib.Percent
import TrinoCore.Totp.Uri
import TrinoCore.Vault.Model
import TrinoCore.Vault.Migration
import TrinoCore.Vault.Container
import TrinoCore.Vault.Format
import TrinoCore.X3dh.Handshake
import TrinoCore.Group.Model
import TrinoCore.Group.SigningBytes
import TrinoCore.Group.Validation
import TrinoCore.Group.Updates
import TrinoCore.X3dh.Publishing
import TrinoCore.X3dh.SingleUse
import TrinoCore.Group.Edits
import TrinoCore.Group.Holders
import TrinoCore.Group.Convergence
import TrinoCore.Group.Decoded
import TrinoCore.Ratchet.Settling
import TrinoCore.Lib.JsonValue
import TrinoCore.Lib.Serde
import TrinoCore.Lib.Utf8
import TrinoCore.CallSignal.Model
import TrinoCore.CallSignal.Accepted
import TrinoCore.Envelope.Model
import TrinoCore.Envelope.RoundTrip
import TrinoCore.Lib.Overflow
import TrinoCore.Ratchet.Counters
import TrinoCore.Ratchet.Reloading
import TrinoCore.Ratchet.Lockstep
import TrinoCore.Lib.Deduction
import TrinoCore.Knowledge
import TrinoCore.Ratchet.Healing
import TrinoCore.X3dh.Secrecy
import TrinoCore.X3dh.Agreement
import TrinoCore.Lib.DirectSerde
import TrinoCore.Lib.JsonSize
import TrinoCore.Ratchet.Saved
import TrinoCore.Ratchet.Stored
import TrinoCore.Identity.Lifetime
import TrinoCore.Vault.Payload
import TrinoCore.Vault.PayloadSize
import TrinoCore.Vault.Tampering
import TrinoCore.Ratchet.LostMessages
import TrinoCore.Group.Client
import TrinoCore.Group.Contacts
import TrinoCore.X3dh.Network
import TrinoCore.X3dh.Wire
import TrinoCore.X3dh.FirstContact
import TrinoCore.X3dh.Impersonation
