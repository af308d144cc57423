import GhostCrypt.Core.Kdf
import GhostCrypt.Core.Aead
import GhostCrypt.Identity.Keys
import GhostCrypt.Lib.Run
import GhostCrypt.X3dh
import GhostCrypt.X3dh.Server
import GhostCrypt.X3dh.Binding
import GhostCrypt.Ratchet.Header
import GhostCrypt.Ratchet.Skip
import GhostCrypt.Ratchet.Stored
import GhostCrypt.Ratchet.Bound
import GhostCrypt.Ratchet.Atomic
import GhostCrypt.Ratchet.Ladder
import GhostCrypt.Ratchet.History
import GhostCrypt.Ratchet.ForwardSecrecy
import GhostCrypt.Ratchet.Agreement
import GhostCrypt.Ratchet.Seat
import GhostCrypt.Ratchet.Exchange
import GhostCrypt.Ratchet.Synced
import GhostCrypt.Ratchet.Delivery
import GhostCrypt.Ratchet.Healing
import GhostCrypt.Ratchet.Confluence
import GhostCrypt.Ratchet.Numbering
import GhostCrypt.Ratchet.Panic
import GhostCrypt.Lib.Counted
import GhostCrypt.Ratchet.Work
import GhostCrypt.Api.Helpers
import GhostCrypt.Api.Aes
import GhostCrypt.Api.Sessions
import GhostCrypt.Api.Isolation
import GhostCrypt.Api.X3dh
import GhostCrypt.Api.Generations
import GhostCrypt.Lib.Lineage
import GhostCrypt.Lib.Handles
import GhostCrypt.Api.Handles
import GhostCrypt.Mls.Members
import GhostCrypt.Mls.Reference
import GhostCrypt.Mls.Blobs
import GhostCrypt.Mls.Saved
import GhostCrypt.Mls.Messages
import GhostCrypt.Pqc.HybridKem
import GhostCrypt.Lib.Json
import GhostCrypt.Wasm.Decoding
import GhostCrypt.Ratchet.Limit
import GhostCrypt.Lib.Kinds
import GhostCrypt.Wasm.Instance
import GhostCrypt.Wasm.Groups
import GhostCrypt.Wasm.Calls
import GhostCrypt.Wasm.Kinds
import GhostCrypt.Wasm.Borrow
import GhostCrypt.Network.Refinement
import GhostCrypt.Network.Surfaces
import GhostCrypt.Network.Delivery
import GhostCrypt.Wasm.Extends
import GhostCrypt.Api.Keys
import GhostCrypt.Network.Handshake
import GhostCrypt.Network.Keys
import GhostCrypt.Network.Sessions
import GhostCrypt.Lib.Lists
import GhostCrypt.Lib.Versions
import GhostCrypt.Mls.Live
import GhostCrypt.Api.Keeper
import GhostCrypt.Network.Groups
import GhostCrypt.Lib.Races
import GhostCrypt.Api.Races
