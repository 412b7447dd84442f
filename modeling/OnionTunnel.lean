import OnionTunnel.Address
import OnionTunnel.Address.Text
import OnionTunnel.Bytes
import OnionTunnel.Bytes.Hex
import OnionTunnel.Bytes.Reader
import OnionTunnel.Cipher.Aes
import OnionTunnel.Cipher.Error
import OnionTunnel.Cipher.Feedback
import OnionTunnel.Cipher.Hmac
import OnionTunnel.Cipher.Sealed
import OnionTunnel.Cipher.Sha256
import OnionTunnel.CommandLine.Command
import OnionTunnel.CommandLine.Directory
import OnionTunnel.CommandLine.Form
import OnionTunnel.CommandLine.Help
import OnionTunnel.CommandLine.Mistake
import OnionTunnel.CommandLine.Reading
import OnionTunnel.CommandLine.Run
import OnionTunnel.CommandLine.Script
import OnionTunnel.CommandLine.Value
import OnionTunnel.Der
import OnionTunnel.Duration
import OnionTunnel.Hostkey
import OnionTunnel.Hostkey.File
import OnionTunnel.Hostkey.Keypair
import OnionTunnel.Hostkey.Private
import OnionTunnel.IdPool
import OnionTunnel.Identity
import OnionTunnel.Main
import OnionTunnel.Message.Basic
import OnionTunnel.Message.Embedded
import OnionTunnel.Message.Error
import OnionTunnel.Message.Frame
import OnionTunnel.Message.Kind
import OnionTunnel.Network.Basic
import OnionTunnel.Network.Responder
import OnionTunnel.Network.Timed
import OnionTunnel.Node.Basic
import OnionTunnel.Node.Hop
import OnionTunnel.Node.Owner
import OnionTunnel.Node.Peers
import OnionTunnel.Node.Program
import OnionTunnel.Node.Service
import OnionTunnel.Node.Sessions
import OnionTunnel.PeerDirectory
import OnionTunnel.Proofs.Address.Canonical
import OnionTunnel.Proofs.Bytes.Hex
import OnionTunnel.Proofs.Bytes.Numbers
import OnionTunnel.Proofs.Bytes.Reading
import OnionTunnel.Proofs.Bytes.Text
import OnionTunnel.Proofs.Cipher.Acceptance
import OnionTunnel.Proofs.Cipher.Feedback
import OnionTunnel.Proofs.Cipher.Inversion
import OnionTunnel.Proofs.Cipher.Sealed
import OnionTunnel.Proofs.Der
import OnionTunnel.Proofs.Hostkey.Canonical
import OnionTunnel.Proofs.Hostkey.Files
import OnionTunnel.Proofs.Hostkey.Reloading
import OnionTunnel.Proofs.IdPool.Draws
import OnionTunnel.Proofs.Identity
import OnionTunnel.Proofs.Message.Grammar
import OnionTunnel.Proofs.Message.Layout
import OnionTunnel.Proofs.Message.Overruns
import OnionTunnel.Proofs.Message.RoundTrip
import OnionTunnel.Proofs.Network.AtOnce
import OnionTunnel.Proofs.Network.Balance
import OnionTunnel.Proofs.Network.Books
import OnionTunnel.Proofs.Network.Capacity
import OnionTunnel.Proofs.Network.Chains
import OnionTunnel.Proofs.Network.Exchange
import OnionTunnel.Proofs.Network.Growth
import OnionTunnel.Proofs.Network.Honest
import OnionTunnel.Proofs.Network.Ledger
import OnionTunnel.Proofs.Network.Loopback
import OnionTunnel.Proofs.Network.Medium
import OnionTunnel.Proofs.Network.Responders
import OnionTunnel.Proofs.Network.Routes
import OnionTunnel.Proofs.Network.Runs
import OnionTunnel.Proofs.Network.Services
import OnionTunnel.Proofs.Network.Strands
import OnionTunnel.Proofs.Network.Termination
import OnionTunnel.Proofs.Network.Transports
import OnionTunnel.Proofs.Node.Addresses
import OnionTunnel.Proofs.Node.Alone
import OnionTunnel.Proofs.Node.Building
import OnionTunnel.Proofs.Node.Cells
import OnionTunnel.Proofs.Node.Chains
import OnionTunnel.Proofs.Node.Contacts
import OnionTunnel.Proofs.Node.Dialling
import OnionTunnel.Proofs.Node.FailedCells
import OnionTunnel.Proofs.Node.Handshakes
import OnionTunnel.Proofs.Node.Links
import OnionTunnel.Proofs.Node.Neighbours
import OnionTunnel.Proofs.Node.Opening
import OnionTunnel.Proofs.Node.Orphans
import OnionTunnel.Proofs.Node.Owing
import OnionTunnel.Proofs.Node.OwnSessions
import OnionTunnel.Proofs.Node.Payloads
import OnionTunnel.Proofs.Node.Relaying
import OnionTunnel.Proofs.Node.Releasing
import OnionTunnel.Proofs.Node.Replies
import OnionTunnel.Proofs.Node.Requests
import OnionTunnel.Proofs.Node.Retaining
import OnionTunnel.Proofs.Node.Rollback
import OnionTunnel.Proofs.Node.Sessions
import OnionTunnel.Proofs.Node.Stakes
import OnionTunnel.Proofs.Node.Stays
import OnionTunnel.Proofs.Node.Strays
import OnionTunnel.Proofs.Node.Success
import OnionTunnel.Proofs.Node.Taking
import OnionTunnel.Proofs.Node.Tasks
import OnionTunnel.Proofs.Node.Tending
import OnionTunnel.Proofs.Node.Tunnels
import OnionTunnel.Proofs.Node.Within
import OnionTunnel.Proofs.PeerDirectory
import OnionTunnel.Proofs.Rsa.Inversion
import OnionTunnel.Proofs.Rsa.Transport
import OnionTunnel.Proofs.Session.Agreement
import OnionTunnel.Proofs.Session.Bindings
import OnionTunnel.Proofs.Session.Declined
import OnionTunnel.Proofs.Session.Footprint
import OnionTunnel.Proofs.Session.Growth
import OnionTunnel.Proofs.Session.Idleness
import OnionTunnel.Proofs.Session.Interleaving
import OnionTunnel.Proofs.Session.LayerFaults
import OnionTunnel.Proofs.Session.Layering
import OnionTunnel.Proofs.Session.Layers
import OnionTunnel.Proofs.Session.Lifecycle
import OnionTunnel.Proofs.Session.Lookups
import OnionTunnel.Proofs.Session.Outcome
import OnionTunnel.Proofs.Session.Provenance
import OnionTunnel.Proofs.Session.Registry
import OnionTunnel.Proofs.Session.Service
import OnionTunnel.Proofs.Stream.Framing
import OnionTunnel.Proofs.Stream.Serving
import OnionTunnel.Proofs.Table
import OnionTunnel.Proofs.Text.Base64
import OnionTunnel.Proofs.Text.Pem
import OnionTunnel.Proofs.Tunnel.Table
import OnionTunnel.Rsa
import OnionTunnel.Rsa.Generate
import OnionTunnel.Rsa.Modular
import OnionTunnel.Rsa.Transport
import OnionTunnel.Session.Error
import OnionTunnel.Session.Handshake
import OnionTunnel.Session.Layers
import OnionTunnel.Session.Registry
import OnionTunnel.Session.Service
import OnionTunnel.Settings
import OnionTunnel.Stream
import OnionTunnel.Stream.Client
import OnionTunnel.Stream.Connection
import OnionTunnel.Table
import OnionTunnel.Tape
import OnionTunnel.Text.Base64
import OnionTunnel.Text.Likeness
import OnionTunnel.Text.Parse
import OnionTunnel.Text.Pem
import OnionTunnel.Toml
import OnionTunnel.Toml.Document
import OnionTunnel.Toml.Layout
import OnionTunnel.Toml.Quoted
import OnionTunnel.Toml.Scalar
import OnionTunnel.Toml.Statement
import OnionTunnel.Toml.Tree
import OnionTunnel.Tunnel.Error
import OnionTunnel.Tunnel.Link
import OnionTunnel.Tunnel.Rules
import OnionTunnel.Tunnel.Sink
import OnionTunnel.Tunnel.Table
