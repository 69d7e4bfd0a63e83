import ZeroNat.Lib.BigEndian
import ZeroNat.Lib.Cursor
import ZeroNat.Lib.Table
import ZeroNat.Lib.Run
import ZeroNat.Lib.Checked
import ZeroNat.Lib.Pool
import ZeroNat.Lib.Queue
import ZeroNat.Net
import ZeroNat.Proto.Wire
import ZeroNat.Server.Admission
import ZeroNat.Server.Echo
import ZeroNat.Server.Opens
import ZeroNat.Server.Parking
import ZeroNat.Server.Rendezvous
import ZeroNat.Server.Broker
import ZeroNat.Server.Routes
import ZeroNat.Server.State
import ZeroNat.Proto.Msg
import ZeroNat.Proto.Range
import ZeroNat.Proto.Codec
import ZeroNat.Proto.Canonical
import ZeroNat.Proto.Truncation
import ZeroNat.Bridge.Switch
import ZeroNat.Bridge.Learning
import ZeroNat.Bridge.TunSlot
import ZeroNat.Noise.Cipher
import ZeroNat.Noise.Stateless
import ZeroNat.Noise.Stream
import ZeroNat.Kcp.Stream
import ZeroNat.Kcp.Session
import ZeroNat.Dgram.Channel
import ZeroNat.Dgram.Link
import ZeroNat.Noise.Xx
import ZeroNat.Noise.Symbolic
import ZeroNat.Peer.Handshake
import ZeroNat.Peer.Exchange
import ZeroNat.Peer.Loss
import ZeroNat.Peer.Nomination
import ZeroNat.Peer.Punch
import ZeroNat.Peer.Relay
import ZeroNat.Peer.Slots
import ZeroNat.Peer.Knowledge
import ZeroNat.Peer.Authentic
import ZeroNat.Pppoe.Session
import ZeroNat.Pppoe.Discovery
import ZeroNat.Pppoe.Dialog
import ZeroNat.Pppoe.Ppp.Wire
import ZeroNat.Pppoe.Ppp.OptionFsm
import ZeroNat.Pppoe.Ppp.Negotiation
import ZeroNat.Pppoe.Ppp.Protocols
import ZeroNat.Pppoe.Ppp.Acknowledged
import ZeroNat.Pppoe.Ppp.Requests
import ZeroNat.Pppoe.Ppp.Link
import ZeroNat.Pppoe.Ppp.Phases
import ZeroNat.Pppoe.Ppp.Parameters
import ZeroNat.Pppoe.Engine
import ZeroNat.Pppoe.Datapath
import ZeroNat.Pppoe.Operation
import ZeroNat.Pppoe.Isolation
import ZeroNat.Pppoe.Release
import ZeroNat.Pppoe.Silence
import ZeroNat.Pppoe.Ppp.Addresses
import ZeroNat.Pppoe.Lease
import ZeroNat.Pppoe.Checked
import ZeroNat.Pppoe.Ppp.Emission
import ZeroNat.Pppoe.Ppp.Checked
import ZeroNat.Pppoe.Ppp.Bounds
import ZeroNat.Pppoe.Safety
import ZeroNat.Config.Document
import ZeroNat.Config.Lexer
import ZeroNat.Config.Records
import ZeroNat.Config.Render
import ZeroNat.Config.Server
import ZeroNat.Config.Client
import ZeroNat.Config.Restored
import ZeroNat.Config.Tables
import ZeroNat.Client.Message
import ZeroNat.Client.Codec
import ZeroNat.Hash
import ZeroNat.Secret
import ZeroNat.Server.Clients
import ZeroNat.Server.Hello
import ZeroNat.Server.Ledger
import ZeroNat.Server.Bookings
import ZeroNat.Server.Entries
import ZeroNat.Server.Brokered
import ZeroNat.Server.Saves
import ZeroNat.Server.Edits
import ZeroNat.Server.Revocation
import ZeroNat.Lib.Checksum
import ZeroNat.Lib.Layout
import ZeroNat.Lib.Nearest
import ZeroNat.Pppoe.Clamp
import ZeroNat.Hash.Standard
import ZeroNat.Hash.Streaming
import ZeroNat.Hash.Agreement
import ZeroNat.Pppoe.Ppp.Budget
import ZeroNat.Pppoe.Ppp.Malformed
import ZeroNat.Bridge.Delivery
import ZeroNat.Noise.Nn
import ZeroNat.Dht.Bencode
import ZeroNat.Dht.Node
import ZeroNat.Dht.Gathered
import ZeroNat.Dht.Discipline
import ZeroNat.Dht.Counting
import ZeroNat.Dht.Publish
import ZeroNat.Lib.Search
import ZeroNat.Dht.Dictionary
import ZeroNat.Dht.Grammar
import ZeroNat.Dht.Delimited
import ZeroNat.Release.Manifest
import ZeroNat.Release.Spelling
import ZeroNat.Noise.Framed
import ZeroNat.Uplink.Table
import ZeroNat.Uplink.Pins
import ZeroNat.Uplink.Lookup
import ZeroNat.Uplink.Exit
import ZeroNat.Uplink.Undone
import ZeroNat.Proxy.Selector
import ZeroNat.Proxy.Http
import ZeroNat.Proxy.Rewritten
import ZeroNat.Lib.Positions
import ZeroNat.Netfilter.Rules
import ZeroNat.Netfilter.Teardown
import ZeroNat.Netfilter.Install
import ZeroNat.Pppoe.Netcfg
import ZeroNat.Pppoe.Reverted
import ZeroNat.Upgrade.Docker
import ZeroNat.Upgrade.Recreated
import ZeroNat.Pppoe.Redial
import ZeroNat.Pppoe.Pacing
import ZeroNat.Netstack.Service
import ZeroNat.Netstack.Streams
import ZeroNat.Server.Endings
import ZeroNat.Server.Isolation
import ZeroNat.Client.Shared
import ZeroNat.Client.Slots
import ZeroNat.Client.Switching
import ZeroNat.Client.Boot
import ZeroNat.Client.Control
import ZeroNat.Client.Accepted
import ZeroNat.Client.Mirrored
import ZeroNat.Client.Valid
import ZeroNat.Client.Booted
import ZeroNat.Client.Persisted
import ZeroNat.Client.Restart
import ZeroNat.Server.Reorder
import ZeroNat.Server.Desk
import ZeroNat.Server.Settled
import ZeroNat.Peer.Settling
