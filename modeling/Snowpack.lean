import Snowpack.Lib.Run
import Snowpack.Lib.Stream
import Snowpack.Packet.Proof.Grammar
import Snowpack.Packet.Proof.Lockstep
import Snowpack.Auth.Header
import Snowpack.Transport.Packets
import Snowpack.Transport.Receiver
import Snowpack.Transport.Proof.Receive
import Snowpack.Transport.Proof.NoPanic
import Snowpack.Transport.Proof.Whole
import Snowpack.Transport.Proof.Link
import Snowpack.Transport.Proof.Sending
import Snowpack.Transport.Loop
import Snowpack.Transport.Proof.Position
import Snowpack.Transport.Duplex
import Snowpack.Transport.Proof.Delivery
import Snowpack.Transport.Proof.EndToEnd
import Snowpack.Transport.Proof.Abort
import Snowpack.Handshake.Context
import Snowpack.Handshake.Session
import Snowpack.Handshake.Proof.Authentic
import Snowpack.Handshake.Pair
import Snowpack.Handshake.Proof.Exchange
import Snowpack.Handshake.Proof.Outcome
import Snowpack.Handshake.Plain
import Snowpack.Transport.Proof.Tamper
import Snowpack.Lib.Lock
import Snowpack.Pool.Link
import Snowpack.Pool.Proof.OneTask
import Snowpack.Pool.History
import Snowpack.Pool.Proof.Handover
import Snowpack.Pool.Connections
import Snowpack.Pool.Proof.Routing
import Snowpack.Pool.Proof.Wakeup
import Snowpack.Lib.Source
import Snowpack.Lib.Turns
import Snowpack.Transport.SendReader
import Snowpack.Transport.Proof.Streaming
import Snowpack.Transport.Proof.Sizes
import Snowpack.Transport.Body
import Snowpack.Transport.Proof.Iterate
import Snowpack.Transport.Proof.Buffers
import Snowpack.Auth.Proof.Credential
import Snowpack.Lib.Refusal
import Snowpack.Packet.Proof.Refused
import Snowpack.System.Life
import Snowpack.System.Proof.Life
import Snowpack.Transport.Proof.Hearing
import Snowpack.Transport.Proof.Story
import Snowpack.Transport.Bytewise
import Snowpack.Transport.Proof.Bytewise
import Snowpack.Transport.Proof.Backpressure
import Snowpack.Transport.Hostile
import Snowpack.Transport.Proof.Hostile
import Snowpack.Pool.Proof.Recovery
import Snowpack.Pool.Channel
import Snowpack.Pool.Proof.Channel
import Snowpack.Auth.Storage
import Snowpack.Lib.Hex
import Snowpack.System.Proof.Provision
import Snowpack.Handshake.Proof.Disclosure
