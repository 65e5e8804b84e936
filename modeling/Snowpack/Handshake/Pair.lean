import Snowpack.Handshake.Session
import Snowpack.Transport.Duplex

/-!
# A handshake between two nodes

The initiator (left) calls `connect`, the responder (right) calls `accept`, and a reliable ordered
stream joins them: what a side writes reaches the other in pieces of any size, and nothing else
does. A side that returned an error has dropped its stream, which the other side notices
once it has got everything that was written.

`XXSpec` is what is assumed of `snow` here: its three messages carry their payloads in order with
the overheads of the XX pattern, within the limit of a Noise message; each side is told the other's
public key; and the states they end in are joined, each sending with the key the other receives
with.
-/

namespace Snowpack

open Wire

/-! ## The XX exchange -/

section
variable {η σ : Type} (H : HandshakeOps η σ)

/-- A message from a writer in state `w` to a reader in state `r`: a payload that fits goes over,
with `overhead` bytes around it, and leaves the two in states with `Q`; one that does not is
refused by the writer. -/
structure Carries (overhead : Nat) (w r : η) (Q : η → η → Prop) : Prop where
  carry : ∀ p out : Bytes, overhead + p.length ≤ maxNoiseMessage →
    overhead + p.length ≤ out.length →
    ∃ w' c, c.length = overhead + p.length ∧
      H.writeMessage w p out = (w', blit out 0 c, .ok c.length) ∧
      ∀ out' : Bytes, p.length ≤ out'.length →
        ∃ r', H.readMessage r c out' = (r', blit out' 0 p, .ok p.length) ∧ Q w' r'
  refuse : ∀ p out : Bytes, maxNoiseMessage < overhead + p.length →
    ∃ w' out' e, H.writeMessage w p out = (w', out', .error e)

end

/-- Two transport states that are the ends of one connection. -/
structure Paired {σ : Type} {T : TransportOps σ} (S : TransportSpec T) (s t : σ) : Prop where
  sends : S.sendKey s = S.recvKey t
  receives : S.recvKey s = S.sendKey t
  sendNonce : S.sendNonce s = 0 ∧ S.sendNonce t = 0
  recvNonce : S.recvNonce s = 0 ∧ S.recvNonce t = 0

/-- Two states that run the XX pattern with each other. -/
structure XXSpec {η σ : Type} (H : HandshakeOps η σ) {T : TransportOps σ}
    (S : TransportSpec T) where
  pub : Bytes → TransportPublicKey
  /-- `e`, then `e, ee, s, es`, then `s, se`: 32 bytes a key in the clear, 16 more for an
  encrypted key, and 16 for an encrypted payload. -/
  exchange : ∀ a b sa sb : Bytes, a.length = 32 → b.length = 32 →
    ∃ i r, H.buildInitiator a sa = .ok i ∧ H.buildResponder b sb = .ok r ∧
      Carries H 32 i r fun i r =>
        Carries H (32 + 48 + 16) r i fun r i =>
          H.getRemoteStatic i = some (pub b).bytes ∧
          Carries H (48 + 16) i r fun i r =>
            H.getRemoteStatic r = some (pub a).bytes ∧
            ∃ s t, H.intoTransportMode i = .ok s ∧ H.intoTransportMode r = .ok t ∧ Paired S s t

/-! ## The two nodes -/

/-- What a node brings to a handshake. -/
structure Node (E : Ed25519) where
  localPrivate : Bytes
  length_private : localPrivate.length = 32
  seed : Bytes
  localAuthHeader : Bytes
  verificationKey : E.VerifyingKey

namespace Session

variable {η σ : Type} {E : Ed25519}

theorem onStream_write (s : Session η σ E) (f : HandshakeContext η → HandshakeContext η)
    (hf : ∀ hs, (f hs).write = hs.write) :
    (s.onStream f).stage.context.write = s.stage.context.write := by
  unfold onStream
  cases s.stage with
  | message1 hs => exact hf hs
  | message2 hs => exact hf hs
  | message3 hs => exact hf hs
  | returned hs res => rfl

theorem arrive_nil (s : Session η σ E) : s.arrive [] = s := by
  obtain ⟨header, vk, st, auth⟩ := s
  simp only [arrive, onStream, List.append_nil]
  cases st <;> rfl

end Session

instance {η σ : Type} {E : Ed25519} : StreamEnd (Session η σ E) where
  written s := s.stage.context.write.written
  arrive := Session.arrive
  written_arrive s _ := congrArg WriteHalf.written (s.onStream_write _ fun _ => rfl)
  arrive_nil := Session.arrive_nil

/-- The two calls of a handshake. -/
abbrev Pair (η σ : Type) (E : Ed25519) := Ends (Session η σ E)

/-- A step of a handshake. -/
inductive PairAct
  | poll (x : Side)
  /-- up to `n` more bytes written by `x` arrive -/
  | deliver (x : Side) (n : Nat)
  /-- the end of the stream of `x` arrives, if `x` has dropped it -/
  | hangUp (x : Side)

namespace Pair

variable {η σ : Type} (H : HandshakeOps η σ) {E : Ed25519} (Y : Yatlv)

/-- Two calls at the ends of a stream on which nothing was sent. -/
def join (s t : Session η σ E) : Pair η σ E where
  at_ := Side.both s t
  moved _ := 0

/-- The initiator calls `connect` and the responder `accept`. -/
def start (i r : Node E) : Except ConnectionError (Pair η σ E) :=
  match Session.connect H ⟨[], false⟩ ⟨[], false⟩ i.localPrivate i.seed i.localAuthHeader
      i.verificationKey,
    Session.accept H ⟨[], false⟩ ⟨[], false⟩ r.localPrivate r.seed r.localAuthHeader
      r.verificationKey with
  | .ok s, .ok t => .ok (join s t)
  | .error e, _ => .error e
  | _, .error e => .error e

/-- The call of `x` has returned an error, and the stream went with it. -/
def dropped (p : Pair η σ E) (x : Side) : Bool :=
  match (p.at_ x).stage.result with
  | some (.error _) => true
  | _ => false

/-- What an action does. -/
def step (p : Pair η σ E) : PairAct → Pair η σ E
  | .poll x => p.set x ((p.at_ x).poll H Y)
  | .deliver x n => p.deliver x n
  | .hangUp x =>
    if p.dropped x ∧ p.inFlight x = [] then
      p.set x.other ((p.at_ x.other).onStream fun hs =>
        { hs with read := { hs.read with eof := true } })
    else p

theorem written_eq (p : Pair η σ E) (x : Side) :
    p.written x = (p.at_ x).stage.context.write.written := rfl

end Pair

end Snowpack
