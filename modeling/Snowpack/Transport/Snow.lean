import Snowpack.Lib.Stream

/-!
# The cipher state of a connection, as the transport sees it

`snow::TransportState` is not part of the repository. `TransportOps` is the two calls made to it;
both halves of a connection make them on one shared state, so the state is passed explicitly.

`TransportSpec` is what they are documented to do: a nonce for each direction, sixteen bytes added
to a message that fits, and a ciphertext that does not open refused without moving a nonce. What
becomes of a message that does not fit is not part of it: the transport never writes one. Nor is
whether a ciphertext of the peer decrypts, or one the peer did not make is refused: these are
hypotheses of the results that need them.
-/

namespace Snowpack

open Wire

/-- Why a call of `snow` fails. -/
inductive SnowError
  | input
  | decrypt
  | state
  deriving DecidableEq, Repr

/-- `write_message` and `read_message` of the transport state. A call is given the message and the
output buffer, and returns the state, the buffer and the number of bytes written to it. -/
structure TransportOps (σ : Type) where
  writeMessage : σ → Bytes → Bytes → σ × Bytes × Except SnowError Nat
  readMessage : σ → Bytes → Bytes → σ × Bytes × Except SnowError Nat

/-- The size limit of a Noise message. -/
def maxNoiseMessage : Nat := 65535

/-- The bytes of an authentication tag. -/
def noiseTag : Nat := 16

/-- A state seen as two directions with a key and a counter each. -/
structure TransportSpec {σ : Type} (T : TransportOps σ) where
  Key : Type
  sendKey : σ → Key
  recvKey : σ → Key
  sendNonce : σ → Nat
  recvNonce : σ → Nat
  encrypt : Key → Nat → Bytes → Bytes
  decrypt : Key → Nat → Bytes → Option Bytes
  length_encrypt : ∀ k n p, (encrypt k n p).length = p.length + noiseTag
  length_decrypt : ∀ k n c p, decrypt k n c = some p → c.length = p.length + noiseTag
  /-- A plaintext that fits is encrypted into the front of the buffer. -/
  write_ok : ∀ s p out, p.length + noiseTag ≤ maxNoiseMessage → p.length + noiseTag ≤ out.length →
    ∃ s', T.writeMessage s p out =
        (s', blit out 0 (encrypt (sendKey s) (sendNonce s) p), .ok (p.length + noiseTag)) ∧
      sendKey s' = sendKey s ∧ recvKey s' = recvKey s ∧
      sendNonce s' = sendNonce s + 1 ∧ recvNonce s' = recvNonce s
  /-- A ciphertext that opens at the receive nonce is written to the front of the buffer. -/
  read_ok : ∀ s c out p, c.length ≤ maxNoiseMessage → p.length ≤ out.length →
    decrypt (recvKey s) (recvNonce s) c = some p →
    ∃ s', T.readMessage s c out = (s', blit out 0 p, .ok p.length) ∧
      sendKey s' = sendKey s ∧ recvKey s' = recvKey s ∧
      sendNonce s' = sendNonce s ∧ recvNonce s' = recvNonce s + 1
  /-- One that does not open is refused; what the buffer then holds is not said. -/
  read_fail : ∀ s c out, decrypt (recvKey s) (recvNonce s) c = none →
    ∃ s' out' e, T.readMessage s c out = (s', out', .error e) ∧ out'.length = out.length ∧
      sendKey s' = sendKey s ∧ recvKey s' = recvKey s ∧
      sendNonce s' = sendNonce s ∧ recvNonce s' = recvNonce s

end Snowpack
