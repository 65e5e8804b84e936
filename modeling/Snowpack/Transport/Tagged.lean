import Snowpack.Transport.Snow

/-!
# A concrete cipher state

A state that meets `TransportSpec` and can be run: a message is sent in the clear behind a tag of
sixteen bytes made of the key and the nonce. `opening dec` accepts what `dec` opens at the receive
key and nonce: for `transport` that is every message with the right tag, for `ledger book` only
those of a list that was fixed beforehand. It hides nothing; it has the lengths, the nonces and the
refusals of the real one.
-/

namespace Snowpack

open Wire

/-- A key and a counter for each direction. -/
structure TaggedState where
  sendKey : UInt8
  recvKey : UInt8
  sendNonce : Nat
  recvNonce : Nat
  deriving DecidableEq, Repr

namespace Tagged

/-- Sixteen bytes made of the key and the nonce. -/
def tag (k : UInt8) (n : Nat) : Bytes := k :: List.replicate 15 (UInt8.ofNat n)

/-- The message with the tag behind it. -/
def encrypt (k : UInt8) (n : Nat) (p : Bytes) : Bytes := p ++ tag k n

/-- The message in front of the right tag. -/
def decrypt (k : UInt8) (n : Nat) (c : Bytes) : Option Bytes :=
  if noiseTag ≤ c.length ∧ c.drop (c.length - noiseTag) = tag k n then
    some (c.take (c.length - noiseTag))
  else none

/-- The cipher state that opens what `dec` opens. -/
def opening (dec : UInt8 → Nat → Bytes → Option Bytes) : TransportOps TaggedState where
  writeMessage s p out :=
    if p.length + noiseTag ≤ maxNoiseMessage ∧ p.length + noiseTag ≤ out.length then
      ({ s with sendNonce := s.sendNonce + 1 }, blit out 0 (encrypt s.sendKey s.sendNonce p),
        .ok (p.length + noiseTag))
    else (s, out, .error .input)
  readMessage s c out :=
    match dec s.recvKey s.recvNonce c with
    | none => (s, out, .error .decrypt)
    | some p =>
      if c.length ≤ maxNoiseMessage ∧ p.length ≤ out.length then
        ({ s with recvNonce := s.recvNonce + 1 }, blit out 0 p, .ok p.length)
      else (s, out, .error .input)

/-- Every message with the right tag is opened. -/
def transport : TransportOps TaggedState := opening decrypt

theorem length_tag (k : UInt8) (n : Nat) : (tag k n).length = noiseTag := rfl

theorem length_encrypt (k : UInt8) (n : Nat) (p : Bytes) :
    (encrypt k n p).length = p.length + noiseTag := by
  rw [encrypt, List.length_append, length_tag]

theorem decrypt_encrypt (k : UInt8) (n : Nat) (p : Bytes) :
    decrypt k n (encrypt k n p) = some p := by
  have hl : (encrypt k n p).length - noiseTag = p.length := by
    rw [length_encrypt]
    omega
  have hle : noiseTag ≤ (encrypt k n p).length := by
    rw [length_encrypt]
    omega
  unfold decrypt
  rw [hl, if_pos ⟨hle, by rw [encrypt, List.drop_left]⟩, encrypt, List.take_left]

theorem length_of_decrypt {k : UInt8} {n : Nat} {c p : Bytes} (h : decrypt k n c = some p) :
    c.length = p.length + noiseTag := by
  unfold decrypt at h
  split at h
  · rename_i hc
    cases h
    rw [List.length_take]
    omega
  · cases h

/-- It meets the specification, if what it opens is a tag longer than the message. -/
def openingSpec (dec : UInt8 → Nat → Bytes → Option Bytes)
    (hdec : ∀ k n c p, dec k n c = some p → c.length = p.length + noiseTag) :
    TransportSpec (opening dec) where
  Key := UInt8
  sendKey := TaggedState.sendKey
  recvKey := TaggedState.recvKey
  sendNonce := TaggedState.sendNonce
  recvNonce := TaggedState.recvNonce
  encrypt := encrypt
  decrypt := dec
  length_encrypt := length_encrypt
  length_decrypt := hdec
  write_ok s p out h1 h2 :=
    ⟨{ s with sendNonce := s.sendNonce + 1 }, if_pos ⟨h1, h2⟩, rfl, rfl, rfl, rfl⟩
  read_ok s c out p h1 h2 h := by
    refine ⟨{ s with recvNonce := s.recvNonce + 1 }, ?_, rfl, rfl, rfl, rfl⟩
    simp only [opening, h, h1, h2, and_self, ↓reduceIte]
  read_fail s c out h := by
    refine ⟨s, out, .decrypt, ?_, rfl, rfl, rfl, rfl, rfl⟩
    simp only [opening, h]

/-- The specification of `transport`. -/
def spec : TransportSpec transport := openingSpec decrypt fun _ _ _ _ h => length_of_decrypt h

/-- Opens only the ciphertext of the `n`-th entry of `book` under the key. -/
def lookup (book : UInt8 → List Bytes) (k : UInt8) (n : Nat) (c : Bytes) : Option Bytes :=
  (book k)[n]?.filter fun p => c = encrypt k n p

theorem lookup_eq {book : UInt8 → List Bytes} {k : UInt8} {n : Nat} {c p : Bytes}
    (h : lookup book k n c = some p) : (book k)[n]? = some p ∧ c = encrypt k n p := by
  simpa [lookup, Option.filter_eq_some_iff] using h

/-- Only what is in the book is opened. -/
def ledger (book : UInt8 → List Bytes) : TransportOps TaggedState := opening (lookup book)

/-- The specification of `ledger`. -/
def ledgerSpec (book : UInt8 → List Bytes) : TransportSpec (ledger book) :=
  openingSpec (lookup book) fun k n c p h => by rw [(lookup_eq h).2, length_encrypt]

end Tagged

end Snowpack
