import Snowpack.Transport.Messages

/-!
# A program that sends

`Sender` works through a list of calls, one packet at a time, so that the steps of the two sides
and the two directions can be interleaved: a `send` has prepared its message and has the chunks in
`current` left to send. `step` makes the same calls as `MessageTx.sendMessage` does in one go
(`sendMessage_eq`).
-/

namespace Snowpack

open Wire

/-- A `send_message`, or one of the calls it is made of. -/
inductive TxOp
  | send (msgType : UInt16) (payload : Bytes)
  | prepare (msgType : UInt16)
  | packet (payload : Bytes) (last : Bool)
  | abort
  deriving DecidableEq, Repr

/-- The slices `send_slice` sends: an empty payload is one empty packet. -/
def slices (payload : Bytes) : List Bytes :=
  match chunks maxPacketSize payload with
  | [] => [[]]
  | cs => cs

/-- A sender with the operations it has to make, the slices of the one it is in, and the results. -/
structure Sender where
  tx : PacketTx
  todo : List TxOp
  current : List Bytes
  results : List (Res Unit)
  deriving DecidableEq, Repr

namespace Sender

/-- Before the first operation. -/
def new (tx : PacketTx) (ops : List TxOp) : Sender :=
  { tx, todo := ops, current := [], results := [] }

/-- A call returned. -/
def finish (d : Sender) (tx : PacketTx) (r : Res Unit) : Sender :=
  { d with tx, current := [], results := d.results ++ [r] }

variable {σ : Type} (T : TransportOps σ)

/-- The next packet, or the next call up to its first packet. -/
def step (d : Sender) (s : σ) : Sender × σ :=
  match d.current with
  | c :: cs =>
    match d.tx.sendPacket T s c cs.isEmpty with
    | (.error f, tx, s) => (d.finish tx (.error f), s)
    | (.ok (), tx, s) =>
      if cs.isEmpty then (d.finish tx (.ok ()), s) else ({ d with tx, current := cs }, s)
  | [] =>
    match d.todo with
    | [] => (d, s)
    | .send t p :: rest =>
      match d.tx.prepareMessage t with
      | (.error f, tx) => ({ d with todo := rest }.finish tx (.error f), s)
      | (.ok (), tx) => ({ d with tx, todo := rest, current := slices p }, s)
    | .prepare t :: rest =>
      match d.tx.prepareMessage t with
      | (r, tx) => ({ d with todo := rest }.finish tx r, s)
    | .packet c last :: rest =>
      match d.tx.sendPacket T s c last with
      | (r, tx, s) => ({ d with todo := rest }.finish tx r, s)
    | .abort :: rest =>
      match d.tx.abortMessage T s with
      | (r, tx, s) => ({ d with todo := rest }.finish tx r, s)

/-- The steps that are left of the call in progress. -/
def drain (d : Sender) (s : σ) : Nat → Sender × σ
  | 0 => (d, s)
  | n + 1 =>
    match d.current with
    | [] => (d, s)
    | _ :: _ => drain (d.step T s).1 (d.step T s).2 n

variable {T}

theorem slices_ne_nil (p : Bytes) : slices p ≠ [] := by
  unfold slices
  split
  · simp
  · assumption

theorem sendSlice_eq (tx : PacketTx) (s : σ) (p : Bytes) :
    tx.sendSlice T s p true = tx.sendChunks T s true (slices p) := by
  unfold PacketTx.sendSlice slices
  cases chunks maxPacketSize p with
  | nil =>
    simp only [PacketTx.sendChunks, List.isEmpty_nil, Bool.and_self]
    rcases tx.sendPacket T s [] true with ⟨r, tx', s'⟩
    cases r <;> rfl
  | cons c cs => rfl

/-- Draining the chunks is the loop of `send_slice`. -/
theorem drain_eq : ∀ (cs : List Bytes) (d : Sender) (s : σ) (n : Nat), d.current = cs → cs ≠ [] →
    cs.length ≤ n →
    d.drain T s n =
      (d.finish (d.tx.sendChunks T s true cs).2.1 (d.tx.sendChunks T s true cs).1,
        (d.tx.sendChunks T s true cs).2.2)
  | [], _, _, _, _, hne, _ => absurd rfl hne
  | c :: cs, d, s, n + 1, hc, _, hn => by
    simp only [drain, hc, step, PacketTx.sendChunks, Bool.and_true]
    rcases hsend : d.tx.sendPacket T s c cs.isEmpty with ⟨r, tx, s'⟩
    cases r with
    | error f => cases n <;> rfl
    | ok u =>
      cases cs with
      | nil => cases n <;> rfl
      | cons c' cs =>
        simp only [List.isEmpty_cons, Bool.false_eq_true, ↓reduceIte]
        rw [drain_eq (c' :: cs) { d with tx, current := c' :: cs } s' n rfl (by simp)
          (by simpa using hn)]
        rfl

/-- The steps of a `send` are one `sendMessage`: same packets, same result, same state. -/
theorem sendMessage_eq (d : Sender) (s : σ) (t : UInt16) (p : Bytes) (rest : List TxOp)
    (hc : d.current = []) (ht : d.todo = .send t p :: rest) :
    (d.step T s).1.drain T (d.step T s).2 (slices p).length =
      ({ d with todo := rest }.finish ((MessageTx.mk d.tx).sendMessage T s t p).2.1.packets
          ((MessageTx.mk d.tx).sendMessage T s t p).1,
        ((MessageTx.mk d.tx).sendMessage T s t p).2.2) := by
  simp only [step, hc, ht, MessageTx.sendMessage]
  rcases hp : d.tx.prepareMessage t with ⟨r, tx⟩
  cases r with
  | error f =>
    simp only
    cases hl : (slices p).length <;> rfl
  | ok u =>
    simp only
    rw [drain_eq (slices p) _ s _ rfl (slices_ne_nil p) (Nat.le_refl _), sendSlice_eq]
    rfl

end Sender

end Snowpack
