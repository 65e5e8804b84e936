import Snowpack.Lib.Bytes

/-!
# The packet state machines (`src/packet_state.rs`)

A message is cut into packets: two header bytes (a 4-bit kind, a 12-bit message type) and a
payload. `PacketBuilder` is the sender's machine (which kind the next packet has, and whether one
may be built at all), `PacketReader` the receiver's (which packet may come next). Both are plain
state machines over byte strings: a call returns its result and the new state, and a call that
fails returns the error and the state it leaves behind.
-/

namespace Snowpack

open Wire

/-! ## Sizes -/

/-- Length prefix of a frame. -/
def frameHeaderSize : Nat := 2
/-- Largest ciphertext of a frame: what a 16-bit length prefix can say. -/
def maxCiphertextSize : Nat := 0xFFFF
/-- Authentication tag of a Noise message. -/
def cipherOverheadSize : Nat := 16
/-- Largest plaintext of a packet, header included. -/
def maxRawPacketSize : Nat := maxCiphertextSize - cipherOverheadSize
/-- Largest payload of a packet. -/
def maxPacketSize : Nat := maxRawPacketSize - 2

/-! ## The header -/

/-- Where the kind is in a header. -/
def kindShift : UInt16 := 12
/-- The bits of the kind. -/
def kindMask : UInt16 := 0xF000
/-- The bits of the type, and so the largest type. -/
def typeMask : UInt16 := 0x0FFF

/-- The role of a packet in its message. -/
inductive PacketKind
  | sole | first | mid | last | abort
  deriving DecidableEq, Repr

namespace PacketKind

/-- `kind as u16` (`#[repr(u8)]` with explicit discriminants). -/
def toU16 : PacketKind → UInt16
  | sole => 0
  | first => 1
  | mid => 2
  | last => 3
  | abort => 4

end PacketKind

/-- What `PacketReader.read` rejects. -/
inductive PacketReadError
  | packetTooShort
  | unknownKind (v : UInt8)
  | unexpectedMessageStart (from_ to_ : UInt16)
  | missingMessageStart (msgType : UInt16)
  | messageTypeChange (from_ to_ : UInt16)
  deriving DecidableEq, Repr

/-- The kind with this number. -/
def PacketKind.fromU8 (v : UInt8) : Except PacketReadError PacketKind :=
  match v with
  | 0 => .ok .sole
  | 1 => .ok .first
  | 2 => .ok .mid
  | 3 => .ok .last
  | 4 => .ok .abort
  | _ => .error (.unknownKind v)

/-- A decoded header. -/
structure PacketHeader where
  kind : PacketKind
  msgType : UInt16
  deriving DecidableEq, Repr

/-! ## The builder -/

/-- What a `PacketBuilder` rejects. -/
inductive PacketBuildError
  | messageAlreadyInProgress
  | noMessageInProgress
  | messageTypeTooLarge (t : UInt16)
  deriving DecidableEq, Repr

/-- The sender's side of the protocol; `buf` is the packet that was built last. -/
structure PacketBuilder where
  inProgress : Bool
  isFirst : Bool
  msgType : UInt16
  buf : Bytes
  deriving DecidableEq, Repr

namespace PacketBuilder

/-- No message is in progress. -/
def new : PacketBuilder := { inProgress := false, isFirst := false, msgType := 0, buf := [] }

/-- Begin a message of type `msgType`. -/
def prepare (b : PacketBuilder) (msgType : UInt16) : Except PacketBuildError Unit × PacketBuilder :=
  if msgType > typeMask then (.error (.messageTypeTooLarge msgType), b)
  else if b.inProgress then (.error .messageAlreadyInProgress, b)
  else (.ok (), { b with inProgress := true, isFirst := true, msgType })

/-- The kind of the next packet. -/
def nextKind (isFirst last : Bool) : PacketKind :=
  match isFirst, last with
  | true, true => .sole
  | true, false => .first
  | false, false => .mid
  | false, true => .last

/-- The two header bytes. -/
def header (kind : PacketKind) (msgType : UInt16) : Bytes :=
  toBe (kind.toU16 <<< kindShift ||| msgType)

/-- Build the packet of a chunk; `last` ends the message. -/
def pack (b : PacketBuilder) (payload : Bytes) (last : Bool) :
    Except PacketBuildError Bytes × PacketBuilder :=
  if !b.inProgress then (.error .noMessageInProgress, b)
  else
    let buf := header (nextKind b.isFirst last) b.msgType ++ payload
    (.ok buf, { b with isFirst := false, inProgress := !last, buf })

/-- Build the abort packet of the message in progress; `none` when there is none. -/
def abort (b : PacketBuilder) : Option Bytes × PacketBuilder :=
  if !b.inProgress then (none, b)
  else
    let buf := header .abort b.msgType
    (some buf, { b with inProgress := false, isFirst := true, buf })

end PacketBuilder

/-! ## The reader -/

/-- The receiver's side of the protocol. -/
structure PacketReader where
  inProgress : Bool
  msgType : UInt16
  deriving DecidableEq, Repr

namespace PacketReader

/-- No message is in progress. -/
def new : PacketReader := { inProgress := false, msgType := 0 }

/-- The state machine proper: a packet of kind `kind` and type `msgType` arrives. -/
def accept (r : PacketReader) (kind : PacketKind) (msgType : UInt16) :
    Except PacketReadError PacketHeader × PacketReader :=
  match kind with
  | .sole | .first =>
    if r.inProgress then (.error (.unexpectedMessageStart r.msgType msgType), r)
    else if kind = .first then (.ok ⟨kind, msgType⟩, { inProgress := true, msgType })
    else (.ok ⟨kind, msgType⟩, r)
  | .mid | .last | .abort =>
    if !r.inProgress then (.error (.missingMessageStart msgType), r)
    else if r.msgType ≠ msgType then (.error (.messageTypeChange r.msgType msgType), r)
    else if kind = .last ∨ kind = .abort then
      (.ok ⟨kind, msgType⟩, { inProgress := false, msgType := 0 })
    else (.ok ⟨kind, msgType⟩, r)

/-- Decode and check a raw packet. -/
def read (r : PacketReader) (rawPacket : Bytes) :
    Except PacketReadError PacketHeader × PacketReader :=
  match rawPacket with
  | b0 :: b1 :: _ =>
    let header := ofBe b0 b1
    let kindRaw := ((header &&& kindMask) >>> kindShift).toUInt8
    let msgType := header &&& typeMask
    match PacketKind.fromU8 kindRaw with
    | .error e => (.error e, r)
    | .ok kind => r.accept kind msgType
  | _ => (.error .packetTooShort, r)

end PacketReader

end Snowpack
