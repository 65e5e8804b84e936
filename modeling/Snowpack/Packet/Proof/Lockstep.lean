import Snowpack.Lib.Run
import Snowpack.Packet.Proof.Reader

/-!
# The builder and the reader in lockstep

A `PacketBuilder` driven by an arbitrary sequence of calls, and a `PacketReader` fed every packet
it emits. `Track` is the history the calls and their results tell: which type the last successful
`prepare` was given, whether that message is still open, and how many packets of it have been
emitted. A step is `Faithful` when the reader accepts the emitted packet as the history says and
ends in progress exactly when the history has an open message with a packet on the wire.

Every step is faithful except one kind: `abort` between `prepare` and the first `pack` emits an
`Abort` packet for a message the reader has never seen (`BareAbort`). `lockstep_iff` is the
equivalence over whole runs.
-/

namespace Snowpack

open Wire

/-- A call on a builder. -/
inductive BuilderCall
  | prepare (msgType : UInt16)
  | pack (payload : Bytes) (last : Bool)
  | abort
  deriving DecidableEq, Repr

/-- The sender's message as the calls and their results tell it. -/
structure Track where
  isOpen : Bool
  msgType : UInt16
  emitted : Nat

/-- A builder, the reader of its packets, and the history. -/
structure Lockstep where
  builder : PacketBuilder
  reader : PacketReader
  track : Track

namespace Lockstep

/-- A new builder and a new reader. -/
def new : Lockstep := ⟨.new, .new, ⟨false, 0, 0⟩⟩

/-- One call; a packet it emits goes to the reader. -/
def call (s : Lockstep) : BuilderCall → Lockstep
  | .prepare t =>
    match s.builder.prepare t with
    | (.ok (), b) => { s with builder := b, track := ⟨true, t, 0⟩ }
    | (.error _, b) => { s with builder := b }
  | .pack payload last =>
    match s.builder.pack payload last with
    | (.ok raw, b) =>
      ⟨b, (s.reader.read raw).2, { s.track with isOpen := !last, emitted := s.track.emitted + 1 }⟩
    | (.error _, b) => { s with builder := b }
  | .abort =>
    match s.builder.abort with
    | (some raw, b) =>
      ⟨b, (s.reader.read raw).2, { s.track with isOpen := false, emitted := s.track.emitted + 1 }⟩
    | (none, b) => { s with builder := b }

/-- The packet a call emits. -/
def emits (s : Lockstep) : BuilderCall → Option Bytes
  | .prepare _ => none
  | .pack payload last => (s.builder.pack payload last).1.toOption
  | .abort => s.builder.abort.1

/-- The kind the next packet of the message has, by the history. -/
def kindOf (s : Lockstep) : BuilderCall → PacketKind
  | .pack _ last => PacketBuilder.nextKind (s.track.emitted == 0) last
  | _ => .abort

/-- The payload of the packet that a call emits. -/
def payloadOf : BuilderCall → Bytes
  | .pack payload _ => payload
  | _ => []

/-- The reader has a message of type `t` in progress iff the history has one open with a packet
emitted. -/
def Agrees (s : Lockstep) : Prop :=
  ∀ t, (s.reader.inProgress = true ∧ s.reader.msgType = t) ↔
    (s.track.isOpen = true ∧ 0 < s.track.emitted ∧ s.track.msgType = t)

/-- The packet of the call is accepted with the type of the governing `prepare`, its kind and its
payload, and the two machines agree afterwards. -/
def Faithful (s : Lockstep) (c : BuilderCall) : Prop :=
  (∀ raw, s.emits c = some raw →
    (s.reader.read raw).1 = .ok ⟨s.kindOf c, s.track.msgType⟩ ∧ raw.drop 2 = payloadOf c) ∧
  (s.call c).Agrees

/-- An `abort` after `prepare` and before the first `pack`. -/
def BareAbort (s : Lockstep) (c : BuilderCall) : Prop :=
  c = .abort ∧ s.builder.inProgress = true ∧ s.builder.isFirst = true

/-! ## The simulation relation -/

/-- Builder, reader and history in step. An open message has a 12-bit type; the reader is in
progress with it as soon as a packet has been emitted. -/
inductive Rel : Lockstep → Prop
  | idle {b : PacketBuilder} {u : UInt16} {k : Track} (hb : b.inProgress = false)
      (hk : k.isOpen = false) : Rel ⟨b, ⟨false, u⟩, k⟩
  | prepared {b : PacketBuilder} {u t : UInt16} (hb : b.inProgress = true)
      (hf : b.isFirst = true) (hm : b.msgType = t) (ht : t ≤ typeMask) :
      Rel ⟨b, ⟨false, u⟩, ⟨true, t, 0⟩⟩
  | streaming {b : PacketBuilder} {t : UInt16} {n : Nat} (hb : b.inProgress = true)
      (hf : b.isFirst = false) (hm : b.msgType = t) (ht : t ≤ typeMask) :
      Rel ⟨b, ⟨true, t⟩, ⟨true, t, n + 1⟩⟩

theorem Rel.agrees {s : Lockstep} (h : Rel s) : s.Agrees := by
  intro t
  cases h <;> simp_all

theorem read_header {k : PacketKind} {t : UInt16} (ht : t ≤ typeMask) (payload : Bytes)
    {r r' : PacketReader} (hs : PacketReader.Step r ⟨k, t⟩ r') :
    r.read (PacketBuilder.header k t ++ payload) = (.ok ⟨k, t⟩, r') := by
  rw [read_header_append ht]
  exact PacketReader.accept_of_step hs

theorem drop_header (k : PacketKind) (t : UInt16) (payload : Bytes) :
    (PacketBuilder.header k t ++ payload).drop 2 = payload := rfl

theorem prepare_step {s : Lockstep} (h : Rel s) (t : UInt16) :
    Rel (s.call (.prepare t)) := by
  by_cases hl : t > typeMask
  · simp only [call, PacketBuilder.prepare, hl, ↓reduceIte]
    exact h
  · have ht : t ≤ typeMask := UInt16.not_lt.1 hl
    cases h with
    | idle hb hk =>
      simp only [call, PacketBuilder.prepare, hl, hb, ↓reduceIte, Bool.false_eq_true]
      exact .prepared rfl rfl rfl ht
    | prepared hb hf hm htt =>
      simp only [call, PacketBuilder.prepare, hl, hb, ↓reduceIte]
      exact .prepared hb hf hm htt
    | streaming hb hf hm htt =>
      simp only [call, PacketBuilder.prepare, hl, hb, ↓reduceIte]
      exact .streaming hb hf hm htt

/-- A `pack` of an open message whose packet the reader accepts: the state it leaves, and what the
reader saw. -/
theorem pack_accepted {b : PacketBuilder} {r r' : PacketReader} {k : Track} {last : Bool}
    (payload : Bytes) (hb : b.inProgress = true) (hf : b.isFirst = (k.emitted == 0))
    (hm : b.msgType = k.msgType) (ht : k.msgType ≤ typeMask)
    (hs : PacketReader.Step r ⟨PacketBuilder.nextKind b.isFirst last, k.msgType⟩ r') :
    call ⟨b, r, k⟩ (.pack payload last) =
      ⟨(b.pack payload last).2, r', { k with isOpen := !last, emitted := k.emitted + 1 }⟩ ∧
    ∀ raw, emits ⟨b, r, k⟩ (.pack payload last) = some raw →
      (r.read raw).1 = .ok ⟨kindOf ⟨b, r, k⟩ (.pack payload last), k.msgType⟩ ∧
        raw.drop 2 = payload := by
  have hread := read_header ht payload hs
  have hp : b.pack payload last =
      (.ok (PacketBuilder.header (PacketBuilder.nextKind b.isFirst last) k.msgType ++ payload),
        (b.pack payload last).2) := by
    simp [PacketBuilder.pack, hb, hm]
  refine ⟨?_, fun raw hr => ?_⟩
  · simp only [call]
    rw [hp]
    simp only [hread]
  · simp only [emits] at hr
    rw [hp, Except.toOption, Option.some.injEq] at hr
    subst hr
    refine ⟨?_, drop_header _ _ _⟩
    rw [hread, kindOf, hf]

theorem pack_step {s : Lockstep} (h : Rel s) (payload : Bytes) (last : Bool) :
    Faithful s (.pack payload last) ∧ Rel (s.call (.pack payload last)) := by
  cases h with
  | @idle b u k hb hk =>
    have hrel : Rel (call ⟨b, ⟨false, u⟩, k⟩ (.pack payload last)) := by
      simp only [call, PacketBuilder.pack, hb, Bool.not_false, ↓reduceIte]
      exact .idle hb hk
    refine ⟨⟨fun raw hr => ?_, hrel.agrees⟩, hrel⟩
    simp [emits, PacketBuilder.pack, hb, Except.toOption] at hr
  | @prepared b u t hb hf hm ht =>
    have hstep : PacketReader.Step ⟨false, u⟩ ⟨PacketBuilder.nextKind b.isFirst last, t⟩
        (if last then ⟨false, u⟩ else ⟨true, t⟩) := by
      rw [hf]
      cases last
      · exact .first u t
      · exact .sole u t
    obtain ⟨hc, hraw⟩ := pack_accepted (k := ⟨true, t, 0⟩) payload hb hf hm ht hstep
    have hrel : Rel (call ⟨b, ⟨false, u⟩, ⟨true, t, 0⟩⟩ (.pack payload last)) := by
      rw [hc]
      cases last
      · exact .streaming (by simp [PacketBuilder.pack, hb]) (by simp [PacketBuilder.pack, hb])
          (by simp [PacketBuilder.pack, hb, hm]) ht
      · exact .idle (by simp [PacketBuilder.pack, hb]) rfl
    exact ⟨⟨hraw, hrel.agrees⟩, hrel⟩
  | @streaming b t n hb hf hm ht =>
    have hstep : PacketReader.Step ⟨true, t⟩ ⟨PacketBuilder.nextKind b.isFirst last, t⟩
        (if last then ⟨false, 0⟩ else ⟨true, t⟩) := by
      rw [hf]
      cases last
      · exact .mid t
      · exact .last t
    obtain ⟨hc, hraw⟩ :=
      pack_accepted (k := ⟨true, t, n + 1⟩) payload hb hf hm ht hstep
    have hrel : Rel (call ⟨b, ⟨true, t⟩, ⟨true, t, n + 1⟩⟩ (.pack payload last)) := by
      rw [hc]
      cases last
      · exact .streaming (by simp [PacketBuilder.pack, hb]) (by simp [PacketBuilder.pack, hb])
          (by simp [PacketBuilder.pack, hb, hm]) ht
      · exact .idle (by simp [PacketBuilder.pack, hb]) rfl
    exact ⟨⟨hraw, hrel.agrees⟩, hrel⟩

/-- An `abort` from a state in step: faithful unless the message has no packet yet, and in step
afterwards either way (the reader's error leaves it idle). -/
theorem abort_step {s : Lockstep} (h : Rel s) :
    (Faithful s .abort ↔ ¬ BareAbort s .abort) ∧ Rel (s.call .abort) := by
  cases h with
  | @idle b u k hb hk =>
    have hrel : Rel (call ⟨b, ⟨false, u⟩, k⟩ .abort) := by
      simp only [call, PacketBuilder.abort, hb, Bool.not_false, ↓reduceIte]
      exact .idle hb hk
    refine ⟨iff_of_true ⟨fun raw hr => ?_, hrel.agrees⟩ (fun hB => ?_), hrel⟩
    · simp [emits, PacketBuilder.abort, hb] at hr
    · rw [hB.2.1] at hb
      cases hb
  | @prepared b u t hb hf hm ht =>
    have hread : PacketReader.read ⟨false, u⟩ (PacketBuilder.header .abort t) =
        (.error (.missingMessageStart t), ⟨false, u⟩) := by
      rw [← List.append_nil (PacketBuilder.header .abort t), read_header_append ht]
      rfl
    have hrel : Rel (call ⟨b, ⟨false, u⟩, ⟨true, t, 0⟩⟩ .abort) := by
      simp only [call, PacketBuilder.abort, hb, hm, hread, Bool.not_true, Bool.false_eq_true,
        ↓reduceIte]
      exact .idle rfl rfl
    refine ⟨iff_of_false (fun hF => ?_) (fun hB => hB ⟨rfl, hb, hf⟩), hrel⟩
    have he : emits ⟨b, ⟨false, u⟩, ⟨true, t, 0⟩⟩ .abort =
        some (PacketBuilder.header .abort t) := by
      simp [emits, PacketBuilder.abort, hb, hm]
    have := (hF.1 _ he).1
    rw [hread] at this
    cases this
  | @streaming b t n hb hf hm ht =>
    have hread : PacketReader.read ⟨true, t⟩ (PacketBuilder.header .abort t) =
        (.ok ⟨.abort, t⟩, ⟨false, 0⟩) := by
      have := read_header ht [] (.abort t)
      rwa [List.append_nil] at this
    have hrel : Rel (call ⟨b, ⟨true, t⟩, ⟨true, t, n + 1⟩⟩ .abort) := by
      simp only [call, PacketBuilder.abort, hb, hm, hread, Bool.not_true, Bool.false_eq_true,
        ↓reduceIte]
      exact .idle rfl rfl
    refine ⟨iff_of_true ⟨fun raw hr => ?_, hrel.agrees⟩ (fun hB => ?_), hrel⟩
    · simp only [emits, PacketBuilder.abort, hb, hm, Bool.not_true, Bool.false_eq_true,
        ↓reduceIte, Option.some.injEq] at hr
      subst hr
      exact ⟨by rw [hread]; rfl, rfl⟩
    · rw [hB.2.2] at hf
      cases hf

theorem call_step {s : Lockstep} (h : Rel s) (c : BuilderCall) :
    (Faithful s c ↔ ¬ BareAbort s c) ∧ Rel (s.call c) := by
  cases c with
  | prepare t =>
    have hrel := prepare_step h t
    have hF : Faithful s (.prepare t) := ⟨fun _ hr => (nomatch hr), hrel.agrees⟩
    exact ⟨iff_of_true hF (fun hB => nomatch hB.1), hrel⟩
  | pack payload last =>
    obtain ⟨hF, hrel⟩ := pack_step h payload last
    exact ⟨iff_of_true hF (fun hB => nomatch hB.1), hrel⟩
  | abort => exact abort_step h

end Lockstep

/-- **Lockstep.** Along every sequence of calls from two fresh machines, every step is faithful iff
no `abort` is called between a `prepare` and its first `pack`. -/
theorem lockstep_iff (calls : List BuilderCall) :
    Lts.Along Lockstep.call Lockstep.Faithful .new calls ↔
      Lts.Along Lockstep.call (fun s c => ¬ Lockstep.BareAbort s c) .new calls :=
  Lts.along_congr (fun _ c h => (Lockstep.call_step h c).2)
    (fun _ c h => (Lockstep.call_step h c).1) calls (.idle rfl rfl)

/-- `prepare(3)` then `abort()`: the reader rejects the packet. -/
theorem lockstep_bare_abort :
    ¬ Lts.Along Lockstep.call Lockstep.Faithful .new [.prepare 3, .abort] := by
  intro h
  have he : (Lockstep.new.call (.prepare 3)).emits .abort = some [0x40, 0x03] := by decide
  have := (h.2.1.1 _ he).1
  cases this

end Snowpack
