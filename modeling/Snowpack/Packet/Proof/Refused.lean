import Snowpack.Lib.Refusal
import Snowpack.Packet.Proof.Grammar

/-!
# Rejected packets

The reader keeps its state when it rejects a packet (`read_refusesInPlace`), whatever the error and
the state. So it does not matter to the packets behind it: a list of packets comes to the same
headers and the same state as the packets of the list that are accepted (`rejected_invisible`).
-/

namespace Snowpack

open Wire

namespace PacketReader

/-- The packets of a list that are accepted, the reader going on after an error. -/
def acceptedOf (r : PacketReader) (raws : List Bytes) : List Bytes :=
  ((raws.zip (r.readEach raws).1).filter fun x => x.2.isOk).map Prod.fst

/-- The headers of these packets. -/
def headers (r : PacketReader) (raws : List Bytes) : List PacketHeader :=
  (r.readEach raws).1.filterMap Except.toOption

/-- A read is accepted, with the header the packet has, or changes nothing. -/
theorem read_cases (r : PacketReader) (raw : Bytes) :
    (∃ r', r.read raw = (.ok (headerOf raw), r')) ∨ ∃ e, r.read raw = (.error e, r) := by
  rcases hr : r.read raw with ⟨res, r'⟩
  cases res with
  | ok h =>
    obtain ⟨-, rfl, -⟩ := read_ok hr
    exact .inl ⟨r', rfl⟩
  | error e =>
    obtain rfl := read_error hr
    exact .inr ⟨e, rfl⟩

theorem read_refusesInPlace : Refusal.RefusesInPlace read := by
  intro r raw e r' hr
  exact read_error hr

theorem readEach_eq_feed (r : PacketReader) (raws : List Bytes) :
    r.readEach raws = Refusal.feed read r raws := by
  induction raws generalizing r with
  | nil => rfl
  | cons raw raws ih =>
    rcases hr : r.read raw with ⟨res, r1⟩
    rw [readEach_cons raws hr, Refusal.feed_cons raws hr, ih r1]

theorem acceptedOf_eq (r : PacketReader) (raws : List Bytes) :
    r.acceptedOf raws = Refusal.accepted read r raws := by
  unfold acceptedOf Refusal.accepted
  rw [readEach_eq_feed]

/-- The accepted packets alone: their results are the results that were no errors. -/
theorem readEach_acceptedOf (r : PacketReader) (raws : List Bytes) :
    r.readEach (r.acceptedOf raws) =
      ((r.readEach raws).1.filter Except.isOk, (r.readEach raws).2) := by
  rw [acceptedOf_eq, readEach_eq_feed, readEach_eq_feed]
  exact Refusal.feed_accepted read_refusesInPlace r raws

theorem filterMap_toOption_filter (ress : List (Except PacketReadError PacketHeader)) :
    (ress.filter Except.isOk).filterMap Except.toOption = ress.filterMap Except.toOption := by
  rw [List.filterMap_filter]
  congr 1
  funext res
  cases res <;> rfl

end PacketReader

/-- **Rejected packets are invisible to the reader.** From any state, the packets of a list that are
accepted give the same headers in the same order and the same state as the whole list, and are
all accepted; and every read is accepted or leaves the state as it was. -/
theorem rejected_invisible (r : PacketReader) (raws : List Bytes) :
    (r.acceptedOf raws).Sublist raws ∧ r.AcceptsAll (r.acceptedOf raws) ∧
    r.headers (r.acceptedOf raws) = r.headers raws ∧
    (r.readEach (r.acceptedOf raws)).2 = (r.readEach raws).2 ∧
    ∀ raw, (∃ r', r.read raw = (.ok (headerOf raw), r')) ∨ ∃ e, r.read raw = (.error e, r) := by
  have hread := r.readEach_acceptedOf raws
  refine ⟨?_, fun res hres => ?_, ?_, ?_, r.read_cases⟩
  · rw [r.acceptedOf_eq]
    exact Refusal.accepted_sublist r raws
  · rw [hread] at hres
    obtain ⟨-, hok⟩ := List.mem_filter.1 hres
    cases res with
    | ok h => exact ⟨h, rfl⟩
    | error e => cases hok
  · unfold PacketReader.headers
    rw [hread]
    exact PacketReader.filterMap_toOption_filter _
  · rw [hread]

-- a second start, a short packet and one of another type inside a message
example : PacketReader.new.acceptedOf [[0x10, 5], [0x10, 6], [0], [0x20, 6], [0x30, 5]] =
    [[0x10, 5], [0x30, 5]] := by decide

end Snowpack
