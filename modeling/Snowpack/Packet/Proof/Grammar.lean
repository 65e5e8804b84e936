import Mathlib.Computability.Language
import Mathlib.Order.CompletePartialOrder
import Snowpack.Packet.Proof.Reader

/-!
# The packet grammar

`packetGrammar` is the language of complete messages over packet headers,
`( Sole(t) | First(t) Mid(t)* (Last(t) | Abort(t)) )*` with `t` a 12-bit type constant in each
message. The reader accepts exactly the lists of well-formed packets whose headers are a prefix
of one of its words, and it ends in progress with type `t` exactly when the list ends inside a
message of type `t` (`readEach_ok_iff_grammar`).

The reader is followed on headers (`acceptAll`): from `new` it is back in `new` exactly on the
words of the grammar, and in progress exactly inside a message (`acceptAll_cases`).
-/

namespace Snowpack

open Wire
open scoped Computability

/-! ## The language -/

/-- The complete messages of type `t`. -/
def messageOf (t : UInt16) : Language PacketHeader :=
  {[⟨.sole, t⟩]} + {[⟨.first, t⟩]} * {[⟨.mid, t⟩]}∗ * ({[⟨.last, t⟩]} + {[⟨.abort, t⟩]})

/-- Sequences of complete messages of 12-bit types. -/
def packetGrammar : Language PacketHeader :=
  (⨆ t : { t : UInt16 // t ≤ typeMask }, messageOf t)∗

/-- Complete messages followed by the beginning of a message of type `t`. -/
def EndsInside (t : UInt16) (hs : List PacketHeader) : Prop :=
  hs ∈ packetGrammar * ({[⟨.first, t⟩]} * {[⟨.mid, t⟩]}∗)

theorem append_mem_kstar {α : Type} {L : Language α} {u v : List α} (hu : u ∈ L∗) (hv : v ∈ L) :
    u ++ v ∈ L∗ := by
  obtain ⟨S, rfl, hS⟩ := hu
  refine ⟨S ++ [v], by simp, fun y hy => ?_⟩
  rcases List.mem_append.1 hy with hy | hy
  · exact hS y hy
  · rw [List.mem_singleton.1 hy]; exact hv

theorem append_message_mem {t : UInt16} (ht : t ≤ typeMask) {u v : List PacketHeader}
    (hu : u ∈ packetGrammar) (hv : v ∈ messageOf t) : u ++ v ∈ packetGrammar :=
  append_mem_kstar hu (Language.mem_iSup.2 ⟨⟨t, ht⟩, hv⟩)

theorem EndsInside.mid {t : UInt16} {hs : List PacketHeader} (h : EndsInside t hs) :
    EndsInside t (hs ++ [⟨.mid, t⟩]) := by
  obtain ⟨u, hu, v, ⟨a, ha, b, hb, rfl⟩, rfl⟩ := h
  refine ⟨u, hu, a ++ (b ++ [⟨.mid, t⟩]), ⟨a, ha, b ++ [⟨.mid, t⟩], ?_, rfl⟩, by simp⟩
  exact append_mem_kstar hb rfl

theorem EndsInside.close {t : UInt16} (ht : t ≤ typeMask) {hs : List PacketHeader}
    (h : EndsInside t hs) {k : PacketKind} (hk : k = .last ∨ k = .abort) :
    hs ++ [⟨k, t⟩] ∈ packetGrammar := by
  obtain ⟨u, hu, v, hv, rfl⟩ := h
  rw [List.append_assoc]
  refine append_message_mem ht hu (.inr ⟨v, hv, [⟨k, t⟩], ?_, rfl⟩)
  rcases hk with rfl | rfl
  · exact .inl rfl
  · exact .inr rfl

/-! ## The reader on headers -/

/-- The reader fed the headers, `none` at the first one it rejects. -/
def PacketReader.acceptAll (r : PacketReader) : List PacketHeader → Option PacketReader
  | [] => some r
  | h :: hs =>
    match r.accept h.kind h.msgType with
    | (.ok _, r') => r'.acceptAll hs
    | (.error _, _) => none

namespace PacketReader

theorem acceptAll_cons {r r' : PacketReader} {h : PacketHeader} (hs : List PacketHeader)
    (h1 : Step r h r') : r.acceptAll (h :: hs) = r'.acceptAll hs := by
  simp only [acceptAll, accept_of_step h1]

theorem acceptAll_append (hs1 hs2 : List PacketHeader) (r : PacketReader) :
    r.acceptAll (hs1 ++ hs2) = (r.acceptAll hs1).bind (·.acceptAll hs2) := by
  induction hs1 generalizing r with
  | nil => rfl
  | cons h hs1 ih =>
    simp only [List.cons_append, acceptAll]
    split
    · exact ih _
    · rfl

theorem acceptAll_singleton {r r' : PacketReader} {h : PacketHeader}
    (ha : r.acceptAll [h] = some r') : Step r h r' := by
  rcases accept_cases r h.kind h.msgType with ⟨r1, h1, hs⟩ | ⟨⟨e, he⟩, -⟩
  · simp only [acceptAll, h1, Option.some.injEq] at ha
    rwa [ha] at hs
  · simp [acceptAll, he] at ha

theorem acceptAll_mids {t : UInt16} {ms : List PacketHeader}
    (h : ms ∈ ({[⟨.mid, t⟩]} : Language PacketHeader)∗) :
    acceptAll ⟨true, t⟩ ms = some ⟨true, t⟩ := by
  obtain ⟨S, rfl, hS⟩ := h
  induction S with
  | nil => rfl
  | cons v S ih =>
    have hv : v = [⟨.mid, t⟩] := hS v (.head _)
    subst hv
    rw [List.flatten_cons, acceptAll_append, acceptAll_cons [] (.mid t)]
    exact ih fun y hy => hS y (.tail _ hy)

theorem acceptAll_opening {t : UInt16} {v : List PacketHeader}
    (h : v ∈ ({[⟨.first, t⟩]} * {[⟨.mid, t⟩]}∗ : Language PacketHeader)) :
    new.acceptAll v = some ⟨true, t⟩ := by
  obtain ⟨a, ha, b, hb, rfl⟩ := h
  rw [show a = [⟨.first, t⟩] from ha, acceptAll_append, acceptAll_cons (r := new) [] (.first 0 t)]
  exact acceptAll_mids hb

theorem acceptAll_message {t : UInt16} {v : List PacketHeader} (h : v ∈ messageOf t) :
    new.acceptAll v = some new := by
  rcases h with h | ⟨a, ha, b, hb, rfl⟩
  · rw [show v = [⟨.sole, t⟩] from h, acceptAll_cons (r := new) [] (.sole 0 t)]
    rfl
  · rw [acceptAll_append, acceptAll_opening ha]
    rcases hb with hb | hb
    · rw [show b = [⟨.last, t⟩] from hb]
      exact acceptAll_cons [] (.last t)
    · rw [show b = [⟨.abort, t⟩] from hb]
      exact acceptAll_cons [] (.abort t)

theorem acceptAll_grammar {hs : List PacketHeader} (h : hs ∈ packetGrammar) :
    new.acceptAll hs = some new := by
  obtain ⟨S, rfl, hS⟩ := h
  induction S with
  | nil => rfl
  | cons v S ih =>
    obtain ⟨t, hv⟩ := Language.mem_iSup.1 (hS v (.head _))
    rw [List.flatten_cons, acceptAll_append, acceptAll_message hv]
    exact ih fun y hy => hS y (.tail _ hy)

theorem acceptAll_endsInside {t : UInt16} {hs : List PacketHeader} (h : EndsInside t hs) :
    new.acceptAll hs = some ⟨true, t⟩ := by
  obtain ⟨u, hu, v, hv, rfl⟩ := h
  rw [acceptAll_append, acceptAll_grammar hu]
  exact acceptAll_opening hv

/-- Where an accepted list ends: between messages, in the initial state, or inside one. -/
theorem acceptAll_cases {hs : List PacketHeader} (ht : ∀ h ∈ hs, h.msgType ≤ typeMask) :
    ∀ {r : PacketReader}, new.acceptAll hs = some r →
      (r = new ∧ hs ∈ packetGrammar) ∨ ∃ t, t ≤ typeMask ∧ r = ⟨true, t⟩ ∧ EndsInside t hs := by
  induction hs using List.reverseRecOn with
  | nil =>
    intro r h
    exact .inl ⟨(Option.some.inj h).symm, Language.nil_mem_kstar _⟩
  | append_singleton hs h ih =>
    intro r hr
    rw [acceptAll_append, Option.bind_eq_some_iff] at hr
    obtain ⟨r1, h1, h2⟩ := hr
    have hstep := acceptAll_singleton h2
    have hh : h.msgType ≤ typeMask := ht h (by simp)
    -- the last packet either opens a message after complete ones, or continues the open one
    rcases ih (fun x hx => ht x (List.mem_append_left _ hx)) h1 with
      ⟨rfl, hg⟩ | ⟨t, htt, rfl, hin⟩
    · cases hstep with
      | sole u t => exact .inl ⟨rfl, append_message_mem hh hg (.inl rfl)⟩
      | first u t =>
        refine .inr ⟨t, hh, rfl, hs, hg, [⟨.first, t⟩], ?_, rfl⟩
        exact ⟨[⟨.first, t⟩], rfl, [], Language.nil_mem_kstar _, rfl⟩
    · cases hstep with
      | mid => exact .inr ⟨t, htt, rfl, hin.mid⟩
      | last => exact .inl ⟨rfl, hin.close htt (.inl rfl)⟩
      | abort => exact .inl ⟨rfl, hin.close htt (.inr rfl)⟩

theorem acceptAll_isSome_iff {hs : List PacketHeader} (ht : ∀ h ∈ hs, h.msgType ≤ typeMask) :
    (∃ r, new.acceptAll hs = some r) ↔ ∃ rest, hs ++ rest ∈ packetGrammar := by
  constructor
  · rintro ⟨r, hr⟩
    rcases acceptAll_cases ht hr with ⟨-, hg⟩ | ⟨t, htt, -, hin⟩
    · exact ⟨[], by simpa using hg⟩
    · exact ⟨[⟨.last, t⟩], hin.close htt (.inl rfl)⟩
  · rintro ⟨rest, hg⟩
    have := acceptAll_grammar hg
    rw [acceptAll_append, Option.bind_eq_some_iff] at this
    obtain ⟨r, hr, -⟩ := this
    exact ⟨r, hr⟩

end PacketReader

/-! ## The reader on raw packets -/

/-- The packets read in order, continuing after an error. -/
def PacketReader.readEach (r : PacketReader) :
    List Bytes → List (Except PacketReadError PacketHeader) × PacketReader
  | [] => ([], r)
  | raw :: raws =>
    let (res, r1) := r.read raw
    let (ress, r2) := r1.readEach raws
    (res :: ress, r2)

/-- Every packet of the list is accepted. -/
def PacketReader.AcceptsAll (r : PacketReader) (raws : List Bytes) : Prop :=
  ∀ res ∈ (r.readEach raws).1, ∃ h, res = .ok h

namespace PacketReader

theorem readEach_cons {r r1 : PacketReader} {raw : Bytes}
    {res : Except PacketReadError PacketHeader} (raws : List Bytes) (h : r.read raw = (res, r1)) :
    r.readEach (raw :: raws) = (res :: (r1.readEach raws).1, (r1.readEach raws).2) := by
  simp only [readEach, h]

/-- Accepting the packets is being well formed and accepting their headers. -/
theorem acceptsAll_iff (raws : List Bytes) (r r' : PacketReader) :
    (r.AcceptsAll raws ∧ (r.readEach raws).2 = r') ↔
      (∀ raw ∈ raws, WellFormed raw) ∧ r.acceptAll (raws.map headerOf) = some r' := by
  induction raws generalizing r with
  | nil => simp [AcceptsAll, readEach, acceptAll]
  | cons raw raws ih =>
    cases hr : r.read raw with
    | mk res r1 =>
      simp only [AcceptsAll, readEach_cons raws hr, List.mem_cons, forall_eq_or_imp, List.map_cons]
      cases res with
      | ok h =>
        obtain ⟨hw, rfl, hs⟩ := read_ok hr
        rw [acceptAll_cons _ hs]
        have := ih r1
        simp only [AcceptsAll] at this
        simp [hw, this]
      | error e =>
        refine ⟨fun h => by simp at h, fun h => ?_⟩
        -- a well-formed packet the reader rejects: so does `acceptAll`
        rw [read_wellFormed h.1.1] at hr
        simp [acceptAll, hr] at h

end PacketReader

/-- **The reader accepts exactly the packet grammar**: all packets of a list are accepted from
`new` iff each has a header of a defined kind and the headers are a prefix of a sequence of
complete messages; and it then ends in progress with type `t` iff the list ends inside a message
of type `t`. -/
theorem readEach_ok_iff_grammar (raws : List Bytes) :
    (PacketReader.new.AcceptsAll raws ↔
      (∀ raw ∈ raws, WellFormed raw) ∧ ∃ rest, raws.map headerOf ++ rest ∈ packetGrammar) ∧
    (PacketReader.new.AcceptsAll raws → ∀ t,
      (((PacketReader.new.readEach raws).2.inProgress = true ∧
        (PacketReader.new.readEach raws).2.msgType = t) ↔ EndsInside t (raws.map headerOf))) := by
  have ht : ∀ h ∈ raws.map headerOf, h.msgType ≤ typeMask := by
    intro h hh
    obtain ⟨raw, -, rfl⟩ := List.mem_map.1 hh
    exact headerOf_msgType_le raw
  refine ⟨?_, fun hA t => ?_⟩
  · rw [← PacketReader.acceptAll_isSome_iff ht]
    constructor
    · intro hA
      obtain ⟨hw, hr⟩ := (PacketReader.acceptsAll_iff raws .new _).1 ⟨hA, rfl⟩
      exact ⟨hw, _, hr⟩
    · rintro ⟨hw, r, hr⟩
      exact ((PacketReader.acceptsAll_iff raws .new r).2 ⟨hw, hr⟩).1
  · obtain ⟨-, hr⟩ := (PacketReader.acceptsAll_iff raws .new _).1 ⟨hA, rfl⟩
    constructor
    · rintro ⟨hp, htt⟩
      rcases PacketReader.acceptAll_cases ht hr with ⟨hn, -⟩ | ⟨t', -, he, hin⟩
      · rw [hn] at hp
        cases hp
      · rw [he] at htt
        exact htt ▸ hin
    · intro hin
      rw [PacketReader.acceptAll_endsInside hin, Option.some.injEq] at hr
      rw [← hr]
      exact ⟨rfl, rfl⟩

end Snowpack
