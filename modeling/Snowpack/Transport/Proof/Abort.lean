import Snowpack.Transport.Proof.EndToEnd

/-!
# Recovery from an abandoned message

A side sends messages, opens one more and sends chunks of it, abandons it with `abort_message`,
and goes on sending; `abort_message` may also be called at any time when no message is open. The
other side sees the messages before, one message of that type that ends in `MessageAborted`, and
the messages after, whichever way it reads each of them (`abort_recovery`).
-/

namespace Snowpack

open Wire

variable {σ : Type} {T : TransportOps σ}

/-- Calls made with no message open: a `send_message`, or an `abort_message` that does nothing. -/
def idleOps (calls : List (Option Call)) : List TxOp :=
  calls.map fun c => match c with
    | some c => .send c.1 c.2
    | none => .abort

/-- The messages of such calls. -/
def idleMessages (calls : List (Option Call)) : List Item :=
  messages (accepted (calls.filterMap id))

/-- A message of type `t` opened, `c` and `cs` sent of it, and abandoned. -/
def abandon (t : UInt16) (c : Bytes) (cs : List Bytes) : List TxOp :=
  .prepare t :: ((c :: cs).map fun c => .packet c false) ++ [.abort]

theorem plan_idleOps (ops : List TxOp) : ∀ calls : List (Option Call),
    plan none (idleOps calls ++ ops) = wire (idleMessages calls) ++ plan none ops
  | [] => rfl
  | none :: calls => by
    have ih := plan_idleOps ops calls
    simpa only [idleOps, idleMessages, List.map_cons, List.cons_append, plan,
      List.filterMap_cons, id_eq] using ih
  | some c :: calls => by
    have ih := plan_idleOps ops calls
    simp only [idleOps, idleMessages, accepted, List.map_cons, List.cons_append, plan, and_true,
      List.filterMap_cons, id_eq, List.filter_cons, decide_eq_true_eq] at ih ⊢
    split
    · rw [ih]
      simp only [messages, List.map_cons, wire, List.flatMap_cons, Item.packets,
        List.append_assoc]
    · exact ih

theorem plan_chunks (t : UInt16) (ops : List TxOp) : ∀ cs : List Bytes,
    plan (some (t, false)) (cs.map (fun c => .packet c false) ++ .abort :: ops) =
      Item.mids t cs ++ (⟨.abort, t⟩, []) :: plan none ops
  | [] => rfl
  | c :: cs => by
    have ih := plan_chunks t ops cs
    simp only [List.map_cons, List.cons_append, plan, Bool.false_eq_true, ↓reduceIte, ih,
      Item.mids, PacketBuilder.nextKind]

theorem plan_abandon {t : UInt16} (ht : t ≤ typeMask) (c : Bytes) (cs : List Bytes)
    (ops : List TxOp) :
    plan none (abandon t c cs ++ ops) = (Item.aborted t c cs).packets ++ plan none ops := by
  have hc := plan_chunks t ops cs
  simp only [abandon, List.map_cons, List.cons_append, List.append_assoc, List.nil_append, plan,
    ht, and_self, ↓reduceIte, Bool.false_eq_true, hc, Item.packets, PacketBuilder.nextKind]

/-- The whole script of the sending side. -/
def abandonScript (before after : List (Option Call)) (t : UInt16) (c : Bytes) (cs : List Bytes) :
    List TxOp :=
  idleOps before ++ (abandon t c cs ++ (idleOps after ++ []))

/-- What the script puts on the wire. -/
def abandonItems (before after : List (Option Call)) (t : UInt16) (c : Bytes) (cs : List Bytes) :
    List Item :=
  idleMessages before ++ Item.aborted t c cs :: idleMessages after

theorem plan_abandonScript (before after : List (Option Call)) {t : UInt16} (ht : t ≤ typeMask)
    (c : Bytes) (cs : List Bytes) :
    plan none (abandonScript before after t c cs) = wire (abandonItems before after t c cs) := by
  unfold abandonScript abandonItems
  rw [plan_idleOps, plan_abandon ht, plan_idleOps]
  simp only [plan, wire, List.flatMap_append, List.flatMap_cons, List.append_nil]

theorem fits_abandonScript (before after : List (Option Call)) (t : UInt16) {c : Bytes}
    {cs : List Bytes} (hlen : ∀ x ∈ c :: cs, x.length ≤ maxPacketSize) :
    Fits (abandonScript before after t c cs) := by
  have hidle : ∀ calls x last, TxOp.packet x last ∉ idleOps calls := by
    intro calls x last hm
    simp only [idleOps, List.mem_map] at hm
    obtain ⟨o, -, ho⟩ := hm
    cases o <;> cases ho
  intro x last hm
  simp only [abandonScript, List.mem_append, List.append_nil] at hm
  rcases hm with hm | hm | hm
  · exact absurd hm (hidle before x last)
  · simp only [abandon, List.cons_append, List.mem_cons, List.mem_append, List.mem_map,
      reduceCtorEq, false_or, or_false, List.not_mem_nil] at hm
    obtain ⟨y, hy, he⟩ := hm
    cases he
    exact hlen x (List.mem_cons.2 hy)
  · exact absurd hm (hidle after x last)

/-! ## The theorem -/

/-- What is got of calls made with no message open. -/
def idleOutcomes (calls : List (Option Call)) : List Outcome :=
  (accepted (calls.filterMap id)).map fun c => .got c.1 c.2

theorem outcome_abandonItems (before after : List (Option Call)) (t : UInt16) (c : Bytes)
    (cs : List Bytes) :
    (abandonItems before after t c cs).map Item.outcome =
      idleOutcomes before ++ .aborted t :: idleOutcomes after := by
  simp only [abandonItems, idleMessages, idleOutcomes, List.map_append, List.map_cons,
    outcome_messages]
  rfl

/-- What holds, after a schedule, of a left side that abandons a message. -/
structure Recovers (S : TransportSpec T) (before after : List (Option Call)) (t : UInt16)
    (c : Bytes) (cs : List Bytes) (d₀ d : Duplex σ) : Prop where
  /-- on the wire are the messages and the abandoned one; a further `abort_message` adds nothing -/
  wire : ∃ sent, sent <+: wire (abandonItems before after t c cs) ∧
    d.written .left = S.frames (S.sendKey (d₀.at_ .left).receiver.cipher) 0 sent
  /-- the right side has seen the first of these outcomes, in order -/
  first : (d.seen .right).outcomes <+: idleOutcomes before ++ .aborted t :: idleOutcomes after
  /-- with everything consumed it has seen all of them -/
  whole : d.Finished .left →
    (d.seen .right).outcomes = idleOutcomes before ++ .aborted t :: idleOutcomes after
  /-- and the schedule can be continued to that point -/
  completes : ∃ more, ∀ x, (Lts.run (Duplex.step T) d more).Finished x

/-- The two scripts: the left side abandons a message, the right side only sends. -/
def abandonScripts (before after : List (Option Call)) (t : UInt16) (c : Bytes) (cs : List Bytes)
    (calls : List Call) : Side → List TxOp
  | .left => abandonScript before after t c cs
  | .right => sendAll calls

/-- **Abort recovery.** Whatever was sent before, however much of the message is on the wire, and
in every interleaving: an abandoned message costs the receiver exactly that message. The receiving
loop reads each message by `read_bytes` or by `into_packets`, as the schedule says. -/
theorem abort_recovery (S : TransportSpec T) (hS : S.Correct) (before after : List (Option Call))
    (t : UInt16) (ht : t ≤ typeMask) (c : Bytes) (cs : List Bytes)
    (hlen : ∀ x ∈ c :: cs, x.length ≤ maxPacketSize) (calls : List Call) (d₀ : Duplex σ)
    (h₀ : d₀.Connected S (abandonScripts before after t c cs calls)) (acts : List DuplexAct) :
    Recovers S before after t c cs d₀ (Lts.run (Duplex.step T) d₀ acts) := by
  let items : Side → List Item
    | .left => abandonItems before after t c cs
    | .right => messages (accepted calls)
  have hfit : ∀ x, Fits (abandonScripts before after t c cs calls x)
    | .left => fits_abandonScript before after t hlen
    | .right => fits_sendAll calls
  have hplan : ∀ x, plan none (abandonScripts before after t c cs calls x) = wire (items x)
    | .left => plan_abandonScript before after ht c cs
    | .right => plan_sendAll calls
  have h := Duplex.run_flowing hS (h₀.flowing items hfit hplan) acts
  obtain ⟨hfirst, hwhole⟩ := Duplex.sees hS h₀ hfit hplan acts .left
  refine ⟨?_, ?_, fun hf => ?_, Duplex.completes hS h⟩
  · obtain ⟨consumed, unread, rest, hx⟩ := h .left
    obtain ⟨later, hl⟩ := hx.sends.sent_isPrefix
    exact ⟨consumed ++ unread, ⟨later, by rw [hl]; exact hplan .left⟩, hx.sends.wrote.written⟩
  · obtain ⟨done, hpre, hout⟩ := hfirst
    rw [← outcome_abandonItems before after t c cs]
    have hmap := hpre.map Item.outcome
    rw [← hout] at hmap
    exact hmap
  · rw [← outcome_abandonItems before after t c cs]
    exact hwhole hf

/-- Two chunks of a message of type 3 are abandoned between two messages, with idle aborts. -/
theorem abort_recovery_tagged :
    (3 : UInt16) ≤ typeMask ∧ Recovers Tagged.spec [some (1, [7])] [none, some (2, []), none] 3 [8]
      [[9]] (Tagged.pair (abandonScripts [some (1, [7])] [none, some (2, []), none] 3 [8] [[9]] []))
      (Lts.run (Duplex.step Tagged.transport)
        (Tagged.pair (abandonScripts [some (1, [7])] [none, some (2, []), none] 3 [8] [[9]] []))
        [.send .left, .send .left, .deliver .left 30, .recv .right true]) :=
  ⟨by decide, abort_recovery Tagged.spec Tagged.decrypt_encrypt _ _ 3 (by decide) [8] [[9]]
    (by decide) [] _ (Tagged.pair_connected _) _⟩

end Snowpack
