import Denis.Dns.Server
import Denis.Lib.InFlight
import Mathlib.Algebra.Order.Group.Multiset
import Mathlib.Tactic.Abel

/-!
# One reply a message

A message is answered on the spot, waits on the cold channel or for upstream, or is
dropped. No step makes two of it: whatever calls are interleaved, the replies and what
still waits are some of the messages that arrived, each counted as often as it arrived
(`answered_once`).
-/

namespace Denis

open Text InFlight

/-- The client and the bytes of a message that arrives. -/
def Input.asked : Input → Option (Client × Bytes)
  | .message client packet _ => some (client, packet)
  | _ => none

/-- The client and the message a reply is to. -/
def Output.replied : Output → Option (Client × Bytes)
  | .reply r => some (r.client, r.packet)
  | _ => none

/-- The client and the message of a request. -/
def Request.source (req : Request) : Client × Bytes := (req.client, req.packet)

namespace Server

variable {display : RecordType → Str} {s s' : Server} {clock : Clock} {out : List Output}

/-- The messages that wait. -/
def pending (s : Server) : Multiset (Client × Bytes) :=
  (s.cold.map Request.source : Multiset (Client × Bytes)) +
    (s.waiting.map fun w => w.request.source : Multiset (Client × Bytes))

/-- The messages replied to. -/
def replied (out : List Output) : Multiset (Client × Bytes) := out.filterMap Output.replied

theorem replied_append (out out' : List Output) :
    replied (out ++ out') = replied out + replied out' := by
  rw [replied, List.filterMap_append, ← Multiset.coe_add]
  rfl

/-- Nothing is sent, and nothing more waits. -/
theorem dropped (hpending : s'.pending = s.pending) (asked : Multiset (Client × Bytes)) :
    s'.pending + replied [] ≤ s.pending + asked := by
  show _ + 0 ≤ _
  rw [hpending, add_zero]
  exact Multiset.le_add_right s.pending asked

/-- A request is answered, waits for upstream, or is dropped. -/
theorem beginHandle_pending (req : Request) :
    (s.beginHandle display req clock).1.pending + replied (s.beginHandle display req clock).2 ≤
      s.pending + {req.source} := by
  unfold beginHandle
  split
  · exact le_of_eq rfl
  · split
    · exact dropped rfl _
    · have hadded := coe_map_concat s.waiting ⟨req, s.config.upstreams⟩
        fun w => w.request.source
      refine le_of_eq ?_
      show (s.cold.map Request.source : Multiset (Client × Bytes)) + _ + 0 = _
      rw [add_zero, pending, add_assoc]
      exact congrArg _ hadded

theorem handle_pending (client : Client) (packet : Bytes) :
    (s.handle display client packet clock).1.pending +
      replied (s.handle display client packet clock).2 ≤ s.pending + {(client, packet)} := by
  cases hparse : Parser.parseUdp (client.listener.buffer packet) with
  | error e =>
    rw [handle_error hparse]
    exact dropped rfl _
  | ok query =>
    rw [handle_ok hparse]
    exact beginHandle_pending _

theorem tcpConn_pending {client : Client} {packet : Bytes}
    (h : s.tcpConn display client packet clock = some (s', out)) :
    s'.pending + replied out ≤ s.pending + {(client, packet)} := by
  unfold tcpConn at h
  split at h
  · cases h
  · split at h
    · obtain ⟨rfl, rfl⟩ := Prod.mk.inj (Option.some.inj h)
      exact dropped rfl _
    · have hle := @handle_pending display s clock client packet
      rw [Option.some.inj h] at hle
      exact hle

theorem monoUdp_pending (client : Client) (packet : Bytes) :
    (s.monoUdp display client packet clock).1.pending +
      replied (s.monoUdp display client packet clock).2 ≤ s.pending + {(client, packet)} := by
  cases hparse : Parser.parseUdp (client.listener.buffer packet) with
  | error e =>
    rw [monoUdp_error hparse]
    exact dropped rfl _
  | ok query =>
    rw [monoUdp_ok hparse]
    split
    · exact dropped rfl _
    · exact le_of_eq rfl
    · split
      · exact le_of_eq rfl
      · have hadded := coe_map_concat s.cold
          ⟨client, packet, query, clock.timestampMs, hparse⟩ Request.source
        refine le_of_eq ?_
        show _ + (s.waiting.map fun w => w.request.source : Multiset (Client × Bytes)) + 0 = _
        rw [add_zero, pending, add_right_comm]
        exact congrArg (· + _) hadded

theorem message_pending {client : Client} {packet : Bytes}
    (h : s.message display client packet clock = some (s', out)) :
    s'.pending + replied out ≤ s.pending + {(client, packet)} := by
  unfold message at h
  split at h
  · cases h
  · split at h
    · have hle := @monoUdp_pending display s clock client packet
      rw [Option.some.inj h] at hle
      exact hle
    · have hle := @handle_pending display s clock client packet
      rw [Option.some.inj h] at hle
      exact hle
    · exact tcpConn_pending h
    · exact tcpConn_pending h

/-- **A step replies to what waited or has just arrived.** -/
theorem step_pending {e : Input} (h : s.step display e = some (s', out)) :
    s'.pending + replied out ≤ s.pending + (e.asked.toList : Multiset (Client × Bytes)) := by
  cases e with
  | message client packet clock =>
    rw [step] at h
    split at h
    · cases h
    · next m hadvance =>
      obtain ⟨-, rfl⟩ := advance_eq_some hadvance
      exact message_pending (s := { s with now := clock.now }) h
  | cold i clock =>
    rw [step] at h
    split at h
    · next m req hadvance hreq =>
      obtain ⟨-, rfl⟩ := advance_eq_some hadvance
      have hle := @beginHandle_pending display
        { s with now := clock.now, cold := s.cold.eraseIdx i } clock req
      rw [Option.some.inj h] at hle
      refine hle.trans (le_of_eq ?_)
      rw [pending, pending, coe_map_taken hreq, ← Multiset.singleton_add]
      show _ = _ + 0
      abel
    · cases h
  | datagram i server src bytes clock =>
    rw [step] at h
    split at h
    · next m w hadvance hw =>
      obtain ⟨-, rfl⟩ := advance_eq_some hadvance
      split at h
      · obtain ⟨rfl, rfl⟩ := Prod.mk.inj (Option.some.inj h)
        refine le_of_eq ?_
        have htaken := coe_map_taken hw fun w => w.request.source
        show (s.cold.map Request.source : Multiset (Client × Bytes)) +
          ((s.waiting.eraseIdx i).map fun w => w.request.source : Multiset (Client × Bytes)) +
            {w.request.source} = _ + 0
        rw [add_zero, pending, htaken, ← Multiset.singleton_add]
        abel
      · cases h
    · cases h
  | unresolved i =>
    rw [step] at h
    split at h
    · next w hw =>
      obtain ⟨rfl, rfl⟩ := Prod.mk.inj (Option.some.inj h)
      show _ + 0 ≤ _ + 0
      rw [add_zero, add_zero, pending, pending, coe_map_taken hw]
      exact add_le_add_right (Multiset.le_cons_self _ _) _
    · cases h
  | configure config | setBlockList list | setAllowList list =>
    obtain ⟨rfl, rfl⟩ := Prod.mk.inj (Option.some.inj h)
    exact le_of_eq rfl

/-- **No reply without a message, and none twice.** In any run, whatever calls are
interleaved and whatever the upstreams send, the replies, with the messages that still
wait, are among the messages that arrived, each to the client it came from and at most as
often as it came. -/
theorem answered_once {runtime : Runtime} {acl : Acl} {config : RuntimeConfig}
    {blockList allowList : DomainSet} {es : List Input} {t : Server} {outs : List Output}
    (hrun : (machine display).run (start runtime acl config blockList allowList) es =
      some (t, outs)) :
    t.pending + replied outs ≤ (es.filterMap Input.asked : Multiset (Client × Bytes)) := by
  have hstep : ∀ l h s e s' out, s.pending + replied h ≤
      (l.filterMap Input.asked : Multiset (Client × Bytes)) →
      (machine display).step s e = some (s', out) → s'.pending + replied (h ++ out) ≤
        ((l ++ [e]).filterMap Input.asked : Multiset (Client × Bytes)) := by
    intro l h s e s' out hle hs
    have hasked : ((l ++ [e]).filterMap Input.asked : Multiset (Client × Bytes)) =
        (l.filterMap Input.asked : Multiset (Client × Bytes)) +
          (e.asked.toList : Multiset (Client × Bytes)) := by
      rw [List.filterMap_append, ← Multiset.coe_add, List.filterMap_cons]
      cases e.asked <;> rfl
    rw [replied_append, hasked]
    calc s'.pending + (replied h + replied out)
      _ = s'.pending + replied out + replied h := by abel
      _ ≤ s.pending + (e.asked.toList : Multiset (Client × Bytes)) + replied h :=
        add_le_add_left (step_pending hs) _
      _ = s.pending + replied h + (e.asked.toList : Multiset (Client × Bytes)) := by abel
      _ ≤ _ := add_le_add_left hle _
  have hbegin : (start runtime acl config blockList allowList).pending + replied [] ≤
      (([] : List Input).filterMap Input.asked : Multiset (Client × Bytes)) := Multiset.zero_le _
  have hrule := Machine.run_trace (J := fun l h (s : Server) => s.pending + replied h ≤
    (l.filterMap Input.asked : Multiset (Client × Bytes))) hstep (l := []) (h := []) hbegin hrun
  exact hrule

/-- Two messages of one client wait, and one is answered. -/
theorem Sample.one_answered : ∃ t outs,
    (machine Denis.Sample.display).run (start .tokio ⟨[]⟩ Denis.Sample.config ∅ ∅)
      [Denis.Sample.ask (Denis.Sample.client .tokioUdp 1) 7 0,
        Denis.Sample.ask (Denis.Sample.client .tokioUdp 1) 9 0,
        Denis.Sample.answered 7 1] = some (t, outs) ∧
    (replied outs).card = 1 ∧ t.pending.card = 1 ∧
    t.pending + replied outs ≤
      [(Denis.Sample.client .tokioUdp 1, Denis.Sample.packet 7 Denis.Sample.name),
        (Denis.Sample.client .tokioUdp 1, Denis.Sample.packet 9 Denis.Sample.name)] := by
  obtain ⟨⟨t, outs⟩, hrun, hviews⟩ := Option.map_eq_some_iff.mp
    (show ((machine Denis.Sample.display).run (start .tokio ⟨[]⟩ Denis.Sample.config ∅ ∅)
        [Denis.Sample.ask (Denis.Sample.client .tokioUdp 1) 7 0,
          Denis.Sample.ask (Denis.Sample.client .tokioUdp 1) 9 0,
          Denis.Sample.answered 7 1]).map (fun p => ((replied p.2).card, p.1.pending.card)) =
      some (1, 1) by decide +kernel)
  obtain ⟨hreplied, hpending⟩ := Prod.mk.inj hviews
  exact ⟨t, outs, hrun, hreplied, hpending, answered_once hrun⟩

end Server

end Denis
