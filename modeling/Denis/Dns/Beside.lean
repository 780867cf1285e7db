import Denis.Dns.Server
import Denis.Lib.InFlight

/-!
# Calls beside others

A step of the server is about one call. Which others are under way, and where in
their lists they stand, makes no difference to it (`step_beside`). A process that
keeps some of the calls elsewhere can so be compared with the server that has them
all.
-/

namespace Denis

open Text InFlight

namespace Server

variable {display : RecordType → Str} {s s' : Server} {clock : Clock} {out : List Output}

/-- A request begins the same whatever other calls there are. -/
theorem beginHandle_beside (req : Request) (cold : List Request) (waiting : List Waiting) :
    ∃ added, (∀ w ∈ added, w.request = req) ∧
      (s.beginHandle display req clock).1.cold = s.cold ∧
      (s.beginHandle display req clock).1.waiting = s.waiting ++ added ∧
      ({ s with cold, waiting } : Server).beginHandle display req clock =
        ({ (s.beginHandle display req clock).1 with cold, waiting := waiting ++ added },
          (s.beginHandle display req clock).2) := by
  unfold beginHandle
  dsimp only
  cases QueryHandler.beginParsed display s.cache s.config req.query clock with
  | some found =>
    refine ⟨[], by simp, rfl, (List.append_nil _).symm, ?_⟩
    rw [List.append_nil]
    rfl
  | none =>
    dsimp only
    split
    · refine ⟨[], by simp, rfl, (List.append_nil _).symm, ?_⟩
      rw [List.append_nil]
      rfl
    · exact ⟨[⟨req, s.config.upstreams⟩], by simp, rfl, rfl, rfl⟩

theorem handle_beside (client : Client) (packet : Bytes) (cold : List Request)
    (waiting : List Waiting) :
    ∃ added, (∀ w ∈ added, w.request.client = client) ∧
      (s.handle display client packet clock).1.cold = s.cold ∧
      (s.handle display client packet clock).1.waiting = s.waiting ++ added ∧
      ({ s with cold, waiting } : Server).handle display client packet clock =
        ({ (s.handle display client packet clock).1 with cold, waiting := waiting ++ added },
          (s.handle display client packet clock).2) := by
  cases hparse : Parser.parseUdp (client.listener.buffer packet) with
  | error e =>
    rw [handle_error hparse, handle_error hparse]
    refine ⟨[], by simp, rfl, (List.append_nil _).symm, ?_⟩
    rw [List.append_nil]
    rfl
  | ok query =>
    rw [handle_ok hparse, handle_ok hparse]
    obtain ⟨added, hclient, hrest⟩ := @beginHandle_beside display s clock
      ⟨client, packet, query, clock.timestampMs, hparse⟩ cold waiting
    exact ⟨added, fun w hw => by rw [hclient w hw], hrest⟩

theorem tcpConn_beside {client : Client} {packet : Bytes} (cold : List Request)
    (waiting : List Waiting) (h : s.tcpConn display client packet clock = some (s', out)) :
    ∃ added, (∀ w ∈ added, w.request.client = client) ∧ s'.cold = s.cold ∧
      s'.waiting = s.waiting ++ added ∧
      ({ s with cold, waiting } : Server).tcpConn display client packet clock =
        some ({ s' with cold, waiting := waiting ++ added }, out) := by
  unfold tcpConn at h ⊢
  split at h
  · cases h
  · next hopen =>
    rw [if_neg hopen]
    split at h
    · next hempty =>
      obtain ⟨rfl, rfl⟩ := Prod.mk.inj (Option.some.inj h)
      rw [if_pos hempty]
      refine ⟨[], by simp, rfl, (List.append_nil _).symm, ?_⟩
      rw [List.append_nil]
      rfl
    · next hsome =>
      rw [if_neg hsome]
      obtain ⟨added, hclient, hcold, hwaiting, hsame⟩ :=
        @handle_beside display s clock client packet cold waiting
      rw [Option.some.inj h] at hcold hwaiting hsame
      exact ⟨added, hclient, hcold, hwaiting, congrArg some hsame⟩

/-- A message that is not the workers' is taken the same. -/
theorem message_beside {client : Client} {packet : Bytes} (hudp : client.listener ≠ .monoUdp)
    (cold : List Request) (waiting : List Waiting)
    (h : s.message display client packet clock = some (s', out)) :
    ∃ added, (∀ w ∈ added, w.request.client = client) ∧ s'.cold = s.cold ∧
      s'.waiting = s.waiting ++ added ∧
      ({ s with cold, waiting } : Server).message display client packet clock =
        some ({ s' with cold, waiting := waiting ++ added }, out) := by
  unfold message at h ⊢
  split at h
  · cases h
  · next hlistener =>
    rw [if_neg hlistener]
    split at h
    · next hmono => exact absurd hmono hudp
    · obtain ⟨added, hclient, hcold, hwaiting, hsame⟩ :=
        @handle_beside display s clock client packet cold waiting
      rw [Option.some.inj h] at hcold hwaiting hsame
      exact ⟨added, hclient, hcold, hwaiting, congrArg some hsame⟩
    · exact tcpConn_beside cold waiting h
    · exact tcpConn_beside cold waiting h

end Server

/-- What the outside does, whichever of the calls under way it is for. -/
def Input.outside : Input → Option Input
  | .cold _ _ => none
  | .datagram _ server src bytes clock => some (.datagram 0 server src bytes clock)
  | .unresolved _ => some (.unresolved 0)
  | input => some input

namespace Server

variable {display : RecordType → Str} {s s' : Server} {clock : Clock} {out : List Output}

theorem advance_beside (cold : List Request) (waiting : List Waiting)
    (h : s.advance clock = some s') :
    ({ s with cold, waiting } : Server).advance clock = some { s' with cold, waiting } := by
  obtain ⟨hle, rfl⟩ := advance_eq_some h
  exact if_neg (Nat.not_lt.mpr hle)

/-- **A step is the same whatever other calls there are**, but for the place of the
call it is about. -/
theorem step_beside {input : Input} (hudp : input.isUdp = false) (hcold : s.cold = [])
    (cold : List Request) {waiting others : List Waiting}
    (hwaiting : waiting.Perm (s.waiting ++ others))
    (h : s.step display input = some (s', out)) :
    ∃ input' waiting', ({ s with cold, waiting } : Server).step display input' =
        some ({ s' with cold, waiting := waiting' }, out) ∧
      waiting'.Perm (s'.waiting ++ others) ∧ s'.cold = [] ∧ input'.outside = input.outside := by
  cases input with
  | message client packet clock =>
    rw [step] at h
    split at h
    · cases h
    · next m hadvance =>
      have hlistener : client.listener ≠ .monoUdp := by simpa [Input.isUdp] using hudp
      obtain ⟨added, -, hkept, hadded, hsame⟩ := message_beside hlistener cold waiting h
      obtain ⟨-, rfl⟩ := advance_eq_some hadvance
      refine ⟨.message client packet clock, waiting ++ added, ?_, ?_, hkept.trans hcold, rfl⟩
      · rw [step, advance_beside cold waiting hadvance]
        exact hsame
      · rw [hadded, List.append_assoc]
        refine (hwaiting.append_right added).trans ?_
        rw [List.append_assoc]
        exact (List.perm_append_comm).append_left s.waiting
  | cold i clock =>
    -- nothing is queued on this side
    rw [step, hcold] at h
    split at h
    · next hnone => cases hnone
    · cases h
  | datagram i server src bytes clock =>
    rw [step] at h
    split at h
    · next m w hadvance hw =>
      split at h
      · next haccept =>
        obtain ⟨hle, rfl⟩ := advance_eq_some hadvance
        obtain ⟨rfl, rfl⟩ := Prod.mk.inj (Option.some.inj h)
        -- among more calls the same one stands at another place
        obtain ⟨j, hj, htaken⟩ := exists_taken
          (hwaiting.trans ((perm_of_getElem? hw).append_right others))
        refine ⟨.datagram j server src bytes clock, waiting.eraseIdx j, ?_, htaken, hcold, rfl⟩
        rw [step, advance_beside cold waiting hadvance]
        dsimp only
        rw [hj]
        dsimp only
        rw [if_pos haccept]
        rfl
      · cases h
    · cases h
  | unresolved i =>
    rw [step] at h
    split at h
    · next w hw =>
      obtain ⟨rfl, rfl⟩ := Prod.mk.inj (Option.some.inj h)
      obtain ⟨j, hj, htaken⟩ := exists_taken
        (hwaiting.trans ((perm_of_getElem? hw).append_right others))
      refine ⟨.unresolved j, waiting.eraseIdx j, ?_, htaken, hcold, rfl⟩
      rw [step]
      dsimp only
      rw [hj]
      rfl
    · cases h
  | configure config =>
    obtain ⟨rfl, rfl⟩ := Prod.mk.inj (Option.some.inj h)
    exact ⟨.configure config, waiting, rfl, hwaiting, hcold, rfl⟩
  | setBlockList list =>
    obtain ⟨rfl, rfl⟩ := Prod.mk.inj (Option.some.inj h)
    exact ⟨.setBlockList list, waiting, rfl, hwaiting, hcold, rfl⟩
  | setAllowList list =>
    obtain ⟨rfl, rfl⟩ := Prod.mk.inj (Option.some.inj h)
    exact ⟨.setAllowList list, waiting, rfl, hwaiting, hcold, rfl⟩

end Server

namespace Server

variable {display : RecordType → Str} {s s' : Server} {clock : Clock} {out : List Output}

/-- A worker's client has no connection. -/
theorem setConn_udp {client : Client} (hudp : client.listener = .monoUdp) (state : ConnState) :
    s.setConn client state = s := by
  rw [setConn, hudp]
  rfl

theorem deliver_udp {client : Client} (hudp : client.listener = .monoUdp) (packet raw : Bytes)
    (event : Option DnsQueryEvent) :
    s.deliver client packet raw event = (s, [.reply ⟨client, packet, raw, event, s.now⟩]) := by
  rw [deliver, setConn_udp hudp]

/-- What is not from a worker's socket stays so, and nor do replies go there. -/
theorem step_others {input : Input} (hudp : input.isUdp = false) (hcold : s.cold = [])
    (hothers : ∀ w ∈ s.waiting, w.request.client.listener ≠ .monoUdp)
    (h : s.step display input = some (s', out)) :
    (∀ w ∈ s'.waiting, w.request.client.listener ≠ .monoUdp) ∧
      ∀ r, .reply r ∈ out → r.client.listener ≠ .monoUdp := by
  have hbegins : ∀ {req clock}, Begins s input req clock → req.client.listener ≠ .monoUdp := by
    intro req clock hb
    cases hb with
    | message hlistener _ => exact hlistener
    | cold hreq =>
      rw [hcold] at hreq
      cases hreq
  cases step_transition h with
  | idle _ hframe _ => exact ⟨hframe.waiting_forall hothers (by simp), by simp⟩
  | unserved _ _ _ hframe _ => exact ⟨hframe.waiting_forall hothers (by simp), by simp⟩
  | refused hlistener _ _ _ => simp [Input.isUdp, hlistener] at hudp
  | hot hlistener _ _ _ _ _ => simp [Input.isUdp, hlistener] at hudp
  | hotMiss hlistener _ _ _ => simp [Input.isUdp, hlistener] at hudp
  | handled hb _ hframe _ _ =>
    refine ⟨hframe.waiting_forall hothers (by simp), ?_⟩
    intro r hr
    obtain rfl := Output.reply.inj (List.mem_singleton.mp hr)
    exact hbegins hb
  | forwarded hb _ _ hframe _ =>
    refine ⟨hframe.waiting_forall hothers ?_, by simp⟩
    intro w hw
    obtain rfl := List.mem_singleton.mp hw
    exact hbegins hb
  | relayed hw _ _ hframe _ _ =>
    refine ⟨hframe.waiting_forall hothers (by simp), ?_⟩
    intro r hr
    obtain rfl : r = _ := by simpa using hr
    exact hothers _ hw

end Server

end Denis
