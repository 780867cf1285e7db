import Denis.Dns.Server
import Denis.Handler.Accepted

/-!
# Replies that reach another instance (`dns/mono.rs:86–209`)

A reply goes to the source address of a datagram, so another instance may receive
it. No part of the program reads the QR bit: `parse_udp` takes a reply for a
query. A reply built by `blocked` keeps the question, so it asks what the query
asked (`parseUdp_of_question`), and the other instance drops it just where it drops
such a query (`drops_iff`).

`Peers` are two instances with a reply under way from one to the other. Where each
refuses the other, or blocks the name, their exchange has no end (`Peers.endless`).
-/

namespace Denis

open Text

/-- The UDP listener of a runtime. -/
def Runtime.udp : Runtime → Listener
  | .monoio => .monoUdp
  | .tokio => .tokioUdp

namespace Server

section Datagrams

variable (display : RecordType → Str) (s : Server) (addr : SocketAddr) (datagram : Bytes)

/-- An address that datagrams come from. -/
def sender : Client := ⟨s.runtime.udp, addr, 0⟩

/-- The datagram is dropped: nothing is sent and no call begun. -/
def Drops (clock : Clock) : Prop :=
  s.step display (.message (s.sender addr) datagram clock) = some ({ s with now := clock.now }, [])

/-- Some run on the inputs `es` sends a reply to a message. -/
def Replies (es : List Input) (client : Client) (packet : Bytes) : Prop :=
  ∃ s' outs r, (machine display).run s es = some (s', outs) ∧ .reply r ∈ outs ∧
    r.client = client ∧ r.packet = packet

/-- The datagram is answered, at once or later. -/
def Answers (clock : Clock) : Prop :=
  ∃ es, Replies display s (.message (s.sender addr) datagram clock :: es) (s.sender addr) datagram

/-- What a datagram needs to be taken up: a question, and on the monoio runtime a
sender who is not denied, on tokio an answer at hand or an upstream. -/
def TakesUp (clock : Clock) : Prop :=
  ∃ query, Parser.parseUdp (datagram.take udpRecvBuf) = .ok query ∧
    match s.runtime with
    | .monoio => s.acl.decide addr.ip ≠ .deny
    | .tokio => s.cache.isBlocked query.name = true ∨
        s.cache.l1Get display clock.now query ≠ none ∨ s.config.upstreams ≠ []

/-- A query for the name is answered at once: its sender is refused, or the name is
blocked. -/
def AnswersAtOnce (name : Str) : Prop :=
  match s.runtime with
  | .monoio => s.acl.decide addr.ip = .refuse ∨
      (s.acl.decide addr.ip = .allow ∧ s.cache.isBlocked name = true)
  | .tokio => s.cache.isBlocked name = true

end Datagrams

/-! ## What becomes of a datagram -/

section Taken

variable {display : RecordType → Str} {s s' : Server} {addr : SocketAddr} {datagram : Bytes}
  {client : Client} {packet : Bytes} {query : Query} {clock : Clock}

/-- A datagram taken up: a reply is sent, or a request queued, or an upstream
asked. -/
inductive Taken (s : Server) (client : Client) (packet : Bytes) : Server → List Output → Prop
  | replied {s' : Server} {r : Reply} :
      r.client = client → r.packet = packet → Taken s client packet s' [.reply r]
  | queued {s' : Server} {req : Request} :
      req.client = client → req.packet = packet → s'.cold = s.cold ++ [req] →
      Taken s client packet s' []
  | forwarded {s' : Server} {w : Waiting} :
      w.request.client = client → w.request.packet = packet → w.servers ≠ [] →
      s'.waiting = s.waiting ++ [w] →
      Taken s client packet s' [.forward client w.request.query]

@[simp] theorem setConn_sender (t : Server) (state : ConnState) :
    t.setConn (s.sender addr) state = t := by
  unfold setConn sender
  cases s.runtime <;> rfl

@[simp] theorem buffer_sender :
    (s.sender addr).listener.buffer datagram = datagram.take udpRecvBuf := by
  unfold sender
  cases s.runtime <;> rfl

variable (display addr datagram) in
/-- On monoio a datagram goes to a worker. -/
theorem step_monoUdp (hruntime : s.runtime = .monoio) (hclock : s.now ≤ clock.now) :
    s.step display (.message (s.sender addr) datagram clock) =
      some (monoUdp display { s with now := clock.now } (s.sender addr) datagram clock) := by
  have hadvance : s.advance clock = some { s with now := clock.now } := if_neg (by omega)
  rw [step, hadvance]
  dsimp only [message]
  rw [sender, hruntime]
  rfl

variable (display addr datagram) in
/-- On tokio it goes to `handle`. -/
theorem step_handle (hruntime : s.runtime = .tokio) (hclock : s.now ≤ clock.now) :
    s.step display (.message (s.sender addr) datagram clock) =
      some (handle display { s with now := clock.now } (s.sender addr) datagram clock) := by
  have hadvance : s.advance clock = some { s with now := clock.now } := if_neg (by omega)
  rw [step, hadvance]
  dsimp only [message]
  rw [sender, hruntime]
  rfl

/-- The calls under way are all that counts of the state before. -/
theorem Taken.of_calls {m : Server} {out : List Output} (h : Taken m client packet s' out)
    (hcold : m.cold = s.cold) (hwaiting : m.waiting = s.waiting) :
    Taken s client packet s' out := by
  cases h with
  | replied hclient hpacket => exact .replied hclient hpacket
  | queued hclient hpacket hqueued => exact .queued hclient hpacket (hcold ▸ hqueued)
  | forwarded hclient hpacket hservers hadded =>
    exact .forwarded hclient hpacket hservers (hwaiting ▸ hadded)

variable (display clock) in
/-- A request from a datagram is taken up by `handle_parsed`, unless `resolve` is
called without upstreams. -/
theorem beginHandle_sender {m : Server} {req : Request} (hclient : req.client = s.sender addr) :
    ((m.cache.isBlocked req.query.name = true ∨
        m.cache.l1Get display clock.now req.query ≠ none ∨ m.config.upstreams ≠ []) ∧
      Taken m req.client req.packet (m.beginHandle display req clock).1
        (m.beginHandle display req clock).2) ∨
    (¬ (m.cache.isBlocked req.query.name = true ∨
        m.cache.l1Get display clock.now req.query ≠ none ∨ m.config.upstreams ≠ []) ∧
      m.beginHandle display req clock = (m, [])) := by
  unfold beginHandle
  cases hbegin : QueryHandler.beginParsed display m.cache m.config req.query clock with
  | some found =>
    obtain ⟨cache, served⟩ := found
    refine .inl ⟨?_, .replied rfl rfl⟩
    by_contra hnone
    rw [not_or, not_or, Bool.not_eq_true, not_not] at hnone
    rw [QueryHandler.beginParsed_eq_none.mpr ⟨hnone.1, hnone.2.1⟩] at hbegin
    cases hbegin
  | none =>
    obtain ⟨hopen, hmiss⟩ := QueryHandler.beginParsed_eq_none.mp hbegin
    dsimp only
    by_cases hservers : m.config.upstreams = []
    · refine .inr ⟨?_, ?_⟩
      · simp [hopen, hmiss, hservers]
      · rw [if_pos hservers, hclient, setConn_sender]
    · refine .inl ⟨.inr (.inr hservers), ?_⟩
      rw [if_neg hservers, hclient, setConn_sender, ← hclient]
      exact @Taken.forwarded m _ _ _ ⟨req, m.config.upstreams⟩ rfl rfl hservers rfl

/-- What does not parse is not taken up. -/
theorem not_takesUp {error : ParseError}
    (herror : Parser.parseUdp ((s.sender addr).listener.buffer datagram) = .error error) :
    ¬ s.TakesUp display addr datagram clock := by
  rintro ⟨query, hparse, -⟩
  rw [buffer_sender] at herror
  cases herror.symm.trans hparse

/-- What parses is, on monoio, if its sender is not denied. -/
theorem takesUp_monoio (hruntime : s.runtime = .monoio)
    (hparse : Parser.parseUdp ((s.sender addr).listener.buffer datagram) = .ok query) :
    s.TakesUp display addr datagram clock ↔ s.acl.decide addr.ip ≠ .deny := by
  rw [buffer_sender] at hparse
  rw [TakesUp, hruntime]
  refine ⟨fun ⟨_, _, hallowed⟩ => hallowed, fun hallowed => ⟨query, hparse, hallowed⟩⟩

/-- On tokio, if `handle_parsed` has an answer or an upstream. -/
theorem takesUp_tokio (hruntime : s.runtime = .tokio)
    (hparse : Parser.parseUdp ((s.sender addr).listener.buffer datagram) = .ok query) :
    s.TakesUp display addr datagram clock ↔ (s.cache.isBlocked query.name = true ∨
      s.cache.l1Get display clock.now query ≠ none ∨ s.config.upstreams ≠ []) := by
  rw [buffer_sender] at hparse
  rw [TakesUp, hruntime]
  constructor
  · rintro ⟨query', hparse', htaken⟩
    cases hparse.symm.trans hparse'
    exact htaken
  · exact fun htaken => ⟨query, hparse, htaken⟩

/-- On tokio every datagram is parsed, and what parses goes to `handle_parsed`. -/
theorem handle_taken_or_dropped (hruntime : s.runtime = .tokio) :
    (s.TakesUp display addr datagram clock ∧
      Taken s (s.sender addr) datagram
        (handle display { s with now := clock.now } (s.sender addr) datagram clock).1
        (handle display { s with now := clock.now } (s.sender addr) datagram clock).2) ∨
    (¬ s.TakesUp display addr datagram clock ∧
      handle display { s with now := clock.now } (s.sender addr) datagram clock =
        ({ s with now := clock.now }, [])) := by
  cases hparse : Parser.parseUdp ((s.sender addr).listener.buffer datagram) with
  | error e =>
    refine .inr ⟨not_takesUp hparse, ?_⟩
    rw [handle_error hparse, setConn_sender]
  | ok query =>
    rw [handle_ok hparse, takesUp_tokio hruntime hparse]
    let req : Request := ⟨s.sender addr, datagram, query, clock.timestampMs, hparse⟩
    have hclient : req.client = s.sender addr := rfl
    rcases beginHandle_sender display clock (m := { s with now := clock.now }) hclient with
      ⟨htaken, hbegin⟩ | hdropped
    · exact .inl ⟨htaken, hbegin.of_calls rfl rfl⟩
    · exact .inr hdropped

/-- On monoio the access list is asked first; what it does not deny is answered or
queued if it parses. -/
theorem monoUdp_taken_or_dropped (hruntime : s.runtime = .monoio) :
    (s.TakesUp display addr datagram clock ∧
      Taken s (s.sender addr) datagram
        (monoUdp display { s with now := clock.now } (s.sender addr) datagram clock).1
        (monoUdp display { s with now := clock.now } (s.sender addr) datagram clock).2) ∨
    (¬ s.TakesUp display addr datagram clock ∧
      monoUdp display { s with now := clock.now } (s.sender addr) datagram clock =
        ({ s with now := clock.now }, [])) := by
  cases hparse : Parser.parseUdp ((s.sender addr).listener.buffer datagram) with
  | error e => exact .inr ⟨not_takesUp hparse, monoUdp_error hparse⟩
  | ok query =>
    have hdecide : ({ s with now := clock.now } : Server).acl.decide (s.sender addr).addr.ip =
        s.acl.decide addr.ip := rfl
    rw [monoUdp_ok hparse, takesUp_monoio hruntime hparse, hdecide]
    cases s.acl.decide addr.ip with
    | deny => exact .inr ⟨not_not_intro rfl, rfl⟩
    | refuse => exact .inl ⟨by decide, .replied rfl rfl⟩
    | allow =>
      refine .inl ⟨by decide, ?_⟩
      dsimp only
      cases QueryHandler.beginParsed display s.cache s.config query clock with
      | some found => exact .replied rfl rfl
      | none => exact .queued rfl rfl rfl

variable (display addr datagram) in
/-- **What becomes of a datagram**: it is taken up or dropped. -/
theorem taken_or_dropped (hclock : s.now ≤ clock.now) :
    (s.TakesUp display addr datagram clock ∧ ∃ s' out,
      s.step display (.message (s.sender addr) datagram clock) = some (s', out) ∧
      Taken s (s.sender addr) datagram s' out) ∨
    (¬ s.TakesUp display addr datagram clock ∧ s.Drops display addr datagram clock) := by
  cases hruntime : s.runtime with
  | monoio =>
    have hstep := step_monoUdp display addr datagram hruntime hclock
    rcases monoUdp_taken_or_dropped hruntime with ⟨htakes, htaken⟩ | ⟨hdropped, hsame⟩
    · exact .inl ⟨htakes, _, _, hstep, htaken⟩
    · exact .inr ⟨hdropped, hstep.trans (congrArg some hsame)⟩
  | tokio =>
    have hstep := step_handle display addr datagram hruntime hclock
    rcases handle_taken_or_dropped hruntime with ⟨htakes, htaken⟩ | ⟨hdropped, hsame⟩
    · exact .inl ⟨htakes, _, _, hstep, htaken⟩
    · exact .inr ⟨hdropped, hstep.trans (congrArg some hsame)⟩

/-- What is taken up leaves a trace. -/
theorem Taken.not_dropped {out : List Output} (h : Taken s client packet s' out) (now : Nat) :
    (s', out) ≠ ({ s with now }, []) := by
  intro heq
  obtain ⟨rfl, rfl⟩ := Prod.mk.inj heq
  cases h with
  | queued _ _ hcold =>
    exact absurd (congrArg List.length hcold) (by simp)

/-- **The datagrams dropped.** -/
theorem drops_iff (hclock : s.now ≤ clock.now) :
    s.Drops display addr datagram clock ↔ ¬ s.TakesUp display addr datagram clock := by
  rcases taken_or_dropped display addr datagram hclock with
    ⟨htakes, s', out, hstep, htaken⟩ | ⟨hdropped, hdrops⟩
  · refine iff_of_false ?_ (not_not_intro htakes)
    intro hdrops
    exact htaken.not_dropped clock.now (Option.some.inj (hstep.symm.trans hdrops))
  · exact iff_of_true hdrops hdropped

/-! ## Until the reply -/

section Replies

variable {req : Request} {out : List Output}

theorem Replies.now {e : Input} {r : Reply} (hstep : s.step display e = some (s', out))
    (hr : .reply r ∈ out) (hclient : r.client = client) (hpacket : r.packet = packet) :
    s.Replies display [e] client packet :=
  ⟨s', out ++ [], r, Machine.run_cons_eq_some.mpr ⟨s', out, [], hstep, rfl, rfl⟩,
    List.mem_append_left _ hr, hclient, hpacket⟩

theorem Replies.later {e : Input} {es : List Input} (hstep : s.step display e = some (s', out))
    (h : s'.Replies display es client packet) : s.Replies display (e :: es) client packet := by
  obtain ⟨t, outs, r, hrun, hr, hclient, hpacket⟩ := h
  exact ⟨t, out ++ outs, r, Machine.run_cons_eq_some.mpr ⟨s', out, outs, hstep, hrun, rfl⟩,
    List.mem_append_right _ hr, hclient, hpacket⟩

variable (display) in
/-- A waiting request is answered when an upstream answers. -/
theorem replies_of_waiting {w : Waiting} (hw : w ∈ s.waiting) (hservers : w.servers ≠ []) :
    ∃ es, s.Replies display es w.request.client w.request.packet := by
  obtain ⟨i, hi⟩ := List.getElem?_of_mem hw
  obtain ⟨server, rest, hserver⟩ := List.exists_cons_of_ne_nil hservers
  have hmem : server ∈ w.servers := by simp [hserver]
  -- its id is all that is asked of the datagram
  let answer : Bytes := [w.request.query.raw.getD 0 0, w.request.query.raw.getD 1 0]
  have haccepts : exchangeAccepts server w.request.query server answer = true := by
    simp [exchangeAccepts, answer, upstreamRecvBuf]
  have hstep : s.step display (.datagram i server server answer ⟨s.now, 0, 0⟩) =
      some (complete display { s with waiting := s.waiting.eraseIdx i } w.request ⟨s.now, 0, 0⟩
        answer) := by
    have hadvance : s.advance ⟨s.now, 0, 0⟩ = some s := if_neg (Nat.lt_irrefl _)
    rw [step, hadvance, hi]
    exact if_pos ⟨hmem, haccepts⟩
  exact ⟨_, .now hstep (List.mem_cons_of_mem _ (List.mem_singleton_self _)) rfl rfl⟩

variable (display) in
/-- A queued request is answered once there are upstreams. -/
theorem replies_of_cold (hreq : req ∈ s.cold) :
    ∃ es, s.Replies display es req.client req.packet := by
  obtain ⟨i, hi⟩ := List.getElem?_of_mem hreq
  let config : RuntimeConfig := { s.config with upstreams := [req.client.addr] }
  let m : Server := { s with config := config, cold := s.cold.eraseIdx i }
  have hconfigure : s.step display (.configure config) = some ({ s with config }, []) := rfl
  have hcold : ({ s with config } : Server).step display (.cold i ⟨s.now, 0, 0⟩) =
      some (m.beginHandle display req ⟨s.now, 0, 0⟩) := by
    have hadvance : ({ s with config } : Server).advance ⟨s.now, 0, 0⟩ =
        some { s with config } := if_neg (Nat.lt_irrefl _)
    have hcall : ({ s with config } : Server).cold[i]? = some req := hi
    rw [step, hadvance, hcall]
  cases hbegin : QueryHandler.beginParsed display m.cache m.config req.query ⟨s.now, 0, 0⟩ with
  | some found =>
    obtain ⟨cache, served⟩ := found
    rw [beginHandle, hbegin] at hcold
    exact ⟨_, .later hconfigure (.now hcold (List.mem_singleton_self _) rfl rfl)⟩
  | none =>
    have hservers : m.config.upstreams ≠ [] := List.cons_ne_nil _ _
    rw [beginHandle, hbegin] at hcold
    dsimp only at hcold
    rw [if_neg hservers] at hcold
    obtain ⟨es, hes⟩ := replies_of_waiting display
      (s := setConn { m with waiting := m.waiting ++ [⟨req, m.config.upstreams⟩] } req.client .busy)
      (w := ⟨req, m.config.upstreams⟩)
      (List.mem_append_right _ (List.mem_singleton_self _)) hservers
    exact ⟨_, .later hconfigure (.later hcold hes)⟩

/-- **What is taken up is answered** in some run. -/
theorem answers_of_takesUp (hclock : s.now ≤ clock.now)
    (htakes : s.TakesUp display addr datagram clock) :
    s.Answers display addr datagram clock := by
  rcases taken_or_dropped display addr datagram hclock with
    ⟨-, s', out, hstep, htaken⟩ | ⟨hdropped, -⟩
  · cases htaken with
    | replied hclient hpacket =>
      exact ⟨[], .now hstep (List.mem_singleton_self _) hclient hpacket⟩
    | queued hclient hpacket hqueued =>
      obtain ⟨es, hes⟩ := replies_of_cold display (s := s')
        (hqueued ▸ List.mem_append_right _ (List.mem_singleton_self _))
      rw [hclient, hpacket] at hes
      exact ⟨es, .later hstep hes⟩
    | forwarded hclient hpacket hservers hadded =>
      obtain ⟨es, hes⟩ := replies_of_waiting display (s := s')
        (hadded ▸ List.mem_append_right _ (List.mem_singleton_self _)) hservers
      rw [hclient, hpacket] at hes
      exact ⟨es, .later hstep hes⟩
  · exact absurd htakes hdropped

end Replies

end Taken

/-! ## Replies that ask the question again -/

section Repeats

variable {display : RecordType → Str} {s s' : Server} {addr : SocketAddr} {datagram : Bytes}
  {clock : Clock} {query : Query}

/-- The bytes go on like the query's, from the header to where its question ends. -/
def RepeatsQuestion (query : Query) (raw : Bytes) : Prop :=
  (UpstreamResponse.question query).drop Parser.header <+: raw.drop Parser.header

/-- **A reply with the question is a query for it.** -/
theorem parseUdp_of_question {raw : Bytes} (h : Parser.parseUdp datagram = .ok query)
    (hrepeats : RepeatsQuestion query raw) : Parser.parseUdp (raw.take udpRecvBuf) =
      .ok { query with raw := raw.take udpRecvBuf } := by
  have hhigh := (Parser.parseUdp_bounded h).high
  have hfits := (Parser.parseUdp_bounded h).fits
  rw [Parser.parseUdp_raw h] at hfits
  -- the scanner reads no further than the type, which is copied
  have hread : (datagram.take (query.answerOffset - 2)).drop Parser.header <+:
      (UpstreamResponse.question query).drop Parser.header := by
    rw [UpstreamResponse.question, Parser.parseUdp_raw h, List.drop_take, List.drop_take]
    exact List.take_prefix_take_left (by omega)
  refine Parser.parseUdp_of_prefix h ?_
  rw [List.drop_take (l := raw), List.prefix_take_iff]
  refine ⟨hread.trans hrepeats, ?_⟩
  rw [List.length_drop, List.length_take, udpRecvBuf]
  omega

/-- What `blocked` builds has it. -/
theorem repeatsQuestion_blocked (h : Parser.parseUdp datagram = .ok query) (mode : BlockingMode) :
    RepeatsQuestion query (UpstreamResponse.blocked query mode).raw :=
  UpstreamResponse.blocked_question (Parser.parseUdp_bounded h) mode

variable (display clock) in
/-- A blocked name is served from the block decision. -/
theorem beginParsed_blocked {cache : Cache} (config : RuntimeConfig)
    (hblocked : cache.isBlocked query.name = true) : ∃ served,
      QueryHandler.beginParsed display cache config query clock = some (cache, served) ∧
      served.raw = (UpstreamResponse.blocked query config.blockingMode).raw :=
  ⟨_, QueryHandler.beginParsed_eq.trans (if_pos hblocked), rfl⟩

variable (display) in
/-- The monoio worker at once replies to a refused sender and for a blocked name. -/
theorem monoUdp_atOnce (hready : s.acl.decide addr.ip = .refuse ∨
      (s.acl.decide addr.ip = .allow ∧ s.cache.isBlocked query.name = true))
    (hparse : Parser.parseUdp ((s.sender addr).listener.buffer datagram) = .ok query) :
    ∃ mode event, monoUdp display { s with now := clock.now } (s.sender addr) datagram clock =
      ({ s with now := clock.now }, [.reply ⟨s.sender addr, datagram,
        (UpstreamResponse.blocked query mode).raw, event, clock.now⟩]) := by
  have hdecide : ({ s with now := clock.now } : Server).acl.decide (s.sender addr).addr.ip =
      s.acl.decide addr.ip := rfl
  rw [monoUdp_ok hparse, hdecide]
  rcases hready with hrefuse | ⟨hallow, hblocked⟩
  · refine ⟨.refused, none, ?_⟩
    rw [hrefuse]
    simp only [deliver, setConn_sender]
  · obtain ⟨served, hbegin, hraw⟩ := beginParsed_blocked display clock s.config hblocked
    refine ⟨s.config.blockingMode, some (QueryHandler.event query clock.timestampMs served), ?_⟩
    rw [hallow]
    simp only [hbegin, deliver, setConn_sender, ← hraw]

/-- `handle` at once replies for a blocked name. -/
theorem handle_atOnce (hblocked : s.cache.isBlocked query.name = true)
    (hparse : Parser.parseUdp ((s.sender addr).listener.buffer datagram) = .ok query) :
    ∃ mode event, handle display { s with now := clock.now } (s.sender addr) datagram clock =
      ({ s with now := clock.now }, [.reply ⟨s.sender addr, datagram,
        (UpstreamResponse.blocked query mode).raw, event, clock.now⟩]) := by
  obtain ⟨served, hbegin, hraw⟩ := beginParsed_blocked display clock s.config hblocked
  refine ⟨s.config.blockingMode, some (QueryHandler.event query clock.timestampMs served), ?_⟩
  rw [handle_ok hparse, beginHandle]
  simp only [hbegin, deliver, setConn_sender, ← hraw]

variable (display) in
/-- **An answer at once** is a reply of `blocked`, and changes nothing. -/
theorem step_atOnce (hready : s.AnswersAtOnce addr query.name)
    (hparse : Parser.parseUdp (datagram.take udpRecvBuf) = .ok query) (hclock : s.now ≤ clock.now) :
    ∃ mode event, s.step display (.message (s.sender addr) datagram clock) =
      some ({ s with now := clock.now }, [.reply ⟨s.sender addr, datagram,
        (UpstreamResponse.blocked query mode).raw, event, clock.now⟩]) := by
  rw [← @buffer_sender s addr] at hparse
  unfold AnswersAtOnce at hready
  split at hready
  · next hruntime =>
    obtain ⟨mode, event, hworker⟩ := monoUdp_atOnce display hready hparse
    exact ⟨mode, event, (step_monoUdp display addr datagram hruntime hclock).trans
      (congrArg some hworker)⟩
  · next hruntime =>
    obtain ⟨mode, event, hhandle⟩ := handle_atOnce hready hparse
    exact ⟨mode, event, (step_handle display addr datagram hruntime hclock).trans
      (congrArg some hhandle)⟩

end Repeats

end Server

/-! ## Two instances -/

/-- Two instances, with a reply of one under way to the other. -/
structure Peers where
  receiver : Server
  receiverAddr : SocketAddr
  origin : Server
  originAddr : SocketAddr
  flight : Bytes

namespace Peers

/-- The reply arrives, and is replied to at once; the roles change. -/
def step (display : RecordType → Str) (p : Peers) (clock : Clock) : Option (Peers × List Bytes) :=
  match p.receiver.step display
      (.message (p.receiver.sender p.originAddr) p.flight clock) with
  | some (receiver, [.reply r]) =>
    some (⟨p.origin, p.originAddr, receiver, p.receiverAddr, r.raw⟩, [r.raw])
  | _ => none

/-- The exchange; its outputs are the replies sent. -/
abbrev machine (display : RecordType → Str) : Machine Peers Clock Bytes := ⟨step display⟩

/-- Clocks that do not run backwards from the two instances' times on. -/
def Onward (p : Peers) (clocks : List Clock) : Prop :=
  clocks.Pairwise (fun c d => c.now ≤ d.now) ∧
    ∀ c ∈ clocks, p.receiver.now ≤ c.now ∧ p.origin.now ≤ c.now

/-- **The exchange has no end**, at whatever times the replies arrive, where each
instance answers the other at once. -/
theorem endless (display : RecordType → Str) {p : Peers} {query : Query}
    (hflight : Parser.parseUdp (p.flight.take udpRecvBuf) = .ok query)
    (hreceiver : p.receiver.AnswersAtOnce p.originAddr query.name)
    (horigin : p.origin.AnswersAtOnce p.receiverAddr query.name) {clocks : List Clock}
    (honward : p.Onward clocks) :
    ∃ p' replies, (machine display).run p clocks = some (p', replies) ∧
      replies.length = clocks.length := by
  induction clocks generalizing p query with
  | nil => exact ⟨p, [], rfl, rfl⟩
  | cons clock clocks ih =>
    obtain ⟨horder, hstart⟩ := honward
    obtain ⟨hlater, horder⟩ := List.pairwise_cons.mp horder
    obtain ⟨mode, event, hstep⟩ := Server.step_atOnce display hreceiver hflight
      (hstart clock (List.mem_cons_self ..)).1
    -- the reply asks for the name again
    have hagain := Server.parseUdp_of_question hflight
      (Server.repeatsQuestion_blocked hflight mode)
    let raw := (UpstreamResponse.blocked query mode).raw
    have hpeers : (machine display).step p clock = some (⟨p.origin, p.originAddr,
        { p.receiver with now := clock.now }, p.receiverAddr, raw⟩, [raw]) := by
      show step display p clock = _
      rw [step, hstep]
    obtain ⟨p', replies, hrun, hlength⟩ := ih (p := ⟨p.origin, p.originAddr,
      { p.receiver with now := clock.now }, p.receiverAddr, raw⟩) hagain horigin hreceiver
      ⟨horder, fun c hc => ⟨(hstart c (List.mem_cons_of_mem _ hc)).2, hlater c hc⟩⟩
    exact ⟨p', raw :: replies,
      Machine.run_cons_eq_some.mpr ⟨_, [raw], replies, hpeers, hrun, rfl⟩,
      congrArg Nat.succ hlength⟩

end Peers

/-! ## Any reply, at any instance -/

section Replies

variable {display : RecordType → Str}

/-- The reply was built by `blocked`: a REFUSED, which has no event, or one whose event
says so. -/
def Reply.Built (r : Reply) : Prop := ∀ event, r.event = some event → event.blocked = true

/-- What is served as blocked was built by `blocked`. -/
theorem QueryHandler.beginParsed_built {cache cache' : Cache} {config : RuntimeConfig}
    {query : Query} {clock : Clock} {served : Served}
    (h : beginParsed display cache config query clock = some (cache', served))
    (hblocked : served.blocked = true) :
    served.raw = (UpstreamResponse.blocked query config.blockingMode).raw := by
  rw [beginParsed_eq] at h
  split at h
  · cases h
    rfl
  · split at h
    · cases h
      cases hblocked
    · cases h

/-- So it has the question. -/
theorem Server.repeatsQuestion_served {cache cache' : Cache} {config : RuntimeConfig}
    {packet : Bytes} {query : Query} {clock : Clock} {served : Served}
    (hparse : Parser.parseUdp packet = .ok query)
    (hbegin : QueryHandler.beginParsed display cache config query clock = some (cache', served))
    (hblocked : served.blocked = true) : RepeatsQuestion query served.raw := by
  rw [QueryHandler.beginParsed_built hbegin hblocked]
  exact repeatsQuestion_blocked hparse _

/-- **The replies of a server** are to messages it could parse, and those built by
`blocked` have the question. -/
theorem Server.reply_question {s s' : Server} {e : Input} {out : List Output} {r : Reply}
    (hstep : s.step display e = some (s', out)) (hr : .reply r ∈ out) :
    ∃ query, Parser.parseUdp (r.client.listener.buffer r.packet) = .ok query ∧
      (r.Built → RepeatsQuestion query r.raw) := by
  cases step_transition hstep with
  | idle => cases hr
  | unserved => cases hr
  | @refused req =>
    obtain rfl := Output.reply.inj (List.mem_singleton.mp hr)
    exact ⟨req.query, req.parsed, fun _ => repeatsQuestion_blocked req.parsed .refused⟩
  | @hot req _ _ _ _ _ _ hbegin =>
    obtain rfl := Output.reply.inj (List.mem_singleton.mp hr)
    exact ⟨req.query, req.parsed, fun hbuilt =>
      repeatsQuestion_served req.parsed hbegin (hbuilt _ rfl)⟩
  | hotMiss => cases hr
  | @handled _ req _ _ _ _ _ hbegin =>
    obtain rfl := Output.reply.inj (List.mem_singleton.mp hr)
    exact ⟨req.query, req.parsed, fun hbuilt =>
      repeatsQuestion_served req.parsed hbegin (hbuilt _ rfl)⟩
  | forwarded => exact absurd (List.mem_singleton.mp hr) (by simp)
  | @relayed _ w =>
    rcases List.mem_cons.mp hr with hr | hr
    · cases hr
    · obtain rfl := Output.reply.inj (List.mem_singleton.mp hr)
      refine ⟨w.request.query, w.request.parsed, fun hbuilt => ?_⟩
      -- a relayed response is not built
      exact absurd (hbuilt _ rfl) Bool.false_ne_true

/-- **A reply is a query to another instance**, in any state: it is dropped just if
nothing takes it up, and otherwise answered in some run. A reply that repeats the
question, as those built by `blocked` do, asks it again, and has no end of answers
where both instances answer at once. -/
theorem Server.replies_taken_as_queries {s s' : Server} {e : Input} {out : List Output} {r : Reply}
    (hstep : s.step display e = some (s', out)) (hr : .reply r ∈ out) (addr peer : SocketAddr)
    {t : Server} {clock : Clock} (hclock : t.now ≤ clock.now) :
    (t.Drops display addr r.raw clock ↔ ¬ t.TakesUp display addr r.raw clock) ∧
    (t.TakesUp display addr r.raw clock → t.Answers display addr r.raw clock) ∧
    ∃ query, Parser.parseUdp (r.client.listener.buffer r.packet) = .ok query ∧
      (r.Built → RepeatsQuestion query r.raw) ∧
      (RepeatsQuestion query r.raw →
        Parser.parseUdp (r.raw.take udpRecvBuf) = .ok { query with raw := r.raw.take udpRecvBuf } ∧
        (t.AnswersAtOnce addr query.name → s'.AnswersAtOnce peer query.name →
          ∀ clocks, (⟨t, peer, s', addr, r.raw⟩ : Peers).Onward clocks →
            ∃ p replies, (Peers.machine display).run ⟨t, peer, s', addr, r.raw⟩ clocks =
              some (p, replies) ∧ replies.length = clocks.length)) := by
  obtain ⟨query, hparse, hbuilt⟩ := reply_question hstep hr
  refine ⟨drops_iff hclock, answers_of_takesUp hclock, query, hparse, hbuilt, fun hrepeats => ?_⟩
  have hagain := parseUdp_of_question hparse hrepeats
  exact ⟨hagain, fun hready hready' clocks honward =>
    Peers.endless display hagain hready hready' honward⟩

end Replies

namespace Sample

/-- An access list of one action for everyone. -/
def forAll (action : Action) : Acl := ⟨[⟨action, [⟨fun _ => true⟩]⟩]⟩

/-- A monoio instance with such a list. -/
def actsOnAll (action : Action) : Server := .start .monoio (forAll action) config ∅ ∅

/-- Where an instance listens. -/
def listens (host : UInt8) : SocketAddr := (client .monoUdp host).addr

end Sample

namespace Server

/-- The sample packet as a datagram to such an instance. -/
theorem parse_sample : Parser.parseUdp ((Sample.packet 7 Sample.name).take udpRecvBuf) =
    .ok (Sample.query 7) := by
  decide +kernel

/-- One instance refuses everyone; another, which denies everyone, drops its
REFUSED. -/
theorem denying_instance_drops : ∃ s' r,
    (Sample.actsOnAll .refuse).step Sample.display
      (.message ((Sample.actsOnAll .refuse).sender (Sample.listens 2))
        (Sample.packet 7 Sample.name) (Sample.clock 1)) = some (s', [.reply r]) ∧
    (Sample.actsOnAll .deny).Drops Sample.display (Sample.listens 1) r.raw (Sample.clock 1) := by
  obtain ⟨mode, event, hstep⟩ := step_atOnce Sample.display (s := Sample.actsOnAll .refuse)
    (.inl rfl) parse_sample (Nat.zero_le _)
  refine ⟨_, _, hstep, (replies_taken_as_queries hstep (List.mem_singleton_self _)
    (Sample.listens 1) (Sample.listens 2) (Nat.zero_le _)).1.mpr ?_⟩
  rintro ⟨query, -, hallowed⟩
  exact hallowed rfl

/-- **Two instances that refuse everyone** answer each other's REFUSED, without
end. -/
theorem refusals_answered : ∃ s' r,
    (Sample.actsOnAll .refuse).step Sample.display
      (.message ((Sample.actsOnAll .refuse).sender (Sample.listens 2))
        (Sample.packet 7 Sample.name) (Sample.clock 1)) = some (s', [.reply r]) ∧
    (Sample.actsOnAll .refuse).Answers Sample.display (Sample.listens 1) r.raw (Sample.clock 1) ∧
    ∀ n, ∃ p replies, (Peers.machine Sample.display).run
      ⟨Sample.actsOnAll .refuse, Sample.listens 2, s', Sample.listens 1, r.raw⟩
      (List.replicate n (Sample.clock 1)) = some (p, replies) ∧ replies.length = n := by
  obtain ⟨mode, event, hstep⟩ := step_atOnce Sample.display (s := Sample.actsOnAll .refuse)
    (.inl rfl) parse_sample (Nat.zero_le _)
  have hagain := parseUdp_of_question parse_sample (repeatsQuestion_blocked parse_sample mode)
  have hrefuses : (Sample.actsOnAll .refuse).acl.decide (Sample.listens 1).ip ≠ .deny := by decide
  refine ⟨_, _, hstep, answers_of_takesUp (Nat.zero_le _) ⟨_, hagain, hrefuses⟩, fun n => ?_⟩
  let p : Peers := ⟨Sample.actsOnAll .refuse, Sample.listens 2,
    { Sample.actsOnAll .refuse with now := (Sample.clock 1).now }, Sample.listens 1,
    (UpstreamResponse.blocked (Sample.query 7) mode).raw⟩
  have honward : p.Onward (List.replicate n (Sample.clock 1)) := by
    refine ⟨List.pairwise_replicate.mpr (.inr (Nat.le_refl _)), fun clock hclock => ?_⟩
    rw [List.eq_of_mem_replicate hclock]
    exact ⟨Nat.zero_le _, Nat.le_refl _⟩
  obtain ⟨p', replies, hrun, hlength⟩ :=
    Peers.endless Sample.display (p := p) hagain (.inl rfl) (.inl rfl) honward
  exact ⟨p', replies, hrun, hlength.trans List.length_replicate⟩

end Server

end Denis
