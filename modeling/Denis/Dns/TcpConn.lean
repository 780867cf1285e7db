import Denis.Dns.TransactionId
import Denis.Lib.Framing

/-!
# TCP connections (`dns/server.rs:164–200`)

`handleTcpConn` is the loop on the bytes of one connection, up to the end of
file: read a frame, hand the message to `handle`, write the response as a frame.
What a call of `handle` returns depends on the state it finds, which other calls
change meanwhile, so the loop takes one `TcpCall` per message; one that is
`Reachable` finds a cache that some run leads to.

A response is never too long for its length prefix (`TcpCall.Reachable.length`),
so the client reads the responses, in order, up to the first call that fails
(`tcp_responses`). In a run of the whole server the same holds of every TCP
client, whatever calls are interleaved (`client_reads`).
-/

namespace Denis

open Text Framing

/-- What a call of `handle` finds: the state it reads, its clocks and what
`upstream.resolve` returns to it. -/
structure TcpCall where
  cache : Cache
  config : RuntimeConfig
  clock : Clock
  upstream : Query → Except UpstreamError UpstreamResponse

/-- The result of `handle` on a message. What happens to cache and configuration
while the call is suspended in `upstream.resolve` does not show in it. -/
def TcpCall.handle (display : RecordType → Str) (call : TcpCall) (msg : Bytes) :
    Except HandlerError Bytes :=
  (QueryHandler.handle display call.upstream call.cache call.config msg call.clock).result

/-- `std::io::ErrorKind`, of reading behind the end of the stream. -/
inductive ErrorKind
  | unexpectedEof
  deriving DecidableEq, Repr

/-- `handle_tcp_conn` (`server.rs:164–200`) on the bytes a client sends before it
ends its side: the bytes written and the result. Each message is handled by the
next call. -/
def handleTcpConn (display : RecordType → Str) (calls : Nat → TcpCall) (input : Bytes) :
    Bytes × Except ErrorKind Unit :=
  match _hlen : readExact 2 input with
  | none => ([], .ok ())
  | some (lenBuf, input') =>
    let msgLen := (Parser.u16FromBeBytes (lenBuf.getD 0 0) (lenBuf.getD 1 0)).toNat
    if msgLen = 0 ∨ tcpMaxMsg < msgLen then ([], .ok ())
    else
      match _hmsg : readExact msgLen input' with
      | none => ([], .error .unexpectedEof)
      | some (msg, input'') =>
        match (calls 0).handle display msg with
        | .ok response =>
          let (written, result) := handleTcpConn display (fun i => calls (i + 1)) input''
          (tcpFrame response ++ written, result)
        | .error _ => ([], .ok ())
termination_by input.length
decreasing_by
  have h₁ := readExact_length _hlen
  have h₂ := readExact_length _hmsg
  omega

/-- The framing of both directions: two bytes, big-endian. -/
def tcpCode : LengthCode UInt8 where
  width := 2
  limit := 65536
  put := UpstreamResponse.u16BeBytes
  get bs := (Parser.u16FromBeBytes (bs.getD 0 0) (bs.getD 1 0)).toNat
  width_pos := by decide
  put_length _ := rfl
  get_put n hn := by
    show (Parser.u16FromBeBytes (UInt8.ofNat (n / 256)) (UInt8.ofNat n)).toNat = n
    rw [Parser.u16FromBeBytes, UInt16.toNat_ofNat', UInt8.toNat_ofNat', UInt8.toNat_ofNat']
    omega

/-- The results before the first error. -/
def untilError {ε α : Type} : List (Except ε α) → List α
  | .ok a :: rest => a :: untilError rest
  | _ => []

/-- What the calls return for the messages of a connection, each its own. -/
def results (display : RecordType → Str) (calls : Nat → TcpCall) (msgs : List Bytes) :
    List (Except HandlerError Bytes) :=
  msgs.mapIdx fun i msg => (calls i).handle display msg

theorem mem_of_mem_untilError {ε α : Type} {rs : List (Except ε α)} {a : α}
    (h : a ∈ untilError rs) : .ok a ∈ rs := by
  induction rs with
  | nil => cases h
  | cons r rs ih =>
    cases r with
    | error e => cases h
    | ok b =>
      rcases List.mem_cons.mp h with rfl | h
      · exact List.mem_cons_self ..
      · exact List.mem_cons_of_mem _ (ih h)

theorem mem_results {display : RecordType → Str} {calls : Nat → TcpCall} {msgs : List Bytes}
    {r : Except HandlerError Bytes} (h : r ∈ results display calls msgs) :
    ∃ i msg, (calls i).handle display msg = r := by
  obtain ⟨i, hi, rfl⟩ := List.mem_mapIdx.mp h
  exact ⟨i, _, rfl⟩

section Loop

variable {display : RecordType → Str} {calls : Nat → TcpCall}

/-- **Step lemma**: on a frame the loop handles its message and writes the
response as a frame, or stops. -/
theorem handleTcpConn_frame {msg : Bytes} (hpos : 0 < msg.length) (hmax : msg.length ≤ tcpMaxMsg)
    (rest : Bytes) :
    handleTcpConn display calls (tcpFrame msg ++ rest) =
      match (calls 0).handle display msg with
      | .ok response =>
        let (written, result) := handleTcpConn display (fun i => calls (i + 1)) rest
        (tcpFrame response ++ written, result)
      | .error _ => ([], .ok ()) := by
  have hlen : readExact 2 (tcpFrame msg ++ rest) =
      some (UpstreamResponse.u16BeBytes msg.length, msg ++ rest) := by
    rw [tcpFrame, List.append_assoc]
    exact readExact_append _ rfl
  have hmsg : readExact msg.length (msg ++ rest) = some (msg, rest) := readExact_append rest rfl
  have hread : (Parser.u16FromBeBytes ((UpstreamResponse.u16BeBytes msg.length).getD 0 0)
      ((UpstreamResponse.u16BeBytes msg.length).getD 1 0)).toNat = msg.length :=
    tcpCode.get_put msg.length (Nat.lt_succ_of_le hmax)
  rw [handleTcpConn]
  split
  · next hnone => cases hnone.symm.trans hlen
  · next lenBuf input' hsome =>
    obtain ⟨rfl, rfl⟩ := Prod.mk.inj (Option.some.inj (hsome.symm.trans hlen))
    dsimp only
    rw [hread, if_neg (by omega)]
    split
    · next hnone => cases hnone.symm.trans hmsg
    · next msg' input'' hsome =>
      obtain ⟨rfl, rfl⟩ := Prod.mk.inj (Option.some.inj (hsome.symm.trans hmsg))
      rfl

/-- **Loop lemma**: on frames alone the loop writes the responses before the
first error as frames, and ends well. -/
theorem handleTcpConn_frames (calls : Nat → TcpCall) {msgs : List Bytes}
    (hmsgs : ∀ msg ∈ msgs, 0 < msg.length ∧ msg.length ≤ tcpMaxMsg) :
    handleTcpConn display calls (msgs.flatMap tcpFrame) =
      ((untilError (results display calls msgs)).flatMap tcpFrame, .ok ()) := by
  induction msgs generalizing calls with
  | nil =>
    rw [List.flatMap_nil, handleTcpConn]
    rfl
  | cons msg msgs ih =>
    obtain ⟨hpos, hmax⟩ := hmsgs msg (List.mem_cons_self ..)
    have hresults : results display calls (msg :: msgs) =
        (calls 0).handle display msg :: results display (fun i => calls (i + 1)) msgs := by
      rw [results, List.mapIdx_cons]
      rfl
    rw [List.flatMap_cons, handleTcpConn_frame hpos hmax,
      ih (fun i => calls (i + 1)) fun m hm => hmsgs m (List.mem_cons_of_mem _ hm), hresults]
    cases (calls 0).handle display msg with
    | error e => rfl
    | ok response => rfl

end Loop

/-! ## Responses fit their prefix -/

/-- A call that some run of the server leads to: its cache is that of a state
reached, and `resolve` returns accepted upstream datagrams. -/
structure TcpCall.Reachable (display : RecordType → Str) (call : TcpCall) : Prop where
  cache : ∃ runtime acl config blockList allowList es t outs,
    (Server.machine display).run (Server.start runtime acl config blockList allowList) es =
      some (t, outs) ∧ call.cache = t.cache
  upstream : ∀ query res, call.upstream query = .ok res → ∃ server src datagram,
    exchangeAccepts server query src datagram = true ∧ res = exchangeResponse datagram

section Responses

variable {display : RecordType → Str} {call : TcpCall}

/-- What is cached fits a receive buffer. -/
theorem TcpCall.Reachable.hasRoom (h : call.Reachable display) : Server.HasRoom call.cache := by
  obtain ⟨runtime, acl, config, blockList, allowList, es, t, outs, hrun, hcache⟩ := h.cache
  rw [hcache]
  exact (Server.run_matches hrun).1

/-- **Every response is at least a transaction id and at most a receive buffer**:
a blocked reply is a cut query with at most one record, a cached one was received
before, and a relayed one is received now. -/
theorem TcpCall.Reachable.length (h : call.Reachable display) {msg response : Bytes}
    (hresult : call.handle display msg = .ok response) :
    2 ≤ response.length ∧ response.length ≤ upstreamRecvBuf := by
  unfold TcpCall.handle QueryHandler.handle at hresult
  split at hresult
  · cases hresult
  · next query hparse =>
    unfold QueryHandler.handleParsed at hresult
    split at hresult
    · next cache' served hbegin =>
      obtain rfl := Except.ok.inj hresult
      rcases QueryHandler.beginParsed_eq_some hbegin with
        ⟨-, -, hraw, -, -⟩ | ⟨-, x, hx, -, -, hraw, -, -⟩
      · have hanswers := UpstreamResponse.blocked_answers (Parser.parseUdp_bounded hparse)
          call.config.blockingMode
        have hlow := hanswers.low
        have hhigh := hanswers.high
        rw [hraw, upstreamRecvBuf]
        omega
      · have hroom := h.hasRoom _ x hx
        rw [hraw, UpstreamResponse.cached_length]
        omega
    · split at hresult
      · cases hresult
      · next res hresolve =>
        obtain rfl := Except.ok.inj hresult
        obtain ⟨server, src, datagram, haccept, rfl⟩ := h.upstream query res hresolve
        simp only [exchangeAccepts, Bool.and_eq_true, decide_eq_true_eq] at haccept
        exact ⟨haccept.1.1.2, List.length_take_le ..⟩

/-- **TCP framing is faithful.** On frames of 1 to 65535 bytes, then the end of
the stream, `handle_tcp_conn` ends well, and what it writes decodes to the
responses before the first error, in order and nothing more; and no response's
length is cut by its prefix. -/
theorem tcp_responses {calls : Nat → TcpCall} (hcalls : ∀ i, (calls i).Reachable display)
    {msgs : List Bytes} (hmsgs : ∀ msg ∈ msgs, 0 < msg.length ∧ msg.length ≤ tcpMaxMsg) :
    (handleTcpConn display calls (msgs.flatMap tcpFrame)).2 = .ok () ∧
    tcpCode.deframe (handleTcpConn display calls (msgs.flatMap tcpFrame)).1 =
      some (untilError (results display calls msgs)) ∧
    ∀ i msg response, (calls i).handle display msg = .ok response →
      0 < response.length ∧ (UInt16.ofNat response.length).toNat = response.length := by
  have hlength : ∀ i msg response, (calls i).handle display msg = .ok response →
      0 < response.length ∧ response.length < 65536 := by
    intro i msg response hresult
    have hbounds := (hcalls i).length hresult
    rw [upstreamRecvBuf] at hbounds
    omega
  rw [handleTcpConn_frames calls hmsgs]
  refine ⟨rfl, LengthCode.deframe_frames fun response hmem => ?_, fun i msg response hresult => ?_⟩
  · obtain ⟨i, msg, hresult⟩ := mem_results (mem_of_mem_untilError hmem)
    exact (hlength i msg response hresult).2
  · obtain ⟨hpos, hlt⟩ := hlength i msg response hresult
    refine ⟨hpos, ?_⟩
    rw [UInt16.toNat_ofNat']
    omega

end Responses

/-! ## Connections of a run -/

namespace Server

variable {display : RecordType → Str} {client : Client}

/-- The replies to a client in a run. -/
def repliesTo (client : Client) (outs : List Output) : List Reply :=
  outs.filterMap fun o =>
    match o with
    | .reply r => if r.client = client then some r else none
    | _ => none

/-- The bytes it is sent. -/
def sentTo (client : Client) (outs : List Output) : Bytes :=
  (repliesTo client outs).flatMap Reply.sent

theorem mem_repliesTo {outs : List Output} {r : Reply} (h : r ∈ repliesTo client outs) :
    .reply r ∈ outs ∧ r.client = client := by
  obtain ⟨o, ho, hsome⟩ := List.mem_filterMap.mp h
  split at hsome
  · split at hsome
    · next hclient =>
      obtain rfl := Option.some.inj hsome
      exact ⟨ho, hclient⟩
    · cases hsome
  · cases hsome

/-- A frame that is answered at once is answered with what `handle` returns,
whatever upstream would have said. -/
theorem handle_of_tcpConn {s s' : Server} {packet : Bytes} {clock : Clock} {out : List Output}
    {r : Reply} (htcp : client.listener.isTcp = true)
    (h : s.tcpConn display client packet clock = some (s', out)) (hr : .reply r ∈ out)
    (upstream : Query → Except UpstreamError UpstreamResponse) :
    TcpCall.handle display ⟨s.cache, s.config, clock, upstream⟩ packet = .ok r.raw := by
  have hbuffer : client.listener.buffer packet = packet := if_pos htcp
  unfold tcpConn at h
  split at h
  · cases h
  · split at h
    · obtain ⟨-, rfl⟩ := Prod.mk.inj (Option.some.inj h)
      cases hr
    · replace h := Option.some.inj h
      cases hparse : Parser.parseUdp (client.listener.buffer packet) with
      | error e =>
        rw [Server.handle_error hparse] at h
        obtain ⟨-, rfl⟩ := Prod.mk.inj h
        cases hr
      | ok query =>
        rw [Server.handle_ok hparse, beginHandle] at h
        rw [hbuffer] at hparse
        rw [TcpCall.handle, QueryHandler.handle, hparse]
        dsimp only
        unfold QueryHandler.handleParsed
        split at h
        · next cache served hbegin =>
          obtain ⟨-, rfl⟩ := Prod.mk.inj h
          obtain rfl := Output.reply.inj (List.mem_singleton.mp hr)
          rw [hbegin]
        · next hbegin =>
          split at h
          · obtain ⟨-, rfl⟩ := Prod.mk.inj h
            cases hr
          · obtain ⟨-, rfl⟩ := Prod.mk.inj h
            cases List.mem_singleton.mp hr

/-- **TCP clients read their replies.** In any run, over any interleaving of
calls, what a client is sent over TCP decodes to the replies to it, in order. -/
theorem client_reads {runtime : Runtime} {acl : Acl} {config : RuntimeConfig}
    {blockList allowList : DomainSet} {es : List Input} {t : Server} {outs : List Output}
    (hrun : (machine display).run (start runtime acl config blockList allowList) es =
      some (t, outs)) (htcp : client.listener.isTcp = true) :
    tcpCode.deframe (sentTo client outs) = some ((repliesTo client outs).map Reply.raw) := by
  have hsent : sentTo client outs =
      ((repliesTo client outs).map Reply.raw).flatMap tcpCode.frame := by
    rw [sentTo, List.flatMap_map]
    refine List.flatMap_congr fun r hr => ?_
    rw [Reply.sent, (mem_repliesTo hr).2, if_pos htcp]
    rfl
  rw [hsent]
  refine LengthCode.deframe_frames fun raw hraw => ?_
  obtain ⟨r, hr, rfl⟩ := List.mem_map.mp hraw
  have hhigh := ((run_matches hrun).2 r (mem_repliesTo hr).1).high
  rw [upstreamRecvBuf] at hhigh
  show _ < 65536
  omega

end Server

namespace Sample

/-- A resolver that answers the first query of the connection below. -/
def resolve (query : Query) : Except UpstreamError UpstreamResponse :=
  if query = Sample.query 7 then .ok (exchangeResponse (answer 7 name)) else .error .timeout

/-- A call that finds nothing cached. -/
def freshCall : TcpCall := ⟨⟨TtlMap.empty, ∅, ∅⟩, config, clock 0, resolve⟩

theorem freshCall_reachable : freshCall.Reachable display := by
  refine ⟨⟨.tokio, ⟨[]⟩, config, ∅, ∅, [], _, _, rfl, rfl⟩, ?_⟩
  intro query res hres
  show ∃ server src datagram, _
  unfold freshCall resolve at hres
  dsimp only at hres
  split at hres
  · next hquery =>
    subst hquery
    exact ⟨resolver, resolver, answer 7 name, by decide +kernel, (Except.ok.inj hres).symm⟩
  · cases hres

end Sample

/-- Two queries on one connection; the second is not answered. -/
theorem second_query_unanswered :
    (handleTcpConn Sample.display (fun _ => Sample.freshCall)
      ([Sample.packet 7 Sample.name, Sample.packet 9 Sample.name].flatMap tcpFrame)).2 = .ok () ∧
    tcpCode.deframe (handleTcpConn Sample.display (fun _ => Sample.freshCall)
      ([Sample.packet 7 Sample.name, Sample.packet 9 Sample.name].flatMap tcpFrame)).1 =
        some [Sample.answer 7 Sample.name] := by
  obtain ⟨hend, hwritten, -⟩ := @tcp_responses Sample.display (fun _ => Sample.freshCall)
    (fun _ => Sample.freshCall_reachable)
    [Sample.packet 7 Sample.name, Sample.packet 9 Sample.name] (by decide)
  exact ⟨hend, hwritten.trans (by decide +kernel)⟩

end Denis
