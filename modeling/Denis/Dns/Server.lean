import Denis.Acl
import Denis.Dns.Mono
import Denis.Lib.Machine

/-!
# The running server (`dns/server.rs`, `dns/mono.rs`, `main.rs:180–226`)

The whole query path as one `Machine`. An input is what the outside does next:
a client's message arrives on a listener, a cold-path task takes a request off
its channel, an upstream datagram reaches a waiting `exchange`, a `resolve`
gives up, an administrator changes the configuration or a list. The step is
what the code does with it up to its next suspension point, so every
interleaving of suspended calls is a list of inputs.

The four receive loops reach the handler by different routes:

- `Worker::run` (monoio UDP) consults the access list, then answers from
  `classify` or queues a cold request;
- `Server::serve_udp` (tokio UDP) hands every datagram to `handle`;
- both TCP servers run `handle_tcp_conn`, which hands every frame to `handle`,
  waits for it, and closes the connection when it fails.

Both UDP loops receive into 512 bytes, so longer datagrams are cut. Outputs
are the replies put on the wire (with the event that accompanies each), the
queries sent upstream and the upstream responses accepted.

`Transition` lists everything a step can do (`step_transition`); invariants of
runs are derived from it.
-/

namespace Denis

open Text

/-- `Runtime` (`cli.rs:6–9`). -/
inductive Runtime
  | monoio
  | tokio
  deriving DecidableEq, Repr

/-- The receive loops of the program. -/
inductive Listener
  | monoUdp
  | tokioUdp
  | serverTcp
  | standaloneTcp
  deriving DecidableEq, Repr

/-- The listeners `run` starts in each runtime (`main.rs:180–226`). -/
def Runtime.listeners : Runtime → List Listener
  | .monoio => [.monoUdp, .standaloneTcp]
  | .tokio => [.tokioUdp, .serverTcp]

/-- Frames on a connection, not datagrams. -/
def Listener.isTcp : Listener → Bool
  | .monoUdp => false
  | .tokioUdp => false
  | .serverTcp => true
  | .standaloneTcp => true

/-- `RECV_BUF` (`mono.rs:20`) and `UDP_BUFFER_SIZE` (`dns/mod.rs:8`). -/
def udpRecvBuf : Nat := 512

/-- What a loop hands on of a message: datagrams are received into a buffer,
frames are read whole. -/
def Listener.buffer (l : Listener) (packet : Bytes) : Bytes :=
  if l.isTcp then packet else packet.take udpRecvBuf

/-- Where a message came from: listener, source address and, for TCP, the
connection. -/
structure Client where
  listener : Listener
  addr : SocketAddr
  conn : Nat
  deriving DecidableEq

/-- Where `handle_tcp_conn` stands on a connection. -/
inductive ConnState
  | reading
  | busy
  | closed
  deriving DecidableEq, Repr

/-- A query on its way through `handle_parsed`, with the message it was parsed
from. -/
structure Request where
  client : Client
  packet : Bytes
  query : Query
  timestampMs : UInt64
  parsed : Parser.parseUdp (client.listener.buffer packet) = .ok query

theorem Request.bounded (req : Request) : req.query.Bounded := Parser.parseUdp_bounded req.parsed

/-- A call suspended in `upstream.resolve`, with the servers it goes through. -/
structure Waiting where
  request : Request
  servers : List SocketAddr

/-- The state of the process. -/
structure Server where
  runtime : Runtime
  acl : Acl
  config : RuntimeConfig
  cache : Cache
  now : Nat
  cold : List Request
  waiting : List Waiting
  conns : Client → ConnState

/-- What happens next. -/
inductive Input
  | message (client : Client) (packet : Bytes) (clock : Clock)
  | cold (i : Nat) (clock : Clock)
  | datagram (i : Nat) (server src : SocketAddr) (bytes : Bytes) (clock : Clock)
  | unresolved (i : Nat)
  | configure (config : RuntimeConfig)
  | setBlockList (list : DomainSet)
  | setAllowList (list : DomainSet)

/-- An input that is a datagram to the monoio workers. -/
def Input.isUdp : Input → Bool
  | .message client _ _ => client.listener = .monoUdp
  | _ => false

/-- A reply to a client: the DNS message and the event sent with it. -/
structure Reply where
  client : Client
  packet : Bytes
  raw : Bytes
  event : Option DnsQueryEvent
  time : Nat
  deriving DecidableEq

/-- An upstream response accepted for a query. -/
structure Receipt where
  query : Query
  raw : Bytes
  time : Nat
  deriving DecidableEq

/-- What a step does to the outside. -/
inductive Output
  | reply (r : Reply)
  | forward (client : Client) (query : Query)
  | received (r : Receipt)
  deriving DecidableEq

/-- `TCP_MAX_MSG`. -/
def tcpMaxMsg : Nat := 65535

/-- A response as `handle_tcp_conn` writes it (`server.rs:188–190`). -/
def tcpFrame (response : Bytes) : Bytes :=
  UpstreamResponse.u16BeBytes response.length ++ response

/-- The bytes put on the wire for a reply. -/
def Reply.sent (r : Reply) : Bytes :=
  if r.client.listener.isTcp then tcpFrame r.raw else r.raw

namespace Server

variable (display : RecordType → Str)

/-- The server as started: nothing cached and no call under way. -/
def start (runtime : Runtime) (acl : Acl) (config : RuntimeConfig)
    (blockList allowList : DomainSet) : Server where
  runtime := runtime
  acl := acl
  config := config
  cache := ⟨TtlMap.empty, allowList, blockList⟩
  now := 0
  cold := []
  waiting := []
  conns := fun _ => .reading

/-- Move a TCP connection; datagrams have none. -/
def setConn (s : Server) (client : Client) (state : ConnState) : Server :=
  { s with
    conns := if client.listener.isTcp then Function.update s.conns client state else s.conns }

/-- Put a reply on the wire; a TCP connection reads on. -/
def deliver (s : Server) (client : Client) (packet raw : Bytes)
    (event : Option DnsQueryEvent) : Server × List Output :=
  (s.setConn client .reading, [.reply ⟨client, packet, raw, event, s.now⟩])

/-- Run `handle_parsed` on a request up to its reply or to the wait in
`upstream.resolve`; without upstreams `resolve` fails at once. -/
def beginHandle (s : Server) (req : Request) (clock : Clock) : Server × List Output :=
  match QueryHandler.beginParsed display s.cache s.config req.query clock with
  | some (cache, served) =>
    deliver { s with cache } req.client req.packet served.raw
      (some (QueryHandler.event req.query req.timestampMs served))
  | none =>
    -- `resolve` fails, and with it the handler
    if s.config.upstreams = [] then (s.setConn req.client .closed, [])
    else
      (setConn { s with waiting := s.waiting ++ [⟨req, s.config.upstreams⟩] } req.client .busy,
        [.forward req.client req.query])

/-- The body of `Worker::run`'s loop (`mono.rs:106–146`). -/
def monoUdp (s : Server) (client : Client) (packet : Bytes) (clock : Clock) :
    Server × List Output :=
  let buf := client.listener.buffer packet
  match s.acl.decide client.addr.ip with
  | .deny => (s, [])
  | .refuse =>
    match Worker.refuse buf with
    | some resp => s.deliver client packet resp none
    | none => (s, [])
  | .allow =>
    match hclassify : Worker.classify display s.cache s.config buf clock with
    -- one event comes with a reply
    | (.reply resp, events) => s.deliver client packet resp events.head?
    | (.miss query timestampMs, _) =>
      ({ s with
        cold := s.cold ++
          [⟨client, packet, query, timestampMs, Worker.parsed_of_miss hclassify⟩] }, [])
    | (.drop, _) => (s, [])

/-- `handle` on a message of `serve_udp` or `handle_tcp_conn`; a parse error
closes a TCP connection. -/
def handle (s : Server) (client : Client) (packet : Bytes) (clock : Clock) :
    Server × List Output :=
  match hparse : Parser.parseUdp (client.listener.buffer packet) with
  | .error _ => (s.setConn client .closed, [])
  | .ok query => s.beginHandle display ⟨client, packet, query, clock.timestampMs, hparse⟩ clock

/-- A frame on a TCP connection (`server.rs:170–196`). -/
def tcpConn (s : Server) (client : Client) (packet : Bytes) (clock : Clock) :
    Option (Server × List Output) :=
  if s.conns client ≠ .reading ∨ tcpMaxMsg < packet.length then none
  else if packet.length = 0 then some (s.setConn client .closed, [])
  else some (s.handle display client packet clock)

/-- A message arrives on a listener of the runtime. -/
def message (s : Server) (client : Client) (packet : Bytes) (clock : Clock) :
    Option (Server × List Output) :=
  if client.listener ∉ s.runtime.listeners then none
  else
    match client.listener with
    | .monoUdp => some (s.monoUdp display client packet clock)
    | .tokioUdp => some (s.handle display client packet clock)
    | .serverTcp => s.tcpConn display client packet clock
    | .standaloneTcp => s.tcpConn display client packet clock

/-- Complete a waiting call with an accepted upstream datagram. -/
def complete (s : Server) (req : Request) (clock : Clock) (bytes : Bytes) :
    Server × List Output :=
  let res := exchangeResponse bytes
  let (cache, served) :=
    QueryHandler.completeMiss display s.cache s.config req.query clock res
  let (s', out) := deliver { s with cache } req.client req.packet served.raw
    (some (QueryHandler.event req.query req.timestampMs served))
  (s', .received ⟨req.query, res.raw, s.now⟩ :: out)

/-- The clock of a step that reads one; clocks do not run backwards. -/
def advance (s : Server) (clock : Clock) : Option Server :=
  if clock.now < s.now then none else some { s with now := clock.now }

/-- One step of the process. -/
def step (s : Server) : Input → Option (Server × List Output)
  | .message client packet clock =>
    match s.advance clock with
    | none => none
    | some s => s.message display client packet clock
  | .cold i clock =>
    match s.advance clock, s.cold[i]? with
    | some s, some req => some (beginHandle display { s with cold := s.cold.eraseIdx i } req clock)
    | _, _ => none
  | .datagram i server src bytes clock =>
    match s.advance clock, s.waiting[i]? with
    | some s, some w =>
      if server ∈ w.servers ∧ exchangeAccepts server w.request.query src bytes then
        some (complete display { s with waiting := s.waiting.eraseIdx i } w.request clock bytes)
      else none
    | _, _ => none
  | .unresolved i =>
    match s.waiting[i]? with
    | some w =>
      some (setConn { s with waiting := s.waiting.eraseIdx i } w.request.client .closed, [])
    | none => none
  | .configure config => some ({ s with config }, [])
  | .setBlockList list => some ({ s with cache := { s.cache with blockList := list } }, [])
  | .setAllowList list => some ({ s with cache := { s.cache with allowList := list } }, [])

/-- The process as a machine. -/
abbrev machine : Machine Server Input Output := ⟨step display⟩

/-! ## What a step can do -/

/-- What a step leaves of the calls under way: nothing but what was there and
what it adds itself. Only a configuration input changes the configuration. -/
structure Frame (s : Server) (e : Input) (s' : Server) (cold : List Request)
    (waiting : List Waiting) : Prop where
  acl : s'.acl = s.acl
  config : (∀ config, e ≠ .configure config) → s'.config = s.config
  cold : ∀ r ∈ s'.cold, r ∈ s.cold ∨ r ∈ cold
  waiting : ∀ w ∈ s'.waiting, w ∈ s.waiting ∨ w ∈ waiting
  now : s.now ≤ s'.now

/-- The input starts `handle_parsed` on a request: a message that is not the
monoio workers', or a request off the cold channel. -/
inductive Begins (s : Server) : Input → Request → Clock → Prop
  | message {req : Request} {clock : Clock} :
      req.client.listener ≠ .monoUdp → req.timestampMs = clock.timestampMs →
      Begins s (.message req.client req.packet clock) req clock
  | cold {i : Nat} {req : Request} {clock : Clock} :
      s.cold[i]? = some req → Begins s (.cold i clock) req clock

/-- Everything a step can do. -/
inductive Transition (s : Server) : Input → Server → List Output → Prop
  | idle {e : Input} {s' : Server} :
      (∀ req clock, ¬ Begins s e req clock) → Frame s e s' [] [] →
      s'.cache.l1 = s.cache.l1 → Transition s e s' []
  | unserved {e : Input} {req : Request} {clock : Clock} {s' : Server} :
      Begins s e req clock →
      QueryHandler.beginParsed display s.cache s.config req.query clock = none →
      s.config.upstreams = [] → Frame s e s' [] [] → s'.cache = s.cache →
      Transition s e s' []
  | refused {req : Request} {clock : Clock} {s' : Server} :
      req.client.listener = .monoUdp → s.acl.decide req.client.addr.ip = .refuse →
      Frame s (.message req.client req.packet clock) s' [] [] → s'.cache = s.cache →
      Transition s (.message req.client req.packet clock) s'
        [.reply ⟨req.client, req.packet, (UpstreamResponse.blocked req.query .refused).raw, none,
          s'.now⟩]
  | hot {req : Request} {clock : Clock} {cache : Cache} {served : Served} {s' : Server} :
      req.client.listener = .monoUdp → s.acl.decide req.client.addr.ip = .allow →
      QueryHandler.beginParsed display s.cache s.config req.query clock = some (cache, served) →
      Frame s (.message req.client req.packet clock) s' [] [] → s'.cache = s.cache →
      s'.now = clock.now →
      Transition s (.message req.client req.packet clock) s'
        [.reply ⟨req.client, req.packet, served.raw,
          some (QueryHandler.event req.query req.timestampMs served), s'.now⟩]
  | hotMiss {req : Request} {clock : Clock} {s' : Server} :
      req.client.listener = .monoUdp → s.acl.decide req.client.addr.ip = .allow →
      Frame s (.message req.client req.packet clock) s' [req] [] → s'.cache = s.cache →
      Transition s (.message req.client req.packet clock) s' []
  | handled {e : Input} {req : Request} {clock : Clock} {cache : Cache} {served : Served}
      {s' : Server} :
      Begins s e req clock →
      QueryHandler.beginParsed display s.cache s.config req.query clock = some (cache, served) →
      Frame s e s' [] [] → s'.cache = cache → s'.now = clock.now →
      Transition s e s'
        [.reply ⟨req.client, req.packet, served.raw,
          some (QueryHandler.event req.query req.timestampMs served), s'.now⟩]
  | forwarded {e : Input} {req : Request} {clock : Clock} {s' : Server} :
      Begins s e req clock →
      QueryHandler.beginParsed display s.cache s.config req.query clock = none →
      s.config.upstreams ≠ [] → Frame s e s' [] [⟨req, s.config.upstreams⟩] → s'.cache = s.cache →
      Transition s e s' [.forward req.client req.query]
  | relayed {i : Nat} {w : Waiting} {server src : SocketAddr} {bytes : Bytes} {clock : Clock}
      {s' : Server} :
      w ∈ s.waiting → server ∈ w.servers →
      exchangeAccepts server w.request.query src bytes = true →
      Frame s (.datagram i server src bytes clock) s' [] [] →
      s'.cache = QueryHandler.store display s.cache s.config clock.now w.request.query
        (exchangeResponse bytes).raw →
      s'.now = clock.now →
      Transition s (.datagram i server src bytes clock) s'
        [.received ⟨w.request.query, (exchangeResponse bytes).raw, s'.now⟩,
          .reply ⟨w.request.client, w.request.packet, (exchangeResponse bytes).raw,
            some (QueryHandler.event w.request.query w.request.timestampMs
              (QueryHandler.completeMiss display s.cache s.config w.request.query clock
                (exchangeResponse bytes)).2), s'.now⟩]

section Inversion

variable {display} {s s' : Server} {e : Input} {clock : Clock} {out : List Output}

theorem advance_eq_some (h : s.advance clock = some s') :
    s.now ≤ clock.now ∧ s' = { s with now := clock.now } := by
  unfold advance at h
  split at h
  · cases h
  · next hle => exact ⟨Nat.le_of_not_lt hle, (Option.some.inj h).symm⟩

/-- A frame whose calls and lists are what the step started from. -/
theorem Frame.of_eq (hacl : s'.acl = s.acl) (hconfig : s'.config = s.config)
    (hcold : ∀ r ∈ s'.cold, r ∈ s.cold) (hwaiting : ∀ w ∈ s'.waiting, w ∈ s.waiting)
    (hnow : s.now ≤ s'.now) : Frame s e s' [] [] :=
  ⟨hacl, fun _ => hconfig, fun r hr => .inl (hcold r hr), fun w hw => .inl (hwaiting w hw),
    hnow⟩

/-- A frame that leaves all calls as they are. -/
theorem Frame.of_calls (hacl : s'.acl = s.acl) (hconfig : s'.config = s.config)
    (hcold : s'.cold = s.cold) (hwaiting : s'.waiting = s.waiting) (hnow : s.now ≤ s'.now) :
    Frame s e s' [] [] :=
  .of_eq hacl hconfig (fun _ hr => hcold ▸ hr) (fun _ hw => hwaiting ▸ hw) hnow

/-- What holds of the queued requests before and of those added holds of those
after. -/
theorem Frame.cold_forall {cold : List Request} {waiting : List Waiting} {P : Request → Prop}
    (hf : Frame s e s' cold waiting) (hold : ∀ r ∈ s.cold, P r) (hadded : ∀ r ∈ cold, P r) :
    ∀ r ∈ s'.cold, P r := by
  intro r hr
  rcases hf.cold r hr with hr | hr
  · exact hold r hr
  · exact hadded r hr

/-- And so of the waiting calls. -/
theorem Frame.waiting_forall {cold : List Request} {waiting : List Waiting} {P : Waiting → Prop}
    (hf : Frame s e s' cold waiting) (hold : ∀ w ∈ s.waiting, P w) (hadded : ∀ w ∈ waiting, P w) :
    ∀ w ∈ s'.waiting, P w := by
  intro w hw
  rcases hf.waiting w hw with hw | hw
  · exact hold w hw
  · exact hadded w hw

/-- Starting `handle_parsed`, from a state `m` that the input has only taken a
request off (and the clock forward). -/
theorem beginHandle_transition {m : Server} {req : Request} (hbegins : Begins s e req clock)
    (hacl : m.acl = s.acl) (hconfig : m.config = s.config) (hcache : m.cache = s.cache)
    (hcold : ∀ r ∈ m.cold, r ∈ s.cold) (hwaiting : m.waiting = s.waiting)
    (hle : s.now ≤ clock.now) (hnow : m.now = clock.now)
    (h : m.beginHandle display req clock = (s', out)) : Transition display s e s' out := by
  have hlow : s.now ≤ m.now := hnow ▸ hle
  unfold beginHandle at h
  rw [hcache, hconfig] at h
  split at h
  · next cache served hbegin =>
    obtain ⟨rfl, rfl⟩ := Prod.mk.inj h
    exact .handled hbegins hbegin
      (.of_eq hacl rfl hcold (fun w hw => hwaiting ▸ hw) hlow) rfl hnow
  · next hbegin =>
    split at h
    · next hnone =>
      obtain ⟨rfl, rfl⟩ := Prod.mk.inj h
      exact .unserved hbegins hbegin hnone
        (.of_eq hacl hconfig hcold (fun w hw => hwaiting ▸ hw) hlow) hcache
    · next hsome =>
      obtain ⟨rfl, rfl⟩ := Prod.mk.inj h
      refine .forwarded hbegins hbegin hsome ⟨hacl, fun _ => rfl,
        fun r hr => .inl (hcold r hr), fun w hw => ?_, hlow⟩ rfl
      rcases List.mem_append.mp hw with hw | hw
      · exact .inl (hwaiting ▸ hw)
      · exact .inr hw

/-- A message that does not parse, and a message to the monoio workers, starts
no `handle_parsed`. -/
theorem not_begins_message {client : Client} {packet : Bytes}
    (h : client.listener = .monoUdp ∨
      ∀ query, Parser.parseUdp (client.listener.buffer packet) ≠ .ok query) :
    ∀ req clock', ¬ Begins s (.message client packet clock) req clock' := by
  intro req clock' hbegins
  cases hbegins with
  | message hlistener =>
    rcases h with h | h
    · exact hlistener h
    · exact h _ req.parsed

section Parsed

variable {client : Client} {packet : Bytes} {query : Query} {error : ParseError}

/-- `handle` drops what does not parse. -/
theorem handle_error
    (herror : Parser.parseUdp (client.listener.buffer packet) = .error error) :
    s.handle display client packet clock = (s.setConn client .closed, []) := by
  unfold handle
  split
  · rfl
  · next query hparse => cases herror.symm.trans hparse

/-- What parses goes on in `handle_parsed`. -/
theorem handle_ok (hparse : Parser.parseUdp (client.listener.buffer packet) = .ok query) :
    s.handle display client packet clock =
      s.beginHandle display ⟨client, packet, query, clock.timestampMs, hparse⟩ clock := by
  unfold handle
  split
  · next error herror => cases hparse.symm.trans herror
  · next query' hparse' =>
    cases hparse.symm.trans hparse'
    rfl

/-- Whatever the access list says, the worker drops what does not parse. -/
theorem monoUdp_error
    (herror : Parser.parseUdp (client.listener.buffer packet) = .error error) :
    s.monoUdp display client packet clock = (s, []) := by
  have hrefuse : Worker.refuse (client.listener.buffer packet) = none := by
    rw [Worker.refuse, herror]
  have hclassify : Worker.classify display s.cache s.config (client.listener.buffer packet) clock =
      (.drop, []) := by
    rw [Worker.classify, herror]
  unfold monoUdp
  dsimp only
  split
  · rfl
  · rw [hrefuse]
  · split
    · next hreply => cases hclassify.symm.trans hreply
    · next hmiss => cases hclassify.symm.trans hmiss
    · rfl

/-- **The worker on what parses**: the access list first, then the first phase of
`handle_parsed`. -/
theorem monoUdp_ok (hparse : Parser.parseUdp (client.listener.buffer packet) = .ok query) :
    s.monoUdp display client packet clock =
      match s.acl.decide client.addr.ip with
      | .deny => (s, [])
      | .refuse => s.deliver client packet (UpstreamResponse.blocked query .refused).raw none
      | .allow =>
        match QueryHandler.beginParsed display s.cache s.config query clock with
        | some (_, served) =>
          s.deliver client packet served.raw
            (some (QueryHandler.event query clock.timestampMs served))
        | none =>
          ({ s with
            cold := s.cold ++ [⟨client, packet, query, clock.timestampMs, hparse⟩] }, []) := by
  have hrefuse : Worker.refuse (client.listener.buffer packet) =
      some (UpstreamResponse.blocked query .refused).raw := by
    rw [Worker.refuse, hparse]
  unfold monoUdp
  dsimp only
  cases s.acl.decide client.addr.ip with
  | deny => rfl
  | refuse =>
    dsimp only
    rw [hrefuse]
  | allow =>
    dsimp only
    have hclassify := @Worker.classify_eq display s.cache s.config
      (client.listener.buffer packet) clock
    simp only [hparse] at hclassify
    cases hbegin : QueryHandler.beginParsed display s.cache s.config query clock with
    | some found =>
      simp only [hbegin] at hclassify
      split
      · next hreply =>
        cases hclassify.symm.trans hreply
        rfl
      · next hmiss => cases hclassify.symm.trans hmiss
      · next hdrop => cases hclassify.symm.trans hdrop
    | none =>
      simp only [hbegin] at hclassify
      split
      · next hreply => cases hclassify.symm.trans hreply
      · next hmiss =>
        cases hclassify.symm.trans hmiss
        rfl
      · next hdrop => cases hclassify.symm.trans hdrop

end Parsed

theorem handle_transition {m : Server} {client : Client} {packet : Bytes}
    (hlistener : client.listener ≠ .monoUdp)
    (hle : s.now ≤ clock.now) (hm : m = { s with now := clock.now })
    (h : m.handle display client packet clock = (s', out)) :
    Transition display s (.message client packet clock) s' out := by
  subst hm
  cases hparse : Parser.parseUdp (client.listener.buffer packet) with
  | error e =>
    rw [handle_error hparse] at h
    obtain ⟨rfl, rfl⟩ := Prod.mk.inj h
    have hfails : ∀ query, Parser.parseUdp (client.listener.buffer packet) ≠ .ok query := by
      intro query hok
      cases hparse.symm.trans hok
    exact .idle (not_begins_message (.inr hfails)) (.of_calls rfl rfl rfl rfl hle) rfl
  | ok query =>
    rw [handle_ok hparse] at h
    have hbegins :=
      @Begins.message s ⟨client, packet, query, clock.timestampMs, hparse⟩ clock hlistener rfl
    exact beginHandle_transition (m := { s with now := clock.now }) hbegins rfl rfl rfl
      (fun _ hr => hr) rfl hle rfl h

theorem tcpConn_transition {m : Server} {client : Client} {packet : Bytes}
    (hlistener : client.listener ≠ .monoUdp) (hle : s.now ≤ clock.now)
    (hm : m = { s with now := clock.now })
    (h : m.tcpConn display client packet clock = some (s', out)) :
    Transition display s (.message client packet clock) s' out := by
  unfold tcpConn at h
  split at h
  · cases h
  · split at h
    · next hempty =>
      subst hm
      obtain ⟨rfl, rfl⟩ := Prod.mk.inj (Option.some.inj h)
      have hfails : ∀ query, Parser.parseUdp (client.listener.buffer packet) ≠ .ok query := by
        intro query hparse
        -- an empty frame is shorter than a header
        have hlong := (Parser.parseUdp_eq_ok hparse).1
        have hshort : (client.listener.buffer packet).length = 0 := by
          rw [List.length_eq_zero_iff.mp hempty]
          unfold Listener.buffer
          split <;> rfl
        rw [hshort] at hlong
        cases hlong
      exact .idle (not_begins_message (.inr hfails)) (.of_calls rfl rfl rfl rfl hle) rfl
    · exact handle_transition hlistener hle hm (Option.some.inj h)

theorem monoUdp_transition {m : Server} {client : Client} {packet : Bytes}
    (hlistener : client.listener = .monoUdp) (hle : s.now ≤ clock.now)
    (hm : m = { s with now := clock.now })
    (h : m.monoUdp display client packet clock = (s', out)) :
    Transition display s (.message client packet clock) s' out := by
  subst hm
  have hsame : Frame s (.message client packet clock) { s with now := clock.now } [] [] :=
    .of_calls rfl rfl rfl rfl hle
  cases hparse : Parser.parseUdp (client.listener.buffer packet) with
  | error e =>
    rw [monoUdp_error hparse] at h
    obtain ⟨rfl, rfl⟩ := Prod.mk.inj h
    exact .idle (not_begins_message (.inl hlistener)) hsame rfl
  | ok query =>
    rw [monoUdp_ok hparse] at h
    let req : Request := ⟨client, packet, query, clock.timestampMs, hparse⟩
    split at h
    · obtain ⟨rfl, rfl⟩ := Prod.mk.inj h
      exact .idle (not_begins_message (.inl hlistener)) hsame rfl
    · next hrefuse =>
      -- refused clients get a reply to what parses
      obtain ⟨rfl, rfl⟩ := Prod.mk.inj h
      exact @Transition.refused display s req clock _ hlistener hrefuse
        (.of_calls rfl rfl rfl rfl hle) rfl
    · next hallow =>
      split at h
      · next cache served hbegin =>
        obtain ⟨rfl, rfl⟩ := Prod.mk.inj h
        exact @Transition.hot display s req clock _ _ _ hlistener hallow hbegin
          (.of_calls rfl rfl rfl rfl hle) rfl rfl
      · obtain ⟨rfl, rfl⟩ := Prod.mk.inj h
        -- the request is the one step's addition to the cold channel
        exact @Transition.hotMiss display s req clock _ hlistener hallow
          ⟨rfl, fun _ => rfl, fun _ hr => List.mem_append.mp hr, fun _ hw => .inl hw, hle⟩ rfl

theorem message_transition {m : Server} {client : Client} {packet : Bytes}
    (hle : s.now ≤ clock.now) (hm : m = { s with now := clock.now })
    (h : m.message display client packet clock = some (s', out)) :
    Transition display s (.message client packet clock) s' out := by
  unfold message at h
  split at h
  · cases h
  · split at h
    · next hl => exact monoUdp_transition hl hle hm (Option.some.inj h)
    · next hl =>
      exact handle_transition (by rw [hl]; decide) hle hm (Option.some.inj h)
    · next hl => exact tcpConn_transition (by rw [hl]; decide) hle hm h
    · next hl => exact tcpConn_transition (by rw [hl]; decide) hle hm h

/-- **Step inversion.** -/
theorem step_transition (h : s.step display e = some (s', out)) :
    Transition display s e s' out := by
  cases e with
  | message client packet clock =>
    rw [step] at h
    split at h
    · cases h
    · next m hadvance =>
      obtain ⟨hle, hm⟩ := advance_eq_some hadvance
      exact message_transition hle hm h
  | cold i clock =>
    rw [step] at h
    split at h
    · next m req hadvance hreq =>
      obtain ⟨hle, rfl⟩ := advance_eq_some hadvance
      exact beginHandle_transition
        (m := { s with now := clock.now, cold := s.cold.eraseIdx i })
        (.cold hreq) rfl rfl rfl
        (fun r hr => List.mem_of_mem_eraseIdx hr) rfl hle rfl (Option.some.inj h)
    · cases h
  | datagram i server src bytes clock =>
    rw [step] at h
    split at h
    · next m w hadvance hw =>
      obtain ⟨hle, rfl⟩ := advance_eq_some hadvance
      split at h
      · next haccept =>
        obtain ⟨rfl, rfl⟩ := Prod.mk.inj (Option.some.inj h)
        exact .relayed (List.mem_of_getElem? hw) haccept.1 haccept.2
          (.of_eq rfl rfl (fun _ hr => hr) (fun _ hw' => List.mem_of_mem_eraseIdx hw') hle)
          rfl rfl
      · cases h
    · cases h
  | unresolved i =>
    rw [step] at h
    split at h
    · obtain ⟨rfl, rfl⟩ := Prod.mk.inj (Option.some.inj h)
      exact .idle (by rintro _ _ ⟨⟩) (.of_eq rfl rfl (fun _ hr => hr)
        (fun _ hw => List.mem_of_mem_eraseIdx hw) (Nat.le_refl _)) rfl
    · cases h
  | configure config =>
    obtain ⟨rfl, rfl⟩ := Prod.mk.inj (Option.some.inj h)
    exact .idle (by rintro _ _ ⟨⟩) ⟨rfl, fun hne => absurd rfl (hne config), fun _ hr => .inl hr,
      fun _ hw => .inl hw, Nat.le_refl _⟩ rfl
  | setBlockList list =>
    obtain ⟨rfl, rfl⟩ := Prod.mk.inj (Option.some.inj h)
    exact .idle (by rintro _ _ ⟨⟩) (.of_calls rfl rfl rfl rfl (Nat.le_refl _)) rfl
  | setAllowList list =>
    obtain ⟨rfl, rfl⟩ := Prod.mk.inj (Option.some.inj h)
    exact .idle (by rintro _ _ ⟨⟩) (.of_calls rfl rfl rfl rfl (Nat.le_refl _)) rfl

end Inversion

end Server

/-! ## Concrete messages

Clients and inputs for the runs that witness results about the machine. -/

namespace Sample

/-- A client of a listener, by the last octet of its address. -/
def client (listener : Listener) (host : UInt8) : Client :=
  ⟨listener, ⟨.v4 #v[10, 0, 0, host], 40000⟩, 0⟩

/-- A message of a client, at a second. -/
def ask (client : Client) (id : UInt8) (secs : Nat) : Input :=
  .message client (packet id name) (clock secs)

/-- The upstream's answer to the one call under way, at a second. -/
def answered (id : UInt8) (secs : Nat) : Input :=
  .datagram 0 resolver resolver (answer id name) (clock secs)

/-- The receipt of the answer. -/
def receipt (id : UInt8) (secs : Nat) : Receipt :=
  ⟨query id, answer id name, secs * 1000000000⟩

/-- The answer as a reply to a client. -/
def reply (client : Client) (id : UInt8) (secs : Nat) (cacheHit : Bool) : Reply :=
  ⟨client, packet id name, answer id name,
    some ⟨0, ['a', 'b', '.', 'c', 'd'], 1, 0, cacheHit, false, 0⟩, secs * 1000000000⟩

end Sample

end Denis
