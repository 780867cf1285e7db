import Denis.Dns.Server

/-!
# The monoio datapath (`dns/mono.rs`)

On the monoio runtime a query the worker cannot answer crosses two threads.
`Worker::run` spawns `serve_miss`, which queues the query on the cold channel with
the sender of a reply channel of its own; `cold_path` takes queries off in order
and spawns a handler for each; the handler sends its response on the reply
channel, or drops it; and `serve_miss`, which alone knows the client, sends what
arrives there. The query itself carries no address.

`Monoio` is these tasks and channels beside the rest of the process, which is
`Server`. `Server` has one step where there are five here, and keeps the client
with the query; that this is all the difference it makes is `refines_server`.
-/

namespace Denis

open Text

/-- `ColdRequest` (`mono.rs:22–27`); a reply channel is known by the number of the
`serve_miss` that made it. -/
structure ColdRequest where
  query : Query
  timestampMs : UInt64
  reply : Nat

/-- A `serve_miss` and the client it sends to (`mono.rs:131–144`). -/
structure MissTask where
  reply : Nat
  src : SocketAddr

/-- The process on the monoio runtime: what is shared, with the TCP listener's
calls (`server`); the tasks spawned but not begun; the cold channel; the handlers
spawned, and those in `upstream.resolve`; what is on reply channels, those whose
sender was dropped; and the `serve_miss` not ended. -/
structure Monoio where
  server : Server
  next : Nat
  spawned : List ColdRequest
  channel : List ColdRequest
  handlers : List ColdRequest
  resolving : List (ColdRequest × List SocketAddr)
  replies : List (Nat × Bytes)
  dropped : List Nat
  tasks : List MissTask

/-- What happens next. -/
inductive MonoioInput
  | datagram (src : SocketAddr) (packet : Bytes) (clock : Clock)
  | serveMiss (i : Nat)
  | coldPath
  | handle (i : Nat) (clock : Clock)
  | response (i : Nat) (upstream src : SocketAddr) (bytes : Bytes) (clock : Clock)
  | unresolved (i : Nat)
  | receive (i : Nat)
  | disconnected (i : Nat)
  | server (input : Input)

/-- What the process does, but for what the workers send. -/
inductive Effect
  | event (event : DnsQueryEvent)
  | forward (query : Query)
  | received (r : Receipt)
  | reply (r : Reply)

/-- What a step does to the outside. -/
inductive MonoioOutput
  | sent (dest : SocketAddr) (raw : Bytes)
  | effect (e : Effect)

/-- An output, without the datagrams to the workers' clients. -/
def Output.effects : Output → List Effect
  | .reply r =>
    if r.client.listener = .monoUdp then r.event.toList.map .event else [.reply r]
  | .forward _ query => [.forward query]
  | .received r => [.received r]

/-- A monoio worker's client. -/
def udpClient (src : SocketAddr) : Client := ⟨.monoUdp, src, 0⟩

namespace Monoio

variable (display : RecordType → Str)

/-- The process as started. -/
def start (acl : Acl) (config : RuntimeConfig) (blockList allowList : DomainSet) : Monoio where
  server := Server.start .monoio acl config blockList allowList
  next := 0
  spawned := []
  channel := []
  handlers := []
  resolving := []
  replies := []
  dropped := []
  tasks := []

/-- The body of `Worker::run`'s loop (`mono.rs:106–146`). -/
def datagram (s : Monoio) (src : SocketAddr) (packet : Bytes) (clock : Clock) :
    Monoio × List MonoioOutput :=
  let buf := packet.take udpRecvBuf
  match s.server.acl.decide src.ip with
  | .deny => (s, [])
  | .refuse =>
    match Worker.refuse buf with
    | some resp => (s, [.sent src resp])
    | none => (s, [])
  | .allow =>
    match Worker.classify display s.server.cache s.server.config buf clock with
    | (.reply resp, events) =>
      (s, events.map (fun event => .effect (.event event)) ++ [.sent src resp])
    | (.miss query timestampMs, _) =>
      ({ s with
        next := s.next + 1
        spawned := s.spawned ++ [⟨query, timestampMs, s.next⟩]
        tasks := s.tasks ++ [⟨s.next, src⟩] }, [])
    | (.drop, _) => (s, [])

/-- A task of `cold_path` up to its end or to the wait in `upstream.resolve`
(`mono.rs:242–250`). -/
def handle (s : Monoio) (req : ColdRequest) (clock : Clock) : Monoio × List MonoioOutput :=
  match QueryHandler.beginParsed display s.server.cache s.server.config req.query clock with
  | some (cache, served) =>
    ({ s with
      server := { s.server with cache }
      replies := s.replies ++ [(req.reply, served.raw)] },
      [.effect (.event (QueryHandler.event req.query req.timestampMs served))])
  | none =>
    if s.server.config.upstreams = [] then ({ s with dropped := s.dropped ++ [req.reply] }, [])
    else
      ({ s with resolving := s.resolving ++ [(req, s.server.config.upstreams)] },
        [.effect (.forward req.query)])

/-- It goes on with the response of `upstream.resolve`. -/
def response (s : Monoio) (req : ColdRequest) (clock : Clock) (bytes : Bytes) :
    Monoio × List MonoioOutput :=
  let res := exchangeResponse bytes
  let (cache, served) :=
    QueryHandler.completeMiss display s.server.cache s.server.config req.query clock res
  ({ s with
    server := { s.server with cache }
    replies := s.replies ++ [(req.reply, served.raw)] },
    [.effect (.received ⟨req.query, res.raw, s.server.now⟩),
      .effect (.event (QueryHandler.event req.query req.timestampMs served))])

/-- The `serve_miss` of a reply channel. -/
def task (s : Monoio) (reply : Nat) : Option MissTask := s.tasks.find? fun t => t.reply = reply

/-- That `serve_miss` ends. -/
def endTask (s : Monoio) (reply : Nat) : Monoio :=
  { s with tasks := s.tasks.filter fun t => t.reply ≠ reply }

/-- Move the clock on. -/
def advance (s : Monoio) (clock : Clock) : Option Monoio :=
  (s.server.advance clock).map fun server => { s with server }

/-- One step of the process. -/
def step (s : Monoio) : MonoioInput → Option (Monoio × List MonoioOutput)
  | .datagram src packet clock => (s.advance clock).map fun s => s.datagram display src packet clock
  | .serveMiss i =>
    -- the channel is unbounded, so `send_async` does not wait
    match s.spawned[i]? with
    | some req =>
      some ({ s with spawned := s.spawned.eraseIdx i, channel := s.channel ++ [req] }, [])
    | none => none
  | .coldPath =>
    match s.channel with
    | req :: channel => some ({ s with channel, handlers := s.handlers ++ [req] }, [])
    | [] => none
  | .handle i clock =>
    match s.advance clock, s.handlers[i]? with
    | some s, some req =>
      some (handle display { s with handlers := s.handlers.eraseIdx i } req clock)
    | _, _ => none
  | .response i upstream src bytes clock =>
    match s.advance clock, s.resolving[i]? with
    | some s, some (req, servers) =>
      if upstream ∈ servers ∧ exchangeAccepts upstream req.query src bytes then
        some (response display { s with resolving := s.resolving.eraseIdx i } req clock bytes)
      else none
    | _, _ => none
  | .unresolved i =>
    match s.resolving[i]? with
    | some (req, _) =>
      some ({ s with
        resolving := s.resolving.eraseIdx i, dropped := s.dropped ++ [req.reply] }, [])
    | none => none
  | .receive i =>
    match s.replies[i]? with
    | some (reply, raw) =>
      match s.task reply with
      | some t =>
        some (endTask { s with replies := s.replies.eraseIdx i } reply, [.sent t.src raw])
      | none => none
    | none => none
  | .disconnected i =>
    match s.dropped[i]? with
    | some reply => some (endTask { s with dropped := s.dropped.eraseIdx i } reply, [])
    | none => none
  | .server input =>
    if input.isUdp then none
    else
      match Server.step display s.server input with
      | some (server, out) => some ({ s with server }, (out.flatMap Output.effects).map .effect)
      | none => none

/-- The process as a machine. -/
abbrev machine : Machine Monoio MonoioInput MonoioOutput := ⟨step display⟩

end Monoio

end Denis
