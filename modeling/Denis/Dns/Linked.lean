import Denis.Dns.Beside
import Denis.Dns.ColdPath
import Denis.Dns.Policy

/-!
# The datapath and the server, step by step

`Linked` relates the process of `Denis.Dns.ColdPath` to the server: the server has
the queries that are spawned, queued, handed on or in `resolve` here, as the requests
of the clients whose `serve_miss` waits for them, and has replied what the workers
sent and what is on reply channels. Each step of the process keeps it
(`Linked.step`), most of them with no step of the server.

`Channels` is what makes a reply reach its client: a reply channel belongs to one
`serve_miss`, and its sender is in one place.
-/

namespace Denis

open Text InFlight

/-- The replies to the workers' clients. -/
def udpReplies (h : List Output) : List (SocketAddr × Bytes) :=
  h.filterMap fun
    | .reply r => if r.client.listener = .monoUdp then some (r.client.addr, r.raw) else none
    | _ => none

/-- What the workers have sent. -/
def sentDatagrams (outs : List MonoioOutput) : List (SocketAddr × Bytes) :=
  outs.filterMap fun
    | .sent dest raw => some (dest, raw)
    | .effect _ => none

/-- What else the process has done. -/
def effects (outs : List MonoioOutput) : List Effect :=
  outs.filterMap fun
    | .sent _ _ => none
    | .effect e => some e

/-- What the outside does, as the server sees it. -/
def MonoioInput.outside : MonoioInput → Option Input
  | .datagram src packet clock => some (.message (udpClient src) packet clock)
  | .response _ upstream src bytes clock => some (.datagram 0 upstream src bytes clock)
  | .unresolved _ => some (.unresolved 0)
  | .server input => input.outside
  | _ => none

/-- A step of the process's own tasks, `resolve` giving up included. -/
def MonoioInput.isInternal : MonoioInput → Bool
  | .datagram _ _ _ => false
  | .response _ _ _ _ _ => false
  | .server _ => false
  | _ => true

section Views

variable {h h' : List Output} {outs outs' : List MonoioOutput}

@[simp] theorem udpReplies_append : udpReplies (h ++ h') = udpReplies h ++ udpReplies h' :=
  List.filterMap_append ..

@[simp] theorem sentDatagrams_append :
    sentDatagrams (outs ++ outs') = sentDatagrams outs ++ sentDatagrams outs' :=
  List.filterMap_append ..

@[simp] theorem effects_append : effects (outs ++ outs') = effects outs ++ effects outs' :=
  List.filterMap_append ..

theorem udpReplies_udp {r : Reply} (hudp : r.client.listener = .monoUdp) :
    udpReplies (.reply r :: h) = (r.client.addr, r.raw) :: udpReplies h :=
  List.filterMap_cons_some (if_pos hudp)

theorem effects_udp {r : Reply} (hudp : r.client.listener = .monoUdp) :
    (Output.reply r).effects = r.event.toList.map .event := if_pos hudp

@[simp] theorem sentDatagrams_effect (es : List Effect) : sentDatagrams (es.map .effect) = [] := by
  rw [sentDatagrams, List.filterMap_map]
  exact List.filterMap_eq_nil_iff.mpr fun _ _ => rfl

@[simp] theorem effects_effect (es : List Effect) : effects (es.map .effect) = es := by
  rw [effects, List.filterMap_map]
  exact List.filterMap_some

end Views

namespace Monoio

/-- The queries spawned, queued or handed to a task. -/
def queued (s : Monoio) : List ColdRequest := s.spawned ++ s.channel ++ s.handlers

/-- The queries not yet answered. -/
def requests (s : Monoio) : List ColdRequest := s.queued ++ s.resolving.map Prod.fst

/-- The reply channels in use: their sender is with a query, or has sent, or was
dropped. -/
def live (s : Monoio) : List Nat :=
  s.requests.map ColdRequest.reply ++ s.replies.map Prod.fst ++ s.dropped

/-- The replies on their way to the workers, with the clients they will be sent to. -/
def pending (s : Monoio) : List (SocketAddr × Bytes) :=
  s.replies.filterMap fun p => (s.task p.1).map fun t => (t.src, p.2)

/-- What the tasks have yet to do at most. -/
def backlog (s : Monoio) : Nat :=
  5 * s.spawned.length + 4 * s.channel.length + 3 * s.handlers.length + 2 * s.resolving.length +
    s.replies.length + s.dropped.length

/-- Every reply channel in use is of one `serve_miss`, and has one sender. -/
structure Channels (s : Monoio) : Prop where
  fresh : ∀ id ∈ s.live, id < s.next
  nodup : s.live.Nodup
  tasks : (s.tasks.map MissTask.reply).Perm s.live

/-- The process and the server after the same outside events, `m` being the
server's request for a reply channel: what is queued and waiting here is so there,
and what was replied there was sent here or is on a reply channel. -/
structure Linked (s : Monoio) (m : Nat → Request) (outs : List MonoioOutput) (a : Server)
    (h : List Output) : Prop where
  server : a = { s.server with cold := a.cold, waiting := a.waiting }
  runtime : s.server.runtime = .monoio
  noCold : s.server.cold = []
  others : ∀ w ∈ s.server.waiting, w.request.client.listener ≠ .monoUdp
  channels : s.Channels
  client : ∀ t ∈ s.tasks, (m t.reply).client = udpClient t.src
  query : ∀ req ∈ s.requests,
    (m req.reply).query = req.query ∧ (m req.reply).timestampMs = req.timestampMs
  cold : a.cold.Perm (s.queued.map fun req => m req.reply)
  waiting : a.waiting.Perm (s.server.waiting ++ s.resolving.map fun p => ⟨m p.1.reply, p.2⟩)
  udp : (udpReplies h).Perm
    (sentDatagrams outs ++ s.replies.map fun p => ((m p.1).client.addr, p.2))
  beside : h.flatMap Output.effects = effects outs

section Links

variable {display : RecordType → Str} {m m' : Nat → Request} {s s' : Monoio}
  {outs : List MonoioOutput} {a : Server} {h : List Output} {clock : Clock}

/-- Queries that move on keep their channels. -/
theorem Channels.of_perm (hchannels : s.Channels) (hlive : s'.live.Perm s.live)
    (hnext : s'.next = s.next) (htasks : s'.tasks = s.tasks) : s'.Channels where
  fresh id hid := hnext ▸ hchannels.fresh id (hlive.mem_iff.mp hid)
  nodup := hlive.nodup_iff.mpr hchannels.nodup
  tasks := htasks ▸ hchannels.tasks.trans hlive.symm

/-- A reply channel that ends takes its `serve_miss` along. -/
theorem Channels.ended {id : Nat} (hchannels : s.Channels) (hlive : s.live.Perm (id :: s'.live))
    (hnext : s'.next = s.next) (htasks : s'.tasks = s.tasks) : (s'.endTask id).Channels where
  fresh x hx := hnext ▸ hchannels.fresh x (hlive.mem_iff.mpr (List.mem_cons_of_mem _ hx))
  nodup := (List.nodup_cons.mp (hlive.nodup_iff.mp hchannels.nodup)).2
  tasks := by
    have hnodup := hchannels.tasks.nodup_iff.mpr hchannels.nodup
    have hleft := filter_ne_perm (hchannels.tasks.trans hlive) hnodup
    rw [List.filter_map] at hleft
    change ((s'.tasks.filter fun t => t.reply ≠ id).map MissTask.reply).Perm s'.live
    rw [htasks]
    exact hleft

theorem mem_live_of_request {req : ColdRequest} (hreq : req ∈ s.requests) : req.reply ∈ s.live :=
  List.mem_append_left _ (List.mem_append_left _ (List.mem_map_of_mem hreq))

theorem mem_live_of_reply {p : Nat × Bytes} (hp : p ∈ s.replies) : p.1 ∈ s.live :=
  List.mem_append_left _ (List.mem_append_right _ (List.mem_map_of_mem hp))

theorem mem_requests_of_resolving {p : ColdRequest × List SocketAddr} (hp : p ∈ s.resolving) :
    p.1 ∈ s.requests :=
  List.mem_append_right _ (List.mem_map_of_mem hp)

/-- The client of a reply channel in use. -/
theorem Linked.udp_client {id : Nat} (hl : s.Linked m outs a h) (hid : id ∈ s.live) :
    ∃ t ∈ s.tasks, t.reply = id ∧ (m id).client = udpClient t.src := by
  obtain ⟨t, ht, rfl⟩ := List.mem_map.mp (hl.channels.tasks.mem_iff.mpr hid)
  exact ⟨t, ht, rfl, hl.client t ht⟩

/-- Only the requests of channels in use count. -/
theorem Linked.congr (hl : s.Linked m outs a h) (hsame : ∀ id ∈ s.live, m' id = m id) :
    s.Linked m' outs a h where
  server := hl.server
  runtime := hl.runtime
  noCold := hl.noCold
  others := hl.others
  channels := hl.channels
  client t ht := by
    rw [hsame _ (hl.channels.tasks.mem_iff.mp (List.mem_map_of_mem ht))]
    exact hl.client t ht
  query req hreq := by
    rw [hsame _ (mem_live_of_request hreq)]
    exact hl.query req hreq
  cold := by
    rw [List.map_congr_left fun req hreq =>
      hsame _ (mem_live_of_request (List.mem_append_left _ hreq))]
    exact hl.cold
  waiting := by
    have hcalls : (s.resolving.map fun p => (⟨m' p.1.reply, p.2⟩ : Waiting)) =
        s.resolving.map fun p => ⟨m p.1.reply, p.2⟩ :=
      List.map_congr_left fun p hp => by
        rw [hsame _ (mem_live_of_request (mem_requests_of_resolving hp))]
    rw [hcalls]
    exact hl.waiting
  udp := by
    have hqueued : (s.replies.map fun p => ((m' p.1).client.addr, p.2)) =
        s.replies.map fun p => ((m p.1).client.addr, p.2) :=
      List.map_congr_left fun p hp => by rw [hsame _ (mem_live_of_reply hp)]
    rw [hqueued]
    exact hl.udp
  beside := hl.beside

/-- The clock goes on alike. -/
theorem Linked.advance (hl : s.Linked m outs a h) (hs : s.advance clock = some s') :
    ∃ server a', s' = { s with server } ∧ a.advance clock = some a' ∧ a'.cold = a.cold ∧
      a'.waiting = a.waiting ∧ s'.Linked m outs a' h := by
  obtain ⟨server, hserver, rfl⟩ := Option.map_eq_some_iff.mp hs
  refine ⟨server, { server with cold := a.cold, waiting := a.waiting }, rfl, ?_, rfl, rfl, ?_⟩
  · rw [hl.server]
    exact Server.advance_beside a.cold a.waiting hserver
  · obtain ⟨-, rfl⟩ := Server.advance_eq_some hserver
    exact { hl with server := rfl, channels := hl.channels.of_perm (.refl _) rfl rfl }

/-- A query that moves on between `serve_miss`, the channel and `cold_path` is queued
as before. -/
theorem Linked.requeued {spawned channel handlers : List ColdRequest}
    (hl : s.Linked m outs a h) (hperm : (spawned ++ channel ++ handlers).Perm s.queued) :
    ({ s with spawned, channel, handlers } : Monoio).Linked m outs a h :=
  have hrequests : ({ s with spawned, channel, handlers } : Monoio).requests.Perm s.requests :=
    hperm.append_right _
  { hl with
    channels := hl.channels.of_perm
      (((hrequests.map _).append_right _).append_right _) rfl rfl
    query := fun req hreq => hl.query req (hrequests.mem_iff.mp hreq)
    cold := hl.cold.trans (hperm.map _).symm }

/-- A worker replies at once. -/
theorem Linked.replied (hl : s.Linked m outs a h) (src : SocketAddr) (packet raw : Bytes)
    (event : Option DnsQueryEvent) (time : Nat) :
    s.Linked m
      (outs ++ (event.toList.map (fun event => .effect (.event event)) ++ [.sent src raw])) a
      (h ++ [.reply ⟨udpClient src, packet, raw, event, time⟩]) where
  server := hl.server
  runtime := hl.runtime
  noCold := hl.noCold
  others := hl.others
  channels := hl.channels
  client := hl.client
  query := hl.query
  cold := hl.cold
  waiting := hl.waiting
  udp := by
    have hsent : sentDatagrams
        (event.toList.map (fun event => .effect (.event event)) ++ [.sent src raw]) =
        [(src, raw)] := by
      cases event <;> rfl
    rw [udpReplies_append, sentDatagrams_append, hsent, List.append_assoc]
    refine (hl.udp.append_right [(src, raw)]).trans ?_
    rw [List.append_assoc]
    exact List.perm_append_comm.append_left _
  beside := by
    have heffects : effects
        (event.toList.map (fun event => .effect (.event event)) ++ [.sent src raw]) =
        event.toList.map .event := by
      cases event <;> rfl
    rw [List.flatMap_append, hl.beside, effects_append, heffects]
    exact congrArg (effects outs ++ ·) (List.append_nil _)

/-- A worker misses. -/
theorem Linked.missed {src : SocketAddr} {query : Query} {timestampMs : UInt64} {req : Request}
    (hl : s.Linked m outs a h) (hclient : req.client = udpClient src) (hquery : req.query = query)
    (htime : req.timestampMs = timestampMs) :
    ({ s with
      next := s.next + 1
      spawned := s.spawned ++ [⟨query, timestampMs, s.next⟩]
      tasks := s.tasks ++ [⟨s.next, src⟩] } : Monoio).Linked (Function.update m s.next req)
        outs { a with cold := a.cold ++ [req] } h := by
  -- the new reply channel is none of those in use, so the map stays as it was on these
  have hfresh : s.next ∉ s.live := fun hid => Nat.lt_irrefl _ (hl.channels.fresh _ hid)
  have hother : ∀ id ∈ s.live, Function.update m s.next req id = m id := by
    intro id hid
    have hne : id ≠ s.next := fun heq => hfresh (heq ▸ hid)
    exact Function.update_of_ne hne ..
  have hl := hl.congr hother
  have hnew : Function.update m s.next req s.next = req := Function.update_self ..
  generalize Function.update m s.next req = μ at hl hnew
  let s' : Monoio := { s with
    next := s.next + 1
    spawned := s.spawned ++ [⟨query, timestampMs, s.next⟩]
    tasks := s.tasks ++ [⟨s.next, src⟩] }
  -- everywhere else the query and its channel are one more
  have hqueued : s'.queued.Perm (⟨query, timestampMs, s.next⟩ :: s.queued) := by
    unfold queued
    rw [List.append_assoc, List.append_assoc s.spawned, List.append_assoc s.spawned]
    exact List.perm_middle
  have hrequests : s'.requests.Perm (⟨query, timestampMs, s.next⟩ :: s.requests) :=
    hqueued.append_right _
  have hlive : s'.live.Perm (s.next :: s.live) :=
    ((hrequests.map ColdRequest.reply).append_right _).append_right _
  have hchannels : s'.Channels := {
    fresh := by
      intro id hid
      rcases List.mem_cons.mp (hlive.mem_iff.mp hid) with rfl | hid
      · exact Nat.lt_succ_self _
      · exact Nat.lt_succ_of_lt (hl.channels.fresh id hid)
    nodup := hlive.nodup_iff.mpr (List.nodup_cons.mpr ⟨hfresh, hl.channels.nodup⟩)
    tasks := by
      rw [List.map_append]
      exact List.perm_append_comm.trans ((hl.channels.tasks.cons s.next).trans hlive.symm) }
  exact { hl with
    server := by rw [hl.server]
    channels := hchannels
    client := by
      intro t ht
      rcases List.mem_append.mp ht with ht | ht
      · exact hl.client t ht
      · obtain rfl := List.mem_singleton.mp ht
        rw [hnew]
        exact hclient
    query := by
      intro r hr
      rcases List.mem_cons.mp (hrequests.mem_iff.mp hr) with rfl | hr
      · rw [hnew]
        exact ⟨hquery, htime⟩
      · exact hl.query r hr
    cold := by
      refine ((hl.cold.append_right [req]).trans List.perm_append_comm).trans ?_
      refine List.Perm.trans ?_ (hqueued.map fun r => μ r.reply).symm
      rw [List.map_cons, hnew]
      exact .refl _ }

/-- Queries that go on to replies, and the rest: what the server has of them follows. -/
theorem Linked.moved {handlers : List ColdRequest}
    {resolving : List (ColdRequest × List SocketAddr)} {replies : List (Nat × Bytes)}
    {dropped : List Nat} {cold : List Request} {waiting : List Waiting}
    {outs' : List MonoioOutput} {out' : List Output} (hl : s.Linked m outs a h) (cache : Cache)
    (hs : s' = { s with
      server := { s.server with cache }, handlers, resolving, replies, dropped })
    (hlive : s'.live.Perm s.live) (hrequests : ∀ r ∈ s'.requests, r ∈ s.requests)
    (hcold : cold.Perm (s'.queued.map fun req => m req.reply))
    (hwaiting : waiting.Perm (s.server.waiting ++ resolving.map fun p => ⟨m p.1.reply, p.2⟩))
    (hudp : (udpReplies out' ++ s.replies.map fun p => ((m p.1).client.addr, p.2)).Perm
      (sentDatagrams outs' ++ replies.map fun p => ((m p.1).client.addr, p.2)))
    (hbeside : out'.flatMap Output.effects = effects outs') :
    s'.Linked m (outs ++ outs') { a with cache, cold, waiting } (h ++ out') := by
  subst hs
  exact {
    server := by rw [hl.server]
    runtime := hl.runtime
    noCold := hl.noCold
    others := hl.others
    channels := hl.channels.of_perm hlive rfl rfl
    client := hl.client
    query := fun r hr => hl.query r (hrequests r hr)
    cold := hcold
    waiting := hwaiting
    udp := by
      rw [udpReplies_append, sentDatagrams_append, List.append_assoc]
      refine (hl.udp.append_right _).trans ?_
      rw [List.append_assoc]
      exact (List.perm_append_comm.trans hudp).append_left _
    beside := by rw [List.flatMap_append, hl.beside, effects_append, hbeside] }

theorem datagram_error {src : SocketAddr} {packet : Bytes} {error : ParseError}
    (herror : Parser.parseUdp (packet.take udpRecvBuf) = .error error) :
    s.datagram display src packet clock = (s, []) := by
  have hrefuse : Worker.refuse (packet.take udpRecvBuf) = none := by rw [Worker.refuse, herror]
  have hclassify : Worker.classify display s.server.cache s.server.config
      (packet.take udpRecvBuf) clock = (.drop, []) := by
    rw [Worker.classify, herror]
  unfold datagram
  dsimp only
  rw [hrefuse, hclassify]
  split
  · rfl
  · rfl
  · rfl

theorem datagram_ok {src : SocketAddr} {packet : Bytes} {query : Query}
    (hparse : Parser.parseUdp (packet.take udpRecvBuf) = .ok query) :
    s.datagram display src packet clock =
      match s.server.acl.decide src.ip with
      | .deny => (s, [])
      | .refuse => (s, [.sent src (UpstreamResponse.blocked query .refused).raw])
      | .allow =>
        match QueryHandler.beginParsed display s.server.cache s.server.config query clock with
        | some (_, served) =>
          (s, [.effect (.event (QueryHandler.event query clock.timestampMs served)),
            .sent src served.raw])
        | none =>
          ({ s with
            next := s.next + 1
            spawned := s.spawned ++ [⟨query, clock.timestampMs, s.next⟩]
            tasks := s.tasks ++ [⟨s.next, src⟩] }, []) := by
  have hrefuse : Worker.refuse (packet.take udpRecvBuf) =
      some (UpstreamResponse.blocked query .refused).raw := by
    rw [Worker.refuse, hparse]
  have hclassify := @Worker.classify_eq display s.server.cache s.server.config
    (packet.take udpRecvBuf) clock
  rw [hparse] at hclassify
  unfold datagram
  dsimp only at hclassify ⊢
  rw [hrefuse, hclassify]
  cases s.server.acl.decide src.ip with
  | deny => rfl
  | refuse => rfl
  | allow =>
    cases QueryHandler.beginParsed display s.server.cache s.server.config query clock with
    | some found => rfl
    | none => rfl

theorem Linked.cache_eq (hl : s.Linked m outs a h) : a.cache = s.server.cache := by
  rw [hl.server]

theorem Linked.beginParsed (hl : s.Linked m outs a h) (query : Query) (clock : Clock) :
    QueryHandler.beginParsed display a.cache a.config query clock =
      QueryHandler.beginParsed display s.server.cache s.server.config query clock := by
  rw [hl.server]

/-- A datagram reaches a worker. -/
theorem Linked.datagram (hl : s.Linked m outs a h) (src : SocketAddr) (packet : Bytes)
    (clock : Clock) :
    ∃ b out μ, a.monoUdp display (udpClient src) packet clock = (b, out) ∧
      (s.datagram display src packet clock).1.Linked μ
        (outs ++ (s.datagram display src packet clock).2) b (h ++ out) := by
  have hdecide : a.acl.decide (udpClient src).addr.ip = s.server.acl.decide src.ip := by
    rw [hl.server]
    rfl
  cases hparse : Parser.parseUdp (packet.take udpRecvBuf) with
  | error e =>
    refine ⟨a, [], m, Server.monoUdp_error hparse, ?_⟩
    rw [datagram_error hparse, List.append_nil, List.append_nil]
    exact hl
  | ok query =>
    have habstract := @Server.monoUdp_ok display a clock (udpClient src) packet query hparse
    rw [hdecide, hl.beginParsed] at habstract
    rw [habstract, datagram_ok hparse]
    cases s.server.acl.decide src.ip with
    | deny =>
      refine ⟨a, [], m, rfl, ?_⟩
      rw [List.append_nil, List.append_nil]
      exact hl
    | refuse => exact ⟨a, _, m, rfl, hl.replied src packet _ none a.now⟩
    | allow =>
      cases QueryHandler.beginParsed display s.server.cache s.server.config query clock with
      | some found => exact ⟨a, _, m, rfl, hl.replied src packet _ (some _) a.now⟩
      | none =>
        let req : Request := ⟨udpClient src, packet, query, clock.timestampMs, hparse⟩
        refine ⟨_, [], Function.update m s.next req, rfl, ?_⟩
        rw [List.append_nil, List.append_nil]
        exact hl.missed rfl rfl rfl

/-- The reply channel of a query off the queue or out of `resolve` goes on. -/
theorem live_replied {req : ColdRequest} {raw : Bytes}
    (hrequests : s.requests.Perm (req :: s'.requests))
    (hreplies : s'.replies = s.replies ++ [(req.reply, raw)]) (hdropped : s'.dropped = s.dropped) :
    s'.live.Perm s.live := by
  rw [live, hreplies, hdropped, List.map_append]
  exact perm_moved (hrequests.map ColdRequest.reply) _ _

theorem live_dropped {req : ColdRequest} (hrequests : s.requests.Perm (req :: s'.requests))
    (hreplies : s'.replies = s.replies) (hdropped : s'.dropped = s.dropped ++ [req.reply]) :
    s'.live.Perm s.live := by
  rw [live, hreplies, hdropped]
  exact perm_moved_last (hrequests.map ColdRequest.reply) _ _

/-- `cold_path` hands a query to the handler. -/
theorem Linked.handled {i : Nat} {req : ColdRequest} (hl : s.Linked m outs a h)
    (hreq : s.handlers[i]? = some req) :
    ∃ j b out, a.cold[j]? = some (m req.reply) ∧
      ({ a with cold := a.cold.eraseIdx j } : Server).beginHandle display (m req.reply) clock =
        (b, out) ∧
      (handle display { s with handlers := s.handlers.eraseIdx i } req clock).1.Linked m
        (outs ++ (handle display { s with handlers := s.handlers.eraseIdx i } req clock).2) b
        (h ++ out) := by
  have htaken := perm_of_getElem? hreq
  have hqueued : s.queued.Perm
      (req :: (s.spawned ++ s.channel ++ s.handlers.eraseIdx i)) :=
    (htaken.append_left _).trans List.perm_middle
  have hmem : req ∈ s.requests :=
    List.mem_append_left _ (hqueued.mem_iff.mpr List.mem_cons_self)
  obtain ⟨t, -, -, hclient⟩ := hl.udp_client (mem_live_of_request hmem)
  have hudp : (m req.reply).client.listener = .monoUdp := by rw [hclient]; rfl
  obtain ⟨hquery, htime⟩ := hl.query req hmem
  obtain ⟨j, hj, hcold⟩ := exists_taken (hl.cold.trans (hqueued.map fun req => m req.reply))
  refine ⟨j, ?_⟩
  unfold Server.beginHandle handle
  rw [hquery, htime]
  dsimp only
  rw [hl.beginParsed]
  have hleft : s.requests.Perm (req :: (s.spawned ++ s.channel ++ s.handlers.eraseIdx i ++
      s.resolving.map Prod.fst)) := hqueued.append_right _
  cases QueryHandler.beginParsed display s.server.cache s.server.config req.query clock with
  | some found =>
    refine ⟨_, _, hj, Server.deliver_udp hudp .., ?_⟩
    refine hl.moved found.1 rfl (live_replied hleft rfl rfl) ?_ hcold hl.waiting ?_ ?_
    · exact fun r hr => hleft.mem_iff.mpr (List.mem_cons_of_mem _ hr)
    · rw [udpReplies_udp hudp, List.map_append]
      exact List.perm_append_comm
    · rw [List.flatMap_cons, effects_udp hudp]
      rfl
  | none =>
    dsimp only
    have hupstreams : a.config.upstreams = s.server.config.upstreams := by rw [hl.server]
    rw [hupstreams, Server.setConn_udp hudp, Server.setConn_udp hudp]
    split
    · refine ⟨_, _, hj, rfl, ?_⟩
      refine hl.moved a.cache (by rw [hl.cache_eq]) (live_dropped hleft rfl rfl) ?_ hcold
        hl.waiting (.refl _) rfl
      exact fun r hr => hleft.mem_iff.mpr (List.mem_cons_of_mem _ hr)
    · refine ⟨_, _, hj, rfl, ?_⟩
      have hsame : (s.spawned ++ s.channel ++ s.handlers.eraseIdx i ++
          (s.resolving ++ [(req, s.server.config.upstreams)]).map Prod.fst).Perm s.requests := by
        rw [List.map_append, ← List.append_assoc]
        exact List.perm_append_comm.trans hleft.symm
      refine hl.moved a.cache (by rw [hl.cache_eq]) (((hsame.map _).append_right _).append_right _)
        (fun r hr => hsame.mem_iff.mp hr) hcold ?_ (.refl _) rfl
      rw [List.map_append, ← List.append_assoc]
      exact hl.waiting.append_right _

/-- A query in `resolve` is one of the server's waiting calls. -/
theorem Linked.resolved {i : Nat} {req : ColdRequest} {servers : List SocketAddr}
    (hl : s.Linked m outs a h) (hreq : s.resolving[i]? = some (req, servers)) :
    ∃ j, a.waiting[j]? = some ⟨m req.reply, servers⟩ ∧
      (a.waiting.eraseIdx j).Perm
        (s.server.waiting ++ (s.resolving.eraseIdx i).map fun p => ⟨m p.1.reply, p.2⟩) ∧
      s.requests.Perm (req :: (s.queued ++ (s.resolving.eraseIdx i).map Prod.fst)) := by
  have htaken := perm_of_getElem? hreq
  have hmiddle := (htaken.map fun p => (⟨m p.1.reply, p.2⟩ : Waiting)).append_left s.server.waiting
  obtain ⟨j, hj, hwaiting⟩ := exists_taken ((hl.waiting.trans hmiddle).trans List.perm_middle)
  exact ⟨j, hj, hwaiting, ((htaken.map Prod.fst).append_left _).trans List.perm_middle⟩

/-- Its response arrives. -/
theorem Linked.responded {i : Nat} {req : ColdRequest} {servers : List SocketAddr}
    (hl : s.Linked m outs a h) (hreq : s.resolving[i]? = some (req, servers)) (bytes : Bytes) :
    ∃ j b out, a.waiting[j]? = some ⟨m req.reply, servers⟩ ∧ (m req.reply).query = req.query ∧
      ({ a with waiting := a.waiting.eraseIdx j } : Server).complete display (m req.reply) clock
        bytes = (b, out) ∧
      (response display { s with resolving := s.resolving.eraseIdx i } req clock bytes).1.Linked m
        (outs ++
          (response display { s with resolving := s.resolving.eraseIdx i } req clock bytes).2) b
        (h ++ out) := by
  obtain ⟨j, hj, hwaiting, hleft⟩ := hl.resolved hreq
  have hmem : req ∈ s.requests := hleft.mem_iff.mpr List.mem_cons_self
  obtain ⟨t, -, -, hclient⟩ := hl.udp_client (mem_live_of_request hmem)
  have hudp : (m req.reply).client.listener = .monoUdp := by rw [hclient]; rfl
  obtain ⟨hquery, htime⟩ := hl.query req hmem
  have hcomplete : QueryHandler.completeMiss display a.cache a.config req.query clock
      (exchangeResponse bytes) =
      QueryHandler.completeMiss display s.server.cache s.server.config req.query clock
        (exchangeResponse bytes) := by
    rw [hl.server]
  have hnow : a.now = s.server.now := by rw [hl.server]
  refine ⟨j, ?_⟩
  unfold Server.complete response
  rw [hquery, htime]
  dsimp only
  rw [hcomplete, Server.deliver_udp hudp]
  refine ⟨_, _, hj, rfl, rfl, ?_⟩
  refine hl.moved _ rfl (live_replied hleft rfl rfl) ?_ hl.cold hwaiting ?_ ?_
  · exact fun r hr => hleft.mem_iff.mpr (List.mem_cons_of_mem _ hr)
  · rw [List.map_append]
    change (udpReplies (.reply _ :: []) ++ _).Perm _
    rw [udpReplies_udp hudp]
    exact List.perm_append_comm
  · rw [List.flatMap_cons, List.flatMap_cons, effects_udp hudp, hnow]
    rfl

/-- `resolve` fails. -/
theorem Linked.failed {i : Nat} {req : ColdRequest} {servers : List SocketAddr}
    (hl : s.Linked m outs a h) (hreq : s.resolving[i]? = some (req, servers)) :
    ∃ j b, a.waiting[j]? = some ⟨m req.reply, servers⟩ ∧
      ({ a with waiting := a.waiting.eraseIdx j } : Server).setConn (m req.reply).client .closed =
        b ∧
      ({ s with
        resolving := s.resolving.eraseIdx i
        dropped := s.dropped ++ [req.reply] } : Monoio).Linked m outs b h := by
  obtain ⟨j, hj, hwaiting, hleft⟩ := hl.resolved hreq
  have hmem : req ∈ s.requests := hleft.mem_iff.mpr List.mem_cons_self
  obtain ⟨t, -, -, hclient⟩ := hl.udp_client (mem_live_of_request hmem)
  have hudp : (m req.reply).client.listener = .monoUdp := by rw [hclient]; rfl
  refine ⟨j, _, hj, Server.setConn_udp hudp .., ?_⟩
  have hmoved : ({ s with
      resolving := s.resolving.eraseIdx i
      dropped := s.dropped ++ [req.reply] } : Monoio).Linked m (outs ++ [])
      { a with waiting := a.waiting.eraseIdx j } (h ++ []) := by
    refine hl.moved a.cache (by rw [hl.cache_eq]) (live_dropped hleft rfl rfl) ?_ hl.cold hwaiting
      (.refl _) rfl
    exact fun r hr => hleft.mem_iff.mpr (List.mem_cons_of_mem _ hr)
  rw [List.append_nil, List.append_nil] at hmoved
  exact hmoved

theorem task_eq_some {id : Nat} {t : MissTask} (ht : s.task id = some t) :
    t ∈ s.tasks ∧ t.reply = id :=
  ⟨List.mem_of_find?_eq_some ht, by simpa using List.find?_some ht⟩

/-- A reply arrives at its `serve_miss`, which sends it on. -/
theorem Linked.delivered {i id : Nat} {raw : Bytes} {t : MissTask}
    (hl : s.Linked m outs a h) (hreply : s.replies[i]? = some (id, raw))
    (ht : s.task id = some t) :
    (endTask { s with replies := s.replies.eraseIdx i } id).Linked m (outs ++ [.sent t.src raw]) a
      h := by
  have htaken := perm_of_getElem? hreply
  obtain ⟨hmem, rfl⟩ := task_eq_some ht
  have hlive : s.live.Perm
      (t.reply :: ({ s with replies := s.replies.eraseIdx i } : Monoio).live) :=
    (((htaken.map Prod.fst).append_left _).append_right _).trans
      (List.perm_middle.append_right _)
  have haddr : (m t.reply).client.addr = t.src := by rw [hl.client t hmem]; rfl
  exact { hl with
    channels := hl.channels.ended hlive rfl rfl
    client := fun t' ht' => hl.client t' (List.mem_of_mem_filter ht')
    udp := by
      rw [sentDatagrams_append, List.append_assoc]
      refine hl.udp.trans (List.Perm.append_left _ ?_)
      refine (htaken.map fun p => ((m p.1).client.addr, p.2)).trans ?_
      rw [List.map_cons, haddr]
      exact .refl _
    beside := by
      rw [effects_append, hl.beside]
      exact (List.append_nil _).symm }

/-- A `serve_miss` ends without one. -/
theorem Linked.disconnected {i id : Nat} (hl : s.Linked m outs a h)
    (hdropped : s.dropped[i]? = some id) :
    (endTask { s with dropped := s.dropped.eraseIdx i } id).Linked m outs a h := by
  have hlive : s.live.Perm (id :: ({ s with dropped := s.dropped.eraseIdx i } : Monoio).live) :=
    ((perm_of_getElem? hdropped).append_left _).trans List.perm_middle
  exact { hl with
    channels := hl.channels.ended hlive rfl rfl
    client := fun t ht => hl.client t (List.mem_of_mem_filter ht) }

/-- The rest of the process takes a step. -/
theorem Linked.beside_step {input : Input} {server : Server} {out : List Output}
    (hl : s.Linked m outs a h) (hudp : input.isUdp = false)
    (hs : s.server.step display input = some (server, out)) :
    ∃ input' b, a.step display input' = some (b, out) ∧ input'.outside = input.outside ∧
      ({ s with server } : Monoio).Linked m (outs ++ (out.flatMap Output.effects).map .effect) b
        (h ++ out) := by
  obtain ⟨input', waiting, hstep, hwaiting, hcold, houtside⟩ :=
    Server.step_beside hudp hl.noCold a.cold hl.waiting hs
  obtain ⟨hothers, hreplies⟩ := Server.step_others hudp hl.noCold hl.others hs
  refine ⟨input', { server with cold := a.cold, waiting }, ?_, houtside, ?_⟩
  · rw [hl.server]
    exact hstep
  · exact { hl with
      server := rfl
      runtime := (Server.step_runtime hs).trans hl.runtime
      noCold := hcold
      others := hothers
      channels := hl.channels.of_perm (.refl _) rfl rfl
      waiting := hwaiting
      udp := by
        have hnone : udpReplies out = [] := by
          rw [udpReplies, List.filterMap_eq_nil_iff]
          intro o ho
          cases o with
          | reply r => exact if_neg (hreplies r ho)
          | forward client query => rfl
          | received r => rfl
        rw [udpReplies_append, hnone, List.append_nil, sentDatagrams_append, sentDatagrams_effect,
          List.append_nil]
        exact hl.udp
      beside := by rw [List.flatMap_append, hl.beside, effects_append, effects_effect] }

/-- The server keeps up with a step of the process: a run of it, on what came from
outside, leads to where the two are linked again. -/
def Followed (display : RecordType → Str) (a : Server) (h : List Output) (e : MonoioInput)
    (s' : Monoio) (outs : List MonoioOutput) : Prop :=
  ∃ es b out', (Server.machine display).run a es = some (b, out') ∧
    es.filterMap Input.outside = e.outside.toList ∧ ∃ μ, s'.Linked μ outs b (h ++ out')

section Steps

variable {e : MonoioInput} {out : List MonoioOutput}

/-- With no step of the server. -/
theorem Followed.none (houtside : e.outside = none) (hl : s'.Linked m outs a h) :
    Followed display a h e s' outs := by
  refine ⟨[], a, [], rfl, ?_, m, ?_⟩
  · rw [houtside]
    rfl
  · rw [List.append_nil]
    exact hl

/-- With one. -/
theorem Followed.one {input : Input} {b : Server} {out' : List Output}
    (hstep : a.step display input = some (b, out')) (houtside : input.outside = e.outside)
    (hl : s'.Linked m outs b (h ++ out')) : Followed display a h e s' outs := by
  refine ⟨[input], b, out', ?_, ?_, m, hl⟩
  · exact Machine.run_cons_eq_some.mpr ⟨_, _, [], hstep, rfl, (List.append_nil _).symm⟩
  · rw [List.filterMap_cons, houtside]
    cases e.outside <;> rfl

theorem Linked.step_datagram {src : SocketAddr} {packet : Bytes} (hl : s.Linked m outs a h)
    (hs : s.step display (.datagram src packet clock) = some (s', out)) :
    Followed display a h (.datagram src packet clock) s' (outs ++ out) := by
  obtain ⟨s₁, hadvance, hs⟩ := Option.map_eq_some_iff.mp hs
  obtain ⟨rfl, rfl⟩ := Prod.mk.inj hs
  obtain ⟨-, a₁, -, hadvance', -, -, hl₁⟩ := hl.advance hadvance
  obtain ⟨b, out', μ, hmono, hlinked⟩ := hl₁.datagram src packet clock
  -- the worker's datagram is a message of its client to the server
  have hlistens : (udpClient src).listener ∈ a₁.runtime.listeners := by
    rw [hl₁.server, hl₁.runtime]
    exact List.mem_cons_self
  have hstep : a.step display (.message (udpClient src) packet clock) = some (b, out') := by
    rw [Server.step, hadvance']
    dsimp only
    rw [Server.message, if_neg (not_not_intro hlistens)]
    exact congrArg some hmono
  exact .one hstep rfl hlinked

theorem Linked.step_serveMiss {i : Nat} (hl : s.Linked m outs a h)
    (hs : s.step display (.serveMiss i) = some (s', out)) :
    Followed display a h (.serveMiss i) s' (outs ++ out) := by
  rw [Monoio.step] at hs
  split at hs
  · next req hreq =>
    obtain ⟨rfl, rfl⟩ := Prod.mk.inj (Option.some.inj hs)
    rw [List.append_nil]
    exact .none rfl (hl.requeued (perm_moved (perm_of_getElem? hreq) s.channel s.handlers))
  · cases hs

theorem Linked.step_coldPath (hl : s.Linked m outs a h)
    (hs : s.step display .coldPath = some (s', out)) :
    Followed display a h .coldPath s' (outs ++ out) := by
  rw [Monoio.step] at hs
  split at hs
  · next req channel hchannel =>
    obtain ⟨rfl, rfl⟩ := Prod.mk.inj (Option.some.inj hs)
    rw [List.append_nil]
    refine .none rfl (hl.requeued ?_)
    rw [queued, hchannel, ← List.append_assoc]
    exact (List.perm_append_singleton req _).trans (List.perm_middle.symm.append_right s.handlers)
  · cases hs

theorem Linked.step_handle {i : Nat} (hl : s.Linked m outs a h)
    (hs : s.step display (.handle i clock) = some (s', out)) :
    Followed display a h (.handle i clock) s' (outs ++ out) := by
  rw [Monoio.step] at hs
  split at hs
  · next s₁ req hadvance hreq =>
    obtain ⟨rfl, rfl⟩ := Prod.mk.inj (Option.some.inj hs)
    obtain ⟨server, a₁, rfl, hadvance', hcold, -, hl₁⟩ := hl.advance hadvance
    obtain ⟨j, b, out', hj, hbegin, hlinked⟩ :=
      @Linked.handled display _ _ _ _ _ clock _ _ hl₁ hreq
    -- the server finds the query in its own queue
    have hstep : a.step display (.cold j clock) = some (b, out') := by
      rw [Server.step, hadvance', ← hcold, hj]
      exact congrArg some hbegin
    exact .one hstep rfl hlinked
  · cases hs

theorem Linked.step_response {i : Nat} {upstream src : SocketAddr} {bytes : Bytes}
    (hl : s.Linked m outs a h)
    (hs : s.step display (.response i upstream src bytes clock) = some (s', out)) :
    Followed display a h (.response i upstream src bytes clock) s' (outs ++ out) := by
  rw [Monoio.step] at hs
  split at hs
  · next s₁ req servers hadvance hreq =>
    split at hs
    · next haccept =>
      obtain ⟨rfl, rfl⟩ := Prod.mk.inj (Option.some.inj hs)
      obtain ⟨server, a₁, rfl, hadvance', -, hwaiting, hl₁⟩ := hl.advance hadvance
      obtain ⟨j, b, out', hj, hquery, hcomplete, hlinked⟩ :=
        @Linked.responded display _ _ _ _ _ clock _ _ _ hl₁ hreq bytes
      -- where it waits for an answer to the same query, so the answer is taken too
      have hstep : a.step display (.datagram j upstream src bytes clock) = some (b, out') := by
        rw [Server.step, hadvance', ← hwaiting, hj]
        dsimp only
        rw [hquery, if_pos haccept]
        exact congrArg some hcomplete
      exact .one hstep rfl hlinked
    · cases hs
  · cases hs

theorem Linked.step_unresolved {i : Nat} (hl : s.Linked m outs a h)
    (hs : s.step display (.unresolved i) = some (s', out)) :
    Followed display a h (.unresolved i) s' (outs ++ out) := by
  rw [Monoio.step] at hs
  split at hs
  · next req servers hreq =>
    obtain ⟨rfl, rfl⟩ := Prod.mk.inj (Option.some.inj hs)
    obtain ⟨j, b, hj, hclosed, hlinked⟩ := hl.failed hreq
    have hstep : a.step display (.unresolved j) = some (b, []) := by
      rw [Server.step, hj, ← hclosed]
    rw [List.append_nil]
    rw [← List.append_nil h] at hlinked
    exact .one hstep rfl hlinked
  · cases hs

theorem Linked.step_receive {i : Nat} (hl : s.Linked m outs a h)
    (hs : s.step display (.receive i) = some (s', out)) :
    Followed display a h (.receive i) s' (outs ++ out) := by
  rw [Monoio.step] at hs
  split at hs
  · next id raw hreply =>
    split at hs
    · next t ht =>
      obtain ⟨rfl, rfl⟩ := Prod.mk.inj (Option.some.inj hs)
      exact .none rfl (hl.delivered hreply ht)
    · cases hs
  · cases hs

theorem Linked.step_disconnected {i : Nat} (hl : s.Linked m outs a h)
    (hs : s.step display (.disconnected i) = some (s', out)) :
    Followed display a h (.disconnected i) s' (outs ++ out) := by
  rw [Monoio.step] at hs
  split at hs
  · next id hdropped =>
    obtain ⟨rfl, rfl⟩ := Prod.mk.inj (Option.some.inj hs)
    rw [List.append_nil]
    exact .none rfl (hl.disconnected hdropped)
  · cases hs

theorem Linked.step_server {input : Input} (hl : s.Linked m outs a h)
    (hs : s.step display (.server input) = some (s', out)) :
    Followed display a h (.server input) s' (outs ++ out) := by
  rw [Monoio.step] at hs
  split at hs
  · cases hs
  · next hudp =>
    split at hs
    · next server out' hstep =>
      obtain ⟨rfl, rfl⟩ := Prod.mk.inj (Option.some.inj hs)
      obtain ⟨input', b, hstep', houtside, hlinked⟩ :=
        hl.beside_step (Bool.eq_false_iff.mpr hudp) hstep
      exact .one hstep' houtside hlinked
    · cases hs

end Steps

/-- **A step of the process is a step of the server or none.** -/
theorem Linked.step {e : MonoioInput} {out : List MonoioOutput} (hl : s.Linked m outs a h)
    (hs : s.step display e = some (s', out)) : Followed display a h e s' (outs ++ out) := by
  cases e with
  | datagram src packet clock => exact hl.step_datagram hs
  | serveMiss i => exact hl.step_serveMiss hs
  | coldPath => exact hl.step_coldPath hs
  | handle i clock => exact hl.step_handle hs
  | response i upstream src bytes clock => exact hl.step_response hs
  | unresolved i => exact hl.step_unresolved hs
  | receive i => exact hl.step_receive hs
  | disconnected i => exact hl.step_disconnected hs
  | server input => exact hl.step_server hs

end Links

end Monoio

end Denis
