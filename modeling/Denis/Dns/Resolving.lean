import Denis.Dns.Server
import Denis.Handler.Sockets

/-!
# The server over its upstream pool (`handler/query.rs`, `handler/upstream.rs`)

`Server` leaves open how `upstream.resolve` comes by a response: a datagram may
complete a waiting call if one of the configured servers can have sent it, and a
call may give up at any moment. `UpstreamPool` is `resolve` itself, with its sockets
and the network, but knows no handlers. `Resolving` is both: a handler that gets to
`resolve` starts a call of the pool, and goes on with what that call returns. Upstreams
and network may do anything (`UpstreamPool.move`): answer with any bytes, lose, repeat
and reorder datagrams, and bring others from anywhere.

- `refines_open_server`: it is a `Server`, so what holds of every run of the one
  holds of every run of the other;
- `tried_in_order`: a call goes through the servers configured when it began, in
  order, asks each at most once, and a response is that of the first it did not give
  up on.
-/

namespace Denis

open Text

/-- What a call of `resolve` does, by its number. -/
inductive Attempt
  | began (query : Query) (servers : List SocketAddr)
  | asked (server : SocketAddr)
  | gaveUp (server : SocketAddr)
  | answered (server : SocketAddr)
  | failed
  deriving DecidableEq

/-- What a step does to the outside, and what calls do. -/
inductive ResolvingOutput
  | server (output : Output)
  | call (n : Nat) (attempt : Attempt)

/-- The server and its pool; `calls` are the numbers of the calls its waiting
handlers made. -/
structure Resolving where
  server : Server
  pool : UpstreamPool
  calls : List Nat
  next : Nat

/-- What happens next. -/
inductive ResolvingInput
  | server (input : Input)
  | pool (m : UpstreamPool.Move)
  | receive (n : Nat) (clock : Clock)
  | fail (n : Nat) (e : UpstreamError)

/-- An input that says what `resolve` returns. -/
def Input.isResolved : Input → Bool
  | .datagram _ _ _ _ _ => true
  | .unresolved _ => true
  | _ => false

/-- A move of a handler's call other than waiting for its socket and sending. -/
def UpstreamPool.Move.isCall : UpstreamPool.Move → Bool
  | .event (.resolve _ _ _) => true
  | .event (.receive _) => true
  | .event (.fail _ _) => true
  | _ => false

/-- `handle_parsed` goes on with the response of `resolve` (`query.rs:129–157`). -/
def Server.finish (display : RecordType → Str) (s : Server) (req : Request) (clock : Clock)
    (res : UpstreamResponse) : Server × List Output :=
  let (cache, served) := QueryHandler.completeMiss display s.cache s.config req.query clock res
  let (s', out) := deliver { s with cache } req.client req.packet served.raw
    (some (QueryHandler.event req.query req.timestampMs served))
  (s', .received ⟨req.query, res.raw, s.now⟩ :: out)

namespace Resolving

variable (display : RecordType → Str)

/-- The process as started, with the ports of the pool. -/
def start (runtime : Runtime) (acl : Acl) (config : RuntimeConfig)
    (blockList allowList : DomainSet) (ports : List UInt16) : Resolving where
  server := Server.start runtime acl config blockList allowList
  pool := .new ports
  calls := []
  next := 0

/-- A step of the server; a handler that gets to `resolve` starts its call. -/
def begin (s : Resolving) (server : Server) (out : List Output) :
    Option (Resolving × List ResolvingOutput) :=
  match server.waiting[s.calls.length]? with
  | none => some ({ s with server }, out.map .server)
  | some w =>
    match s.pool.resolve s.next w.request.query w.servers with
    | some (pool, []) =>
      some (⟨server, pool, s.calls ++ [s.next], s.next + 1⟩,
        out.map .server ++ [.call s.next (.began w.request.query w.servers)])
    | _ => none

/-- The server a call sends to. -/
def asks (s : Resolving) : UpstreamPool.Move → List ResolvingOutput
  | .event (.send n) => (s.pool.calls n).toList.map fun c => .call n (.asked c.server)
  | _ => []

/-- One step. -/
def step (s : Resolving) : ResolvingInput → Option (Resolving × List ResolvingOutput)
  | .server input =>
    if input.isResolved then none
    else
      match s.server.step display input with
      | some (server, out) => s.begin server out
      | none => none
  | .pool m =>
    if m.isCall then none
    else
      match s.pool.move m with
      | some (pool, _) => some ({ s with pool }, s.asks m)
      | none => none
  | .receive n clock =>
    match s.pool.calls n, s.pool.receive n with
    | some c, some (pool, [.returned _ res]) =>
      let i := s.calls.idxOf n
      match s.server.advance clock, s.server.waiting[i]? with
      | some server, some w =>
        let (server, out) := Server.finish display
          { server with waiting := server.waiting.eraseIdx i } w.request clock res
        some ({ s with server, pool, calls := s.calls.eraseIdx i },
          .call n (.answered c.server) :: out.map .server)
      | _, _ => none
    | some _, some (pool, []) => some ({ s with pool }, [])
    | _, _ => none
  | .fail n e =>
    match s.pool.calls n, s.pool.fail n e with
    | some c, some (pool, []) => some ({ s with pool }, [.call n (.gaveUp c.server)])
    | some c, some (pool, _) =>
      let i := s.calls.idxOf n
      match s.server.waiting[i]? with
      | some w =>
        some ({ s with
          server := { s.server with waiting := s.server.waiting.eraseIdx i }.setConn
            w.request.client .closed
          pool, calls := s.calls.eraseIdx i },
          [.call n (.gaveUp c.server), .call n .failed])
      | none => none
    | _, _ => none

/-- The process as a machine. -/
abbrev machine : Machine Resolving ResolvingInput ResolvingOutput := ⟨step display⟩

end Resolving

/-- What the outside does but for the upstreams. -/
def Input.external (input : Input) : Option Input := if input.isResolved then none else some input

def ResolvingInput.external : ResolvingInput → Option Input
  | .server input => some input
  | _ => none

/-! ## Handlers that get to `resolve` -/

namespace Server

variable {display : RecordType → Str} {s s' : Server} {clock : Clock} {out : List Output}

/-- A step keeps the waiting calls, or one is added that has upstreams to ask. -/
def Awaits (s s' : Server) : Prop :=
  s'.waiting = s.waiting ∨
    ∃ w, s'.waiting = s.waiting ++ [w] ∧ w.servers = s.config.upstreams ∧ w.servers ≠ []

theorem beginHandle_awaits (req : Request) : Awaits s (s.beginHandle display req clock).1 := by
  unfold beginHandle
  split
  · exact .inl rfl
  · split
    · exact .inl rfl
    · next hsome => exact .inr ⟨_, rfl, rfl, hsome⟩

theorem handle_awaits (client : Client) (packet : Bytes) :
    Awaits s (s.handle display client packet clock).1 := by
  cases hparse : Parser.parseUdp (client.listener.buffer packet) with
  | error e =>
    rw [handle_error hparse]
    exact .inl rfl
  | ok query =>
    rw [handle_ok hparse]
    exact beginHandle_awaits _

theorem tcpConn_awaits {client : Client} {packet : Bytes}
    (h : s.tcpConn display client packet clock = some (s', out)) : Awaits s s' := by
  unfold tcpConn at h
  split at h
  · cases h
  · split at h
    · obtain ⟨rfl, rfl⟩ := Prod.mk.inj (Option.some.inj h)
      exact .inl rfl
    · have hawaits := @handle_awaits display s clock client packet
      rw [Option.some.inj h] at hawaits
      exact hawaits

theorem monoUdp_awaits (client : Client) (packet : Bytes) :
    (s.monoUdp display client packet clock).1.waiting = s.waiting := by
  unfold monoUdp
  dsimp only
  split
  · rfl
  · split <;> rfl
  · split <;> rfl

theorem message_awaits {client : Client} {packet : Bytes}
    (h : s.message display client packet clock = some (s', out)) : Awaits s s' := by
  unfold message at h
  split at h
  · cases h
  · split at h
    · have hsame := @monoUdp_awaits display s clock client packet
      rw [Option.some.inj h] at hsame
      exact .inl hsame
    · have hawaits := @handle_awaits display s clock client packet
      rw [Option.some.inj h] at hawaits
      exact hawaits
    · exact tcpConn_awaits h
    · exact tcpConn_awaits h

theorem step_awaits {input : Input} (hinput : input.isResolved = false)
    (h : s.step display input = some (s', out)) : Awaits s s' := by
  cases input with
  | message client packet clock =>
    rw [step] at h
    split at h
    · cases h
    · next m hadvance =>
      obtain ⟨-, rfl⟩ := advance_eq_some hadvance
      have hawaits : Awaits { s with now := clock.now } s' := message_awaits h
      exact hawaits
  | cold i clock =>
    rw [step] at h
    split at h
    · next m req hadvance hreq =>
      obtain ⟨-, rfl⟩ := advance_eq_some hadvance
      have hawaits := @beginHandle_awaits display
        { s with now := clock.now, cold := s.cold.eraseIdx i } clock req
      rw [Option.some.inj h] at hawaits
      exact hawaits
    · cases h
  | datagram i server src bytes clock => cases hinput
  | unresolved i => cases hinput
  | configure config =>
    obtain ⟨rfl, rfl⟩ := Prod.mk.inj (Option.some.inj h)
    exact .inl rfl
  | setBlockList list =>
    obtain ⟨rfl, rfl⟩ := Prod.mk.inj (Option.some.inj h)
    exact .inl rfl
  | setAllowList list =>
    obtain ⟨rfl, rfl⟩ := Prod.mk.inj (Option.some.inj h)
    exact .inl rfl

end Server

/-! ## What becomes of a call -/

/-- The servers a call gave up on, -/
def gaveUp (t : List Attempt) : List SocketAddr :=
  t.filterMap fun
    | .gaveUp server => some server
    | _ => none

/-- and those it sent its query to. -/
def asked (t : List Attempt) : List SocketAddr :=
  t.filterMap fun
    | .asked server => some server
    | _ => none

/-- Asking and giving up is not the end of it. -/
def Unended (t : List Attempt) : Prop :=
  ∀ a ∈ t, ∃ server, a = .asked server ∨ a = .gaveUp server

/-- What a call did, in order. -/
def trace (n : Nat) (h : List ResolvingOutput) : List Attempt :=
  h.filterMap fun
    | .call m attempt => if m = n then some attempt else none
    | .server _ => none

/-- What the server did. -/
def served (h : List ResolvingOutput) : List Output :=
  h.filterMap fun
    | .server output => some output
    | .call _ _ => none

/-- The call goes through `servers`: it gave up on those before its server, and has
asked none but those and perhaps this one, in order. -/
structure Call.Follows (c : Call) (servers : List SocketAddr) (t : List Attempt) : Prop where
  servers : servers = gaveUp t ++ c.server :: c.rest
  sent : match c.phase with
    | .waiting _ => ∃ before, asked t = before ++ [c.server] ∧ before.Sublist (gaveUp t)
    | _ => (asked t).Sublist (gaveUp t)
  unended : Unended t

/-- A call that is through with it: a response of the first server it did not give up
on, which it had asked, or none of any. -/
inductive Ended (servers : List SocketAddr) : List Attempt → Prop
  | answered {t : List Attempt} {server : SocketAddr} {before rest : List SocketAddr} :
      servers = gaveUp t ++ server :: rest → asked t = before ++ [server] →
      before.Sublist (gaveUp t) → Unended t → Ended servers (t ++ [.answered server])
  | failed {t : List Attempt} :
      servers = gaveUp t → (asked t).Sublist servers → Unended t → Ended servers (t ++ [.failed])

section Traces

variable {t : List Attempt} {server : SocketAddr} {h h' : List ResolvingOutput} {n m : Nat}

@[simp] theorem gaveUp_append {t' : List Attempt} : gaveUp (t ++ t') = gaveUp t ++ gaveUp t' :=
  List.filterMap_append ..

@[simp] theorem asked_append {t' : List Attempt} : asked (t ++ t') = asked t ++ asked t' :=
  List.filterMap_append ..

@[simp] theorem trace_append : trace n (h ++ h') = trace n h ++ trace n h' :=
  List.filterMap_append ..

@[simp] theorem served_append : served (h ++ h') = served h ++ served h' :=
  List.filterMap_append ..

@[simp] theorem trace_server (out : List Output) : trace n (out.map .server) = [] := by
  rw [trace, List.filterMap_map]
  exact List.filterMap_eq_nil_iff.mpr fun _ _ => rfl

@[simp] theorem served_server (out : List Output) : served (out.map .server) = out := by
  rw [served, List.filterMap_map]
  exact List.filterMap_some

@[simp] theorem trace_call_self (attempt : Attempt) (h : List ResolvingOutput) :
    trace n (.call n attempt :: h) = attempt :: trace n h :=
  List.filterMap_cons_some (if_pos rfl)

@[simp] theorem served_call (attempt : Attempt) (h : List ResolvingOutput) :
    served (.call n attempt :: h) = served h :=
  List.filterMap_cons_none rfl

theorem trace_call_other (hne : m ≠ n) (attempt : Attempt) :
    trace n (.call m attempt :: h) = trace n h :=
  List.filterMap_cons_none (if_neg hne)

theorem Unended.asked (ht : Unended t) : Unended (t ++ [.asked server]) := by
  intro a ha
  rcases List.mem_append.mp ha with ha | ha
  · exact ht a ha
  · exact ⟨server, .inl (List.mem_singleton.mp ha)⟩

theorem Unended.gaveUp (ht : Unended t) : Unended (t ++ [.gaveUp server]) := by
  intro a ha
  rcases List.mem_append.mp ha with ha | ha
  · exact ht a ha
  · exact ⟨server, .inr (List.mem_singleton.mp ha)⟩

end Traces

namespace Call.Follows

variable {c : Call} {servers : List SocketAddr} {t : List Attempt}

/-- A call has asked no more than the servers it gave up on and this one. -/
theorem asked_sublist (hc : c.Follows servers t) :
    (asked t).Sublist (gaveUp t ++ [c.server]) := by
  have hasked := hc.sent
  split at hasked
  · obtain ⟨before, heq, hbefore⟩ := hasked
    rw [heq]
    exact hbefore.append_right _
  · exact hasked.trans (List.sublist_append_left _ _)

/-- It begins with the first. -/
theorem begin (query : Query) (server : SocketAddr) (rest : List SocketAddr) :
    Call.Follows ⟨query, server, rest, .starting⟩ (server :: rest) [] where
  servers := rfl
  sent := .refl _
  unended := by simp [Unended]

/-- It gets its socket, -/
theorem acquire (hc : c.Follows servers t) (hphase : c.phase = .starting) (port : UInt16) :
    Call.Follows { c with phase := .ready port } servers t where
  servers := hc.servers
  sent := by
    have hasked := hc.sent
    rw [hphase] at hasked
    exact hasked
  unended := hc.unended

/-- sends its query, -/
theorem send {port : UInt16} (hc : c.Follows servers t) (hphase : c.phase = .ready port) :
    Call.Follows { c with phase := .waiting port } servers (t ++ [.asked c.server]) where
  servers := by
    rw [gaveUp_append]
    change servers = gaveUp t ++ [] ++ c.server :: c.rest
    rw [List.append_nil]
    exact hc.servers
  sent := by
    have hasked := hc.sent
    rw [hphase] at hasked
    refine ⟨asked t, ?_, ?_⟩
    · rw [asked_append]
      rfl
    · rw [gaveUp_append]
      exact hasked.trans (List.sublist_append_left _ _)
  unended := hc.unended.asked

/-- and gives up on the server, -/
theorem retry {server : SocketAddr} {rest : List SocketAddr} (hc : c.Follows servers t)
    (hrest : c.rest = server :: rest) :
    Call.Follows ⟨c.query, server, rest, .starting⟩ servers (t ++ [.gaveUp c.server]) where
  servers := by
    rw [gaveUp_append, List.append_assoc, hc.servers, hrest]
    rfl
  sent := by
    rw [asked_append, gaveUp_append]
    exact (List.append_nil _).symm ▸ hc.asked_sublist
  unended := hc.unended.gaveUp

/-- the last one included, -/
theorem fail (hc : c.Follows servers t) (hrest : c.rest = []) :
    Ended servers (t ++ [.gaveUp c.server, .failed]) := by
  have hservers : servers = gaveUp (t ++ [.gaveUp c.server]) := by
    have hservers := hc.servers
    rw [hrest] at hservers
    rw [gaveUp_append]
    exact hservers
  have hended := Ended.failed hservers (t := t ++ [.gaveUp c.server]) ?_ hc.unended.gaveUp
  · rw [List.append_assoc] at hended
    exact hended
  · rw [asked_append, hservers, gaveUp_append]
    exact (List.append_nil (asked t)).symm ▸ hc.asked_sublist

/-- or has its response. -/
theorem answer {port : UInt16} (hc : c.Follows servers t) (hphase : c.phase = .waiting port) :
    Ended servers (t ++ [.answered c.server]) := by
  have hasked := hc.sent
  rw [hphase] at hasked
  obtain ⟨before, heq, hbefore⟩ := hasked
  exact .answered hc.servers heq hbefore hc.unended

end Call.Follows

namespace Resolving

/-- The calls of the pool are those of the waiting handlers, each going through its
servers; the others have ended or not begun. -/
structure Matched (h : List ResolvingOutput) (s : Resolving) : Prop where
  length : s.calls.length = s.server.waiting.length
  nodup : s.calls.Nodup
  fresh : ∀ n, s.next ≤ n → n ∉ s.calls ∧ trace n h = []
  call : ∀ (i n : Nat) (w : Waiting), s.calls[i]? = some n → s.server.waiting[i]? = some w →
    ∃ c t, s.pool.calls n = some c ∧ c.query = w.request.query ∧
      trace n h = .began w.request.query w.servers :: t ∧ c.Follows w.servers t
  idle : ∀ n, n ∉ s.calls → s.pool.calls n = none ∧
    (trace n h = [] ∨
      ∃ query servers t, trace n h = .began query servers :: t ∧ Ended servers t)

section Steps

variable {display : RecordType → Str} {s s' : Resolving} {h out : List ResolvingOutput}

/-- A call under way is a waiting handler's. -/
theorem Matched.waiting {n : Nat} (hs : s.Matched h) (hn : n ∈ s.calls) :
    s.calls[s.calls.idxOf n]? = some n ∧ ∃ w, s.server.waiting[s.calls.idxOf n]? = some w := by
  have hlt := List.idxOf_lt_length_of_mem hn
  refine ⟨List.getElem?_idxOf hn, _, List.getElem?_eq_getElem (hs.length ▸ hlt)⟩

/-- The server takes a step in which no handler gets to `resolve`. -/
theorem Matched.kept {server : Server} {output : List Output} (hs : s.Matched h)
    (hwaiting : server.waiting = s.server.waiting) :
    Matched (h ++ output.map .server) { s with server } where
  length := hwaiting ▸ hs.length
  nodup := hs.nodup
  fresh n hn := by
    rw [trace_append, trace_server, List.append_nil]
    exact hs.fresh n hn
  call i n w hn hw := by
    rw [trace_append, trace_server, List.append_nil]
    exact hs.call i n w hn (hwaiting ▸ hw)
  idle n hn := by
    rw [trace_append, trace_server, List.append_nil]
    exact hs.idle n hn

/-- A handler gets to `resolve`. -/
theorem Matched.begun {server : Server} {output : List Output} {w : Waiting}
    {first : SocketAddr} {rest : List SocketAddr} (hs : s.Matched h)
    (hwaiting : server.waiting = s.server.waiting ++ [w]) (hservers : w.servers = first :: rest) :
    Matched (h ++ (output.map .server ++ [.call s.next (.began w.request.query w.servers)]))
      ⟨server, s.pool.setCall s.next (some ⟨w.request.query, first, rest, .starting⟩),
        s.calls ++ [s.next], s.next + 1⟩ := by
  obtain ⟨hnew, hquiet⟩ := hs.fresh s.next (Nat.le_refl _)
  have hother : ∀ {n}, n ≠ s.next →
      trace n (h ++ (output.map .server ++ [.call s.next (.began w.request.query w.servers)])) =
        trace n h := by
    intro n hne
    rw [trace_append, trace_append, trace_server, trace_call_other (Ne.symm hne)]
    exact List.append_nil _
  refine ⟨?_, ?_, ?_, ?_, ?_⟩
  · rw [hwaiting, List.length_append, List.length_append, hs.length]
    rfl
  · exact List.nodup_append.mpr ⟨hs.nodup, List.nodup_singleton _, by
      rintro n hn _ hm rfl
      exact hnew (List.mem_singleton.mp hm ▸ hn)⟩
  · intro n hn
    have hne : n ≠ s.next := Nat.ne_of_gt hn
    obtain ⟨hnot, htrace⟩ := hs.fresh n (Nat.le_of_lt hn)
    rw [hother hne]
    refine ⟨?_, htrace⟩
    simpa [hne] using hnot
  · -- by its place: a call from before, the new one, or none
    intro i n w' hn hw'
    rw [hwaiting] at hw'
    rcases Nat.lt_trichotomy i s.calls.length with hlt | rfl | hgt
    · rw [List.getElem?_append_left hlt] at hn
      rw [List.getElem?_append_left (hs.length ▸ hlt)] at hw'
      have hne : n ≠ s.next := fun heq => hnew (heq ▸ List.mem_of_getElem? hn)
      rw [UpstreamPool.setCall_other hne, hother hne]
      exact hs.call i n w' hn hw'
    · rw [List.getElem?_concat_length] at hn
      rw [hs.length, List.getElem?_concat_length] at hw'
      obtain rfl := Option.some.inj hn
      obtain rfl := Option.some.inj hw'
      refine ⟨_, [], UpstreamPool.setCall_self _, rfl, ?_, ?_⟩
      · rw [trace_append, trace_append, trace_server, trace_call_self, hquiet]
        rfl
      · rw [hservers]
        exact .begin _ _ _
    · have hout : (s.calls ++ [s.next]).length ≤ i := by
        rw [List.length_append]
        exact hgt
      rw [List.getElem?_eq_none hout] at hn
      cases hn
  · intro n hn
    rw [List.mem_append, not_or, List.mem_singleton] at hn
    rw [UpstreamPool.setCall_other hn.2, hother hn.2]
    exact hs.idle n hn.1

/-- The calls go on, each by itself. -/
theorem Matched.moved {pool : UpstreamPool} (hs : s.Matched h)
    (hfree : ∀ n, s.pool.calls n = none → pool.calls n = none ∧ trace n out = [])
    (hcalls : ∀ n c, s.pool.calls n = some c → ∃ c', pool.calls n = some c' ∧
      c'.query = c.query ∧
        ∀ servers t, c.Follows servers t → c'.Follows servers (t ++ trace n out)) :
    Matched (h ++ out) { s with pool } where
  length := hs.length
  nodup := hs.nodup
  fresh n hn := by
    obtain ⟨hnot, htrace⟩ := hs.fresh n hn
    rw [trace_append, htrace, (hfree n (hs.idle n hnot).1).2]
    exact ⟨hnot, rfl⟩
  call i n w hn hw := by
    obtain ⟨c, t, hc, hquery, htrace, hfollows⟩ := hs.call i n w hn hw
    obtain ⟨c', hc', hquery', hfollows'⟩ := hcalls n c hc
    refine ⟨c', t ++ trace n out, hc', hquery'.trans hquery, ?_, hfollows' _ _ hfollows⟩
    rw [trace_append, htrace]
    rfl
  idle n hn := by
    obtain ⟨hnone, hended⟩ := hs.idle n hn
    obtain ⟨hnone', htrace⟩ := hfree n hnone
    rw [trace_append, htrace, List.append_nil]
    exact ⟨hnone', hended⟩

/-- One call goes on. -/
theorem Matched.movedOne {n : Nat} {c c' : Call} {pool : UpstreamPool} (hs : s.Matched h)
    (hc : s.pool.calls n = some c) (hpool : pool.calls = Function.update s.pool.calls n (some c'))
    (htrace : ∀ m, m ≠ n → trace m out = []) (hquery : c'.query = c.query)
    (hfollows : ∀ servers t, c.Follows servers t → c'.Follows servers (t ++ trace n out)) :
    Matched (h ++ out) { s with pool } := by
  refine hs.moved (fun m hm => ?_) fun m b hb => ?_
  · have hne : m ≠ n := by
      rintro rfl
      cases hm.symm.trans hc
    rw [hpool, Function.update_of_ne hne]
    exact ⟨hm, htrace m hne⟩
  · rw [hpool]
    by_cases hne : m = n
    · subst hne
      obtain rfl := Option.some.inj (hc.symm.trans hb)
      exact ⟨c', Function.update_self .., hquery, hfollows⟩
    · rw [Function.update_of_ne hne, htrace m hne]
      refine ⟨b, hb, rfl, fun servers t ht => ?_⟩
      rw [List.append_nil]
      exact ht

/-- None does. -/
theorem Matched.quiet {pool : UpstreamPool} (hs : s.Matched h)
    (hpool : pool.calls = s.pool.calls) : Matched (h ++ []) { s with pool } := by
  refine hs.moved (fun m hm => ⟨hpool ▸ hm, rfl⟩) fun m b hb => ?_
  refine ⟨b, hpool ▸ hb, rfl, fun servers t ht => ?_⟩
  change b.Follows servers (t ++ [])
  rw [List.append_nil]
  exact ht

/-- A call ends, and its handler goes on. -/
theorem Matched.ended {n : Nat} {c : Call} {pool : UpstreamPool} {server : Server}
    (hs : s.Matched h) (hc : s.pool.calls n = some c)
    (hpool : pool.calls = Function.update s.pool.calls n none)
    (hwaiting : server.waiting = s.server.waiting.eraseIdx (s.calls.idxOf n))
    (htrace : ∀ m, m ≠ n → trace m out = [])
    (hended : ∀ servers t, c.Follows servers t → Ended servers (t ++ trace n out)) :
    Matched (h ++ out) { s with server, pool, calls := s.calls.eraseIdx (s.calls.idxOf n) } := by
  have hmem : n ∈ s.calls := by
    by_contra hnot
    rw [(hs.idle n hnot).1] at hc
    cases hc
  have hgone : n ∉ s.calls.eraseIdx (s.calls.idxOf n) := by
    rw [← List.erase_eq_eraseIdx_of_idxOf rfl]
    exact hs.nodup.not_mem_erase
  have hother : ∀ {m}, m ≠ n → pool.calls m = s.pool.calls m ∧ trace m (h ++ out) = trace m h := by
    intro m hne
    rw [hpool, Function.update_of_ne hne, trace_append, htrace m hne]
    exact ⟨rfl, List.append_nil _⟩
  refine ⟨?_, ?_, ?_, ?_, ?_⟩
  · rw [hwaiting]
    show (s.calls.eraseIdx _).length = (s.server.waiting.eraseIdx _).length
    rw [List.length_eraseIdx, List.length_eraseIdx, hs.length]
  · exact hs.nodup.sublist (List.eraseIdx_sublist ..)
  · intro m hm
    obtain ⟨hnot, hquiet⟩ := hs.fresh m hm
    have hne : m ≠ n := fun heq => hnot (heq ▸ hmem)
    exact ⟨fun hin => hnot (List.mem_of_mem_eraseIdx hin), (hother hne).2.trans hquiet⟩
  · -- the calls after it move up by one place, with their handlers
    intro i m w hm hw
    have hne : m ≠ n := by
      rintro rfl
      exact hgone (List.mem_of_getElem? hm)
    rw [(hother hne).1, (hother hne).2]
    rw [hwaiting] at hw
    rw [List.getElem?_eraseIdx] at hm hw
    split at hm
    · next hlt =>
      rw [if_pos hlt] at hw
      exact hs.call i m w hm hw
    · next hge =>
      rw [if_neg hge] at hw
      exact hs.call (i + 1) m w hm hw
  · -- the call itself is through, the others are as before
    intro m hm
    by_cases hne : m = n
    · subst hne
      obtain ⟨hn, w, hw⟩ := hs.waiting hmem
      obtain ⟨c', t, hc', -, htrace', hfollows⟩ := hs.call _ _ w hn hw
      obtain rfl := Option.some.inj (hc.symm.trans hc')
      refine ⟨by rw [hpool, Function.update_self],
        .inr ⟨w.request.query, w.servers, _, ?_, hended _ _ hfollows⟩⟩
      rw [trace_append, htrace']
      rfl
    · have hnot : m ∉ s.calls := by
        intro hin
        refine hm ?_
        rw [← List.erase_eq_eraseIdx_of_idxOf rfl]
        exact (List.mem_erase_of_ne hne).mpr hin
      rw [(hother hne).1, (hother hne).2]
      exact hs.idle m hnot

theorem served_asks (m : UpstreamPool.Move) : served (s.asks m) = [] := by
  cases m with
  | event e =>
    cases e with
    | send n =>
      rw [asks]
      cases s.pool.calls n <;> rfl
    | _ => rfl
  | _ => rfl

/-- What the network does leaves the calls where they are. -/
theorem Matched.network {m : UpstreamPool.Move} {pool : UpstreamPool} {ended : List Resolution}
    (hs : s.Matched h) (hevent : ∀ e, m ≠ .event e) (hpool : s.pool.move m = some (pool, ended)) :
    Matched (h ++ s.asks m) { s with pool } := by
  cases m with
  | event e => exact absurd rfl (hevent e)
  | respond j bytes =>
    rw [UpstreamPool.move] at hpool
    split at hpool
    · obtain ⟨rfl, -⟩ := Prod.mk.inj (Option.some.inj hpool)
      exact hs.quiet rfl
    · cases hpool
  | stray port src bytes =>
    rw [UpstreamPool.move] at hpool
    split at hpool
    · obtain ⟨rfl, -⟩ := Prod.mk.inj (Option.some.inj hpool)
      exact hs.quiet rfl
    · obtain ⟨rfl, -⟩ := Prod.mk.inj (Option.some.inj hpool)
      exact hs.quiet rfl

/-- The calls get their sockets and send. -/
theorem Matched.event {e : UpstreamPool.Event} {pool : UpstreamPool} {ended : List Resolution}
    (hs : s.Matched h) (he : UpstreamPool.Move.isCall (.event e) = false)
    (hpool : s.pool.step e = some (pool, ended)) :
    Matched (h ++ s.asks (.event e)) { s with pool } := by
  cases UpstreamPool.step_transition hpool with
  | unconfigured | started | retried | failed | skipped | returned => cases he
  | popped hcall hphase hsockets =>
    refine hs.movedOne hcall rfl (fun _ _ => rfl) rfl fun servers t ht => ?_
    exact (List.append_nil t).symm ▸ ht.acquire hphase _
  | bound hcall hphase hsockets hport =>
    refine hs.movedOne hcall rfl (fun _ _ => rfl) rfl fun servers t ht => ?_
    exact (List.append_nil t).symm ▸ ht.acquire hphase _
  | @sent n port c hcall hphase =>
    have hasks : s.asks (.event (.send n)) = [.call n (.asked c.server)] := by
      rw [asks, hcall]
      rfl
    rw [hasks]
    refine hs.movedOne hcall rfl (fun m hne => ?_) rfl fun servers t ht => ?_
    · exact trace_call_other (Ne.symm hne) _
    · rw [trace_call_self]
      exact ht.send hphase
  | answered | duplicated | lost | delivered | unreachable => exact hs.quiet rfl

/-- A step of the server in which no handler gets to `resolve`, -/
theorem Matched.begin_kept {server : Server} {output : List Output} (hs : s.Matched h)
    (hwaiting : server.waiting = s.server.waiting) :
    s.begin server output = some ({ s with server }, output.map .server) := by
  have hnone : server.waiting[s.calls.length]? = none := by
    rw [hwaiting, hs.length]
    exact List.getElem?_eq_none (Nat.le_refl _)
  rw [begin, hnone]

/-- and one in which one does. -/
theorem Matched.begin_begun {server : Server} {output : List Output} {w : Waiting}
    {first : SocketAddr} {rest : List SocketAddr} (hs : s.Matched h)
    (hwaiting : server.waiting = s.server.waiting ++ [w]) (hservers : w.servers = first :: rest) :
    s.begin server output =
      some (⟨server, s.pool.setCall s.next (some ⟨w.request.query, first, rest, .starting⟩),
        s.calls ++ [s.next], s.next + 1⟩,
        output.map .server ++ [.call s.next (.began w.request.query w.servers)]) := by
  have hsome : server.waiting[s.calls.length]? = some w := by
    rw [hwaiting, hs.length, List.getElem?_concat_length]
  have hfree : s.pool.calls s.next = none := (hs.idle _ (hs.fresh _ (Nat.le_refl _)).1).1
  have hresolve : s.pool.resolve s.next w.request.query w.servers =
      some (s.pool.setCall s.next (some ⟨w.request.query, first, rest, .starting⟩), []) := by
    rw [UpstreamPool.resolve, hfree, UpstreamPool.attempts_eq, hservers]
  rw [begin, hsome]
  dsimp only
  rw [hresolve]

/-- The datagram a call returns could have completed its handler. -/
theorem Matched.datagram {n : Nat} {c : Call} {w : Waiting} {server : Server} {clock : Clock}
    {src : SocketAddr} {bytes : Bytes} (hs : s.Matched h) (hc : s.pool.calls n = some c)
    (haccept : exchangeAccepts c.server c.query src bytes = true)
    (hadvance : s.server.advance clock = some server)
    (hw : s.server.waiting[s.calls.idxOf n]? = some w) :
    s.server.step display (.datagram (s.calls.idxOf n) c.server src bytes clock) =
      some (Server.finish display
        { server with waiting := server.waiting.eraseIdx (s.calls.idxOf n) } w.request clock
        (exchangeResponse bytes)) := by
  have hmem : n ∈ s.calls := by
    by_contra hnot
    cases hc.symm.trans (hs.idle n hnot).1
  obtain ⟨c', t, hc', hquery, -, hfollows⟩ := hs.call _ _ w (hs.waiting hmem).1 hw
  obtain rfl := Option.some.inj (hc.symm.trans hc')
  have hserver : c.server ∈ w.servers := by
    rw [hfollows.servers]
    exact List.mem_append_right _ List.mem_cons_self
  obtain ⟨-, rfl⟩ := Server.advance_eq_some hadvance
  rw [Server.step, hadvance, hw]
  dsimp only
  rw [if_pos ⟨hserver, hquery ▸ haccept⟩]
  rfl

/-- The step is one of the server or none, and the calls follow their servers. -/
structure Simulated (display : RecordType → Str) (h : List ResolvingOutput) (e : ResolvingInput)
    (s s' : Resolving) (out : List ResolvingOutput) : Prop where
  matched : s'.Matched (h ++ out)
  server : ∃ es, (Server.machine display).run s.server es = some (s'.server, served out) ∧
    es.filterMap Input.external = e.external.toList

/-- A step of the server alone. -/
theorem run_one {server : Server} {input : Input} {output : List Output}
    (hserver : s.server.step display input = some (server, output)) :
    (Server.machine display).run s.server [input] = some (server, output) :=
  Machine.run_cons_eq_some.mpr ⟨_, _, [], hserver, rfl, (List.append_nil _).symm⟩

theorem Matched.step_server {input : Input} (hs : s.Matched h)
    (hstep : s.step display (.server input) = some (s', out)) :
    Simulated display h (.server input) s s' out := by
  rw [Resolving.step] at hstep
  split at hstep
  · cases hstep
  · next hopen =>
    have hopen : input.isResolved = false := Bool.eq_false_iff.mpr hopen
    split at hstep
    · next server output hserver =>
      have hexternal : [input].filterMap Input.external = [input] := by
        rw [List.filterMap_cons, Input.external, hopen]
        rfl
      rcases Server.step_awaits hopen hserver with hwaiting | ⟨w, hwaiting, -, hsome⟩
      · rw [hs.begin_kept hwaiting] at hstep
        obtain ⟨rfl, rfl⟩ := Prod.mk.inj (Option.some.inj hstep)
        refine ⟨hs.kept hwaiting, [input], ?_, hexternal⟩
        rw [served_server]
        exact run_one hserver
      · obtain ⟨first, rest, hservers⟩ := List.exists_cons_of_ne_nil hsome
        rw [hs.begin_begun hwaiting hservers] at hstep
        obtain ⟨rfl, rfl⟩ := Prod.mk.inj (Option.some.inj hstep)
        refine ⟨hs.begun hwaiting hservers, [input], ?_, hexternal⟩
        rw [served_append, served_server]
        exact (List.append_nil output).symm ▸ run_one hserver
    · cases hstep

theorem Matched.step_pool {m : UpstreamPool.Move} (hs : s.Matched h)
    (hstep : s.step display (.pool m) = some (s', out)) :
    Simulated display h (.pool m) s s' out := by
  rw [Resolving.step] at hstep
  split at hstep
  · cases hstep
  · next hinner =>
    split at hstep
    · next pool ended hpool =>
      obtain ⟨rfl, rfl⟩ := Prod.mk.inj (Option.some.inj hstep)
      refine ⟨?_, [], ?_, rfl⟩
      · cases m with
        | event e => exact hs.event (Bool.eq_false_iff.mpr hinner) hpool
        | respond j bytes => exact hs.network (by simp) hpool
        | stray port src bytes => exact hs.network (by simp) hpool
      · rw [served_asks]
        rfl
    · cases hstep

/-- A call reads its socket: it returns what it accepts, to its handler, and passes over
the rest. -/
theorem Matched.step_receive {n : Nat} {clock : Clock} (hs : s.Matched h)
    (hstep : s.step display (.receive n clock) = some (s', out)) :
    Simulated display h (.receive n clock) s s' out := by
  rw [Resolving.step] at hstep
  split at hstep
  · next c pool query res hc hreceive =>
    dsimp only at hstep
    split at hstep
    · next server w hadvance hw =>
      obtain ⟨rfl, rfl⟩ := Prod.mk.inj (Option.some.inj hstep)
      cases @UpstreamPool.step_transition _ _ _ (.receive n) hreceive with
      | @returned _ port c' src bytes queue hcall hphase hqueue haccept =>
        obtain rfl := Option.some.inj (hc.symm.trans hcall)
        refine ⟨hs.ended hc ?_ ?_ ?_ ?_,
          [.datagram (s.calls.idxOf n) c.server src bytes clock], ?_, rfl⟩
        · exact congrArg (Function.update · n none) (UpstreamPool.push_calls port)
        · obtain ⟨-, rfl⟩ := Server.advance_eq_some hadvance
          rfl
        · intro m hne
          rw [trace_call_other (Ne.symm hne), trace_server]
        · intro servers t ht
          rw [trace_call_self, trace_server]
          exact ht.answer hphase
        · rw [served_call, served_server]
          exact run_one (hs.datagram hc haccept hadvance hw)
    · cases hstep
  · next c pool hc hreceive =>
    obtain ⟨rfl, rfl⟩ := Prod.mk.inj (Option.some.inj hstep)
    refine ⟨hs.quiet ?_, [], rfl, rfl⟩
    cases @UpstreamPool.step_transition _ _ _ (.receive n) hreceive with
    | skipped => rfl
  · cases hstep

/-- A call gives up on its server: it goes on to the next, or its handler ends. -/
theorem Matched.step_fail {n : Nat} {e : UpstreamError} (hs : s.Matched h)
    (hstep : s.step display (.fail n e) = some (s', out)) :
    Simulated display h (.fail n e) s s' out := by
  rw [Resolving.step] at hstep
  split at hstep
  · next c pool hc hfail =>
    obtain ⟨rfl, rfl⟩ := Prod.mk.inj (Option.some.inj hstep)
    cases @UpstreamPool.step_transition _ _ _ (.fail n e) hfail with
    | @retried _ _ c' server rest hcall hrest =>
      obtain rfl := Option.some.inj (hc.symm.trans hcall)
      let again : Call := ⟨c.query, server, rest, .starting⟩
      have hcalls : ((s.pool.drop c.phase).setCall n (some again)).calls =
          Function.update s.pool.calls n (some again) := by
        rw [UpstreamPool.setCall, UpstreamPool.drop_calls]
      refine ⟨hs.movedOne hc hcalls ?_ rfl ?_, [], rfl, rfl⟩
      · exact fun m hne => trace_call_other (Ne.symm hne) _
      · intro servers t ht
        rw [trace_call_self]
        exact ht.retry hrest
  · next c pool output hnot hc hfail =>
    dsimp only at hstep
    split at hstep
    · next w hw =>
      obtain ⟨rfl, rfl⟩ := Prod.mk.inj (Option.some.inj hstep)
      cases @UpstreamPool.step_transition _ _ _ (.fail n e) hfail with
      | retried => exact absurd rfl hnot
      | @failed _ _ c' hcall hrest =>
        obtain rfl := Option.some.inj (hc.symm.trans hcall)
        refine ⟨hs.ended hc ?_ rfl ?_ ?_, [.unresolved (s.calls.idxOf n)], run_one ?_, rfl⟩
        · exact congrArg (Function.update · n none) (UpstreamPool.drop_calls c.phase)
        · intro m hne
          rw [trace_call_other (Ne.symm hne), trace_call_other (Ne.symm hne)]
          rfl
        · intro servers t ht
          rw [trace_call_self, trace_call_self]
          exact ht.fail hrest
        · rw [Server.step, hw]
          rfl
    · cases hstep
  · cases hstep

/-- **A step is one of the server or none**, and the calls follow their servers. -/
theorem Matched.step {e : ResolvingInput} (hs : s.Matched h)
    (hstep : s.step display e = some (s', out)) : Simulated display h e s s' out := by
  cases e with
  | server input => exact hs.step_server hstep
  | pool m => exact hs.step_pool hstep
  | receive n clock => exact hs.step_receive hstep
  | fail n e => exact hs.step_fail hstep

/-- Nothing is under way at the start. -/
theorem matched_start (runtime : Runtime) (acl : Acl) (config : RuntimeConfig)
    (blockList allowList : DomainSet) (ports : List UInt16) :
    Matched [] (start runtime acl config blockList allowList ports) where
  length := rfl
  nodup := .nil
  fresh _ _ := ⟨List.not_mem_nil, rfl⟩
  call _ _ _ hn _ := by cases hn
  idle _ _ := ⟨rfl, .inl rfl⟩

/-- So it is over every run. -/
theorem Matched.run {t : Resolving} {es : List ResolvingInput} (hs : s.Matched h)
    (hrun : (machine display).run s es = some (t, out)) :
    t.Matched (h ++ out) ∧ ∃ es',
      (Server.machine display).run s.server es' = some (t.server, served out) ∧
      es'.filterMap Input.external = es.filterMap ResolvingInput.external := by
  have hstep : ∀ (s : Resolving) h a g e (t : Resolving) out,
      (s.Matched h ∧ a = s.server ∧ g = served h) → s.step display e = some (t, out) →
      ∃ es b out', (Server.machine display).run a es = some (b, out') ∧
        es.filterMap Input.external = e.external.toList ∧
          (t.Matched (h ++ out) ∧ b = t.server ∧ g ++ out' = served (h ++ out)) := by
    rintro s h _ _ e t out ⟨hs, rfl, rfl⟩ hstep
    obtain ⟨hmatched, es, hserver, hexternal⟩ := hs.step hstep
    exact ⟨es, _, _, hserver, hexternal, hmatched, rfl, served_append.symm⟩
  obtain ⟨es', b, out', hserver, hexternal, hmatched, rfl, hserved⟩ :=
    Machine.run_forward hstep ⟨hs, rfl, rfl⟩ hrun
  rw [served_append, List.append_cancel_left_eq] at hserved
  exact ⟨hmatched, es', hserved ▸ hserver, hexternal⟩

end Steps

namespace Sample

open Denis.Sample

/-- A second upstream. -/
def other : SocketAddr := ⟨.v4 #v[1, 1, 1, 1], 53⟩

/-- A server with two upstreams and a pool of one socket. -/
def process : Resolving :=
  start .tokio ⟨[]⟩ (.fromCli [resolver, other] 5000) ∅ ∅ [5000]

/-- The first upstream does not answer in time, and a datagram from nowhere arrives before
the second's answer. -/
def failover : List ResolvingInput :=
  [.server (ask (client .tokioUdp 1) 7 0), .pool (.event (.acquire 0 5000)),
    .pool (.event (.send 0)), .fail 0 .timeout, .pool (.event (.acquire 0 5001)),
    .pool (.event (.send 0)), .pool (.stray 5001 resolver [0, 7]), .receive 0 (clock 1),
    .pool (.respond 1 (answer 7 name)), .pool (.event (.deliver 1)), .receive 0 (clock 1)]

theorem failover_run : ∃ s h, (machine display).run process failover = some (s, h) ∧
    trace 0 h = [.began (query 7) [resolver, other], .asked resolver, .gaveUp resolver,
      .asked other, .answered other] ∧
    served h = [.forward (client .tokioUdp 1) (query 7), .received (receipt 7 1),
      .reply (reply (client .tokioUdp 1) 7 1 false)] := by
  have hlast : ((machine display).run process failover).map
      (fun p => (trace 0 p.2, served p.2)) =
      some ([.began (query 7) [resolver, other], .asked resolver, .gaveUp resolver,
        .asked other, .answered other],
        [.forward (client .tokioUdp 1) (query 7), .received (receipt 7 1),
          .reply (reply (client .tokioUdp 1) 7 1 false)]) := by
    decide +kernel
  obtain ⟨⟨s, h⟩, hrun, hviews⟩ := Option.map_eq_some_iff.mp hlast
  obtain ⟨htrace, hserved⟩ := Prod.mk.inj hviews
  exact ⟨s, h, hrun, htrace, hserved⟩

end Sample

section Runs

variable {display : RecordType → Str} {runtime : Runtime} {acl : Acl} {config : RuntimeConfig}
  {blockList allowList : DomainSet} {ports : List UInt16} {es : List ResolvingInput}
  {s : Resolving} {h : List ResolvingOutput}

/-- **The server over its pool is a server.** Whatever the pool's sockets, the network
and the upstreams do, every run is one of the server with the same messages and
changes in the same order, in which every response of an upstream completes the call
it was accepted for; the pool takes up whatever the server does. -/
theorem refines_open_server
    (hrun : (machine display).run (start runtime acl config blockList allowList ports) es =
      some (s, h)) :
    (∃ es', (Server.machine display).run (Server.start runtime acl config blockList allowList) es' =
        some (s.server, served h) ∧
      es'.filterMap Input.external = es.filterMap ResolvingInput.external) ∧
    ∀ input, input.isResolved = false →
      (s.step display (.server input)).isSome = (s.server.step display input).isSome := by
  obtain ⟨hmatched, hserver⟩ := (matched_start ..).run hrun
  refine ⟨hserver, fun input hopen => ?_⟩
  rw [Resolving.step, hopen]
  cases hstep : s.server.step display input with
  | none => rfl
  | some next =>
    rcases Server.step_awaits hopen hstep with hwaiting | ⟨w, hwaiting, -, hsome⟩
    · exact congrArg Option.isSome (hmatched.begin_kept hwaiting)
    · obtain ⟨first, rest, hservers⟩ := List.exists_cons_of_ne_nil hsome
      exact congrArg Option.isSome (hmatched.begin_begun hwaiting hservers)

/-- The server relays the second upstream's answer. -/
theorem Sample.failed_over : ∃ es' s,
    (Server.machine Sample.display).run
      (Server.start .tokio ⟨[]⟩ (.fromCli [Sample.resolver, Sample.other] 5000) ∅ ∅) es' =
      some (s, [.forward (Sample.client .tokioUdp 1) (Sample.query 7),
        .received (Sample.receipt 7 1),
        .reply (Sample.reply (Sample.client .tokioUdp 1) 7 1 false)]) := by
  obtain ⟨s, h, hrun, -, hserved⟩ := Sample.failover_run
  obtain ⟨⟨es', hserver, -⟩, -⟩ := refines_open_server hrun
  exact ⟨es', s.server, hserved ▸ hserver⟩

/-- **Upstreams are tried in order.** In every run, every call that began goes through
the servers configured then: while it is under way it has given up on some first ones
and asked no others but the next, each at most once and in order; if it returned a
response, that is of the first server it did not give up on, which it had asked; and
if it failed, it had given up on all. -/
theorem tried_in_order
    (hrun : (machine display).run (start runtime acl config blockList allowList ports) es =
      some (s, h)) {n : Nat} (hbegan : trace n h ≠ []) :
    ∃ query servers t, trace n h = .began query servers :: t ∧
      (Ended servers t ∨ ∃ c, s.pool.calls n = some c ∧ c.query = query ∧ c.Follows servers t) := by
  obtain ⟨hmatched, -⟩ := (matched_start ..).run hrun
  rw [List.nil_append] at hmatched
  by_cases hmem : n ∈ s.calls
  · obtain ⟨hn, w, hw⟩ := hmatched.waiting hmem
    obtain ⟨c, t, hc, hquery, htrace, hfollows⟩ := hmatched.call _ _ w hn hw
    exact ⟨w.request.query, w.servers, t, htrace, .inr ⟨c, hc, hquery, hfollows⟩⟩
  · obtain ⟨-, hnothing | ⟨query, servers, t, htrace, hended⟩⟩ := hmatched.idle n hmem
    · exact absurd hnothing hbegan
    · exact ⟨query, servers, t, htrace, .inl hended⟩

/-- The two upstreams of the call that failed over. -/
theorem Sample.tried_both : ∃ s h, (machine Sample.display).run Sample.process Sample.failover =
      some (s, h) ∧ ∃ query servers t, trace 0 h = .began query servers :: t ∧
      (Ended servers t ∨
        ∃ c, s.pool.calls 0 = some c ∧ c.query = query ∧ c.Follows servers t) := by
  obtain ⟨s, h, hrun, htrace, -⟩ := Sample.failover_run
  refine ⟨s, h, hrun, tried_in_order hrun ?_⟩
  rw [htrace]
  exact List.cons_ne_nil _ _

end Runs

end Resolving

end Denis
