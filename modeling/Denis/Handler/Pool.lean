import Denis.Handler.Upstream
import Denis.Lib.Machine

/-!
# The upstream socket pool and the network (`handler/upstream.rs`)

`UpstreamPool` models `resolve`, `query_dns` and `exchange` as a step relation
over the pool of sockets, any number of calls under way and the datagrams in
flight. A socket is the port it is bound to: `queues port` is the receive queue
of the socket bound to `port`, `none` if no socket is. A port whose socket was
dropped may be bound again later.

A step is one suspension point of one call or one event of the network:

- `resolve` loads the upstreams and starts on the first;
- `acquire` is `sockets.pop()`, or a fresh `bind` if the pool is empty;
- `send` is `send_to`, `receive` one turn of the receive loop;
- `fail` is any `?` of the exchange, or its timeout: the socket is dropped and
  the next server tried;
- `answer` is an upstream reading one query and answering it honestly: the
  response carries that query's transaction id and question;
- `duplicate`, `lose` and `deliver` are the network's; it reorders because
  `answer` and `deliver` pick any datagram.

The main result of this module is `exclusive_step`: no socket is ever in two
hands. What travels between the socket's successive owners is not excluded by
it; that is the subject of `Denis.Handler.Matching`.
-/

namespace Denis

open Text

/-- `POOL_SIZE` (`upstream.rs:16`). -/
def poolSize : Nat := 256

/-! ## Messages -/

/-- The transaction id of a message (`upstream.rs:214`). -/
def txid (bytes : Bytes) : UInt8 × UInt8 := (bytes.getD 0 0, bytes.getD 1 0)

/-- The question of a message, as `parse_udp` finds it: the bytes of its name, letter
case aside, and those of its type and class, which end at `answer_offset` or with the
message. Where it finds none, the bytes it may look at. -/
def questionOf (bytes : Bytes) : Bytes × Bytes :=
  match Parser.parseUdp bytes with
  | .ok query =>
    (((bytes.take (query.answerOffset - 4)).drop Parser.header).map toAsciiLowercase,
      (bytes.take query.answerOffset).drop (query.answerOffset - 4))
  | .error _ => (((bytes.drop Parser.header).take 261).map toAsciiLowercase, [])

/-- What an honest upstream sends back for a query. -/
def HonestAnswer (query response : Bytes) : Prop :=
  txid response = txid query ∧ questionOf response = questionOf query

instance (query response : Bytes) : Decidable (HonestAnswer query response) :=
  inferInstanceAs (Decidable (_ ∧ _))

/-- A datagram in flight, between a socket of the pool and an upstream. -/
inductive Datagram
  | query (port : UInt16) (server : SocketAddr) (bytes : Bytes)
  | response (server : SocketAddr) (port : UInt16) (bytes : Bytes)
  deriving DecidableEq

/-! ## Calls and the pool -/

/-- Where a call of `query_dns` is suspended: before it has a socket, before
`send_to`, or in the receive loop. -/
inductive Phase
  | starting
  | ready (port : UInt16)
  | waiting (port : UInt16)
  deriving DecidableEq

/-- The socket a call holds. -/
def Phase.port : Phase → Option UInt16
  | .starting => none
  | .ready port => some port
  | .waiting port => some port

/-- A call of `resolve` under way: the server of this attempt and those of the
attempts left. -/
structure Call where
  query : Query
  server : SocketAddr
  rest : List SocketAddr
  phase : Phase
  deriving DecidableEq

/-- `UpstreamPool` (`upstream.rs:148–151`), its calls and the network. -/
structure UpstreamPool where
  sockets : List UInt16
  queues : UInt16 → Option (List (SocketAddr × Bytes))
  calls : Nat → Option Call
  network : List Datagram

/-- What `resolve` returned for a query. -/
inductive Resolution
  | returned (query : Query) (res : UpstreamResponse)
  | failed (query : Query) (e : UpstreamError)
  deriving DecidableEq

/-- The steps, by call number or by place in `network`. -/
inductive UpstreamPool.Event
  | resolve (i : Nat) (query : Query) (servers : List SocketAddr)
  | acquire (i : Nat) (port : UInt16)
  | send (i : Nat)
  | fail (i : Nat) (e : UpstreamError)
  | receive (i : Nat)
  | answer (j : Nat) (bytes : Bytes)
  | duplicate (j : Nat)
  | lose (j : Nat)
  | deliver (j : Nat)

namespace UpstreamPool

/-- `UpstreamPool::new` (`upstream.rs:154–162`), with the ports that were bound. -/
def new (ports : List UInt16) : UpstreamPool where
  sockets := ports
  queues := fun port => if port ∈ ports then some [] else none
  calls := fun _ => none
  network := []

/-- Replace the call numbered `i`. -/
def setCall (s : UpstreamPool) (i : Nat) (c : Option Call) : UpstreamPool :=
  { s with calls := Function.update s.calls i c }

/-- Replace the receive queue of a port: `none` closes its socket. -/
def setQueue (s : UpstreamPool) (port : UInt16) (queue : Option (List (SocketAddr × Bytes))) :
    UpstreamPool :=
  { s with queues := Function.update s.queues port queue }

/-- The servers of the attempts: `servers[attempt % servers.len()]` for
`attempt in 0..servers.len().max(1)` (`upstream.rs:173–174`). -/
def attempts (servers : List SocketAddr) : List SocketAddr :=
  (List.range (max servers.length 1)).filterMap fun attempt =>
    servers[attempt % servers.length]?

/-- `resolve` up to its first attempt (`upstream.rs:164–174`). -/
def resolve (s : UpstreamPool) (i : Nat) (query : Query) (servers : List SocketAddr) :
    Option (UpstreamPool × List Resolution) :=
  match s.calls i with
  | some _ => none
  | none =>
    match attempts servers with
    | [] => some (s, [.failed query (.upstream "no upstreams configured")])
    | server :: rest => some (s.setCall i (some ⟨query, server, rest, .starting⟩), [])

/-- `sockets.pop()`, else `bind` (`upstream.rs:193–196`). The pool is a queue:
the socket pushed first is popped first. A fresh socket gets a port that no
socket is bound to. -/
def acquire (s : UpstreamPool) (i : Nat) (port : UInt16) :
    Option (UpstreamPool × List Resolution) :=
  match s.calls i with
  | some c =>
    if c.phase ≠ .starting then none
    else
      match s.sockets with
      | p :: rest =>
        if p = port then
          some ({ s with sockets := rest }.setCall i (some { c with phase := .ready port }), [])
        else none
      | [] =>
        match s.queues port with
        | some _ => none
        | none =>
          some ((s.setQueue port (some [])).setCall i (some { c with phase := .ready port }), [])
  | none => none

/-- `socket.send_to(&query.raw, server)` (`upstream.rs:213`). -/
def send (s : UpstreamPool) (i : Nat) : Option (UpstreamPool × List Resolution) :=
  match s.calls i with
  | some c =>
    match c.phase with
    | .ready port =>
      some ({ s with network := s.network ++ [Datagram.query port c.server c.query.raw] }.setCall i
        (some { c with phase := .waiting port }), [])
    | _ => none
  | none => none

/-- A call may fail: `bind` only runs on an empty pool, and only the receive
loop is under the timeout. -/
def mayFail (s : UpstreamPool) (e : UpstreamError) : Phase → Bool
  | .starting => decide (s.sockets = []) && decide (e ≠ .timeout)
  | .ready _ => decide (e ≠ .timeout)
  | .waiting _ => true

/-- Drop the socket of a call. -/
def drop (s : UpstreamPool) (phase : Phase) : UpstreamPool :=
  match phase.port with
  | some port => s.setQueue port none
  | none => s

/-- `query_dns` returns an error (`upstream.rs:178–181`): the socket is not
pushed back, and the next attempt starts or the last error is returned. -/
def fail (s : UpstreamPool) (i : Nat) (e : UpstreamError) :
    Option (UpstreamPool × List Resolution) :=
  match s.calls i with
  | some c =>
    if s.mayFail e c.phase then
      match c.rest with
      | server :: rest =>
        some ((s.drop c.phase).setCall i (some ⟨c.query, server, rest, .starting⟩), [])
      | [] => some ((s.drop c.phase).setCall i none, [.failed c.query e])
    else none
  | none => none

/-- `sockets.push(socket)` (`upstream.rs:201`): a full pool drops the socket. -/
def push (s : UpstreamPool) (port : UInt16) : UpstreamPool :=
  if s.sockets.length < poolSize then { s with sockets := s.sockets ++ [port] }
  else s.setQueue port none

/-- One turn of the receive loop and, if it accepts the datagram, the rest of
`exchange` and `query_dns` (`upstream.rs:217–230` and `200–203`). -/
def receive (s : UpstreamPool) (i : Nat) : Option (UpstreamPool × List Resolution) :=
  match s.calls i with
  | some c =>
    match c.phase with
    | .waiting port =>
      match s.queues port with
      | some ((src, bytes) :: queue) =>
        let s := s.setQueue port (some queue)
        if exchangeAccepts c.server c.query src bytes then
          some ((s.push port).setCall i none, [.returned c.query (exchangeResponse bytes)])
        else some (s, [])
      | _ => none
    | _ => none
  | none => none

/-- The upstream reads the `j`-th datagram and answers it. -/
def answer (s : UpstreamPool) (j : Nat) (bytes : Bytes) : Option (UpstreamPool × List Resolution) :=
  match s.network[j]? with
  | some (.query port server query) =>
    if HonestAnswer query bytes then
      some ({ s with network := s.network.eraseIdx j ++ [Datagram.response server port bytes] }, [])
    else none
  | _ => none

/-- The network delivers the `j`-th datagram twice. -/
def duplicate (s : UpstreamPool) (j : Nat) : Option (UpstreamPool × List Resolution) :=
  match s.network[j]? with
  | some datagram => some ({ s with network := s.network ++ [datagram] }, [])
  | none => none

/-- The network loses the `j`-th datagram. -/
def lose (s : UpstreamPool) (j : Nat) : Option (UpstreamPool × List Resolution) :=
  some ({ s with network := s.network.eraseIdx j }, [])

/-- A response reaches the port it was sent to, whichever socket is bound there
by now. -/
def deliver (s : UpstreamPool) (j : Nat) : Option (UpstreamPool × List Resolution) :=
  match s.network[j]? with
  | some (.response server port bytes) =>
    let s := { s with network := s.network.eraseIdx j }
    match s.queues port with
    | some queue => some (s.setQueue port (some (queue ++ [(server, bytes)])), [])
    | none => some (s, [])
  | _ => none

/-- One step of the pool or of the network. -/
def step (s : UpstreamPool) : Event → Option (UpstreamPool × List Resolution)
  | .resolve i query servers => s.resolve i query servers
  | .acquire i port => s.acquire i port
  | .send i => s.send i
  | .fail i e => s.fail i e
  | .receive i => s.receive i
  | .answer j bytes => s.answer j bytes
  | .duplicate j => s.duplicate j
  | .lose j => s.lose j
  | .deliver j => s.deliver j

/-- The pool and the network as a machine. -/
abbrev machine : Machine UpstreamPool Event Resolution := ⟨step⟩

/-- Every server is tried once, in order. -/
theorem attempts_eq (servers : List SocketAddr) : attempts servers = servers := by
  cases servers with
  | nil => rfl
  | cons server rest =>
    have hget : ∀ i (hi : i < (server :: rest).length),
        (server :: rest).getD i server = (server :: rest)[i] := by
      intro i hi
      rw [List.getD_eq_getElem?_getD, List.getElem?_eq_getElem hi, Option.getD_some]
    have hlookup : ∀ i ∈ List.range (server :: rest).length,
        (server :: rest)[i % (server :: rest).length]? =
          (some ∘ fun i => (server :: rest).getD i server) i := by
      intro i hi
      have hlt := List.mem_range.mp hi
      rw [Nat.mod_eq_of_lt hlt, List.getElem?_eq_getElem hlt, Function.comp_apply, hget i hlt]
    rw [attempts, Nat.max_eq_left (by simp), List.filterMap_congr hlookup, List.filterMap_eq_map]
    refine List.ext_getElem (by simp) fun i _ hi => ?_
    rw [List.getElem_map, List.getElem_range, hget i hi]

/-! ## What a step can do -/

/-- Everything a step can do. -/
inductive Transition (s : UpstreamPool) : Event → UpstreamPool → List Resolution → Prop
  | unconfigured {i : Nat} {query : Query} {servers : List SocketAddr} {e : UpstreamError} :
      Transition s (.resolve i query servers) s [.failed query e]
  | started {i : Nat} {query : Query} {servers rest : List SocketAddr} {server : SocketAddr} :
      s.calls i = none → servers = server :: rest →
      Transition s (.resolve i query servers)
        (s.setCall i (some ⟨query, server, rest, .starting⟩)) []
  | popped {i : Nat} {port : UInt16} {c : Call} {rest : List UInt16} :
      s.calls i = some c → c.phase = .starting → s.sockets = port :: rest →
      Transition s (.acquire i port)
        ({ s with sockets := rest }.setCall i (some { c with phase := .ready port })) []
  | bound {i : Nat} {port : UInt16} {c : Call} :
      s.calls i = some c → c.phase = .starting → s.sockets = [] → s.queues port = none →
      Transition s (.acquire i port)
        ((s.setQueue port (some [])).setCall i (some { c with phase := .ready port })) []
  | sent {i : Nat} {port : UInt16} {c : Call} :
      s.calls i = some c → c.phase = .ready port →
      Transition s (.send i)
        ({ s with network := s.network ++ [Datagram.query port c.server c.query.raw] }.setCall i
          (some { c with phase := .waiting port })) []
  | retried {i : Nat} {e : UpstreamError} {c : Call} {server : SocketAddr}
      {rest : List SocketAddr} :
      s.calls i = some c → c.rest = server :: rest →
      Transition s (.fail i e)
        ((s.drop c.phase).setCall i (some ⟨c.query, server, rest, .starting⟩)) []
  | failed {i : Nat} {e : UpstreamError} {c : Call} :
      s.calls i = some c → c.rest = [] →
      Transition s (.fail i e) ((s.drop c.phase).setCall i none) [.failed c.query e]
  | skipped {i : Nat} {port : UInt16} {src : SocketAddr} {bytes : Bytes}
      {queue : List (SocketAddr × Bytes)} :
      s.queues port = some ((src, bytes) :: queue) →
      Transition s (.receive i) (s.setQueue port (some queue)) []
  | returned {i : Nat} {port : UInt16} {c : Call} {src : SocketAddr} {bytes : Bytes}
      {queue : List (SocketAddr × Bytes)} :
      s.calls i = some c → c.phase = .waiting port →
      s.queues port = some ((src, bytes) :: queue) →
      exchangeAccepts c.server c.query src bytes = true →
      Transition s (.receive i)
        (((s.setQueue port (some queue)).push port).setCall i none)
        [.returned c.query (exchangeResponse bytes)]
  | answered {j : Nat} {port : UInt16} {server : SocketAddr} {query bytes : Bytes} :
      .query port server query ∈ s.network → HonestAnswer query bytes →
      Transition s (.answer j bytes)
        { s with network := s.network.eraseIdx j ++ [Datagram.response server port bytes] } []
  | duplicated {j : Nat} {datagram : Datagram} :
      datagram ∈ s.network →
      Transition s (.duplicate j) { s with network := s.network ++ [datagram] } []
  | lost {j : Nat} :
      Transition s (.lose j) { s with network := s.network.eraseIdx j } []
  | delivered {j : Nat} {port : UInt16} {server : SocketAddr} {bytes : Bytes}
      {queue : List (SocketAddr × Bytes)} :
      .response server port bytes ∈ s.network → s.queues port = some queue →
      Transition s (.deliver j)
        ({ s with network := s.network.eraseIdx j }.setQueue port
          (some (queue ++ [(server, bytes)]))) []
  | unreachable {j : Nat} :
      Transition s (.deliver j) { s with network := s.network.eraseIdx j } []

section Inversion

variable {s s' : UpstreamPool} {i j : Nat} {out : List Resolution}

theorem resolve_transition {query : Query} {servers : List SocketAddr}
    (h : s.resolve i query servers = some (s', out)) :
    Transition s (.resolve i query servers) s' out := by
  unfold resolve at h
  rw [attempts_eq] at h
  split at h
  · cases h
  · next hfree =>
    split at h
    · cases h
      exact .unconfigured
    · cases h
      exact .started hfree rfl

theorem acquire_transition {port : UInt16} (h : s.acquire i port = some (s', out)) :
    Transition s (.acquire i port) s' out := by
  unfold acquire at h
  split at h
  · next c hcall =>
    split at h
    · cases h
    · next hphase =>
      split at h
      · next p rest hsockets =>
        split at h
        · next heq =>
          cases h
          exact .popped hcall (not_not.mp hphase) (heq ▸ hsockets)
        · cases h
      · next hsockets =>
        split at h
        · cases h
        · next hport =>
          cases h
          exact .bound hcall (not_not.mp hphase) hsockets hport
  · cases h

theorem send_transition (h : s.send i = some (s', out)) : Transition s (.send i) s' out := by
  unfold send at h
  split at h
  · next c hcall =>
    split at h
    · next port hphase =>
      cases h
      exact .sent hcall hphase
    · cases h
  · cases h

theorem fail_transition {e : UpstreamError} (h : s.fail i e = some (s', out)) :
    Transition s (.fail i e) s' out := by
  unfold fail at h
  split at h
  · next c hcall =>
    split at h
    · split at h
      · next server rest hrest =>
        cases h
        exact .retried hcall hrest
      · next hrest =>
        cases h
        exact .failed hcall hrest
    · cases h
  · cases h

theorem receive_transition (h : s.receive i = some (s', out)) :
    Transition s (.receive i) s' out := by
  unfold receive at h
  split at h
  · next c hcall =>
    split at h
    · next port hphase =>
      split at h
      · next src bytes queue hqueue =>
        dsimp only at h
        split at h
        · next haccept =>
          cases h
          exact .returned hcall hphase hqueue haccept
        · cases h
          exact .skipped hqueue
      · cases h
    · cases h
  · cases h

theorem answer_transition {bytes : Bytes} (h : s.answer j bytes = some (s', out)) :
    Transition s (.answer j bytes) s' out := by
  unfold answer at h
  split at h
  · next hquery =>
    split at h
    · next hhonest =>
      cases h
      exact .answered (List.mem_of_getElem? hquery) hhonest
    · cases h
  · cases h

theorem duplicate_transition (h : s.duplicate j = some (s', out)) :
    Transition s (.duplicate j) s' out := by
  unfold duplicate at h
  split at h
  · next hdatagram =>
    cases h
    exact .duplicated (List.mem_of_getElem? hdatagram)
  · cases h

theorem deliver_transition (h : s.deliver j = some (s', out)) :
    Transition s (.deliver j) s' out := by
  unfold deliver at h
  split at h
  · next hresponse =>
    dsimp only at h
    split at h
    · next hqueue =>
      cases h
      exact .delivered (List.mem_of_getElem? hresponse) hqueue
    · cases h
      exact .unreachable
  · cases h

/-- **Inversion**: a step is one of the transitions. -/
theorem step_transition {e : Event} (h : s.step e = some (s', out)) : Transition s e s' out := by
  cases e with
  | resolve i query servers => exact resolve_transition h
  | acquire i port => exact acquire_transition h
  | send i => exact send_transition h
  | fail i e => exact fail_transition h
  | receive i => exact receive_transition h
  | answer j bytes => exact answer_transition h
  | duplicate j => exact duplicate_transition h
  | lose j =>
    cases h
    exact .lost
  | deliver j => exact deliver_transition h

end Inversion

/-! ## Whose socket it is -/

/-- Call `i` holds the socket bound to `port`. -/
def Holds (s : UpstreamPool) (i : Nat) (port : UInt16) : Prop :=
  ∃ c, s.calls i = some c ∧ c.phase.port = some port

/-- Each open socket is in the pool once or held by one call; nothing else is
in the pool or held. -/
structure Exclusive (s : UpstreamPool) : Prop where
  nodup : s.sockets.Nodup
  pooled : ∀ {port}, port ∈ s.sockets → s.queues port ≠ none
  held : ∀ {i port}, s.Holds i port → s.queues port ≠ none
  apart : ∀ {i port}, s.Holds i port → port ∉ s.sockets
  one : ∀ {i j port}, s.Holds i port → s.Holds j port → i = j

variable {s s' : UpstreamPool} {i j : Nat} {port p : UInt16} {c : Call}

@[simp] theorem setCall_sockets (c : Option Call) : (s.setCall i c).sockets = s.sockets := rfl

@[simp] theorem setCall_queues (c : Option Call) : (s.setCall i c).queues = s.queues := rfl

@[simp] theorem setCall_network (c : Option Call) : (s.setCall i c).network = s.network := rfl

@[simp] theorem setQueue_sockets (queue : Option (List (SocketAddr × Bytes))) :
    (s.setQueue port queue).sockets = s.sockets := rfl

@[simp] theorem setQueue_calls (queue : Option (List (SocketAddr × Bytes))) :
    (s.setQueue port queue).calls = s.calls := rfl

@[simp] theorem setQueue_network (queue : Option (List (SocketAddr × Bytes))) :
    (s.setQueue port queue).network = s.network := rfl

@[simp] theorem setQueue_self (queue : Option (List (SocketAddr × Bytes))) :
    (s.setQueue port queue).queues port = queue :=
  Function.update_self ..

theorem setQueue_other {queue : Option (List (SocketAddr × Bytes))} (h : p ≠ port) :
    (s.setQueue port queue).queues p = s.queues p :=
  Function.update_of_ne h ..

theorem setCall_self (c : Option Call) : (s.setCall i c).calls i = c :=
  Function.update_self ..

theorem setCall_other {c : Option Call} (h : j ≠ i) : (s.setCall i c).calls j = s.calls j :=
  Function.update_of_ne h ..

@[simp] theorem drop_calls (phase : Phase) : (s.drop phase).calls = s.calls := by
  unfold UpstreamPool.drop
  split <;> rfl

@[simp] theorem drop_sockets (phase : Phase) : (s.drop phase).sockets = s.sockets := by
  unfold UpstreamPool.drop
  split <;> rfl

@[simp] theorem push_calls (p : UInt16) : (s.push p).calls = s.calls := by
  unfold push
  split <;> rfl

theorem mem_push (h : p ∈ (s.push port).sockets) : p ∈ s.sockets ∨ p = port := by
  unfold push at h
  split at h
  · exact (List.mem_append.mp h).imp_right List.mem_singleton.mp
  · exact .inl h

/-- A full pool takes no socket back. -/
theorem push_length (h : s.sockets.length ≤ poolSize) :
    (s.push port).sockets.length ≤ poolSize := by
  unfold push
  split
  · next hroom =>
    rw [List.length_append]
    exact hroom
  · exact h

/-- A call of the new state is the one just set or one of before. -/
theorem setCall_eq_some {c' : Option Call} (h : (s.setCall i c').calls j = some c) :
    (j = i ∧ c' = some c) ∨ (j ≠ i ∧ s.calls j = some c) := by
  by_cases hj : j = i
  · subst hj
    exact .inl ⟨rfl, (setCall_self c').symm.trans h⟩
  · exact .inr ⟨hj, (setCall_other hj).symm.trans h⟩

/-- Sockets held once call `i` has none. -/
theorem holds_without {c' : Option Call} (hnone : ∀ c, c' = some c → c.phase.port = none)
    (h : (s.setCall i c').Holds j p) : j ≠ i ∧ s.Holds j p := by
  obtain ⟨c, hcall, hport⟩ := h
  rcases setCall_eq_some hcall with ⟨-, hc⟩ | ⟨hj, hc⟩
  · rw [hnone c hc] at hport
    cases hport
  · exact ⟨hj, c, hc, hport⟩

/-- Sockets held once call `i` has the one of `port`. -/
theorem holds_with (hport : c.phase.port = some port) (h : (s.setCall i (some c)).Holds j p) :
    (j = i ∧ p = port) ∨ (j ≠ i ∧ s.Holds j p) := by
  obtain ⟨c', hcall, hport'⟩ := h
  rcases setCall_eq_some hcall with ⟨hj, hc⟩ | ⟨hj, hc⟩
  · obtain rfl := Option.some.inj hc
    exact .inl ⟨hj, Option.some.inj (hport'.symm.trans hport)⟩
  · exact .inr ⟨hj, c', hc, hport'⟩

/-- Moves that open, close and hand over no socket. -/
theorem Exclusive.mono (hs : Exclusive s) (hsockets : s'.sockets = s.sockets)
    (hqueues : ∀ {p}, s.queues p ≠ none → s'.queues p ≠ none)
    (hholds : ∀ {j p}, s'.Holds j p → s.Holds j p) : Exclusive s' where
  nodup := hsockets ▸ hs.nodup
  pooled := fun h => hqueues (hs.pooled (hsockets ▸ h))
  held := fun h => hqueues (hs.held (hholds h))
  apart := fun h => hsockets ▸ hs.apart (hholds h)
  one := fun h h' => hs.one (hholds h) (hholds h')

/-- Call `i` takes the socket of `port`, which no call holds. -/
theorem Exclusive.take (hs : Exclusive s) (hfree : ∀ j, ¬ s.Holds j port)
    (hnodup : s'.sockets.Nodup) (hsub : ∀ p ∈ s'.sockets, p ∈ s.sockets ∧ p ≠ port)
    (hopen : s'.queues port ≠ none) (hqueues : ∀ {p}, s.queues p ≠ none → s'.queues p ≠ none)
    (hholds : ∀ {j p}, s'.Holds j p → (j = i ∧ p = port) ∨ (j ≠ i ∧ s.Holds j p)) :
    Exclusive s' where
  nodup := hnodup
  pooled := fun h => hqueues (hs.pooled (hsub _ h).1)
  held := fun h => by
    rcases hholds h with ⟨-, rfl⟩ | ⟨-, h⟩
    · exact hopen
    · exact hqueues (hs.held h)
  apart := fun h hmem => by
    rcases hholds h with ⟨-, rfl⟩ | ⟨-, h⟩
    · exact (hsub _ hmem).2 rfl
    · exact hs.apart h (hsub _ hmem).1
  one := fun h h' => by
    rcases hholds h with ⟨rfl, rfl⟩ | ⟨-, h⟩
    · rcases hholds h' with ⟨rfl, -⟩ | ⟨-, h'⟩
      · rfl
      · exact absurd h' (hfree _)
    · rcases hholds h' with ⟨-, rfl⟩ | ⟨-, h'⟩
      · exact absurd h (hfree _)
      · exact hs.one h h'

/-- Call `i` closes its socket. -/
theorem Exclusive.close (hs : Exclusive s) (hi : s.Holds i port)
    {c' : Option Call} (hnone : ∀ c, c' = some c → c.phase.port = none) :
    Exclusive ((s.setQueue port none).setCall i c') := by
  have hopen : ∀ {p}, p ≠ port → s.queues p ≠ none →
      ((s.setQueue port none).setCall i c').queues p ≠ none := by
    intro p hne hp
    rwa [setCall_queues, setQueue_other hne]
  have hkeep : ∀ {j p}, ((s.setQueue port none).setCall i c').Holds j p →
      p ≠ port ∧ s.Holds j p := by
    intro j p h
    obtain ⟨hj, h⟩ := holds_without hnone h
    refine ⟨?_, h⟩
    rintro rfl
    exact hj (hs.one h hi)
  exact {
    nodup := hs.nodup
    pooled := fun h => hopen (fun heq => hs.apart hi (heq ▸ h)) (hs.pooled h)
    held := fun h => hopen (hkeep h).1 (hs.held (hkeep h).2)
    apart := fun h => hs.apart (hkeep h).2
    one := fun h h' => hs.one (hkeep h).2 (hkeep h').2 }

/-- Call `i` pushes its socket back and ends. -/
theorem Exclusive.giveBack (hs : Exclusive s) (hi : s.Holds i port) :
    Exclusive ((s.push port).setCall i none) := by
  unfold push
  split
  · have hkeep : ∀ {j p}, ({ s with sockets := s.sockets ++ [port] }.setCall i none).Holds j p →
        p ≠ port ∧ s.Holds j p := by
      intro j p h
      obtain ⟨hj, c, hc, hport⟩ := holds_without (by simp) h
      refine ⟨?_, c, hc, hport⟩
      rintro rfl
      exact hj (hs.one ⟨c, hc, hport⟩ hi)
    refine ⟨?_, ?_, fun h => hs.held (hkeep h).2, ?_, fun h h' => hs.one (hkeep h).2 (hkeep h').2⟩
    · refine List.nodup_append.mpr ⟨hs.nodup, by simp, ?_⟩
      intro p hp q hq
      obtain rfl := List.mem_singleton.mp hq
      rintro rfl
      exact hs.apart hi hp
    · intro p h
      rcases List.mem_append.mp h with h | h
      · exact hs.pooled h
      · obtain rfl := List.mem_singleton.mp h
        exact hs.held hi
    · intro j p h hmem
      rcases List.mem_append.mp hmem with hmem | hmem
      · exact hs.apart (hkeep h).2 hmem
      · exact (hkeep h).1 (List.mem_singleton.mp hmem)
  · exact hs.close hi (by simp)

/-- Reading a receive queue keeps every socket where it is. -/
theorem Exclusive.setQueue (hs : Exclusive s) (queue : List (SocketAddr × Bytes)) :
    Exclusive (s.setQueue port (some queue)) := by
  refine hs.mono rfl (fun {p} hp => ?_) id
  by_cases h : p = port
  · subst h
    simp
  · rwa [setQueue_other h]

/-- A call drops its socket, if it has one, and goes on without. -/
theorem Exclusive.drop (hs : Exclusive s) (hcall : s.calls i = some c)
    {c' : Option Call} (hnone : ∀ c, c' = some c → c.phase.port = none) :
    Exclusive ((s.drop c.phase).setCall i c') := by
  unfold UpstreamPool.drop
  split
  · next port hport => exact hs.close ⟨c, hcall, hport⟩ hnone
  · exact hs.mono rfl id fun h => (holds_without hnone h).2

theorem exclusive_new {ports : List UInt16} (h : ports.Nodup) : Exclusive (new ports) where
  nodup := h
  pooled := fun {port} hport => by
    show (if port ∈ ports then some [] else none) ≠ none
    rw [if_pos (show port ∈ ports from hport)]
    exact Option.some_ne_none _
  held := by
    rintro i port ⟨c, hcall, -⟩
    cases hcall
  apart := by
    rintro i port ⟨c, hcall, -⟩
    cases hcall
  one := by
    rintro i j port ⟨c, hcall, -⟩
    cases hcall

/-- **Step lemma**: no socket is ever in two hands. -/
theorem exclusive_step {e : Event} {out : List Resolution} (hs : Exclusive s)
    (h : s.step e = some (s', out)) : Exclusive s' := by
  cases step_transition h with
  | unconfigured => exact hs
  | started => exact hs.mono rfl id fun h => (holds_without (by rintro c ⟨⟩; rfl) h).2
  | @popped i port c rest hcall hphase hsockets =>
    have hnodup := hs.nodup
    rw [hsockets, List.nodup_cons] at hnodup
    have hmem : port ∈ s.sockets := hsockets ▸ List.mem_cons_self ..
    refine hs.take (fun j h => hs.apart h hmem) hnodup.2 (fun p hp => ⟨?_, ?_⟩) (hs.pooled hmem) id
      fun h => holds_with rfl h
    · exact hsockets ▸ List.mem_cons_of_mem _ hp
    · rintro rfl
      exact hnodup.1 hp
  | @bound i port c hcall hphase hsockets hport =>
    have hfree : ∀ j, ¬ s.Holds j port := fun j h => hs.held h hport
    refine hs.take hfree (by simp [hsockets]) (by simp [hsockets]) (by simp) (fun {p} hp => ?_)
      fun h => holds_with rfl h
    rw [setCall_queues, setQueue_other]
    · exact hp
    · rintro rfl
      exact hp hport
  | @sent i port c hcall hphase =>
    refine hs.mono rfl id ?_
    intro j p h
    rcases holds_with rfl h with ⟨rfl, rfl⟩ | ⟨-, h⟩
    · exact ⟨c, hcall, by rw [hphase]; rfl⟩
    · exact h
  | retried hcall => exact hs.drop hcall (by rintro c ⟨⟩; rfl)
  | failed hcall => exact hs.drop hcall (by simp)
  | skipped => exact hs.setQueue _
  | returned hcall hphase =>
    exact (hs.setQueue _).giveBack ⟨_, hcall, by rw [hphase]; rfl⟩
  | answered => exact hs.mono rfl id id
  | duplicated => exact hs.mono rfl id id
  | lost => exact hs.mono rfl id id
  | @delivered j =>
    have herase : Exclusive { s with network := s.network.eraseIdx j } := hs.mono rfl id id
    exact herase.setQueue _
  | unreachable => exact hs.mono rfl id id

end UpstreamPool

end Denis
