import Denis.Handler.Accepted
import Denis.Handler.Pool
import Denis.Handler.Query

/-!
# Upstream replies and the queries they answer

`exchange` takes a datagram as the answer to its query if it comes from the
server asked and starts with the query's transaction id. Every honest answer
passes that test, and so does an answer to an earlier query that used the same
socket, the same server and the same id: ids are the clients' own, sockets are
pushed back after the first answer, and nothing empties a socket before it is
used again.

`Reaches port server bytes` says that a message with these bytes is on its way
to the socket of `port` from `server`, or would be once the server answers.
Every step keeps what reaches a socket, but for the one query that a `send`
adds (`reaches_step`). So a call is safe for its whole wait if it is safe when
it sends (`Undisturbed`): nothing that reaches its socket from its server has
its id and another question. The main result is `returned_own_question`: runs
whose sends are all undisturbed return to each query, and store under its key,
only responses to its own question. `stray_answer_taken` is a run that is not.
-/

namespace Denis

open Text

/-- A query is served with, and has stored under its key, responses to its own
question only. -/
structure OwnQuestion (display : RecordType → Str) (query : Query) (res : UpstreamResponse) :
    Prop where
  response : questionOf res.raw = questionOf query.raw
  served : ∀ cache config clock,
    questionOf (QueryHandler.completeMiss display cache config query clock res).2.raw =
      questionOf query.raw
  stored : ∀ cache config clock k x,
    (QueryHandler.completeMiss display cache config query clock res).1.l1 k = some x →
      cache.l1 k = some x ∨
        (k = Cache.queryKey display query ∧ questionOf x.value.raw = questionOf query.raw)

/-- What `handle_parsed` serves and stores of a response is the response. -/
theorem OwnQuestion.of_response {display : RecordType → Str} {query : Query}
    {res : UpstreamResponse} (h : questionOf res.raw = questionOf query.raw) :
    OwnQuestion display query res where
  response := h
  served := fun _ _ _ => h
  stored := by
    intro cache config clock k x hx
    rcases QueryHandler.store_l1 hx with ⟨ttl, -, hk, rfl⟩ | hold
    · exact .inr ⟨hk, h⟩
    · exact .inl hold

/-- An accepted packet has its question in the first 273 bytes. -/
theorem answerOffset_le {bytes : Bytes} {query : Query}
    (h : Parser.parseUdp bytes = .ok query) : query.answerOffset ≤ 273 := by
  obtain ⟨ls, zeroLed, hi, lo, rest, -, hfits, rfl⟩ := Parser.parseUdp_eq_ok_iff.mp h
  show Parser.header + (DomainName.wire ls).length + (if zeroLed then 1 else 0) + 5 ≤ 273
  unfold Parser.header
  split <;> omega

/-- What is accepted is so from the receive buffer on. -/
theorem parseUdp_take {bytes : Bytes} {query : Query} (h : Parser.parseUdp bytes = .ok query) :
    Parser.parseUdp (bytes.take upstreamRecvBuf) =
      .ok { query with raw := bytes.take upstreamRecvBuf } := by
  have hle := answerOffset_le h
  refine Parser.parseUdp_of_prefix h (List.IsPrefix.drop ?_ Parser.header)
  exact List.take_prefix_take_left (by unfold upstreamRecvBuf; omega)

/-- The receive buffer is long enough for the question. -/
theorem questionOf_take (bytes : Bytes) :
    questionOf (bytes.take upstreamRecvBuf) = questionOf bytes := by
  unfold questionOf
  cases hparse : Parser.parseUdp bytes with
  | ok query =>
    have hle := answerOffset_le hparse
    rw [parseUdp_take hparse]
    dsimp only
    rw [List.take_take, List.take_take, Nat.min_eq_left (by unfold upstreamRecvBuf; omega),
      Nat.min_eq_left (by unfold upstreamRecvBuf; omega)]
  | error e =>
    cases htake : Parser.parseUdp (bytes.take upstreamRecvBuf) with
    | ok query =>
      -- a packet that goes on like an accepted one would be accepted
      have hlike := ((List.take_prefix (query.answerOffset - 2) (bytes.take upstreamRecvBuf)).trans
        (List.take_prefix _ bytes)).drop Parser.header
      cases hparse.symm.trans (Parser.parseUdp_of_prefix htake hlike)
    | error e' =>
      dsimp only
      rw [List.drop_take, List.take_take, Nat.min_eq_left (by decide)]

/-- What the receive loop accepts has the server and the id of its query. -/
theorem exchangeAccepts_iff {server src : SocketAddr} {query : Query} {bytes : Bytes}
    (h : exchangeAccepts server query src bytes = true) :
    src = server ∧ txid bytes = txid query.raw := by
  simp only [exchangeAccepts, Bool.and_eq_true, decide_eq_true_eq, beq_iff_eq] at h
  obtain ⟨⟨⟨hsrc, -⟩, h0⟩, h1⟩ := h
  refine ⟨hsrc, ?_⟩
  match bytes with
  | [] => exact Prod.ext h0 h1
  | [_] => exact Prod.ext h0 h1
  | _ :: _ :: _ => exact Prod.ext h0 h1

namespace UpstreamPool

variable {s s' : UpstreamPool} {e : Event} {out : List Resolution} {port : UInt16}
  {server : SocketAddr} {bytes : Bytes}

/-! ## What is on its way to a socket -/

/-- A message with these bytes is in the receive queue of `port` from `server`,
on its way there, or is a query on its way to `server` from there. -/
inductive Reaches (s : UpstreamPool) (port : UInt16) (server : SocketAddr) (bytes : Bytes) : Prop
  | query : .query port server bytes ∈ s.network → Reaches s port server bytes
  | response : .response server port bytes ∈ s.network → Reaches s port server bytes
  | queued {queue : List (SocketAddr × Bytes)} :
      s.queues port = some queue → (server, bytes) ∈ queue → Reaches s port server bytes

/-- The messages that reach a socket, listed. -/
def messagesFor (s : UpstreamPool) (port : UInt16) (server : SocketAddr) : List Bytes :=
  s.network.filterMap (fun
    | .query p v b => if p = port ∧ v = server then some b else none
    | .response v p b => if p = port ∧ v = server then some b else none) ++
  ((s.queues port).getD []).filterMap fun x => if x.1 = server then some x.2 else none

theorem mem_messagesFor : bytes ∈ s.messagesFor port server ↔ s.Reaches port server bytes := by
  rw [messagesFor, List.mem_append, List.mem_filterMap, List.mem_filterMap]
  constructor
  · rintro (⟨d, hd, hb⟩ | ⟨⟨v, b⟩, hx, hb⟩)
    · cases d with
      | query p v b =>
        obtain ⟨⟨rfl, rfl⟩, ⟨⟩⟩ := Option.ite_none_right_eq_some.mp hb
        exact .query hd
      | response v p b =>
        obtain ⟨⟨rfl, rfl⟩, ⟨⟩⟩ := Option.ite_none_right_eq_some.mp hb
        exact .response hd
    · obtain ⟨rfl, ⟨⟩⟩ := Option.ite_none_right_eq_some.mp hb
      cases hq : s.queues port with
      | none =>
        rw [hq] at hx
        cases hx
      | some queue =>
        rw [hq] at hx
        exact .queued hq hx
  · rintro (h | h | ⟨hq, hx⟩)
    · exact .inl ⟨_, h, if_pos ⟨rfl, rfl⟩⟩
    · exact .inl ⟨_, h, if_pos ⟨rfl, rfl⟩⟩
    · exact .inr ⟨_, by rwa [hq], if_pos rfl⟩

/-- The query that a `send` puts on the network. -/
def Sends (s : UpstreamPool) (e : Event) (port : UInt16) (server : SocketAddr) (bytes : Bytes) :
    Prop :=
  ∃ i c, e = .send i ∧ s.calls i = some c ∧ c.phase = .ready port ∧ c.server = server ∧
    c.query.raw = bytes

theorem Reaches.mono (h : s'.Reaches port server bytes)
    (hnetwork : ∀ d ∈ s'.network, d ∈ s.network)
    (hqueues : ∀ p queue x, s'.queues p = some queue → x ∈ queue →
      ∃ queue', s.queues p = some queue' ∧ x ∈ queue') : s.Reaches port server bytes := by
  cases h with
  | query h => exact .query (hnetwork _ h)
  | response h => exact .response (hnetwork _ h)
  | queued hq hx =>
    obtain ⟨queue', hq', hx'⟩ := hqueues _ _ _ hq hx
    exact .queued hq' hx'

/-- Changing one queue to one with less in it. -/
theorem queued_setQueue {p : UInt16} {queue' : Option (List (SocketAddr × Bytes))}
    (hsub : ∀ q, queue' = some q → ∀ x ∈ q, ∃ old, s.queues p = some old ∧ x ∈ old)
    (q : UInt16) (queue : List (SocketAddr × Bytes)) (x : SocketAddr × Bytes)
    (h : (s.setQueue p queue').queues q = some queue) (hx : x ∈ queue) :
    ∃ old, s.queues q = some old ∧ x ∈ old := by
  by_cases hq : q = p
  · subst hq
    rw [setQueue_self] at h
    exact hsub queue h x hx
  · rw [setQueue_other hq] at h
    exact ⟨queue, h, hx⟩

theorem reaches_drop {phase : Phase} (h : (s.drop phase).Reaches port server bytes) :
    s.Reaches port server bytes := by
  unfold UpstreamPool.drop at h
  split at h
  · exact h.mono (fun _ => id) (queued_setQueue (by simp))
  · exact h

theorem reaches_push {p : UInt16} (h : (s.push p).Reaches port server bytes) :
    s.Reaches port server bytes := by
  unfold push at h
  split at h
  · exact h.mono (fun _ => id) fun _ queue _ hq hx => ⟨queue, hq, hx⟩
  · exact h.mono (fun _ => id) (queued_setQueue (by simp))

theorem reaches_setCall {i : Nat} {c : Option Call}
    (h : (s.setCall i c).Reaches port server bytes) : s.Reaches port server bytes :=
  h.mono (fun _ => id) fun _ queue _ hq hx => ⟨queue, hq, hx⟩

/-- Polling a queue brings nothing. -/
theorem reaches_poll {p : UInt16} {x : SocketAddr × Bytes} {queue : List (SocketAddr × Bytes)}
    (hqueue : s.queues p = some (x :: queue))
    (h : (s.setQueue p (some queue)).Reaches port server bytes) : s.Reaches port server bytes := by
  refine h.mono (fun _ => id) (queued_setQueue ?_)
  rintro _ ⟨⟩ y hy
  exact ⟨_, hqueue, List.mem_cons_of_mem _ hy⟩

/-- A longer network, the same queues: what reaches a socket did before or is
the datagram added. -/
theorem reaches_append {network : List Datagram} {d : Datagram}
    (hsub : ∀ d ∈ network, d ∈ s.network)
    (h : { s with network := network ++ [d] }.Reaches port server bytes) :
    s.Reaches port server bytes ∨ d = .query port server bytes ∨
      d = .response server port bytes := by
  cases h with
  | query h =>
    rcases List.mem_append.mp h with h | h
    · exact .inl (.query (hsub _ h))
    · exact .inr (.inl (List.mem_singleton.mp h).symm)
  | response h =>
    rcases List.mem_append.mp h with h | h
    · exact .inl (.response (hsub _ h))
    · exact .inr (.inr (List.mem_singleton.mp h).symm)
  | queued hq hx => exact .inl (.queued hq hx)

/-- A response put in a queue was on its way there. -/
theorem reaches_deliver {j : Nat} {p : UInt16} {v : SocketAddr} {b : Bytes}
    {queue : List (SocketAddr × Bytes)} (hresponse : .response v p b ∈ s.network)
    (hqueue : s.queues p = some queue)
    (h : ({ s with network := s.network.eraseIdx j }.setQueue p
      (some (queue ++ [(v, b)]))).Reaches port server bytes) :
    s.Reaches port server bytes := by
  cases h with
  | query h => exact .query (List.mem_of_mem_eraseIdx h)
  | response h => exact .response (List.mem_of_mem_eraseIdx h)
  | queued hq hx =>
    by_cases hp : port = p
    · subst hp
      obtain rfl := Option.some.inj ((setQueue_self _).symm.trans hq)
      rcases List.mem_append.mp hx with hx | hx
      · exact .queued hqueue hx
      · -- the one just delivered
        obtain ⟨rfl, rfl⟩ := Prod.mk.inj (List.mem_singleton.mp hx)
        exact .response hresponse
    · exact .queued ((setQueue_other hp).symm.trans hq) hx

/-- **What reaches a socket** after a step is what reached it before, an honest
answer to a query that did, or the query just sent. -/
theorem reaches_step (hstep : s.step e = some (s', out)) (h : s'.Reaches port server bytes) :
    (∃ b, s.Reaches port server b ∧ HonestAnswer b bytes) ∨ Sends s e port server bytes := by
  have old : s.Reaches port server bytes →
      (∃ b, s.Reaches port server b ∧ HonestAnswer b bytes) ∨ Sends s e port server bytes :=
    fun h => .inl ⟨bytes, h, rfl, rfl⟩
  cases step_transition hstep with
  | unconfigured => exact old h
  | started => exact old (reaches_setCall h)
  | popped => exact old (h.mono (fun _ => id) fun _ queue _ hq hx => ⟨queue, hq, hx⟩)
  | bound =>
    -- a fresh socket has nothing in its queue
    exact old ((reaches_setCall h).mono (fun _ => id) (queued_setQueue (by simp)))
  | @sent i p c hcall hphase =>
    -- the one step that brings a message of its own
    rcases reaches_append (fun _ => id) (reaches_setCall h) with h | h | h
    · exact old h
    · obtain ⟨rfl, rfl, rfl⟩ := Datagram.query.inj h
      exact .inr ⟨i, c, rfl, hcall, hphase, rfl, rfl⟩
    · cases h
  | retried => exact old (reaches_drop (reaches_setCall h))
  | failed => exact old (reaches_drop (reaches_setCall h))
  | skipped hq => exact old (reaches_poll hq h)
  | returned _ _ hq => exact old (reaches_poll hq (reaches_push (reaches_setCall h)))
  | answered hquery hhonest =>
    -- the answer replaces the query, so something with its id and question was there
    rcases reaches_append (fun _ => List.mem_of_mem_eraseIdx) h with h | h | h
    · exact old h
    · cases h
    · obtain ⟨rfl, rfl, rfl⟩ := Datagram.response.inj h
      exact .inl ⟨_, .query hquery, hhonest⟩
  | duplicated hmem =>
    rcases reaches_append (fun _ => id) h with h | rfl | rfl
    · exact old h
    · exact old (.query hmem)
    · exact old (.response hmem)
  | lost =>
    exact old (h.mono (fun _ => List.mem_of_mem_eraseIdx) fun _ queue _ hq hx => ⟨queue, hq, hx⟩)
  | delivered hresponse hqueue => exact old (reaches_deliver hresponse hqueue h)
  | unreachable =>
    exact old (h.mono (fun _ => List.mem_of_mem_eraseIdx) fun _ queue _ hq hx => ⟨queue, hq, hx⟩)

/-- A call set to something else than waiting is not a waiting call. -/
theorem waiting_of_setCall {i j : Nat} {c : Call} {c' : Option Call}
    (hc' : ∀ d, c' = some d → d.phase ≠ .waiting port)
    (hcall : (s.setCall i c').calls j = some c) (hphase : c.phase = .waiting port) :
    s.calls j = some c := by
  rcases setCall_eq_some hcall with ⟨-, hc⟩ | ⟨-, hc⟩
  · exact absurd hphase (hc' c hc)
  · exact hc

/-- A waiting call was waiting before the step, or has just sent its query. -/
theorem waiting_step (hstep : s.step e = some (s', out)) {i : Nat} {c : Call}
    (hcall : s'.calls i = some c) (hphase : c.phase = .waiting port) :
    s.calls i = some c ∨
      (e = .send i ∧ ∃ c₀, s.calls i = some c₀ ∧ c₀.phase = .ready port ∧
        c₀.server = c.server ∧ c₀.query = c.query) := by
  cases step_transition hstep with
  | unconfigured => exact .inl hcall
  | started => exact .inl (waiting_of_setCall (by rintro d ⟨⟩ ⟨⟩) hcall hphase)
  | popped => exact .inl (waiting_of_setCall (by rintro d ⟨⟩ ⟨⟩) hcall hphase)
  | bound => exact .inl (waiting_of_setCall (by rintro d ⟨⟩ ⟨⟩) hcall hphase)
  | @sent j p c₀ hcall₀ hphase₀ =>
    rcases setCall_eq_some hcall with ⟨rfl, hc⟩ | ⟨-, hc⟩
    · obtain rfl := Option.some.inj hc
      obtain rfl := Phase.waiting.inj hphase
      exact .inr ⟨rfl, c₀, hcall₀, hphase₀, rfl, rfl⟩
    · exact .inl hc
  | retried =>
    exact .inl (drop_calls _ ▸ waiting_of_setCall (by rintro d ⟨⟩ ⟨⟩) hcall hphase)
  | failed => exact .inl (drop_calls _ ▸ waiting_of_setCall (by rintro d ⟨⟩) hcall hphase)
  | skipped => exact .inl hcall
  | @returned j p c₀ src b queue =>
    have hkept := waiting_of_setCall (by rintro d ⟨⟩) hcall hphase
    rw [push_calls] at hkept
    exact .inl hkept
  | answered => exact .inl hcall
  | duplicated => exact .inl hcall
  | lost => exact .inl hcall
  | delivered => exact .inl hcall
  | unreachable => exact .inl hcall

/-! ## Matching -/

/-- What reaches a waiting call from its server with its id answers it. -/
def Matching (s : UpstreamPool) : Prop :=
  ∀ i c port, s.calls i = some c → c.phase = .waiting port →
    ∀ b, s.Reaches port c.server b → txid b = txid c.query.raw →
      questionOf b = questionOf c.query.raw

/-- Nothing that reaches the socket of a sending call from its server has its
id and another question. -/
def Undisturbed (s : UpstreamPool) (e : Event) : Prop :=
  ∀ i c port, e = .send i → s.calls i = some c → c.phase = .ready port →
    ∀ b, s.Reaches port c.server b → txid b = txid c.query.raw →
      questionOf b = questionOf c.query.raw

/-- The condition as a check of the messages that reach the socket. -/
def checkUndisturbed (s : UpstreamPool) : Event → Bool
  | .send i =>
    match s.calls i with
    | some c =>
      match c.phase with
      | .ready port => decide (∀ b ∈ s.messagesFor port c.server,
          txid b = txid c.query.raw → questionOf b = questionOf c.query.raw)
      | _ => true
    | none => true
  | _ => true

theorem checkUndisturbed_eq_true : s.checkUndisturbed e = true ↔ Undisturbed s e := by
  constructor
  · rintro h i c port rfl hcall hphase b hreaches
    simp only [checkUndisturbed, hcall, hphase, decide_eq_true_eq] at h
    exact h b (mem_messagesFor.mpr hreaches)
  · intro h
    unfold checkUndisturbed
    split
    · next i =>
      split
      · next c hcall =>
        split
        · next port hphase =>
          exact decide_eq_true fun b hb => h i c port rfl hcall hphase b (mem_messagesFor.mp hb)
        · rfl
      · rfl
    · rfl

instance (s : UpstreamPool) (e : Event) : Decidable (Undisturbed s e) :=
  decidable_of_iff _ checkUndisturbed_eq_true

theorem matching_new (ports : List UInt16) : Matching (new ports) := by
  intro i c port hcall
  cases hcall

/-- **Step lemma**: undisturbed steps keep every waiting call matched. -/
theorem matching_step (hs : Exclusive s) (hmatch : Matching s) (hquiet : Undisturbed s e)
    (hstep : s.step e = some (s', out)) : Matching s' := by
  intro i c port hcall hphase b hreaches hid
  rcases waiting_step hstep hcall hphase with hold | ⟨rfl, c₀, hcall₀, hphase₀, hserver, hquery⟩
  · rcases reaches_step hstep hreaches with ⟨b₀, h₀, hsame, hquestion⟩ |
      ⟨j, d, rfl, hd, hready, -, -⟩
    · -- a call that waited before, and what reached it before
      rw [hquestion]
      exact hmatch i c port hold hphase b₀ h₀ (hsame.symm.trans hid)
    · -- the sender holds the same socket, so it is this call, which is waiting
      obtain rfl := hs.one ⟨c, hold, by rw [hphase]; rfl⟩ ⟨d, hd, by rw [hready]; rfl⟩
      obtain rfl := Option.some.inj (hold.symm.trans hd)
      rw [hphase] at hready
      cases hready
  · rcases reaches_step hstep hreaches with ⟨b₀, h₀, hsame, hquestion⟩ |
      ⟨j, d, hsend, hd, -, -, hbytes⟩
    · -- the call just sent, and what reached its socket before: the condition
      rw [hquestion, ← hquery]
      rw [← hserver] at h₀
      exact hquiet i c₀ port rfl hcall₀ hphase₀ b₀ h₀ (hsame.symm.trans (hquery ▸ hid))
    · -- the call just sent, and its own query
      obtain rfl := Event.send.inj hsend
      obtain rfl := Option.some.inj (hcall₀.symm.trans hd)
      rw [← hbytes, hquery]

/-- A response is returned to the call that accepted it from its queue. -/
theorem returned_step {query : Query} {res : UpstreamResponse} (hstep : s.step e = some (s', out))
    (hres : .returned query res ∈ out) :
    ∃ i c port bytes, s.calls i = some c ∧ c.phase = .waiting port ∧ c.query = query ∧
      s.Reaches port c.server bytes ∧ exchangeAccepts c.server query c.server bytes = true ∧
      res = exchangeResponse bytes := by
  cases step_transition hstep with
  | unconfigured => cases List.mem_singleton.mp hres
  | failed => cases List.mem_singleton.mp hres
  | @returned i port c src bytes queue hcall hphase hqueue haccept =>
    obtain ⟨rfl, rfl⟩ := Resolution.returned.inj (List.mem_singleton.mp hres)
    obtain ⟨rfl, -⟩ := exchangeAccepts_iff haccept
    exact ⟨i, c, port, bytes, hcall, hphase, rfl, .queued hqueue (List.mem_cons_self ..), haccept,
      rfl⟩
  | _ => cases hres

/-- **Responses answer their own query.** In a run of the pool from its start
in which every `send` is undisturbed, whatever the ids the clients chose and
whatever is lost, delayed, reordered or sent twice, each query gets back, and
has stored under its key, responses to its own question only. -/
theorem returned_own_question {display : RecordType → Str} {ports : List UInt16}
    (hports : ports.Nodup) {es : List Event} {t : UpstreamPool} {outs : List Resolution}
    (hrun : machine.run (new ports) es = some (t, outs))
    (hquiet : machine.Along Undisturbed (new ports) es) {query : Query} {res : UpstreamResponse}
    (hres : .returned query res ∈ outs) : OwnQuestion display query res := by
  have hall := Machine.run_history (M := machine) (C := Undisturbed)
    (J := fun h s => Exclusive s ∧ Matching s ∧
      ∀ query res, .returned query res ∈ h → questionOf res.raw = questionOf query.raw)
    (h := []) ?_ ⟨exclusive_new hports, matching_new ports, by simp⟩ hquiet hrun
  · exact .of_response (hall.2.2 query res hres)
  · rintro h s e s' out ⟨hexcl, hmatch, hsofar⟩ hC hstep
    refine ⟨exclusive_step hexcl hstep, matching_step hexcl hmatch hC hstep, ?_⟩
    intro query res hmem
    rcases List.mem_append.mp hmem with hmem | hmem
    · exact hsofar query res hmem
    · obtain ⟨i, c, port, bytes, hcall, hphase, rfl, hreaches, haccept, rfl⟩ :=
        returned_step hstep hmem
      have hquestion := hmatch i c port hcall hphase bytes hreaches (exchangeAccepts_iff haccept).2
      exact (questionOf_take bytes).trans hquestion

end UpstreamPool

/-! ## Two runs on one socket -/

namespace Sample

open UpstreamPool

/-- The name `xy` on the wire, without the ending zero byte. -/
def otherName : Bytes := [2, 120, 121]

/-- A query for it as parsed. -/
def otherQuery (id : UInt8) : Query := ⟨['x', 'y'], RecordType.a, packet id otherName, 20⟩

/-- Call `i` takes the pool's socket and sends its query. -/
def asks (i : Nat) (query : Query) : List Event :=
  [.resolve i query [resolver], .acquire i 5000, .send i]

/-- The answer to a query for `ab.cd` arrives twice, call 0 takes the first
copy, and a query for `xy` is sent from the same socket. -/
def askedTwice (id : UInt8) : List Event :=
  asks 0 (query 7) ++ [.answer 0 (answer 7 name), .duplicate 0, .deliver 0, .deliver 0,
    .receive 0] ++ asks 1 (otherQuery id)

end Sample

namespace UpstreamPool

/-- The second client chose another id: the stray copy is skipped. -/
theorem other_id_own_question :
    OwnQuestion Sample.display (Sample.otherQuery 9)
      (exchangeResponse (Sample.answer 9 Sample.otherName)) := by
  obtain ⟨⟨t, outs⟩, hrun, hmem⟩ := Option.map_eq_some_iff.mp
    (show (machine.run (new [5000]) (Sample.askedTwice 9 ++
      [.receive 1, .answer 0 (Sample.answer 9 Sample.otherName), .deliver 0, .receive 1])).map
        (fun p => decide (.returned (Sample.otherQuery 9)
          (exchangeResponse (Sample.answer 9 Sample.otherName)) ∈ p.2)) = some true
      by decide +kernel)
  exact returned_own_question (by decide) hrun (by decide +kernel) (of_decide_eq_true hmem)

/-- **A stray answer is taken for another query's.** The second client chose
the id of the first, so the copy that stays in the socket is the answer to its
query for `xy`, although the upstream answered every query honestly. -/
theorem stray_answer_taken :
    Parser.parseUdp (Sample.packet 7 Sample.otherName) = .ok (Sample.otherQuery 7) ∧
    ∃ t outs, machine.run (new [5000]) (Sample.askedTwice 7 ++ [.receive 1]) = some (t, outs) ∧
      .returned (Sample.otherQuery 7) (exchangeResponse (Sample.answer 7 Sample.name)) ∈ outs ∧
      ¬ OwnQuestion Sample.display (Sample.otherQuery 7)
        (exchangeResponse (Sample.answer 7 Sample.name)) := by
  obtain ⟨⟨t, outs⟩, hrun, hmem⟩ := Option.map_eq_some_iff.mp
    (show (machine.run (new [5000]) (Sample.askedTwice 7 ++ [.receive 1])).map (fun p =>
        decide (.returned (Sample.otherQuery 7)
          (exchangeResponse (Sample.answer 7 Sample.name)) ∈ p.2)) = some true
      by decide +kernel)
  refine ⟨by decide +kernel, t, outs, hrun, of_decide_eq_true hmem, ?_⟩
  intro h
  exact absurd h.response (by decide +kernel)

end UpstreamPool

end Denis
