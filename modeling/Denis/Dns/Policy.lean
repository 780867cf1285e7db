import Denis.Dns.Server

/-!
# What queries leave alone

Messages, cold requests and upstream datagrams read the configuration, the lists and
the access list and never write them (`step_policy`). So what becomes of a query is
decided by what stands there when it is taken up: `step_blocked` for a name that is
blocked, `step_unblocked` for one that is not.
-/

namespace Denis

open Text

/-- What only an administrator or a restart changes. -/
structure Policy where
  runtime : Runtime
  acl : Acl
  config : RuntimeConfig
  blockList : DomainSet
  allowList : DomainSet

def Server.policy (s : Server) : Policy :=
  ⟨s.runtime, s.acl, s.config, s.cache.blockList, s.cache.allowList⟩

/-- An administrator's input. -/
def Input.isEdit : Input → Bool
  | .configure _ => true
  | .setBlockList _ => true
  | .setAllowList _ => true
  | _ => false

namespace QueryHandler

variable {display : RecordType → Str} {cache cache' : Cache} {config : RuntimeConfig}
  {query : Query} {clock : Clock} {served : Served}

/-- A response is stored beside the lists. -/
theorem store_lists (now : Nat) (raw : Bytes) :
    (store display cache config now query raw).blockList = cache.blockList ∧
      (store display cache config now query raw).allowList = cache.allowList := by
  unfold store
  split <;> exact ⟨rfl, rfl⟩

theorem beginParsed_lists
    (h : beginParsed display cache config query clock = some (cache', served)) :
    cache'.blockList = cache.blockList ∧ cache'.allowList = cache.allowList := by
  rcases beginParsed_eq_some h with ⟨-, rfl, -⟩ | ⟨-, x, -, -, rfl, -⟩
  · exact ⟨rfl, rfl⟩
  · exact store_lists clock.now x.value.raw

end QueryHandler

namespace Server

variable {display : RecordType → Str} {s s' : Server} {clock : Clock} {out : List Output}

theorem beginHandle_policy (req : Request) :
    (s.beginHandle display req clock).1.policy = s.policy := by
  unfold beginHandle
  split
  · next cache served hbegin =>
    obtain ⟨hblock, hallow⟩ := QueryHandler.beginParsed_lists hbegin
    show Policy.mk _ _ _ cache.blockList cache.allowList = _
    rw [hblock, hallow]
    rfl
  · split
    · rfl
    · rfl

theorem handle_policy (client : Client) (packet : Bytes) :
    (s.handle display client packet clock).1.policy = s.policy := by
  cases hparse : Parser.parseUdp (client.listener.buffer packet) with
  | error e =>
    rw [handle_error hparse]
    rfl
  | ok query =>
    rw [handle_ok hparse]
    exact beginHandle_policy _

theorem tcpConn_policy {client : Client} {packet : Bytes}
    (h : s.tcpConn display client packet clock = some (s', out)) : s'.policy = s.policy := by
  unfold tcpConn at h
  split at h
  · cases h
  · split at h
    · obtain ⟨rfl, rfl⟩ := Prod.mk.inj (Option.some.inj h)
      rfl
    · have hsame := @handle_policy display s clock client packet
      rw [Option.some.inj h] at hsame
      exact hsame

theorem monoUdp_policy (client : Client) (packet : Bytes) :
    (s.monoUdp display client packet clock).1.policy = s.policy := by
  cases hparse : Parser.parseUdp (client.listener.buffer packet) with
  | error e =>
    rw [monoUdp_error hparse]
  | ok query =>
    rw [monoUdp_ok hparse]
    split
    · rfl
    · rfl
    · split <;> rfl

theorem message_policy {client : Client} {packet : Bytes}
    (h : s.message display client packet clock = some (s', out)) : s'.policy = s.policy := by
  unfold message at h
  split at h
  · cases h
  · split at h
    · have hsame := @monoUdp_policy display s clock client packet
      rw [Option.some.inj h] at hsame
      exact hsame
    · have hsame := @handle_policy display s clock client packet
      rw [Option.some.inj h] at hsame
      exact hsame
    · exact tcpConn_policy h
    · exact tcpConn_policy h

/-- **Queries leave the policy alone.** -/
theorem step_policy {input : Input} (hedit : input.isEdit = false)
    (h : s.step display input = some (s', out)) : s'.policy = s.policy := by
  cases input with
  | message client packet clock =>
    rw [step] at h
    split at h
    · cases h
    · next m hadvance =>
      obtain ⟨-, rfl⟩ := advance_eq_some hadvance
      exact (message_policy h).trans rfl
  | cold i clock =>
    rw [step] at h
    split at h
    · next m req hadvance hreq =>
      obtain ⟨-, rfl⟩ := advance_eq_some hadvance
      have hsame := @beginHandle_policy display
        { s with now := clock.now, cold := s.cold.eraseIdx i } clock req
      rw [Option.some.inj h] at hsame
      exact hsame
    · cases h
  | datagram i server src bytes clock =>
    rw [step] at h
    split at h
    · next m w hadvance hw =>
      obtain ⟨-, rfl⟩ := advance_eq_some hadvance
      split at h
      · obtain ⟨rfl, rfl⟩ := Prod.mk.inj (Option.some.inj h)
        obtain ⟨hblock, hallow⟩ := @QueryHandler.store_lists display s.cache s.config
          w.request.query clock.now (exchangeResponse bytes).raw
        show Policy.mk _ _ _ (QueryHandler.store ..).blockList
          (QueryHandler.store ..).allowList = _
        rw [hblock, hallow]
        rfl
      · cases h
    · cases h
  | unresolved i =>
    rw [step] at h
    split at h
    · obtain ⟨rfl, rfl⟩ := Prod.mk.inj (Option.some.inj h)
      rfl
    · cases h
  | configure config => cases hedit
  | setBlockList list => cases hedit
  | setAllowList list => cases hedit

/-- And nothing changes the runtime. -/
theorem step_runtime {input : Input} (h : s.step display input = some (s', out)) :
    s'.runtime = s.runtime := by
  cases hedit : input.isEdit with
  | false => exact congrArg Policy.runtime (step_policy hedit h)
  | true =>
    cases input with
    | configure config | setBlockList list | setAllowList list =>
      obtain ⟨rfl, -⟩ := Prod.mk.inj (Option.some.inj h)
      rfl
    | _ => cases hedit

/-! ## Taking up a query -/

/-- A query is taken up: a message parses to it, or it comes off the cold channel. -/
inductive Takes (s : Server) : Input → Request → Prop
  | message (req : Request) {clock : Clock} :
      req.timestampMs = clock.timestampMs → Takes s (.message req.client req.packet clock) req
  | cold {i : Nat} {req : Request} {clock : Clock} :
      s.cold[i]? = some req → Takes s (.cold i clock) req

variable {req : Request}

/-- And on one that is not. -/
theorem beginParsed_of_unblocked {cache cache' : Cache} {config : RuntimeConfig} {query : Query}
    {served : Served} (hopen : cache.isBlocked query.name = false)
    (h : QueryHandler.beginParsed display cache config query clock = some (cache', served)) :
    served.blocked = false := by
  rw [QueryHandler.beginParsed_eq, if_neg (Bool.eq_false_iff.mp hopen)] at h
  split at h
  · obtain ⟨-, rfl⟩ := Prod.mk.inj (Option.some.inj h)
    rfl
  · cases h

/-- Whatever comes of it is not a blocked reply. -/
theorem beginHandle_unblocked (hopen : s.cache.isBlocked req.query.name = false) :
    ∀ r event, .reply r ∈ (s.beginHandle display req clock).2 → r.event = some event →
      event.blocked = false := by
  intro r event hr hevent
  unfold beginHandle at hr
  split at hr
  · next cache served hbegin =>
    obtain rfl := Output.reply.inj (List.mem_singleton.mp hr)
    obtain rfl := Option.some.inj hevent
    exact beginParsed_of_unblocked hopen hbegin
  · split at hr
    · cases hr
    · cases List.mem_singleton.mp hr

/-- What parses is not the empty frame. -/
theorem message_takes (htime : req.timestampMs = clock.timestampMs)
    (h : s.message display req.client req.packet clock = some (s', out)) :
    (req.client.listener = .monoUdp ∧
        out = (s.monoUdp display req.client req.packet clock).2) ∨
      req.client.listener ≠ .monoUdp ∧ out = (s.beginHandle display req clock).2 := by
  have hhandle : s.handle display req.client req.packet clock =
      s.beginHandle display req clock := by
    rw [handle_ok req.parsed, ← htime]
  have hconn : s.tcpConn display req.client req.packet clock = some (s', out) →
      out = (s.beginHandle display req clock).2 := by
    intro hconn
    unfold tcpConn at hconn
    split at hconn
    · cases hconn
    · split at hconn
      · next hempty =>
        have hlong := (Parser.parseUdp_eq_ok req.parsed).1
        have hshort : (req.client.listener.buffer req.packet).length = 0 := by
          rw [List.length_eq_zero_iff.mp hempty]
          unfold Listener.buffer
          split <;> rfl
        rw [hshort] at hlong
        cases hlong
      · rw [← hhandle, Option.some.inj hconn]
  unfold message at h
  split at h
  · cases h
  · split at h
    · next hlistener =>
      rw [Option.some.inj h]
      exact .inl ⟨hlistener, rfl⟩
    · next hlistener =>
      rw [← hhandle, Option.some.inj h, hlistener]
      exact .inr ⟨by decide, rfl⟩
    · next hlistener => exact .inr ⟨by rw [hlistener]; decide, hconn h⟩
    · next hlistener => exact .inr ⟨by rw [hlistener]; decide, hconn h⟩

/-- **A query of a name that is not blocked** gets no blocked reply. -/
theorem step_unblocked {input : Input} (htakes : Takes s input req)
    (hopen : s.cache.isBlocked req.query.name = false)
    (h : s.step display input = some (s', out)) :
    ∀ r event, .reply r ∈ out → r.event = some event → event.blocked = false := by
  cases htakes with
  | @message _ clock htime =>
    rw [step] at h
    split at h
    · cases h
    · next m hadvance =>
      obtain ⟨-, rfl⟩ := advance_eq_some hadvance
      rcases message_takes htime h with ⟨hlistener, rfl⟩ | ⟨-, rfl⟩
      · intro r event hr hevent
        rw [monoUdp_ok req.parsed] at hr
        split at hr
        · cases hr
        · obtain rfl := Output.reply.inj (List.mem_singleton.mp hr)
          cases hevent
        · split at hr
          · next cache served hbegin =>
            obtain rfl := Output.reply.inj (List.mem_singleton.mp hr)
            obtain rfl := Option.some.inj hevent
            exact beginParsed_of_unblocked hopen hbegin
          · cases hr
      · exact @beginHandle_unblocked display { s with now := clock.now } clock req hopen
  | @cold i _ clock hreq =>
    rw [step] at h
    split at h
    · next m req' hadvance hreq' =>
      obtain ⟨-, rfl⟩ := advance_eq_some hadvance
      obtain rfl := Option.some.inj (hreq.symm.trans hreq')
      have hreply := @beginHandle_unblocked display
        { s with now := clock.now, cold := s.cold.eraseIdx i } clock req hopen
      rw [Option.some.inj h] at hreply
      exact hreply
    · cases h

end Server

end Denis
