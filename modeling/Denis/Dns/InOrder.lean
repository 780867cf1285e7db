import Denis.Dns.TcpConn
import Denis.Lib.InFlight

/-!
# Frames and replies of a connection (`dns/server.rs:164–200`)

`handle_tcp_conn` reads the next frame once the last is answered. So whatever other
clients do, and however long upstream takes, a client that sends frames without
waiting gets the replies in their order, one a frame, until one fails
(`replies_in_order`).

`Moves` lists what a step of the server can do to a connection; `Stands` is where the
connection stands between steps.
-/

namespace Denis

open Text InFlight

/-- The frame read on a connection. -/
def Input.frame (client : Client) : Input → Option Bytes
  | .message client' packet _ => if client' = client then some packet else none
  | _ => none

namespace Server

variable {display : RecordType → Str} {s s' : Server} {client : Client} {clock : Clock}
  {out : List Output}

/-- The frames of a connection that wait for upstream. -/
def callsOf (client : Client) (s : Server) : List Bytes :=
  (s.waiting.filter fun w => w.request.client = client).map fun w => w.request.packet

/-- The frames it has been answered. -/
def answeredTo (client : Client) (outs : List Output) : List Bytes :=
  (repliesTo client outs).map Reply.packet

/-- What a step does to a connection, given the frame it reads. -/
inductive Moves (state state' : ConnState) (calls calls' answered : List Bytes) :
    Option Bytes → Prop
  | beside : state' = state → calls.Perm calls' → answered = [] →
      Moves state state' calls calls' answered none
  | answered {packet : Bytes} : state = .reading → state' = .reading → calls' = calls →
      answered = [packet] → Moves state state' calls calls' answered (some packet)
  | begun {packet : Bytes} : state = .reading → state' = .busy → calls' = calls ++ [packet] →
      answered = [] → Moves state state' calls calls' answered (some packet)
  | failed {packet : Bytes} : state = .reading → state' = .closed → calls' = calls →
      answered = [] → Moves state state' calls calls' answered (some packet)
  | relayed {packet : Bytes} : calls.Perm (packet :: calls') → state' = .reading →
      answered = [packet] → Moves state state' calls calls' answered none
  | gaveUp {packet : Bytes} : calls.Perm (packet :: calls') → state' = .closed →
      answered = [] → Moves state state' calls calls' answered none

/-- What a step of the server does to the connection of a client. -/
abbrev ConnMoves (client : Client) (s s' : Server) (out : List Output) : Option Bytes → Prop :=
  Moves (s.conns client) (s'.conns client) (callsOf client s) (callsOf client s')
    (answeredTo client out)

theorem answeredTo_append (out out' : List Output) :
    answeredTo client (out ++ out') = answeredTo client out ++ answeredTo client out' := by
  rw [answeredTo, repliesTo, List.filterMap_append, List.map_append]
  rfl

theorem setConn_conns (htcp : client.listener.isTcp = true) (client' : Client)
    (state : ConnState) :
    (s.setConn client' state).conns client =
      if client' = client then state else s.conns client := by
  unfold setConn
  dsimp only
  by_cases heq : client' = client
  · subst heq
    rw [if_pos htcp, if_pos rfl, Function.update_self]
  · rw [if_neg heq]
    split
    · exact Function.update_of_ne (Ne.symm heq) ..
    · rfl

theorem callsOf_append (waiting : List Waiting) (w : Waiting) :
    callsOf client { s with waiting := waiting ++ [w] } =
      callsOf client { s with waiting } ++
        if w.request.client = client then [w.request.packet] else [] := by
  unfold callsOf
  rw [List.filter_append, List.map_append]
  congr 1
  by_cases heq : w.request.client = client <;> simp [heq]

/-- Taking a call off leaves those of others. -/
theorem callsOf_perm {i : Nat} {w : Waiting} (hw : s.waiting[i]? = some w) :
    (callsOf client s).Perm ((if w.request.client = client then [w.request.packet] else []) ++
      callsOf client { s with waiting := s.waiting.eraseIdx i }) := by
  have hperm := ((perm_of_getElem? hw).filter fun w => w.request.client = client).map
    fun w => w.request.packet
  refine hperm.trans (.of_eq ?_)
  unfold callsOf
  by_cases heq : w.request.client = client <;> simp [heq]

/-- What becomes of a request that is its client's turn: to a TCP client an answer, a
wait or the end. -/
theorem beginHandle_moves (htcp : client.listener.isTcp = true) {req : Request}
    (hreading : req.client = client → s.conns client = .reading) :
    ConnMoves client s (s.beginHandle display req clock).1 (s.beginHandle display req clock).2
      (if req.client = client then some req.packet else none) := by
  unfold beginHandle
  by_cases heq : req.client = client
  · rw [if_pos heq]
    have hstate := fun m state => (@setConn_conns m client htcp req.client state).trans (if_pos heq)
    split
    · refine .answered (hreading heq) (hstate _ _) rfl ?_
      simp [answeredTo, repliesTo, deliver, heq]
    · split
      · exact .failed (hreading heq) (hstate _ _) rfl rfl
      · refine .begun (hreading heq) (hstate _ _) ?_ rfl
        have hcalls := @callsOf_append s client s.waiting ⟨req, s.config.upstreams⟩
        rw [if_pos heq] at hcalls
        exact hcalls
  · rw [if_neg heq]
    have hstate := fun m state => (@setConn_conns m client htcp req.client state).trans (if_neg heq)
    split
    · refine .beside (hstate _ _) (.refl _) ?_
      simp [answeredTo, repliesTo, deliver, heq]
    · split
      · exact .beside (hstate _ _) (.refl _) rfl
      · refine .beside (hstate _ _) ?_ rfl
        have hcalls := @callsOf_append s client s.waiting ⟨req, s.config.upstreams⟩
        rw [if_neg heq, List.append_nil] at hcalls
        exact .of_eq hcalls.symm

theorem handle_moves (htcp : client.listener.isTcp = true) {client' : Client} {packet : Bytes}
    (hreading : client' = client → s.conns client = .reading) :
    ConnMoves client s (s.handle display client' packet clock).1
      (s.handle display client' packet clock).2
      (if client' = client then some packet else none) := by
  cases hparse : Parser.parseUdp (client'.listener.buffer packet) with
  | error e =>
    rw [handle_error hparse]
    have hstate := @setConn_conns s client htcp client' .closed
    by_cases heq : client' = client
    · rw [if_pos heq] at hstate ⊢
      exact .failed (hreading heq) hstate rfl rfl
    · rw [if_neg heq] at hstate ⊢
      exact .beside hstate (.refl _) rfl
  | ok query =>
    rw [handle_ok hparse]
    exact @beginHandle_moves display s client clock htcp
      ⟨client', packet, query, clock.timestampMs, hparse⟩ hreading

theorem tcpConn_moves (htcp : client.listener.isTcp = true) {client' : Client} {packet : Bytes}
    (h : s.tcpConn display client' packet clock = some (s', out)) :
    ConnMoves client s s' out (if client' = client then some packet else none) := by
  unfold tcpConn at h
  split at h
  · cases h
  · next hopen =>
    have hreading : client' = client → s.conns client = .reading := by
      rintro rfl
      by_contra hclosed
      exact hopen (.inl hclosed)
    split at h
    · obtain ⟨rfl, rfl⟩ := Prod.mk.inj (Option.some.inj h)
      have hstate := @setConn_conns s client htcp client' .closed
      by_cases heq : client' = client
      · rw [if_pos heq] at hstate ⊢
        exact .failed (hreading heq) hstate rfl rfl
      · rw [if_neg heq] at hstate ⊢
        exact .beside hstate (.refl _) rfl
    · have hmoves := @handle_moves display s client clock htcp client' packet hreading
      rw [Option.some.inj h] at hmoves
      exact hmoves

/-- The workers serve no connection. -/
theorem monoUdp_moves {client' : Client} (hother : client' ≠ client)
    (hudp : client'.listener = .monoUdp) (packet : Bytes) :
    ConnMoves client s (s.monoUdp display client' packet clock).1
      (s.monoUdp display client' packet clock).2 none := by
  have hconn : ∀ m : Server, ∀ state, m.setConn client' state = m := by
    intro m state
    rw [setConn, hudp]
    rfl
  cases hparse : Parser.parseUdp (client'.listener.buffer packet) with
  | error e =>
    rw [monoUdp_error hparse]
    exact .beside rfl (.refl _) rfl
  | ok query =>
    rw [monoUdp_ok hparse]
    split
    · exact .beside rfl (.refl _) rfl
    · rw [deliver, hconn]
      refine .beside rfl (.refl _) ?_
      simp [answeredTo, repliesTo, hother]
    · split
      · rw [deliver, hconn]
        refine .beside rfl (.refl _) ?_
        simp [answeredTo, repliesTo, hother]
      · exact .beside rfl (.refl _) rfl

/-- Queued requests are the workers'. -/
def ColdUdp (s : Server) : Prop := ∀ r ∈ s.cold, r.client.listener = .monoUdp

theorem message_moves (htcp : client.listener.isTcp = true) {client' : Client} {packet : Bytes}
    (h : s.message display client' packet clock = some (s', out)) :
    ConnMoves client s s' out (if client' = client then some packet else none) := by
  have hudp : ∀ listener, listener.isTcp = false → client'.listener = listener →
      client' ≠ client := by
    rintro listener hnot hlistener rfl
    rw [hlistener, hnot] at htcp
    cases htcp
  unfold message at h
  split at h
  · cases h
  · split at h
    · next hlistener =>
      have hother := hudp .monoUdp rfl hlistener
      have hmoves := @monoUdp_moves display s client clock client' hother hlistener packet
      rw [Option.some.inj h] at hmoves
      rw [if_neg hother]
      exact hmoves
    · next hlistener =>
      have hother := hudp .tokioUdp rfl hlistener
      have hmoves := @handle_moves display s client clock htcp client' packet
        fun heq => absurd heq hother
      rw [Option.some.inj h] at hmoves
      exact hmoves
    · exact tcpConn_moves htcp h
    · exact tcpConn_moves htcp h

/-- **What a step can do to a connection.** -/
theorem step_moves {e : Input} (htcp : client.listener.isTcp = true) (hcold : s.ColdUdp)
    (h : s.step display e = some (s', out)) : ConnMoves client s s' out (e.frame client) := by
  cases e with
  | message client' packet clock =>
    rw [step] at h
    split at h
    · cases h
    · next m hadvance =>
      obtain ⟨-, rfl⟩ := advance_eq_some hadvance
      have hmoves := message_moves htcp h
      exact hmoves
  | cold i clock =>
    rw [step] at h
    split at h
    · next m req hadvance hreq =>
      obtain ⟨-, rfl⟩ := advance_eq_some hadvance
      -- only the workers' clients are queued
      have hother : req.client ≠ client := by
        rintro rfl
        rw [hcold req (List.mem_of_getElem? hreq)] at htcp
        cases htcp
      have hmoves := @beginHandle_moves display
        { s with now := clock.now, cold := s.cold.eraseIdx i } client clock htcp req
          fun heq => absurd heq hother
      rw [Option.some.inj h, if_neg hother] at hmoves
      exact hmoves
    · cases h
  | datagram i server src bytes clock =>
    rw [step] at h
    split at h
    · next m w hadvance hw =>
      obtain ⟨-, rfl⟩ := advance_eq_some hadvance
      split at h
      · obtain ⟨rfl, rfl⟩ := Prod.mk.inj (Option.some.inj h)
        have hperm := @callsOf_perm s client i w hw
        have hstate := fun m => @setConn_conns m client htcp w.request.client .reading
        -- a reply to another client leaves the connection as it was
        by_cases heq : w.request.client = client
        · rw [if_pos heq] at hperm
          refine .relayed hperm ((hstate _).trans (if_pos heq)) ?_
          simp [answeredTo, repliesTo, heq]
        · rw [if_neg heq, List.nil_append] at hperm
          refine .beside ((hstate _).trans (if_neg heq)) hperm ?_
          simp [answeredTo, repliesTo, heq]
      · cases h
    · cases h
  | unresolved i =>
    rw [step] at h
    split at h
    · next w hw =>
      obtain ⟨rfl, rfl⟩ := Prod.mk.inj (Option.some.inj h)
      have hperm := @callsOf_perm s client i w hw
      have hstate := fun m => @setConn_conns m client htcp w.request.client .closed
      by_cases heq : w.request.client = client
      · rw [if_pos heq] at hperm
        exact .gaveUp hperm ((hstate _).trans (if_pos heq)) rfl
      · rw [if_neg heq, List.nil_append] at hperm
        exact .beside ((hstate _).trans (if_neg heq)) hperm rfl
    · cases h
  | configure config =>
    obtain ⟨rfl, rfl⟩ := Prod.mk.inj (Option.some.inj h)
    exact .beside rfl (.refl _) rfl
  | setBlockList list =>
    obtain ⟨rfl, rfl⟩ := Prod.mk.inj (Option.some.inj h)
    exact .beside rfl (.refl _) rfl
  | setAllowList list =>
    obtain ⟨rfl, rfl⟩ := Prod.mk.inj (Option.some.inj h)
    exact .beside rfl (.refl _) rfl

/-- And it queues requests of the workers only. -/
theorem step_coldUdp {e : Input} (hcold : s.ColdUdp) (h : s.step display e = some (s', out)) :
    s'.ColdUdp := by
  cases step_transition h with
  | idle _ hframe | unserved _ _ _ hframe | refused _ _ hframe | hot _ _ _ hframe
  | handled _ _ hframe | forwarded _ _ _ hframe | relayed _ _ _ hframe =>
    exact hframe.cold_forall hcold (by simp)
  | hotMiss hlistener _ hframe =>
    exact hframe.cold_forall hcold (by simpa using hlistener)

/-! ## Between steps -/

/-- Where a connection stands after some frames and some answers, with the calls of
its own. -/
inductive Stands (frames answers : List Bytes) : ConnState → List Bytes → Prop
  | reading : frames = answers → Stands frames answers .reading []
  | busy {packet : Bytes} : frames = answers ++ [packet] → Stands frames answers .busy [packet]
  | closed {packet : Bytes} : frames = answers ++ [packet] → Stands frames answers .closed []

/-- **One step.** -/
theorem Stands.moves {frames answers : List Bytes} {state state' : ConnState}
    {calls calls' answered : List Bytes} {frame : Option Bytes}
    (hs : Stands frames answers state calls) (h : Moves state state' calls calls' answered frame) :
    Stands (frames ++ frame.toList) (answers ++ answered) state' calls' := by
  cases h with
  | beside hstate hperm hanswered =>
    subst hstate hanswered
    rw [Option.toList_none, List.append_nil, List.append_nil]
    cases hs with
    | reading heq =>
      obtain rfl := hperm.nil_eq
      exact .reading heq
    | busy heq =>
      obtain rfl := List.singleton_perm.mp hperm
      exact .busy heq
    | closed heq =>
      obtain rfl := hperm.nil_eq
      exact .closed heq
  | answered hreading hstate hcalls hanswered =>
    subst hstate hcalls hanswered
    cases hs with
    | reading heq => exact .reading (by rw [heq]; rfl)
    | _ => cases hreading
  | begun hreading hstate hcalls hanswered =>
    subst hstate hcalls hanswered
    cases hs with
    | reading heq => exact .busy (by rw [heq, List.append_nil]; rfl)
    | _ => cases hreading
  | failed hreading hstate hcalls hanswered =>
    subst hstate hcalls hanswered
    cases hs with
    | reading heq => exact .closed (by rw [heq, List.append_nil]; rfl)
    | _ => cases hreading
  | relayed hperm hstate hanswered =>
    subst hstate hanswered
    rw [Option.toList_none, List.append_nil]
    cases hs with
    | busy heq =>
      obtain ⟨rfl, rfl⟩ := List.cons.inj (List.singleton_perm.mp hperm)
      exact .reading heq
    | _ => cases hperm.nil_eq
  | gaveUp hperm hstate hanswered =>
    subst hstate hanswered
    rw [Option.toList_none, List.append_nil, List.append_nil]
    cases hs with
    | busy heq =>
      obtain ⟨rfl, rfl⟩ := List.cons.inj (List.singleton_perm.mp hperm)
      exact .closed heq
    | _ => cases hperm.nil_eq

/-- So a connection that reads on has had its answers. -/
theorem Stands.reads {frames answers : List Bytes} {state : ConnState} {calls : List Bytes}
    (hs : Stands frames answers state calls) :
    (state = .reading ∧ frames = answers) ∨
      state ≠ .reading ∧ ∃ packet, frames = answers ++ [packet] := by
  cases hs with
  | reading heq => exact .inl ⟨rfl, heq⟩
  | busy heq | closed heq => exact .inr ⟨by decide, _, heq⟩

/-- The frames read on a connection. -/
def framesOf (client : Client) (es : List Input) : List Bytes := es.filterMap (Input.frame client)

/-- **Replies come in the order of the frames.** In any run from the start, whatever
other clients, administrators and upstreams do, the replies to a TCP client answer the
frames read on its connection one for one, in order: all of them while the connection
reads on; all but the last while that waits for upstream or after it has failed, when
nothing more is read or sent. -/
theorem replies_in_order {runtime : Runtime} {acl : Acl} {config : RuntimeConfig}
    {blockList allowList : DomainSet} {es : List Input} {t : Server} {outs : List Output}
    (hrun : (machine display).run (start runtime acl config blockList allowList) es =
      some (t, outs)) (htcp : client.listener.isTcp = true) :
    (t.conns client = .reading ∧ framesOf client es = answeredTo client outs) ∨
      t.conns client ≠ .reading ∧
        ∃ packet, framesOf client es = answeredTo client outs ++ [packet] := by
  have hend : t.ColdUdp ∧ Stands (framesOf client es) (answeredTo client outs)
      (t.conns client) (callsOf client t) := by
    have hstep : ∀ l h s e s' out, (s.ColdUdp ∧ Stands (framesOf client l)
        (answeredTo client h) (s.conns client) (callsOf client s)) →
        (machine display).step s e = some (s', out) →
          s'.ColdUdp ∧ Stands (framesOf client (l ++ [e])) (answeredTo client (h ++ out))
            (s'.conns client) (callsOf client s') := by
      rintro l h s e s' out ⟨hcold, hstands⟩ hs
      refine ⟨step_coldUdp hcold hs, ?_⟩
      have hframe : framesOf client (l ++ [e]) =
          framesOf client l ++ (e.frame client).toList := by
        rw [framesOf, List.filterMap_append, List.filterMap_cons]
        cases e.frame client <;> rfl
      rw [hframe, answeredTo_append]
      exact hstands.moves (step_moves htcp hcold hs)
    have hrule := Machine.run_trace (J := fun l h s => s.ColdUdp ∧ Stands (framesOf client l)
      (answeredTo client h) (s.conns client) (callsOf client s)) hstep (l := []) (h := [])
        ⟨fun _ hr => absurd hr List.not_mem_nil, .reading rfl⟩ hrun
    exact hrule
  exact hend.2.reads

/-- Two frames, the second read after the first is answered; between them another
client asks the same, and is answered first. -/
def Sample.frames : List Input :=
  [Denis.Sample.ask (Denis.Sample.client .serverTcp 1) 7 0,
    Denis.Sample.ask (Denis.Sample.client .tokioUdp 2) 9 0,
    .datagram 1 Denis.Sample.resolver Denis.Sample.resolver
      (Denis.Sample.answer 9 Denis.Sample.name) (Denis.Sample.clock 1),
    Denis.Sample.answered 7 2, Denis.Sample.ask (Denis.Sample.client .serverTcp 1) 8 3]

/-- Both are answered, in order. -/
theorem Sample.both_answered : ∃ t outs,
    (machine Denis.Sample.display).run (start .tokio ⟨[]⟩ Denis.Sample.config ∅ ∅)
      Sample.frames = some (t, outs) ∧
    answeredTo (Denis.Sample.client .serverTcp 1) outs =
      [Denis.Sample.packet 7 Denis.Sample.name, Denis.Sample.packet 8 Denis.Sample.name] := by
  obtain ⟨⟨t, outs⟩, hrun, hreading⟩ := Option.map_eq_some_iff.mp
    (show ((machine Denis.Sample.display).run (start .tokio ⟨[]⟩ Denis.Sample.config ∅ ∅)
        Sample.frames).map (fun p => p.1.conns (Denis.Sample.client .serverTcp 1)) =
      some .reading by decide +kernel)
  have hframes : framesOf (Denis.Sample.client .serverTcp 1) Sample.frames =
      [Denis.Sample.packet 7 Denis.Sample.name, Denis.Sample.packet 8 Denis.Sample.name] := by
    decide +kernel
  have htcp : (Denis.Sample.client .serverTcp 1).listener.isTcp = true := rfl
  rcases replies_in_order hrun htcp with ⟨-, heq⟩ | ⟨hnot, -⟩
  · exact ⟨t, outs, hrun, heq ▸ hframes⟩
  · exact absurd hreading hnot

end Server

end Denis
