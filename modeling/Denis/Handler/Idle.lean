import Mathlib.Data.List.InsertIdx
import Mathlib.Data.List.Nodup
import Mathlib.Data.List.Perm.Basic
import Denis.Handler.Query
import Denis.Handler.Sockets

/-!
# Pooled sockets are idle (`handler/upstream.rs`)

The next owner of a pooled socket takes the first datagram with its id for its
answer, so nothing of an earlier exchange may be left on the way to it. Over a
network that answers each query at most once (`single`), `Accounted` counts the
datagrams on their way to a socket: at most one while a call waits on it, and
none otherwise. Every step of every call keeps that (`accounted_step`), for a
timeout or an error leaves its socket closed, and the datagram still in flight
belongs to no later socket of the port.

The main result is `pooled_sockets_idle`, over every run and any number of
calls.
-/

namespace Denis

open Text

namespace UpstreamPool

/-! ## What is on its way to a socket -/

/-- Some call is in the receive loop on the socket of `port`. -/
def Waits (s : UpstreamPool) (port : UInt16) : Prop :=
  ∃ i c, s.calls i = some c ∧ c.phase = .waiting port

/-- Replacing a call that does not wait on `port` leaves those that do. -/
theorem waits_setCall {s : UpstreamPool} {i : Nat} {port : UInt16} {c' : Option Call}
    (hi : ∀ c, s.calls i = some c → c.phase ≠ .waiting port) (h : s.Waits port) :
    (s.setCall i c').Waits port := by
  obtain ⟨j, c, hcall, hphase⟩ := h
  refine ⟨j, c, ?_, hphase⟩
  rw [setCall_other]
  · exact hcall
  · rintro rfl
    exact hi c hcall hphase

/-- A network that duplicates no datagram, and by which a socket is reached only
by the answer to a query that was sent from it. -/
def single (s : Watched) : Move → Bool
  | .event (.duplicate _) => false
  | .event (.deliver j) =>
    match s.pool.network[j]? with
    | some (.response _ port _) =>
      (s.pool.queues port).isNone || decide (s.senders[j]? = some (s.socket port))
    | _ => true
  | .stray port _ _ => (s.pool.queues port).isNone
  | _ => true

/-- Nothing is queued on the socket of `port`, and no datagram in flight is a
query sent from it or the answer to one. -/
structure Idle (s : Watched) (port : UInt16) : Prop where
  queue : s.pool.queues port = some []
  network : ∀ (j : Nat) (d : Datagram), s.pool.network[j]? = some d →
    ∃ sender, s.senders[j]? = some sender ∧ sender.port = d.port ∧ sender ≠ s.socket port

/-- The datagrams on their way to the socket of `port`: those in flight and
those in its queue. -/
def Watched.load (s : Watched) (port : UInt16) : Nat :=
  s.senders.count (s.socket port) + ((s.pool.queues port).getD []).length

/-- At most one datagram is on its way to an open socket, and none unless a
call waits for it. -/
def Quiet (s : Watched) (port : UInt16) : Prop :=
  s.pool.queues port ≠ none → s.load port ≤ 1 ∧ (¬ s.pool.Waits port → s.load port = 0)

/-- The senders are those of the datagrams in flight, bound by now, and every
socket is quiet. -/
structure Accounted (s : Watched) : Prop where
  aligned : s.senders.map Socket.port = s.pool.network.map Datagram.port
  past : ∀ x ∈ s.senders, x.serial ≤ s.serial x.port
  quiet : ∀ port, Quiet s port

section Accounted

variable {s s' : Watched} {i j : Nat} {port : UInt16} {d : Datagram}

theorem Quiet.mono (h : Quiet s port)
    (hopen : s'.pool.queues port ≠ none → s.pool.queues port ≠ none)
    (hload : s'.load port ≤ s.load port) (hwaits : s.pool.Waits port → s'.pool.Waits port) :
    Quiet s' port := by
  intro hport
  obtain ⟨hone, hidle⟩ := h (hopen hport)
  refine ⟨hload.trans hone, fun hnot => ?_⟩
  have hzero := hidle fun hw => hnot (hwaits hw)
  omega

/-- The sender of a datagram in flight. -/
theorem Accounted.sender (hs : Accounted s) (hd : s.pool.network[j]? = some d) :
    ∃ sender, s.senders[j]? = some sender ∧ sender.port = d.port := by
  have hport := congrArg (·[j]?) hs.aligned
  rw [List.getElem?_map, List.getElem?_map, hd, Option.map_some] at hport
  exact Option.map_eq_some_iff.mp hport

/-- A pooled socket is idle. -/
theorem Accounted.idle (hs : Accounted s) (hexcl : Exclusive s.pool)
    (hport : port ∈ s.pool.sockets) : Idle s port := by
  have hopen := hexcl.pooled hport
  have hload : s.load port = 0 := by
    refine (hs.quiet port hopen).2 ?_
    rintro ⟨i, c, hcall, hphase⟩
    exact hexcl.apart ⟨c, hcall, by rw [hphase]; rfl⟩ hport
  obtain ⟨hsenders, hqueue⟩ := Nat.add_eq_zero_iff.mp hload
  refine ⟨?_, fun j d hd => ?_⟩
  · obtain ⟨queue, hq⟩ := Option.ne_none_iff_exists'.mp hopen
    rw [hq] at hqueue ⊢
    exact congrArg some (List.length_eq_zero_iff.mp hqueue)
  · obtain ⟨sender, hsender, hsame⟩ := hs.sender hd
    refine ⟨sender, hsender, hsame, ?_⟩
    rintro rfl
    exact List.count_eq_zero.mp hsenders (List.mem_of_getElem? hsender)

/-- Taking out the datagram at one place. -/
theorem count_eraseIdx {α : Type} [DecidableEq α] {xs : List α} {x : α} (h : xs[j]? = some x)
    (y : α) : (xs.eraseIdx j).count y + [x].count y = xs.count y := by
  obtain ⟨hlt, rfl⟩ := List.getElem?_eq_some_iff.mp h
  have hperm := (List.getElem_cons_eraseIdx_perm hlt).count_eq y
  rw [← List.singleton_append, List.count_append] at hperm
  omega

/-- Steps of the calls: what is in flight and in the open sockets stays, and so
do the calls that wait on them. -/
theorem Accounted.mono (hs : Accounted s) (hsenders : s'.senders = s.senders)
    (hnetwork : s'.pool.network = s.pool.network) (hserial : s'.serial = s.serial)
    (hopen : ∀ p, s'.pool.queues p ≠ none →
      s'.pool.queues p = s.pool.queues p ∧ (s.pool.Waits p → s'.pool.Waits p)) :
    Accounted s' where
  aligned := by rw [hsenders, hnetwork, hs.aligned]
  past := by
    rw [hsenders, hserial]
    exact hs.past
  quiet := by
    intro p hp
    obtain ⟨hqueue, hwaits⟩ := hopen p hp
    refine (hs.quiet p).mono (fun h => hqueue ▸ h) ?_ hwaits hp
    rw [Watched.load, Watched.load, Watched.socket, Watched.socket, hsenders, hserial, hqueue]

/-- Reading the one datagram queued on a socket, which may close it. -/
theorem Accounted.poll (hs : Accounted s) {x : SocketAddr × Bytes}
    {queue : List (SocketAddr × Bytes)} (hqueue : s.pool.queues port = some (x :: queue))
    (hsenders : s'.senders = s.senders) (hnetwork : s'.pool.network = s.pool.network)
    (hserial : s'.serial = s.serial)
    (hport : s'.pool.queues port ≠ none → s'.pool.queues port = some queue)
    (hother : ∀ p, p ≠ port →
      s'.pool.queues p = s.pool.queues p ∧ (s.pool.Waits p → s'.pool.Waits p)) :
    Accounted s' where
  aligned := by rw [hsenders, hnetwork, hs.aligned]
  past := by
    rw [hsenders, hserial]
    exact hs.past
  quiet := by
    intro p hp
    have hload : s'.load p = s.senders.count (s.socket p) +
        ((s'.pool.queues p).getD []).length := by
      rw [Watched.load, Watched.socket, hsenders, hserial, Watched.socket]
    by_cases heq : p = port
    · subst heq
      have hone := (hs.quiet p (by rw [hqueue]; exact Option.some_ne_none _)).1
      rw [Watched.load, hqueue, Option.getD_some, List.length_cons] at hone
      rw [hload, hport hp, Option.getD_some]
      exact ⟨by omega, fun _ => by omega⟩
    · obtain ⟨hsame, hwaits⟩ := hother p heq
      refine (hs.quiet p).mono (fun h => hsame ▸ h) ?_ hwaits hp
      rw [hload, hsame, Watched.load]

/-- A datagram leaves the network, and may be queued on the socket its query
was sent from. -/
theorem Accounted.erase (hs : Accounted s) (hsenders : s'.senders = s.senders.eraseIdx j)
    (hnetwork : s'.pool.network = s.pool.network.eraseIdx j) (hserial : s'.serial = s.serial)
    (hwaits : ∀ p, s.pool.Waits p → s'.pool.Waits p)
    (hqueues : ∀ p, s'.pool.queues p = s.pool.queues p ∨
      ∃ queue x, s.senders[j]? = some (s.socket p) ∧ s.pool.queues p = some queue ∧
        s'.pool.queues p = some (queue ++ [x])) : Accounted s' where
  aligned := by
    rw [hsenders, hnetwork, ← List.eraseIdx_map, hs.aligned, List.eraseIdx_map]
  past := by
    rw [hsenders, hserial]
    exact fun x hx => hs.past x (List.mem_of_mem_eraseIdx hx)
  quiet := by
    intro p
    have hload : s'.load p = (s.senders.eraseIdx j).count (s.socket p) +
        ((s'.pool.queues p).getD []).length := by
      rw [Watched.load, Watched.socket, hsenders, hserial, Watched.socket]
    rcases hqueues p with hsame | ⟨queue, x, hsender, hqueue, hqueue'⟩
    · refine (hs.quiet p).mono (fun h => hsame ▸ h) ?_ (hwaits p)
      have hcount := (List.eraseIdx_sublist s.senders j).count_le (s.socket p)
      rw [hload, hsame, Watched.load]
      omega
    · -- one less in flight, one more queued
      refine (hs.quiet p).mono (fun _ => by rw [hqueue]; exact Option.some_ne_none _) ?_ (hwaits p)
      have hcount := count_eraseIdx hsender (s.socket p)
      rw [List.count_singleton_self] at hcount
      rw [hload, hqueue', Option.getD_some, List.length_append, List.length_singleton,
        Watched.load, hqueue, Option.getD_some]
      omega

/-- A query in flight becomes its answer. -/
theorem Accounted.answered (hs : Accounted s) {server : SocketAddr} {query bytes : Bytes}
    (hquery : s.pool.network[j]? = some (.query port server query)) :
    Accounted ⟨{ s.pool with
      network := s.pool.network.eraseIdx j ++ [Datagram.response server port bytes] }, s.serial,
      s.senders.eraseIdx j ++ s.senders[j]?.toList⟩ := by
  obtain ⟨sender, hsender, hport⟩ := hs.sender hquery
  rw [hsender, Option.toList_some]
  refine ⟨?_, ?_, fun p => ?_⟩
  · show (_ ++ [sender]).map Socket.port = (_ ++ [Datagram.response server port bytes]).map _
    rw [List.map_append, List.map_append, ← List.eraseIdx_map, hs.aligned, List.eraseIdx_map,
      List.map_singleton, List.map_singleton, hport]
    rfl
  · intro x hx
    rcases List.mem_append.mp hx with hx | hx
    · exact hs.past x (List.mem_of_mem_eraseIdx hx)
    · obtain rfl := List.mem_singleton.mp hx
      exact hs.past x (List.mem_of_getElem? hsender)
  · refine (hs.quiet p).mono id (le_of_eq ?_) id
    show (_ ++ [sender]).count (s.socket p) + _ = _
    rw [List.count_append, count_eraseIdx hsender]
    rfl

/-- A query is sent from a socket that nothing is on its way to. -/
theorem Accounted.sent (hs : Accounted s) (hexcl : Exclusive s.pool) {c : Call}
    (hcall : s.pool.calls i = some c) (hphase : c.phase = .ready port) :
    Accounted ⟨{ s.pool with
      network := s.pool.network ++ [Datagram.query port c.server c.query.raw] }.setCall i
        (some { c with phase := .waiting port }), s.serial, s.senders ++ [s.socket port]⟩ := by
  have hnot : ¬ s.pool.Waits port := by
    rintro ⟨k, c', hcall', hphase'⟩
    obtain rfl := hexcl.one ⟨c, hcall, by rw [hphase]; rfl⟩ ⟨c', hcall', by rw [hphase']; rfl⟩
    obtain rfl := Option.some.inj (hcall.symm.trans hcall')
    rw [hphase] at hphase'
    cases hphase'
  refine ⟨?_, ?_, fun p => ?_⟩
  · show (_ ++ [s.socket port]).map Socket.port = (_ ++ [Datagram.query ..]).map _
    rw [List.map_append, List.map_append, hs.aligned]
    rfl
  · intro x hx
    rcases List.mem_append.mp hx with hx | hx
    · exact hs.past x hx
    · obtain rfl := List.mem_singleton.mp hx
      exact le_refl _
  · by_cases heq : p = port
    · subst heq
      intro hp
      have hzero := (hs.quiet p hp).2 hnot
      refine ⟨?_, fun hnone => absurd ⟨i, _, setCall_self _, rfl⟩ hnone⟩
      rw [Watched.load] at hzero
      show (_ ++ [s.socket p]).count (s.socket p) + ((s.pool.queues p).getD []).length ≤ 1
      rw [List.count_append, List.count_singleton_self]
      omega
    · refine (hs.quiet p).mono id (le_of_eq ?_) fun hw => ?_
      · show (_ ++ [s.socket port]).count (s.socket p) + _ = _
        rw [List.count_append, List.count_singleton, if_neg (by simp [Watched.socket, Ne.symm heq])]
        rfl
      · obtain ⟨k, c', hcall', hphase'⟩ := hw
        refine waits_setCall (fun c' hc' => ?_) ⟨k, c', hcall', hphase'⟩
        obtain rfl := Option.some.inj (hcall.symm.trans hc')
        rw [hphase]
        rintro ⟨⟩

/-- A new socket is bound to a port that has none. -/
theorem Accounted.bound (hs : Accounted s) {c : Call} (hcall : s.pool.calls i = some c)
    (hphase : c.phase = .starting) (hport : s.pool.queues port = none) :
    Accounted ⟨(s.pool.setQueue port (some [])).setCall i (some { c with phase := .ready port }),
      Function.update s.serial port (s.serial port + 1), s.senders⟩ := by
  have hle : ∀ q, s.serial q ≤ Function.update s.serial port (s.serial port + 1) q := by
    intro q
    by_cases heq : q = port
    · subst heq
      rw [Function.update_self]
      exact Nat.le_succ _
    · rw [Function.update_of_ne heq]
  refine ⟨hs.aligned, fun x hx => (hs.past x hx).trans (hle _), fun p => ?_⟩
  by_cases heq : p = port
  · subst heq
    intro _
    -- whatever is in flight was sent from a socket bound before
    have hfresh : s.senders.count ⟨p, Function.update s.serial p (s.serial p + 1) p⟩ = 0 := by
      refine List.count_eq_zero.mpr fun hmem => ?_
      have hpast := hs.past _ hmem
      rw [Function.update_self] at hpast
      exact absurd hpast (Nat.not_succ_le_self _)
    have hload : s.senders.count ⟨p, Function.update s.serial p (s.serial p + 1) p⟩ +
        (((s.pool.setQueue p (some [])).queues p).getD []).length = 0 := by
      rw [hfresh, setQueue_self]
      rfl
    exact ⟨(le_of_eq hload).trans (Nat.zero_le _), fun _ => hload⟩
  · have hqueue : (s.pool.setQueue port (some [])).queues p = s.pool.queues p := setQueue_other heq
    refine (hs.quiet p).mono (fun h => hqueue ▸ h) (le_of_eq ?_) fun hw => ?_
    · show s.senders.count ⟨p, Function.update s.serial port (s.serial port + 1) p⟩ +
        (((s.pool.setQueue port (some [])).queues p).getD []).length = _
      rw [Function.update_of_ne heq, hqueue]
      rfl
    · refine waits_setCall (fun c' hc' => ?_) hw
      obtain rfl := Option.some.inj (hcall.symm.trans hc')
      rw [hphase]
      rintro ⟨⟩

/-- A call that closes its socket, if it has one, and goes on without. -/
theorem Accounted.drop (hs : Accounted s) {c : Call} (hcall : s.pool.calls i = some c)
    (c' : Option Call) : Accounted ⟨(s.pool.drop c.phase).setCall i c', s.serial, s.senders⟩ := by
  refine hs.mono rfl ?_ rfl fun p hp => ?_
  · show (s.pool.drop c.phase).network = _
    unfold UpstreamPool.drop
    split <;> rfl
  · have hp' : (s.pool.drop c.phase).queues p ≠ none := hp
    have hne : c.phase.port ≠ some p := by
      intro hport
      rw [UpstreamPool.drop, hport] at hp'
      exact hp' (setQueue_self _)
    refine ⟨?_, fun hw => waits_setCall (fun d hd => ?_) (by rwa [Waits, drop_calls])⟩
    · show (s.pool.drop c.phase).queues p = _
      unfold UpstreamPool.drop
      split
      · next port hport =>
        refine setQueue_other ?_
        rintro rfl
        exact hne hport
      · rfl
    · rw [drop_calls] at hd
      obtain rfl := Option.some.inj (hcall.symm.trans hd)
      intro hphase
      exact hne (by rw [hphase]; rfl)

/-- A datagram arrives at its port, and only at the socket it is meant for. -/
theorem Accounted.delivered (hs : Accounted s) (hsingle : single s (.event (.deliver j)) = true)
    {pool : UpstreamPool} {out : List Resolution} (h : s.pool.deliver j = some (pool, out)) :
    Accounted ⟨pool, s.serial, s.senders.eraseIdx j⟩ := by
  unfold deliver at h
  split at h
  · next server port bytes hresponse =>
    dsimp only at h
    split at h
    · next queue hqueue =>
      cases h
      have hsender : s.senders[j]? = some (s.socket port) := by
        simpa only [single, hresponse, hqueue, Option.isNone_some, Bool.false_or,
          decide_eq_true_eq] using hsingle
      refine hs.erase rfl rfl rfl (fun _ => id) fun p => ?_
      by_cases heq : p = port
      · subst heq
        exact .inr ⟨queue, _, hsender, hqueue, setQueue_self _⟩
      · exact .inl (setQueue_other heq)
    · cases h
      exact hs.erase rfl rfl rfl (fun _ => id) fun _ => .inl rfl
  · cases h

/-- A call that accepts the datagram queued on its socket and gives the socket
back. -/
theorem Accounted.giveBack (hs : Accounted s) {c : Call} (hcall : s.pool.calls i = some c)
    (hphase : c.phase = .waiting port) {x : SocketAddr × Bytes} {queue : List (SocketAddr × Bytes)}
    (hqueue : s.pool.queues port = some (x :: queue)) :
    Accounted ⟨((s.pool.setQueue port (some queue)).push port).setCall i none, s.serial,
      s.senders⟩ := by
  refine hs.poll hqueue rfl ?_ rfl (fun hopen => ?_) fun p hp => ⟨?_, fun hw => ?_⟩
  · show ((s.pool.setQueue port (some queue)).push port).network = _
    unfold push
    split <;> rfl
  · change ((s.pool.setQueue port (some queue)).push port).queues port ≠ none at hopen
    show ((s.pool.setQueue port (some queue)).push port).queues port = _
    unfold push at hopen ⊢
    split
    · exact setQueue_self _
    · next hfull =>
      rw [if_neg hfull] at hopen
      exact absurd (setQueue_self _) hopen
  · show ((s.pool.setQueue port (some queue)).push port).queues p = _
    unfold push
    split
    · exact setQueue_other hp
    · exact (setQueue_other hp).trans (setQueue_other hp)
  · refine waits_setCall (fun d hd => ?_) (by rwa [Waits, push_calls])
    rw [push_calls] at hd
    obtain rfl := Option.some.inj (hcall.symm.trans hd)
    rw [hphase]
    rintro ⟨⟩
    exact hp rfl

/-- **Step lemma**: where no datagram comes twice or from nowhere, what is on
its way to the sockets stays accounted for. -/
theorem accounted_step {m : Move} {new : List Note} (hs : Accounted s) (hexcl : Exclusive s.pool)
    (hsingle : single s m = true) (hstep : s.step m = some (s', new)) : Accounted s' := by
  obtain ⟨pool, out, hmove, rfl, rfl⟩ := Watched.step_eq_some hstep
  cases m with
  | respond j bytes =>
    rw [move] at hmove
    split at hmove
    · next port server query hquery =>
      cases hmove
      exact hs.answered hquery
    · cases hmove
  | stray port src bytes =>
    -- admitted only where no socket is bound to the port
    rw [move, show s.pool.queues port = none from Option.isNone_iff_eq_none.mp hsingle] at hmove
    cases hmove
    exact hs
  | event e =>
    change s.pool.step e = some (pool, out) at hmove
    cases e with
    | duplicate j => cases hsingle
    | answer j bytes =>
      change s.pool.answer j bytes = _ at hmove
      unfold answer at hmove
      split at hmove
      · next port server query hquery =>
        split at hmove
        · cases hmove
          exact hs.answered hquery
        · cases hmove
      · cases hmove
    | lose j =>
      cases hmove
      exact hs.erase rfl rfl rfl (fun _ => id) fun _ => .inl rfl
    | deliver j => exact hs.delivered hsingle hmove
    | resolve i query servers =>
      cases step_transition hmove with
      | unconfigured => exact hs
      | started hfree =>
        refine hs.mono rfl rfl rfl fun p _ => ⟨rfl, waits_setCall fun c hc => ?_⟩
        rw [hfree] at hc
        cases hc
    | acquire i port =>
      cases step_transition hmove with
      | @popped _ _ c rest hcall hphase hsockets =>
        -- the socket is the one it was, and the call that takes it has sent nothing
        refine hs.mono rfl rfl ?_ fun p _ => ⟨rfl, fun hw => waits_setCall (fun d hd => ?_) hw⟩
        · show s.serialAfter (.event (.acquire i port)) = _
          rw [Watched.serialAfter, if_neg (by simp [hsockets])]
        · obtain rfl := Option.some.inj (hcall.symm.trans hd)
          rw [hphase]
          rintro ⟨⟩
      | bound hcall hphase hsockets hport =>
        -- a new socket on the port: nothing in flight was sent from it
        have hserial : s.serialAfter (.event (.acquire i port)) =
            Function.update s.serial port (s.serial port + 1) := by
          rw [Watched.serialAfter, if_pos hsockets]
        rw [hserial]
        exact hs.bound hcall hphase hport
    | send i =>
      cases step_transition hmove with
      | @sent _ port c hcall hphase =>
        have hsenders : s.sendersAfter (.event (.send i)) = s.senders ++ [s.socket port] := by
          rw [Watched.sendersAfter, Watched.socketOf, hcall, Option.bind_some, hphase]
          rfl
        rw [hsenders]
        exact hs.sent hexcl hcall hphase
    | fail i e =>
      cases step_transition hmove with
      | retried hcall => exact hs.drop hcall _
      | failed hcall => exact hs.drop hcall _
    | receive i =>
      cases step_transition hmove with
      | skipped hqueue =>
        exact hs.poll hqueue rfl rfl rfl (fun _ => setQueue_self _) fun p hp =>
          ⟨setQueue_other hp, id⟩
      | returned hcall hphase hqueue => exact hs.giveBack hcall hphase hqueue

end Accounted

/-! ## Runs -/

section Runs

variable {ports : List UInt16}

theorem recorded_new (hports : ports.Nodup) (hlen : ports.length ≤ poolSize) :
    Recorded [] (.new ports) where
  exclusive := exclusive_new hports
  size := hlen
  past := by simp
  pooled := fun _ _ => ⟨[], rfl⟩
  held := by
    rintro i port ⟨c, hcall, -⟩
    cases hcall

theorem accounted_new (ports : List UInt16) : Accounted (.new ports) := by
  refine ⟨rfl, by simp [Watched.new], fun port _ => ?_⟩
  have hload : (Watched.new ports).load port = 0 := by
    rw [Watched.load]
    show _ + ((if port ∈ ports then some [] else none : Option _).getD []).length = 0
    split <;> rfl
  exact ⟨(le_of_eq hload).trans (Nat.zero_le _), fun _ => hload⟩

/-- **Pooled sockets are idle and exclusively owned.** In every run of the pool
from the sockets it could bind, whatever the network does, no socket is in two
hands, the pool keeps its size, and every exchange a pooled socket has behind
it accepted a response; where the network is `single`, nothing is on its way to
a pooled socket. -/
theorem pooled_sockets_idle {bind : Nat → Option UInt16}
    (hbind : ∀ i j port, bind i = some port → bind j = some port → i = j)
    {moves : List Move} {t : Watched} {notes : List Note}
    (hrun : Watched.machine.run (.new (openPorts bind)) moves = some (t, notes)) :
    (t.pool.sockets.Nodup ∧ (∀ i port, t.pool.Holds i port → port ∉ t.pool.sockets) ∧
      ∀ i j port, t.pool.Holds i port → t.pool.Holds j port → i = j) ∧
    (∀ port ∈ t.pool.sockets, Settled notes (t.socket port)) ∧
    t.pool.sockets.length ≤ poolSize ∧
    (Watched.machine.Along (fun s m => single s m = true) (.new (openPorts bind)) moves →
      ∀ port ∈ t.pool.sockets, Idle t port) := by
  have hnodup : (openPorts bind).Nodup :=
    List.Nodup.filterMap hbind List.nodup_range
  have hlen : (openPorts bind).length ≤ poolSize := by
    have hle := List.length_filterMap_le bind (List.range poolSize)
    rwa [List.length_range] at hle
  have hrecorded := Machine.run_history (M := Watched.machine) (C := fun _ _ => True)
    (J := Recorded) (h := []) (fun h s m s' out hJ _ hstep => recorded_step hJ hstep)
    (recorded_new hnodup hlen) (Machine.along_true _ _) hrun
  rw [List.nil_append] at hrecorded
  have hexcl := hrecorded.exclusive
  refine ⟨⟨hexcl.nodup, fun _ _ h => hexcl.apart h, fun _ _ _ h h' => hexcl.one h h'⟩,
    hrecorded.pooled, hrecorded.size, fun hsingle port hport => ?_⟩
  have haccounted := Machine.run_history (M := Watched.machine) (C := fun s m => single s m = true)
    (J := fun h s => Recorded h s ∧ Accounted s) (h := [])
    (fun h s m s' out hJ hC hstep =>
      ⟨recorded_step hJ.1 hstep, accounted_step hJ.2 hJ.1.exclusive hC hstep⟩)
    ⟨recorded_new hnodup hlen, accounted_new _⟩ hsingle hrun
  exact haccounted.2.idle hexcl hport

end Runs

end UpstreamPool

/-! ## A socket dropped and its port bound again -/

namespace Sample

open UpstreamPool

/-- One `bind` of the 256 gets a port. -/
def onePort (i : Nat) : Option UInt16 := if i = 0 then some 5000 else none

/-- Call `i` takes a socket on port 5000 and sends its query. -/
def asksAgain (i : Nat) (id : UInt8) : List Move :=
  [.event (.resolve i (query id) [resolver]), .event (.acquire i 5000), .event (.send i)]

/-- The first call times out with its query in flight; the second gets an answer
on a new socket of the same port. -/
def reboundRun : List Move :=
  asksAgain 0 7 ++ [.event (.fail 0 .timeout)] ++ asksAgain 1 9 ++
    [.respond 1 (answer 9 name), .event (.deliver 1), .event (.receive 1)]

end Sample

namespace UpstreamPool

/-- The new socket is pooled and idle; the first query is still in flight. -/
theorem rebound_socket_idle :
    ∃ t notes, Watched.machine.run (.new (openPorts Sample.onePort)) Sample.reboundRun =
        some (t, notes) ∧ t.pool.sockets = [5000] ∧ t.pool.network.length = 1 ∧
      Settled notes (t.socket 5000) ∧ Idle t 5000 := by
  obtain ⟨⟨t, notes⟩, hrun, hstate⟩ := Option.map_eq_some_iff.mp
    (show (Watched.machine.run (.new (openPorts Sample.onePort)) Sample.reboundRun).map (fun p =>
        decide (p.1.pool.sockets = [5000] ∧ p.1.pool.network.length = 1)) = some true
      by decide +kernel)
  have hbind : ∀ i j port, Sample.onePort i = some port → Sample.onePort j = some port → i = j := by
    intro i j port hi hj
    unfold Sample.onePort at hi hj
    split at hi
    · next hi0 =>
      split at hj
      · next hj0 => rw [hi0, hj0]
      · cases hj
    · cases hi
  obtain ⟨hsockets, hnetwork⟩ := of_decide_eq_true hstate
  have hmem : (5000 : UInt16) ∈ t.pool.sockets := by
    rw [hsockets]
    exact List.mem_singleton_self _
  obtain ⟨-, hsettled, -, hidle⟩ := pooled_sockets_idle hbind hrun
  exact ⟨t, notes, hrun, hsockets, hnetwork, hsettled 5000 hmem,
    hidle (by decide +kernel) 5000 hmem⟩

end UpstreamPool

end Denis
