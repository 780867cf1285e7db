import Denis.Handler.Pool

/-!
# The pool's sockets, watched (`handler/upstream.rs`)

`query_dns` pushes a socket back only when its exchange returned a response
(upstream.rs:200–202). This module watches the pool over a network that may do
anything and keeps, beside its state, what that sentence is about: which socket
is bound to a port (ports are bound again after a socket is dropped), from which
socket the query behind each datagram in flight was sent, and how each exchange
ended.

The watch adds nothing to the steps: `Watched.step` is `UpstreamPool.move`, and
its outputs are notes on exchanges. `recorded_step` keeps, under any network,
that no socket is in two hands and that a pooled socket has only exchanges
behind it that accepted a response. What that leaves on its way to a socket is
the subject of `Denis.Handler.Idle`.
-/

namespace Denis

open Text

/-- The port of the pool's socket that a datagram was sent from or is sent to. -/
def Datagram.port : Datagram → UInt16
  | .query port _ _ => port
  | .response _ port _ => port

namespace UpstreamPool

/-- The ports of the sockets `UpstreamPool::new` binds: a `bind` that fails is
passed over (`upstream.rs:156–160`). -/
def openPorts (bind : Nat → Option UInt16) : List UInt16 := (List.range poolSize).filterMap bind

/-! ## Any network -/

/-- The steps under any network: those of `Event`, an upstream that answers a
query with any bytes, and any other datagram that arrives at a port. -/
inductive Move
  | event (e : Event)
  | respond (j : Nat) (bytes : Bytes)
  | stray (port : UInt16) (src : SocketAddr) (bytes : Bytes)

/-- One step of the pool or of a network that may do anything. -/
def move (s : UpstreamPool) : Move → Option (UpstreamPool × List Resolution)
  | .event e => s.step e
  | .respond j bytes =>
    match s.network[j]? with
    | some (.query port server _) =>
      some ({ s with network := s.network.eraseIdx j ++ [Datagram.response server port bytes] }, [])
    | _ => none
  | .stray port src bytes =>
    match s.queues port with
    | some queue => some (s.setQueue port (some (queue ++ [(src, bytes)])), [])
    | none => some (s, [])

/-! ## Watching the sockets -/

/-- A socket: its port, and how many were bound there before it. -/
structure Socket where
  port : UInt16
  serial : Nat
  deriving DecidableEq

/-- What becomes of the exchange that call `i` runs on a socket. -/
inductive Note
  | began (socket : Socket) (i : Nat)
  | accepted (socket : Socket) (i : Nat)
  | broken (socket : Socket) (i : Nat)
  deriving DecidableEq

/-- The socket a note is about. -/
def Note.socket : Note → Socket
  | .began socket _ => socket
  | .accepted socket _ => socket
  | .broken socket _ => socket

/-- The pool, the sockets bound so far and, for each datagram in flight, the
socket its query was sent from. -/
structure Watched where
  pool : UpstreamPool
  serial : UInt16 → Nat
  senders : List Socket

namespace Watched

/-- The pool when it is new. -/
def new (ports : List UInt16) : Watched := ⟨UpstreamPool.new ports, fun _ => 0, []⟩

/-- The socket bound to a port, or the last that was. -/
def socket (s : Watched) (port : UInt16) : Socket := ⟨port, s.serial port⟩

/-- The socket call `i` holds. -/
def socketOf (s : Watched) (i : Nat) : Option Socket :=
  (s.pool.calls i).bind fun c => c.phase.port.map s.socket

/-- `bind` opens a new socket on its port; `pop` hands out an old one. -/
def serialAfter (s : Watched) : Move → UInt16 → Nat
  | .event (.acquire _ port) =>
    if s.pool.sockets = [] then Function.update s.serial port (s.serial port + 1) else s.serial
  | _ => s.serial

/-- The senders follow the datagrams: an answer has the sender of its query. -/
def sendersAfter (s : Watched) : Move → List Socket
  | .event (.send i) => s.senders ++ (s.socketOf i).toList
  | .event (.answer j _) => s.senders.eraseIdx j ++ s.senders[j]?.toList
  | .respond j _ => s.senders.eraseIdx j ++ s.senders[j]?.toList
  | .event (.duplicate j) => s.senders ++ s.senders[j]?.toList
  | .event (.lose j) => s.senders.eraseIdx j
  | .event (.deliver j) => s.senders.eraseIdx j
  | _ => s.senders

/-- An exchange begins once its socket is taken; it is broken by any error or
the timeout, and has accepted a response when one is returned. -/
def notes (s : Watched) (out : List Resolution) : Move → List Note
  | .event (.acquire i port) =>
    [.began ⟨port, s.serialAfter (.event (.acquire i port)) port⟩ i]
  | .event (.fail i _) => (s.socketOf i).toList.map (.broken · i)
  | .event (.receive i) => if out = [] then [] else (s.socketOf i).toList.map (.accepted · i)
  | _ => []

/-- A step of the pool, watched. -/
def step (s : Watched) (m : Move) : Option (Watched × List Note) :=
  match s.pool.move m with
  | some (pool, out) => some (⟨pool, s.serialAfter m, s.sendersAfter m⟩, s.notes out m)
  | none => none

/-- The watched pool as a machine. -/
abbrev machine : Machine Watched Move Note := ⟨step⟩

theorem step_eq_some {s s' : Watched} {m : Move} {new : List Note}
    (h : s.step m = some (s', new)) :
    ∃ pool out, s.pool.move m = some (pool, out) ∧
      s' = ⟨pool, s.serialAfter m, s.sendersAfter m⟩ ∧ new = s.notes out m := by
  unfold step at h
  split at h
  · next pool out hmove =>
    cases h
    exact ⟨pool, out, hmove, rfl, rfl⟩
  · cases h

end Watched

/-- Any network leaves each socket in one pair of hands. -/
theorem exclusive_move {s s' : UpstreamPool} {m : Move} {out : List Resolution}
    (hs : Exclusive s) (h : s.move m = some (s', out)) : Exclusive s' := by
  cases m with
  | event e => exact exclusive_step hs h
  | respond j bytes =>
    rw [move] at h
    split at h
    · cases h
      exact hs.mono rfl id id
    · cases h
  | stray port src bytes =>
    rw [move] at h
    split at h
    · cases h
      exact hs.setQueue _
    · cases h
      exact hs

/-! ## How the exchanges of a socket ended -/

/-- The notes on one socket. -/
def notesOn (socket : Socket) (h : List Note) : List Note :=
  h.filter fun note => note.socket = socket

/-- Exchanges on one socket, one after the other, each ended by an accepted
response. -/
def exchanges (socket : Socket) (is : List Nat) : List Note :=
  is.flatMap fun i => [.began socket i, .accepted socket i]

/-- Every exchange ever run on the socket ended by accepting a response. -/
def Settled (h : List Note) (socket : Socket) : Prop :=
  ∃ is, notesOn socket h = exchanges socket is

/-- So did every exchange but the last, which call `i` is running. -/
def Running (h : List Note) (socket : Socket) (i : Nat) : Prop :=
  ∃ is, notesOn socket h = exchanges socket is ++ [.began socket i]

section Notes

variable {h : List Note} {note : Note} {socket : Socket} {i : Nat}

theorem notesOn_other (hne : note.socket ≠ socket) :
    notesOn socket (h ++ [note]) = notesOn socket h := by
  simp [notesOn, hne]

theorem notesOn_own (heq : note.socket = socket) :
    notesOn socket (h ++ [note]) = notesOn socket h ++ [note] := by
  simp [notesOn, heq]

theorem Settled.began (hs : Settled h socket) : Running (h ++ [.began socket i]) socket i := by
  obtain ⟨is, his⟩ := hs
  exact ⟨is, by rw [notesOn_own (show (Note.began socket i).socket = socket from rfl), his]⟩

theorem Running.accepted (hr : Running h socket i) :
    Settled (h ++ [.accepted socket i]) socket := by
  obtain ⟨is, his⟩ := hr
  refine ⟨is ++ [i], ?_⟩
  rw [notesOn_own (show (Note.accepted socket i).socket = socket from rfl), his, exchanges,
    exchanges, List.flatMap_append]
  simp

/-- Nothing is noted yet on a socket that is not open yet. -/
theorem settled_fresh (hfresh : ∀ note ∈ h, note.socket ≠ socket) : Settled h socket :=
  ⟨[], List.filter_eq_nil_iff.mpr fun note hnote => by simp [hfresh note hnote]⟩

end Notes

/-- What holds of every state reached and the notes so far. -/
structure Recorded (h : List Note) (s : Watched) : Prop where
  exclusive : Exclusive s.pool
  size : s.pool.sockets.length ≤ poolSize
  past : ∀ note ∈ h, note.socket.serial ≤ s.serial note.socket.port
  pooled : ∀ port ∈ s.pool.sockets, Settled h (s.socket port)
  held : ∀ i port, s.pool.Holds i port → Running h (s.socket port) i

section Recorded

variable {h : List Note} {s s' : Watched} {i : Nat} {port : UInt16} {socket : Socket} {note : Note}

/-- Steps that note nothing and hand no socket over. -/
theorem Recorded.mono (hs : Recorded h s) (hexcl : Exclusive s'.pool)
    (hsockets : s'.pool.sockets = s.pool.sockets) (hserial : s'.serial = s.serial)
    (hholds : ∀ i port, s'.pool.Holds i port → s.pool.Holds i port) :
    Recorded (h ++ []) s' := by
  rw [List.append_nil]
  refine ⟨hexcl, hsockets ▸ hs.size, hserial ▸ hs.past, ?_, ?_⟩
  · intro port hport
    have hsettled := hs.pooled port (hsockets ▸ hport)
    rwa [Watched.socket, hserial]
  · intro i port hport
    have hrunning := hs.held i port (hholds i port hport)
    rwa [Watched.socket, hserial]

/-- Steps with a note on the socket of one port: the other sockets stay as they
are. -/
theorem Recorded.noted (hs : Recorded h s) (hexcl : Exclusive s'.pool)
    (hsize : s'.pool.sockets.length ≤ poolSize) (hnote : note.socket = s'.socket port)
    (hserial : ∀ q, q ≠ port → s'.serial q = s.serial q) (hport : s.serial port ≤ s'.serial port)
    (hsockets : ∀ q ∈ s'.pool.sockets, q ≠ port → q ∈ s.pool.sockets)
    (hholds : ∀ i q, s'.pool.Holds i q → q ≠ port → s.pool.Holds i q)
    (hpooled : port ∈ s'.pool.sockets → Settled (h ++ [note]) (s'.socket port))
    (hheld : ∀ i, s'.pool.Holds i port → Running (h ++ [note]) (s'.socket port) i) :
    Recorded (h ++ [note]) s' := by
  have hsame : ∀ q, q ≠ port → s'.socket q = s.socket q ∧
      notesOn (s.socket q) (h ++ [note]) = notesOn (s.socket q) h := by
    intro q hq
    have heq : s'.socket q = s.socket q := by rw [Watched.socket, hserial q hq]; rfl
    refine ⟨heq, notesOn_other ?_⟩
    rw [hnote]
    exact fun h => hq (congrArg Socket.port h).symm
  refine ⟨hexcl, hsize, ?_, ?_, ?_⟩
  · intro x hx
    rcases List.mem_append.mp hx with hx | hx
    · by_cases hq : x.socket.port = port
      · have hle := hs.past x hx
        rw [hq] at hle ⊢
        exact hle.trans hport
      · rw [hserial _ hq]
        exact hs.past x hx
    · obtain rfl := List.mem_singleton.mp hx
      rw [hnote]
      exact le_refl _
  · intro q hq
    by_cases heq : q = port
    · subst heq
      exact hpooled hq
    · obtain ⟨is, his⟩ := hs.pooled q (hsockets q hq heq)
      obtain ⟨hsocket, hnotes⟩ := hsame q heq
      exact ⟨is, by rw [hsocket, hnotes, his]⟩
  · intro i q hq
    by_cases heq : q = port
    · subst heq
      exact hheld i hq
    · obtain ⟨is, his⟩ := hs.held i q (hholds i q hq heq)
      obtain ⟨hsocket, hnotes⟩ := hsame q heq
      exact ⟨is, by rw [hsocket, hnotes, his]⟩

/-- A call drops its socket, if it has one, and goes on without: the exchange
on it is broken. -/
theorem Recorded.drop (hs : Recorded h s) {c : Call} (hcall : s.pool.calls i = some c)
    {c' : Option Call} (hnone : ∀ c, c' = some c → c.phase.port = none)
    (hpool : s'.pool = (s.pool.drop c.phase).setCall i c') (hserial : s'.serial = s.serial) :
    Recorded (h ++ (s.socketOf i).toList.map (.broken · i)) s' := by
  have hexcl : Exclusive s'.pool := hpool ▸ hs.exclusive.drop hcall hnone
  have hsockets : s'.pool.sockets = s.pool.sockets := by rw [hpool]; simp
  have hholds : ∀ j q, s'.pool.Holds j q → j ≠ i ∧ s.pool.Holds j q := by
    intro j q hq
    rw [hpool] at hq
    obtain ⟨hj, hq⟩ := holds_without hnone hq
    rw [Holds, drop_calls] at hq
    exact ⟨hj, hq⟩
  rw [Watched.socketOf, hcall, Option.bind_some]
  cases hphase : c.phase.port with
  | none =>
    rw [Option.map_none, Option.toList_none, List.map_nil]
    exact hs.mono hexcl hsockets hserial fun j q hq => (hholds j q hq).2
  | some port =>
    -- the socket is nobody's now
    have hi : s.pool.Holds i port := ⟨c, hcall, hphase⟩
    have hsocket : s.socket port = s'.socket port := by
      rw [Watched.socket, Watched.socket, hserial]
    refine hs.noted hexcl (hsockets ▸ hs.size) hsocket (fun q _ => by rw [hserial])
      (by rw [hserial]) (fun q hq _ => hsockets ▸ hq) (fun j q hq _ => (hholds j q hq).2) ?_ ?_
    · intro hmem
      exact absurd (hsockets ▸ hmem) (hs.exclusive.apart hi)
    · intro j hj
      obtain ⟨hne, hj⟩ := hholds j port hj
      exact absurd (hs.exclusive.one hj hi) hne

/-- Call `i` takes a socket that nobody holds, whose exchanges all went well. -/
theorem Recorded.take (hs : Recorded h s) (hexcl : Exclusive s'.pool)
    (hsize : s'.pool.sockets.length ≤ poolSize) (hsocket : socket = s'.socket port)
    (hserial : ∀ q, q ≠ port → s'.serial q = s.serial q) (hport : s.serial port ≤ s'.serial port)
    (hsub : ∀ q ∈ s'.pool.sockets, q ∈ s.pool.sockets ∧ q ≠ port)
    (hfree : ∀ j, ¬ s.pool.Holds j port)
    (hholds : ∀ j q, s'.pool.Holds j q → (j = i ∧ q = port) ∨ (j ≠ i ∧ s.pool.Holds j q))
    (hsettled : Settled h socket) : Recorded (h ++ [.began socket i]) s' := by
  refine hs.noted hexcl hsize hsocket hserial hport (fun q hq _ => (hsub q hq).1) ?_
    (fun hmem => absurd rfl (hsub port hmem).2) ?_
  · intro j q hq hne
    rcases hholds j q hq with ⟨-, rfl⟩ | ⟨-, hq⟩
    · exact absurd rfl hne
    · exact hq
  · intro j hj
    rcases hholds j port hj with ⟨rfl, -⟩ | ⟨-, hj⟩
    · exact hsocket ▸ hsettled.began
    · exact absurd hj (hfree j)

/-- Call `i` takes a pooled socket. -/
theorem Recorded.pop {rest : List UInt16} (hs : Recorded h s) (hexcl : Exclusive s'.pool)
    (hsockets : s.pool.sockets = port :: rest) (hrest : s'.pool.sockets = rest)
    (hserial : s'.serial = s.serial)
    (hholds : ∀ j q, s'.pool.Holds j q → (j = i ∧ q = port) ∨ (j ≠ i ∧ s.pool.Holds j q)) :
    Recorded (h ++ [.began (s'.socket port) i]) s' := by
  have hmem : port ∈ s.pool.sockets := hsockets ▸ List.mem_cons_self ..
  have hnodup := hs.exclusive.nodup
  rw [hsockets, List.nodup_cons] at hnodup
  have hlen := hs.size
  rw [hsockets, List.length_cons] at hlen
  refine hs.take hexcl (hrest ▸ Nat.le_of_succ_le hlen) rfl (fun q _ => congrFun hserial q)
    (congrFun hserial port).ge (fun q hq => ⟨?_, ?_⟩) (fun j hj => hs.exclusive.apart hj hmem)
    hholds ?_
  · rw [hsockets]
    exact List.mem_cons_of_mem _ (hrest ▸ hq)
  · rintro rfl
    exact hnodup.1 (hrest ▸ hq)
  · rw [Watched.socket, hserial]
    exact hs.pooled port hmem

/-- Call `i` binds a socket of its own. -/
theorem Recorded.bind (hs : Recorded h s) (hexcl : Exclusive s'.pool)
    (hnone : s'.pool.sockets = []) (hport : s.pool.queues port = none)
    (hserial : s'.serial = Function.update s.serial port (s.serial port + 1))
    (hholds : ∀ j q, s'.pool.Holds j q → (j = i ∧ q = port) ∨ (j ≠ i ∧ s.pool.Holds j q)) :
    Recorded (h ++ [.began (s'.socket port) i]) s' := by
  have hself : s'.serial port = s.serial port + 1 := by
    rw [hserial, Function.update_self]
  have hother : ∀ q, q ≠ port → s'.serial q = s.serial q := by
    intro q hq
    rw [hserial, Function.update_of_ne hq]
  refine hs.take hexcl (hnone ▸ Nat.zero_le _) rfl hother
    (le_of_le_of_eq (Nat.le_succ _) hself.symm) (fun q hq => ?_)
    (fun j hj => hs.exclusive.held hj hport) hholds (settled_fresh ?_)
  · rw [hnone] at hq
    cases hq
  · -- every note so far is on a socket bound before
    intro note hnote heq
    have hle := hs.past note hnote
    rw [heq, Watched.socket, hself] at hle
    exact absurd hle (Nat.not_succ_le_self _)

/-- Call `i` has accepted a response and gives its socket back. -/
theorem Recorded.giveBack (hs : Recorded h s) (hi : s.pool.Holds i port)
    {queue : Option (List (SocketAddr × Bytes))} (hexcl : Exclusive s'.pool)
    (hpool : s'.pool = ((s.pool.setQueue port queue).push port).setCall i none)
    (hserial : s'.serial = s.serial) :
    Recorded (h ++ [.accepted (s.socket port) i]) s' := by
  have hsocket : s'.socket port = s.socket port := by rw [Watched.socket, hserial]; rfl
  have hholds : ∀ j q, s'.pool.Holds j q → j ≠ i ∧ s.pool.Holds j q := by
    intro j q hq
    rw [hpool] at hq
    obtain ⟨hj, hq⟩ := holds_without (by simp) hq
    rw [Holds, push_calls] at hq
    exact ⟨hj, hq⟩
  rw [← hsocket]
  refine hs.noted hexcl (hpool ▸ push_length hs.size) rfl (fun q _ => congrFun hserial q)
    (congrFun hserial port).ge (fun q hq hne => ?_) (fun j q hq _ => (hholds j q hq).2)
    (fun _ => hsocket ▸ (hs.held i port hi).accepted) fun j hj => ?_
  · rw [hpool] at hq
    exact (mem_push hq).resolve_right hne
  · obtain ⟨hne, hj⟩ := hholds j port hj
    exact absurd (hs.exclusive.one hj hi) hne

/-- **Step lemma**: under any network, what is recorded stays so. -/
theorem recorded_step {m : Move} {new : List Note} (hs : Recorded h s)
    (hstep : s.step m = some (s', new)) : Recorded (h ++ new) s' := by
  obtain ⟨pool, out, hmove, rfl, rfl⟩ := Watched.step_eq_some hstep
  have hexcl : Exclusive pool := exclusive_move hs.exclusive hmove
  cases m with
  | respond j bytes =>
    rw [move] at hmove
    split at hmove
    · cases hmove
      exact hs.mono hexcl rfl rfl fun _ _ => id
    · cases hmove
  | stray port src bytes =>
    rw [move] at hmove
    split at hmove
    · cases hmove
      exact hs.mono hexcl rfl rfl fun _ _ => id
    · cases hmove
      exact hs.mono hexcl rfl rfl fun _ _ => id
  | event e =>
    cases step_transition hmove with
    | unconfigured =>
      exact hs.mono hexcl rfl rfl fun _ _ => id
    | started =>
      exact hs.mono hexcl rfl rfl fun _ _ hq => (holds_without (by rintro c ⟨⟩; rfl) hq).2
    | @popped i port c rest hcall hphase hsockets =>
      have hserial : s.serialAfter (.event (.acquire i port)) = s.serial := by
        rw [Watched.serialAfter, if_neg (by simp [hsockets])]
      refine @Recorded.pop _ _ ⟨_, _, _⟩ _ _ _ hs hexcl hsockets rfl hserial fun j q hq => ?_
      exact holds_with rfl hq
    | @bound i port c hcall hphase hsockets hport =>
      have hserial : s.serialAfter (.event (.acquire i port)) =
          Function.update s.serial port (s.serial port + 1) := by
        rw [Watched.serialAfter, if_pos hsockets]
      refine @Recorded.bind _ _ ⟨_, _, _⟩ _ _ hs hexcl hsockets hport hserial fun j q hq => ?_
      exact holds_with rfl hq
    | @sent i port c hcall hphase =>
      refine hs.mono hexcl rfl rfl fun j q hq => ?_
      rcases holds_with rfl hq with ⟨rfl, rfl⟩ | ⟨-, hq⟩
      · exact ⟨c, hcall, by rw [hphase]; rfl⟩
      · exact hq
    | retried hcall => exact hs.drop hcall (by rintro c ⟨⟩; rfl) rfl rfl
    | failed hcall => exact hs.drop hcall (by simp) rfl rfl
    | skipped =>
      rw [Watched.notes, if_pos rfl]
      exact hs.mono hexcl rfl rfl fun _ _ => id
    | @returned i port c src bytes queue hcall hphase hqueue haccept =>
      have hsocket : s.socketOf i = some (s.socket port) := by
        rw [Watched.socketOf, hcall, Option.bind_some, hphase]
        rfl
      rw [Watched.notes, if_neg (by simp), hsocket]
      exact hs.giveBack ⟨c, hcall, by rw [hphase]; rfl⟩ hexcl rfl rfl
    | answered | duplicated | lost | delivered | unreachable =>
      exact hs.mono hexcl rfl rfl fun _ _ => id

end Recorded

end UpstreamPool

end Denis
