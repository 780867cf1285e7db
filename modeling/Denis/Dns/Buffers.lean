import Denis.Dns.Server
import Denis.Lib.InFlight
import Mathlib.Algebra.Order.Group.Multiset
import Mathlib.Tactic.Abel

/-!
# The buffers of `serve_udp` (`dns/server.rs:27–58`, `93–126`)

The tokio UDP server receives into buffers of a pool. The loop takes one, fills it up
with zeros, receives into it and cuts it to what arrived; a task of its own hands the
bytes to `handle`, puts the buffer back and only then sends what `handle` returned. The
pool is behind a lock, so loop and tasks take turns at it in any order.

The pool shows in nothing but the allocations: `handle` gets each datagram as it came, up
to the buffer's size, whatever the buffer held before, and the sender of the datagram gets
what `handle` returned for it (`served_as_received`); and a buffer is allocated only when
all are in use, and never given up (`buffers_conserved`).
-/

namespace Denis

open Text InFlight

/-- `bytes::BytesMut`. -/
structure BytesMut where
  bytes : Bytes
  capacity : Nat
  fits : bytes.length ≤ capacity

namespace BytesMut

/-- `BytesMut::zeroed`. -/
def zeroed (n : Nat) : BytesMut := ⟨List.replicate n 0, n, (List.length_replicate ..).le⟩

/-- `BytesMut::with_capacity`. -/
def withCapacity (n : Nat) : BytesMut := ⟨[], n, Nat.zero_le n⟩

/-- `BytesMut::clear`. -/
def clear (buf : BytesMut) : BytesMut := ⟨[], buf.capacity, Nat.zero_le _⟩

/-- `BytesMut::truncate`. -/
def truncate (buf : BytesMut) (len : Nat) : BytesMut :=
  ⟨buf.bytes.take len, buf.capacity, (List.length_take_le' ..).trans buf.fits⟩

/-- `BytesMut::resize`; it allocates if there is no room. -/
def resize (buf : BytesMut) (len : Nat) (value : UInt8) : BytesMut where
  bytes := buf.bytes.take len ++ List.replicate (len - buf.bytes.length) value
  capacity := max buf.capacity len
  fits := by
    rw [List.length_append, List.length_take, List.length_replicate]
    omega

/-- What a received datagram overwrites, and the length `recv_from` returns. -/
def recvFrom (buf : BytesMut) (datagram : Bytes) : BytesMut × Nat :=
  let len := min datagram.length buf.bytes.length
  (⟨datagram.take len ++ buf.bytes.drop len, buf.capacity, by
    rw [List.length_append, List.length_take, List.length_drop]
    have hfits := buf.fits
    omega⟩, len)

@[simp] theorem clear_capacity (buf : BytesMut) : buf.clear.capacity = buf.capacity := rfl

@[simp] theorem truncate_capacity (buf : BytesMut) (len : Nat) :
    (buf.truncate len).capacity = buf.capacity := rfl

@[simp] theorem recvFrom_capacity (buf : BytesMut) (datagram : Bytes) :
    (buf.recvFrom datagram).1.capacity = buf.capacity := rfl

theorem resize_length (buf : BytesMut) (len : Nat) (value : UInt8) :
    (buf.resize len value).bytes.length = len := by
  rw [resize, List.length_append, List.length_take, List.length_replicate]
  omega

/-- A buffer with room is not allocated again. -/
theorem resize_capacity {buf : BytesMut} {len : Nat} (hroom : len ≤ buf.capacity)
    (value : UInt8) : (buf.resize len value).capacity = buf.capacity :=
  Nat.max_eq_left hroom

/-- **Nothing of what the buffer held is left** in what arrived. -/
theorem truncate_recvFrom (buf : BytesMut) (datagram : Bytes) :
    ((buf.recvFrom datagram).1.truncate (buf.recvFrom datagram).2).bytes =
      datagram.take buf.bytes.length := by
  show List.take (min datagram.length buf.bytes.length)
    (datagram.take (min datagram.length buf.bytes.length) ++ buf.bytes.drop _) = _
  have hlen : (datagram.take (min datagram.length buf.bytes.length)).length =
      min datagram.length buf.bytes.length := by
    rw [List.length_take]
    omega
  rw [List.take_append_of_le_length hlen.ge, List.take_of_length_le hlen.le]
  rcases Nat.le_total datagram.length buf.bytes.length with hle | hle
  · rw [Nat.min_eq_left hle, List.take_length, List.take_of_length_le hle]
  · rw [Nat.min_eq_right hle]

end BytesMut

/-- `BufferPool` (`server.rs:28–31`). -/
structure BufferPool where
  pool : List BytesMut
  bufferSize : Nat

namespace BufferPool

/-- `BufferPool::new` (`server.rs:34–42`). -/
def new (bufferSize initialCount : Nat) : BufferPool :=
  ⟨List.replicate initialCount (.zeroed bufferSize), bufferSize⟩

/-- `BufferPool::get` (`server.rs:44–50`). -/
def get (p : BufferPool) : BufferPool × BytesMut :=
  match p.pool.getLast? with
  | some buf => ({ p with pool := p.pool.dropLast }, buf)
  | none => (p, .withCapacity p.bufferSize)

/-- `BufferPool::put` (`server.rs:52–57`). -/
def put (p : BufferPool) (buf : BytesMut) : BufferPool :=
  let buf := buf.clear
  if buf.capacity ≤ p.bufferSize * 2 then { p with pool := p.pool ++ [buf] } else p

end BufferPool

/-- The loop and its tasks: the buffer in `recv_from`, the tasks spawned, those in
`handle`, those about to put their buffers back, and those about to send. -/
structure UdpServer where
  bufferPool : BufferPool
  receiving : Option BytesMut
  spawned : List (BytesMut × SocketAddr)
  handling : List (BytesMut × SocketAddr)
  returning : List (BytesMut × SocketAddr × Option Bytes)
  sending : List (SocketAddr × Bytes)

/-- What happens next. -/
inductive UdpInput
  | get
  | recv (datagram : Bytes) (src : SocketAddr)
  | start (i : Nat)
  | handled (i : Nat) (result : Option Bytes)
  | put (i : Nat)
  | send (i : Nat) (sent : Bool)

/-- A call of `handle` with what arrived from an address, its result for the address, and
what is sent there. -/
inductive UdpOutput
  | handle (src : SocketAddr) (data : Bytes)
  | handled (src : SocketAddr) (response : Bytes)
  | sent (src : SocketAddr) (response : Bytes)
  deriving DecidableEq

namespace UdpServer

/-- `Server::new` (`server.rs:67–74`). -/
def new (bufferSize bufferCount : Nat) : UdpServer :=
  ⟨.new bufferSize bufferCount, none, [], [], [], []⟩

/-- One step of the loop or of a task (`server.rs:101–126`). -/
def step (s : UdpServer) : UdpInput → Option (UdpServer × List UdpOutput)
  | .get =>
    match s.receiving with
    | some _ => none
    | none =>
      let got := s.bufferPool.get
      some ({ s with
        bufferPool := got.1, receiving := some (got.2.resize got.1.bufferSize 0) }, [])
  | .recv datagram src =>
    match s.receiving with
    | none => none
    | some buf =>
      let got := buf.recvFrom datagram
      some ({ s with
        receiving := none, spawned := s.spawned ++ [(got.1.truncate got.2, src)] }, [])
  | .start i =>
    match s.spawned[i]? with
    | none => none
    | some (buf, src) =>
      some ({ s with spawned := s.spawned.eraseIdx i, handling := s.handling ++ [(buf, src)] },
        [.handle src buf.bytes])
  | .handled i result =>
    match s.handling[i]? with
    | none => none
    | some (buf, src) =>
      some ({ s with
        handling := s.handling.eraseIdx i, returning := s.returning ++ [(buf, src, result)] },
        (result.map (.handled src)).toList)
  | .put i =>
    match s.returning[i]? with
    | none => none
    | some (buf, src, result) =>
      some ({ s with
        bufferPool := s.bufferPool.put buf
        returning := s.returning.eraseIdx i
        -- an error of `handle` is logged
        sending := s.sending ++ (result.map (src, ·)).toList }, [])
  | .send i sent =>
    match s.sending[i]? with
    | none => none
    | some (src, response) =>
      some ({ s with sending := s.sending.eraseIdx i }, if sent then [.sent src response] else [])

/-- The UDP server as a machine. -/
abbrev machine : Machine UdpServer UdpInput UdpOutput := ⟨step⟩

variable {s s' t : UdpServer} {e : UdpInput} {es : List UdpInput} {h out : List UdpOutput}

/-! ## The bytes -/

/-- The datagrams received, cut to a size. -/
def received (size : Nat) (es : List UdpInput) : List (SocketAddr × Bytes) :=
  es.filterMap fun
    | .recv datagram src => some (src, datagram.take size)
    | _ => none

/-- The calls of `handle`. -/
def calls (h : List UdpOutput) : List (SocketAddr × Bytes) :=
  h.filterMap fun
    | .handle src data => some (src, data)
    | _ => none

/-- The results of `handle`, each for the sender it was called for. -/
def results (h : List UdpOutput) : List (SocketAddr × Bytes) :=
  h.filterMap fun
    | .handled src response => some (src, response)
    | _ => none

/-- What was sent. -/
def sends (h : List UdpOutput) : List (SocketAddr × Bytes) :=
  h.filterMap fun
    | .sent src response => some (src, response)
    | _ => none

/-- What tasks are yet to give `handle`. -/
def unhandled (s : UdpServer) : List (SocketAddr × Bytes) :=
  s.spawned.map fun task => (task.2, task.1.bytes)

/-- The result a task has for the sender of its datagram. -/
def resultOf (task : BytesMut × SocketAddr × Option Bytes) : Option (SocketAddr × Bytes) :=
  task.2.2.map (task.2.1, ·)

/-- The results still to be sent. -/
def unsent (s : UdpServer) : List (SocketAddr × Bytes) :=
  s.returning.filterMap resultOf ++ s.sending

/-- Every datagram is in a call or about to be, cut to the buffer's size; every result is
of a call and for its sender, and sent once at most. -/
structure Serves (size : Nat) (es : List UdpInput) (h : List UdpOutput) (s : UdpServer) :
    Prop where
  bufferSize : s.bufferPool.bufferSize = size
  receiving : ∀ buf ∈ s.receiving, buf.bytes.length = size
  called : (s.unhandled ++ calls h).Perm (received size es)
  returned : (s.handling.map Prod.snd ++ (results h).map Prod.fst).Subperm
    ((calls h).map Prod.fst)
  sent : (s.unsent ++ sends h).Subperm (results h)

@[simp] theorem received_append (size : Nat) (es es' : List UdpInput) :
    received size (es ++ es') = received size es ++ received size es' :=
  List.filterMap_append ..

@[simp] theorem calls_append (h h' : List UdpOutput) : calls (h ++ h') = calls h ++ calls h' :=
  List.filterMap_append ..

@[simp] theorem results_append (h h' : List UdpOutput) :
    results (h ++ h') = results h ++ results h' :=
  List.filterMap_append ..

@[simp] theorem sends_append (h h' : List UdpOutput) : sends (h ++ h') = sends h ++ sends h' :=
  List.filterMap_append ..

theorem get_bufferSize (p : BufferPool) : p.get.1.bufferSize = p.bufferSize := by
  unfold BufferPool.get
  split <;> rfl

theorem put_bufferSize (p : BufferPool) (buf : BytesMut) :
    (p.put buf).bufferSize = p.bufferSize := by
  unfold BufferPool.put
  dsimp only
  split <;> rfl

theorem step_bufferSize (hstep : s.step e = some (s', out)) :
    s'.bufferPool.bufferSize = s.bufferPool.bufferSize := by
  cases e with
  | get =>
    rw [step] at hstep
    split at hstep
    · cases hstep
    · obtain ⟨rfl, -⟩ := Prod.mk.inj (Option.some.inj hstep)
      exact get_bufferSize s.bufferPool
  | put i =>
    rw [step] at hstep
    split at hstep
    · cases hstep
    · obtain ⟨rfl, -⟩ := Prod.mk.inj (Option.some.inj hstep)
      exact put_bufferSize ..
  | recv datagram src | start i | handled i result | send i sent =>
    rw [step] at hstep
    split at hstep
    · cases hstep
    · obtain ⟨rfl, -⟩ := Prod.mk.inj (Option.some.inj hstep)
      rfl

/-- An input that is no datagram. -/
theorem called_of_quiet {size : Nat} {l : List (SocketAddr × Bytes)}
    (hcalled : l.Perm (received size es)) (hquiet : received size [e] = []) :
    l.Perm (received size (es ++ [e])) := by
  rw [received_append, hquiet, List.append_nil]
  exact hcalled

theorem Serves.start {size i : Nat} (hs : Serves size es h s)
    (hstep : s.step (.start i) = some (s', out)) :
    Serves size (es ++ [.start i]) (h ++ out) s' := by
  rw [step] at hstep
  split at hstep
  · cases hstep
  · next buf src htask =>
    obtain ⟨rfl, rfl⟩ := Prod.mk.inj (Option.some.inj hstep)
    refine ⟨hs.bufferSize, hs.receiving, called_of_quiet ?_ rfl, ?_, ?_⟩
    · have hperm := (perm_of_getElem? htask).map fun task => (task.2, task.1.bytes)
      rw [calls_append]
      exact (perm_passed hperm (calls h)).trans hs.called
    · rw [results_append, calls_append, List.map_append, List.map_append, List.map_append]
      show (_ ++ [src] ++ (_ ++ [])).Subperm (_ ++ [src])
      rw [List.append_nil]
      exact (perm_added _ _ src).subperm.trans ((List.subperm_append_right [src]).mpr hs.returned)
    · rw [sends_append, results_append]
      show (_ ++ (_ ++ [])).Subperm (_ ++ [])
      rw [List.append_nil, List.append_nil]
      exact hs.sent

theorem Serves.handled {size i : Nat} {result : Option Bytes} (hs : Serves size es h s)
    (hstep : s.step (.handled i result) = some (s', out)) :
    Serves size (es ++ [.handled i result]) (h ++ out) s' := by
  rw [step] at hstep
  split at hstep
  · cases hstep
  · next buf src htask =>
    obtain ⟨rfl, rfl⟩ := Prod.mk.inj (Option.some.inj hstep)
    have hperm := (perm_of_getElem? htask).map Prod.snd
    cases result with
    | none =>
      rw [Option.map_none, Option.toList_none, List.append_nil]
      refine ⟨hs.bufferSize, hs.receiving, called_of_quiet hs.called rfl, ?_, ?_⟩
      · refine List.Subperm.trans ?_ hs.returned
        exact (((List.eraseIdx_sublist s.handling i).map _).append_right _).subperm
      · rw [unsent, List.filterMap_append]
        show (_ ++ [] ++ _ ++ _).Subperm _
        rw [List.append_nil]
        exact hs.sent
    | some response =>
      refine ⟨hs.bufferSize, hs.receiving, called_of_quiet ?_ rfl, ?_, ?_⟩
      · rw [calls_append]
        show (_ ++ (_ ++ [])).Perm _
        rw [List.append_nil]
        exact hs.called
      · rw [results_append, calls_append, List.map_append]
        show (_ ++ (_ ++ [src])).Subperm (List.map Prod.fst (_ ++ []))
        rw [List.append_nil]
        exact (perm_passed hperm _).subperm.trans hs.returned
      · rw [sends_append, results_append, unsent, List.filterMap_append]
        show (_ ++ [(src, response)] ++ _ ++ (_ ++ [])).Subperm (_ ++ [(src, response)])
        rw [List.append_nil, List.append_assoc _ s.sending]
        refine (perm_added _ _ _).subperm.trans ((List.subperm_append_right _).mpr ?_)
        rw [← List.append_assoc]
        exact hs.sent

theorem Serves.put {size i : Nat} (hs : Serves size es h s)
    (hstep : s.step (.put i) = some (s', out)) : Serves size (es ++ [.put i]) (h ++ out) s' := by
  rw [step] at hstep
  split at hstep
  · cases hstep
  · next buf src result htask =>
    obtain ⟨rfl, rfl⟩ := Prod.mk.inj (Option.some.inj hstep)
    rw [List.append_nil]
    refine ⟨(put_bufferSize ..).trans hs.bufferSize, hs.receiving, called_of_quiet hs.called rfl,
      hs.returned, ?_⟩
    have hperm := (perm_of_getElem? htask).filterMap resultOf
    refine List.Subperm.trans ?_ hs.sent
    refine (List.subperm_append_right _).mpr (List.Perm.subperm ?_)
    cases result with
    | none =>
      show (_ ++ (_ ++ [])).Perm _
      rw [List.append_nil]
      exact hperm.symm.append_right _
    | some response => exact perm_passed hperm s.sending

theorem Serves.send {size i : Nat} {sent : Bool} (hs : Serves size es h s)
    (hstep : s.step (.send i sent) = some (s', out)) :
    Serves size (es ++ [.send i sent]) (h ++ out) s' := by
  rw [step] at hstep
  split at hstep
  · cases hstep
  · next src response hsend =>
    obtain ⟨rfl, rfl⟩ := Prod.mk.inj (Option.some.inj hstep)
    have hperm : s.unsent.Perm ((src, response) ::
        (s.returning.filterMap resultOf ++ s.sending.eraseIdx i)) :=
      ((perm_of_getElem? hsend).append_left _).trans List.perm_middle
    cases sent with
    | false =>
      rw [if_neg Bool.false_ne_true, List.append_nil]
      refine ⟨hs.bufferSize, hs.receiving, called_of_quiet hs.called rfl, hs.returned, ?_⟩
      refine List.Subperm.trans ?_ hs.sent
      exact (((List.eraseIdx_sublist s.sending i).append_left _).append_right _).subperm
    | true =>
      rw [if_pos rfl]
      refine ⟨hs.bufferSize, hs.receiving, called_of_quiet ?_ rfl, ?_, ?_⟩
      · rw [calls_append]
        show (_ ++ (_ ++ [])).Perm _
        rw [List.append_nil]
        exact hs.called
      · rw [results_append, calls_append]
        show (_ ++ List.map _ (_ ++ [])).Subperm (List.map _ (_ ++ []))
        rw [List.append_nil, List.append_nil]
        exact hs.returned
      · rw [sends_append, results_append]
        show (_ ++ (_ ++ [(src, response)])).Subperm (_ ++ [])
        rw [List.append_nil]
        exact (perm_passed hperm _).subperm.trans hs.sent

/-- **One step.** -/
theorem Serves.step {size : Nat} (hs : Serves size es h s) (hstep : s.step e = some (s', out)) :
    Serves size (es ++ [e]) (h ++ out) s' := by
  cases e with
  | get =>
    rw [UdpServer.step] at hstep
    split at hstep
    · cases hstep
    · obtain ⟨rfl, rfl⟩ := Prod.mk.inj (Option.some.inj hstep)
      have hsize := (get_bufferSize s.bufferPool).trans hs.bufferSize
      rw [List.append_nil]
      refine ⟨hsize, ?_, called_of_quiet hs.called rfl, hs.returned, hs.sent⟩
      rintro _ ⟨⟩
      rw [BytesMut.resize_length, hsize]
  | recv datagram src =>
    rw [UdpServer.step] at hstep
    split at hstep
    · cases hstep
    · next buf hbuf =>
      obtain ⟨rfl, rfl⟩ := Prod.mk.inj (Option.some.inj hstep)
      rw [List.append_nil]
      refine ⟨hs.bufferSize, ?_, ?_, hs.returned, hs.sent⟩
      · rintro _ ⟨⟩
      · have hbytes := BytesMut.truncate_recvFrom buf datagram
        rw [hs.receiving buf (by rw [hbuf]; rfl)] at hbytes
        rw [received_append, unhandled, List.map_append, List.map_singleton, hbytes]
        exact (perm_added _ _ _).trans (hs.called.append_right _)
  | start i => exact hs.start hstep
  | handled i result => exact hs.handled hstep
  | put i => exact hs.put hstep
  | send i sent => exact hs.send hstep

theorem serves_run {bufferSize bufferCount : Nat}
    (hrun : machine.run (new bufferSize bufferCount) es = some (t, h)) :
    Serves bufferSize es h t := by
  have hbegin : Serves bufferSize [] [] (new bufferSize bufferCount) :=
    ⟨rfl, by simp [new], .refl _, .refl _, .refl _⟩
  have hreached := Machine.run_trace (J := Serves bufferSize)
    (fun _ _ _ _ _ _ hs hstep => hs.step hstep) hbegin hrun
  exact hreached

/-- **What arrives is what `handle` gets, and what it returns goes back.** In every run of
the loop and its tasks, in whatever order they take their turns, each datagram received is
given to `handle` once, cut to the buffer's size and with nothing of other datagrams in
it, or about to be; and what is sent are results of those calls, each once at most and to
the sender of its datagram. -/
theorem served_as_received {bufferSize bufferCount : Nat}
    (hrun : machine.run (new bufferSize bufferCount) es = some (t, h)) :
    (t.unhandled ++ calls h).Perm (received bufferSize es) ∧
      ((results h).map Prod.fst).Subperm ((calls h).map Prod.fst) ∧
      (sends h).Subperm (results h) := by
  have hend := serves_run hrun
  exact ⟨hend.called, (List.sublist_append_right _ _).subperm.trans hend.returned,
    (List.sublist_append_right _ _).subperm.trans hend.sent⟩

/-- So with the buffers of `main.rs` a call is of what the listener hands on of a datagram. -/
theorem call_buffered {bufferCount : Nat} {src : SocketAddr} {data : Bytes}
    (hrun : machine.run (new udpRecvBuf bufferCount) es = some (t, h))
    (hcall : (src, data) ∈ calls h) :
    ∃ datagram, .recv datagram src ∈ es ∧ Listener.tokioUdp.buffer datagram = data := by
  have hend : Serves udpRecvBuf es h t := serves_run hrun
  have hreceived := hend.called.subset (List.mem_append_right t.unhandled hcall)
  obtain ⟨e, he, hsome⟩ := List.mem_filterMap.mp hreceived
  cases e with
  | recv datagram src' =>
    obtain ⟨rfl, rfl⟩ := Prod.mk.inj (Option.some.inj hsome)
    exact ⟨datagram, he, rfl⟩
  | _ => cases hsome

/-- Two clients of a server with one buffer of two bytes. -/
def Sample.one : SocketAddr := (Denis.Sample.client .tokioUdp 1).addr

def Sample.two : SocketAddr := (Denis.Sample.client .tokioUdp 2).addr

/-- The second datagram is handled first, and its buffer received into again. -/
def Sample.turns : List UdpInput :=
  [.get, .recv [1, 2, 3] one, .get, .recv [9] two, .start 1, .handled 0 (some [8]), .put 0, .get,
    .send 0 true, .recv [4] one, .start 0, .start 0]

/-- Each client's bytes are handled, the first datagram's cut. -/
theorem Sample.turns_served : ∃ t h, machine.run (new 2 1) turns = some (t, h) ∧
    calls h = [(two, [9]), (one, [1, 2]), (one, [4])] ∧
    (calls h).Perm [(one, [1, 2]), (two, [9]), (one, [4])] := by
  obtain ⟨⟨t, h⟩, hrun, hviews⟩ := Option.map_eq_some_iff.mp
    (show (machine.run (new 2 1) turns).map (fun p => (p.1.unhandled, calls p.2)) =
      some ([], [(two, [9]), (one, [1, 2]), (one, [4])]) by decide +kernel)
  obtain ⟨hunhandled, hcalls⟩ := Prod.mk.inj hviews
  have hserved := (served_as_received hrun).1
  rw [hunhandled, List.nil_append] at hserved
  exact ⟨t, h, hrun, hcalls, hserved⟩

/-! ## The buffers -/

/-- The buffers that are not in the pool. -/
def inUse (s : UdpServer) : List BytesMut :=
  s.receiving.toList ++ s.spawned.map Prod.fst ++ s.handling.map Prod.fst ++
    s.returning.map Prod.fst

/-- All buffers there are. -/
def buffers (s : UdpServer) : List BytesMut := s.bufferPool.pool ++ s.inUse

/-- The capacities of all buffers. -/
def capacities (s : UdpServer) : Multiset Nat := s.buffers.map BytesMut.capacity

theorem capacities_eq (s : UdpServer) : s.capacities =
    (s.bufferPool.pool.map BytesMut.capacity : Multiset Nat) +
      ((s.receiving.toList.map BytesMut.capacity : Multiset Nat) +
        (s.spawned.map fun task => task.1.capacity) +
        (s.handling.map fun task => task.1.capacity) +
        (s.returning.map fun task => task.1.capacity)) := by
  simp only [capacities, buffers, inUse, List.map_append, Multiset.coe_add, List.map_map]
  rfl

/-- Every buffer is of the one size. -/
structure Sized (size : Nat) (s : UdpServer) : Prop where
  bufferSize : s.bufferPool.bufferSize = size
  capacity : ∀ c ∈ s.capacities, c = size

/-- `get` takes the last buffer, or allocates one. -/
theorem get_cases (p : BufferPool) :
    (∃ pool buf, p.pool = pool ++ [buf] ∧ p.get = ({ p with pool }, buf)) ∨
      p.pool = [] ∧ p.get = (p, .withCapacity p.bufferSize) := by
  unfold BufferPool.get
  rcases List.eq_nil_or_concat p.pool with hnone | ⟨pool, buf, hpool⟩
  · rw [hnone]
    exact .inr ⟨rfl, rfl⟩
  · rw [List.concat_eq_append] at hpool
    rw [hpool, List.getLast?_concat, List.dropLast_concat]
    exact .inl ⟨pool, buf, rfl, rfl⟩

/-- `put` keeps a buffer of the pool's size. -/
theorem put_pool {p : BufferPool} {buf : BytesMut} (hsize : buf.capacity = p.bufferSize) :
    (p.put buf).pool = p.pool ++ [buf.clear] := by
  unfold BufferPool.put
  dsimp only
  rw [if_pos]
  rw [BytesMut.clear_capacity, hsize]
  omega

/-- `get` takes a buffer from the pool, or allocates one when it has none. -/
theorem Sized.capacities_get {size : Nat} (hs : Sized size s)
    (hstep : s.step .get = some (s', out)) :
    s'.capacities = s.capacities ∨
      s'.bufferPool.pool = [] ∧ s'.capacities = size ::ₘ s.capacities := by
  rw [capacities_eq, capacities_eq]
  rw [UdpServer.step] at hstep
  split at hstep
  · cases hstep
  · next hnone =>
    obtain ⟨rfl, -⟩ := Prod.mk.inj (Option.some.inj hstep)
    rw [hnone]
    have hcapacity := hs.capacity
    rw [capacities_eq] at hcapacity
    rcases get_cases s.bufferPool with ⟨pool, buf, hpool, hget⟩ | ⟨hpool, hget⟩
    · -- the last buffer of the pool, which has the room it is resized to
      refine .inl ?_
      have hroom : buf.capacity = size := by
        refine hcapacity buf.capacity (Multiset.mem_add.mpr (.inl ?_))
        exact Multiset.mem_coe.mpr (List.mem_map_of_mem (by rw [hpool]; simp))
      have hresize := @BytesMut.resize_capacity buf s.bufferPool.bufferSize
        (hs.bufferSize.trans hroom.symm).le 0
      rw [hget, hpool]
      simp only [List.map_append, ← Multiset.coe_add, List.map_singleton, Option.toList_some,
        Option.toList_none, List.map_nil, hresize, Multiset.coe_nil]
      abel
    · -- a new one
      refine .inr ⟨by rw [hget]; exact hpool, ?_⟩
      have hresize := @BytesMut.resize_capacity (.withCapacity s.bufferPool.bufferSize)
        s.bufferPool.bufferSize (Nat.le_refl _) 0
      rw [hget, hpool]
      simp only [List.map_singleton, Option.toList_some, Option.toList_none, List.map_nil,
        hresize, Multiset.coe_nil, ← Multiset.singleton_add, Multiset.coe_singleton]
      rw [BytesMut.withCapacity, hs.bufferSize]
      abel

/-- A datagram received leaves its buffer to a task. -/
theorem capacities_recv {datagram : Bytes} {src : SocketAddr}
    (hstep : s.step (.recv datagram src) = some (s', out)) : s'.capacities = s.capacities := by
  rw [capacities_eq, capacities_eq]
  rw [UdpServer.step] at hstep
  split at hstep
  · cases hstep
  · next buf hbuf =>
    obtain ⟨rfl, -⟩ := Prod.mk.inj (Option.some.inj hstep)
    rw [hbuf]
    simp only [List.map_append, ← Multiset.coe_add, List.map_singleton, Option.toList_some,
      Option.toList_none, List.map_nil, BytesMut.truncate_capacity, BytesMut.recvFrom_capacity,
      Multiset.coe_nil]
    abel

theorem capacities_start {i : Nat} (hstep : s.step (.start i) = some (s', out)) :
    s'.capacities = s.capacities := by
  rw [capacities_eq, capacities_eq]
  rw [UdpServer.step] at hstep
  split at hstep
  · cases hstep
  · next buf src htask =>
    obtain ⟨rfl, -⟩ := Prod.mk.inj (Option.some.inj hstep)
    rw [coe_map_taken htask]
    simp only [List.map_append, ← Multiset.coe_add, List.map_singleton,
      ← Multiset.singleton_add, Multiset.coe_singleton]
    abel

theorem capacities_handled {i : Nat} {result : Option Bytes}
    (hstep : s.step (.handled i result) = some (s', out)) : s'.capacities = s.capacities := by
  rw [capacities_eq, capacities_eq]
  rw [UdpServer.step] at hstep
  split at hstep
  · cases hstep
  · next buf src htask =>
    obtain ⟨rfl, -⟩ := Prod.mk.inj (Option.some.inj hstep)
    rw [coe_map_taken htask]
    simp only [List.map_append, ← Multiset.coe_add, List.map_singleton,
      ← Multiset.singleton_add, Multiset.coe_singleton]
    abel

/-- A buffer that is put back is of the pool's size, so the pool keeps it. -/
theorem Sized.capacities_put {size i : Nat} (hs : Sized size s)
    (hstep : s.step (.put i) = some (s', out)) : s'.capacities = s.capacities := by
  rw [UdpServer.step] at hstep
  split at hstep
  · cases hstep
  · next buf src result htask =>
    obtain ⟨rfl, -⟩ := Prod.mk.inj (Option.some.inj hstep)
    have hcapacity := hs.capacity
    rw [capacities_eq, coe_map_taken htask] at hcapacity
    have hsize : buf.capacity = s.bufferPool.bufferSize := by
      rw [hs.bufferSize]
      exact hcapacity buf.capacity (by simp)
    rw [capacities_eq, capacities_eq, coe_map_taken htask, put_pool hsize]
    simp only [List.map_append, ← Multiset.coe_add, List.map_singleton,
      ← Multiset.singleton_add, Multiset.coe_singleton, BytesMut.clear_capacity]
    abel

/-- A turn takes buffers over, or allocates one when the pool has none. -/
theorem Sized.capacities_step {size : Nat} (hs : Sized size s)
    (hstep : s.step e = some (s', out)) :
    s'.capacities = s.capacities ∨
      s'.bufferPool.pool = [] ∧ s'.capacities = size ::ₘ s.capacities := by
  cases e with
  | get => exact hs.capacities_get hstep
  | recv datagram src => exact .inl (capacities_recv hstep)
  | start i => exact .inl (capacities_start hstep)
  | handled i result => exact .inl (capacities_handled hstep)
  | put i => exact .inl (hs.capacities_put hstep)
  | send i sent =>
    rw [UdpServer.step] at hstep
    split at hstep
    · cases hstep
    · obtain ⟨rfl, -⟩ := Prod.mk.inj (Option.some.inj hstep)
      exact .inl rfl

theorem Sized.step {size : Nat} (hs : Sized size s) (hstep : s.step e = some (s', out)) :
    Sized size s' := by
  refine ⟨(step_bufferSize hstep).trans hs.bufferSize, ?_⟩
  intro c hc
  rcases hs.capacities_step hstep with heq | ⟨-, heq⟩
  · exact hs.capacity c (heq ▸ hc)
  · rw [heq] at hc
    exact (Multiset.mem_cons.mp hc).elim id (hs.capacity c)

theorem card_capacities (s : UdpServer) : s.capacities.card = s.buffers.length := by
  rw [capacities, Multiset.coe_card, List.length_map]

/-- The number of buffers changes when the pool is empty, and grows. -/
theorem Sized.length_step {size : Nat} (hs : Sized size s) (hstep : s.step e = some (s', out)) :
    s.buffers.length ≤ s'.buffers.length ∧
      (s'.buffers.length = s.buffers.length ∨ s'.bufferPool.pool = []) := by
  rw [← card_capacities, ← card_capacities]
  rcases hs.capacities_step hstep with heq | ⟨hpool, heq⟩
  · rw [heq]
    exact ⟨Nat.le_refl _, .inl rfl⟩
  · rw [heq, Multiset.card_cons]
    exact ⟨Nat.le_succ _, .inr hpool⟩

theorem sized_new (bufferSize bufferCount : Nat) :
    Sized bufferSize (new bufferSize bufferCount) := by
  refine ⟨rfl, ?_⟩
  intro c hc
  rw [capacities, Multiset.mem_coe] at hc
  obtain ⟨buf, hbuf, rfl⟩ := List.mem_map.mp hc
  have hpool : buf ∈ List.replicate bufferCount (BytesMut.zeroed bufferSize) := by
    simpa [buffers, inUse, new, BufferPool.new] using hbuf
  rw [List.eq_of_mem_replicate hpool]
  rfl

theorem Sized.run {size : Nat} (hs : Sized size s) (hrun : machine.run s es = some (t, h)) :
    Sized size t ∧ s.buffers.length ≤ t.buffers.length := by
  refine Machine.run_invariant (J := fun m => Sized size m ∧ s.buffers.length ≤ m.buffers.length)
    ?_ ⟨hs, Nat.le_refl _⟩ hrun
  rintro m e m' out ⟨hm, hle⟩ hstep
  exact ⟨hm.step hstep, hle.trans (hm.length_step hstep).1⟩

/-- **Buffers are allocated when all are in use, and never given up.** After any run every
buffer is of the one size, and there are as many as at first, or as were once in use
together; never fewer than were ever in use. -/
theorem buffers_conserved {bufferSize bufferCount : Nat}
    (hrun : machine.run (new bufferSize bufferCount) es = some (t, h)) :
    (∀ buf ∈ t.buffers, buf.capacity = bufferSize) ∧
      bufferCount ≤ t.buffers.length ∧
      (∀ m, machine.Visits (new bufferSize bufferCount) es m →
        m.inUse.length ≤ t.buffers.length) ∧
      (t.buffers.length = bufferCount ∨ ∃ m, machine.Visits (new bufferSize bufferCount) es m ∧
        m.inUse.length = t.buffers.length) := by
  have hnew := sized_new bufferSize bufferCount
  have hcount : (new bufferSize bufferCount).buffers.length = bufferCount := by
    simp [buffers, inUse, new, BufferPool.new]
  obtain ⟨hsized, hmore⟩ := hnew.run hrun
  refine ⟨?_, hcount ▸ hmore, ?_, ?_⟩
  · intro buf hbuf
    exact hsized.capacity buf.capacity (Multiset.mem_coe.mpr (List.mem_map_of_mem hbuf))
  · rintro m ⟨pre, post, h₁, rfl, hpre⟩
    obtain ⟨m', h₂, h₃, hm', hpost, -⟩ := Machine.run_append.mp hrun
    obtain ⟨rfl, -⟩ := Prod.mk.inj (Option.some.inj (hm'.symm.trans hpre))
    have hlater := ((hnew.run hm').1.run hpost).2
    exact (List.sublist_append_right m'.bufferPool.pool _).length_le.trans hlater
  · rcases Machine.run_last_change (J := Sized bufferSize) (P := fun m => m.bufferPool.pool = [])
      (f := fun m => m.buffers.length) (fun _ _ _ _ hm hstep => hm.step hstep)
      (fun _ _ _ _ hm hstep => (hm.length_step hstep).2) hnew hrun with
      hsame | ⟨m, hvisits, hpool, hlast⟩
    · exact .inl (hsame.trans hcount)
    · refine .inr ⟨m, hvisits, ?_⟩
      rw [← hlast, buffers, hpool]
      rfl

/-- One buffer at first, and two in use at once. -/
theorem Sample.turns_conserved : ∃ t h, machine.run (new 2 1) turns = some (t, h) ∧
    ∃ m, machine.Visits (new 2 1) turns m ∧ m.inUse.length = 2 := by
  obtain ⟨⟨t, h⟩, hrun, hlength⟩ := Option.map_eq_some_iff.mp
    (show (machine.run (new 2 1) turns).map (fun p => p.1.buffers.length) = some 2 by
      decide +kernel)
  obtain ⟨-, -, -, hsame | hpeak⟩ := buffers_conserved hrun
  · exact absurd (hlength.symm.trans hsame) (by decide)
  · exact ⟨t, h, hrun, hlength ▸ hpeak⟩

end UdpServer

end Denis
