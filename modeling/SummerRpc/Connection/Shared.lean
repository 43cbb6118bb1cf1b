import SummerRpc.Lib.Transition
import SummerRpc.Helper.AtomicInteger
import SummerRpc.Helper.Future
import SummerRpc.Helper.LRUCache
import SummerRpc.Helper.StaticList
import SummerRpc.Transport.Record

/-! # `SharedBlockingConnection`

`connection.py`, over a `BlockingRecordTransport`: client threads call `write`,
`read` and `close` while the write thread (`_async_write`) and the read thread
(`_async_read`) serve them. Every interleaving of these threads is a run of
`system`.

* `WriteSide`: what `_write_condition` guards, with the write thread;
* `ReadSide`: what `_read_condition` guards, with the read thread;
* `CloseFlags`: `_closing`, `_closed` and the threads inside `close()`;
* `Label`, `guard`, `update`: the steps.

A block that holds a lock and tests the flags is two steps, the test and the rest
of the block, since `close()` sets the flags without those locks. The tests read
`_closing` before `_closed`, and a thread that finds both clear saw a moment at
which both were: one step. The history fields record what the threads were given
and what became of each entry; no step reads them.
-/

namespace SummerRpc

open BaseRecordTransport

/-- A body, as bytes. -/
abbrev Body := List UInt8

/-- A thread that can call `close()`. -/
inductive Thread where
  | client (n : ℕ)
  | writeThread
  | readThread
deriving DecidableEq, Repr

/-! ## The write side -/

/-- The tuple `_pending_writes` stores. -/
structure PendingWrite where
  buff : Body
  future : ℕ
  transactionId : ℕ
  timestamp : ℤ
  timeout : Option ℤ
deriving DecidableEq, Repr

/-- `timeout is not None and timestamp + timeout <= time.time()` -/
def PendingWrite.expired (e : PendingWrite) (now : ℤ) : Bool :=
  match e.timeout with
  | none => false
  | some t => e.timestamp + t ≤ now

/-- What a future of the write side is resolved with: the write thread sets the
transaction id, and the read thread sets the response of a heartbeat. -/
inductive WriteValue where
  | transactionId (n : ℕ)
  | response (buff : Body)
deriving DecidableEq, Repr

/-- The holder of `_write_condition` between two steps: a client in `write`, past
the test of the flags, or the write thread. -/
inductive WriteLock where
  | free
  | client (buff : Body) (timeout : Option ℤ)
  | writeThread
deriving DecidableEq, Repr

/-- Where the write thread is. -/
inductive WritePc where
  /-- at the top of the loop, with the two flags `_precheck_before_writing` returned -/
  | precheck (missingTooManyHeartbeats needToWakeupReadThread : Bool)
  /-- holding the condition, flags seen clear -/
  | locked
  /-- in `wait`, notified or not -/
  | waiting (notified : Bool)
  /-- woken, holding the condition, about to insert a heartbeat -/
  | woken
  /-- with a popped entry, before the test of its timeout -/
  | holding (e : PendingWrite)
  /-- in `transport.write`, with the bytes not yet sent -/
  | sending (e : PendingWrite) (rest : List UInt8)
  /-- calling `close()`, after a failed write of `e` or for missing heartbeats -/
  | closing (e : Option PendingWrite)
  | exited
  /-- ended by an exception that `_async_write` does not catch -/
  | died
deriving DecidableEq, Repr

/-- The write thread is calling `close()`. -/
def WritePc.inClose : WritePc → Bool
  | .closing _ => true
  | _ => false

/-- What `_write_condition` guards, the write thread and the sending half of the
socket. -/
structure WriteSide where
  pendingWrites : StaticList PendingWrite
  condition : WriteLock
  pc : WritePc
  idGenerator : AtomicInteger
  futures : Futures WriteValue
  outgoing : List UInt8
  /-- history: what each call of `write` returned or raised -/
  returns : List (Except Exc (ℕ × ℕ))
  /-- history: the entries written in full -/
  sent : List PendingWrite

/-- `ConnectionAbortError("write abort")` -/
def writeAbort : Exc := { cls := .connectionAbortError, msg := "write abort" }

/-- The exception of an entry found expired. -/
def writeExpired (transactionId : ℕ) : Exc where
  cls := .connectionWriteTimeout
  msg := "transaction_id: " ++ toString transactionId

namespace WriteSide

/-- `_update_pending_writes`. The future and the id are taken before the
insertion, which fails when every node is in use. -/
def updatePendingWrites (w : WriteSide) (buff : Body) (timeout : Option ℤ) (now : ℤ) :
    Except Exc (ℕ × ℕ) × WriteSide :=
  let f := w.futures.count
  let id := w.idGenerator.increase 1
  let w' := { w with futures := w.futures.create, idGenerator := id.2 }
  match w.pendingWrites.insertLeft ⟨buff, f, id.1, now, timeout⟩ with
  | .ok pendingWrites => (.ok (f, id.1), { w' with pendingWrites := pendingWrites })
  | .error ex => (.error ex, w')

/-- `_write_condition.notify_all()` -/
def notifyAll (w : WriteSide) : WriteSide :=
  match w.pc with
  | .waiting _ => { w with pc := .waiting true }
  | _ => w

/-- `write`, up to the test of the flags. -/
def enterWrite (w : WriteSide) (closing : Bool) (buff : Body) (timeout : Option ℤ) : WriteSide :=
  if closing then { w with returns := w.returns ++ [.error writeAbort] }
  else { w with condition := .client buff timeout }

/-- `write`, from the test of the flags on. -/
def commitWrite (w : WriteSide) (buff : Body) (timeout : Option ℤ) (now : ℤ) : WriteSide :=
  if w.pendingWrites.isFull then
    { w with
      condition := .free
      returns := w.returns ++
        [.error { cls := .maxPendingWritesReachedError, msg := "max pending writes reached" }] }
  else
    match w.updatePendingWrites buff timeout now with
    | (.ok (f, transactionId), w') =>
        { w'.notifyAll with
          condition := .free
          returns := w.returns ++ [.ok (transactionId, f)] }
    | (.error ex, w') => { w' with condition := .free, returns := w.returns ++ [.error ex] }

/-- `_precheck_before_writing`, up to the test of the flags. -/
def acquire (w : WriteSide) (closing : Bool) : WriteSide :=
  if closing then { w with pc := .exited }
  else { w with pc := .locked, condition := .writeThread }

/-- `_precheck_before_writing`, the test of the size: wait when there is nothing
to write, else pop an entry. -/
def take (w : WriteSide) : WriteSide :=
  match w.pendingWrites.popLeft with
  | .error _ => { w with pc := .waiting false, condition := .free }
  | .ok (e, pendingWrites) =>
      { w with pc := .holding e, condition := .free, pendingWrites := pendingWrites }

/-- `_precheck_before_writing`, after the wait: whether a heartbeat is due. -/
def wake (w : WriteSide) (closing heartbeats : Bool) : WriteSide :=
  if !closing && w.pendingWrites.size = 0 && heartbeats then
    { w with pc := .woken, condition := .writeThread }
  else { w with pc := .precheck false false }

/-- `_async_write`, from the test of the timeout to the packet. An exception that
`generate_packet` raises is no `socket.error`: it ends the thread. -/
def check (w : WriteSide) (e : PendingWrite) (now : ℤ) : WriteSide :=
  if e.expired now then
    { w with
      futures := w.futures.resolve e.future (.error (writeExpired e.transactionId))
      pc := .precheck false false }
  else
    match generatePacket e.transactionId e.buff with
    | .ok data => { w with pc := .sending e data }
    | .error _ => { w with pc := .died }

/-- One `sock.send` inside `write_data`, which takes `k` of the bytes. -/
def send (w : WriteSide) (e : PendingWrite) (rest : List UInt8) (k : ℕ) : WriteSide :=
  { w with outgoing := w.outgoing ++ rest.take k, pc := .sending e (rest.drop k) }

/-- `_async_write`, after `transport.write` has returned. -/
def finish (w : WriteSide) (e : PendingWrite) : WriteSide :=
  { w with
    futures := w.futures.resolve e.future (.ok (.transactionId e.transactionId))
    pc := .precheck false false
    sent := w.sent ++ [e] }

/-- `_async_write`, the `except` branches: `socket.timeout` or another
`socket.error`. -/
def fail (w : WriteSide) (e : PendingWrite) (timedOut : Bool) : WriteSide :=
  { w with
    futures := w.futures.resolve e.future
      (.error (if timedOut then { cls := .connectionWriteTimeout, msg := "write timeout" }
        else writeAbort))
    pc := .closing (some e) }

/-- `_close_write`: fails every entry, then wakes the write thread. -/
def close (w : WriteSide) : WriteSide :=
  let w' : WriteSide :=
    { w with
      futures := w.futures.failAll (w.pendingWrites.elements.map PendingWrite.future) writeAbort
      pendingWrites := { w.pendingWrites with elements := [], length_le := Nat.zero_le _ } }
  w'.notifyAll

end WriteSide

/-! ## The read side -/

/-- A packet `transport.read` returned: transaction id and body. -/
abbrev Packet := ℕ × Body

/-- The holder of `_read_condition` between two steps: a client in `read`, past
the test of the flags, or the read thread. -/
inductive ReadLock where
  | free
  | client (transactionId : ℕ)
  | readThread
deriving DecidableEq, Repr

/-- Where the read thread is. -/
inductive ReadPc where
  /-- at the top of the loop -/
  | top
  /-- holding the condition, flags seen clear -/
  | locked
  /-- in `wait`, notified or not -/
  | waiting (notified : Bool)
  /-- in `transport.read` -/
  | reading
  /-- calling `close()` after a failed read -/
  | closing
  /-- with a packet, before taking `_heartbeat_lock` -/
  | received (p : Packet)
  /-- holding `_heartbeat_lock`, flags seen clear -/
  | heartbeatLocked (p : Packet)
  /-- with a packet that is no heartbeat, before taking the condition -/
  | unrouted (p : Packet)
  /-- holding the condition, flags seen clear -/
  | routing (p : Packet)
  | exited
deriving DecidableEq, Repr

/-- The packet the read thread has read and not dealt with. -/
def ReadPc.packet : ReadPc → Option Packet
  | .received p => some p
  | .heartbeatLocked p => some p
  | .unrouted p => some p
  | .routing p => some p
  | _ => none

/-- The read thread is in the block `_heartbeat_lock` guards. -/
def ReadPc.holdsHeartbeatLock : ReadPc → Bool
  | .heartbeatLocked _ => true
  | _ => false

/-- What `_read_condition` guards, the read thread and the receiving half of the
socket. -/
structure ReadSide where
  pendingReads : LRUCache ℕ ℕ
  poolingReads : LRUCache ℕ ℕ
  condition : ReadLock
  pc : ReadPc
  futures : Futures Body
  incoming : List UInt8
  /-- history: the id each call of `read` asked for, and what it returned or raised -/
  returns : List (ℕ × Except Exc ℕ)
  /-- history: the packets `transport.read` has returned -/
  received : List Packet
  /-- history: the packets that answered a heartbeat -/
  answered : List Packet
  /-- history: the packets routed as normal responses, with the future each was given to -/
  routed : List (Packet × ℕ)
  /-- history: the entries that left `_pending_reads` when another one was stored -/
  evicted : List (Entry ℕ ℕ)
  /-- history: the entries that left a full `_pooling_reads` when another key was stored -/
  dropped : List (Entry ℕ ℕ)
  /-- history: the entries of `_pooling_reads` whose own key was stored again -/
  overwritten : List (Entry ℕ ℕ)
  /-- history: the entries `close()` cleared from `_pooling_reads` -/
  cleared : List (Entry ℕ ℕ)

/-- `ConnectionAbortError("read abort")` -/
def readAbort : Exc := { cls := .connectionAbortError, msg := "read abort" }

/-- `MaxPendingReadsReachedError("max pending reads reached")` -/
def maxPendingReads : Exc where
  cls := .maxPendingReadsReachedError
  msg := "max pending reads reached"

namespace ReadSide

/-- `_read_condition.notify_all()` -/
def notifyAll (r : ReadSide) : ReadSide :=
  match r.pc with
  | .waiting _ => { r with pc := .waiting true }
  | _ => r

/-- `read`, up to the test of the flags. -/
def enterRead (r : ReadSide) (closing : Bool) (transactionId : ℕ) : ReadSide :=
  if closing then { r with returns := r.returns ++ [(transactionId, .error readAbort)] }
  else { r with condition := .client transactionId }

/-- The entry `will_be_kicked_out` announces is failed. -/
def failKickedOut (r : ReadSide) : ReadSide :=
  match r.pendingReads.willBeKickedOut with
  | some entry => { r with futures := r.futures.resolve entry.value (.error maxPendingReads) }
  | none => r

/-- `read`, the end of it: a new future is stored under the id. -/
def storeRead (r : ReadSide) (transactionId : ℕ) : ReadSide :=
  let f := r.futures.count
  let pendingReads := r.pendingReads.setItem transactionId f
  let r' : ReadSide :=
    { r with
      futures := r.futures.create
      pendingReads := pendingReads
      condition := .free
      returns := r.returns ++ [(transactionId, .ok f)]
      evicted := r.evicted ++ r.pendingReads.lost pendingReads }
  r'.notifyAll

/-- `read`, from the test of the flags on. -/
def commitRead (r : ReadSide) (transactionId : ℕ) : ReadSide :=
  match r.poolingReads.getItem transactionId with
  | some (f, poolingReads) =>
      { r with
        poolingReads := poolingReads.erase transactionId
        condition := .free
        returns := r.returns ++ [(transactionId, .ok f)] }
  | none =>
    match r.pendingReads.getItem transactionId with
    | some (f, pendingReads) =>
        { r with
          pendingReads := pendingReads
          condition := .free
          returns := r.returns ++ [(transactionId, .ok f)] }
    | none => r.failKickedOut.storeRead transactionId

/-- `_async_read`, up to the test of the flags at the top of the loop. -/
def acquire (r : ReadSide) (closing : Bool) : ReadSide :=
  if closing then { r with pc := .exited } else { r with pc := .locked, condition := .readThread }

/-- `_async_read`: wait when nobody asked for a response, else read one. -/
def look (r : ReadSide) (hasHeartbeat : Bool) : ReadSide :=
  if r.pendingReads.currentSize = 0 && !hasHeartbeat then
    { r with pc := .waiting false, condition := .free }
  else { r with pc := .reading, condition := .free }

/-- `transport.read` has returned `p`. -/
def receive (r : ReadSide) (p : Packet) (incoming : List UInt8) : ReadSide :=
  { r with incoming := incoming, pc := .received p, received := r.received ++ [p] }

/-- `_async_read`, the test of the flags under `_heartbeat_lock`. -/
def lockHeartbeats (r : ReadSide) (closing : Bool) (p : Packet) : ReadSide :=
  if closing then { r with pc := .exited } else { r with pc := .heartbeatLocked p }

/-- `_async_read`, the test of the flags before a normal response is routed. -/
def lockRoute (r : ReadSide) (closing : Bool) (p : Packet) : ReadSide :=
  if closing then { r with pc := .exited }
  else { r with pc := .routing p, condition := .readThread }

/-- `_async_read`: the response goes to the future that waits for it. -/
def routeToReader (r : ReadSide) (p : Packet) (f : ℕ) (pendingReads : LRUCache ℕ ℕ) : ReadSide :=
  { r with
    pendingReads := pendingReads.erase p.1
    futures := r.futures.resolve f (.ok p.2)
    condition := .free
    pc := .top
    routed := r.routed ++ [(p, f)] }

/-- `_async_read`: the response waits for its reader in `_pooling_reads`. -/
def routeToPool (r : ReadSide) (p : Packet) : ReadSide :=
  let f := r.futures.count
  let poolingReads := r.poolingReads.setItem p.1 f
  let lost := r.poolingReads.lost poolingReads
  { r with
    poolingReads := poolingReads
    futures := r.futures.create.resolve f (.ok p.2)
    condition := .free
    pc := .top
    routed := r.routed ++ [(p, f)]
    dropped := if r.poolingReads.contains p.1 then r.dropped else r.dropped ++ lost
    overwritten := if r.poolingReads.contains p.1 then r.overwritten ++ lost else r.overwritten }

/-- `_async_read`, the routing of a normal response. -/
def route (r : ReadSide) (p : Packet) : ReadSide :=
  match r.pendingReads.getItem p.1 with
  | some (f, pendingReads) => r.routeToReader p f pendingReads
  | none => r.routeToPool p

/-- `_close_read`: fails every pending read, clears the responses nobody asked
for, then wakes the read thread. The failed futures stay in `_pending_reads`. -/
def close (r : ReadSide) : ReadSide :=
  let r' : ReadSide :=
    { r with
      futures := r.futures.failAll (r.pendingReads.iteritems.map Prod.snd) readAbort
      poolingReads := r.poolingReads.clear
      cleared := r.cleared ++ r.poolingReads.entries }
  r'.notifyAll

end ReadSide

/-! ## The flags -/

/-- How far the thread that closes the connection has come in `close()`. -/
inductive ClosePhase where
  | flagged
  | socketClosed
  | writesClosed
  | readsClosed
  | closedSet
deriving DecidableEq, Repr

/-- `_closing`, `_closed`, `_close_lock` and the thread that closes. -/
structure CloseFlags where
  closing : Bool
  closed : Bool
  /-- the holder of `_close_lock`, which has read `_closed` as `False` there -/
  lock : Option Thread
  /-- the thread that has set `_closing` and is not through -/
  closer : Option (Thread × ClosePhase)
  /-- history: the callers whose call of `close` has returned -/
  returns : List Thread
deriving DecidableEq, Repr

/-- `self._closing or self._closed` -/
def CloseFlags.test (c : CloseFlags) : Bool := c.closing || c.closed

/-- `_close_lock` is released, if it is `t` that holds it. -/
def CloseFlags.release (c : CloseFlags) (t : Thread) : CloseFlags :=
  { c with lock := if c.lock = some t then none else c.lock }

/-! ## The connection -/

/-- Parameters of `__init__`. `heartbeatFunc` says whether there is one; what a
call of it returns or raises is an input of the step that calls it. -/
structure Config where
  maxPendingWrites : Option ℕ
  maxPendingReads : Option ℕ
  maxPoolingReads : Option ℕ
  writeTimeout : Option ℤ
  heartbeatInterval : Option ℤ
  heartbeatFunc : Bool
deriving DecidableEq, Repr

/-- `timeout or self._write_timeout` -/
def Config.timeoutOr (cfg : Config) (timeout : Option ℤ) : Option ℤ :=
  match timeout with
  | none => cfg.writeTimeout
  | some t => if t = 0 then cfg.writeTimeout else some t

/-- A heartbeat inserted by the write thread, with the number of packets read
from the socket before that (history). -/
structure Beat where
  transactionId : ℕ
  future : ℕ
  receivedBefore : ℕ
deriving DecidableEq, Repr

/-- The state of a connection and its two threads. -/
structure SharedBlockingConnection where
  writeSide : WriteSide
  readSide : ReadSide
  heartbeats : LRUCache ℕ ℕ
  flags : CloseFlags
  /-- history: the heartbeats inserted -/
  beats : List Beat

namespace SharedBlockingConnection

/-- `StaticList(max_pending_writes or 65535)` -/
def newPendingWrites (maxPendingWrites : Option ℕ) : StaticList PendingWrite :=
  match maxPendingWrites with
  | some (n + 1) => StaticList.new (n + 1) (Nat.succ_pos n)
  | _ => StaticList.new 65535 (by omega)

/-- `__init__`: both threads are started. -/
def new (cfg : Config) : SharedBlockingConnection where
  writeSide :=
    { pendingWrites := newPendingWrites cfg.maxPendingWrites
      condition := .free
      pc := .precheck false false
      idGenerator := AtomicInteger.new 0 sysMaxint
      futures := Futures.empty
      outgoing := []
      returns := []
      sent := [] }
  readSide :=
    { pendingReads := LRUCache.new cfg.maxPendingReads
      poolingReads := LRUCache.new cfg.maxPoolingReads
      condition := .free
      pc := .top
      futures := Futures.empty
      incoming := []
      returns := []
      received := []
      answered := []
      routed := []
      evicted := []
      dropped := []
      overwritten := []
      cleared := [] }
  heartbeats := LRUCache.new (some 4)
  flags := { closing := false, closed := false, lock := none, closer := none, returns := [] }
  beats := []

/-! ## Steps -/

/-- The steps of the threads, with the values their locals then have and what the
clock, the socket and `heartbeat_func` answer. -/
inductive Label where
  -- `write`
  | writeEnter (buff : Body) (timeout : Option ℤ)
  | writeCommit (buff : Body) (timeout : Option ℤ) (now : ℤ)
  -- `read`
  | readEnter (transactionId : ℕ)
  | readCommit (transactionId : ℕ)
  -- `close`, called by any thread
  | closeTest (c : Thread)
  | closeReturn (c : Thread)
  | closeFlag (c : Thread)
  | closeSocket (c : Thread)
  | closeWrite (c : Thread)
  | closeRead (c : Thread)
  | closeSet (c : Thread)
  | closeDone (c : Thread)
  -- the write thread
  | writeMissing (wakeup : Bool)
  | writeNotify
  | writeAcquire
  | writeTake
  | writeWake (notified : Bool)
  | writeBeat (now : ℤ) (heartbeat : Except Exc Body)
  | writeCheck (e : PendingWrite) (now : ℤ)
  | writeSend (e : PendingWrite) (rest : List UInt8) (k : ℕ)
  | writeFinish (e : PendingWrite)
  | writeFail (e : PendingWrite) (rest : List UInt8) (timedOut : Bool)
  -- the read thread
  | readAcquire
  | readLook
  | readWake
  | readReceive (p : Packet) (rest : List UInt8)
  | readFail
  | readHeartbeatLock (p : Packet)
  | readHeartbeat (p : Packet)
  | readRouteLock (p : Packet)
  | readRoute (p : Packet)
  -- the peer
  | deliver (bs : List UInt8)

/-- The threads that are at a call of `close()`: clients at any time, the two
threads where their code calls it. -/
def MayClose (s : SharedBlockingConnection) : Thread → Prop
  | .client _ => True
  | .writeThread => s.writeSide.pc.inClose = true
  | .readThread => s.readSide.pc = .closing

/-- When a step may happen: where its thread is, and the locks it takes. -/
def guard (cfg : Config) (l : Label) (s : SharedBlockingConnection) : Prop :=
  match l with
  | .writeEnter _ _ => s.writeSide.condition = .free
  | .writeCommit buff timeout _ => s.writeSide.condition = .client buff timeout
  | .readEnter _ => s.readSide.condition = .free
  | .readCommit transactionId => s.readSide.condition = .client transactionId
  -- `_closed` is read under `_close_lock`
  | .closeTest c => s.MayClose c ∧ s.flags.closer.map Prod.fst ≠ some c ∧
      s.flags.lock = none ∧ s.flags.closed = false
  -- one of the flags is found set; the holder of the lock has read `_closed` already
  | .closeReturn c => s.MayClose c ∧ s.flags.closer.map Prod.fst ≠ some c ∧
      (s.flags.closing = true ∨ (s.flags.closed = true ∧ s.flags.lock ≠ some c))
  | .closeFlag c => s.flags.lock = some c ∧ s.flags.closing = false
  | .closeSocket c => s.flags.closer = some (c, .flagged)
  | .closeWrite c => s.flags.closer = some (c, .socketClosed) ∧ s.writeSide.condition = .free
  | .closeRead c => s.flags.closer = some (c, .writesClosed) ∧ s.readSide.condition = .free
  | .closeSet c => s.flags.closer = some (c, .readsClosed)
  | .closeDone c => s.flags.closer = some (c, .closedSet)
  | .writeMissing wakeup => s.writeSide.pc = .precheck true wakeup
  | .writeNotify => s.writeSide.pc = .precheck false true ∧ s.readSide.condition = .free
  | .writeAcquire => s.writeSide.pc = .precheck false false ∧ s.writeSide.condition = .free
  | .writeTake => s.writeSide.pc = .locked
  -- without a heartbeat interval only a notification ends the wait
  | .writeWake notified => s.writeSide.pc = .waiting notified ∧ s.writeSide.condition = .free ∧
      (notified = true ∨ cfg.heartbeatInterval ≠ none)
  | .writeBeat _ _ => s.writeSide.pc = .woken ∧ s.readSide.pc.holdsHeartbeatLock = false
  | .writeCheck e _ => s.writeSide.pc = .holding e
  | .writeSend e rest k => s.writeSide.pc = .sending e rest ∧ 0 < k ∧ k ≤ rest.length
  | .writeFinish e => s.writeSide.pc = .sending e []
  | .writeFail e rest _ => s.writeSide.pc = .sending e rest ∧ rest ≠ []
  | .readAcquire => s.readSide.pc = .top ∧ s.readSide.condition = .free
  | .readLook => s.readSide.pc = .locked
  | .readWake => s.readSide.pc = .waiting true ∧ s.readSide.condition = .free
  | .readReceive p rest => s.readSide.pc = .reading ∧
      packetCode.dec s.readSide.incoming = some (p, rest)
  | .readFail => s.readSide.pc = .reading
  | .readHeartbeatLock p => s.readSide.pc = .received p
  | .readHeartbeat p => s.readSide.pc = .heartbeatLocked p
  | .readRouteLock p => s.readSide.pc = .unrouted p ∧ s.readSide.condition = .free
  | .readRoute p => s.readSide.pc = .routing p
  | .deliver _ => True

/-- The call of `close()` by `c` returns; both threads end after it. -/
def returnFromClose (s : SharedBlockingConnection) (c : Thread) : SharedBlockingConnection :=
  { s with
    writeSide := if c = .writeThread then { s.writeSide with pc := .exited } else s.writeSide
    readSide := if c = .readThread then { s.readSide with pc := .exited } else s.readSide
    flags := { s.flags with returns := s.flags.returns ++ [c] } }

/-- `_precheck_before_writing`, the block under `_heartbeat_lock`. An exception
from `heartbeat_func` ends the write thread, which keeps `_write_condition`. -/
def insertHeartbeat (s : SharedBlockingConnection) (cfg : Config) (now : ℤ)
    (heartbeat : Except Exc Body) : SharedBlockingConnection :=
  if s.heartbeats.currentSize < s.heartbeats.maxSize then
    match heartbeat with
    | .error _ => { s with writeSide := { s.writeSide with pc := .died } }
    | .ok buff =>
      match s.writeSide.updatePendingWrites buff cfg.heartbeatInterval now with
      | (.error _, w) => { s with writeSide := { w with pc := .died } }
      | (.ok (f, transactionId), w) =>
          { s with
            writeSide := { w with pc := .precheck false true, condition := .free }
            heartbeats := s.heartbeats.setItem transactionId f
            beats := s.beats ++ [⟨transactionId, f, s.readSide.received.length⟩] }
  else { s with writeSide := { s.writeSide with pc := .precheck true false, condition := .free } }

/-- `_async_read`, the block under `_heartbeat_lock`: the response of a heartbeat
resolves its future and gives up its slot. -/
def answerHeartbeat (s : SharedBlockingConnection) (p : Packet) : SharedBlockingConnection :=
  match s.heartbeats.getItem p.1 with
  | some (f, heartbeats) =>
      { s with
        writeSide :=
          { s.writeSide with futures := s.writeSide.futures.resolve f (.ok (.response p.2)) }
        readSide := { s.readSide with pc := .top, answered := s.readSide.answered ++ [p] }
        heartbeats := heartbeats.erase p.1 }
  | none => { s with readSide := { s.readSide with pc := .unrouted p } }

/-- The state a step leads to. -/
def update (cfg : Config) (l : Label) (s : SharedBlockingConnection) : SharedBlockingConnection :=
  match l with
  | .writeEnter buff timeout =>
      { s with writeSide := s.writeSide.enterWrite s.flags.test buff (cfg.timeoutOr timeout) }
  | .writeCommit buff timeout now =>
      { s with writeSide := s.writeSide.commitWrite buff timeout now }
  | .readEnter transactionId =>
      { s with readSide := s.readSide.enterRead s.flags.test transactionId }
  | .readCommit transactionId => { s with readSide := s.readSide.commitRead transactionId }
  | .closeTest c => { s with flags := { s.flags with lock := some c } }
  | .closeReturn c => { s with flags := s.flags.release c }.returnFromClose c
  | .closeFlag c =>
      { s with
        flags := { s.flags with closing := true, lock := none, closer := some (c, .flagged) } }
  | .closeSocket c => { s with flags := { s.flags with closer := some (c, .socketClosed) } }
  | .closeWrite c =>
      { s with
        writeSide := s.writeSide.close
        flags := { s.flags with closer := some (c, .writesClosed) } }
  | .closeRead c =>
      { s with
        readSide := s.readSide.close
        flags := { s.flags with closer := some (c, .readsClosed) } }
  | .closeSet c =>
      { s with flags := { s.flags with closed := true, closer := some (c, .closedSet) } }
  | .closeDone c =>
      { s with flags := { s.flags with closing := false, closer := none } }.returnFromClose c
  | .writeMissing _ => { s with writeSide := { s.writeSide with pc := .closing none } }
  | .writeNotify =>
      { s with
        writeSide := { s.writeSide with pc := .precheck false false }
        readSide := s.readSide.notifyAll }
  | .writeAcquire => { s with writeSide := s.writeSide.acquire s.flags.test }
  | .writeTake => { s with writeSide := s.writeSide.take }
  | .writeWake _ =>
      { s with
        writeSide := s.writeSide.wake s.flags.test
          (cfg.heartbeatFunc && cfg.heartbeatInterval.isSome) }
  | .writeBeat now heartbeat => s.insertHeartbeat cfg now heartbeat
  | .writeCheck e now => { s with writeSide := s.writeSide.check e now }
  | .writeSend e rest k => { s with writeSide := s.writeSide.send e rest k }
  | .writeFinish e => { s with writeSide := s.writeSide.finish e }
  | .writeFail e _ timedOut => { s with writeSide := s.writeSide.fail e timedOut }
  | .readAcquire => { s with readSide := s.readSide.acquire s.flags.test }
  | .readLook => { s with readSide := s.readSide.look (decide (0 < s.heartbeats.currentSize)) }
  | .readWake => { s with readSide := { s.readSide with pc := .top } }
  | .readReceive p rest => { s with readSide := s.readSide.receive p rest }
  | .readFail => { s with readSide := { s.readSide with pc := .closing } }
  | .readHeartbeatLock p =>
      { s with readSide := s.readSide.lockHeartbeats s.flags.test p }
  | .readHeartbeat p => s.answerHeartbeat p
  | .readRouteLock p => { s with readSide := s.readSide.lockRoute s.flags.test p }
  | .readRoute p => { s with readSide := s.readSide.route p }
  | .deliver bs =>
      { s with readSide := { s.readSide with incoming := s.readSide.incoming ++ bs } }

/-- The connection as a transition system. -/
def system (cfg : Config) : Lts.Spec SharedBlockingConnection Label where
  init := fun s => s = new cfg
  guard := guard cfg
  update := update cfg

instance (s : SharedBlockingConnection) : (c : Thread) → Decidable (s.MayClose c)
  | .client _ => isTrue trivial
  | .writeThread => inferInstanceAs (Decidable (_ = true))
  | .readThread => inferInstanceAs (Decidable (_ = ReadPc.closing))

instance (cfg : Config) (l : Label) (s : SharedBlockingConnection) :
    Decidable ((system cfg).guard l s) := by
  cases l <;> (simp only [system, guard]; infer_instance)

end SharedBlockingConnection

end SummerRpc
