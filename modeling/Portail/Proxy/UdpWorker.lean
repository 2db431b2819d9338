import Portail.Dataplane.Refresh
import Portail.Lib.Runs
import Portail.Routing.Table

/-!
# UDP sessions

The workers of `proxy/udp_worker.rs`, one for each listener socket, each with a table of
sessions of its own, over one route table that is swapped under them and one budget of
sessions. A worker's turn is cut where it reads or writes what others share and where it
awaits. Payloads, reply datagrams and log lines are left out. The generation counts the
tables a worker has seen, in 64 bits that wrap; beside it stands their number, which nothing
reads.
-/

namespace Portail.Proxy.Udp

open Lib Http Routing Dataplane

section

variable {R : Type}

/-- A session; `finished` says that its reply task has ended. -/
structure UdpSession where
  backendAddr : SocketAddr
  finished : Bool
  lastActive : ℕ
  generation : UInt64

abbrev Sessions := Map SocketAddr UdpSession

/-- Where a worker stands. A datagram is followed from the table loaded at its arrival on; `held`
says that its client had a session then. From `routing` to `opening` the worker owns a slot. -/
inductive Phase (R : Type)
  | idle
  | arrived (client : SocketAddr) (now : ℕ) (table : Arc (RouteTable R)) (held : Bool)
  | taking (client : SocketAddr) (now : ℕ) (table : Arc (RouteTable R)) (held : Bool)
      (loaded : Option ℕ)
  | routing (client : SocketAddr) (now : ℕ) (table : Arc (RouteTable R))
  | connecting (client : SocketAddr) (now : ℕ) (table : Arc (RouteTable R)) (backend : SocketAddr)
  | opening (client : SocketAddr) (now : ℕ) (table : Arc (RouteTable R)) (backend : SocketAddr)
  | sending (client : SocketAddr) (table : Arc (RouteTable R))
  | reaping (now : ℕ) (left : List SocketAddr)
  | stopping

structure Worker (R : Type) where
  sessions : Sessions
  seen : Option (Arc (RouteTable R))
  generation : UInt64
  tables : ℕ
  counter : ℕ
  phase : Phase R

def Worker.new (R : Type) : Worker R := ⟨∅, none, 0, 0, 0, .idle⟩

/-- The table the next datagram is routed by. Another pointer than the last one is a new
generation; the last one's allocation stays pinned. -/
def Worker.load (w : Worker R) (table : Arc (RouteTable R)) : Worker R :=
  if w.seen.any (·.addr == table.addr) then w
  else { w with seen := some table, generation := w.generation + 1, tables := w.tables + 1 }

/-- A backend of the port with positive weight. -/
def routed (table : RouteTable R) (port : UInt16) (addr : SocketAddr) : Bool :=
  (table.udpRoutes.lookup port).any fun backends =>
    backends.any fun b => 0 < b.weight && b.socketAddr == addr

/-- The session that can carry its client's next datagram, brought up to the generation. -/
def Worker.reusable (w : Worker R) (table : RouteTable R) (port : UInt16) (client : SocketAddr) :
    Option UdpSession :=
  match w.sessions.lookup client with
  | none => none
  | some session =>
    if session.finished then none
    else if session.generation ≠ w.generation then
      if routed table port session.backendAddr then
        some { session with generation := w.generation }
      else none
    else some session

/-- The backend a datagram without a session goes to, and the counter after the pick. -/
def analyzeUdpRequest (isHealthy : SocketAddr → Bool) (table : RouteTable R) (port : UInt16)
    (counter : ℕ) : Except Fault (Option SocketAddr × ℕ) :=
  match table.udpRoutes.lookup port with
  | none => .ok (none, counter)
  | some backends =>
    if backends.isEmpty then .ok (none, counter)
    else do
      let (index, counter) ← selectL4Backend isHealthy backends counter
      match index.bind (backends[·]?) with
      | none => return (none, counter)
      | some b =>
        if b.action = .reject then return (none, counter)
        else return (some b.socketAddr, counter)

/-- The reaper's reasons. -/
def UdpSession.expired (idleMs now : ℕ) (s : UdpSession) : Bool :=
  s.finished || idleMs < now - s.lastActive

/-- What of a worker's step can be seen: a session's end, a datagram's arrival with the table
loaded for it, its move off a session, its way to a backend, its drop for want of a slot. -/
inductive Act (R : Type)
  | died (client : SocketAddr)
  | recv (client : SocketAddr) (table : Arc (RouteTable R))
  | moved (client : SocketAddr) (table : Arc (RouteTable R))
  | sent (client backend : SocketAddr) (table : Arc (RouteTable R))
  | failed (client backend : SocketAddr) (table : Arc (RouteTable R))
  | closed (client : SocketAddr)
  | overflow (client : SocketAddr) (held : Bool)
  | quiet

variable (max idleMs : ℕ) (port : UInt16) (routes : Arc (RouteTable R)) in
/-- A step of one worker, over the table live and the count of open sessions. -/
inductive WorkerStep (n : ℕ) (w : Worker R) : Act R → ℕ → Worker R → Prop
  | died {client s} : w.sessions.lookup client = some s →
      WorkerStep n w (.died client) n
        { w with sessions := w.sessions.insert client { s with finished := true } }
  | reply {client s} (now : ℕ) : w.sessions.lookup client = some s → s.finished = false →
      WorkerStep n w .quiet n
        { w with sessions := w.sessions.insert client { s with lastActive := now } }
  | recv (client : SocketAddr) (now : ℕ) : w.phase = .idle →
      WorkerStep n w (.recv client routes) n
        { w.load routes with
          phase := .arrived client now routes (w.sessions.lookup client).isSome }
  | reuse {client now table held s} : w.phase = .arrived client now table held →
      w.reusable table.val port client = some s →
      WorkerStep n w .quiet n
        { w with
          sessions := w.sessions.insert client { s with lastActive := now }
          phase := .sending client table }
  | move {client now table held s} : w.phase = .arrived client now table held →
      w.reusable table.val port client = none → w.sessions.lookup client = some s →
      WorkerStep n w (.moved client table) n
        { w with sessions := w.sessions.erase client, phase := .routing client now table }
  | want {client now table held} : w.phase = .arrived client now table held →
      w.reusable table.val port client = none → w.sessions.lookup client = none →
      WorkerStep n w .quiet n { w with phase := .taking client now table held none }
  | loadOpen {client now table held loaded} : w.phase = .taking client now table held loaded →
      (∀ seen ∈ loaded, seen < max) →
      WorkerStep n w .quiet n { w with phase := .taking client now table held (some n) }
  | exchange {client now table held} : w.phase = .taking client now table held (some n) → n < max →
      WorkerStep n w .quiet (n + 1) { w with phase := .routing client now table }
  | overflow {client now table held seen} : w.phase = .taking client now table held (some seen) →
      max ≤ seen →
      WorkerStep n w (.overflow client held) n { w with phase := .idle }
  | route {client now table backend counter} (isHealthy : SocketAddr → Bool) :
      w.phase = .routing client now table →
      analyzeUdpRequest isHealthy table.val port w.counter = .ok (some backend, counter) →
      WorkerStep n w .quiet n
        { w with counter := counter, phase := .connecting client now table backend }
  | unroutable {client now table counter} (isHealthy : SocketAddr → Bool) :
      w.phase = .routing client now table →
      analyzeUdpRequest isHealthy table.val port w.counter = .ok (none, counter) →
      WorkerStep n w .quiet (n - 1) { w with counter := counter, phase := .idle }
  | connect {client now table backend} : w.phase = .connecting client now table backend →
      WorkerStep n w .quiet n { w with phase := .opening client now table backend }
  | connectFails {client now table backend} : w.phase = .connecting client now table backend →
      WorkerStep n w .quiet (n - 1) { w with phase := .idle }
  | opens {client now table backend} : w.phase = .opening client now table backend →
      WorkerStep n w (.sent client backend table) n
        { w with
          sessions := w.sessions.insert client ⟨backend, false, now, w.generation⟩
          phase := .idle }
  | openFails {client now table backend} : w.phase = .opening client now table backend →
      WorkerStep n w (.failed client backend table) (n - 1) { w with phase := .idle }
  | sends {client table s} : w.phase = .sending client table → w.sessions.lookup client = some s →
      WorkerStep n w (.sent client s.backendAddr table) n { w with phase := .idle }
  | sendFails {client table s} :
      w.phase = .sending client table → w.sessions.lookup client = some s →
      WorkerStep n w (.failed client s.backendAddr table) (n - 1)
        { w with sessions := w.sessions.erase client, phase := .idle }
  | reap (now : ℕ) : w.phase = .idle →
      WorkerStep n w .quiet n { w with phase := .reaping now w.sessions.keys }
  | reapNext {now client left} : w.phase = .reaping now (client :: left) →
      (∀ s ∈ w.sessions.lookup client, s.expired idleMs now = false) →
      WorkerStep n w .quiet n { w with phase := .reaping now left }
  | reapDrop {now client left s} : w.phase = .reaping now (client :: left) →
      w.sessions.lookup client = some s → s.expired idleMs now = true →
      WorkerStep n w (.closed client) (n - 1)
        { w with sessions := w.sessions.erase client, phase := .reaping now left }
  | reaped {now} : w.phase = .reaping now [] →
      WorkerStep n w .quiet n { w with phase := .idle }
  | shutdown : w.phase = .idle →
      WorkerStep n w .quiet n { w with phase := .stopping }
  | stop {client s} : w.phase = .stopping →
      w.sessions.lookup client = some s →
      WorkerStep n w (.closed client) (n - 1) { w with sessions := w.sessions.erase client }

/-- The workers of the listeners, the table live and the slots taken. -/
structure World (ι R : Type) where
  routes : Arc (RouteTable R)
  opened : ℕ
  workers : ι → Worker R

variable {ι : Type} [DecidableEq ι]

/-- A pointer stored has an address of its own among those still allocated: the live table's and
those the workers pin. -/
def World.Fits (w : World ι R) (table : Arc (RouteTable R)) : Prop :=
  (table.addr = w.routes.addr → table.val = w.routes.val) ∧
    ∀ i, ∀ seen ∈ (w.workers i).seen, seen.addr = table.addr → seen.val = table.val

variable (max idleMs : ℕ) (port : ι → UInt16) in
inductive Step (w : World ι R) : Option (ι × Act R) → World ι R → Prop
  | swap {table} : w.Fits table →
      Step w none { w with routes := table }
  | work {i act opened worker} :
      WorkerStep max idleMs (port i) w.routes w.opened (w.workers i) act opened worker →
      Step w (some (i, act))
        { w with opened := opened, workers := Function.update w.workers i worker }

def Fresh (w : World ι R) : Prop := w.opened = 0 ∧ ∀ i, w.workers i = Worker.new R

end
end Portail.Proxy.Udp
