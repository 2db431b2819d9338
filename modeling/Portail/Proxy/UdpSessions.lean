import Mathlib.Algebra.BigOperators.Fin
import Portail.Lib.Maps
import Portail.Proxy.UdpWorker

/-!
# Laws of the UDP sessions

Slots taken are sessions held and opens under way; until the generation wraps, a session of
the generation at hand has a backend that the generation's table routes. Both are kept by
every step of every worker, whatever the others do in between.
-/

namespace Portail.Proxy.Udp

open Lib Http Routing Dataplane Function

variable {R : Type} {table : RouteTable R} {p : Phase R}

section

variable {i counter : ℕ} {backends : List Backend} {isHealthy : SocketAddr → Bool}

theorem getElem?_of_next {b : Backend} {rest : List Backend} {found : Option ℕ}
    (h : found.map (· + 1) = some i)
    (hrest : ∀ j, found = some j → ∃ c, rest[j]? = some c ∧ 0 < c.weight) :
    ∃ c, (b :: rest)[i]? = some c ∧ 0 < c.weight := by
  obtain ⟨j, hj, rfl⟩ := Option.map_eq_some_iff.mp h
  simpa using hrest j hj

theorem walkFrom_weight {skip : Backend → Bool} {slot cumulative : ℕ} (hle : cumulative ≤ slot)
    (h : walkFrom skip slot cumulative backends = .ok (some i)) :
    ∃ b, backends[i]? = some b ∧ 0 < b.weight := by
  induction backends generalizing cumulative i with
  | nil => cases h
  | cons b rest ih =>
    rw [walkFrom] at h
    split_ifs at h
    · obtain ⟨found, hfound, h⟩ := bind_eq_ok.mp h
      apply getElem?_of_next (Except.ok.inj h)
      rintro j rfl
      exact ih hle hfound
    · obtain ⟨sum, hsum, h⟩ := bind_eq_ok.mp h
      have hadd : sum = cumulative + b.weight.toNat := by
        unfold addU64 at hsum
        split_ifs at hsum
        exact (Except.ok.inj hsum).symm
      split_ifs at h with hover
      · obtain rfl := Option.some.inj (Except.ok.inj h)
        refine ⟨b, rfl, ?_⟩
        rw [UInt32.lt_iff_toNat_lt]
        have hzero : (0 : UInt32).toNat = 0 := rfl
        omega
      · obtain ⟨found, hfound, h⟩ := bind_eq_ok.mp h
        apply getElem?_of_next (Except.ok.inj h)
        rintro j rfl
        exact ih (not_lt.mp hover) hfound

theorem selectDegraded_weight {total : ℕ}
    (h : selectDegraded isHealthy backends counter total = .ok (some i)) :
    ∃ b, backends[i]? = some b ∧ 0 < b.weight := by
  unfold selectDegraded at h
  obtain ⟨slot, -, h⟩ := bind_eq_ok.mp h
  obtain ⟨found, hfound, h⟩ := bind_eq_ok.mp h
  cases found with
  | none => cases h
  | some owner =>
    have howner := walkFrom_weight (Nat.zero_le slot) hfound
    simp only at h
    obtain ⟨sums, -, h⟩ := bind_eq_ok.mp h
    split_ifs at h
    · obtain rfl := Option.some.inj (Except.ok.inj h)
      exact howner
    · simp only [bind_eq_ok] at h
      obtain ⟨rounds, -, perRound, -, whole, -, within, -, forwardPick, -, pick, -, nth, hnth, h⟩ :=
        h
      have hor := Except.ok.inj h
      cases nth with
      | none =>
        obtain rfl : owner = i := by simpa using hor
        exact howner
      | some j =>
        obtain rfl : j = i := by simpa using hor
        exact walkFrom_weight (Nat.zero_le pick) hnth

theorem selectL4Backend_weight {next : ℕ}
    (h : selectL4Backend isHealthy backends counter = .ok (some i, next)) :
    ∃ b, backends[i]? = some b ∧ 0 < b.weight := by
  unfold selectL4Backend at h
  obtain ⟨total, -, h⟩ := bind_eq_ok.mp h
  obtain ⟨healthy, -, h⟩ := bind_eq_ok.mp h
  split_ifs at h
  · cases h
  · obtain ⟨slot, -, h⟩ := bind_eq_ok.mp h
    obtain ⟨owner, howner, h⟩ := bind_eq_ok.mp h
    obtain ⟨rfl, -⟩ := Prod.mk.inj (Except.ok.inj h)
    exact walkFrom_weight (Nat.zero_le slot) howner
  · obtain ⟨found, hfound, h⟩ := bind_eq_ok.mp h
    obtain ⟨rfl, -⟩ := Prod.mk.inj (Except.ok.inj h)
    exact selectDegraded_weight hfound

theorem analyzeUdpRequest_routed {port : UInt16} {next : ℕ}
    {addr : SocketAddr}
    (h : analyzeUdpRequest isHealthy table port counter = .ok (some addr, next)) :
    routed table port addr = true := by
  unfold analyzeUdpRequest at h
  cases hport : table.udpRoutes.lookup port with
  | none => simp [hport] at h
  | some backends =>
    simp only [hport] at h
    split_ifs at h
    · cases h
    · obtain ⟨⟨index, next'⟩, hselect, h⟩ := bind_eq_ok.mp h
      cases index with
      | none => cases h
      | some i =>
        obtain ⟨b, hb, hweight⟩ := selectL4Backend_weight hselect
        simp only [Option.bind_some, hb] at h
        split_ifs at h
        · cases h
        · obtain ⟨haddr, -⟩ := Prod.mk.inj (Except.ok.inj h)
          cases haddr
          simp only [routed, hport, Option.any_some, List.any_eq_true]
          exact ⟨b, List.mem_of_getElem? hb, by simp [hweight]⟩

end

/-- Whether an open is under way. -/
def Phase.slot : Phase R → ℕ
  | .routing .. | .connecting .. | .opening .. => 1
  | _ => 0

/-- The slots a worker owns: its sessions' and that of the open under way. -/
def Worker.slots (w : Worker R) : ℕ := w.sessions.keys.length + w.phase.slot

section

/-- The session was found routed in a table the worker has seen; where that is the last one, it
routes the session's backend. -/
def Current (port : UInt16) (w : Worker R) (s : UdpSession) : Prop :=
  ∃ g ≤ w.tables, s.generation = UInt64.ofNat g ∧
    (g = w.tables → ∃ table, w.seen = some table ∧ routed table.val port s.backendAddr = true)

/-- How the datagram under way stands. -/
def PhaseInv (port : UInt16) (w : Worker R) : Phase R → Prop
  | .arrived client _ table held => w.seen = some table ∧ held = (w.sessions.lookup client).isSome
  | .taking client _ table held _ =>
    w.seen = some table ∧ w.sessions.lookup client = none ∧ held = false
  | .routing client _ table => w.seen = some table ∧ w.sessions.lookup client = none ∧ True
  | .connecting client _ table backend | .opening client _ table backend =>
    w.seen = some table ∧ w.sessions.lookup client = none ∧ routed table.val port backend = true
  | .sending client table => w.seen = some table ∧ ∃ s, w.sessions.lookup client = some s ∧
      (w.tables < 2 ^ 64 → routed table.val port s.backendAddr = true)
  | _ => True

/-- The sessions are current while the generation tells the tables apart. -/
structure WorkerInv (port : UInt16) (w : Worker R) : Prop where
  counted : w.generation = UInt64.ofNat w.tables
  current {client : SocketAddr} {s : UdpSession} : w.tables < 2 ^ 64 →
    w.sessions.lookup client = some s → Current port w s
  phase : PhaseInv port w w.phase

variable {max idleMs n n' : ℕ} {port : UInt16} {routes : Arc (RouteTable R)} {w w' : Worker R}
  {act : Act R}

theorem WorkerInv.new : WorkerInv port (Worker.new R) where
  counted := rfl
  current _ h := by simp [Worker.new] at h
  phase := trivial

variable {client : SocketAddr} {s : UdpSession}

/-- A session changed in other fields than its backend and generation. -/
theorem WorkerInv.touch (h : WorkerInv port w) {s' : UdpSession}
    (hs : w.sessions.lookup client = some s) (hbackend : s'.backendAddr = s.backendAddr)
    (hgeneration : s'.generation = s.generation) :
    WorkerInv port { w with sessions := w.sessions.insert client s' } := by
  have hnone (c : SocketAddr) (hc : w.sessions.lookup c = none) :
      (w.sessions.insert client s').lookup c = none := by
    rw [lookup_insert_cases, if_neg, hc]
    rintro rfl
    simp [hs] at hc
  have hsome (c : SocketAddr) : ((w.sessions.insert client s').lookup c).isSome =
      (w.sessions.lookup c).isSome := by
    rw [lookup_insert_cases]
    split_ifs with hc
    · rw [hc, hs]
      rfl
    · rfl
  refine ⟨h.counted, ?_, ?_⟩
  · intro c t hlt ht
    rw [lookup_insert_cases] at ht
    split_ifs at ht
    · cases ht
      unfold Current
      rw [hbackend, hgeneration]
      exact h.current hlt hs
    · exact h.current hlt ht
  · have hphase := h.phase
    generalize w.phase = phase at hphase ⊢
    cases phase with
    | arrived c now table held => exact ⟨hphase.1, hphase.2.trans (hsome c).symm⟩
    | taking c now table held loaded | connecting c now table backend
    | opening c now table backend | routing c now table =>
      exact ⟨hphase.1, hnone c hphase.2.1, hphase.2.2⟩
    | sending c table =>
      obtain ⟨hseen, t, ht, hrouted⟩ := hphase
      refine ⟨hseen, ?_⟩
      rw [lookup_insert_cases]
      split_ifs with hc
      · subst hc
        obtain rfl : s = t := Option.some.inj (hs.symm.trans ht)
        exact ⟨s', rfl, hbackend ▸ hrouted⟩
      · exact ⟨t, ht, hrouted⟩
    | idle | reaping now left | stopping => trivial

/-- A session dropped, or taken over for the datagram under way. -/
theorem WorkerInv.erase (h : WorkerInv port w) (client : SocketAddr)
    (hp : PhaseInv port { w with sessions := w.sessions.erase client } p) :
    WorkerInv port { w with sessions := w.sessions.erase client, phase := p } := by
  have hkept {c : SocketAddr} {t : UdpSession}
      (ht : (w.sessions.erase client).lookup c = some t) : w.sessions.lookup c = some t := by
    rw [lookup_erase_cases] at ht
    split_ifs at ht
    exact ht
  refine ⟨h.counted, fun hlt ht => h.current hlt (hkept ht), ?_⟩
  cases p <;> exact hp

/-- What a worker has seen is the live table or no longer live. -/
def Pinned (routes : Arc (RouteTable R)) (w : Worker R) : Prop :=
  ∀ seen ∈ w.seen, seen.addr = routes.addr → seen.val = routes.val

theorem load_seen (hpin : Pinned routes w) : (w.load routes).seen = some routes := by
  unfold Worker.load
  cases hseen : w.seen with
  | none => rfl
  | some seen =>
    by_cases haddr : seen.addr = routes.addr
    · have hval := hpin seen hseen haddr
      obtain ⟨addr, val⟩ := seen
      obtain ⟨addr', val'⟩ := routes
      obtain rfl : addr = addr' := haddr
      obtain rfl : val = val' := hval
      simp [hseen]
    · simp [haddr]

theorem load_sessions : (w.load routes).sessions = w.sessions := by
  unfold Worker.load
  split_ifs <;> rfl

theorem WorkerInv.load (h : WorkerInv port w) (hpin : Pinned routes w) (client : SocketAddr)
    (now : ℕ) : WorkerInv port { w.load routes with
      phase := .arrived client now routes (w.sessions.lookup client).isSome } := by
  refine ⟨?_, ?_, load_seen hpin, by rw [load_sessions]⟩
  · unfold Worker.load
    split_ifs
    · exact h.counted
    · simp only [h.counted, UInt64.ofNat_add]
      rfl
  · intro c s hlt hs
    rw [load_sessions] at hs
    unfold Worker.load at hlt ⊢
    split_ifs at hlt ⊢
    · exact h.current hlt hs
    · obtain ⟨g, hle, hgen, -⟩ := h.current (Nat.lt_of_succ_lt hlt) hs
      exact ⟨g, Nat.le_succ_of_le hle, hgen, fun heq => absurd heq (Nat.lt_succ_of_le hle).ne⟩

theorem reusable_spec (h : w.reusable table port client = some s) :
    ∃ old, w.sessions.lookup client = some old ∧ old.finished = false ∧
      s = { old with generation := w.generation } ∧
      (old.generation ≠ w.generation → routed table port old.backendAddr = true) := by
  unfold Worker.reusable at h
  cases hlookup : w.sessions.lookup client with
  | none => simp [hlookup] at h
  | some old =>
    simp only [hlookup] at h
    split_ifs at h with hfinished hgeneration hrouted
    · cases h
      exact ⟨old, rfl, by simpa using hfinished, rfl, fun _ => hrouted⟩
    · obtain rfl := Option.some.inj h
      have hsame : old.generation = w.generation := not_not.mp hgeneration
      exact ⟨old, rfl, by simpa using hfinished, by rw [← hsame], fun hne => absurd hsame hne⟩

/-- A session in the place of another for the same client, as of the table at hand. -/
theorem WorkerInv.current_insert (h : WorkerInv port w) {table : Arc (RouteTable R)}
    (hseen : w.seen = some table) (hgeneration : s.generation = w.generation)
    (hrouted : w.tables < 2 ^ 64 → routed table.val port s.backendAddr = true)
    (hp : p = .idle ∨ p = .sending client table) :
    WorkerInv port { w with sessions := w.sessions.insert client s, phase := p } := by
  refine ⟨h.counted, ?_, ?_⟩
  · intro c t hlt ht
    rw [lookup_insert_cases] at ht
    split_ifs at ht
    · cases ht
      exact ⟨w.tables, le_rfl, hgeneration.trans h.counted, fun _ => ⟨table, hseen, hrouted hlt⟩⟩
    · exact h.current hlt ht
  · rcases hp with rfl | rfl
    · trivial
    · refine ⟨hseen, s, ?_, hrouted⟩
      rw [lookup_insert_cases, if_pos rfl]

section

variable (hstep : WorkerStep max idleMs port routes n w act n' w')
include hstep

theorem WorkerStep.inv
    (h : WorkerInv port w) (hpin : Pinned routes w) : WorkerInv port w' := by
  have hphase := h.phase
  cases hstep with
  | died hs | reply now hs _ => exact h.touch hs rfl rfl
  | recv client now _ => exact h.load hpin client now
  | reuse hw hreuse =>
    rw [hw] at hphase
    obtain ⟨old, hold, -, rfl, hrouted⟩ := reusable_spec hreuse
    refine h.current_insert hphase.1 rfl (fun hlt => ?_) (.inr rfl)
    by_cases hgen : old.generation = w.generation
    · obtain ⟨g, hle, hold', hcurrent⟩ := h.current hlt hold
      -- below 2 ^ 64 a generation is of one table
      have hsame : g % 2 ^ 64 = w.tables % 2 ^ 64 := by
        rw [← UInt64.toNat_ofNat', ← hold', hgen, h.counted, UInt64.toNat_ofNat']
      obtain ⟨table, hseen, hcurrent⟩ := hcurrent (by omega)
      obtain rfl := Option.some.inj (hphase.1.symm.trans hseen)
      exact hcurrent
    · exact hrouted hgen
  | move hw _ hs =>
    rw [hw] at hphase
    exact h.erase _ ⟨hphase.1, by rw [lookup_erase_cases, if_pos rfl], trivial⟩
  | want hw _ hs =>
    rw [hw] at hphase
    exact ⟨h.counted, h.current, hphase.1, hs, by rw [hphase.2, hs]; rfl⟩
  | loadOpen hw _ | connect hw =>
    rw [hw] at hphase
    exact ⟨h.counted, h.current, hphase⟩
  | exchange hw _ =>
    rw [hw] at hphase
    exact ⟨h.counted, h.current, hphase.1, hphase.2.1, trivial⟩
  | overflow _ _ | unroutable isHealthy hw _ | connectFails hw | openFails hw | sends hw _
  | reap now hw | reapNext hw _ | reaped hw | shutdown hw => exact ⟨h.counted, h.current, trivial⟩
  | route isHealthy hw hroute =>
    rw [hw] at hphase
    exact ⟨h.counted, h.current, hphase.1, hphase.2.1, analyzeUdpRequest_routed hroute⟩
  | opens hw =>
    rw [hw] at hphase
    exact h.current_insert hphase.1 rfl (fun _ => hphase.2.2) (.inl rfl)
  | sendFails _ _ | reapDrop _ _ _ => exact h.erase _ trivial
  | stop hw _ => exact h.erase _ (hw ▸ trivial)

/-- A step moves the count with the slots the worker owns, and within the budget. -/
theorem WorkerStep.slots
    (h : WorkerInv port w) (hn : w.slots ≤ n) (hmax : n ≤ max) :
    n' + w.slots = n + w'.slots ∧ n' ≤ max := by
  have hphase := h.phase
  unfold Worker.slots at hn ⊢
  cases hstep with
  | died hs | reply now hs _ => exact ⟨by simp only [length_replace hs], hmax⟩
  | recv client now hw => exact ⟨by simp only [load_sessions, hw, Phase.slot], hmax⟩
  | reuse hw hreuse =>
    obtain ⟨old, hold, -⟩ := reusable_spec hreuse
    exact ⟨by simp only [length_replace hold, hw, Phase.slot], hmax⟩
  | move hw _ hs | sendFails hw hs | reapDrop hw hs _ | stop hw hs =>
    have hlen := length_erase hs
    simp only [hw, Phase.slot] at hn ⊢
    omega
  | exchange hw hlt | unroutable isHealthy hw _ | connectFails hw | openFails hw =>
    simp only [hw, Phase.slot] at hn ⊢
    omega
  | opens hw =>
    rw [hw] at hphase
    exact ⟨by simp only [hw, Phase.slot, length_insert_new hphase.2.1], hmax⟩
  | want hw _ _ | loadOpen hw _ | overflow hw _ | route isHealthy hw _ | connect hw | sends hw _
  | reap now hw | reapNext hw _ | reaped hw | shutdown hw =>
    exact ⟨by simp only [hw, Phase.slot], hmax⟩

end

theorem WorkerStep.seen (hstep : WorkerStep max idleMs port routes n w act n' w') :
    w'.seen = w.seen ∨ w'.seen = some routes := by
  cases hstep with
  | recv client now hw =>
    simp only
    unfold Worker.load
    split_ifs
    · exact .inl rfl
    · exact .inr rfl
  | _ => exact .inl rfl

/-- Only a client without a session is dropped for want of a slot. -/
theorem WorkerStep.overflow_unheld {held : Bool}
    (hstep : WorkerStep max idleMs port routes n w (.overflow client held) n' w')
    (h : WorkerInv port w) : held = false := by
  have hphase := h.phase
  cases hstep with
  | overflow hw _ =>
    rw [hw] at hphase
    exact hphase.2.2

/-- Until the generation wraps, a datagram goes to a backend that the table loaded at its arrival
routes. -/
theorem WorkerStep.sent_routed {backend : SocketAddr} {table : Arc (RouteTable R)}
    (hstep : WorkerStep max idleMs port routes n w (.sent client backend table) n' w')
    (h : WorkerInv port w) (hlt : w.tables < 2 ^ 64) : routed table.val port backend = true := by
  have hphase := h.phase
  cases hstep with
  | opens hw =>
    rw [hw] at hphase
    exact hphase.2.2
  | sends hw hs =>
    rw [hw] at hphase
    obtain ⟨-, t, ht, hrouted⟩ := hphase
    cases hs.symm.trans ht
    exact hrouted hlt

end

section

variable {max idleMs n n' : ℕ} {port : UInt16} {routes : Arc (RouteTable R)} {w w' : Worker R}
  {act : Act R} {client addr : SocketAddr} {m : Sessions}

/-- The client has a live session with a backend, which the table of a datagram of its own that
has just arrived routes. -/
structure Served (port : UInt16) (w : Worker R) (client addr : SocketAddr) : Prop where
  session : ∃ s, w.sessions.lookup client = some s ∧ s.backendAddr = addr ∧ s.finished = false
  arrived {now : ℕ} {table : Arc (RouteTable R)} {held : Bool} :
    w.phase = .arrived client now table held → routed table.val port addr = true

/-- The session does not end in the step, and the table of a datagram of the client routes the
backend. -/
structure Spares (port : UInt16) (client addr : SocketAddr) (act : Act R) : Prop where
  died : act ≠ .died client
  closed : act ≠ .closed client
  failed : ∀ backend table, act ≠ .failed client backend table
  recv : ∀ table, act = .recv client table → routed table.val port addr = true

theorem reusable_none {s : UdpSession}
    (h : w.reusable table port client = none) (hs : w.sessions.lookup client = some s)
    (hlive : s.finished = false) : routed table port s.backendAddr = false := by
  unfold Worker.reusable at h
  by_contra hrouted
  have hrouted : routed table port s.backendAddr = true := Bool.not_eq_false _ ▸ hrouted
  simp only [hs, hlive, hrouted] at h
  by_cases hgeneration : s.generation = w.generation
  · simp [hgeneration] at h
  · simp [hgeneration] at h

/-- The phase the worker goes to is not the arrival of a datagram. -/
def Phase.settled : Phase R → Bool
  | .arrived .. => false
  | _ => true

/-- A client stays served when its own session keeps its backend and life. -/
theorem Served.keep (h : Served port w client addr)
    {seen : Option (Arc (RouteTable R))} {generation : UInt64} {tables counter : ℕ}
    (hm : ∀ s, w.sessions.lookup client = some s → ∃ s', m.lookup client = some s' ∧
      s'.backendAddr = s.backendAddr ∧ s'.finished = s.finished)
    (hp : p = w.phase ∨ p.settled = true) :
    Served port ⟨m, seen, generation, tables, counter, p⟩ client addr := by
  obtain ⟨s, hs, hbackend, hlive⟩ := h.session
  obtain ⟨s', hs', hbackend', hlive'⟩ := hm s hs
  refine ⟨⟨s', hs', hbackend'.trans hbackend, hlive'.trans hlive⟩, ?_⟩
  intro now table held harrived
  rcases hp with rfl | hp
  · exact h.arrived harrived
  · obtain rfl : p = .arrived client now table held := harrived
    cases hp

theorem keep_erase {c : SocketAddr} (hc : c ≠ client) (s : UdpSession)
    (hs : m.lookup client = some s) : ∃ s', (m.erase c).lookup client = some s' ∧
      s'.backendAddr = s.backendAddr ∧ s'.finished = s.finished := by
  refine ⟨s, ?_, rfl, rfl⟩
  rw [lookup_erase_cases, if_neg hc.symm, hs]

theorem keep_insert {c : SocketAddr} {t : UdpSession}
    (hc : c = client → ∀ s, m.lookup client = some s →
      t.backendAddr = s.backendAddr ∧ t.finished = s.finished) (s : UdpSession)
    (hs : m.lookup client = some s) : ∃ s', (m.insert c t).lookup client = some s' ∧
      s'.backendAddr = s.backendAddr ∧ s'.finished = s.finished := by
  rw [lookup_insert_cases]
  split_ifs with hclient
  · exact ⟨t, rfl, hc hclient.symm s hs⟩
  · exact ⟨s, hs, rfl, rfl⟩

theorem WorkerStep.served (hstep : WorkerStep max idleMs port routes n w act n' w')
    (h : WorkerInv port w) (hserved : Served port w client addr)
    (hspares : Spares port client addr act) : Served port w' client addr := by
  have hphase := h.phase
  have hsame (s : UdpSession) (hs : w.sessions.lookup client = some s) :
      ∃ s', w.sessions.lookup client = some s' ∧ s'.backendAddr = s.backendAddr ∧
        s'.finished = s.finished := ⟨s, hs, rfl, rfl⟩
  cases hstep with
  | @died c s hs =>
    have hc : c ≠ client := fun heq => hspares.died (by rw [heq])
    exact hserved.keep (keep_insert fun heq => absurd heq hc) (.inl rfl)
  | @reply c s now hs hlive =>
    refine hserved.keep (keep_insert ?_) (.inl rfl)
    rintro rfl t ht
    obtain rfl := Option.some.inj (hs.symm.trans ht)
    exact ⟨rfl, rfl⟩
  | recv c now hw =>
    refine ⟨by rw [load_sessions]; exact hserved.session, ?_⟩
    intro now' table held harrived
    obtain ⟨rfl, -, rfl, -⟩ := Phase.arrived.inj harrived
    exact hspares.recv _ rfl
  | @reuse c now table held s hw hreuse =>
    obtain ⟨old, hold, -, rfl, -⟩ := reusable_spec hreuse
    refine hserved.keep (keep_insert ?_) (.inr rfl)
    rintro rfl t ht
    obtain rfl := Option.some.inj (hold.symm.trans ht)
    exact ⟨rfl, rfl⟩
  | @move c now table held s hw hreuse hs =>
    refine hserved.keep (keep_erase ?_) (.inr rfl)
    rintro rfl
    obtain ⟨t, ht, rfl, hlive⟩ := hserved.session
    have hrouted := hserved.arrived hw
    rw [reusable_none hreuse ht hlive] at hrouted
    cases hrouted
  | @opens c now table backend hw =>
    rw [hw] at hphase
    refine hserved.keep (keep_insert ?_) (.inr rfl)
    rintro rfl t ht
    rw [hphase.2.1] at ht
    cases ht
  | @sendFails c table s hw hs =>
    refine hserved.keep (keep_erase ?_) (.inr rfl)
    rintro rfl
    exact hspares.failed _ _ rfl
  | @reapDrop now c left s hw hs _ =>
    refine hserved.keep (keep_erase ?_) (.inr rfl)
    rintro rfl
    exact hspares.closed rfl
  | @stop c s hw hs =>
    refine hserved.keep (keep_erase ?_) (.inl rfl)
    rintro rfl
    exact hspares.closed rfl
  | _ => exact hserved.keep hsame (.inr rfl)

/-- A client is neither moved nor sent elsewhere. -/
structure Keeps (client addr : SocketAddr) (act : Act R) : Prop where
  moved : ∀ table, act ≠ .moved client table
  sent : ∀ backend table, act = .sent client backend table → backend = addr

theorem WorkerStep.keeps (hstep : WorkerStep max idleMs port routes n w act n' w')
    (h : WorkerInv port w) (hserved : Served port w client addr) : Keeps client addr act := by
  have hphase := h.phase
  obtain ⟨t, ht, hbackend, hlive⟩ := hserved.session
  constructor
  · rintro table rfl
    cases hstep with
    | move hw hreuse hs =>
      have hrouted := hserved.arrived hw
      rw [← hbackend, reusable_none hreuse ht hlive] at hrouted
      cases hrouted
  · rintro backend table rfl
    cases hstep with
    | opens hw =>
      rw [hw] at hphase
      rw [hphase.2.1] at ht
      cases ht
    | sends hw hs =>
      obtain rfl := Option.some.inj (ht.symm.trans hs)
      exact hbackend

end

section

variable {ι : Type} [DecidableEq ι] {max idleMs : ℕ} {port : ι → UInt16} {w w' : World ι R}
  {label : Option (ι × Act R)}

theorem Step.pinned (hstep : Step max idleMs port w label w')
    (h : ∀ i, Pinned w.routes (w.workers i)) (i : ι) : Pinned w'.routes (w'.workers i) := by
  cases hstep with
  | swap hfits => exact hfits.2 i
  | @work k act opened worker hwork =>
    refine (forall_update_iff _ fun _ worker => Pinned w.routes worker).mpr ⟨?_, fun j _ => h j⟩ i
    intro seen hseen haddr
    rcases hwork.seen with heq | heq
    · exact h k seen (heq ▸ hseen) haddr
    · obtain rfl : w.routes = seen := Option.some.inj (heq.symm.trans hseen)
      rfl

end

section

variable {ι : Type} [Fintype ι] {max idleMs : ℕ} {port : ι → UInt16} {w w' : World ι R}
  {label : Option (ι × Act R)}

structure Inv (max : ℕ) (port : ι → UInt16) (w : World ι R) : Prop where
  worker : ∀ i, WorkerInv (port i) (w.workers i)
  pinned : ∀ i, Pinned w.routes (w.workers i)
  slots : w.opened = ∑ i, (w.workers i).slots
  budget : w.opened ≤ max

theorem inv_fresh (h : Fresh w) : Inv max port w := by
  obtain ⟨hopened, hworkers⟩ := h
  refine ⟨?_, ?_, ?_, ?_⟩
  · intro i
    rw [hworkers i]
    exact WorkerInv.new
  · intro i seen hseen
    rw [hworkers i] at hseen
    cases hseen
  · have hslots : (Worker.new R).slots = 0 := rfl
    simp only [hopened, hworkers, hslots, Finset.sum_const_zero]
  · rw [hopened]
    exact Nat.zero_le max

variable [DecidableEq ι]

theorem sum_slots_update (workers : ι → Worker R) (i : ι) (worker : Worker R) :
    ∑ j, (Function.update workers i worker j).slots + (workers i).slots =
      ∑ j, (workers j).slots + worker.slots := by
  have hothers : ∑ j ∈ Finset.univ.erase i, (Function.update workers i worker j).slots =
      ∑ j ∈ Finset.univ.erase i, (workers j).slots := by
    apply Finset.sum_congr rfl
    intro j hj
    rw [update_of_ne (Finset.ne_of_mem_erase hj)]
  rw [← Finset.add_sum_erase _ _ (Finset.mem_univ i), hothers, update_self,
    ← Finset.add_sum_erase _ (fun j => (workers j).slots) (Finset.mem_univ i)]
  omega

theorem inv_step (h : Inv max port w) (hstep : Step max idleMs port w label w') :
    Inv max port w' := by
  have hpinned := hstep.pinned h.pinned
  cases hstep with
  | swap hfits => exact ⟨h.worker, hpinned, h.slots, h.budget⟩
  | @work k act opened worker hwork =>
    have hle : (w.workers k).slots ≤ w.opened := by
      rw [h.slots]
      exact Finset.single_le_sum (fun j _ => Nat.zero_le (w.workers j).slots) (Finset.mem_univ k)
    obtain ⟨hmove, hbudget⟩ := hwork.slots (h.worker k) hle h.budget
    refine ⟨?_, hpinned, ?_, hbudget⟩
    · exact (forall_update_iff _ fun i worker => WorkerInv (port i) worker).mpr
        ⟨hwork.inv (h.worker k) (h.pinned k), fun j _ => h.worker j⟩
    · have hsum := sum_slots_update w.workers k worker
      have hslots := h.slots
      simp only
      omega

/-- The worker's steps spare the session. -/
def SparedBy (port : UInt16) (i : ι) (client addr : SocketAddr) (label : Option (ι × Act R)) :
    Prop :=
  ∀ act, label = some (i, act) → Spares port client addr act

/-- The worker does not send the client's datagrams elsewhere. -/
def KeptBy (i : ι) (client addr : SocketAddr) (label : Option (ι × Act R)) : Prop :=
  ∀ act, label = some (i, act) → Keeps client addr act

theorem Step.served {i : ι} {client addr : SocketAddr} (h : Inv max port w)
    (hserved : Served (port i) (w.workers i) client addr)
    (hspared : SparedBy (port i) i client addr label) (hstep : Step max idleMs port w label w') :
    Served (port i) (w'.workers i) client addr ∧ KeptBy i client addr label := by
  cases hstep with
  | swap hfits => exact ⟨hserved, nofun⟩
  | @work k act opened worker hwork =>
    refine ⟨?_, ?_⟩
    · by_cases hk : i = k
      · subst hk
        simp only [update_self]
        exact hwork.served (h.worker i) hserved (hspared act rfl)
      · simp only [update_of_ne hk]
        exact hserved
    · rintro _ ⟨⟩
      exact hwork.keeps (h.worker i) hserved

/-- Along every run, of any number of workers, the slots taken are the sessions held and the opens
under way, and within the budget; who is dropped for want of a slot held no session; a datagram is
sent where the table loaded at its arrival routes it, as long as the worker has seen fewer than
2 ^ 64 tables; and a client keeps its backend while its session lives and the tables its datagrams
meet route the backend. -/
theorem sessions_within_budget_and_routes
    (hw : Reachable Fresh (fun w w' => ∃ label, Step max idleMs port w label w') w) :
    (w.opened ≤ max ∧
      w.opened = ∑ i, ((w.workers i).sessions.keys.length + (w.workers i).phase.slot)) ∧
    (∀ i client held w', Step max idleMs port w (some (i, .overflow client held)) w' →
      held = false) ∧
    (∀ i client backend table w', Step max idleMs port w (some (i, .sent client backend table)) w' →
      (w.workers i).tables < 2 ^ 64 → routed table.val (port i) backend = true) ∧
    ∀ i client addr labels w', Served (port i) (w.workers i) client addr →
      Trace (Step max idleMs port) w labels w' →
      (∀ label ∈ labels, SparedBy (port i) i client addr label) →
      Served (port i) (w'.workers i) client addr ∧
        ∀ label ∈ labels, KeptBy i client addr label := by
  have hinv : Inv max port w := by
    apply hw.invariant (fun _ => inv_fresh)
    rintro s t hs ⟨label, hstep⟩
    exact inv_step hs hstep
  refine ⟨⟨hinv.budget, hinv.slots⟩, ?_, ?_, ?_⟩
  · intro i client held w' hstep
    cases hstep with
    | work hwork => exact hwork.overflow_unheld (hinv.worker i)
  · intro i client backend table w' hstep
    cases hstep with
    | work hwork => exact hwork.sent_routed (hinv.worker i)
  · intro i client addr labels w' hserved htrace hspared
    have hstep (v v' : World ι R) (label : Option (ι × Act R))
        (hv : Inv max port v ∧ Served (port i) (v.workers i) client addr)
        (hspared : SparedBy (port i) i client addr label)
        (hstep : Step max idleMs port v label v') :
        (Inv max port v' ∧ Served (port i) (v'.workers i) client addr) ∧
          KeptBy i client addr label := by
      obtain ⟨hserved', hkept⟩ := hstep.served hv.1 hv.2 hspared
      exact ⟨⟨inv_step hv.1 hstep, hserved'⟩, hkept⟩
    obtain ⟨hend, hkept⟩ := htrace.invariant (fun v label v' => hstep v v' label)
      ⟨hinv, hserved⟩ hspared
    exact ⟨hend.2, hkept⟩

/-- The `k`-th table stored. The first routes one backend, the others none. -/
def tableAt (k : ℕ) : Arc (RouteTable Empty) where
  addr := k
  val := if k = 0 then
      (RouteTable.new Empty).addUdpRoute 53 [Config.backendAt (podAddr 9) 1 (.lit "dns")]
    else RouteTable.new Empty

def dnsPort : Unit → UInt16 := fun _ => 53

/-- One worker that may hold one session. -/
def lone (k opened : ℕ) (worker : Worker Empty) : World Unit Empty :=
  ⟨tableAt k, opened, fun _ => worker⟩

/-- The runs of one worker. -/
abbrev LoneRun : World Unit Empty → Prop :=
  Reachable Fresh fun w w' => ∃ label, Step 1 60000 dnsPort w label w'

variable {k : ℕ}

theorem lone_worker {n n' : ℕ} {worker worker' : Worker Empty} {act : Act Empty}
    (h : WorkerStep 1 60000 53 (tableAt k) n worker act n' worker') :
    Step 1 60000 dnsPort (lone k n worker) (some ((), act)) (lone k n' worker') := by
  have hupdate : Function.update (lone k n worker).workers () worker' = fun _ => worker' := by
    funext i
    exact update_self ..
  have hstep : Step 1 60000 dnsPort (lone k n worker) (some ((), act)) { lone k n worker with
      opened := n', workers := Function.update (lone k n worker).workers () worker' } := .work h
  rwa [hupdate] at hstep

theorem lone_step {n n' : ℕ} {worker worker' : Worker Empty} {act : Act Empty}
    (hw : LoneRun (lone k n worker))
    (h : WorkerStep 1 60000 53 (tableAt k) n worker act n' worker') : LoneRun (lone k n' worker') :=
  hw.step ⟨_, lone_worker h⟩

/-- The worker once it holds a session of the first table, and has seen `k` more. -/
def holder (k : ℕ) : Worker Empty :=
  ⟨(∅ : Sessions).insert (podAddr 1) ⟨podAddr 9, false, 5, 1⟩, some (tableAt k),
    UInt64.ofNat (k + 1), k + 1, 1, .idle⟩

/-- Another client's datagrams, which find no slot, are enough for the worker to see each table. -/
theorem holder_reachable (k : ℕ) : LoneRun (lone k 1 (holder k)) := by
  induction k with
  | zero =>
    have hfresh : LoneRun (lone 0 0 (Worker.new Empty)) := .start ⟨rfl, fun _ => rfl⟩
    have hloads := lone_step (lone_step (lone_step hfresh (.recv (podAddr 1) 5 rfl))
      (.want rfl rfl rfl)) (.loadOpen rfl nofun)
    have hroutes := lone_step (lone_step hloads (.exchange rfl Nat.one_pos))
      (.route (fun _ => true) rfl
        (show analyzeUdpRequest _ (tableAt 0).val 53 0 = .ok (some (podAddr 9), 1) from rfl))
    exact lone_step (lone_step hroutes (.connect rfl)) (.opens rfl)
  | succ k ih =>
    have hne : (tableAt (k + 1)).addr ≠ (tableAt k).addr := Nat.succ_ne_self k
    have hfits : (lone k 1 (holder k)).Fits (tableAt (k + 1)) := by
      refine ⟨fun heq => absurd heq hne, ?_⟩
      rintro i seen hseen heq
      cases hseen
      exact absurd heq.symm hne
    have hswapped : LoneRun (lone (k + 1) 1 (holder k)) := ih.step ⟨none, .swap hfits⟩
    have hloaded : (holder k).load (tableAt (k + 1)) = holder (k + 1) := by
      have hgeneration : UInt64.ofNat (k + 1) + 1 = UInt64.ofNat (k + 1 + 1) :=
        (UInt64.ofNat_add ..).symm
      unfold Worker.load holder
      rw [if_neg (by simpa using hne.symm), hgeneration]
    have harrived := lone_step hswapped (.recv (podAddr 2) 5 rfl)
    rw [hloaded] at harrived
    exact lone_step (lone_step (lone_step harrived (.want rfl rfl rfl)) (.loadOpen rfl nofun))
      (.overflow rfl le_rfl)

/-- The next datagram of the session's client is sent over it where the generation is the
session's. -/
theorem holder_sends (hk : UInt64.ofNat (k + 1) = 1) : ∃ worker worker',
    LoneRun (lone k 1 worker) ∧ worker.tables = k + 1 ∧ Step 1 60000 dnsPort (lone k 1 worker)
      (some ((), .sent (podAddr 1) (podAddr 9) (tableAt k))) (lone k 1 worker') := by
  have harrived := lone_step (holder_reachable k) (.recv (podAddr 1) 6 rfl)
  have hloaded : (holder k).load (tableAt k) = holder k := if_pos (beq_self_eq_true k)
  rw [hloaded] at harrived
  have hreuse := lone_step harrived (.reuse (s := ⟨podAddr 9, false, 5, 1⟩) rfl (by
    simp only [Worker.reusable, holder, hk]
    rfl))
  exact ⟨_, _, hreuse, rfl, lone_worker (.sends (s := ⟨podAddr 9, false, 6, 1⟩) rfl rfl)⟩

theorem sessions_within_budget_and_routes_resent : ∃ worker worker' : Worker Empty,
    Step 1 60000 dnsPort (lone 0 1 worker) (some ((), .sent (podAddr 1) (podAddr 9) (tableAt 0)))
      (lone 0 1 worker') ∧
    (lone 0 1 worker).opened = ∑ _i : Unit, (worker.sessions.keys.length + worker.phase.slot) ∧
    routed (tableAt 0).val 53 (podAddr 9) = true := by
  obtain ⟨worker, worker', hw, htables, hstep⟩ := holder_sends (k := 0) rfl
  obtain ⟨⟨-, hslots⟩, -, hrouted, -⟩ := sessions_within_budget_and_routes hw
  exact ⟨worker, worker', hstep, hslots, hrouted () _ _ _ _ hstep (htables ▸ by decide)⟩

/-- After 2 ^ 64 more tables the generation is again the session's, and a datagram is sent to a
backend that the table does not route. -/
theorem wrapped_generation_unrouted : ∃ worker worker' : Worker Empty,
    LoneRun (lone (2 ^ 64) 1 worker) ∧ Step 1 60000 dnsPort (lone (2 ^ 64) 1 worker)
      (some ((), .sent (podAddr 1) (podAddr 9) (tableAt (2 ^ 64)))) (lone (2 ^ 64) 1 worker') ∧
    routed (tableAt (2 ^ 64)).val 53 (podAddr 9) = false := by
  obtain ⟨worker, worker', hw, -, hstep⟩ := holder_sends (k := 2 ^ 64) rfl
  exact ⟨worker, worker', hw, hstep, rfl⟩

end
end Portail.Proxy.Udp
