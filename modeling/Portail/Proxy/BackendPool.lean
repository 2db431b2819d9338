import Portail.Lib.Maps
import Portail.Routing.Table

/-!
# Idle backend connections

`proxy/backend_pool.rs`: the connections to an address that are kept, the plain ones together and
those over TLS by the server name they were opened with. An operation holds the pool's lock
throughout, so that any number of clients take turns. Beside the pool stands a record of what was
given back and handed out, and for what, which nothing reads.
-/

namespace Portail.Proxy.BackendPool

open Lib Routing List

variable {C : Type}

section

/-- The connections to one address, those put last first. -/
structure IdleConns (C : Type) where
  plain : List C
  tls : List (Str × List C)

/-- The server name an idle connection is kept by: none in the clear. -/
def sni (useTls : Bool) (serverName : Str) : Option Str := if useTls then some serverName else none

/-- Connections are popped until one probes alive. -/
def popLive (idleAndOpen : C → Bool) : List C → Option C × List C
  | [] => (none, [])
  | conn :: conns => if idleAndOpen conn then (some conn, conns) else popLive idleAndOpen conns

def push (conns : List C) (conn : C) (maxIdle : ℕ) : List C :=
  if conns.length < maxIdle then conn :: conns else conns

/-- The row of a server name, found by a scan. -/
def rowOf (name : Str) (rows : List (Str × List C)) : Option (List C) :=
  (rows.find? fun row => row.1 = name).map Prod.snd

/-- The row of a server name replaced, or added behind the others. -/
def setRow (name : Str) (conns : List C) : List (Str × List C) → List (Str × List C)
  | [] => [(name, conns)]
  | row :: rows => if row.1 = name then (name, conns) :: rows else row :: setRow name conns rows

namespace IdleConns

def takeLive (idle : IdleConns C) (idleAndOpen : C → Bool) : Option Str → Option C × IdleConns C
  | none =>
    let (conn, plain) := popLive idleAndOpen idle.plain
    (conn, { idle with plain := plain })
  | some name =>
    match rowOf name idle.tls with
    | none => (none, idle)
    | some conns =>
      let (conn, conns) := popLive idleAndOpen conns
      (conn, { idle with tls := setRow name conns idle.tls })

def put (idle : IdleConns C) (sni : Option Str) (conn : C) (maxIdle : ℕ) : IdleConns C :=
  match sni with
  | none => { idle with plain := push idle.plain conn maxIdle }
  | some name =>
    { idle with tls := setRow name (push ((rowOf name idle.tls).getD []) conn maxIdle) idle.tls }

/-- The connections kept by a server name, or in the clear. -/
def row (idle : IdleConns C) : Option Str → List C
  | none => idle.plain
  | some name => (rowOf name idle.tls).getD []

end IdleConns

abbrev Pools (C : Type) := Map SocketAddr (IdleConns C)

def takeIdle (pools : Pools C) (addr : SocketAddr) (useTls : Bool) (serverName : Str)
    (idleAndOpen : C → Bool) : Option C × Pools C :=
  match pools.lookup addr with
  | none => (none, pools)
  | some idle =>
    let (conn, idle) := idle.takeLive idleAndOpen (sni useTls serverName)
    (conn, pools.insert addr idle)

def release (maxIdle : ℕ) (pools : Pools C) (addr : SocketAddr) (useTls : Bool) (serverName : Str)
    (conn : C) : Pools C :=
  pools.insert addr
    (((pools.lookup addr).getD ⟨[], []⟩).put (sni useTls serverName) conn maxIdle)

/-- The connections kept for an address and a server name. -/
def idleFor (pools : Pools C) (addr : SocketAddr) (name : Option Str) : List C :=
  ((pools.lookup addr).getD ⟨[], []⟩).row name

/-- The pool with what was given back to it and handed out by it, each for its address and name. -/
structure History (C : Type) where
  pools : Pools C
  released : List (SocketAddr × Option Str × C)
  handed : List (SocketAddr × Option Str × C)

inductive PoolOp (C : Type)
  | takeIdle (addr : SocketAddr) (useTls : Bool) (serverName : Str) (idleAndOpen : C → Bool)
  | release (addr : SocketAddr) (useTls : Bool) (serverName : Str) (conn : C)

def step (maxIdle : ℕ) (h : History C) : PoolOp C → History C
  | .takeIdle addr useTls serverName idleAndOpen =>
    let (conn, pools) := takeIdle h.pools addr useTls serverName idleAndOpen
    ⟨pools, h.released, (conn.toList.map fun c => (addr, sni useTls serverName, c)) ++ h.handed⟩
  | .release addr useTls serverName conn =>
    ⟨release maxIdle h.pools addr useTls serverName conn,
      (addr, sni useTls serverName, conn) :: h.released, h.handed⟩

def run (maxIdle : ℕ) (ops : List (PoolOp C)) : History C := ops.foldl (step maxIdle) ⟨∅, [], []⟩

end

section

theorem popLive_suffix (idleAndOpen : C → Bool) (conns : List C) :
    (popLive idleAndOpen conns).1.toList ++ (popLive idleAndOpen conns).2 <:+ conns := by
  induction conns with
  | nil => exact suffix_refl []
  | cons conn conns ih =>
    rw [popLive]
    split_ifs
    · exact suffix_refl _
    · exact ih.trans (suffix_cons conn conns)

theorem rowOf_setRow (name name' : Str) (conns : List C) (rows : List (Str × List C)) :
    rowOf name' (setRow name conns rows) =
      if name' = name then some conns else rowOf name' rows := by
  unfold rowOf
  induction rows with
  | nil =>
    by_cases hname : name = name'
    · simp [setRow, hname]
    · simp [setRow, hname, Ne.symm hname]
  | cons row rows ih =>
    rw [setRow]
    by_cases hrow : row.1 = name
    · by_cases hname : name = name'
      · simp [hrow, hname]
      · simp [hrow, hname, Ne.symm hname]
    · rw [if_neg hrow]
      by_cases hname : row.1 = name'
      · subst hname
        simp [hrow]
      · simpa [hname] using ih

theorem row_takeLive (idle : IdleConns C) (name name' : Option Str) (idleAndOpen : C → Bool) :
    (idle.takeLive idleAndOpen name).1 = (popLive idleAndOpen (idle.row name)).1 ∧
      (idle.takeLive idleAndOpen name).2.row name' =
        if name' = name then (popLive idleAndOpen (idle.row name)).2 else idle.row name' := by
  cases name with
  | none => cases name' <;> exact ⟨rfl, rfl⟩
  | some name =>
    cases hrow : rowOf name idle.tls with
    | none =>
      simp only [IdleConns.takeLive, IdleConns.row, hrow, Option.getD_none]
      refine ⟨rfl, ?_⟩
      split_ifs with hname
      · subst hname
        simp only [hrow]
        rfl
      · rfl
    | some conns =>
      simp only [IdleConns.takeLive, IdleConns.row, hrow, Option.getD_some, true_and]
      cases name' with
      | none => rfl
      | some name' =>
        simp only [rowOf_setRow, Option.some.injEq]
        split_ifs <;> rfl

theorem row_put (idle : IdleConns C) (name name' : Option Str) (conn : C) (maxIdle : ℕ) :
    (idle.put name conn maxIdle).row name' =
    if name' = name then push (idle.row name) conn maxIdle else idle.row name' := by
  cases name with
  | none => cases name' <;> rfl
  | some name =>
    cases name' with
    | none => rfl
    | some name' =>
      simp only [IdleConns.put, IdleConns.row, rowOf_setRow, Option.some.injEq]
      split_ifs <;> rfl

end

section

variable (pools : Pools C) (addr addr' : SocketAddr) (useTls : Bool) (serverName : Str)
  (name : Option Str)

theorem idleFor_takeIdle (idleAndOpen : C → Bool) :
    let conns := idleFor pools addr (sni useTls serverName)
    let taken := takeIdle pools addr useTls serverName idleAndOpen
    taken.1 = (popLive idleAndOpen conns).1 ∧ idleFor taken.2 addr' name =
      if addr' = addr ∧ name = sni useTls serverName then (popLive idleAndOpen conns).2
      else idleFor pools addr' name := by
  dsimp only
  unfold takeIdle idleFor
  cases hpool : pools.lookup addr with
  | none =>
    refine ⟨by cases sni useTls serverName <;> rfl, ?_⟩
    split_ifs with hkey
    · rw [hkey.1, hkey.2, hpool]
      cases sni useTls serverName <;> rfl
    · rfl
  | some idle =>
    obtain ⟨hconn, hleft⟩ := row_takeLive idle (sni useTls serverName) name idleAndOpen
    refine ⟨hconn, ?_⟩
    dsimp only
    rw [lookup_insert_cases]
    by_cases haddr : addr' = addr
    · subst haddr
      simp only [if_true, Option.getD_some, true_and, hleft, hpool]
    · simp only [haddr, if_false, false_and]

theorem idleFor_release (maxIdle : ℕ) (conn : C) :
    idleFor (release maxIdle pools addr useTls serverName conn) addr' name =
      if addr' = addr ∧ name = sni useTls serverName then
        push (idleFor pools addr (sni useTls serverName)) conn maxIdle
      else idleFor pools addr' name := by
  unfold release idleFor
  rw [lookup_insert_cases]
  by_cases haddr : addr' = addr
  · subst haddr
    simp only [if_true, Option.getD_some, true_and, row_put]
  · simp only [haddr, if_false, false_and]

end

section

variable [DecidableEq C] {maxIdle : ℕ} {h : History C}

/-- No more connections are kept for an address and name than allowed, and each was given back for
them more often than it was handed out. -/
def Inv (maxIdle : ℕ) (h : History C) : Prop :=
  ∀ addr name, (idleFor h.pools addr name).length ≤ maxIdle ∧ ∀ c,
    h.handed.count (addr, name, c) + (idleFor h.pools addr name).count c ≤
      h.released.count (addr, name, c)

theorem inv_step (hinv : Inv maxIdle h) (op : PoolOp C) : Inv maxIdle (step maxIdle h op) := by
  intro addr' name
  obtain ⟨hlength, hcount⟩ := hinv addr' name
  cases op with
  | takeIdle addr useTls serverName idleAndOpen =>
    obtain ⟨hconn, hleft⟩ :=
      idleFor_takeIdle h.pools addr addr' useTls serverName name idleAndOpen
    have hsublist := (popLive_suffix idleAndOpen
      (idleFor h.pools addr (sni useTls serverName))).sublist
    simp only [step, hconn, hleft]
    split_ifs with hkey
    · obtain ⟨rfl, rfl⟩ := hkey
      refine ⟨((sublist_append_right ..).trans hsublist).length_le.trans hlength, fun c => ?_⟩
      have hle := hsublist.count_le c
      have hcount := hcount c
      have hmap (l : List C) : (l.map fun c => (addr', sni useTls serverName, c)).count
          (addr', sni useTls serverName, c) = l.count c :=
        count_map_of_injective _ _ (fun _ _ heq => (Prod.mk.inj (Prod.mk.inj heq).2).2) _
      rw [count_append] at hle ⊢
      rw [hmap]
      omega
    · refine ⟨hlength, fun c => ?_⟩
      have hother (l : List C) :
          (l.map fun c => (addr, sni useTls serverName, c)).count (addr', name, c) = 0 := by
        rw [count_eq_zero, mem_map]
        rintro ⟨d, -, heq⟩
        obtain ⟨haddr, hrest⟩ := Prod.mk.inj heq
        exact hkey ⟨haddr.symm, (Prod.mk.inj hrest).1.symm⟩
      rw [count_append, hother, Nat.zero_add]
      exact hcount c
  | release addr useTls serverName conn =>
    simp only [step, idleFor_release]
    split_ifs with hkey
    · obtain ⟨rfl, rfl⟩ := hkey
      unfold push
      split_ifs with hroom
      · refine ⟨hroom, fun c => ?_⟩
        have hcount := hcount c
        simp only [count_cons, beq_iff_eq, Prod.mk.injEq, true_and]
        omega
      · exact ⟨hlength, fun c => (hcount c).trans count_le_count_cons⟩
    · exact ⟨hlength, fun c => (hcount c).trans count_le_count_cons⟩

/-- In every order of operations by any number of clients, no address and server name has more idle
connections than allowed, and a connection is handed out for them no more often than it was given
back for the same address and name. -/
theorem handed_out_once (maxIdle : ℕ) (ops : List (PoolOp C)) (addr : SocketAddr) (useTls : Bool)
    (serverName : Str) :
    let h := run maxIdle ops
    let name := sni useTls serverName
    (idleFor h.pools addr name).length ≤ maxIdle ∧ ∀ c,
      h.handed.count (addr, name, c) + (idleFor h.pools addr name).count c ≤
        h.released.count (addr, name, c) := by
  have hrun : Inv maxIdle (run maxIdle ops) := by
    induction ops using reverseRecOn with
    | nil => exact fun _ name => by cases name <;> exact ⟨Nat.zero_le _, fun _ => le_rfl⟩
    | append_singleton ops op ih =>
      rw [run, foldl_concat]
      exact inv_step ih op
  exact hrun addr (sni useTls serverName)

end
end Portail.Proxy.BackendPool
