import Portail.Kubernetes.Reconciler

/-!
# Listeners that are not distinct

A listener is in conflict exactly when another served one is not distinct from it, and the
protocols are the reason whenever they differ. So the order of the listeners does not matter
(`listenerConflicts_laws`).
-/

namespace Portail.Kubernetes

open Lib List

section

variable {a b : GatewayListener}

/-- On one port, both of them UDP or neither. -/
def SharesSocket (a b : GatewayListener) : Prop :=
  a.port = b.port ∧ (a.protocol = .udp ↔ b.protocol = .udp)

/-- On one socket there is one family of protocols, told apart by hostname; TCP and UDP have
none. -/
def Distinct (a b : GatewayListener) : Prop :=
  SharesSocket a b → a.protocol.family = b.protocol.family ∧ a.hostname ≠ b.hostname ∧
    a.protocol ≠ .tcp ∧ a.protocol ≠ .udp

theorem SharesSocket.symm (h : SharesSocket a b) : SharesSocket b a := ⟨h.1.symm, h.2.symm⟩

theorem Distinct.symm (h : Distinct a b) : Distinct b a := by
  intro hshares
  obtain ⟨hfamily, hhost, htcp, hudp⟩ := h hshares.symm
  refine ⟨hfamily.symm, hhost.symm, fun hb => htcp ?_, fun hb => hudp (hshares.2.mp hb)⟩
  rw [hb] at hfamily
  cases ha : a.protocol <;> simp_all [ListenerProtocol.family]

theorem reason_ext {x y : Option ConflictReason}
    (hprotocol : x = some .protocolConflict ↔ y = some .protocolConflict)
    (hnone : x = none ↔ y = none) : x = y := by
  rcases x with _ | ⟨_ | _⟩ <;> rcases y with _ | ⟨_ | _⟩ <;> simp_all

theorem conflictReason_cases (a b : GatewayListener) :
    (conflictReason a b = some .protocolConflict ↔
      SharesSocket a b ∧ a.protocol.family ≠ b.protocol.family) ∧
    (conflictReason a b = none ↔ Distinct a b) := by
  have hsocket : (a.port == b.port && ((a.protocol == .udp) == (b.protocol == .udp))) = true ↔
      SharesSocket a b := by
    rw [Bool.and_eq_true, beq_iff_eq, beq_iff_eq, Bool.eq_iff_iff, beq_iff_eq, beq_iff_eq]
    rfl
  by_cases hshares : SharesSocket a b
  · rw [conflictReason, if_pos (hsocket.mpr hshares)]
    by_cases hfamily : a.protocol.family = b.protocol.family
    · simp [Distinct, hshares, hfamily]
      tauto
    · simp [Distinct, hshares, hfamily]
  · rw [conflictReason, if_neg (fun h => hshares (hsocket.mp h))]
    simp [Distinct, hshares]

theorem conflictReason_comm (a b : GatewayListener) : conflictReason a b = conflictReason b a := by
  obtain ⟨hprotocol, hnone⟩ := conflictReason_cases a b
  obtain ⟨hprotocol', hnone'⟩ := conflictReason_cases b a
  refine reason_ext ?_ ?_
  · rw [hprotocol, hprotocol']
    exact ⟨fun h => ⟨h.1.symm, h.2.symm⟩, fun h => ⟨h.1.symm, h.2.symm⟩⟩
  · rw [hnone, hnone']
    exact ⟨Distinct.symm, Distinct.symm⟩

end

section

variable {listeners : List GatewayListener}

/-- What a pass over pairs notes: each listener of a pair, with the pair's reason. -/
def notes (ps : List (GatewayListener × GatewayListener)) :
    List (GatewayListener × ConflictReason) :=
  ps.flatMap fun p => (conflictReason p.1 p.2).toList.flatMap fun reason =>
    [(p.1, reason), (p.2, reason)]

theorem listenerConflicts_eq (listeners : List GatewayListener) : listenerConflicts listeners =
    (notes (pairs (listeners.filter listenerIsServed))).foldl
      (fun conflicts note => noteConflict note.2 conflicts note.1) fun _ => none := by
  rw [listenerConflicts, notes, foldl_flatMap]
  congr 1
  funext conflicts p
  cases h : conflictReason p.1 p.2 <;> simp [h]

theorem foldl_noteConflict (ns : List (GatewayListener × ConflictReason))
    (conflicts : Str → Option ConflictReason) (name : Str) :
    (ns.foldl (fun conflicts note => noteConflict note.2 conflicts note.1) conflicts name =
        some .protocolConflict ↔
      conflicts name = some .protocolConflict ∨
        ∃ note ∈ ns, note.1.name = name ∧ note.2 = .protocolConflict) ∧
    (ns.foldl (fun conflicts note => noteConflict note.2 conflicts note.1) conflicts name = none ↔
      conflicts name = none ∧ ∀ note ∈ ns, note.1.name ≠ name) := by
  induction ns generalizing conflicts with
  | nil => simp
  | cons note ns ih =>
    obtain ⟨hprotocol, hnone⟩ := ih (noteConflict note.2 conflicts note.1)
    rw [foldl_cons, hprotocol, hnone]
    obtain ⟨l, reason⟩ := note
    simp only [noteConflict, Function.update_apply, mem_cons, exists_eq_or_imp, forall_eq_or_imp]
    by_cases hname : name = l.name
    · subst hname
      rcases reason with _ | _ <;> rcases conflicts l.name with _ | ⟨_ | _⟩ <;> simp
    · simp [hname, Ne.symm hname]

theorem mem_pairs {α : Type} {l : List α} (hnodup : l.Nodup) {a b : α} :
    (a, b) ∈ pairs l ∨ (b, a) ∈ pairs l ↔ a ∈ l ∧ b ∈ l ∧ a ≠ b := by
  induction l with
  | nil => simp [pairs]
  | cons c l ih =>
    obtain ⟨hc, hnodup⟩ := nodup_cons.mp hnodup
    have ih := ih hnodup
    simp only [pairs, mem_append, mem_map, Prod.mk.injEq, mem_cons]
    grind

/-- A listener is noted with every reason for which another served one is not distinct. -/
theorem mem_notes (hnodup : (listeners.filter listenerIsServed).Nodup) {a : GatewayListener}
    {reason : ConflictReason} :
    (a, reason) ∈ notes (pairs (listeners.filter listenerIsServed)) ↔
      a ∈ listeners.filter listenerIsServed ∧ ∃ b ∈ listeners.filter listenerIsServed,
        b ≠ a ∧ conflictReason a b = some reason := by
  simp only [notes, mem_flatMap, Option.mem_toList, mem_cons, Prod.mk.injEq, not_mem_nil, or_false]
  constructor
  · rintro ⟨⟨x, y⟩, hp, r, hr, ⟨rfl, rfl⟩ | ⟨rfl, rfl⟩⟩
    · obtain ⟨ha, hy, hne⟩ := (mem_pairs hnodup).mp (.inl hp)
      exact ⟨ha, y, hy, hne.symm, hr⟩
    · obtain ⟨hx, ha, hne⟩ := (mem_pairs hnodup).mp (.inl hp)
      exact ⟨ha, x, hx, hne, conflictReason_comm x a ▸ hr⟩
  · rintro ⟨ha, b, hb, hne, hr⟩
    rcases (mem_pairs hnodup).mpr ⟨ha, hb, hne.symm⟩ with hp | hp
    · exact ⟨(a, b), hp, reason, hr, .inl ⟨rfl, rfl⟩⟩
    · exact ⟨(b, a), hp, reason, conflictReason_comm a b ▸ hr, .inr ⟨rfl, rfl⟩⟩

theorem listenerConflicts_cases (hnodup : (listeners.map GatewayListener.name).Nodup) (name : Str) :
    (listenerConflicts listeners name = some .protocolConflict ↔
      ∃ a ∈ listeners.filter listenerIsServed, a.name = name ∧
        ∃ b ∈ listeners.filter listenerIsServed, SharesSocket a b ∧
          a.protocol.family ≠ b.protocol.family) ∧
    (listenerConflicts listeners name = none ↔
      ∀ a ∈ listeners.filter listenerIsServed, a.name = name →
        ∀ b ∈ listeners.filter listenerIsServed, b ≠ a → Distinct a b) := by
  have hserved : (listeners.filter listenerIsServed).Nodup := (List.Nodup.of_map _ hnodup).filter _
  obtain ⟨hprotocol, hnone⟩ :=
    foldl_noteConflict (notes (pairs (listeners.filter listenerIsServed))) (fun _ => none) name
  rw [listenerConflicts_eq, hprotocol, hnone]
  simp only [reduceCtorEq, false_or, true_and, Prod.exists, Prod.forall, mem_notes hserved]
  constructor
  · constructor
    · rintro ⟨a, _, ⟨ha, b, hb, -, hr⟩, hname, rfl⟩
      exact ⟨a, ha, hname, b, hb, (conflictReason_cases a b).1.mp hr⟩
    · rintro ⟨a, ha, hname, b, hb, hr⟩
      exact ⟨a, _, ⟨ha, b, hb, by rintro rfl; exact hr.2 rfl, (conflictReason_cases a b).1.mpr hr⟩,
        hname, rfl⟩
  · constructor
    · intro h a ha hname b hb hne
      refine (conflictReason_cases a b).2.mp (Option.eq_none_iff_forall_ne_some.mpr fun r hr => ?_)
      exact h a r ⟨ha, b, hb, hne, hr⟩ hname
    · rintro h a r ⟨ha, b, hb, hne, hr⟩ hname
      rw [(conflictReason_cases a b).2.mpr (h a ha hname b hb hne)] at hr
      cases hr

end

/-- Whatever their order, the same listeners are in conflict for the same reasons. Those that are
not are distinct; each that is has a served one it is not distinct from, and its reason is the
protocol exactly when a served one on its socket is of another family. -/
theorem listenerConflicts_laws {listeners : List GatewayListener}
    (hnodup : (listeners.map GatewayListener.name).Nodup) :
    (∀ other, listeners.Perm other → listenerConflicts other = listenerConflicts listeners) ∧
    (∀ a ∈ listeners.filter listenerIsServed, ∀ b ∈ listeners.filter listenerIsServed, b ≠ a →
      listenerConflicts listeners a.name = none → listenerConflicts listeners b.name = none →
      Distinct a b) ∧
    ∀ name reason, listenerConflicts listeners name = some reason →
      ∃ a ∈ listeners.filter listenerIsServed, a.name = name ∧
        (∃ b ∈ listeners.filter listenerIsServed, b ≠ a ∧ ¬Distinct a b) ∧
        (reason = .protocolConflict ↔ ∃ b ∈ listeners.filter listenerIsServed,
          SharesSocket a b ∧ a.protocol.family ≠ b.protocol.family) := by
  refine ⟨fun other hperm => funext fun name => ?_, fun a ha b hb hne hnone _ => ?_,
    fun name reason h => ?_⟩
  · obtain ⟨hprotocol, hnone⟩ := listenerConflicts_cases hnodup name
    obtain ⟨hprotocol', hnone'⟩ := listenerConflicts_cases
      ((hperm.map GatewayListener.name).nodup_iff.mp hnodup) name
    have hmem (a : GatewayListener) := (hperm.filter listenerIsServed).mem_iff (a := a)
    refine reason_ext ?_ ?_
    · rw [hprotocol, hprotocol']
      simp only [hmem]
    · rw [hnone, hnone']
      simp only [hmem]
  · exact (listenerConflicts_cases hnodup _).2.mp hnone a ha rfl b hb hne
  · obtain ⟨hprotocol, hnone⟩ := listenerConflicts_cases hnodup name
    have hsome : ¬listenerConflicts listeners name = none := by simp [h]
    rw [hnone] at hsome
    push Not at hsome
    obtain ⟨a, ha, hname, b, hb, hne, hindistinct⟩ := hsome
    refine ⟨a, ha, hname, ⟨b, hb, hne, hindistinct⟩, ?_⟩
    rw [h, Option.some.injEq] at hprotocol
    rw [hprotocol]
    constructor
    · rintro ⟨a', ha', hname', hother⟩
      obtain rfl : a' = a := inj_on_of_nodup_map hnodup (mem_of_mem_filter ha')
        (mem_of_mem_filter ha) (hname'.trans hname.symm)
      exact hother
    · exact fun hother => ⟨a, ha, hname, hother⟩

/-- A listener on port 80 of any hostname, without TLS settings. -/
def onPort80 (name : String) (protocol : ListenerProtocol) : GatewayListener :=
  ⟨.lit name, 80, protocol, none, none, none⟩

/-- Two HTTP listeners alike, and a TLS one that is not served. -/
def twoAlike : List GatewayListener := [onPort80 "a" .http, onPort80 "b" .http, onPort80 "c" .tls]

theorem listenerConflicts_laws_alike : (twoAlike.map GatewayListener.name).Nodup ∧
    listenerConflicts twoAlike.reverse = listenerConflicts twoAlike :=
  ⟨by decide, (listenerConflicts_laws (by decide)).1 _ (reverse_perm _).symm⟩

/-- The family of a listener that is not served does not count. -/
theorem unserved_family_ignored :
    listenerConflicts twoAlike (.lit "a") = some .hostnameConflict ∧
      onPort80 "c" .tls ∈ twoAlike ∧ SharesSocket (onPort80 "a" .http) (onPort80 "c" .tls) ∧
      (onPort80 "a" .http).protocol.family ≠ (onPort80 "c" .tls).protocol.family :=
  ⟨rfl, by simp [twoAlike], ⟨rfl, by decide⟩, by decide⟩

end Portail.Kubernetes
