import Portail.Controller.Conditions
import Portail.Lib.Runs
import Portail.Sync.Signed

/-!
# Status lists with many writers

The entries of a route's or a policy's status (`kubernetes/status.rs`) are one atomic list. Each
owner writes it whole, from a copy that may be old, and the write is accepted only at the version
of the copy. What an owner wrote last then stays (`written_entries_stay`).
-/

namespace Portail.Controller.Status

open Lib Sync List

structure EntryRef where
  group : Option Str
  kind : Option Str
  ns : Option Str
  name : Option Str
  sectionName : Option Str
  port : Option ℤ
  deriving DecidableEq

/-- An entry, its conditions with times or without. -/
structure Entry (C : Type) where
  controllerName : Option Str
  ref : EntryRef
  conditions : List C
  deriving DecidableEq

abbrev Observed := Entry ObservedCondition
abbrev Desired := Entry Condition

structure Owner where
  controller : Str
  gateway : GatewayKey
  deriving DecidableEq

def Owner.owns {C : Type} (o : Owner) (e : Entry C) : Bool :=
  e.controllerName = some o.controller && e.ref.name = some o.gateway.name &&
    e.ref.ns = some o.gateway.ns

def transitionTime (existing : List ObservedCondition) (c : Condition) (now : Str) : Str :=
  ((existing.find? fun p => p.type = c.type && p.status = c.status && p.reason = c.reason).map
    ObservedCondition.lastTransitionTime).getD now

def stampConditions (e : Desired) (observed : List ObservedCondition) (now : Str) : Observed :=
  { e with conditions := e.conditions.map fun c => ⟨c, transitionTime observed c now⟩ }

def withoutTransitionTimes (e : Observed) : Desired :=
  { e with conditions := e.conditions.map (·.toCondition) }

def mergeOwned (existing : List Observed) (isOurs : Observed → Bool) (new : List Observed) :
    List Observed :=
  existing.filter (fun e => !isOurs e) ++ new

def stampOwned (o : Owner) (desired : List Desired) (observed : List Observed) (now : Str) :
    List Observed :=
  desired.map fun e =>
    stampConditions e (((observed.filter o.owns).find? fun p => p.ref = e.ref).elim []
      Entry.conditions) now

def ownedEntriesCurrent (o : Owner) (observed : List Observed) (desired : List Desired) : Bool :=
  (observed.filter o.owns).map withoutTransitionTimes = desired

/-- The list to write, if any. -/
def writeOwnedEntries (o : Owner) (observed : List Observed) (desired : List Desired) (now : Str) :
    Option (List Observed) :=
  if ownedEntriesCurrent o observed desired then none
  else some (mergeOwned observed o.owns (stampOwned o desired observed now))

/-- An entry of the controller for one of the Gateways; a reference without namespace is to one
in the object's own. -/
def namesDeparted (controller objectNs : Str) (gateways : List GatewayKey) (e : Observed) : Bool :=
  e.controllerName = some controller &&
    gateways.any fun k => e.ref.name = some k.name && e.ref.ns.getD objectNs = k.ns

def removeEntries (observed : List Observed) (departed : Observed → Bool) :
    Option (List Observed) :=
  if observed.any departed then some (mergeOwned observed departed []) else none

/-- The object at a version, in the store and in the copies of those who watch it. -/
structure Stored where
  resourceVersion : ℕ
  entries : List Observed

/-- The object as it is now and as it was ever seen, and what each owner's last accepted write
asked for. -/
structure World where
  stored : Stored
  seen : List Stored
  last : Owner → Option (List Desired)

/-- A write from a copy: refused unless the object is still at its version. -/
def World.patchEntries (w : World) (observed : Stored) (entries : List Observed)
    (last : Owner → Option (List Desired)) : World :=
  if observed.resourceVersion = w.stored.resourceVersion then
    let stored : Stored := ⟨w.stored.resourceVersion + 1, entries⟩
    ⟨stored, stored :: w.seen, last⟩
  else w

inductive Step (objectNs : Str) (w : World) : World → Prop
  | write {o observed desired now entries} : observed ∈ w.seen → (∀ e ∈ desired, o.owns e = true) →
      writeOwnedEntries o observed.entries desired now = some entries →
      Step objectNs w (w.patchEntries observed entries (Function.update w.last o desired))
  | remove {controller gateways observed entries} : observed ∈ w.seen →
      removeEntries observed.entries (namesDeparted controller objectNs gateways) = some entries →
      Step objectNs w (w.patchEntries observed entries fun o =>
        if o.controller = controller ∧ o.gateway ∈ gateways then some [] else w.last o)

def Start (w : World) : Prop := w.seen = [w.stored] ∧ ∀ o, w.last o = none

section

variable {o o' : Owner} {observed entries new : List Observed} {desired : List Desired}
  {now : Str} {w w' : World} {e : Observed}

theorem Owner.owns_iff {C : Type} {e : Entry C} : o.owns e = true ↔
    (e.controllerName = some o.controller ∧ e.ref.name = some o.gateway.name) ∧
      e.ref.ns = some o.gateway.ns := by
  simp [owns]

theorem Owner.eq_of_owns (h : o.owns e = true) (h' : o'.owns e = true) : o = o' := by
  obtain ⟨controller, ns, name⟩ := o
  obtain ⟨controller', ns', name'⟩ := o'
  obtain ⟨⟨hcontroller, hname⟩, hns⟩ := owns_iff.mp h
  obtain ⟨⟨hcontroller', hname'⟩, hns'⟩ := owns_iff.mp h'
  simp_all

theorem withoutTransitionTimes_stampOwned :
    (stampOwned o desired observed now).map withoutTransitionTimes = desired := by
  rw [stampOwned, map_map]
  refine (map_congr_left fun e _ => ?_).trans (map_id desired)
  simp [withoutTransitionTimes, stampConditions, Function.comp_def]

theorem filter_mergeOwned {p isOurs : Observed → Bool}
    (hkept : ∀ e ∈ observed, p e = true → isOurs e = false) (hnew : ∀ e ∈ new, ¬ p e = true) :
    (mergeOwned observed isOurs new).filter p = observed.filter p := by
  rw [mergeOwned, filter_append, filter_filter, filter_eq_nil_iff.mpr hnew, append_nil]
  refine filter_congr fun e he => ?_
  cases hp : p e with
  | false => rfl
  | true => rw [hkept e he hp]; rfl

/-- A write makes the owner's entries those desired and keeps the entries of others. -/
theorem writeOwnedEntries_spec (hdesired : ∀ e ∈ desired, o.owns e = true)
    (h : writeOwnedEntries o observed desired now = some entries) :
    entries.filter o.owns = stampOwned o desired observed now ∧
      ∀ p : Observed → Bool, (∀ e, p e = true → o.owns e = false) →
        entries.filter p = observed.filter p := by
  unfold writeOwnedEntries at h
  split_ifs at h
  cases h
  have hown : ∀ e ∈ stampOwned o desired observed now, o.owns e = true := by
    intro e he
    obtain ⟨d, hd, rfl⟩ := mem_map.mp he
    exact hdesired d hd
  constructor
  · rw [mergeOwned, filter_append, filter_eq_self.mpr hown]
    simp
  · intro p hp
    refine filter_mergeOwned (fun e _ => hp e) fun e he hpe => ?_
    cases (hown e he).symm.trans (hp e hpe)

theorem namesDeparted_iff {controller objectNs : Str} {gateways : List GatewayKey}
    (h : o.owns e = true) : namesDeparted controller objectNs gateways e = true ↔
      o.controller = controller ∧ o.gateway ∈ gateways := by
  obtain ⟨⟨hcontroller, hname⟩, hns⟩ := Owner.owns_iff.mp h
  simp only [namesDeparted, hcontroller, hname, hns, Bool.and_eq_true, decide_eq_true_eq,
    any_eq_true, Option.some.injEq, Option.getD_some]
  refine and_congr_right fun _ => ⟨?_, fun hmem => ⟨o.gateway, hmem, rfl, rfl⟩⟩
  rintro ⟨⟨ns, name⟩, hmem, rfl, rfl⟩
  exact hmem

structure World.Inv (w : World) : Prop where
  seen {c : Stored} : c ∈ w.seen → c = w.stored ∨ c.resourceVersion < w.stored.resourceVersion
  held {o : Owner} {d : List Desired} : w.last o = some d →
    (w.stored.entries.filter o.owns).map withoutTransitionTimes = d

theorem World.Inv.copy (h : w.Inv) {c : Stored} (hc : c ∈ w.seen)
    (hversion : c.resourceVersion = w.stored.resourceVersion) : c = w.stored :=
  (h.seen hc).resolve_right hversion.not_lt

/-- A write that is accepted was made from the object as it stands. -/
theorem World.Inv.patchEntries (h : w.Inv) {c : Stored} (hc : c ∈ w.seen)
    {last : Owner → Option (List Desired)} (hheld : c = w.stored → ∀ o d, last o = some d →
      (entries.filter o.owns).map withoutTransitionTimes = d) :
    (w.patchEntries c entries last).Inv := by
  unfold World.patchEntries
  split_ifs with hversion
  · refine ⟨fun hc' => ?_, hheld (h.copy hc hversion) _ _⟩
    rcases mem_cons.mp hc' with rfl | hc'
    · exact .inl rfl
    · rcases h.seen hc' with rfl | hlt
      · exact .inr (Nat.lt_succ_self _)
      · exact .inr (Nat.lt_succ_of_lt hlt)
  · exact h

theorem World.Inv.step {objectNs : Str} (h : w.Inv) (hstep : Step objectNs w w') :
    w'.Inv := by
  cases hstep with
  | @write o _ desired _ _ hc hdesired hwrite =>
    obtain ⟨hours, hothers⟩ := writeOwnedEntries_spec hdesired hwrite
    refine h.patchEntries hc ?_
    rintro rfl o' d hd
    by_cases ho : o' = o
    · subst ho
      rw [Function.update_self] at hd
      cases hd
      rw [hours, withoutTransitionTimes_stampOwned]
    · rw [Function.update_of_ne ho] at hd
      rw [hothers _ fun e he => Bool.eq_false_iff.mpr fun hown => ho (Owner.eq_of_owns he hown),
        h.held hd]
  | @remove controller gateways _ _ hc hremove =>
    refine h.patchEntries hc ?_
    rintro rfl o d hd
    unfold removeEntries at hremove
    split_ifs at hremove
    cases hremove
    split_ifs at hd with hgone
    · cases hd
      rw [mergeOwned, append_nil, filter_filter, filter_eq_nil_iff.mpr fun e _ he => ?_, map_nil]
      obtain ⟨howns, hstays⟩ := Bool.and_eq_true_iff.mp he
      simp [(namesDeparted_iff howns).mpr hgone] at hstays
    · rw [← h.held hd, filter_mergeOwned (fun e _ howns => ?_) (by simp)]
      exact Bool.eq_false_iff.mpr fun hdeparted => hgone ((namesDeparted_iff howns).mp hdeparted)

theorem find?_of_unique {α : Type} {p : α → Bool} {l : List α} {a : α} (ha : a ∈ l)
    (hp : p a = true) (h : ∀ b ∈ l, p b = true → b = a) : l.find? p = some a := by
  cases hfind : l.find? p with
  | none => exact absurd hp (find?_eq_none.mp hfind a ha)
  | some b => rw [h b (mem_of_find?_eq_some hfind) (find?_some hfind)]

/-- A condition that is written again with its status and reason keeps its time. -/
theorem lastTransitionTime_kept (hrefs : ((observed.filter o.owns).map Entry.ref).Nodup)
    {p : Observed} (hp : p ∈ observed.filter o.owns) (htypes : (p.conditions.map (·.type)).Nodup)
    (he : e ∈ stampOwned o desired observed now) (href : p.ref = e.ref) {b c : ObservedCondition}
    (hb : b ∈ p.conditions) (hc : c ∈ e.conditions) (htype : b.type = c.type)
    (hstatus : b.status = c.status) (hreason : b.reason = c.reason) :
    c.lastTransitionTime = b.lastTransitionTime := by
  obtain ⟨d, -, rfl⟩ := mem_map.mp he
  obtain ⟨c, -, rfl⟩ := mem_map.mp hc
  have hprior : (observed.filter o.owns).find? (fun p => p.ref = d.ref) = some p :=
    find?_of_unique hp (decide_eq_true href) fun q hq hqd =>
      inj_on_of_nodup_map hrefs hq hp ((of_decide_eq_true hqd).trans href.symm)
  have hfind : p.conditions.find? (fun q => q.type = c.type && q.status = c.status &&
      q.reason = c.reason) = some b := by
    refine find?_of_unique hb (by simp [htype, hstatus, hreason]) fun q hq hqc => ?_
    simp only [Bool.and_eq_true, decide_eq_true_eq] at hqc
    exact inj_on_of_nodup_map htypes hq hb (hqc.1.1.trans htype.symm)
  simp [transitionTime, hprior, hfind]

end

/-- In every order of writes from copies of any age, the list holds what each owner last wrote,
times aside, so a pass that wants the same writes nothing. A write that is accepted keeps every
entry of others, and the time of a condition whose status and reason stay. -/
theorem written_entries_stay (objectNs : Str) (w : World) (h : Reachable Start (Step objectNs) w) :
    (∀ o d, w.last o = some d → (w.stored.entries.filter o.owns).map withoutTransitionTimes = d ∧
      ∀ now, writeOwnedEntries o w.stored.entries d now = none) ∧
    ∀ o c desired now entries, c ∈ w.seen → c.resourceVersion = w.stored.resourceVersion →
      (∀ e ∈ desired, o.owns e = true) →
      writeOwnedEntries o c.entries desired now = some entries →
      entries.filter (fun e => !o.owns e) = w.stored.entries.filter (fun e => !o.owns e) ∧
      (entries.filter o.owns).map withoutTransitionTimes = desired ∧
      (((w.stored.entries.filter o.owns).map Entry.ref).Nodup →
        ∀ p ∈ w.stored.entries.filter o.owns, (p.conditions.map (·.type)).Nodup →
        ∀ e ∈ entries.filter o.owns, p.ref = e.ref → ∀ b ∈ p.conditions, ∀ c ∈ e.conditions,
        b.type = c.type → b.status = c.status → b.reason = c.reason →
        c.lastTransitionTime = b.lastTransitionTime) := by
  have hinv : w.Inv := by
    refine Reachable.invariant (fun w hstart => ?_) (fun _ _ hw hstep => hw.step hstep) h
    obtain ⟨hseen, hlast⟩ := hstart
    constructor <;> simp [hseen, hlast]
  constructor
  · intro o d hd
    have hcurrent := hinv.held hd
    exact ⟨hcurrent, fun now => if_pos (decide_eq_true hcurrent)⟩
  · intro o c desired now entries hc hversion hdesired hwrite
    cases hinv.copy hc hversion
    obtain ⟨hours, hothers⟩ := writeOwnedEntries_spec hdesired hwrite
    refine ⟨hothers _ (by simp), by rw [hours, withoutTransitionTimes_stampOwned], ?_⟩
    intro hrefs p hp htypes e he href b hb c hc
    exact lastTransitionTime_kept hrefs hp htypes (hours ▸ he) href hb hc

/-- An entry for a Gateway, accepted or not. -/
def entryOf (o : Owner) (accepted : Bool) : Desired :=
  ⟨some o.controller, ⟨none, none, some o.gateway.ns, some o.gateway.name, none, none⟩,
    [condition "Accepted" accepted (.lit "Accepted") [] none]⟩

/-- Two Gateways of one controller write in turn, and the first again from its copy of before. -/
theorem written_entries_stay_both :
    let a : Owner := ⟨.lit "c", .lit "ns", .lit "a"⟩
    let b : Owner := ⟨.lit "c", .lit "ns", .lit "b"⟩
    ∃ w : World, Reachable Start (Step (.lit "ns")) w ∧ w.stored.resourceVersion = 2 ∧
      (w.stored.entries.filter a.owns).map withoutTransitionTimes = [entryOf a true] ∧
      (w.stored.entries.filter b.owns).map withoutTransitionTimes = [entryOf b false] := by
  intro a b
  let first := stampConditions (entryOf a true) [] (.lit "1")
  let both := [first, stampConditions (entryOf b false) [] (.lit "2")]
  have hstart : Reachable Start (Step (.lit "ns"))
      ⟨⟨0, []⟩, [⟨0, []⟩], fun _ => none⟩ := .start ⟨rfl, fun _ => rfl⟩
  have hfirst := hstart.step (.write (o := a) (.head _) (by decide)
    (show writeOwnedEntries a [] [entryOf a true] (.lit "1") = some [first] from rfl))
  have hboth := hfirst.step (.write (o := b) (.head _) (by decide)
    (show writeOwnedEntries b [first] [entryOf b false] (.lit "2") = some both from rfl))
  have hstale := hboth.step (.write (o := a) (.tail _ (.head _)) (by decide)
    (show writeOwnedEntries a [first] [entryOf a false] (.lit "3") = some _ from rfl))
  have hstays := (written_entries_stay _ _ hstale).1
  exact ⟨_, hstale, rfl, (hstays a _ rfl).1, (hstays b _ rfl).1⟩

end Portail.Controller.Status
