import Portail.Http.Grammar

/-!
# Heads by the kinds of their fields

How a head is framed and routed depends on its fields of five kinds only. A head
rewritten without touching these is strict again and read the same
(`Reframes.strict`).
-/

namespace Portail.Http

open Lib List

/-- The fields of one kind, in order. -/
def ofKind (k : FieldName) (fs : List Field) : List Field := fs.filter fun f => decide (f.kind = k)

section

variable {k : FieldName} {fs gs : List Field}

@[simp] theorem mem_ofKind {f : Field} : f ∈ ofKind k fs ↔ f ∈ fs ∧ f.kind = k := by
  simp [ofKind]

@[simp] theorem ofKind_append : ofKind k (fs ++ gs) = ofKind k fs ++ ofKind k gs := by
  simp [ofKind]

@[simp] theorem ofKind_nil : ofKind k [] = [] := rfl

theorem ofKind_cons (f : Field) :
    ofKind k (f :: fs) = if f.kind = k then f :: ofKind k fs else ofKind k fs := by
  by_cases h : f.kind = k <;> simp [ofKind, h]

theorem repeated_eq_ofKind : repeated k fs = (ofKind k fs).length := countP_eq_length_filter

variable {d : Field → Option Field}

/-- A pass over the fields that changes no kind acts on each kind apart. -/
theorem ofKind_filterMap (hd : ∀ f ∈ fs, ∀ g ∈ d f, g.kind = f.kind) :
    ofKind k (fs.filterMap d) = (ofKind k fs).filterMap d := by
  induction fs with
  | nil => rfl
  | cons f fs ih =>
    have hrest := ih fun g hg => hd g (by simp [hg])
    cases hdf : d f with
    | none =>
      rw [filterMap_cons_none hdf, hrest, ofKind_cons]
      split_ifs
      · rw [filterMap_cons_none hdf]
      · rfl
    | some g =>
      have hkind : g.kind = f.kind := hd f (by simp) g hdf
      rw [filterMap_cons_some hdf, ofKind_cons, ofKind_cons, hkind, hrest]
      split_ifs
      · rw [filterMap_cons_some hdf]
      · rfl

theorem ofKind_filterMap_self (hd : ∀ f ∈ fs, f.kind = k → d f = some f) :
    (ofKind k fs).filterMap d = ofKind k fs := by
  rw [filterMap_congr (g := some) fun f hf => hd f (mem_ofKind.mp hf).1 (mem_ofKind.mp hf).2,
    filterMap_some]

theorem ofKind_filterMap_nil (hd : ∀ f ∈ fs, f.kind = k → d f = none) :
    (ofKind k fs).filterMap d = [] := by
  rw [filterMap_eq_nil_iff]
  exact fun f hf => hd f (mem_ofKind.mp hf).1 (mem_ofKind.mp hf).2

theorem findSome?_ofKind {α : Type} {p : Field → Option α} (hp : ∀ f, f.kind ≠ k → p f = none)
    (fs : List Field) : fs.findSome? p = (ofKind k fs).findSome? p := by
  induction fs with
  | nil => rfl
  | cons f fs ih =>
    rw [ofKind_cons]
    split_ifs with h
    · rw [findSome?_cons, findSome?_cons, ih]
    · rw [findSome?_cons, hp f h, ih]

theorem any_ofKind {p : Field → Bool} (hp : ∀ f, f.kind ≠ k → p f = false) (fs : List Field) :
    fs.any p = (ofKind k fs).any p := by
  induction fs with
  | nil => rfl
  | cons f fs ih =>
    rw [ofKind_cons]
    split_ifs with h
    · rw [any_cons, any_cons, ih]
    · rw [any_cons, hp f h, ih, Bool.false_or]

end

namespace RequestHead

variable (h : RequestHead)

theorem hostLine_ofKind : h.hostLine = (ofKind .host h.fields).findSome? Field.hostPart :=
  findSome?_ofKind (fun f hf => by simp [Field.hostPart, hf]) _

theorem contentLength_ofKind :
    h.contentLength = (ofKind .contentLength h.fields).findSome? Field.lengthPart :=
  findSome?_ofKind (fun f hf => by simp [Field.lengthPart, hf]) _

theorem isChunked_ofKind : h.isChunked = (ofKind .transferEncoding h.fields).any Field.isCoding :=
  any_ofKind (fun f hf => by simp [Field.isCoding, hf]) _

theorem isUpgrade_ofKind : h.isUpgrade =
    ((ofKind .upgrade h.fields).any Field.offersUpgrade &&
      (ofKind .connection h.fields).any (fun f => f.tokens.any isUpgradeToken) &&
      !(ofKind .upgrade h.fields).any Field.offersH2cUpgrade) := by
  have hupgrade := any_ofKind (k := .upgrade) (p := Field.offersUpgrade)
    (fun f hf => by simp [Field.offersUpgrade, hf]) h.fields
  have hh2c := any_ofKind (k := .upgrade) (p := Field.offersH2cUpgrade)
    (fun f hf => by simp [Field.offersH2cUpgrade, hf]) h.fields
  have htokens := any_ofKind (k := .connection) (p := fun f => f.tokens.any isUpgradeToken)
    (fun f hf => by simp [Field.tokens, hf]) h.fields
  rw [isUpgrade, hupgrade, hh2c, htokens]

end RequestHead

open RequestHead

/-- `h'` sends the message of `h` to an origin server: the same framing fields, its own Host
line in order, and a target in origin-form. -/
structure Reframes (h h' : RequestHead) : Prop where
  method : h'.method = h.method
  version : h'.http10 = h.http10
  length : ofKind .contentLength h'.fields = ofKind .contentLength h.fields
  coding : ofKind .transferEncoding h'.fields = ofKind .transferEncoding h.fields
  connection : ∀ f ∈ h'.fields, f.kind = .connection → f.ok h'.http10 = true
  host_ok : ∀ f ∈ h'.fields, f.kind = .host → f.ok h'.http10 = true
  host_once : (ofKind .host h'.fields).length ≤ 1
  host_present : h'.http10 = false → ∃ host, h'.hostLine = some host ∧ host ≠ []
  target_text : IsTargetText h'.target
  target_utf8 : isUtf8 h'.target = true
  target_form : TargetForm h'.method h'.target none h'.target (some 0)

namespace Reframes

variable {h h' : RequestHead} (r : Reframes h h')
include r

theorem contentLength_eq : h'.contentLength = h.contentLength := by
  rw [contentLength_ofKind, contentLength_ofKind, r.length]

theorem isChunked_eq : h'.isChunked = h.isChunked := by
  rw [isChunked_ofKind, isChunked_ofKind, r.coding]

theorem fieldsOk (hs : h.Strict) : FieldsOk h'.http10 h'.fields := by
  have hok := fieldsOk_of_strict hs
  have hframing : ∀ k, ofKind k h'.fields = ofKind k h.fields →
      ∀ f ∈ h'.fields, f.kind = k → f.ok h'.http10 = true := by
    intro k hk f hf hkind
    have hmem : f ∈ ofKind k h.fields := by rw [← hk]; simp [hf, hkind]
    rw [r.version]
    exact hok.each f (mem_ofKind.mp hmem).1
  refine ⟨fun f hf => ?_, ?_, ?_, ?_⟩
  · cases hkind : f.kind with
    | host => exact r.host_ok f hf hkind
    | contentLength => exact hframing _ r.length f hf hkind
    | transferEncoding => exact hframing _ r.coding f hf hkind
    | connection => exact r.connection f hf hkind
    | _ => simp [Field.ok, hkind]
  · rw [repeated_eq_ofKind]
    exact r.host_once
  · rw [repeated_eq_ofKind, r.length, ← repeated_eq_ofKind]
    exact hok.length_once
  · rw [repeated_eq_ofKind, r.coding, ← repeated_eq_ofKind]
    exact hok.coding_once

theorem strict (hs : h.Strict) : h'.Strict := by
  have hok := r.fieldsOk hs
  have hmethod := (isToken_iff.mp hs.method_token).2
  exact {
    method_token := r.method ▸ hs.method_token
    method_ne := r.method ▸ hs.method_ne
    target_text := r.target_text
    line_utf8 := by
      rw [r.method]
      exact (isUtf8_cut (by decide)).mpr
        ⟨isUtf8_of_ascii fun b hb => (tchar_spec b (hmethod b hb)).2.2.2.2.1, r.target_utf8⟩
    target_form := ⟨none, h'.target, some 0, r.target_form, by simp⟩
    lines := fun f hf => (f.ok_iff h'.http10).mp (hok.each f hf)
    host_once := by
      rw [← repeated_eq_filter _ Field.kind_host_iff]; exact hok.host_once
    host_present := by
      intro h11
      obtain ⟨host, hline, hne⟩ := r.host_present h11
      obtain ⟨f, hf, hnamed⟩ := (hostLine_iff hok).mp hline
      exact ⟨f, hf, host, hnamed, hne⟩
    length_once := by
      rw [← repeated_eq_filter _ Field.kind_length_iff]; exact hok.length_once
    coding_once := by
      rw [← repeated_eq_filter _ Field.kind_coding_iff]; exact hok.coding_once
    one_framing := by
      rintro ⟨hlength, hcoding⟩
      have hlength' := (contentLength_isSome hok).mpr hlength
      rw [r.contentLength_eq] at hlength'
      have hcoding' := isChunked_iff.mpr hcoding
      rw [r.isChunked_eq] at hcoding'
      exact hs.one_framing
        ⟨(contentLength_isSome (fieldsOk_of_strict hs)).mp hlength', isChunked_iff.mp hcoding'⟩ }

theorem accepted_wire (hs : h.Strict) (tail : Bytes) :
    accepted (h'.wire ++ tail) = some (h'.info none h'.target (some 0)) :=
  RequestHead.ReadsAs.accepted_wire ⟨r.strict hs, r.target_form, by simp⟩ tail

end Reframes
end Portail.Http
