import Mathlib.Tactic

/-!
# Fallible passes over a list

A check or a conversion of every element that fails on the first bad one. Its error
is told where in the list that element stands.
-/

namespace Portail.Lib

open List

variable {α β ε : Type} {xs : List α} {f : α → Except ε β} {place place' : ℕ → ε → ε}
  {x : Except ε α} {p : α → Prop} {b : β}

theorem bind_eq_ok : (x >>= f) = .ok b ↔ ∃ a, x = .ok a ∧ f a = .ok b := by
  cases x with
  | error e => simp [bind, Except.bind]
  | ok a => simp [bind, Except.bind]

theorem seq_eq_ok {x : Except ε Unit} {y : Except ε β} :
    (x >>= fun _ => y) = .ok b ↔ x = .ok () ∧ y = .ok b := by
  rw [bind_eq_ok]
  exact ⟨fun ⟨(), hx, hy⟩ => ⟨hx, hy⟩, fun ⟨hx, hy⟩ => ⟨(), hx, hy⟩⟩

theorem map_eq_ok {f : α → β} : x.map f = .ok b ↔ ∃ a, x = .ok a ∧ f a = b := by
  cases x <;> simp [Except.map]

theorem mapError_eq_ok {ε' : Type} {f : ε → ε'} {a : α} : x.mapError f = .ok a ↔ x = .ok a := by
  cases x <;> simp [Except.mapError]

/-- A check that fails with the given error unless its condition holds. -/
def ensure (p : Prop) [Decidable p] (e : ε) : Except ε Unit := if p then .ok () else .error e

theorem ensure_eq_ok {p : Prop} [Decidable p] {e : ε} : ensure p e = .ok () ↔ p := by
  unfold ensure
  split_ifs with h <;> simp [h]

/-- Converts the elements in order, the first of them standing at index `i`. -/
def collectFrom (place : ℕ → ε → ε) (f : α → Except ε β) : ℕ → List α → Except ε (List β)
  | _, [] => .ok []
  | i, x :: xs => do
    let y ← (f x).mapError (place i)
    let ys ← collectFrom place f (i + 1) xs
    return y :: ys

def collect (place : ℕ → ε → ε) (f : α → Except ε β) (xs : List α) : Except ε (List β) :=
  collectFrom place f 0 xs

theorem collectFrom_eq_ok {ys : List β}
    {i : ℕ} : collectFrom place f i xs = .ok ys ↔ List.Forall₂ (fun x y => f x = .ok y) xs ys := by
  induction xs generalizing ys i with
  | nil => cases ys <;> simp [collectFrom]
  | cons x xs ih =>
    simp only [collectFrom, bind_eq_ok, mapError_eq_ok, ih]
    cases ys with
    | nil => simp [pure, Except.pure]
    | cons y ys =>
      simp only [pure, Except.pure, Except.ok.injEq, List.cons.injEq, forall₂_cons]
      constructor
      · rintro ⟨y', hy, ys', hys, rfl, rfl⟩
        exact ⟨hy, hys⟩
      · rintro ⟨hy, hys⟩
        exact ⟨y, hy, ys, hys, rfl, rfl⟩

/-- A conversion succeeds as a whole exactly when it does on every element. -/
theorem collect_eq_ok {ys : List β} :
    collect place f xs = .ok ys ↔ List.Forall₂ (fun x y => f x = .ok y) xs ys := collectFrom_eq_ok

theorem forall₂_exists_right {β : Type*} {R : α → β → Prop} {ys : List β}
    (h : List.Forall₂ R xs ys) {x : α} (hx : x ∈ xs) : ∃ y ∈ ys, R x y := by
  induction h with
  | nil => cases hx
  | cons hxy _ ih =>
    rcases mem_cons.mp hx with rfl | hx
    · exact ⟨_, mem_cons_self, hxy⟩
    · obtain ⟨y, hy, hr⟩ := ih hx
      exact ⟨y, mem_cons_of_mem _ hy, hr⟩

/-- Where both succeed, their results are related. -/
def OkRel {γ : Type} (r : β → γ → Prop) (x : Except ε β) (y : Except ε γ) : Prop :=
  ∀ b c, x = .ok b → y = .ok c → r b c

namespace OkRel

variable {γ β' γ' : Type} {r : β → γ → Prop} {s : β' → γ' → Prop}

theorem ok {c : γ} (h : r b c) : OkRel r (.ok b : Except ε β) (.ok c) := by
  rintro b c ⟨⟩ ⟨⟩
  exact h

theorem bind {x : Except ε β} {y : Except ε γ} {f : β → Except ε β'} {g : γ → Except ε γ'}
    (h : OkRel r x y) (hfg : ∀ b c, r b c → OkRel s (f b) (g c)) :
    OkRel s (x >>= f) (y >>= g) := by
  intro b' c' hx hy
  obtain ⟨b, hb, hx⟩ := bind_eq_ok.mp hx
  obtain ⟨c, hc, hy⟩ := bind_eq_ok.mp hy
  exact hfg b c (h b c hb hc) b' c' hx hy

theorem collect {place₁ place₂ : ℕ → ε → ε} {f₁ : α → Except ε β} {f₂ : α → Except ε γ}
    (h : ∀ x ∈ xs, OkRel r (f₁ x) (f₂ x)) :
    OkRel (List.Forall₂ r) (collect place₁ f₁ xs) (collect place₂ f₂ xs) := by
  intro ys zs h₁ h₂
  rw [collect_eq_ok] at h₁ h₂
  induction h₁ generalizing zs with
  | nil =>
    cases h₂
    exact .nil
  | cons hy _ ih =>
    obtain ⟨z, zs, hz, hzs, rfl⟩ := forall₂_cons_left_iff.mp h₂
    exact .cons (h _ mem_cons_self _ _ hy hz) (ih (fun x hx => h x (mem_cons_of_mem _ hx)) _ hzs)

theorem foldlM {step₁ : β → α → Except ε β} {step₂ : γ → α → Except ε γ}
    (hstep : ∀ x ∈ xs, ∀ b c, r b c → OkRel r (step₁ b x) (step₂ c x)) {c : γ}
    (h : r b c) : OkRel r (xs.foldlM step₁ b) (xs.foldlM step₂ c) := by
  induction xs generalizing b c with
  | nil => exact ok h
  | cons x xs ih =>
    rw [foldlM_cons, foldlM_cons]
    exact (hstep x mem_cons_self b c h).bind fun _ _ h =>
      ih (fun x hx => hstep x (mem_cons_of_mem _ hx)) h

end OkRel

/-- Both succeed, with one result. -/
def Agree (x y : Except ε α) : Prop := ∃ a, x = .ok a ∧ y = .ok a

theorem Agree.ok (a : α) : Agree (.ok a : Except ε α) (.ok a) := ⟨a, rfl, rfl⟩

theorem Agree.bind {y : Except ε α} {g : α → Except ε β} (h : Agree x y)
    (hfg : ∀ a, Agree (f a) (g a)) : Agree (x >>= f) (y >>= g) := by
  obtain ⟨a, rfl, rfl⟩ := h
  exact hfg a

theorem Agree.collect {γ : Type} {g : γ → Except ε β} {zs : List γ}
    (h : List.Forall₂ (fun x z => Agree (f x) (g z)) xs zs) :
    Agree (collect place f xs) (collect place' g zs) := by
  simp only [Agree, collect_eq_ok]
  induction h with
  | nil => exact ⟨[], .nil, .nil⟩
  | cons hxz _ ih =>
    obtain ⟨y, hx, hz⟩ := hxz
    obtain ⟨ys, hxs, hzs⟩ := ih
    exact ⟨y :: ys, .cons hx hxs, .cons hz hzs⟩

/-- Two folds whose steps agree, over a list and its image. -/
theorem Agree.foldlM {σ γ : Type} {φ : α → γ} {step₁ : σ → α → Except ε σ}
    {step₂ : σ → γ → Except ε σ} (h : ∀ x ∈ xs, ∀ s, Agree (step₁ s x) (step₂ s (φ x))) (s : σ) :
    Agree (xs.foldlM step₁ s) ((xs.map φ).foldlM step₂ s) := by
  induction xs generalizing s with
  | nil => exact .ok s
  | cons x xs ih =>
    obtain ⟨hx, hxs⟩ := forall_mem_cons.mp h
    exact (hx s).bind fun s' => ih hxs s'

/-- An outcome that is kept as it is, or that is empty and left out. -/
def Leaves (keep : Bool) (x y : Except ε (List β)) : Prop :=
  ∃ out, x = .ok out ∧ if keep then y = .ok out else out = []

theorem Leaves.map {γ : Type} {keep : Bool} {x y : Except ε (List β)} (h : Leaves keep x y)
    {make : List β → List γ} (hmake : make [] = []) :
    Leaves keep (do return make (← x)) (do return make (← y)) := by
  obtain ⟨out, rfl, hy⟩ := h
  refine ⟨make out, rfl, ?_⟩
  cases keep with
  | true => exact bind_eq_ok.mpr ⟨out, hy, rfl⟩
  | false => exact hy.symm ▸ hmake

/-- A pass over the elements that are kept has the outcome of one over them all. -/
theorem Leaves.flatten {f g : α → Except ε (List β)} {keep : α → Bool}
    (h : ∀ x ∈ xs, Leaves (keep x) (f x) (g x)) :
    Agree (do return (← Lib.collect place f xs).flatten)
      (do return (← Lib.collect place' g (xs.filter keep)).flatten) := by
  suffices hparts : ∃ parts parts', Lib.collect place f xs = .ok parts ∧
      Lib.collect place' g (xs.filter keep) = .ok parts' ∧ parts'.flatten = parts.flatten by
    obtain ⟨parts, parts', hf, hg, hsame⟩ := hparts
    exact ⟨_, bind_eq_ok.mpr ⟨parts, hf, rfl⟩, bind_eq_ok.mpr ⟨parts', hg, congrArg _ hsame⟩⟩
  simp only [collect_eq_ok]
  induction xs with
  | nil => exact ⟨[], [], .nil, .nil, rfl⟩
  | cons x xs ih =>
    obtain ⟨⟨out, hout, hkeep⟩, hxs⟩ := forall_mem_cons.mp h
    obtain ⟨parts, parts', hf, hg, hsame⟩ := ih hxs
    cases hk : keep x with rw [hk] at hkeep
    | true =>
      rw [filter_cons_of_pos hk]
      exact ⟨out :: parts, out :: parts', .cons hout hf, .cons hkeep hg, by simp [hsame]⟩
    | false =>
      rw [filter_cons_of_neg (by simp [hk])]
      obtain rfl : out = [] := hkeep
      exact ⟨[] :: parts, parts', .cons hout hf, hg, by simp [hsame]⟩

/-- Lists related element by element stay so when elements of the first and their counterparts
are left out. -/
theorem forall₂_filter {β : Type*} {R : α → β → Prop} (keep : α → Bool) {ys : List β}
    (h : List.Forall₂ R xs ys) : ∃ zs, List.Forall₂ R (xs.filter keep) zs ∧
      (xs.filter keep).zip zs = (xs.zip ys).filter fun entry => keep entry.1 := by
  induction h with
  | nil => exact ⟨[], .nil, rfl⟩
  | @cons x y xs ys hxy _ ih =>
    obtain ⟨zs, hzs, hzip⟩ := ih
    cases hk : keep x with
    | true =>
      rw [filter_cons_of_pos hk]
      exact ⟨y :: zs, .cons hxy hzs, by simp [hk, hzip]⟩
    | false =>
      rw [filter_cons_of_neg (by simp [hk])]
      exact ⟨zs, hzs, by simp [hk, hzip]⟩

/-- What holds if a computation succeeds. -/
def Ensures (x : Except ε α) (p : Prop) : Prop := ∀ a, x = .ok a → p

theorem Ensures.first {p : Prop} (h : Ensures x p) : Ensures (x >>= f) p := by
  intro b hb
  obtain ⟨a, ha, -⟩ := bind_eq_ok.mp hb
  exact h a ha

theorem Ensures.collect
    (h : ∀ x, Ensures (f x) (p x)) : Ensures (collect place f xs) (∀ x ∈ xs, p x) := by
  intro ys hys x hx
  obtain ⟨y, -, hy⟩ := forall₂_exists_right (collect_eq_ok.mp hys) hx
  exact h x y hy

theorem Ensures.foldlM {σ : Type} {step : σ → α → Except ε σ} (h : ∀ s x, Ensures (step s x) (p x))
    (xs : List α) (s : σ) : Ensures (xs.foldlM step s) (∀ x ∈ xs, p x) := by
  induction xs generalizing s with
  | nil => exact fun _ _ => forall_mem_nil _
  | cons x xs ih =>
    intro s' hs'
    obtain ⟨s₁, hx, hxs⟩ := bind_eq_ok.mp hs'
    exact forall_mem_cons.mpr ⟨h s x s₁ hx, ih s₁ s' hxs⟩

theorem exists_of_mem_collect {ys : List β}
    (h : collect place f xs = .ok ys) {y : β} (hy : y ∈ ys) : ∃ x ∈ xs, f x = .ok y :=
  forall₂_exists_right (collect_eq_ok.mp h).flip hy

def checkEach (f : ℕ → α → Except ε Unit) : ℕ → List α → Except ε Unit
  | _, [] => .ok ()
  | i, x :: xs => do
    f i x
    checkEach f (i + 1) xs

/-- A check whose outcome does not depend on the index passes exactly when every element does. -/
theorem checkEach_eq_ok {f : ℕ → α → Except ε Unit} {i : ℕ}
    (h : ∀ i x, f i x = .ok () ↔ p x) : checkEach f i xs = .ok () ↔ ∀ x ∈ xs, p x := by
  induction xs generalizing i with
  | nil => simp [checkEach]
  | cons x xs ih =>
    simp only [checkEach, seq_eq_ok, h, ih, forall_mem_cons]

end Portail.Lib
