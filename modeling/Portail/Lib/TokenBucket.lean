import Mathlib.Tactic

/-!
# Token buckets

Buckets that fill at a rate up to a capacity and pay a cost for every call they grant,
over times that never wrap. Calls may come with readings of the clock in any order: an
older reading than the bucket's stamp fills nothing. What the calls of a key are granted
is bounded by what the bucket held and what the time between them brings
(`granted_le`); a denied call leaves no trace as long as readings do not go back
(`answers_denied`), and neither does a full bucket that is dropped (`alike_of_dropped`).
-/

namespace Portail.Lib.TokenBucket

open List

structure Params where
  rate : ℕ
  capacity : ℕ
  cost : ℕ

structure Bucket where
  stamp : ℕ
  tokens : ℕ

variable (p : Params)

section

/-- The bucket as a call at a time finds it. One that was not seen before is full. -/
def level (b : Option Bucket) (now : ℕ) : Bucket :=
  match b with
  | none => ⟨now, p.capacity⟩
  | some b =>
    if b.stamp ≤ now then ⟨now, min (b.tokens + (now - b.stamp) * p.rate) p.capacity⟩ else b

/-- A call: whether it is granted, and the bucket after it. -/
def take (b : Option Bucket) (now : ℕ) : Bool × Bucket :=
  let b := level p b now
  if p.cost ≤ b.tokens then (true, ⟨b.stamp, b.tokens - p.cost⟩) else (false, b)

variable {p} {b : Option Bucket}

/-- No bucket holds more than its capacity. -/
def Capped (p : Params) (b : Option Bucket) : Prop := ∀ x, b = some x → x.tokens ≤ p.capacity

theorem level_tokens_le (h : Capped p b) (now : ℕ) : (level p b now).tokens ≤ p.capacity := by
  cases b with
  | none => exact le_rfl
  | some b =>
    rw [level]
    split_ifs
    · exact min_le_right _ _
    · exact h b rfl

theorem le_level_stamp (b : Option Bucket) (now : ℕ) : now ≤ (level p b now).stamp := by
  cases b with
  | none => exact le_rfl
  | some b =>
    rw [level]
    split_ifs with hle
    · exact le_rfl
    · exact (not_le.mp hle).le

theorem level_stamp_cases (b : Option Bucket) (now : ℕ) :
    (level p b now).stamp = now ∨ ∃ x, b = some x ∧ (level p b now).stamp = x.stamp := by
  cases b with
  | none => exact .inl rfl
  | some b =>
    rw [level]
    split_ifs
    · exact .inl rfl
    · exact .inr ⟨b, rfl, rfl⟩

/-- What a grant takes and what is left make up the level. -/
theorem take_spec (b : Option Bucket) (now : ℕ) :
    (take p b now).2.stamp = (level p b now).stamp ∧
    (if (take p b now).1 then p.cost else 0) + (take p b now).2.tokens =
      (level p b now).tokens := by
  by_cases hcost : p.cost ≤ (level p b now).tokens
  · simp only [take, if_pos hcost, if_true, true_and]
    omega
  · simp [take, hcost]

theorem take_capped (h : Capped p b) (now : ℕ) : Capped p (some (take p b now).2) := by
  rintro x ⟨⟩
  have hlevel := level_tokens_le h now
  have htake := (take_spec (p := p) b now).2
  omega

theorem take_denied {now : ℕ} (h : (take p b now).1 = false) :
    (take p b now).2 = level p b now := by
  by_cases hcost : p.cost ≤ (level p b now).tokens
  · simp [take, hcost] at h
  · simp [take, hcost]

theorem filled_split {s t now : ℕ} (hs : s ≤ t) (ht : t ≤ now) :
    (now - s) * p.rate = (t - s) * p.rate + (now - t) * p.rate := by
  rw [← tsub_add_tsub_cancel ht hs, add_mul, add_comm]

/-- Filling up at an earlier time in between changes nothing. -/
theorem level_level {t now : ℕ} (ht : t ≤ now) :
    level p (some (level p b t)) now = level p b now := by
  cases b with
  | none => simp [level, ht]
  | some b =>
    by_cases hstamp : b.stamp ≤ t
    · simp only [level, hstamp, ht, hstamp.trans ht, if_true, filled_split hstamp ht]
      congr 1
      omega
    · rw [show level p (some b) t = b from if_neg hstamp]

/-- A bucket that is full at a time is as good as none from then on. -/
theorem level_full {b : Bucket} {t now : ℕ} (hstamp : b.stamp ≤ t)
    (hfull : p.capacity ≤ b.tokens + (t - b.stamp) * p.rate) (hnow : t ≤ now) :
    level p none now = level p (some b) now := by
  have hfill : (t - b.stamp) * p.rate ≤ (now - b.stamp) * p.rate :=
    Nat.mul_le_mul_right _ (by omega)
  rw [level, level, if_pos (hstamp.trans hnow), min_eq_right (by omega)]

end

section

variable {p} {K : Type} {s s' : K → Option Bucket} {t : ℕ}

/-- Every bucket of one table fills to the level of the other's from a time on. -/
def Alike (p : Params) (t : ℕ) (s s' : K → Option Bucket) : Prop :=
  ∀ k now, t ≤ now → level p (s k) now = level p (s' k) now

theorem Alike.mono {u : ℕ} (h : Alike p t s s') (htu : t ≤ u) :
    Alike p u s s' := fun k now hnow => h k now (htu.trans hnow)

theorem alike_of_dropped
    (h : ∀ k, s' k = s k ∨ s' k = none ∧ ∃ b, s k = some b ∧ b.stamp ≤ t ∧
      p.capacity ≤ b.tokens + (t - b.stamp) * p.rate) : Alike p t s' s := by
  intro k now hnow
  rcases h k with hsame | ⟨hnone, b, hb, hstamp, hfull⟩
  · rw [hsame]
  · rw [hnone, hb]
    exact level_full hstamp hfull hnow

end

section

variable {K : Type} [DecidableEq K]

/-- A call of a client among many. -/
def call (s : K → Option Bucket) (c : K × ℕ) : Bool × (K → Option Bucket) :=
  let r := take p (s c.1) c.2
  (r.1, Function.update s c.1 (some r.2))

def answers (s : K → Option Bucket) : List (K × ℕ) → List Bool
  | [] => []
  | c :: cs => (call p s c).1 :: answers (call p s c).2 cs

def after (s : K → Option Bucket) (cs : List (K × ℕ)) : K → Option Bucket :=
  cs.foldl (fun s c => (call p s c).2) s

/-- How many calls of a client are granted. -/
def granted (k : K) (cs : List (K × ℕ)) (as : List Bool) : ℕ :=
  (cs.zip as).countP fun x => x.1.1 = k ∧ x.2 = true

theorem granted_cons (k : K) (c : K × ℕ) (cs : List (K × ℕ)) (a : Bool) (as : List Bool) :
    granted k (c :: cs) (a :: as) = granted k cs as + if c.1 = k ∧ a = true then 1 else 0 := by
  rw [granted, zip_cons_cons, countP_cons]
  simp [granted]

variable {p} {s s' : K → Option Bucket} {k : K} {cs : List (K × ℕ)} {c : K × ℕ}

theorem call_same (h : c.1 = k) :
    (call p s c).1 = (take p (s k) c.2).1 ∧ (call p s c).2 k = some (take p (s k) c.2).2 := by
  subst h
  simp [call]

theorem call_other (h : c.1 ≠ k) : (call p s c).2 k = s k := by
  simp [call, Function.update_of_ne (Ne.symm h)]

/-- A grant is paid from the level it finds, those after it from what it leaves. -/
theorem granted_same {filled : ℕ} (hk : c.1 = k)
    (hrest : granted k cs (answers p (call p s c).2 cs) * p.cost ≤
      (take p (s k) c.2).2.tokens + filled) :
    granted k (c :: cs) (answers p s (c :: cs)) * p.cost ≤
      (level p (s k) c.2).tokens + filled := by
  have hpaid := (take_spec (p := p) (s k) c.2).2
  rw [answers, granted_cons, (call_same hk).1, add_mul]
  simp only [hk, true_and, ite_mul, one_mul, zero_mul]
  omega

theorem granted_other (hk : c.1 ≠ k) :
    granted k (c :: cs) (answers p s (c :: cs)) = granted k cs (answers p (call p s c).2 cs) := by
  rw [answers, granted_cons, if_neg fun h => hk h.1, add_zero]

/-- The calls of a client are paid from its bucket and from what the time up to the latest of them
fills in. -/
theorem granted_le_of_bucket {b : Bucket} {latest : ℕ} (hb : s k = some b)
    (hlatest : ∀ c ∈ cs, c.1 = k → c.2 ≤ latest) :
    granted k cs (answers p s cs) * p.cost ≤ b.tokens + (latest - b.stamp) * p.rate := by
  induction cs generalizing s b with
  | nil => simp [granted, answers]
  | cons c cs ih =>
    obtain ⟨hc, hcs⟩ := forall_mem_cons.mp hlatest
    by_cases hk : c.1 = k
    · refine (granted_same hk (ih (call_same hk).2 hcs)).trans ?_
      rw [(take_spec _ _).1, hb, level]
      split_ifs with hold
      · simp only [filled_split hold (hc hk)]
        omega
      · exact le_rfl
    · rw [granted_other hk]
      exact ih (by rw [call_other hk, hb]) hcs

/-- From the first call of a client on, it is granted no more than the capacity and what the time
to its latest call brings. -/
theorem granted_le {first latest : ℕ} (hs : Capped p (s k))
    (hfirst : (cs.filter fun c => c.1 = k).head? = some (k, first))
    (hlatest : ∀ c ∈ cs, c.1 = k → c.2 ≤ latest) :
    granted k cs (answers p s cs) * p.cost ≤ p.capacity + (latest - first) * p.rate := by
  induction cs generalizing s with
  | nil => simp at hfirst
  | cons c cs ih =>
    have hcs := (forall_mem_cons.mp hlatest).2
    by_cases hk : c.1 = k
    · have hone : c.2 = first := by
        simp only [filter_cons, hk, decide_true, if_true, head?_cons, Option.some.injEq] at hfirst
        rw [hfirst]
      refine (granted_same hk (granted_le_of_bucket (call_same hk).2 hcs)).trans ?_
      rw [(take_spec _ _).1, ← hone]
      have htime := le_level_stamp (p := p) (s k) c.2
      exact Nat.add_le_add (level_tokens_le hs c.2) (Nat.mul_le_mul_right _ (by omega))
    · rw [granted_other hk]
      refine ih ?_ ?_ hcs
      · rwa [call_other hk]
      · simpa [filter_cons, hk] using hfirst

theorem answers_append (s : K → Option Bucket) (cs ds : List (K × ℕ)) :
    answers p s (cs ++ ds) = answers p s cs ++ answers p (after p s cs) ds := by
  induction cs generalizing s with
  | nil => rfl
  | cons c cs ih =>
    rw [cons_append, answers, answers, ih]
    rfl

theorem answers_length (s : K → Option Bucket) (cs : List (K × ℕ)) :
    (answers p s cs).length = cs.length := by
  induction cs generalizing s with
  | nil => rfl
  | cons c cs ih => rw [answers, length_cons, length_cons, ih]

theorem Alike.call {t : ℕ} (h : Alike p t s s') (hc : t ≤ c.2) : (call p s c).1 = (call p s' c).1 ∧
      Alike p t (TokenBucket.call p s c).2 (TokenBucket.call p s' c).2 := by
  have htake : take p (s c.1) c.2 = take p (s' c.1) c.2 := by rw [take, take, h c.1 c.2 hc]
  refine ⟨congrArg (fun r => r.1) htake, fun k now hnow => ?_⟩
  by_cases hk : c.1 = k
  · rw [(call_same hk).2, (call_same hk).2, ← hk, htake]
  · rw [call_other hk, call_other hk]
    exact h k now hnow

/-- Buckets that are level from a time on answer all later calls alike. -/
theorem Alike.answers_eq {t : ℕ} (h : Alike p t s s')
    (hcs : ∀ c ∈ cs, t ≤ c.2) : answers p s cs = answers p s' cs := by
  induction cs generalizing s s' with
  | nil => rfl
  | cons c cs ih =>
    obtain ⟨hc, hcs⟩ := forall_mem_cons.mp hcs
    obtain ⟨hanswer, hrest⟩ := h.call hc
    rw [answers, answers, hanswer, ih hrest hcs]

/-- A denied call can be left out, unless a later one reads an older time. -/
theorem answers_denied (s : K → Option Bucket) (pre post : List (K × ℕ)) (c : K × ℕ)
    (hpost : ∀ x ∈ post, c.2 ≤ x.2)
    (hdenied : (answers p s (pre ++ c :: post))[pre.length]? = some false) :
    answers p s (pre ++ post) = (answers p s (pre ++ c :: post)).eraseIdx pre.length := by
  have hlen := answers_length (p := p) s pre
  have hsplit : answers p s (pre ++ c :: post) = answers p s pre ++
      (call p (after p s pre) c).1 :: answers p (call p (after p s pre) c).2 post := by
    rw [answers_append, answers]
  rw [hsplit, ← hlen, getElem?_append_right le_rfl, Nat.sub_self, getElem?_cons_zero,
    Option.some.injEq] at hdenied
  rw [hsplit, answers_append, ← hlen, eraseIdx_append_of_length_le le_rfl, Nat.sub_self,
    eraseIdx_cons_zero]
  congr 1
  have hbucket : (call p (after p s pre) c).2 =
      Function.update (after p s pre) c.1 (some (level p (after p s pre c.1) c.2)) := by
    rw [call, take_denied hdenied]
  rw [hbucket]
  refine Alike.answers_eq (t := c.2) (fun k now hnow => ?_) hpost
  by_cases hk : k = c.1
  · subst hk
    rw [Function.update_self, level_level hnow]
  · rw [Function.update_of_ne hk]

end
end Portail.Lib.TokenBucket
