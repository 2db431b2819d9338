import Portail.Lib.TokenBucket

/-!
# Rate limiting

A limiter keeps a packed bucket for each client, its stamp in milliseconds modulo
2^32 (`rate_limit.rs`). As long as all readings of the clock lie within 2^31 ms of each
other it is a table of token buckets over unwrapped times. A cell's compare-exchange
loop is the one step that succeeds. The limiters of the process are in a registry that the
table builds set.
-/

namespace Portail.RateLimit

open Lib TokenBucket Option
open List hiding take

def millitokensPerRequest : UInt32 := 1000

def backwardsMs : UInt32 := (1 : UInt32) <<< 31

abbrev ClientKey := BitVec 128

structure Limiter where
  rate : UInt32
  burstMt : UInt32
  buckets : ClientKey → Option UInt64

def Limiter.new (rps burst : UInt32) : Limiter where
  rate := rps
  burstMt := .ofNat (min (burst.toNat * millitokensPerRequest.toNat) (2 ^ 32 - 1))
  buckets _ := none

/-- Rate and burst change in place: the buckets are kept. -/
def Limiter.reconfigure (l : Limiter) (rps burst : UInt32) : Limiter :=
  { l with
    rate := rps
    burstMt := .ofNat (min (burst.toNat * millitokensPerRequest.toNat) (2 ^ 32 - 1)) }

/-- The limiter of a listener after `limiter_for`, which makes it where there is none. -/
def limiterFor {κ : Type} [DecidableEq κ] (registry : κ → Option Limiter) (key : κ)
    (rps burst : UInt32) : κ → Option Limiter :=
  Function.update registry key
    (some (((registry key).getD (Limiter.new rps burst)).reconfigure rps burst))

def pack (nowMs tokens : UInt32) : UInt64 := (nowMs.toUInt64 <<< 32) ||| tokens.toUInt64

def unpack (state : UInt64) : UInt32 × UInt32 := ((state >>> 32).toUInt32, state.toUInt32)

/-- The milliseconds from one reading to a later one. -/
def elapsed (now last : UInt32) : Option UInt32 :=
  let dt := now - last
  if dt < backwardsMs then some dt else none

def refill (tokens dtMs rate burst : UInt32) : UInt32 :=
  (min (tokens.toUInt64 + dtMs.toUInt64 * rate.toUInt64) burst.toUInt64).toUInt32

/-- A call on a client's cell: the cell after it, and whether it is granted. -/
def consume (cur : UInt64) (nowMs rate burst : UInt32) : UInt64 × Bool :=
  let (last, tokens) := unpack cur
  let (stamp, filled) :=
    match elapsed nowMs last with
    | some dt => (nowMs, refill tokens dt rate burst)
    | none => (last, tokens)
  if millitokensPerRequest ≤ filled then (pack stamp (filled - millitokensPerRequest), true)
  else (pack stamp filled, false)

def Limiter.store (l : Limiter) (key : ClientKey) (cell : UInt64) : Limiter :=
  { l with buckets := Function.update l.buckets key (some cell) }

/-- A client not seen since the last sweep starts from a full bucket. -/
def Limiter.checkAt (l : Limiter) (key : ClientKey) (nowMs : UInt32) : Bool × Limiter :=
  match l.buckets key with
  | some cell =>
    let (next, granted) := consume cell nowMs l.rate l.burstMt
    (granted, l.store key next)
  | none =>
    let granted := decide (millitokensPerRequest ≤ l.burstMt)
    let tokens := if granted then l.burstMt - millitokensPerRequest else l.burstMt
    (granted, l.store key (pack nowMs tokens))

/-- What the clock reads at a time. -/
def reading (ms : ℕ) : UInt32 := .ofNat ms

/-- The limiter after calls of clients at times. -/
def Limiter.after (l : Limiter) (calls : List (ClientKey × ℕ)) : Limiter :=
  calls.foldl (fun l c => (l.checkAt c.1 (reading c.2)).2) l

def Limiter.answers (l : Limiter) : List (ClientKey × ℕ) → List Bool
  | [] => []
  | c :: calls => (l.checkAt c.1 (reading c.2)).1 :: (l.checkAt c.1 (reading c.2)).2.answers calls

theorem pack_toNat (nowMs tokens : UInt32) :
    (pack nowMs tokens).toNat = nowMs.toNat * 2 ^ 32 + tokens.toNat := by
  have hnow := nowMs.toNat_lt
  have htokens := tokens.toNat_lt
  rw [pack, UInt64.toNat_or, UInt64.toNat_shiftLeft]
  simp only [UInt32.toNat_toUInt64, UInt64.reduceToNat, Nat.reduceMod]
  rw [Nat.mod_eq_of_lt (by rw [Nat.shiftLeft_eq]; omega),
    ← Nat.shiftLeft_add_eq_or_of_lt (by omega), Nat.shiftLeft_eq]

theorem unpack_pack (nowMs tokens : UInt32) : unpack (pack nowMs tokens) = (nowMs, tokens) := by
  have hnow := nowMs.toNat_lt
  have htokens := tokens.toNat_lt
  refine Prod.ext (UInt32.toNat_inj.mp ?_) (UInt32.toNat_inj.mp ?_)
  · simp only [unpack, UInt64.toNat_toUInt32, UInt64.toNat_shiftRight, pack_toNat,
      UInt64.reduceToNat, Nat.reduceMod, Nat.shiftRight_eq_div_pow]
    omega
  · simp only [unpack, UInt64.toNat_toUInt32, pack_toNat]
    omega

theorem elapsed_reading {now last : ℕ} (hback : last < now + 2 ^ 31) (hfar : now < last + 2 ^ 31) :
    elapsed (reading now) (reading last) =
      if last ≤ now then some (.ofNat (now - last)) else none := by
  have hdt : (reading now - reading last).toNat =
      if last ≤ now then now - last else 2 ^ 32 - (last - now) := by
    rw [UInt32.toNat_sub]
    simp only [reading, UInt32.toNat_ofNat']
    split_ifs <;> omega
  have hlimit : backwardsMs.toNat = 2 ^ 31 := rfl
  simp only [elapsed, UInt32.lt_iff_toNat_lt, hdt, hlimit]
  split_ifs with h₁ h₂ h₂
  · refine congrArg some (UInt32.toNat_inj.mp ?_)
    rw [hdt, if_pos h₁, UInt32.toNat_ofNat', Nat.mod_eq_of_lt (by omega)]
  · omega
  · omega
  · rfl

theorem refill_toNat (tokens dtMs rate burst : UInt32) :
    (refill tokens dtMs rate burst).toNat =
      min (tokens.toNat + dtMs.toNat * rate.toNat) burst.toNat := by
  have htokens := tokens.toNat_lt
  have hburst := burst.toNat_lt
  have hfill : dtMs.toNat * rate.toNat ≤ (2 ^ 32 - 1) * (2 ^ 32 - 1) :=
    Nat.mul_le_mul (by have := dtMs.toNat_lt; omega) (by have := rate.toNat_lt; omega)
  have hsum : (tokens.toUInt64 + dtMs.toUInt64 * rate.toUInt64).toNat =
      tokens.toNat + dtMs.toNat * rate.toNat := by
    rw [UInt64.toNat_add, UInt64.toNat_mul]
    simp only [UInt32.toNat_toUInt64]
    omega
  have hmin (a b : UInt64) : (min a b).toNat = min a.toNat b.toNat := by
    rw [show min a b = if a ≤ b then a else b from rfl]
    split_ifs with hle <;> rw [UInt64.le_iff_toNat_le] at hle <;> omega
  rw [refill, UInt64.toNat_toUInt32, hmin, hsum, UInt32.toNat_toUInt64]
  omega

variable {l : Limiter} {s : ClientKey → Option Bucket} {calls : List (ClientKey × ℕ)}

section

open TokenBucket (Bucket)

def encode (b : Bucket) : UInt64 := pack (reading b.stamp) (.ofNat b.tokens)

/-- The limiter as token buckets over unwrapped times. -/
def Limiter.params (l : Limiter) : TokenBucket.Params where
  rate := l.rate.toNat
  capacity := l.burstMt.toNat
  cost := millitokensPerRequest.toNat

/-- The readings are less than 2^31 ms apart. -/
def Near (a b : ℕ) : Prop := a < b + 2 ^ 31 ∧ b < a + 2 ^ 31

theorem consume_encode {b : Bucket} {now : ℕ} (hb : b.tokens ≤ l.burstMt.toNat)
    (hnear : Near b.stamp now) :
    consume (encode b) (reading now) l.rate l.burstMt =
      (encode (take l.params (some b) now).2, (take l.params (some b) now).1) := by
  have hburst := l.burstMt.toNat_lt
  have htokens : (UInt32.ofNat b.tokens).toNat = b.tokens := by
    rw [UInt32.toNat_ofNat', Nat.mod_eq_of_lt (by omega)]
  -- The words computed are those of the bucket's level.
  have hlevel : (match elapsed (reading now) (reading b.stamp) with
      | some dt => (reading now, refill (.ofNat b.tokens) dt l.rate l.burstMt)
      | none => (reading b.stamp, .ofNat b.tokens)) =
      (reading (level l.params (some b) now).stamp,
        UInt32.ofNat (level l.params (some b) now).tokens) := by
    rw [elapsed_reading hnear.1 hnear.2]
    by_cases hle : b.stamp ≤ now
    · rw [if_pos hle, level, if_pos hle]
      refine Prod.ext rfl (UInt32.toNat_inj.mp ?_)
      have hdt : (UInt32.ofNat (now - b.stamp)).toNat = now - b.stamp := by
        have := hnear.2
        rw [UInt32.toNat_ofNat', Nat.mod_eq_of_lt (by omega)]
      simp only [refill_toNat, htokens, hdt, Limiter.params, UInt32.toNat_ofNat']
      omega
    · rw [if_neg hle, level, if_neg hle]
  have hcap := level_tokens_le (p := l.params) (b := some b) (fun x hx => some.inj hx ▸ hb) now
  simp only [consume, encode, unpack_pack, hlevel, take]
  generalize level l.params (some b) now = f at hcap ⊢
  have hcap : f.tokens ≤ l.burstMt.toNat := hcap
  have hf : (UInt32.ofNat f.tokens).toNat = f.tokens := by
    rw [UInt32.toNat_ofNat', Nat.mod_eq_of_lt (by omega)]
  have hcost : l.params.cost = millitokensPerRequest.toNat := rfl
  have hiff : millitokensPerRequest ≤ UInt32.ofNat f.tokens ↔ l.params.cost ≤ f.tokens := by
    rw [UInt32.le_iff_toNat_le, hf, hcost]
  by_cases hle : l.params.cost ≤ f.tokens
  · rw [if_pos (hiff.mpr hle), if_pos hle]
    have hsub : UInt32.ofNat f.tokens - millitokensPerRequest =
        UInt32.ofNat (f.tokens - l.params.cost) := by
      refine UInt32.toNat_inj.mp ?_
      rw [UInt32.toNat_sub_of_le _ _ (hiff.mpr hle), hf, UInt32.toNat_ofNat',
        Nat.mod_eq_of_lt (by omega), hcost]
    rw [hsub]
  · rw [if_neg fun h => hle (hiff.mp h), if_neg hle]

theorem encode_full (l : Limiter) (now : ℕ) :
    (decide (millitokensPerRequest ≤ l.burstMt), pack (reading now)
      (if decide (millitokensPerRequest ≤ l.burstMt) then l.burstMt - millitokensPerRequest
        else l.burstMt)) =
      ((take l.params none now).1, encode (take l.params none now).2) := by
  have hiff : millitokensPerRequest ≤ l.burstMt ↔ l.params.cost ≤ l.params.capacity :=
    UInt32.le_iff_toNat_le
  have hburst := l.burstMt.toNat_lt
  by_cases hle : l.params.cost ≤ l.params.capacity
  · have hsub : l.burstMt - millitokensPerRequest =
        UInt32.ofNat (l.params.capacity - l.params.cost) := by
      have hcap : l.params.capacity = l.burstMt.toNat := rfl
      refine UInt32.toNat_inj.mp ?_
      rw [UInt32.toNat_sub_of_le _ _ (hiff.mpr hle), UInt32.toNat_ofNat',
        Nat.mod_eq_of_lt (by omega)]
      rfl
    simp [hiff.mpr hle, hle, take, level, encode, hsub]
  · have hfull : UInt32.ofNat l.params.capacity = l.burstMt := UInt32.ofNat_toNat
    simp [hiff, hle, take, level, encode, hfull]

/-- The limiter's cells are the buckets. -/
def Limiter.Refines (l : Limiter) (s : ClientKey → Option Bucket) : Prop :=
  ∀ key, l.buckets key = (s key).map encode ∧ TokenBucket.Capped l.params (s key)

theorem checkAt_params (l : Limiter) (key : ClientKey) (nowMs : UInt32) :
    (l.checkAt key nowMs).2.params = l.params := by
  unfold Limiter.checkAt
  split <;> rfl

theorem checkAt_refines (h : l.Refines s)
    {c : ClientKey × ℕ} (hnear : ∀ b, s c.1 = some b → Near b.stamp c.2) :
    (l.checkAt c.1 (reading c.2)).1 = (call l.params s c).1 ∧
      (l.checkAt c.1 (reading c.2)).2.Refines (call l.params s c).2 := by
  have hstep : l.checkAt c.1 (reading c.2) = ((take l.params (s c.1) c.2).1,
      l.store c.1 (encode (take l.params (s c.1) c.2).2)) := by
    obtain ⟨hcell, hcap⟩ := h c.1
    cases hs : s c.1 with
    | none =>
      rw [hs, map_none] at hcell
      obtain ⟨hgranted, hpack⟩ := Prod.mk.inj (encode_full l c.2)
      simp only [Limiter.checkAt, hcell, hgranted, ← hpack]
    | some b =>
      rw [hs, map_some] at hcell
      have hconsume := consume_encode (hcap b hs) (hnear b hs)
      simp only [Limiter.checkAt, hcell, hconsume]
  rw [hstep]
  refine ⟨rfl, fun key => ?_⟩
  by_cases hkey : key = c.1
  · subst hkey
    simp only [Limiter.store, call, Function.update_self, map_some, true_and]
    exact take_capped (h c.1).2 c.2
  · simp only [Limiter.store, call, Function.update_of_ne hkey]
    exact h key

theorem run_refines (h : l.Refines s)
    (hnear : ∀ key b, s key = some b → ∀ c ∈ calls, Near b.stamp c.2)
    (hcalls : ∀ c ∈ calls, ∀ d ∈ calls, Near c.2 d.2) :
    l.answers calls = answers l.params s calls ∧
      (l.after calls).Refines (after l.params s calls) ∧
      (l.after calls).params = l.params := by
  induction calls generalizing l s with
  | nil => exact ⟨rfl, h, rfl⟩
  | cons c calls ih =>
    obtain ⟨hanswer, hrefines⟩ := checkAt_refines h fun b hb => hnear c.1 b hb c mem_cons_self
    have hparams := checkAt_params l c.1 (reading c.2)
    have hnear' : ∀ key b, (call l.params s c).2 key = some b →
        ∀ d ∈ calls, Near b.stamp d.2 := by
      intro key b hb d hd
      by_cases hkey : c.1 = key
      · rw [(call_same hkey).2] at hb
        cases hb
        rw [(take_spec _ _).1]
        rcases level_stamp_cases (p := l.params) (s key) c.2 with heq | ⟨x, hx, heq⟩
        · rw [heq]
          exact hcalls c mem_cons_self d (mem_cons_of_mem c hd)
        · rw [heq]
          exact hnear key x hx d (mem_cons_of_mem c hd)
      · rw [call_other hkey] at hb
        exact hnear key b hb d (mem_cons_of_mem c hd)
    obtain ⟨hrest, hafter, hend⟩ := ih hrefines hnear' fun d hd e he =>
      hcalls d (mem_cons_of_mem c hd) e (mem_cons_of_mem c he)
    rw [hparams] at hrest hafter hend
    refine ⟨?_, hafter, hend⟩
    rw [Limiter.answers, answers, hanswer, hrest]

end

section

open TokenBucket (Bucket)

theorem pack_unpack (cell : UInt64) : pack (unpack cell).1 (unpack cell).2 = cell := by
  have hcell := cell.toNat_lt
  refine UInt64.toNat_inj.mp ?_
  rw [pack_toNat]
  simp only [unpack, UInt64.toNat_toUInt32, UInt64.toNat_shiftRight, UInt64.reduceToNat,
    Nat.reduceMod, Nat.shiftRight_eq_div_pow]
  omega

/-- The buckets a limiter starts with hold no more than its burst, and their stamps are readings
near those of the calls. -/
def Limiter.Starts (l : Limiter) (calls : List (ClientKey × ℕ)) : Prop :=
  ∀ key cell, l.buckets key = some cell → (unpack cell).2 ≤ l.burstMt ∧
    ∃ stamp, (unpack cell).1 = reading stamp ∧ ∀ c ∈ calls, Near stamp c.2

theorem Limiter.Starts.refines (h : l.Starts calls) :
    ∃ s, l.Refines s ∧ ∀ key b, s key = some b → ∀ c ∈ calls, Near b.stamp c.2 := by
  have hkey : ∀ key, ∃ b : Option Bucket, l.buckets key = b.map encode ∧
      TokenBucket.Capped l.params b ∧ ∀ x, b = some x → ∀ c ∈ calls, Near x.stamp c.2 := by
    intro key
    cases hcell : l.buckets key with
    | none => exact ⟨none, rfl, by simp [TokenBucket.Capped], by simp⟩
    | some cell =>
      obtain ⟨htokens, stamp, hstamp, hnear⟩ := h key cell hcell
      refine ⟨some ⟨stamp, (unpack cell).2.toNat⟩, ?_, ?_, ?_⟩
      · rw [map_some, encode, ← hstamp, UInt32.ofNat_toNat, pack_unpack]
      · rintro x ⟨⟩
        exact UInt32.le_iff_toNat_le.mp htokens
      · rintro x ⟨⟩
        exact hnear
  choose s hs using hkey
  exact ⟨s, fun key => ⟨(hs key).1, (hs key).2.1⟩, fun key => (hs key).2.2⟩

/-- An older reading than the stamp neither fills the bucket nor sets it back. -/
theorem checkAt_older {key : ClientKey} {cell : UInt64} {now stamp : ℕ}
    (hcell : l.buckets key = some cell) (hstamp : (unpack cell).1 = reading stamp)
    (holder : now < stamp) (hnear : stamp < now + 2 ^ 31) :
    (l.checkAt key (reading now)).2.buckets key = some (pack (unpack cell).1
      (if (l.checkAt key (reading now)).1 then (unpack cell).2 - millitokensPerRequest
        else (unpack cell).2)) := by
  have helapsed : elapsed (reading now) (unpack cell).1 = none := by
    rw [hstamp, elapsed_reading hnear (by omega), if_neg (by omega)]
  simp only [Limiter.checkAt, hcell, consume, helapsed, Limiter.store]
  split_ifs <;> simp_all

/-- What a limiter grants, over calls whose readings lie within 2^31 ms of each other. -/
theorem limiter_laws {l : Limiter} {calls : List (ClientKey × ℕ)} (hstart : l.Starts calls)
    (hnear : ∀ c ∈ calls, ∀ d ∈ calls, Near c.2 d.2) :
    (∀ key first latest, (calls.filter fun c => c.1 = key).head? = some (key, first) →
      (∀ c ∈ calls, c.1 = key → c.2 ≤ latest) →
      granted key calls (l.answers calls) * 1000 ≤
        l.burstMt.toNat + (latest - first) * l.rate.toNat) ∧
    (∀ pre post, calls = pre ++ post → ∀ key cell, (l.after pre).buckets key = some cell →
      (unpack cell).2 ≤ l.burstMt) ∧
    (∀ pre c post, calls = pre ++ c :: post → ∀ cell stamp,
      (l.after pre).buckets c.1 = some cell → (unpack cell).1 = reading stamp → c.2 < stamp →
      stamp < c.2 + 2 ^ 31 →
      ((l.after pre).checkAt c.1 (reading c.2)).2.buckets c.1 = some (pack (unpack cell).1
        (if ((l.after pre).checkAt c.1 (reading c.2)).1
          then (unpack cell).2 - millitokensPerRequest else (unpack cell).2))) ∧
    (calls.Pairwise (fun c d => c.2 ≤ d.2) → ∀ pre c post, calls = pre ++ c :: post →
      (l.answers calls)[pre.length]? = some false →
      l.answers (pre ++ post) = (l.answers calls).eraseIdx pre.length) := by
  obtain ⟨s, hrefines, hstamps⟩ := hstart.refines
  have hcap : ∀ key, TokenBucket.Capped l.params (s key) := fun key => (hrefines key).2
  have hrun {part : List (ClientKey × ℕ)} (hpart : part.Sublist calls) :=
    run_refines hrefines (fun key b hb c hc => hstamps key b hb c (hpart.subset hc))
      fun c hc d hd => hnear c (hpart.subset hc) d (hpart.subset hd)
  refine ⟨fun key first latest hfirst hlatest => ?_, ?_, ?_, ?_⟩
  · rw [(hrun (List.Sublist.refl calls)).1]
    exact granted_le (p := l.params) (hcap key) hfirst hlatest
  · rintro pre post rfl key cell hcell
    obtain ⟨_, hafter, hparams⟩ := hrun (sublist_append_left pre post)
    obtain ⟨hcells, hcapped⟩ := hafter key
    rw [hcell] at hcells
    obtain ⟨b, hb, rfl⟩ := map_eq_some_iff.mp hcells.symm
    have htokens : b.tokens ≤ l.params.capacity := hparams ▸ hcapped b hb
    have hcapacity : l.params.capacity = l.burstMt.toNat := rfl
    have hburst := l.burstMt.toNat_lt
    rw [encode, unpack_pack, UInt32.le_iff_toNat_le, UInt32.toNat_ofNat',
      Nat.mod_eq_of_lt (by omega)]
    omega
  · rintro pre c post rfl cell stamp hcell hstamp holder hclose
    exact checkAt_older hcell hstamp holder hclose
  · rintro hsorted pre c post rfl hdenied
    have hpost : ∀ x ∈ post, c.2 ≤ x.2 :=
      fun x hx => rel_of_pairwise_cons (pairwise_append.mp hsorted).2.1 hx
    rw [(hrun (List.Sublist.refl _)).1] at hdenied ⊢
    rw [(hrun (List.Sublist.append_left (sublist_cons_self c post) pre)).1]
    exact answers_denied s pre post c hpost hdenied

/-- Calls around the wrap of the clock, one of them with an older reading. -/
def wrapCalls : List (ClientKey × ℕ) := [(0, 4294967000), (0, 4294968000), (0, 4294967500)]

theorem limiter_laws_wrap :
    granted 0 wrapCalls ((Limiter.new 1 1).answers wrapCalls) * 1000 ≤
      (Limiter.new 1 1).burstMt.toNat + (4294968000 - 4294967000) * (Limiter.new 1 1).rate.toNat :=
  (limiter_laws (fun _ _ h => by simp [Limiter.new] at h)
    (by simp [wrapCalls, Near])).1 0 4294967000 4294968000 rfl (by simp [wrapCalls])

end
end Portail.RateLimit
