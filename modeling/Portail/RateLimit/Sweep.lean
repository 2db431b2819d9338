import Portail.RateLimit

/-!
# Sweeping the buckets

The sweep drops the buckets that are full again and those idle for 2^30 ms. With a sweep at
least every minute no bucket in the table gets old enough for its stamp to be taken for a
later one, and where a burst fills within 2^30 ms every bucket dropped was full: the
limiter answers as token buckets that are never dropped, over times that never wrap.
-/

namespace Portail.RateLimit

open Lib TokenBucket
open TokenBucket (Bucket)

def staleMs : UInt32 := (1 : UInt32) <<< 30

def sweepIntervalSecs : ℕ := 60

/-- Whether a sweep keeps a cell. One touched after the clock was read is live. -/
def keeps (now rate burst : UInt32) (cell : UInt64) : Bool :=
  let (last, tokens) := unpack cell
  match elapsed now last with
  | none => true
  | some dt => dt < staleMs && refill tokens dt rate burst < burst

def Limiter.sweepAt (l : Limiter) (now : UInt32) : Limiter :=
  { l with buckets := fun key => (l.buckets key).filter (keeps now l.rate l.burstMt) }

inductive Event
  | check (key : ClientKey) (ms : ℕ)
  | sweep (ms : ℕ)

/-- The answers to the checks among the events. -/
def Limiter.replies (l : Limiter) : List Event → List Bool
  | [] => []
  | .check key ms :: events =>
    (l.checkAt key (reading ms)).1 :: (l.checkAt key (reading ms)).2.replies events
  | .sweep ms :: events => (l.sweepAt (reading ms)).replies events

def Event.call? : Event → Option (ClientKey × ℕ)
  | .check key ms => some (key, ms)
  | .sweep _ => none

/-- Events in the order of time, the last sweep never more than its interval ago. -/
def Regular : ℕ → ℕ → List Event → Prop
  | _, _, [] => True
  | swept, now, .check _ ms :: events =>
    now ≤ ms ∧ ms ≤ swept + sweepIntervalSecs * 1000 ∧ Regular swept ms events
  | swept, now, .sweep ms :: events =>
    now ≤ ms ∧ ms ≤ swept + sweepIntervalSecs * 1000 ∧ Regular ms ms events

/-- A bucket of the table: stamped in the past, and not idle at the last sweep for as long as a
sweep drops it. -/
def Live (swept now : ℕ) (b : Bucket) : Prop := b.stamp ≤ now ∧ swept < b.stamp + 2 ^ 30

variable {b : Bucket} {key : ClientKey}

theorem Live.near {swept now ms : ℕ} (h : Live swept now b) (hnow : now ≤ ms)
    (hms : ms ≤ swept + sweepIntervalSecs * 1000) : Near b.stamp ms := by
  obtain ⟨hstamp, hage⟩ := h
  unfold sweepIntervalSecs at hms
  exact ⟨by omega, by omega⟩

theorem keeps_encode {l : Limiter} {ms : ℕ} (hb : b.tokens ≤ l.burstMt.toNat)
    (hstamp : b.stamp ≤ ms) (hnear : Near b.stamp ms) :
    keeps (reading ms) l.rate l.burstMt (encode b) = true ↔
      ms < b.stamp + 2 ^ 30 ∧ b.tokens + (ms - b.stamp) * l.params.rate < l.params.capacity := by
  have hburst := l.burstMt.toNat_lt
  have hdt : (UInt32.ofNat (ms - b.stamp)).toNat = ms - b.stamp := by
    have := hnear.2
    rw [UInt32.toNat_ofNat', Nat.mod_eq_of_lt (by omega)]
  have htokens : (UInt32.ofNat b.tokens).toNat = b.tokens := by
    rw [UInt32.toNat_ofNat', Nat.mod_eq_of_lt (by omega)]
  have hstale : staleMs.toNat = 2 ^ 30 := rfl
  simp only [keeps, encode, unpack_pack, elapsed_reading hnear.1 hnear.2, if_pos hstamp,
    Bool.and_eq_true, decide_eq_true_eq, UInt32.lt_iff_toNat_lt, refill_toNat, hdt, htokens,
    hstale, Limiter.params]
  omega

section

variable {l : Limiter} {s : ClientKey → Option Bucket} {swept now ms : ℕ}

def sweptBuckets (l : Limiter) (s : ClientKey → Option Bucket) (ms : ℕ) :
    ClientKey → Option Bucket :=
  fun key => (s key).filter fun b => keeps (reading ms) l.rate l.burstMt (encode b)

theorem sweepAt_refines (h : l.Refines s) (ms : ℕ) :
    (l.sweepAt (reading ms)).Refines (sweptBuckets l s ms) := by
  intro key
  obtain ⟨hcell, hcap⟩ := h key
  refine ⟨?_, fun b hb => hcap b (Option.filter_eq_some_iff.mp hb).1⟩
  simp only [Limiter.sweepAt, sweptBuckets, hcell]
  cases s key with
  | none => rfl
  | some b =>
    by_cases hkeep : keeps (reading ms) l.rate l.burstMt (encode b) = true
    · simp [Option.filter, hkeep]
    · simp [Option.filter, hkeep]

/-- A sweep drops full buckets only. -/
theorem sweptBuckets_alike (hburst : l.params.capacity ≤ l.params.rate * 2 ^ 30)
    (h : l.Refines s) (hlive : ∀ key b, s key = some b → Live swept now b) (hnow : now ≤ ms)
    (hms : ms ≤ swept + sweepIntervalSecs * 1000) :
    TokenBucket.Alike l.params ms (sweptBuckets l s ms) s := by
  refine alike_of_dropped fun key => ?_
  cases hb : s key with
  | none => exact .inl (by rw [sweptBuckets, hb]; rfl)
  | some b =>
    have hage := hlive key b hb
    have hkeep := keeps_encode ((h key).2 b hb) (hage.1.trans hnow) (hage.near hnow hms)
    by_cases hkept : keeps (reading ms) l.rate l.burstMt (encode b) = true
    · exact .inl (by simp [sweptBuckets, hb, Option.filter, hkept])
    · refine .inr ⟨by simp [sweptBuckets, hb, Option.filter, hkept], b, rfl, hage.1.trans hnow, ?_⟩
      by_contra hshort
      have hstale : b.stamp + 2 ^ 30 ≤ ms := by
        by_contra hyoung
        exact hkept (hkeep.mpr ⟨by omega, by omega⟩)
      have hfill : 2 ^ 30 * l.params.rate ≤ (ms - b.stamp) * l.params.rate :=
        Nat.mul_le_mul_right _ (by omega)
      rw [mul_comm] at hburst
      omega

theorem sweptBuckets_live (h : l.Refines s) (hlive : ∀ key b, s key = some b → Live swept now b)
    (hnow : now ≤ ms) (hms : ms ≤ swept + sweepIntervalSecs * 1000)
    (hb : sweptBuckets l s ms key = some b) : Live ms ms b := by
  obtain ⟨hkey, hkept⟩ := Option.filter_eq_some_iff.mp hb
  have hage := hlive key b hkey
  have hstamp := hage.1.trans hnow
  exact ⟨hstamp, ((keeps_encode ((h key).2 b hkey) hstamp (hage.near hnow hms)).mp hkept).1⟩

end

section

variable {l : Limiter} {s ideal : ClientKey → Option Bucket} {swept now : ℕ}

theorem call_live (p : TokenBucket.Params) (hlive : ∀ key b, s key = some b → Live swept now b)
    {c : ClientKey × ℕ} (hnow : now ≤ c.2) (hswept : swept ≤ c.2)
    (hb : (call p s c).2 key = some b) : Live swept c.2 b := by
  by_cases hkey : c.1 = key
  · rw [(call_same hkey).2] at hb
    cases hb
    rw [Live, (take_spec _ _).1]
    rcases level_stamp_cases (p := p) (s key) c.2 with hstamp | ⟨x, hx, hstamp⟩
    · rw [hstamp]
      exact ⟨le_rfl, by omega⟩
    · rw [hstamp]
      exact ⟨(hlive key x hx).1.trans hnow, (hlive key x hx).2⟩
  · rw [call_other hkey] at hb
    exact ⟨(hlive key b hb).1.trans hnow, (hlive key b hb).2⟩

/-- A swept limiter answers as the ideal buckets do while they are level with its own. -/
theorem replies_eq (hburst : l.params.capacity ≤ l.params.rate * 2 ^ 30) (h : l.Refines s)
    (hlive : ∀ key b, s key = some b → Live swept now b) (hswept : swept ≤ now)
    (halike : TokenBucket.Alike l.params now s ideal) {events : List Event}
    (hregular : Regular swept now events) :
    l.replies events = answers l.params ideal (events.filterMap Event.call?) := by
  induction events generalizing l s ideal swept now with
  | nil => rfl
  | cons event events ih =>
    cases event with
    | check key ms =>
      obtain ⟨hnow, hms, hrest⟩ := hregular
      have hparams := checkAt_params l key (reading ms)
      obtain ⟨hanswer, hrefines⟩ := checkAt_refines (c := (key, ms)) h
        fun b hb => (hlive key b hb).near hnow hms
      obtain ⟨hsame, hafter⟩ := (halike.mono hnow).call (c := (key, ms)) le_rfl
      have htail := ih (by rwa [hparams]) hrefines
        (fun k b => call_live l.params hlive hnow (hswept.trans hnow)) (hswept.trans hnow)
        (by rwa [hparams]) hrest
      rw [hparams] at htail
      simp only [Limiter.replies, List.filterMap_cons, Event.call?, answers, hanswer, hsame, htail]
    | sweep ms =>
      obtain ⟨hnow, hms, hrest⟩ := hregular
      have hdropped := sweptBuckets_alike hburst h hlive hnow hms
      exact ih (l := l.sweepAt (reading ms)) hburst (sweepAt_refines h ms)
        (fun key b => sweptBuckets_live h hlive hnow hms) le_rfl
        (fun k t ht => (hdropped k t ht).trans (halike k t (hnow.trans ht))) hrest

/-- A limiter that is swept every minute grants and denies as token buckets over unbounded time
that are never evicted, if a burst fills up within 2^30 ms. -/
theorem swept_limiter_ideal {rps burst : UInt32} {start : ℕ} {events : List Event}
    (hburst : (Limiter.new rps burst).burstMt.toNat ≤ rps.toNat * 2 ^ 30)
    (hregular : Regular start start events) :
    (Limiter.new rps burst).replies events =
      answers (Limiter.new rps burst).params (fun _ => none) (events.filterMap Event.call?) := by
  have hempty : (Limiter.new rps burst).Refines fun _ => none := fun _ => ⟨rfl, nofun⟩
  have hrate : (Limiter.new rps burst).params.rate = rps.toNat := rfl
  have hcapacity : (Limiter.new rps burst).params.capacity =
    (Limiter.new rps burst).burstMt.toNat := rfl
  exact replies_eq (by rwa [hrate, hcapacity]) hempty nofun le_rfl (fun _ _ _ => rfl) hregular

/-- A client denied, swept while its bucket fills, and granted again. -/
def sweptEvents : List Event :=
  [.check 7 0, .check 7 500, .sweep 60000, .check 7 60500, .check 7 60600, .sweep 120000]

theorem swept_limiter_ideal_minute :
    (Limiter.new 1 1).replies sweptEvents = [true, false, true, false] ∧
    (Limiter.new 1 1).replies sweptEvents =
      answers (Limiter.new 1 1).params (fun _ => none) (sweptEvents.filterMap Event.call?) :=
  ⟨by decide +kernel, swept_limiter_ideal (by decide +kernel)
    (show Regular 0 0 sweptEvents by simp [sweptEvents, Regular, sweepIntervalSecs])⟩

end
end Portail.RateLimit
