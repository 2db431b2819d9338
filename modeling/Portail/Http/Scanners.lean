import Mathlib.Data.List.DropRight
import Portail.Lib.Loop
import Portail.Lib.Decimal
import Portail.Http.ByteClass

/-!
# Scanners of the request head

The small functions `extract_routing_info` is built from: optional white space,
`host [":" port]`, `1*DIGIT`, the scheme of an absolute-form target, the offers
of an Upgrade value, and the search for the blank line that ends a head.
-/

namespace Portail.Http

open Lib List

section

def isOws (b : UInt8) : Bool := b == sp || b == htab

/-- SP and HTAB dropped at both ends. -/
def trimOws (v : Bytes) : Bytes := (v.dropWhile isOws).rdropWhile isOws

/-- Text that neither begins nor ends with white space. -/
def Trimmed (v : Bytes) : Prop := ∀ b, (v.head? = some b ∨ v.getLast? = some b) → isOws b = false

variable {v r : Bytes}

theorem trimmed_of_forall (h : ∀ b ∈ v, isOws b = false) : Trimmed v := by
  rintro b (hb | hb)
  · exact h b (mem_of_head? hb)
  · exact h b (mem_of_getLast? hb)

theorem rdropWhile_append_ows (hr : ∀ b ∈ r, isOws b = true) (v : Bytes) :
    (v ++ r).rdropWhile isOws = v.rdropWhile isOws := by
  rw [List.rdropWhile, reverse_append, dropWhile_append_of_pos (by simpa using hr)]
  rfl

theorem trimOws_append_left {l : Bytes} (hl : ∀ b ∈ l, isOws b = true) (v : Bytes) :
    trimOws (l ++ v) = trimOws v := by
  rw [trimOws, dropWhile_append_of_pos hl]
  rfl

theorem trimOws_append_right (hr : ∀ b ∈ r, isOws b = true) (v : Bytes) :
    trimOws (v ++ r) = trimOws v := by
  rw [trimOws, dropWhile_append]
  split_ifs with hv
  · rw [dropWhile_eq_nil_iff.mpr hr, trimOws, isEmpty_iff.mp hv]
  · exact rdropWhile_append_ows hr _

theorem trimOws_of_trimmed (hv : Trimmed v) : trimOws v = v := by
  have hhead : v.dropWhile isOws = v := by
    cases v with
    | nil => rfl
    | cons b v => exact dropWhile_cons_of_neg (by simp [hv b (.inl rfl)])
  rw [trimOws, hhead, rdropWhile_eq_self_iff]
  intro hne hlast
  simp [hv (v.getLast hne) (.inr (getLast?_eq_some_getLast hne))] at hlast

theorem trimOws_split (v : Bytes) : ∃ r, v = v.takeWhile isOws ++ (trimOws v ++ r) := by
  obtain ⟨r, hr⟩ : trimOws v <+: v.dropWhile isOws := rdropWhile_prefix ..
  exact ⟨r, by rw [hr, takeWhile_append_dropWhile]⟩

@[simp] theorem trimOws_sp_cons (v : Bytes) : trimOws (sp :: v) = trimOws v := by
  simp [trimOws, isOws]

theorem exists_padding (v : Bytes) : ∃ l r, v = l ++ (trimOws v ++ r) ∧
    (∀ b ∈ l, isOws b = true) ∧ ∀ b ∈ r, isOws b = true := by
  refine ⟨v.takeWhile isOws, (v.dropWhile isOws).rtakeWhile isOws, ?_,
    fun b hb => mem_takeWhile_imp hb, fun b hb => mem_rtakeWhile_imp hb⟩
  rw [trimOws, rdropWhile_append_rtakeWhile, takeWhile_append_dropWhile]

theorem mem_trimOws {b : UInt8} (hb : b ∈ v) : isOws b = true ∨ b ∈ trimOws v := by
  obtain ⟨l, r, hv, hl, hr⟩ := exists_padding v
  rw [hv, mem_append, mem_append] at hb
  rcases hb with hb | hb | hb
  · exact .inl (hl b hb)
  · exact .inr hb
  · exact .inl (hr b hb)

/-- Trimming a list of tokens and then each of them is trimming each. -/
theorem map_trimOws_splitOn (v : Bytes) :
    ((trimOws v).splitOn comma).map trimOws = (v.splitOn comma).map trimOws := by
  obtain ⟨l, r, hv, hl, hr⟩ := exists_padding v
  have hcomma : isOws comma = false := by decide
  have hl' : comma ∉ l := fun hb => by simp [hl comma hb] at hcomma
  have hr' : comma ∉ r := fun hb => by simp [hr comma hb] at hcomma
  conv_rhs => rw [hv]
  rw [map_splitOn_append_left hl' (trimOws_append_left hl),
    map_splitOn_append_right hr' (trimOws_append_right hr)]

end

def isIpLiteralByte (b : UInt8) : Bool := isAsciiHexdigit b || b == colon || b == 0x2e

/-- End of the uri-host opening `v`: a bracketed address or a run of name octets. -/
def uriHostEnd (v : Bytes) : Option ℕ :=
  if v.head? = some 0x5b then
    let i := 1 + ((v.drop 1).takeWhile isIpLiteralByte).length
    if i = 1 ∨ v[i]? ≠ some 0x5d then none else some (i + 1)
  else
    some (v.takeWhile (is · .host)).length

/-- Length of the uri-host opening `v` when all of `v` is `uri-host [":" port]`. -/
def splitHost (v : Bytes) : Option ℕ :=
  match uriHostEnd v with
  | none => none
  | some hostEnd =>
    if hostEnd < v.length then
      if v[hostEnd]? ≠ some colon then none
      else
        let i := hostEnd + 1 + ((v.drop (hostEnd + 1)).takeWhile isAsciiDigit).length
        if i < v.length then none else some hostEnd
    else some hostEnd

/-- A registered name in the DNS alphabet, possibly empty, or a bracketed address. -/
def IsUriHost (h : Bytes) : Prop :=
  (∀ b ∈ h, is b .host = true) ∨
    ∃ run, run ≠ [] ∧ (∀ b ∈ run, isIpLiteralByte b = true) ∧ h = 0x5b :: (run ++ [0x5d])

/-- `[":" port]`. -/
def IsPortSuffix (p : Bytes) : Prop :=
  p = [] ∨ ∃ digits, (∀ b ∈ digits, isAsciiDigit b = true) ∧ p = colon :: digits

theorem host_byte_spec : ∀ b : UInt8, is b .host = true →
    b ≠ 0x5b ∧ b ≠ colon ∧ b ≠ slash ∧ b < 0x80 ∧ isOws b = false ∧ isFieldValueByte b = true ∧
      is b .target = true ∧ b ≠ question :=
  forall_octet (by decide +kernel)

theorem ipLiteralByte_spec : ∀ b : UInt8, isIpLiteralByte b = true →
    b ≠ 0x5d ∧ b ≠ slash ∧ b < 0x80 ∧ isOws b = false ∧ isFieldValueByte b = true ∧
      is b .target = true ∧ b ≠ question :=
  forall_octet (by decide +kernel)

theorem digit_spec : ∀ b : UInt8, isAsciiDigit b = true →
    b ≠ slash ∧ b < 0x80 ∧ isOws b = false ∧ isFieldValueByte b = true ∧
      is b .target = true ∧ b ≠ question :=
  forall_octet (by decide +kernel)

theorem portSuffix_run {digits : Bytes} :
    1 + (digits.takeWhile isAsciiDigit).length < digits.length + 1 ↔
      ¬ ∀ b ∈ digits, isAsciiDigit b = true := by
  rw [← takeWhile_eq_self_iff, add_comm, Nat.add_lt_add_iff_right, ← not_le, not_iff_not]
  constructor
  · intro h
    exact (takeWhile_sublist _).eq_of_length_le h
  · intro h
    rw [h]

/-- Past the host, `splitHost` wants a port suffix and nothing else. -/
theorem splitHost_of_hostEnd {h rest : Bytes} (hend : uriHostEnd (h ++ rest) = some h.length) :
    splitHost (h ++ rest) = some h.length ∧ IsPortSuffix rest ∨
      splitHost (h ++ rest) = none ∧ ¬ IsPortSuffix rest := by
  cases rest with
  | nil =>
    rw [append_nil] at hend ⊢
    simp [splitHost, hend, IsPortSuffix]
  | cons b digits =>
    have hget : (h ++ b :: digits)[h.length]? = some b := by simp
    have hdrop : (h ++ b :: digits).drop (h.length + 1) = digits := by
      rw [← drop_drop, drop_left]; rfl
    simp only [splitHost, hend, hget, hdrop, length_append, length_cons, add_assoc,
      Nat.add_lt_add_iff_left, portSuffix_run, IsPortSuffix]
    by_cases hb : b = colon
    · by_cases hd : ∀ b ∈ digits, isAsciiDigit b = true
      · exact .inl ⟨by simpa [hb] using hd, .inr ⟨digits, hd, by rw [hb]⟩⟩
      · simp [hb, hd]
    · simp [hb]

theorem uriHostEnd_name {h p : Bytes} (hh : ∀ b ∈ h, is b .host = true) (hp : IsPortSuffix p) :
    uriHostEnd (h ++ p) = some h.length := by
  have hhead : (h ++ p).head? ≠ some 0x5b := by
    intro hb
    cases h with
    | cons c h =>
      have hc : c = 0x5b := by simpa using hb
      exact (host_byte_spec c (hh c (by simp))).1 hc
    | nil =>
      rcases hp with rfl | ⟨digits, -, rfl⟩
      · simp at hb
      · exact absurd hb (by simp; decide)
  rw [uriHostEnd, if_neg hhead]
  rcases hp with rfl | ⟨digits, -, rfl⟩
  · rw [append_nil, takeWhile_eq_self_iff.mpr hh]
  · rw [takeWhile_run hh (by decide)]

theorem uriHostEnd_bracket {run p : Bytes} (hne : run ≠ [])
    (hrun : ∀ b ∈ run, isIpLiteralByte b = true) :
    uriHostEnd (0x5b :: (run ++ [0x5d]) ++ p) = some (0x5b :: (run ++ [0x5d]) : Bytes).length := by
  have hscan : ((0x5b :: (run ++ [0x5d]) ++ p).drop 1).takeWhile isIpLiteralByte = run := by
    simpa using takeWhile_run hrun (c := 0x5d) (by decide) p
  have hclose : (0x5b :: (run ++ [0x5d]) ++ p)[1 + run.length]? = some 0x5d := by
    simp [add_comm 1]
  have hpos : run.length ≠ 0 := by simpa using hne
  rw [uriHostEnd, if_pos (by simp)]
  simp only [hscan, hclose]
  simp [hpos, add_comm]

theorem uriHostEnd_some {v : Bytes} {n : ℕ} (h : uriHostEnd v = some n) :
    ∃ h rest, v = h ++ rest ∧ n = h.length ∧ IsUriHost h := by
  rw [uriHostEnd] at h
  split at h
  · next hhead =>
    obtain ⟨v, rfl⟩ : ∃ w, v = 0x5b :: w := by
      cases v with
      | nil => simp at hhead
      | cons b w => exact ⟨w, by simpa using hhead⟩
    simp only [List.drop_one, List.tail_cons] at h
    split at h
    · cases h
    · next hok =>
      obtain ⟨hne, hclose⟩ := not_or.mp hok
      rw [not_not, add_comm, List.getElem?_cons_succ] at hclose
      obtain ⟨rest, hrest⟩ : ∃ rest, v.dropWhile isIpLiteralByte = 0x5d :: rest := by
        rw [dropWhile_eq_drop, List.drop_eq_getElem_cons (List.getElem?_eq_some_iff.mp hclose).1]
        exact ⟨_, by rw [(List.getElem?_eq_some_iff.mp hclose).2]⟩
      have hsplit := List.takeWhile_append_dropWhile (p := isIpLiteralByte) (l := v)
      rw [hrest] at hsplit
      refine ⟨0x5b :: (v.takeWhile isIpLiteralByte ++ [0x5d]), rest, ?_, ?_, .inr
        ⟨_, ?_, fun b hb => List.mem_takeWhile_imp hb, rfl⟩⟩
      · rw [← List.cons_append, List.append_assoc] at *
        simp [hsplit]
      · simp only [Option.some.injEq] at h
        simp [← h, add_comm]
      · intro hnil
        simp [hnil] at hne
  · simp only [Option.some.injEq] at h
    exact ⟨v.takeWhile (is · .host), v.dropWhile (is · .host),
      List.takeWhile_append_dropWhile.symm, h.symm, .inl fun b hb =>
        List.mem_takeWhile_imp (p := (is · .host)) hb⟩

/-- `splitHost` accepts exactly `uri-host [":" port]` and returns the length of the host. -/
theorem splitHost_eq_some_iff {v : Bytes} {n : ℕ} :
    splitHost v = some n ↔ ∃ h p, v = h ++ p ∧ n = h.length ∧ IsUriHost h ∧ IsPortSuffix p := by
  constructor
  · intro hs
    cases hend : uriHostEnd v with
    | none => simp [splitHost, hend] at hs
    | some m =>
      obtain ⟨h, rest, rfl, rfl, hh⟩ := uriHostEnd_some hend
      rcases splitHost_of_hostEnd hend with ⟨hs', hp⟩ | ⟨hs', -⟩
      · exact ⟨h, rest, rfl, by simpa [hs', eq_comm] using hs, hh, hp⟩
      · simp [hs'] at hs
  · rintro ⟨h, p, rfl, rfl, hh, hp⟩
    have hend : uriHostEnd (h ++ p) = some h.length := by
      rcases hh with hh | ⟨run, hne, hrun, rfl⟩
      · exact uriHostEnd_name hh hp
      · exact uriHostEnd_bracket hne hrun
    rcases splitHost_of_hostEnd hend with ⟨hs, -⟩ | ⟨-, hnp⟩
    · exact hs
    · exact absurd hp hnp

/-- `1*DIGIT` that fits a `usize`. -/
def parseDigits (v : Bytes) : Option ℕ := readDecimal 64 v

/-- Length of an `http://` or `https://` opening, in any case. -/
def absoluteSchemeLen (target : Bytes) : Option ℕ :=
  if 7 ≤ target.length ∧ eqIgnoreAsciiCase (target.take 7) (bytes "http://") then some 7
  else if 8 ≤ target.length ∧ eqIgnoreAsciiCase (target.take 8) (bytes "https://") then some 8
  else none

/-- Whether an Upgrade value offers h2c, with or without a version suffix. -/
def offersH2c (value : Bytes) : Bool :=
  (value.splitOn comma).any fun offer =>
    let offer := trimOws offer
    let name := match memchr slash offer with
      | some i => offer.take i
      | none => offer
    eqIgnoreAsciiCase (trimOws name) (bytes "h2c")

/-- A name equal to a literal, behind the dispatch on its length and first octet. -/
def named (name : Bytes) (len : ℕ) (first : UInt8) (lit : String) : Bool :=
  name.length == len && (name.headD 0 ||| 0x20) == first && eqIgnoreAsciiCase name (bytes lit)

/-- A forwarding header no client may send. -/
def isForwardingClaim (name : Bytes) : Bool :=
  named name 9 0x66 "forwarded" || named name 15 0x78 "x-forwarded-ssl" ||
    named name 16 0x78 "x-forwarded-host" || named name 16 0x78 "x-forwarded-port" ||
    named name 17 0x78 "x-forwarded-proto" || named name 18 0x78 "x-forwarded-scheme"

abbrev backslash : UInt8 := 0x5c

/-- One turn of the resumed target scan: past one backslash and the run after it. -/
def backslashTurn (data : Bytes) (stop : ℕ) : ℕ ⊕ ℕ :=
  if data[stop]? = some backslash then .inl (scanTarget data (stop + 1)) else .inr stop

def backslashLoop (data : Bytes) : Loop ℕ ℕ where
  turn := backslashTurn data
  measure stop := data.length - stop
  decreases := by
    intro stop next h
    rw [backslashTurn] at h
    split at h
    · next hget =>
      cases h
      have hlt := (List.getElem?_eq_some_iff.mp hget).1
      rw [scanTarget_eq]
      omega
    · cases h

/-- Resumes a target scan stopped at a backslash when a `?` before it opened the query. -/
def pastQueryBackslashes (data : Bytes) (start stop : ℕ) : ℕ :=
  if (memchr question (slice data start stop)).isSome then (backslashLoop data).run stop else stop

/-- End of the request target that starts at `start`. -/
def targetEnd (data : Bytes) (start : ℕ) : ℕ :=
  let stop := scanTarget data start
  if data[stop]? = some backslash then pastQueryBackslashes data start stop else stop

/-- Target octets, backslashes only after a `?`. -/
def IsTargetText (t : Bytes) : Prop :=
  (∀ b ∈ t, is b .target = true ∨ b = backslash) ∧ ∀ x y, t = x ++ backslash :: y → question ∈ x

theorem backslash_not_target : is backslash .target = false := by decide

/-- An octet the resumed scan passes over. -/
def isResumed (b : UInt8) : Bool := is b .target || b == backslash

theorem isResumed_iff {b : UInt8} : isResumed b = true ↔ is b .target = true ∨ b = backslash := by
  simp [isResumed]

theorem takeWhile_resumed (d : Bytes) : d.takeWhile isResumed =
    d.takeWhile (is · .target) ++ (d.dropWhile (is · .target)).takeWhile isResumed := by
  conv_lhs => rw [← takeWhile_append_dropWhile (p := (is · .target)) (l := d)]
  exact takeWhile_append_of_pos fun b hb => isResumed_iff.mpr
    (.inl (mem_takeWhile_imp (p := (is · .target)) hb))

/-- The target the scan passes over, of the text from its start on. -/
def targetRun (d : Bytes) : Bytes :=
  if (d.dropWhile (is · .target)).head? = some backslash ∧
      question ∈ d.takeWhile (is · .target) then
    d.takeWhile isResumed
  else d.takeWhile (is · .target)

theorem drop_scanTarget (data : Bytes) (start : ℕ) :
    data.drop (scanTarget data start) = (data.drop start).dropWhile (is · .target) := by
  rw [scanTarget_eq, ← drop_drop, dropWhile_eq_drop]

theorem backslashLoop_run (data : Bytes) (stop : ℕ) :
    (∀ b ∈ (data.drop stop).head?, is b .target = false) →
      (backslashLoop data).run stop = stop + ((data.drop stop).takeWhile isResumed).length := by
  induction stop using (backslashLoop data).induct with
  | h stop ih =>
    intro hhead
    rw [head?_drop] at hhead
    by_cases hget : data[stop]? = some backslash
    · have hturn : (backslashLoop data).turn stop = .inl (scanTarget data (stop + 1)) := by
        simp [backslashLoop, backslashTurn, hget]
      obtain ⟨hlt, hval⟩ := List.getElem?_eq_some_iff.mp hget
      rw [(backslashLoop data).run_again hturn, ih _ hturn, drop_scanTarget, scanTarget_eq,
        drop_eq_getElem_cons hlt, hval, takeWhile_cons_of_pos (by decide),
        takeWhile_resumed (data.drop (stop + 1))]
      · simp only [length_cons, length_append]
        omega
      · intro b hb
        have hnot := head?_dropWhile_not (is · .target) (data.drop (stop + 1))
        rwa [← drop_scanTarget, Option.mem_def.mp hb] at hnot
    · rw [(backslashLoop data).run_exit (r := stop) (by simp [backslashLoop, backslashTurn, hget])]
      cases hdrop : data.drop stop with
      | nil => rfl
      | cons b rest =>
        have hb : data[stop]? = some b := getElem?_of_drop hdrop
        have hne : b ≠ backslash := fun h => hget (h ▸ hb)
        simp [isResumed, hhead b hb, hne]

theorem targetEnd_eq (data : Bytes) (start : ℕ) :
    targetEnd data start = start + (targetRun (data.drop start)).length := by
  have hget :
      data[scanTarget data start]? = ((data.drop start).dropWhile (is · .target)).head? := by
    rw [← head?_drop, drop_scanTarget]
  have hslice := slice_of_drop (takeWhile_append_dropWhile (p := (is · .target))).symm
    (scanTarget_eq data start)
  have hmem {a : Bytes} : (memchr question a).isSome = true ↔ question ∈ a := by
    rw [Option.isSome_iff_ne_none, ne_eq, memchr_eq_none, not_not]
  unfold targetEnd pastQueryBackslashes targetRun
  simp only [hget, hslice, hmem]
  split_ifs with hback hquery hboth hboth hboth
  · rw [backslashLoop_run, drop_scanTarget, takeWhile_resumed (data.drop start), scanTarget_eq,
      length_append, add_assoc]
    intro b hb
    rw [drop_scanTarget, hback] at hb
    cases hb
    rfl
  · exact absurd ⟨hback, hquery⟩ hboth
  · exact absurd hboth.2 hquery
  · exact scanTarget_eq data start
  · exact absurd hboth.1 hback
  · exact scanTarget_eq data start

theorem isTargetText_of_forall {t : Bytes} (ht : ∀ b ∈ t, is b .target = true) :
    IsTargetText t := by
  refine ⟨fun b hb => .inl (ht b hb), ?_⟩
  rintro x y rfl
  have hb := ht backslash (by simp)
  rw [backslash_not_target] at hb
  cases hb

theorem isTargetText_append {a u : Bytes} (ha : ∀ b ∈ a, is b .target = true)
    (hq : question ∈ a) (hu : ∀ b ∈ u, is b .target = true ∨ b = backslash) :
    IsTargetText (a ++ u) := by
  constructor
  · intro b hb
    rcases mem_append.mp hb with hb | hb
    · exact .inl (ha b hb)
    · exact hu b hb
  · intro x y hxy
    rcases append_eq_append_iff.mp hxy with ⟨c, rfl, -⟩ | ⟨c, rfl, hc⟩
    · exact mem_append_left c hq
    · -- the backslash lies in `u` unless `a` holds it
      cases c with
      | nil => simpa using hq
      | cons b c =>
        obtain ⟨rfl, -⟩ := cons.inj hc
        have hb := ha backslash (by simp)
        rw [backslash_not_target] at hb
        cases hb

/-- Whatever the scan stops at, it has passed over a target text. -/
theorem targetEnd_sound (data : Bytes) (start : ℕ) : ∃ t rest, data.drop start = t ++ rest ∧
    targetEnd data start = start + t.length ∧ IsTargetText t := by
  refine ⟨targetRun (data.drop start), ?_⟩
  have ha : ∀ b ∈ (data.drop start).takeWhile (is · .target), is b .target = true :=
    fun b hb => mem_takeWhile_imp (p := (is · .target)) hb
  rw [targetEnd_eq, targetRun]
  split_ifs with h
  · refine ⟨_, takeWhile_append_dropWhile.symm, rfl, ?_⟩
    rw [takeWhile_resumed]
    exact isTargetText_append ha h.2 fun b hb => isResumed_iff.mp (mem_takeWhile_imp hb)
  · exact ⟨_, takeWhile_append_dropWhile.symm, rfl, isTargetText_of_forall ha⟩

/-- The scan finds the end of every target text that SP ends. -/
theorem targetEnd_complete {data t rest : Bytes} {start : ℕ}
    (hdrop : data.drop start = t ++ sp :: rest) (ht : IsTargetText t) :
    targetEnd data start = start + t.length := by
  have hall : (data.drop start).takeWhile isResumed = t := by
    rw [hdrop, takeWhile_run (fun b hb => isResumed_iff.mpr (ht.1 b hb)) (by decide)]
  rw [targetEnd_eq, targetRun]
  split_ifs with h
  · rw [hall]
  -- a backslash that ends the first run stands behind a `?`
  · rw [takeWhile_resumed] at hall
    cases hrest : (data.drop start).dropWhile (is · .target) with
    | nil => rw [← hall, hrest, takeWhile_nil, append_nil]
    | cons b rest =>
      have hnot := head?_dropWhile_not (is · .target) (data.drop start)
      rw [hrest] at hall hnot h
      by_cases hb : b = backslash
      · subst hb
        exact absurd ⟨rfl, ht.2 _ _ hall.symm⟩ h
      · have hstop : isResumed b = false := by
          simp [isResumed, hb, show is b .target = false from hnot]
        rw [← hall, takeWhile_cons_of_neg (by simp [hstop]), append_nil]

section

/-- The blank line that ends a head. -/
def headEndMark : Bytes := crlf ++ crlf

/-- One turn of `find_header_end`: the next CR, and the three octets after it. -/
def headerEndTurn (data : Bytes) (start : ℕ) : ℕ ⊕ Option ℕ :=
  match memchr cr (data.drop start) with
  | none => .inr none
  | some pos =>
    let abs := start + pos
    if abs + 3 < data.length ∧ data[abs + 1]? = some lf ∧ data[abs + 2]? = some cr ∧
        data[abs + 3]? = some lf then
      .inr (some (abs + 4))
    else .inl (abs + 1)

def headerEndLoop (data : Bytes) : Loop ℕ (Option ℕ) where
  turn := headerEndTurn data
  measure start := data.length - start
  decreases := by
    intro start next h
    rw [headerEndTurn] at h
    split at h
    · cases h
    · next pos hpos =>
      have hlt := memchr_lt hpos
      rw [length_drop] at hlt
      dsimp only at h
      split at h
      · cases h
      · cases h
        omega

/-- Position just past the first blank line. -/
def findHeaderEnd (data : Bytes) : Option ℕ := (headerEndLoop data).run 0

/-- The same search octet by octet. -/
def headerEnd : Bytes → Option ℕ
  | [] => none
  | b :: rest => if headEndMark <+: b :: rest then some 4 else (headerEnd rest).map (· + 1)

variable {x : Bytes}

theorem headerEnd_skip (hx : cr ∉ x) (y : Bytes) :
    headerEnd (x ++ y) = (headerEnd y).map (· + x.length) := by
  induction x with
  | nil => simp
  | cons b x ih =>
    have hb : ¬ headEndMark <+: b :: (x ++ y) := by
      intro h
      obtain ⟨rest, h⟩ := h
      obtain ⟨rfl, -⟩ := cons.inj h
      exact hx (by simp)
    have ih := ih fun h => hx (by simp [h])
    rw [cons_append, headerEnd, if_neg hb, ih, Option.map_map]
    rfl

theorem headEndMark_iff {data : Bytes} {i : ℕ} {rest : Bytes} (hdrop : data.drop i = cr :: rest) :
    (i + 3 < data.length ∧ data[i + 1]? = some lf ∧ data[i + 2]? = some cr ∧
      data[i + 3]? = some lf) ↔ headEndMark <+: cr :: rest := by
  have hget : ∀ k, data[i + (k + 1)]? = rest[k]? := by
    intro k
    rw [← getElem?_drop, hdrop, getElem?_cons_succ]
  have hlen : data.length - i = rest.length + 1 := by
    rw [← length_drop, hdrop, length_cons]
  rw [hget 0, hget 1, hget 2]
  constructor
  · rintro ⟨-, h0, h1, h2⟩
    match rest, h0, h1, h2 with
    | a :: b :: c :: rest, h0, h1, h2 =>
      simp only [getElem?_cons_zero, getElem?_cons_succ, Option.some.injEq] at h0 h1 h2
      subst h0 h1 h2
      exact ⟨rest, rfl⟩
  · rintro ⟨tail, htail⟩
    obtain rfl : lf :: cr :: lf :: tail = rest := (cons.inj htail).2
    simp only [length_cons] at hlen
    exact ⟨by omega, rfl, rfl, rfl⟩

theorem headerEndLoop_run (data : Bytes) (start : ℕ) :
    (headerEndLoop data).run start = (headerEnd (data.drop start)).map (· + start) := by
  induction start using (headerEndLoop data).induct with
  | h start ih =>
    rcases memchr_cases cr (data.drop start) with ⟨hnone, hcr⟩ | ⟨x, y, hxy, hx, hsome⟩
    · have hend := headerEnd_skip hcr []
      rw [append_nil] at hend
      rw [(headerEndLoop data).run_exit (r := none) (by simp [headerEndLoop, headerEndTurn, hnone]),
        hend]
      rfl
    · have hdrop : data.drop (start + x.length) = cr :: y := by
        rw [← drop_drop, hxy, drop_left]
      have hturn : headerEndTurn data start =
          if headEndMark <+: cr :: y then .inr (some (start + x.length + 4))
          else .inl (start + x.length + 1) := by
        simp only [headerEndTurn, hsome, headEndMark_iff hdrop]
      rw [hxy, headerEnd_skip hx, headerEnd]
      by_cases hmark : headEndMark <+: cr :: y
      · rw [if_pos hmark] at hturn ⊢
        rw [(headerEndLoop data).run_exit hturn]
        simp only [Option.map_some, Option.some.injEq]
        omega
      · rw [if_neg hmark] at hturn ⊢
        rw [(headerEndLoop data).run_again hturn, ih _ hturn, ← drop_drop, hdrop]
        simp only [drop_one, tail_cons, Option.map_map]
        congr 1
        funext n
        simp only [Function.comp_apply]
        omega

theorem findHeaderEnd_eq (data : Bytes) : findHeaderEnd data = headerEnd data := by
  rw [findHeaderEnd, headerEndLoop_run]
  simp

/-- A line that ends in CRLF is passed over unless a blank line follows it. -/
theorem headerEnd_line (hx : cr ∉ x) {y : Bytes} (hy : ¬ crlf <+: y) :
    headerEnd (x ++ (crlf ++ y)) = (headerEnd y).map (· + (x.length + 2)) := by
  have hcr : ¬ headEndMark <+: cr :: lf :: y := by
    rintro ⟨rest, hrest⟩
    exact hy ⟨rest, (cons.inj (cons.inj hrest).2).2⟩
  have hlf : ¬ headEndMark <+: lf :: y := by
    rintro ⟨rest, hrest⟩
    exact absurd (cons.inj hrest).1 (by decide)
  rw [headerEnd_skip hx]
  simp only [cons_append, nil_append, headerEnd, if_neg hcr, if_neg hlf, Option.map_map]
  congr 1
  funext n
  simp only [Function.comp_apply]
  omega

theorem headerEnd_blank (hx : cr ∉ x) (y : Bytes) :
    headerEnd (x ++ (crlf ++ (crlf ++ y))) = some (x.length + 4) := by
  have hmark : headEndMark <+: cr :: lf :: cr :: lf :: y := ⟨y, rfl⟩
  rw [headerEnd_skip hx]
  simp [headerEnd, hmark, add_comm]

theorem not_blank_of_line (hne : x ≠ []) (hx : cr ∉ x) (y : Bytes) : ¬ crlf <+: x ++ y := by
  obtain ⟨b, x, rfl⟩ := exists_cons_of_ne_nil hne
  rintro ⟨rest, hrest⟩
  obtain ⟨rfl, -⟩ := cons.inj hrest
  exact hx (by simp)

/-- A run of lines that end in CRLF, none of them blank, ends at the blank line after it. -/
theorem headerEnd_lines (lines : List Bytes) (hlines : ∀ l ∈ lines, l ≠ [] ∧ cr ∉ l) (hx : cr ∉ x)
    (tail : Bytes) :
    headerEnd (x ++ (crlf ++ (lines.flatMap (· ++ crlf) ++ (crlf ++ tail)))) =
      some (x.length + 2 + (lines.flatMap (· ++ crlf)).length + 2) := by
  induction lines generalizing x with
  | nil => exact headerEnd_blank hx tail
  | cons l lines ih =>
    obtain ⟨hne, hcr⟩ := hlines l (by simp)
    rw [flatMap_cons, append_assoc, append_assoc,
      headerEnd_line hx (not_blank_of_line hne hcr _),
      ih (fun l hl => hlines l (mem_cons_of_mem _ hl)) hcr]
    simp
    omega

end
end Portail.Http
