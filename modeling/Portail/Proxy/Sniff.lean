import Portail.Config.Compile

/-!
# Telling a request from opaque bytes

The first bytes of a connection are sniffed for a method and its SP, behind the empty lines a
client may open with. On a port no TCP route serves, the verdict depends on the bytes sent and
not on how they arrive (`sniffFirstRequest_stable`).
-/

namespace Portail.Proxy

open Lib Http Config List

def clientBuf : ℕ := 64 * 1024

/-- The scan for the SP behind a method, from index `i` on. -/
def methodLenFrom : ℕ → Bytes → Option ℕ
  | _, [] => none
  | i, b :: rest =>
    if b = sp then if minMethodLen ≤ i then some i else none
    else if isMethodByte b then methodLenFrom (i + 1) rest
    else none

def methodLen (data : Bytes) : Option ℕ :=
  if data.head?.any isAsciiUppercase then methodLenFrom 1 ((data.take (maxMethodLen + 1)).drop 1)
  else none

/-- The methods one comparison of four octets settles. -/
def methodTags : List Bytes := ["GET ", "POST", "PUT ", "DELE", "HEAD", "OPTI", "PATC"].map bytes

def isHttpRequest (data : Bytes) : Bool :=
  if data.length < 4 then false
  else methodTags.contains (data.take 4) || (methodLen data).isSome

def mayOpenRequest (data : Bytes) : Bool :=
  isHttpRequest data ||
    (decide (data.length ≤ maxMethodLen) && data.head?.any isAsciiUppercase &&
      data.all isMethodByte)

/-- The length of the empty lines that open the data. -/
def emptyLinesLen : Bytes → ℕ
  | a :: b :: rest => if a = cr ∧ b = lf then emptyLinesLen rest + 2 else 0
  | _ => 0

/-- One read into the room the buffer has left; what does not fit stays with the socket. -/
def readHead (buf : Bytes) : List Bytes → Bytes × List Bytes
  | [] => (buf, [])
  | read :: reads =>
    let room := clientBuf - buf.length
    (buf ++ read.take room, if read.length ≤ room then reads else read.drop room :: reads)

/-- The buffer and what is left unread once the sniff is over; the reads end when the client
closes or its time is up. -/
def sniffFirstRequest (awaitMethod : Bool) (buf : Bytes) (reads : List Bytes) :
    Bytes × List Bytes :=
  let skip := emptyLinesLen buf
  let rest := buf.drop skip
  if isHttpRequest rest then (rest, reads)
  else
    let undecided := rest = [cr] ∨ (0 < skip ∧ rest = []) ∨ (awaitMethod ∧ mayOpenRequest rest)
    if ¬ undecided ∨ clientBuf ≤ buf.length then (buf, reads)
    else if buf.length < (readHead buf reads).1.length then
      sniffFirstRequest awaitMethod (readHead buf reads).1 (readHead buf reads).2
    else (buf, reads)
termination_by clientBuf - buf.length

/-- The sniff from the first read on. -/
def sniffConnection (awaitMethod : Bool) (reads : List Bytes) : Bytes × List Bytes :=
  sniffFirstRequest awaitMethod (readHead [] reads).1 (readHead [] reads).2

/-- What a request opens with: one of the tags, or a method and its SP. -/
def Opens (w : Bytes) : Prop :=
  w ∈ methodTags ∨ ∃ m, w = m ++ [sp] ∧ minMethodLen ≤ m.length ∧ m.length ≤ maxMethodLen ∧
    m.head?.any isAsciiUppercase = true ∧ ∀ b ∈ m, isMethodByte b = true

theorem methodLenFrom_isSome (i : ℕ) (text : Bytes) :
    (methodLenFrom i text).isSome = true ↔
      ∃ m rest, text = m ++ sp :: rest ∧ minMethodLen ≤ i + m.length ∧
        ∀ b ∈ m, isMethodByte b = true := by
  fun_induction methodLenFrom i text with
  | case1 => simp
  | case2 i rest hmin => exact ⟨fun _ => ⟨[], rest, rfl, hmin, by simp⟩, fun _ => rfl⟩
  | case3 i rest hmin =>
    refine ⟨nofun, ?_⟩
    rintro ⟨m, rest', heq, hlen, hm⟩
    cases m with
    | nil => exact absurd hlen hmin
    | cons b m =>
      obtain rfl := (cons.inj heq).1
      exact absurd (hm sp mem_cons_self) (by decide)
  | case4 i b rest hb hmethod ih =>
    rw [ih]
    constructor
    · rintro ⟨m, rest', rfl, hlen, hm⟩
      exact ⟨b :: m, rest', rfl, by simpa [add_assoc, add_comm 1] using hlen,
        forall_mem_cons.mpr ⟨hmethod, hm⟩⟩
    · rintro ⟨m, rest', heq, hlen, hm⟩
      cases m with
      | nil => exact absurd (cons.inj heq).1 hb
      | cons c m =>
        obtain ⟨rfl, rfl⟩ := cons.inj heq
        exact ⟨m, rest', rfl, by simpa [add_assoc, add_comm 1] using hlen,
          fun x hx => hm x (mem_cons_of_mem _ hx)⟩
  | case5 i b rest hb hmethod =>
    refine ⟨nofun, ?_⟩
    rintro ⟨m, rest', heq, hlen, hm⟩
    cases m with
    | nil => exact absurd (cons.inj heq).1 hb
    | cons c m =>
      obtain rfl := (cons.inj heq).1
      exact absurd (hm _ mem_cons_self) hmethod

theorem methodLen_isSome (data : Bytes) :
    (methodLen data).isSome = true ↔ ∃ m, minMethodLen ≤ m.length ∧ m.length ≤ maxMethodLen ∧
      m.head?.any isAsciiUppercase = true ∧ (∀ b ∈ m, isMethodByte b = true) ∧
        m ++ [sp] <+: data := by
  have hupper : ∀ b : UInt8, isAsciiUppercase b = true → isMethodByte b = true :=
    fun b hb => by simp [isMethodByte, hb]
  cases data with
  | nil => simp [methodLen]
  | cons a text =>
    unfold methodLen
    split_ifs with ha
    · rw [take_succ_cons, drop_succ_cons, drop_zero, methodLenFrom_isSome]
      constructor
      · rintro ⟨m, rest, htake, hmin, hm⟩
        have hlen := congrArg List.length htake
        rw [length_append, length_cons, length_take] at hlen
        refine ⟨a :: m, by simpa [add_comm] using hmin, ?_, ha,
          forall_mem_cons.mpr ⟨hupper a (by simpa using ha), hm⟩, ?_⟩
        · simp only [length_cons, maxMethodLen] at hlen ⊢
          omega
        · rw [cons_append, cons_prefix_cons]
          have hcut : text.take maxMethodLen <+: text := take_prefix ..
          refine ⟨rfl, List.IsPrefix.trans ⟨rest, ?_⟩ hcut⟩
          rw [htake, append_assoc]
          rfl
      · rintro ⟨m, hmin, hmax, -, hm, hbegins⟩
        cases m with
        | nil => exact absurd hmin (by decide)
        | cons c m =>
          rw [cons_append, cons_prefix_cons] at hbegins
          obtain ⟨rfl, rest, rfl⟩ := hbegins
          refine ⟨m, rest.take (maxMethodLen - (m.length + 1)), ?_, ?_,
            fun b hb => hm b (mem_cons_of_mem _ hb)⟩
          · have hle : (m ++ [sp]).length ≤ maxMethodLen := by simpa using hmax
            rw [take_append, take_of_length_le hle, append_assoc]
            simp
          · simpa [add_comm] using hmin
    · refine ⟨nofun, ?_⟩
      rintro ⟨m, hmin, -, hhead, -, hbegins⟩
      cases m with
      | nil => cases hhead
      | cons c m =>
        rw [cons_append, cons_prefix_cons] at hbegins
        exact absurd (hbegins.1 ▸ hhead) ha

theorem tag_length : ∀ w ∈ methodTags, w.length = 4 := by decide

theorem isHttpRequest_iff (data : Bytes) :
    isHttpRequest data = true ↔ ∃ w, Opens w ∧ w <+: data := by
  have htag : methodTags.contains (data.take 4) = true ↔ ∃ w ∈ methodTags, w <+: data := by
    rw [contains_iff_mem]
    refine ⟨fun h => ⟨_, h, take_prefix 4 data⟩, ?_⟩
    rintro ⟨w, hw, hbegins⟩
    rw [← tag_length w hw, ← prefix_iff_eq_take.mp hbegins]
    exact hw
  have hiff : (methodTags.contains (data.take 4) || (methodLen data).isSome) = true ↔
      ∃ w, Opens w ∧ w <+: data := by
    rw [Bool.or_eq_true, htag, methodLen_isSome]
    constructor
    · rintro (⟨w, hw, hbegins⟩ | ⟨m, hmin, hmax, hhead, hm, hbegins⟩)
      · exact ⟨w, .inl hw, hbegins⟩
      · exact ⟨_, .inr ⟨m, rfl, hmin, hmax, hhead, hm⟩, hbegins⟩
    · rintro ⟨w, hw | ⟨m, rfl, hmin, hmax, hhead, hm⟩, hbegins⟩
      · exact .inl ⟨w, hw, hbegins⟩
      · exact .inr ⟨m, hmin, hmax, hhead, hm, hbegins⟩
  unfold isHttpRequest
  split_ifs with hshort
  · refine ⟨nofun, ?_⟩
    rintro ⟨w, hw, hbegins⟩
    have hle := hbegins.length_le
    rcases hw with hw | ⟨m, rfl, hmin, -⟩
    · rw [tag_length w hw] at hle
      omega
    · rw [length_append, length_singleton] at hle
      unfold minMethodLen at hmin
      omega
  · exact hiff

/-- A cut inside an opening leaves an upper case letter and octets of a method. -/
theorem Opens.method_of_cut {w pre : Bytes} (hw : Opens w) (hpre : pre <+: w) (hne : pre ≠ [])
    (hcut : pre ≠ w) : pre.length ≤ maxMethodLen ∧ pre.head?.any isAsciiUppercase = true ∧
      ∀ b ∈ pre, isMethodByte b = true := by
  have htags : ∀ w ∈ methodTags, ∀ n < 4, 0 < n → (w.take n).length ≤ maxMethodLen ∧
      (w.take n).head?.any isAsciiUppercase = true ∧ ∀ b ∈ w.take n, isMethodByte b = true := by
    decide
  rcases hw with hw | ⟨m, rfl, -, hmax, hhead, hm⟩
  · have hlen : pre.length ≠ w.length := fun h => hcut (hpre.eq_of_length h)
    have hle := hpre.length_le
    rw [tag_length w hw] at hlen hle
    rw [prefix_iff_eq_take.mp hpre]
    exact htags w hw _ (by omega) (length_pos_iff.mpr hne)
  · obtain ⟨rest, rfl⟩ := (prefix_concat_iff.mp hpre).resolve_left hcut
    refine ⟨?_, ?_, fun b hb => hm b (mem_append_left _ hb)⟩
    · rw [length_append] at hmax
      omega
    · rwa [head?_append_of_ne_nil _ hne] at hhead

variable {data : Bytes}

theorem isHttpRequest_append (h : isHttpRequest data = true) (more : Bytes) :
    isHttpRequest (data ++ more) = true := by
  rw [isHttpRequest_iff] at h ⊢
  obtain ⟨w, hw, hbegins⟩ := h
  exact ⟨w, hw, hbegins.trans (prefix_append data more)⟩

theorem mayOpenRequest_of_cut {pre : Bytes} (h : isHttpRequest data = true)
    (hpre : pre <+: data) (hne : pre ≠ []) : mayOpenRequest pre = true := by
  obtain ⟨w, hw, hbegins⟩ := (isHttpRequest_iff data).mp h
  rw [mayOpenRequest, Bool.or_eq_true]
  by_cases hwhole : w <+: pre
  · exact .inl ((isHttpRequest_iff pre).mpr ⟨w, hw, hwhole⟩)
  · have hcut : w <+: pre ∨ pre <+: w := prefix_or_prefix_of_prefix hbegins hpre
    replace hcut := hcut.resolve_left hwhole
    obtain ⟨hlen, hhead, hall⟩ :=
      hw.method_of_cut hcut hne fun h => hwhole (h ▸ prefix_rfl)
    right
    simpa [hlen, hhead] using hall

/-- The data behind the empty lines that open it. -/
def firstRequest (data : Bytes) : Bytes := data.drop (emptyLinesLen data)

/-- More data makes no more empty lines, once something else has arrived. -/
theorem emptyLinesLen_append (hne : firstRequest data ≠ []) (hcr : firstRequest data ≠ [cr])
    (more : Bytes) : emptyLinesLen (data ++ more) = emptyLinesLen data := by
  unfold firstRequest at hne hcr
  fun_induction emptyLinesLen data with
  | case1 a b rest hab ih =>
    rw [cons_append, cons_append, emptyLinesLen, if_pos hab, ih hne hcr]
  | case2 a b rest hab => rw [cons_append, cons_append, emptyLinesLen, if_neg hab]
  | case3 data hshort =>
    match data, more with
    | [], _ => exact absurd rfl hne
    | [a], [] => rfl
    | [a], b :: more =>
      have ha : a ≠ cr := fun h => hcr (by rw [h]; rfl)
      rw [cons_append, nil_append, emptyLinesLen, if_neg fun h => ha h.1]
    | a :: b :: rest, _ => exact absurd rfl (hshort a b rest)

/-- A request opens with no empty line. -/
theorem emptyLinesLen_of_request (h : isHttpRequest data = true) : firstRequest data = data := by
  have hhead : data.head? ≠ some cr := by
    obtain ⟨w, hw, rest, rfl⟩ := (isHttpRequest_iff data).mp h
    have htags : ∀ w ∈ methodTags, w ≠ [] ∧ w.head? ≠ some cr := by decide
    have hupper : isAsciiUppercase cr = false := by decide
    rcases hw with hw | ⟨m, rfl, -, -, hhead, -⟩
    · rw [head?_append_of_ne_nil _ (htags w hw).1]
      exact (htags w hw).2
    · cases m with
      | nil => cases hhead
      | cons a m =>
        intro hcr
        obtain rfl : a = cr := Option.some.inj hcr
        exact absurd (hupper.symm.trans hhead) nofun
  unfold firstRequest
  fun_cases emptyLinesLen data with
  | case1 a b rest hab => exact absurd (congrArg some hab.1) hhead
  | case2 a b rest hab => rfl
  | case3 => rfl

theorem firstRequest_append (hne : firstRequest data ≠ []) (hcr : firstRequest data ≠ [cr])
    (more : Bytes) : firstRequest (data ++ more) = firstRequest data ++ more := by
  have hle : emptyLinesLen data ≤ data.length := by
    by_contra hlt
    exact hne (drop_eq_nil_of_le (by omega))
  unfold firstRequest
  rw [emptyLinesLen_append hne hcr, drop_append_of_le_length hle]

section

variable {data buf : Bytes} {reads : List Bytes}

theorem not_request_of_decided (hne : firstRequest data ≠ []) (hcr : firstRequest data ≠ [cr])
    (hopen : mayOpenRequest (firstRequest data) = false) (more : Bytes) :
    isHttpRequest (firstRequest (data ++ more)) = false := by
  rw [firstRequest_append hne hcr, Bool.eq_false_iff]
  intro h
  rw [mayOpenRequest_of_cut h (prefix_append _ _) hne] at hopen
  cases hopen

theorem firstRequest_of_request (h : isHttpRequest (firstRequest data) = true) (more : Bytes) :
    firstRequest (data ++ more) = firstRequest data ++ more := by
  have hnil : isHttpRequest [] = false := by decide
  have hone : isHttpRequest [cr] = false := by decide
  refine firstRequest_append (fun heq => ?_) (fun heq => ?_) more
  · rw [heq, hnil] at h
    cases h
  · rw [heq, hone] at h
    cases h

theorem not_request_of_first (h : isHttpRequest (firstRequest data) = false) :
    isHttpRequest data = false := by
  rw [Bool.eq_false_iff]
  intro hdata
  rw [emptyLinesLen_of_request hdata, hdata] at h
  cases h

/-- What a read leaves: the same stream, one read of it in the buffer. -/
theorem readHead_spec (hbuf : buf.length < clientBuf) (hreads : ∀ read ∈ reads, read ≠ []) :
    (readHead buf reads).1 ++ (readHead buf reads).2.flatten = buf ++ reads.flatten ∧
      (readHead buf reads).1.length ≤ clientBuf ∧ (∀ read ∈ (readHead buf reads).2, read ≠ []) ∧
      (reads ≠ [] → buf.length < (readHead buf reads).1.length) := by
  cases reads with
  | nil => exact ⟨rfl, hbuf.le, by simp [readHead], nofun⟩
  | cons read reads =>
    have hread : 0 < read.length := length_pos_iff.mpr (hreads read mem_cons_self)
    have hrest : ∀ r ∈ reads, r ≠ [] := fun r hr => hreads r (mem_cons_of_mem _ hr)
    unfold readHead
    dsimp only
    refine ⟨?_, ?_, ?_, fun _ => ?_⟩
    · split_ifs with hfits
      · rw [take_of_length_le hfits, flatten_cons, append_assoc]
      · rw [flatten_cons, flatten_cons, append_assoc, ← append_assoc (read.take _),
          take_append_drop]
    · rw [length_append, length_take]
      omega
    · split_ifs with hfits
      · exact hrest
      · refine forall_mem_cons.mpr ⟨fun hnil => hfits ?_, hrest⟩
        exact drop_eq_nil_iff.mp hnil
    · rw [length_append, length_take]
      omega

/-- The sniff ends without a request exactly where the stream has none. -/
theorem no_request_of_stop (hbuf : buf.length ≤ clientBuf) (hfirst : buf = [] → reads = [])
    (hhttp : isHttpRequest (firstRequest buf) = false)
    (hstop : ¬ (firstRequest buf = [cr] ∨ (0 < emptyLinesLen buf ∧ firstRequest buf = []) ∨
        mayOpenRequest (firstRequest buf) = true) ∨ clientBuf ≤ buf.length ∨ reads = []) :
    isHttpRequest (firstRequest ((buf ++ reads.flatten).take clientBuf)) = false := by
  rw [take_append, take_of_length_le hbuf]
  rcases hstop with hdecided | hfull | rfl
  · simp only [not_or, not_and, Bool.not_eq_true] at hdecided
    obtain ⟨hcr, hempty, hopen⟩ := hdecided
    by_cases hnil : firstRequest buf = []
    · have hskip : emptyLinesLen buf = 0 := by
        by_contra hpos
        exact hempty (Nat.pos_of_ne_zero hpos) hnil
      obtain rfl : buf = [] := by
        rwa [firstRequest, hskip, drop_zero] at hnil
      rw [hfirst rfl]
      exact hhttp
    · exact not_request_of_decided hnil hcr hopen _
  · rw [Nat.sub_eq_zero_of_le hfull, take_zero, append_nil]
    exact hhttp
  · rw [flatten_nil, take_nil, append_nil]
    exact hhttp

/-- The sniff from any buffer on: its verdict is that of the stream, as far as a buffer holds
it, and what follows a request is kept. -/
theorem sniffFirstRequest_spec (hbuf : buf.length ≤ clientBuf) (hreads : ∀ read ∈ reads, read ≠ [])
    (hfirst : buf = [] → reads = []) :
    let stream := buf ++ reads.flatten
    let out := sniffFirstRequest true buf reads
    isHttpRequest out.1 = isHttpRequest (firstRequest (stream.take clientBuf)) ∧
      (isHttpRequest out.1 = true → out.1 ++ out.2.flatten = firstRequest stream) := by
  have hnone {buf : Bytes} (hhttp : ¬ isHttpRequest (buf.drop (emptyLinesLen buf)) = true) :
      isHttpRequest (firstRequest buf) = false := Bool.eq_false_iff.mpr hhttp
  fun_induction sniffFirstRequest true buf reads with
  | case1 buf reads skip rest hhttp =>
    have hkeep (more : Bytes) : firstRequest (buf ++ more) = rest ++ more :=
      firstRequest_of_request hhttp more
    refine ⟨?_, fun _ => (hkeep _).symm⟩
    rw [take_append, take_of_length_le hbuf, hkeep, hhttp]
    exact (isHttpRequest_append hhttp _).symm
  | case2 buf reads skip rest hhttp undecided hstop =>
    have hbuffer := not_request_of_first (hnone hhttp)
    refine ⟨?_, fun h => absurd (hbuffer.symm.trans h) nofun⟩
    rw [hbuffer, no_request_of_stop hbuf hfirst (hnone hhttp)]
    exact hstop.imp (by simp [undecided, rest, skip, firstRequest]) .inl
  | case3 buf reads skip rest hhttp undecided hstop hread ih =>
    have hroom : buf.length < clientBuf := by omega
    obtain ⟨hsame, hlen, hreads', -⟩ := readHead_spec hroom hreads
    have hgrown : (readHead buf reads).1 ≠ [] := length_pos_iff.mp (by omega)
    rw [← hsame]
    exact ih hlen hreads' fun h => absurd h hgrown
  | case4 buf reads skip rest hhttp undecided hstop hread =>
    have hbuffer := not_request_of_first (hnone hhttp)
    have hclosed : reads = [] := by
      by_contra hne
      exact hread ((readHead_spec (by omega) hreads).2.2.2 hne)
    refine ⟨?_, fun h => absurd (hbuffer.symm.trans h) nofun⟩
    rw [hbuffer, no_request_of_stop hbuf hfirst (hnone hhttp) (.inr (.inr hclosed))]

/-- On a port without a TCP route the verdict is the same however the stream is read: whether a
request follows the empty lines, as far as a buffer holds the stream. The buffer then starts at
that request. A request stays one as more data arrives, and no cut before is taken for opaque. -/
theorem sniffFirstRequest_stable :
    (∀ reads : List Bytes, (∀ read ∈ reads, read ≠ []) →
      let out := sniffConnection true reads
      isHttpRequest out.1 = isHttpRequest (firstRequest (reads.flatten.take clientBuf)) ∧
        (isHttpRequest out.1 = true → out.1 ++ out.2.flatten = firstRequest reads.flatten)) ∧
    (∀ data more, isHttpRequest data = true → isHttpRequest (data ++ more) = true) ∧
    ∀ data pre, isHttpRequest data = true → pre <+: data → pre ≠ [] →
      mayOpenRequest pre = true := by
  refine ⟨fun reads hreads => ?_, fun data more h => isHttpRequest_append h more,
    fun data pre h hpre hne => mayOpenRequest_of_cut h hpre hne⟩
  have hempty : ([] : Bytes).length < clientBuf := by decide
  obtain ⟨hsame, hlen, hreads', hgrown⟩ := readHead_spec hempty hreads
  rw [nil_append] at hsame
  rw [sniffConnection, ← hsame]
  refine sniffFirstRequest_spec hlen hreads' fun hnil => ?_
  by_contra hne
  have hreadsNe : reads ≠ [] := by
    rintro rfl
    exact hne rfl
  have hpos := hgrown hreadsNe
  rw [hnil] at hpos
  exact absurd hpos (lt_irrefl _)

/-- A request line cut inside the empty line before it and inside its method. -/
theorem sniffFirstRequest_cut :
    let reads := [bytes "\r", bytes "\nGE", bytes "T / HTTP/1.1\r\n"]
    let out := sniffConnection true reads
    isHttpRequest out.1 = true ∧ out.1 ++ out.2.flatten = bytes "GET / HTTP/1.1\r\n" := by
  intro reads out
  obtain ⟨hverdict, hkept⟩ := sniffFirstRequest_stable.1 reads (by decide)
  have hhttp : isHttpRequest out.1 = true := hverdict.trans (by decide)
  exact ⟨hhttp, (hkept hhttp).trans (by decide)⟩

end
end Portail.Proxy
