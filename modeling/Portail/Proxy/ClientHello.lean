import Portail.Lib.Bounded
import Portail.Lib.Checked
import Portail.Lib.Utf8

/-!
# The peek at a ClientHello

The first TLS record of a connection is peeked for the server name it asks for. Every read is in
bounds, whatever was sent; a record that holds a ClientHello is waited for until it is whole, and
is then read alike whatever follows it (`classifyClientHello_exact`).
-/

namespace Portail.Proxy

open Lib List Option

inductive ClientHelloPeek
  | complete (sni : Option Str)
  | partialRecord
  | notTls
  deriving DecidableEq

/-- `String::from_utf8(..).ok()`. -/
def fromUtf8 (text : Bytes) : Option Str :=
  if h : isUtf8 text = true then some ⟨text, h⟩ else none

/-- The first entry of a server_name extension. -/
def serverName (sniData : Bytes) : Except OutOfBounds (Option Str) := do
  if sniData.length < 2 then return none
  let sniListLen ← indexU16 sniData 0
  if sniData.length < 2 + sniListLen ∨ sniListLen < 3 then return none
  let nameType ← index sniData 2
  if nameType ≠ 0 then return none
  let nameLen ← indexU16 sniData 3
  if sniData.length < 5 + nameLen then return none
  let name ← range sniData 5 (5 + nameLen)
  return fromUtf8 name

/-- The walk over the extensions, up to the first server_name. -/
def serverNameFrom (ch : Bytes) (extEnd pos : ℕ) : Except OutOfBounds (Option Str) :=
  if pos + 4 ≤ extEnd then do
    let extType ← indexU16 ch pos
    let extDataLen ← indexU16 ch (pos + 2)
    if extEnd < pos + 4 + extDataLen then return none
    if extType = 0 then
      let sniData ← range ch (pos + 4) (pos + 4 + extDataLen)
      serverName sniData
    else serverNameFrom ch extEnd (pos + 4 + extDataLen)
  else return none
termination_by extEnd - pos

/-- The extensions of a ClientHello, behind the compression methods. -/
def extractSniExtensions (ch : Bytes) (pos : ℕ) : Except OutOfBounds (Option Str) := do
  if ch.length < pos + 2 then return none
  let extLen ← indexU16 ch pos
  if ch.length < pos + 2 + extLen then return none
  serverNameFrom ch (pos + 2 + extLen) (pos + 2)

/-- The body of a ClientHello. -/
def extractSniHello (ch : Bytes) : Except OutOfBounds (Option Str) := do
  if ch.length < 35 then return none
  let sessionIdLen ← index ch 34
  let pos := 35 + sessionIdLen.toNat
  if ch.length < pos + 2 then return none
  let csLen ← indexU16 ch pos
  let pos := pos + (2 + csLen)
  if ch.length < pos + 1 then return none
  let cmLen ← index ch pos
  let pos := pos + (1 + cmLen.toNat)
  extractSniExtensions ch pos

def extractSniHandshake (hs : Bytes) : Except OutOfBounds (Option Str) := do
  if hs.isEmpty then return none
  let msgType ← index hs 0
  if msgType ≠ 1 then return none
  if hs.length < 4 then return none
  let hsLen ← indexU24 hs 1
  if hs.length < 4 + hsLen then return none
  let ch ← range hs 4 (4 + hsLen)
  extractSniHello ch

def classifyClientHello (buf : Bytes) : Except OutOfBounds ClientHelloPeek :=
  match buf.head? with
  | none => return .partialRecord
  | some contentType =>
    if contentType ≠ 0x16 then return .notTls
    else if buf.length < 5 then return .partialRecord
    else do
      let recordLen ← indexU16 buf 3
      if buf.length < 5 + recordLen then return .partialRecord
      let hs ← range buf 5 (5 + recordLen)
      let sni ← extractSniHandshake hs
      return .complete sni

theorem serverName_inBounds (sniData : Bytes) : InBounds (serverName sniData) := by
  unfold serverName
  refine .early fun hlen => ?_
  refine (InBounds.indexU16 (by omega)).bind fun sniListLen _ => ?_
  refine .early fun hlist => ?_
  refine (InBounds.index (by omega)).bind fun nameType _ => ?_
  refine .early fun _ => ?_
  refine (InBounds.indexU16 (by omega)).bind fun nameLen _ => ?_
  refine .early fun hname => ?_
  exact (InBounds.range (by omega) (by omega)).bind fun _ _ => .pure _

theorem serverNameFrom_inBounds {ch : Bytes} {extEnd : ℕ} (hend : extEnd ≤ ch.length) (pos : ℕ) :
    InBounds (serverNameFrom ch extEnd pos) := by
  induction hn : extEnd - pos using Nat.strong_induction_on generalizing pos with
  | _ n ih =>
    subst hn
    rw [serverNameFrom]
    refine .ite (fun hpos => ?_) fun _ => .pure _
    refine (InBounds.indexU16 (by omega)).bind fun extType _ => ?_
    refine (InBounds.indexU16 (by omega)).bind fun extDataLen _ => ?_
    refine .early fun hdata => ?_
    refine .ite (fun _ => ?_) fun _ => ?_
    · exact (InBounds.range (by omega) (by omega)).bind fun sniData _ => serverName_inBounds sniData
    · exact ih _ (by omega) _ rfl

theorem extractSniExtensions_inBounds (ch : Bytes) (pos : ℕ) :
    InBounds (extractSniExtensions ch pos) := by
  unfold extractSniExtensions
  refine .early fun hpos => ?_
  refine (InBounds.indexU16 (by omega)).bind fun extLen _ => ?_
  exact .early fun hext => serverNameFrom_inBounds (by omega) _

theorem extractSniHello_inBounds (ch : Bytes) : InBounds (extractSniHello ch) := by
  unfold extractSniHello
  refine .early fun hlen => ?_
  refine (InBounds.index (by omega)).bind fun sessionIdLen _ => ?_
  refine .early fun hsession => ?_
  refine (InBounds.indexU16 (by omega)).bind fun csLen _ => ?_
  refine .early fun hsuites => ?_
  refine (InBounds.index (by omega)).bind fun cmLen _ => ?_
  exact extractSniExtensions_inBounds ch _

theorem extractSniHandshake_inBounds (hs : Bytes) : InBounds (extractSniHandshake hs) := by
  unfold extractSniHandshake
  refine .early fun hempty => ?_
  have hpos : 0 < hs.length := length_pos_of_ne_nil (by simpa using hempty)
  refine (InBounds.index hpos).bind fun msgType _ => ?_
  refine .early fun _ => ?_
  refine .early fun hlen => ?_
  refine (InBounds.indexU24 (by omega)).bind fun hsLen _ => ?_
  refine .early fun hwhole => ?_
  exact (InBounds.range (by omega) (by omega)).bind fun ch _ => extractSniHello_inBounds ch

theorem classifyClientHello_inBounds (buf : Bytes) : InBounds (classifyClientHello buf) := by
  unfold classifyClientHello
  cases buf.head? with
  | none => exact .pure _
  | some contentType =>
    refine .early fun _ => ?_
    refine .early fun hlen => ?_
    refine (InBounds.indexU16 (by omega)).bind fun recordLen _ => ?_
    refine .early fun hwhole => ?_
    refine (InBounds.range (by omega) (by omega)).bind fun hs _ => ?_
    exact (extractSniHandshake_inBounds hs).bind fun _ _ => .pure _

structure HelloExtension where
  extType : UInt16
  data : Bytes
  fits : data.length < 65536

def HelloExtension.encode (e : HelloExtension) : Bytes :=
  be16 e.extType.toNat ++ (be16 e.data.length ++ e.data)

/-- An entry of a server_name extension. -/
structure ServerName where
  nameType : UInt8
  name : Bytes
  fits : name.length < 65536

def ServerName.encode (n : ServerName) : Bytes := n.nameType :: (be16 n.name.length ++ n.name)

/-- The data of a server_name extension. -/
def serverNameList (names : List ServerName) : Bytes :=
  be16 (names.flatMap ServerName.encode).length ++ names.flatMap ServerName.encode

/-- A ClientHello; without extensions it may end behind the compression methods. -/
structure ClientHello where
  version : UInt16
  random : Bytes
  random_length : random.length = 32
  sessionId : Bytes
  sessionId_fits : sessionId.length < 256
  cipherSuites : Bytes
  cipherSuites_fit : cipherSuites.length < 65536
  compressionMethods : Bytes
  compressionMethods_fit : compressionMethods.length < 256
  extensions : Option (List HelloExtension)
  extensions_fit : ∀ exts ∈ extensions, (exts.flatMap HelloExtension.encode).length < 65536

namespace ClientHello

def encodeExtensions (hello : ClientHello) : Bytes :=
  hello.extensions.elim [] fun exts =>
    be16 (exts.flatMap HelloExtension.encode).length ++ exts.flatMap HelloExtension.encode

def body (hello : ClientHello) : Bytes :=
  (be16 hello.version.toNat ++ hello.random) ++
    UInt8.ofNat hello.sessionId.length :: (hello.sessionId ++
      (be16 hello.cipherSuites.length ++ (hello.cipherSuites ++
        UInt8.ofNat hello.compressionMethods.length :: (hello.compressionMethods ++
          hello.encodeExtensions))))

def encode (hello : ClientHello) : Bytes := 1 :: (be24 hello.body.length ++ hello.body)

def serverNameExtension (hello : ClientHello) : Option HelloExtension :=
  (hello.extensions.getD []).find? fun e => e.extType == 0

end ClientHello

/-- A TLS record that holds a whole ClientHello, and may hold more behind it. -/
structure HelloRecord where
  version : UInt16
  hello : ClientHello
  trailing : Bytes
  fits : (hello.encode ++ trailing).length < 65536

def recordHeader (version : UInt16) (recordLen : ℕ) : Bytes :=
  0x16 :: (be16 version.toNat ++ be16 recordLen)

namespace HelloRecord

def fragment (r : HelloRecord) : Bytes := r.hello.encode ++ r.trailing

theorem fragment_fits (r : HelloRecord) : r.fragment.length < 65536 := r.fits

def encode (r : HelloRecord) : Bytes := recordHeader r.version r.fragment.length ++ r.fragment

end HelloRecord

theorem fromUtf8_eq {text : Bytes} (h : isUtf8 text = true) :
    fromUtf8 text = some ⟨text, h⟩ := dif_pos h

theorem serverName_list {n : ServerName} {names : List ServerName} (hhost : n.nameType = 0)
    (hfits : (serverNameList (n :: names)).length < 65536) :
    serverName (serverNameList (n :: names)) = .ok (fromUtf8 n.name) := by
  obtain ⟨list, hlist⟩ : ∃ list, list = (n :: names).flatMap ServerName.encode := ⟨_, rfl⟩
  have hdata : serverNameList (n :: names) = be16 list.length ++ list := by
    rw [hlist]
    rfl
  have hentry : list = n.nameType :: (be16 n.name.length ++ (n.name ++
      names.flatMap ServerName.encode)) := by
    rw [hlist, flatMap_cons, ServerName.encode, cons_append, append_assoc]
  have hlen : list.length = 3 + n.name.length + (names.flatMap ServerName.encode).length := by
    rw [hentry]
    simp only [length_cons, length_append, length_be16]
    omega
  rw [hdata] at hfits ⊢
  obtain ⟨data, hd⟩ : ∃ data, data = be16 list.length ++ list := ⟨_, rfl⟩
  have hdlen : data.length = 2 + list.length := by
    rw [hd, length_append, length_be16]
  rw [← hd] at hfits ⊢
  have hat0 : data.drop 0 = be16 list.length ++ list := hd
  have hat2 : data.drop 2 = n.nameType :: (be16 n.name.length ++ (n.name ++
      names.flatMap ServerName.encode)) := (drop_of_drop hat0 rfl).trans hentry
  have hat3 := drop_succ_of_drop hat2
  have hat5 : data.drop 5 = n.name ++ names.flatMap ServerName.encode := drop_of_drop hat3 rfl
  unfold serverName
  rw [if_neg (by omega), indexU16_of_drop (by omega) hat0, ok_bind, if_neg (by omega),
    index_of_drop hat2, ok_bind, if_neg (not_not.mpr hhost), indexU16_of_drop n.fits hat3, ok_bind,
    if_neg (by omega), range_of_drop hat5 rfl (by omega), ok_bind]
  rfl

/-- The walk over written extensions ends at the first server_name. -/
theorem serverNameFrom_encode {ch rest : Bytes} {extEnd pos : ℕ} {exts : List HelloExtension}
    (hdrop : ch.drop pos = exts.flatMap HelloExtension.encode ++ rest) (hpos : pos ≤ ch.length)
    (hend : extEnd = pos + (exts.flatMap HelloExtension.encode).length) :
    serverNameFrom ch extEnd pos = (exts.find? fun e => e.extType == 0).elim (.ok none)
      fun e => serverName e.data := by
  induction exts generalizing pos with
  | nil =>
    rw [flatMap_nil, length_nil] at hend
    rw [serverNameFrom, if_neg (by omega)]
    rfl
  | cons e exts ih =>
    have hat : ch.drop pos = be16 e.extType.toNat ++ (be16 e.data.length ++ (e.data ++
        (exts.flatMap HelloExtension.encode ++ rest))) := by
      rw [hdrop, flatMap_cons, HelloExtension.encode]
      simp only [append_assoc]
    have hat2 : ch.drop (pos + 2) = be16 e.data.length ++ (e.data ++
        (exts.flatMap HelloExtension.encode ++ rest)) := drop_of_drop hat rfl
    have hat4 : ch.drop (pos + 4) = e.data ++ (exts.flatMap HelloExtension.encode ++ rest) :=
      drop_of_drop hat2 rfl
    have hlen : extEnd = pos + 4 + e.data.length +
        (exts.flatMap HelloExtension.encode).length := by
      rw [hend, flatMap_cons, HelloExtension.encode]
      simp only [length_append, length_be16]
      omega
    have hch := congrArg List.length hat
    simp only [length_drop, length_append, length_be16] at hch
    have htype : e.extType.toNat < 65536 := e.extType.toNat_lt
    rw [serverNameFrom, if_pos (by omega), indexU16_of_drop htype hat, ok_bind,
      indexU16_of_drop e.fits hat2, ok_bind, if_neg (by omega), find?_cons]
    by_cases hname : e.extType = 0
    · rw [if_pos (by rw [hname]; rfl), range_of_drop hat4 rfl (by omega), ok_bind, hname]
      rfl
    · have hne : e.extType.toNat ≠ 0 := fun h => hname (UInt16.toNat_inj.mp h)
      rw [if_neg hne, beq_eq_false_iff_ne.mpr hname]
      exact ih (drop_of_drop hat4 rfl) (by omega) hlen

theorem extractSniExtensions_encode {ch : Bytes} {pos : ℕ} (hello : ClientHello)
    (hdrop : ch.drop pos = hello.encodeExtensions) (hpos : pos ≤ ch.length) :
    extractSniExtensions ch pos = hello.serverNameExtension.elim (.ok none)
      fun e => serverName e.data := by
  have hch := congrArg List.length hdrop
  rw [length_drop] at hch
  unfold extractSniExtensions ClientHello.serverNameExtension
  unfold ClientHello.encodeExtensions at hdrop hch
  have hfit := hello.extensions_fit
  cases hexts : hello.extensions with
  | none =>
    rw [hexts, elim_none, length_nil] at hch
    rw [if_pos (by omega)]
    rfl
  | some exts =>
    rw [hexts, elim_some, length_append, length_be16] at hch
    rw [hexts, elim_some] at hdrop
    rw [if_neg (by omega), indexU16_of_drop (hfit exts hexts) hdrop, ok_bind, if_neg (by omega)]
    have hat : ch.drop (pos + 2) = exts.flatMap HelloExtension.encode ++ [] := by
      rw [append_nil]
      exact drop_of_drop hdrop rfl
    exact serverNameFrom_encode hat (by omega) rfl

theorem extractSniHello_body (hello : ClientHello) :
    extractSniHello hello.body = hello.serverNameExtension.elim (.ok none)
      fun e => serverName e.data := by
  have hrandom := hello.random_length
  obtain ⟨ch, hch⟩ : ∃ ch, ch = hello.body := ⟨_, rfl⟩
  rw [← hch]
  have hlen := congrArg List.length hch
  rw [ClientHello.body] at hlen
  simp only [length_append, length_cons, length_be16] at hlen
  have hat0 : ch.drop 0 = _ := hch
  rw [ClientHello.body] at hat0
  have hat34 : ch.drop 34 = _ := drop_of_drop hat0 (by
    rw [length_append, length_be16, hrandom])
  have hatSuites : ch.drop (35 + hello.sessionId.length) = _ :=
    drop_of_drop (drop_succ_of_drop hat34) rfl
  have hatMethods : ch.drop (35 + hello.sessionId.length + 2 + hello.cipherSuites.length) = _ :=
    drop_of_drop (drop_of_drop hatSuites rfl) rfl
  have hatExts : ch.drop (35 + hello.sessionId.length + 2 + hello.cipherSuites.length + 1 +
      hello.compressionMethods.length) = _ := drop_of_drop (drop_succ_of_drop hatMethods) rfl
  have hsession : (UInt8.ofNat hello.sessionId.length).toNat = hello.sessionId.length := by
    rw [UInt8.toNat_ofNat']
    exact Nat.mod_eq_of_lt hello.sessionId_fits
  have hmethods : (UInt8.ofNat hello.compressionMethods.length).toNat =
      hello.compressionMethods.length := by
    rw [UInt8.toNat_ofNat']
    exact Nat.mod_eq_of_lt hello.compressionMethods_fit
  unfold extractSniHello
  rw [if_neg (by omega), index_of_drop hat34, ok_bind]
  dsimp only
  rw [hsession, if_neg (by omega), indexU16_of_drop hello.cipherSuites_fit hatSuites, ok_bind,
    if_neg (by omega), ← add_assoc, index_of_drop hatMethods, ok_bind, hmethods, ← add_assoc]
  exact extractSniExtensions_encode hello hatExts (by omega)

theorem extractSniHandshake_encode {hello : ClientHello} {trailing : Bytes}
    (hfits : (hello.encode ++ trailing).length < 65536) :
    extractSniHandshake (hello.encode ++ trailing) = hello.serverNameExtension.elim (.ok none)
      fun e => serverName e.data := by
  obtain ⟨hs, hhs⟩ : ∃ hs, hs = hello.encode ++ trailing := ⟨_, rfl⟩
  rw [← hhs] at hfits ⊢
  have hat0 : hs.drop 0 = 1 :: (be24 hello.body.length ++ (hello.body ++ trailing)) := by
    rw [hhs, ClientHello.encode]
    simp only [drop_zero, cons_append, append_assoc]
  have hat1 := drop_succ_of_drop hat0
  have hat4 : hs.drop 4 = hello.body ++ trailing := drop_of_drop hat1 rfl
  have hlen := congrArg List.length hat0
  simp only [drop_zero, length_cons, length_append, length_be24] at hlen
  have hne : hs.isEmpty = false := by
    rw [isEmpty_eq_false_iff]
    exact ne_nil_of_length_pos (by omega)
  unfold extractSniHandshake
  rw [if_neg (by rw [hne]; decide), index_of_drop hat0, ok_bind, if_neg (by decide),
    if_neg (by omega), indexU24_of_drop (by omega) hat1, ok_bind, if_neg (by omega),
    range_of_drop hat4 rfl (by omega), ok_bind]
  exact extractSniHello_body hello

/-- Behind a record's header, the record is waited for and then read. -/
theorem classifyClientHello_header {version : UInt16} {recordLen : ℕ} (hfits : recordLen < 65536)
    (rest : Bytes) :
    classifyClientHello (recordHeader version recordLen ++ rest) =
      if rest.length < recordLen then .ok .partialRecord
      else (extractSniHandshake (rest.take recordLen)).map .complete := by
  obtain ⟨buf, hbuf⟩ : ∃ buf, buf = recordHeader version recordLen ++ rest := ⟨_, rfl⟩
  have hhead : buf.head? = some 0x16 := by
    rw [hbuf]
    rfl
  have hat3 : buf.drop 3 = be16 recordLen ++ rest := by
    rw [hbuf]
    rfl
  have hat5 : buf.drop 5 = rest := drop_of_drop hat3 rfl
  have hlen := congrArg List.length hbuf
  rw [length_append] at hlen
  have hheader : (recordHeader version recordLen).length = 5 := rfl
  rw [← hbuf]
  unfold classifyClientHello
  rw [hhead]
  dsimp only
  rw [if_neg (by decide), if_neg (by omega), indexU16_of_drop hfits hat3, ok_bind]
  split_ifs with hshort hrest hrest
  · rfl
  · omega
  · omega
  · have hcut : buf.drop 5 = rest.take recordLen ++ rest.drop recordLen := by
      rw [hat5, take_append_drop]
    rw [range_of_drop hcut (by rw [length_take]; omega) (by omega), ok_bind]
    cases extractSniHandshake (rest.take recordLen) <;> rfl

theorem classifyClientHello_cut (r : HelloRecord) {cut : Bytes} (hcut : cut <+: r.encode)
    (hne : cut ≠ r.encode) : classifyClientHello cut = .ok .partialRecord := by
  obtain ⟨header, hheader⟩ : ∃ header, header = recordHeader r.version r.fragment.length := ⟨_, rfl⟩
  have hrecord : r.encode = header ++ r.fragment := by rw [hheader, HelloRecord.encode]
  have hlen : header.length = 5 := by rw [hheader]; rfl
  have hopens : header <+: r.encode := hrecord ▸ prefix_append ..
  rcases Nat.lt_or_ge cut.length 5 with hshort | hlong
  · cases cut with
    | nil => rfl
    | cons b cut =>
      obtain ⟨more, hmore⟩ := hcut
      have hb : b = 0x16 := by
        rw [hrecord, hheader, cons_append] at hmore
        exact (cons.inj hmore).1
      unfold classifyClientHello
      dsimp only [head?_cons]
      rw [hb, if_neg (by decide), if_pos (by simpa using hshort)]
      rfl
  · obtain ⟨rest, rfl⟩ := prefix_of_prefix_length_le hopens hcut (hlen ▸ hlong)
    rw [hrecord, prefix_append_right_inj] at hcut
    have hrest : rest.length < r.fragment.length := by
      refine Nat.lt_of_le_of_ne hcut.length_le fun heq => hne ?_
      rw [hrecord, hcut.eq_of_length heq]
    rw [hheader, classifyClientHello_header r.fragment_fits, if_pos hrest]

theorem classifyClientHello_whole (r : HelloRecord) (more : Bytes) :
    classifyClientHello (r.encode ++ more) = (r.hello.serverNameExtension.elim (.ok none)
      fun e => serverName e.data).map .complete := by
  rw [HelloRecord.encode, append_assoc, classifyClientHello_header r.fragment_fits,
    if_neg (by rw [length_append]; omega), take_left, HelloRecord.fragment,
    extractSniHandshake_encode r.fits]

/-- The bytes of a connection are read in bounds only. A record that holds a whole ClientHello
is partial while any of it is missing and complete from then on, with the host_name that opens
the list of its server_name extension, and with none where it has no such extension. -/
theorem classifyClientHello_exact :
    (∀ buf, InBounds (classifyClientHello buf)) ∧
    ∀ r : HelloRecord,
      (∀ cut, cut <+: r.encode → cut ≠ r.encode → classifyClientHello cut = .ok .partialRecord) ∧
      ∃ sni, (∀ more, classifyClientHello (r.encode ++ more) = .ok (.complete sni)) ∧
        (r.hello.serverNameExtension = none → sni = none) ∧
        ∀ (e : HelloExtension) (n : ServerName) (names : List ServerName),
          r.hello.serverNameExtension = some e → e.data = serverNameList (n :: names) →
          n.nameType = 0 → ∀ hutf8 : isUtf8 n.name = true, sni = some ⟨n.name, hutf8⟩ := by
  refine ⟨classifyClientHello_inBounds, fun r => ⟨fun cut => classifyClientHello_cut r, ?_⟩⟩
  cases hext : r.hello.serverNameExtension with
  | none =>
    refine ⟨none, fun more => ?_, fun _ => rfl, nofun⟩
    rw [classifyClientHello_whole, hext]
    rfl
  | some e =>
    obtain ⟨sni, hsni⟩ := serverName_inBounds e.data
    refine ⟨sni, fun more => ?_, nofun, ?_⟩
    · rw [classifyClientHello_whole, hext, elim_some, hsni]
      rfl
    · intro e' n names he hdata hhost hutf8
      cases he
      have hread := serverName_list hhost (hdata ▸ e.fits)
      rw [← hdata, hsni, fromUtf8_eq hutf8] at hread
      exact Except.ok.inj hread

def zeroRandom : Bytes := List.replicate 32 0

theorem length_zeroRandom : zeroRandom.length = 32 := length_replicate

theorem nil_fits8 : ([] : Bytes).length < 256 := by decide

theorem nil_fits16 : ([] : Bytes).length < 65536 := by decide

theorem localName_fits : (bytes "a.b").length < 65536 := by decide

def localName : ServerName := ⟨0, bytes "a.b", localName_fits⟩

theorem localNames_fit : (serverNameList [localName]).length < 65536 := by decide

/-- A server_name extension with one host_name. -/
def localExtension : HelloExtension := ⟨0, serverNameList [localName], localNames_fit⟩

theorem localExtension_fits : ∀ exts ∈ some [localExtension],
    (exts.flatMap HelloExtension.encode).length < 65536 := by
  intro exts hexts
  cases hexts
  decide

def localHello : ClientHello :=
  ⟨0x0303, zeroRandom, length_zeroRandom, [], nil_fits8, [], nil_fits16, [], nil_fits8,
    some [localExtension], localExtension_fits⟩

theorem localHello_fits : (localHello.encode ++ []).length < 65536 := by decide

def localRecord : HelloRecord := ⟨0x0301, localHello, [], localHello_fits⟩

theorem classifyClientHello_exact_local :
    classifyClientHello [0x16, 0x03] = .ok .partialRecord ∧
      classifyClientHello localRecord.encode = .ok (.complete (some (.lit "a.b"))) := by
  obtain ⟨hcut, sni, hwhole, -, hname⟩ := classifyClientHello_exact.2 localRecord
  refine ⟨hcut _ (by decide) (by decide), ?_⟩
  have hsni := hname localExtension localName [] rfl rfl rfl (isUtf8_bytes "a.b")
  rw [← append_nil localRecord.encode, hwhole, hsni]
  rfl

end Portail.Proxy
