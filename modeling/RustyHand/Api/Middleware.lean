import RustyHand.Drivers.Http
import RustyHand.Lib.IpText
import RustyHand.Runtime.Ssrf

/-!
# The address of a client

`client_ip` of `rusty-hand-api/src/middleware.rs`, which `gcra_rate_limit` of `rate_limiter.rs`
charges: behind a trusted proxy the address comes from the headers of the request.

* `parseIpToken`, `forwardedIp`, `clientIp`;
* `throughProxy`: what arrives of a request through a proxy that appends the address of its peer;
* `claimed`, `Reached`: the address that the client's own headers name, and if the one that the
  proxy has appended comes up at all;
* `clientIp_throughProxy_iff`.
-/

namespace RustyHand
namespace Middleware

open Ssrf (IpAddr)
open Drivers (stripPrefix)
open Text (isWhitespace)

/-! ### Headers -/

/-- `HeaderValue`. -/
abbrev HeaderValue : Type := List UInt8

/-- `HeaderMap`: the lines of the headers, in order. -/
abbrev HeaderMap : Type := List (String × HeaderValue)

/-- `headers.get_all(name)`. -/
def getAll (name : String) (headers : HeaderMap) : List HeaderValue :=
  (headers.filter fun line => line.1 = name).map Prod.snd

/-- `headers.get(name)`: the first of its lines. -/
def get (name : String) (headers : HeaderMap) : Option HeaderValue := (getAll name headers).head?

/-- The bytes that `to_str` allows. -/
def isVisibleAscii (b : UInt8) : Bool := (32 ≤ b && b < 127) || b = 9

/-- `value.to_str().ok()`. -/
def toStr (value : HeaderValue) : Option (List Char) :=
  if value.all isVisibleAscii then some (value.map fun b => Char.ofNat b.toNat) else none

/-- A request: the address of its peer, if `ConnectInfo` is there, and its headers. -/
structure Request where
  peer : Option IpAddr
  headers : HeaderMap

/-! ### Addresses -/

/-- `ip.parse::<IpAddr>().ok()`. -/
def parseIp : List Char → Option IpAddr :=
  IpText.parse
    (fun octets => .v4 (UInt8.ofNat octets.1) (UInt8.ofNat octets.2.1) (UInt8.ofNat octets.2.2.1)
      (UInt8.ofNat octets.2.2.2))
    (fun groups =>
      let group := fun i => UInt16.ofNat (groups.getD i 0)
      .v6 (group 0) (group 1) (group 2) (group 3) (group 4) (group 5) (group 6) (group 7))

/-- `is_trusted_proxy`. -/
def isTrustedProxy (ip : IpAddr) : Bool :=
  match ip with
  -- `is_private` and `is_link_local`
  | .v4 a b _ _ => ip.isLoopback || IpAddr.isPrivateV4 a b
  | .v6 s0 _ _ _ _ _ _ _ => ip.isLoopback || s0 &&& 0xFE00 = 0xFC00

/-- `trim_matches`, and `trim`. -/
def trimMatches (p : Char → Bool) (cs : List Char) : List Char := (cs.dropWhile p).rdropWhile p

/-- `strip_port`. -/
def stripPort (token : List Char) : Option (List Char) :=
  if token.head? = some '[' then
    if ']' ∈ token then
      let ip := (token.drop 1).takeWhile (· ≠ ']')
      if ip = [] then none else some ip
    else none
  else if token.count ':' = 1 ∧ '.' ∈ token then some (token.takeWhile (· ≠ ':'))
  else none

/-- `parse_ip_token`. -/
def parseIpToken (token : List Char) : Option IpAddr :=
  let token := trimMatches isWhitespace (trimMatches (· = '"') (trimMatches isWhitespace token))
  if token = [] ∨ token.map Char.toLower = "unknown".toList then none
  else
    let token := trimMatches isWhitespace
      (((stripPrefix "for=".toList token).or (stripPrefix "For=".toList token)).getD token)
    let token := trimMatches isWhitespace (token.takeWhile (· ≠ ';'))
    (parseIp token).or ((stripPort token).bind parseIp)

/-- The address in a `Forwarded` header. -/
def forwardedHeaderIp (value : Option HeaderValue) : Option IpAddr :=
  (value.bind toStr).bind fun header =>
    ((header.splitOn ',').flatMap (List.splitOn ';')).findSome? parseIpToken

/-- The address in an `X-Forwarded-For` header. -/
def forwardedForIp (value : Option HeaderValue) : Option IpAddr :=
  (value.bind toStr).bind fun header => (header.splitOn ',').findSome? parseIpToken

/-- The address in an `X-Real-IP` header. -/
def realIp (value : Option HeaderValue) : Option IpAddr := (value.bind toStr).bind parseIpToken

/-- `forwarded_ip`. -/
def forwardedIp (request : Request) : Option IpAddr :=
  ((forwardedHeaderIp (get "forwarded" request.headers)).or
    (forwardedForIp (get "x-forwarded-for" request.headers))).or
      (realIp (get "x-real-ip" request.headers))

/-- `client_ip`. -/
def clientIp (request : Request) : Option IpAddr :=
  match request.peer with
  | some peerIp =>
    if isTrustedProxy peerIp then (forwardedIp request).or (some peerIp) else some peerIp
  | none => forwardedIp request

/-- The address that `gcra_rate_limit` charges. -/
def chargedIp (request : Request) : IpAddr := (clientIp request).getD (.v4 127 0 0 1)

/-! ### A proxy -/

/-- `, `. -/
def separator : HeaderValue := [0x2C, 0x20]

/-- The text as bytes. -/
def bytesOf (cs : List Char) : HeaderValue := cs.map fun c => UInt8.ofNat c.toNat

/-- The lines of `X-Forwarded-For` once a proxy has appended an address: it puts the lines of the
client together in one, or it adds a line of its own. -/
def appended (ownLine : Bool) (lines : List HeaderValue) (address : HeaderValue) :
    List HeaderValue :=
  if ownLine then lines ++ [address] else [separator.intercalate (lines ++ [address])]

/-- What arrives of a request with some headers through a proxy. -/
def throughProxy (ownLine : Bool) (proxy : IpAddr) (address : List Char) (sent : HeaderMap) :
    Request where
  peer := some proxy
  headers :=
    sent.filter (fun line => line.1 ≠ "x-forwarded-for") ++
      (appended ownLine (getAll "x-forwarded-for" sent) (bytesOf address)).map
        fun value => ("x-forwarded-for", value)

/-- The client's part of the `X-Forwarded-For` line that is read. -/
def ownPart (ownLine : Bool) (lines : List HeaderValue) : Option HeaderValue :=
  if ownLine ∨ lines = [] then lines.head? else some (separator.intercalate lines)

/-- The first address that the client's own headers name before an appended one. -/
def claimed (ownLine : Bool) (sent : HeaderMap) : Option IpAddr :=
  (forwardedHeaderIp (get "forwarded" sent)).or
    (forwardedForIp (ownPart ownLine (getAll "x-forwarded-for" sent)))

/-- The appended address is in the line that is read, and nothing in this line keeps it from being
read. -/
def Reached (ownLine : Bool) (sent : HeaderMap) : Prop :=
  (ownLine = true → getAll "x-forwarded-for" sent = []) ∧
    ∀ value ∈ getAll "x-forwarded-for" sent, value.all isVisibleAscii = true

/-! ### The address that is appended -/

/-- No character of an address has a meaning in a list of addresses. -/
theorem addressChars_plain : ∀ c ∈ IpText.addressChars,
    isWhitespace c = false ∧ c ≠ '"' ∧ c ≠ ',' ∧ c ≠ ';' ∧ c ≠ 'o' ∧ Char.toLower c ≠ 'u' ∧
      isVisibleAscii (UInt8.ofNat c.toNat) = true ∧
        Char.ofNat (UInt8.ofNat c.toNat).toNat = c := by
  -- over the list, not over all characters
  have hall : (IpText.addressChars.all fun c =>
      isWhitespace c = false ∧ c ≠ '"' ∧ c ≠ ',' ∧ c ≠ ';' ∧ c ≠ 'o' ∧ Char.toLower c ≠ 'u' ∧
        isVisibleAscii (UInt8.ofNat c.toNat) = true ∧
          Char.ofNat (UInt8.ofNat c.toNat).toNat = c) = true := by decide
  exact fun c hc => of_decide_eq_true (List.all_eq_true.1 hall c hc)

theorem parseIp_plain {address : List Char} {ip : IpAddr} (h : parseIp address = some ip) :
    ∀ c ∈ address, isWhitespace c = false ∧ c ≠ '"' ∧ c ≠ ',' ∧ c ≠ ';' ∧ c ≠ 'o' ∧
      Char.toLower c ≠ 'u' ∧ isVisibleAscii (UInt8.ofNat c.toNat) = true ∧
        Char.ofNat (UInt8.ofNat c.toNat).toNat = c :=
  fun c hc => addressChars_plain c (IpText.parse_chars h c hc).mem

theorem dropWhile_eq_self {p : Char → Bool} {cs : List Char} (h : ∀ c ∈ cs, p c = false) :
    cs.dropWhile p = cs := by
  cases cs with
  | nil => rfl
  | cons c cs => exact List.dropWhile_cons_of_neg (by simp [h c List.mem_cons_self])

theorem trimMatches_eq_self {p : Char → Bool} {cs : List Char} (h : ∀ c ∈ cs, p c = false) :
    trimMatches p cs = cs := by
  rw [trimMatches, dropWhile_eq_self h, List.rdropWhile, dropWhile_eq_self, List.reverse_reverse]
  intro c hc
  exact h c (List.mem_reverse.1 hc)

/-- An address is read as it is, and behind a blank. -/
theorem parseIpToken_address {address : List Char} {ip : IpAddr} (h : parseIp address = some ip) :
    parseIpToken address = some ip ∧ parseIpToken (' ' :: address) = some ip := by
  have hplain := parseIp_plain h
  have hne : address ≠ [] := IpText.parse_ne_nil h
  have htrim : trimMatches isWhitespace address = address :=
    trimMatches_eq_self fun c hc => (hplain c hc).1
  have hquote : trimMatches (· = '"') address = address :=
    trimMatches_eq_self fun c hc => by simp [(hplain c hc).2.1]
  have hblank : trimMatches isWhitespace (' ' :: address) = address := by
    rw [trimMatches, List.dropWhile_cons_of_pos rfl, ← trimMatches, htrim]
  have hunknown : address.map Char.toLower ≠ "unknown".toList := by
    intro heq
    have hu : 'u' ∈ address.map Char.toLower := by
      rw [heq]
      decide
    obtain ⟨c, hc, hlower⟩ := List.mem_map.1 hu
    exact (hplain c hc).2.2.2.2.2.1 hlower
  have hpre : ∀ start : List Char, 'o' ∈ start → stripPrefix start address = none := by
    intro start ho
    refine if_neg fun hpre => ?_
    exact (hplain 'o' (hpre.subset ho)).2.2.2.2.1 rfl
  have htake : address.takeWhile (· ≠ ';') = address := by
    rw [List.takeWhile_eq_self_iff]
    intro c hc
    simpa using (hplain c hc).2.2.2.1
  have haddress : ∀ token, trimMatches isWhitespace token = address →
      parseIpToken token = some ip := by
    intro token htoken
    unfold parseIpToken
    dsimp only
    rw [htoken, hquote, htrim, if_neg (not_or.2 ⟨hne, hunknown⟩), hpre _ (by decide),
      hpre _ (by decide), Option.or_none, Option.getD_none, htrim, htake, htrim, h,
      Option.some_or]
  exact ⟨haddress _ htrim, haddress _ hblank⟩

theorem all_bytesOf {address : List Char} {ip : IpAddr} (h : parseIp address = some ip) :
    (bytesOf address).all isVisibleAscii = true := by
  rw [List.all_eq_true]
  intro b hb
  obtain ⟨c, hc, rfl⟩ := List.mem_map.1 hb
  exact (parseIp_plain h c hc).2.2.2.2.2.2.1

/-- The text of the bytes. -/
def textOf (value : HeaderValue) : List Char := value.map fun b => Char.ofNat b.toNat

theorem textOf_bytesOf {address : List Char} {ip : IpAddr} (h : parseIp address = some ip) :
    textOf (bytesOf address) = address := by
  rw [textOf, bytesOf, List.map_map]
  exact (List.map_congr_left fun c hc => (parseIp_plain h c hc).2.2.2.2.2.2.2).trans
    (List.map_id' address)

theorem toStr_of_all {value : HeaderValue} (h : value.all isVisibleAscii = true) :
    toStr value = some (textOf value) := if_pos h

theorem toStr_of_not_all {value : HeaderValue} (h : ¬ value.all isVisibleAscii = true) :
    toStr value = none := if_neg h

/-! ### The line that is read -/

theorem intercalate_concat {lines : List HeaderValue} (h : lines ≠ []) (value : HeaderValue) :
    separator.intercalate (lines ++ [value]) =
      separator.intercalate lines ++ (separator ++ value) := by
  induction lines with
  | nil => exact absurd rfl h
  | cons line lines ih =>
    by_cases hlines : lines = []
    · subst hlines
      simp [List.intercalate_cons_cons]
    · rw [List.cons_append, List.intercalate_cons_of_ne_nil (by simp),
        List.intercalate_cons_of_ne_nil hlines, ih hlines]
      simp

theorem all_intercalate (lines : List HeaderValue) :
    (separator.intercalate lines).all isVisibleAscii = true ↔
      ∀ value ∈ lines, value.all isVisibleAscii = true := by
  induction lines with
  | nil => simp
  | cons line lines ih =>
    by_cases hlines : lines = []
    · subst hlines
      simp
    · rw [List.intercalate_cons_of_ne_nil hlines, List.all_append, List.all_append,
        List.forall_mem_cons, ← ih]
      have hseparator : separator.all isVisibleAscii = true := by decide
      simp [hseparator]

/-- What a list of addresses names once another one is appended to the line. -/
theorem forwardedForIp_concat {address : List Char} {ip : IpAddr} (h : parseIp address = some ip)
    {lines : List HeaderValue} (hlines : lines ≠ []) :
    forwardedForIp (some (separator.intercalate (lines ++ [bytesOf address]))) =
      (forwardedForIp (some (separator.intercalate lines))).or
        (if ∀ value ∈ lines, value.all isVisibleAscii = true then some ip else none) := by
  have hall : (separator.intercalate (lines ++ [bytesOf address])).all isVisibleAscii = true ↔
      ∀ value ∈ lines, value.all isVisibleAscii = true := by
    rw [all_intercalate, List.forall_mem_append, List.forall_mem_singleton]
    exact and_iff_left (all_bytesOf h)
  unfold forwardedForIp
  rw [Option.bind_some, Option.bind_some]
  by_cases hvisible : ∀ value ∈ lines, value.all isVisibleAscii = true
  · rw [if_pos hvisible, toStr_of_all (hall.2 hvisible),
      toStr_of_all ((all_intercalate lines).2 hvisible), Option.bind_some, Option.bind_some,
      intercalate_concat hlines]
    have htext : textOf (separator.intercalate lines ++ (separator ++ bytesOf address)) =
        textOf (separator.intercalate lines) ++ ',' :: ' ' :: address := by
      rw [textOf, List.map_append, List.map_append, ← textOf, ← textOf, ← textOf,
        textOf_bytesOf h]
      rfl
    have hcomma : ',' ∉ ' ' :: address := by
      intro hmem
      rcases List.mem_cons.1 hmem with hc | hc
      · exact absurd hc (by decide)
      · exact (parseIp_plain h _ hc).2.2.1 rfl
    rw [htext, List.splitOn_append_cons_self, List.splitOn_eq_singleton hcomma,
      List.findSome?_append, List.findSome?_singleton, (parseIpToken_address h).2]
  · rw [if_neg hvisible, toStr_of_not_all (mt hall.1 hvisible),
      toStr_of_not_all (mt (all_intercalate lines).1 hvisible)]
    rfl

/-- What the line that is read names: an address of the client's part, or else the appended one if
it is reached. -/
theorem forwardedForIp_appended {address : List Char} {ip : IpAddr}
    (h : parseIp address = some ip) (ownLine : Bool) (lines : List HeaderValue) :
    forwardedForIp (appended ownLine lines (bytesOf address)).head? =
      (forwardedForIp (ownPart ownLine lines)).or
        (if (ownLine = true → lines = []) ∧ ∀ value ∈ lines, value.all isVisibleAscii = true then
          some ip else none) := by
  have hfirst : forwardedForIp (some (bytesOf address)) = some ip := by
    have hcomma : ',' ∉ address := fun hc => (parseIp_plain h _ hc).2.2.1 rfl
    rw [forwardedForIp, Option.bind_some, toStr_of_all (all_bytesOf h), Option.bind_some,
      textOf_bytesOf h, List.splitOn_eq_singleton hcomma, List.findSome?_singleton,
      (parseIpToken_address h).1]
  cases lines with
  | nil =>
    have happended : (appended ownLine [] (bytesOf address)).head? = some (bytesOf address) := by
      cases ownLine <;> simp [appended]
    rw [happended, hfirst]
    simp [ownPart, forwardedForIp]
  | cons line lines =>
    cases ownLine with
    | true => simp [appended, ownPart]
    | false =>
      have hlines : line :: lines ≠ [] := List.cons_ne_nil _ _
      rw [appended, if_neg Bool.false_ne_true, List.head?_cons, forwardedForIp_concat h hlines,
        ownPart, if_neg (by simp : ¬ (false = true ∨ line :: lines = []))]
      have hreached : ((false = true → line :: lines = []) ∧
          ∀ value ∈ line :: lines, value.all isVisibleAscii = true) ↔
            ∀ value ∈ line :: lines, value.all isVisibleAscii = true :=
        and_iff_right fun hown => absurd hown Bool.false_ne_true
      rw [if_congr hreached rfl rfl]

theorem getAll_throughProxy_self (ownLine : Bool) (proxy : IpAddr) (address : List Char)
    (sent : HeaderMap) :
    getAll "x-forwarded-for" (throughProxy ownLine proxy address sent).headers =
      appended ownLine (getAll "x-forwarded-for" sent) (bytesOf address) := by
  unfold throughProxy
  dsimp only
  rw [getAll, List.filter_append, List.map_append, List.filter_filter]
  have hnone : sent.filter (fun line => decide (line.1 = "x-forwarded-for") &&
      decide (line.1 ≠ "x-forwarded-for")) = [] := by
    rw [List.filter_eq_nil_iff]
    intro line _
    simp
  rw [hnone, List.filter_map]
  simp [Function.comp_def]

theorem getAll_throughProxy_ne {name : String} (hname : name ≠ "x-forwarded-for") (ownLine : Bool)
    (proxy : IpAddr) (address : List Char) (sent : HeaderMap) :
    getAll name (throughProxy ownLine proxy address sent).headers = getAll name sent := by
  unfold getAll throughProxy
  dsimp only
  rw [List.filter_append, List.map_append, List.filter_filter, List.filter_map]
  have hkept : (fun line : String × HeaderValue => decide (line.1 = name) &&
      decide (line.1 ≠ "x-forwarded-for")) = fun line => decide (line.1 = name) := by
    funext line
    by_cases hline : line.1 = name
    · simp [hline, hname]
    · simp [hline]
  rw [hkept]
  simp [Function.comp_def, Ne.symm hname]

instance (ownLine : Bool) (sent : HeaderMap) : Decidable (Reached ownLine sent) :=
  inferInstanceAs (Decidable (_ ∧ _))

theorem clientIp_throughProxy {proxy client : IpAddr} (hproxy : isTrustedProxy proxy = true)
    {address : List Char} (haddress : parseIp address = some client) (ownLine : Bool)
    (sent : HeaderMap) :
    clientIp (throughProxy ownLine proxy address sent) =
      some ((claimed ownLine sent).getD
        (if Reached ownLine sent then client else (realIp (get "x-real-ip" sent)).getD proxy)) := by
  have hforwarded : get "forwarded" (throughProxy ownLine proxy address sent).headers =
      get "forwarded" sent := by
    rw [get, getAll_throughProxy_ne (by decide), get]
  have hreal : get "x-real-ip" (throughProxy ownLine proxy address sent).headers =
      get "x-real-ip" sent := by
    rw [get, getAll_throughProxy_ne (by decide), get]
  have hlist : get "x-forwarded-for" (throughProxy ownLine proxy address sent).headers =
      (appended ownLine (getAll "x-forwarded-for" sent) (bytesOf address)).head? := by
    rw [get, getAll_throughProxy_self]
  unfold clientIp
  dsimp only [throughProxy]
  rw [if_pos hproxy]
  change (forwardedIp (throughProxy ownLine proxy address sent)).or (some proxy) = _
  rw [forwardedIp, hforwarded, hreal, hlist, forwardedForIp_appended haddress, claimed]
  have hcases : ∀ appendedIp : Option IpAddr,
      (((forwardedHeaderIp (get "forwarded" sent)).or
          ((forwardedForIp (ownPart ownLine (getAll "x-forwarded-for" sent))).or appendedIp)).or
            (realIp (get "x-real-ip" sent))).or (some proxy) =
        some (((forwardedHeaderIp (get "forwarded" sent)).or
          (forwardedForIp (ownPart ownLine (getAll "x-forwarded-for" sent)))).getD
            (appendedIp.getD ((realIp (get "x-real-ip" sent)).getD proxy))) := by
    intro appendedIp
    cases forwardedHeaderIp (get "forwarded" sent) <;>
      cases forwardedForIp (ownPart ownLine (getAll "x-forwarded-for" sent)) <;>
        cases appendedIp <;> cases realIp (get "x-real-ip" sent) <;> rfl
  rw [hcases]
  by_cases hreached : Reached ownLine sent
  · rw [if_pos hreached, if_pos (show _ ∧ _ from hreached), Option.getD_some]
  · rw [if_neg hreached, if_neg (show ¬ (_ ∧ _) from hreached), Option.getD_none]

/-- Behind a trusted proxy the address that it has appended is the one that is found and charged if
and only if the client's own headers name this one first, or none and let it come up, or none and
the last resort is the same. -/
theorem clientIp_throughProxy_iff {proxy client : IpAddr} (hproxy : isTrustedProxy proxy = true)
    {address : List Char} (haddress : parseIp address = some client) (ownLine : Bool)
    (sent : HeaderMap) :
    clientIp (throughProxy ownLine proxy address sent) = some client ∧
        chargedIp (throughProxy ownLine proxy address sent) = client ↔
      claimed ownLine sent = some client ∨
        claimed ownLine sent = none ∧
          (Reached ownLine sent ∨ (realIp (get "x-real-ip" sent)).getD proxy = client) := by
  rw [chargedIp, clientIp_throughProxy hproxy haddress, Option.getD_some, Option.some_inj,
    and_self]
  cases claimed ownLine sent with
  | some ip => simp
  | none =>
    rw [Option.getD_none]
    by_cases hreached : Reached ownLine sent
    · simp [hreached]
    · simp [hreached]

section Spoofed

/-- The proxy on the same host. -/
def localProxy : IpAddr := .v4 127 0 0 1

/-- The address of a client. -/
def someClient : IpAddr := .v4 203 0 113 7

/-- A client that says nothing of its address is found. -/
theorem clientIp_throughProxy_plain :
    clientIp (throughProxy false localProxy "203.0.113.7".toList
        [("x-forwarded-for", bytesOf "unknown".toList)]) = some someClient ∧
      chargedIp (throughProxy false localProxy "203.0.113.7".toList
        [("x-forwarded-for", bytesOf "unknown".toList)]) = someClient :=
  (clientIp_throughProxy_iff (by decide) (by decide) false _).2 (.inr (by decide))

/-- A client that names another address is taken for it. -/
theorem clientIp_throughProxy_spoofed :
    ¬ ∀ (ownLine : Bool) (proxy client : IpAddr) (address : List Char) (sent : HeaderMap),
      isTrustedProxy proxy = true → parseIp address = some client →
      clientIp (throughProxy ownLine proxy address sent) = some client := by
  intro hall
  have hclient := hall false localProxy someClient "203.0.113.7".toList
    [("x-forwarded-for", bytesOf "198.51.100.1".toList)] (by decide) (by decide)
  revert hclient
  decide

end Spoofed

end Middleware
end RustyHand
