import ZeroNat.Config.Tables
import ZeroNat.Proto.Wire

/-!
# Requests to the HTTP proxy

The head of a request is parsed as a `CONNECT` or as a plain request with an absolute target,
whose head is rewritten for the origin: the target in origin-form, `Host` from the target, the
headers of the connection stripped and `Connection: close` added.  A head is a text; the text
of the rewritten head is sent as its UTF-8 bytes.
-/

namespace ZeroNat.Proxy

open Config (isWhitespace trim splitWhitespace stripPrefix parseDecimal)

/-! ### Strings -/

/-- The parts of a text between the ends of its lines. -/
def splitCrlf : List Char → List (List Char)
  | [] => [[]]
  | '\r' :: '\n' :: rest => [] :: splitCrlf rest
  | c :: rest =>
      match splitCrlf rest with
      | [] => [[c]]
      | l :: ls => (c :: l) :: ls

def lower (l : List Char) : List Char :=
  l.map Char.toLower

def eqIgnoreCase (a b : List Char) : Bool :=
  lower a = lower b

/-- What is before the first of a character, and what is after it. -/
def splitOnce (stop : Char) (l : List Char) : Option (List Char × List Char) :=
  if stop ∈ l then some (l.takeWhile (· ≠ stop), (l.dropWhile (· ≠ stop)).tail) else none

/-- What is after the last of a character, or everything. -/
def afterLast (stop : Char) (l : List Char) : List Char :=
  l.rtakeWhile (· ≠ stop)

/-- What is before the last of a character, and what is after it. -/
def rsplitOnce (stop : Char) (l : List Char) : Option (List Char × List Char) :=
  if stop ∈ l then some ((l.rdropWhile (· ≠ stop)).dropLast, afterLast stop l) else none

/-! ### Headers -/

inductive Kind where
  | connect
  /-- The head that is sent to the origin. -/
  | forward (head : List Char)
deriving DecidableEq

structure Request where
  target : List Char × UInt16
  auth : Option (List UInt8 × List UInt8)
  kind : Kind
deriving DecidableEq

/-- The names of headers that are always dropped. -/
def stripHeaders : List (List Char) :=
  ["connection", "proxy-connection", "keep-alive", "proxy-authenticate", "proxy-authorization",
    "te", "trailer", "upgrade", "host"].map String.toList

def headerNamed (line : List Char) (name : String) : Bool :=
  match splitOnce ':' line with
  | some (n, _) => eqIgnoreCase (trim n) name.toList
  | none => false

/-- The name of a header in lower case. -/
def headerName (line : List Char) : Option (List Char) :=
  (splitOnce ':' line).map fun (n, _) => lower (trim n)

/-- The lines of the headers of a head. -/
def headerLines (text : List Char) : List (List Char) :=
  (splitCrlf text).tail.takeWhile (· ≠ [])

/-- The names in the `Connection` headers. -/
def connNamed (headers : List (List Char)) : List (List Char) :=
  headers.flatMap fun l =>
    if headerNamed l "connection" then
      match splitOnce ':' l with
      | some (_, v) => ((v.splitOn ',').map fun name => lower (trim name)).filter (· ≠ [])
      | none => []
    else []

section

local instance lawfulBEq_text : LawfulBEq (List Char) :=
  inferInstance

/-- Whether a line is passed on to the origin. -/
def passedOn (headers : List (List Char)) (line : List Char) : Bool :=
  match headerName line with
  | some name => name ∉ stripHeaders ∧ name ∉ connNamed headers
  | none => false

end

/-! ### Targets -/

def stripHttpScheme (uri : List Char) : Option (List Char) :=
  if eqIgnoreCase (uri.take 7) "http://".toList then some (uri.drop 7) else none

/-- The host and the port of an authority.  Without a default the port is required. -/
def splitHostPort (authority : List Char) (default : Option UInt16) :
    Option (List Char × UInt16) := do
  let (host, port) ←
    match stripPrefix ['['] authority with
    | some rest => do
        let (host, after) ← splitOnce ']' rest
        let port ←
          match stripPrefix [':'] after with
          | some p => (parseDecimal (2 ^ 16) p).map UInt16.ofNat
          | none => if after = [] then default else none
        pure (host, port)
    | none =>
        match rsplitOnce ':' authority with
        | some (host, p) => do
            let port ← (parseDecimal (2 ^ 16) p).map UInt16.ofNat
            pure (host, port)
        | none => do
            let port ← default
            pure (authority, port)
  if host = [] then none else some (host, port)

/-- The end of the authority of a target. -/
def endsAuthority (c : Char) : Bool :=
  c = '/' ∨ c = '?' ∨ c = '#'

/-- The authority without the user that may precede it. -/
def authorityOf (rest : List Char) : List Char :=
  afterLast '@' (rest.takeWhile fun c => !endsAuthority c)

def pathOf (rest : List Char) : List Char :=
  match rest.dropWhile fun c => !endsAuthority c with
  | [] => ['/']
  | '/' :: tail => '/' :: tail
  | tail => '/' :: tail

/-! ### Requests -/

/-- The credentials of a header, with the decoding of Base64 as it is given. -/
def decodeBasic (base64 : List Char → Option (List UInt8)) (value : List Char) :
    Option (List UInt8 × List UInt8) := do
  let b64 ← (stripPrefix "Basic ".toList value).or
    (if eqIgnoreCase (value.take 6) "basic ".toList then some (value.drop 6) else none)
  let raw ← base64 (trim b64)
  if ':'.toNat.toUInt8 ∈ raw then
    some (raw.takeWhile (· ≠ ':'.toNat.toUInt8), (raw.dropWhile (· ≠ ':'.toNat.toUInt8)).tail)
  else none

/-- The framing of the body is not ambiguous. -/
def checkFraming (headers : List (List Char)) : Except String Unit :=
  let lengths := (headers.filter (headerNamed · "content-length")).filterMap fun l =>
    (splitOnce ':' l).map fun (_, v) => trim v
  if lengths ≠ [] ∧ headers.any (headerNamed · "transfer-encoding") then
    .error "request carries both Content-Length and Transfer-Encoding"
  else if 1 < lengths.length then .error "request carries multiple Content-Length headers"
  else
    match lengths with
    | v :: _ =>
        if v = [] ∨ ¬ v.all Char.isDigit ∨ parseDecimal (2 ^ 64) v = none then
          .error "request has a malformed Content-Length"
        else .ok ()
    | [] => .ok ()

/-- The end of a line. -/
def crlf : List Char := ['\r', '\n']

/-- The rewritten head. -/
def rewrite (method path version authority : List Char) (headers : List (List Char)) :
    List Char :=
  let out := method ++ ' ' :: path ++ ' ' :: version ++ crlf ++ "Host: ".toList ++ authority ++ crlf
  let out := (headers.filter (passedOn headers)).foldl (fun out l => out ++ l ++ crlf) out
  out ++ "Connection: close".toList ++ crlf ++ crlf

/-- A request whose head is a text. -/
def parseText (base64 : List Char → Option (List UInt8)) (text : List Char) :
    Except String Request :=
  let requestLine := (splitCrlf text).headD []
  let headers := headerLines text
  if headers.any fun l => l.head? = some ' ' ∨ l.head? = some '\t' then
    .error "obsolete header line folding is not accepted"
  else
    let auth := (headers.findSome? fun l =>
      (splitOnce ':' l).bind fun (name, value) =>
        if eqIgnoreCase (trim name) "proxy-authorization".toList then some (trim value)
        else none).bind (decodeBasic base64)
    match splitWhitespace requestLine with
    | [] => .error "empty request line"
    | [_] => .error "missing request target"
    | method :: uri :: more =>
        let version := more.headD "HTTP/1.1".toList
        if eqIgnoreCase method "CONNECT".toList then
          match splitHostPort uri none with
          | none => .error "CONNECT target must be host:port"
          | some target => .ok ⟨target, auth, .connect⟩
        else
          match stripHttpScheme uri with
          | none => .error "only CONNECT or absolute-form http:// requests are supported"
          | some rest =>
              match splitHostPort (authorityOf rest) (some 80) with
              | none => .error "bad http:// authority"
              | some target =>
                  match checkFraming headers with
                  | .error e => .error e
                  | .ok () =>
                      .ok ⟨target, auth,
                        .forward (rewrite method (pathOf rest) version (authorityOf rest) headers)⟩

def parse (base64 : List Char → Option (List UInt8)) (head : List UInt8) :
    Except String Request :=
  match String.fromUTF8? ⟨head.toArray⟩ with
  | none => .error "non-utf8 request head"
  | some text => parseText base64 text.toList

end ZeroNat.Proxy
