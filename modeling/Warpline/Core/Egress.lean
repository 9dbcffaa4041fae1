import Warpline.Core.Types
import Warpline.Std.Net

/-!
# Outbound HTTP (`sandbox.rs`: `http-out`)

Which addresses are blocked, the resolver that filters them out of the answers of the system's, and
`http_fetch`. `HttpCrates` collects what is used of the crates `url` and `reqwest`: parsing, and
sending a request through a client with a given resolver. The addresses a request opens a
connection to are part of its outcome.
-/

set_option autoImplicit false

namespace Warpline

/-! ## Blocked addresses -/

def isBlockedIpv4 (v4 : Ipv4Addr) : Bool :=
  v4.isLoopback
    || v4.isPrivate
    || v4.isLinkLocal
    || v4.isUnspecified
    || v4.isBroadcast
    || v4.isMulticast
    || (v4.a == 100 && (v4.b &&& 0xc0) == 64)
    || v4.a == 0
    || v4.octets.take 3 == [192, 0, 0]
    || (v4.a == 198 && (v4.b &&& 0xfe) == 18)
    || 240 ≤ v4.a

def isBlockedIp : IpAddr → Bool
  | .v4 v4 => isBlockedIpv4 v4
  | .v6 v6 =>
    match v6.toIpv4Mapped with
    | some mapped => isBlockedIpv4 mapped
    | none =>
      let low32 := Ipv4Addr.ofSegments v6.s6 v6.s7
      -- prefixes that embed an IPv4 address: judged by the embedded one
      if v6.segments.take 6 == [0, 0, 0, 0, 0, 0] && !v6.isLoopback && !v6.isUnspecified
          || v6.segments.take 6 == [0x64, 0xff9b, 0, 0, 0, 0] then
        isBlockedIpv4 low32
      else if v6.s0 == 0x2002 then isBlockedIpv4 (.ofSegments v6.s1 v6.s2)
      else
        (v6.s0 == 0x64 && v6.s1 == 0xff9b && v6.s2 == 1)
          || v6.isLoopback
          || v6.isUnspecified
          || v6.isMulticast
          || (v6.s0 &&& 0xfe00) == 0xfc00
          || (v6.s0 &&& 0xffc0) == 0xfe80

/-! ## Names -/

structure SocketAddr where
  ip : IpAddr
  port : UInt16
  deriving DecidableEq, Repr

/-- The answer of `lookup_host`, or of a resolver, for a name. -/
abbrev Resolving := Except String (List SocketAddr)

/-- `GuardedResolver::resolve`, over the system's resolver. -/
def GuardedResolver.resolve (allowPrivate : Bool) (lookupHost : Str → Resolving) (host : Str) :
    Resolving := do
  let addrs ← lookupHost host
  if allowPrivate then pure addrs
  else
    let isPublic := addrs.filter fun a => !isBlockedIp a.ip
    if isPublic = [] then
      throw (String.ofList host ++ ": dns resolution returned only blocked/private addresses")
    else pure isPublic

/-! ## Requests -/

namespace HttpOut

structure Request where
  url : Str
  method : Str
  body : List UInt8

structure Response where
  status : UInt16
  body : List UInt8
  deriving DecidableEq, Repr

end HttpOut

inductive UrlHost
  | domain (name : Str)
  | ipv4 (ip : Ipv4Addr)
  | ipv6 (ip : Ipv6Addr)
  deriving DecidableEq, Repr

/-- What a server answers: a status and its body in chunks, each of which may fail to arrive. -/
structure Reply where
  status : UInt16
  chunks : List (Except String (List UInt8))

/-- What `send` does: the addresses it connects to, and the answer. -/
structure Sent where
  connects : List IpAddr
  reply : Except String Reply

structure HttpCrates where
  Url : Type
  Method : Type
  parse : Str → Except String Url
  scheme : Url → Str
  host : Url → Option UrlHost
  hostStr : Url → Option Str
  /-- `Method::from_bytes`. -/
  method : Str → Except String Method
  /-- `client.request(method, url).body(body).send()`, with the resolver of the client. -/
  send : (resolve : Str → Resolving) → Method → Url → List UInt8 → Sent
  /-- `Display for IpAddr`. -/
  display : IpAddr → Str

def MAX_HTTP_BODY_BYTES : Nat := 1024 * 1024

/-- The loop over the chunks of a body. -/
def readBody : List (Except String (List UInt8)) → List UInt8 → Except String (List UInt8)
  | [], body => pure body
  | .error e :: _, _ => throw ("body read failed: " ++ e)
  | .ok chunk :: chunks, body =>
    if MAX_HTTP_BODY_BYTES < body.length + chunk.length then
      throw ("response body exceeds " ++ toString MAX_HTTP_BODY_BYTES ++ " byte cap")
    else readBody chunks (body ++ chunk)

/-- What a fetch connects to, and what the guest sees. -/
structure Fetched where
  connects : List IpAddr
  result : Except String HttpOut.Response

section
variable (H : HttpCrates)

/-- A fetch that ends before anything is sent. -/
def refused (e : String) : Fetched := ⟨[], .error e⟩

def literalIp (url : H.Url) : Option IpAddr :=
  match H.host url with
  | some (.ipv4 v4) => some (.v4 v4)
  | some (.ipv6 v6) => some (.v6 v6)
  | _ => none

/-- `url.host_str().unwrap_or_default().trim_end_matches('.')`. -/
def requestHost (url : H.Url) : Str := trimDots ((H.hostStr url).getD [])

def hostAllowed (allowedHosts : List Str) (url : H.Url) : Bool :=
  allowedHosts.any fun allowed => trimDots allowed == requestHost H url

/-- `http_fetch`, once the target is accepted. -/
def sendRequest (resolve : Str → Resolving) (url : H.Url) (req : HttpOut.Request) : Fetched :=
  match H.method req.method with
  | .error e => refused ("invalid method: " ++ e)
  | .ok method =>
    let sent := H.send resolve method url req.body
    { connects := sent.connects
      result := do
        let resp ← sent.reply.mapError ("request failed: " ++ ·)
        let body ← readBody resp.chunks []
        pure ⟨resp.status, body⟩ }

/-- `http_fetch`, through a client with the resolver `resolve`. -/
def httpFetch (allowedHosts : List Str) (allowPrivate : Bool) (resolve : Str → Resolving)
    (req : HttpOut.Request) : Fetched :=
  match H.parse req.url with
  | .error e => refused ("invalid url: " ++ e)
  | .ok url =>
    if H.scheme url ≠ "http".toList ∧ H.scheme url ≠ "https".toList then
      refused ("scheme " ++ String.ofList (H.scheme url) ++ " not allowed")
    else if !hostAllowed H allowedHosts url then
      refused ("host " ++ String.ofList (requestHost H url) ++ " not allowed")
    else if !allowPrivate then
      match literalIp H url with
      | some ip =>
        if isBlockedIp ip then
          refused ("host " ++ String.ofList (H.display ip) ++ " is a blocked/private address")
        else sendRequest H resolve url req
      | none => sendRequest H resolve url req
    else sendRequest H resolve url req

/-- `fetch` of the guest, whose outer error would trap it: the client has been built with a
`GuardedResolver` of the same flag (`build_http_client`). -/
def fetchOut {ε : Type} (allowedHosts : List Str) (allowPrivate : Bool)
    (lookupHost : Str → Resolving) (req : HttpOut.Request) :
    List IpAddr × Except ε (Except String HttpOut.Response) :=
  let fetched := httpFetch H allowedHosts allowPrivate
    (GuardedResolver.resolve allowPrivate lookupHost) req
  (fetched.connects, .ok fetched.result)

end

end Warpline
