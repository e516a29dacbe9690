import Lurker.Engine.Protocol

/-!
# What a `connect` may dial

The checks `EngineServer.connect` makes before any upstream exists, the proxy
validation it shares with the app (`shared/proxy.ts`), and the comparison that
decides whether a `connect` means the socket already held under its id
(`EngineUpstream.matchesDial`). Whatever the engine takes from Node or from a
package is a field of `Platform`.
-/

namespace Lurker.Engine

/-- A parsed IRC line, as `irc-framework`'s parser returns it. -/
structure IrcMessage where
  source : Option String
  command : String
  params : List String
  deriving DecidableEq, Repr

inductive ProxyType
  | socks5 | http
  deriving DecidableEq, Repr

structure ProxyConfig where
  type : ProxyType
  host : String
  port : Nat
  username : Option String
  password : Option String
  deriving DecidableEq, Repr

structure ClientCert where
  cert : String
  key : String
  deriving DecidableEq, Repr

/-- What one dial is made with. -/
structure DialRequest where
  id : String
  host : String
  port : Nat
  tls : Bool
  rejectUnauthorized : Bool
  outgoingAddr : Option String
  ident : Option String
  clientCert : Option ClientCert
  proxy : Option ProxyConfig
  deriving DecidableEq, Repr

structure UpstreamOptions where
  dial : DialRequest
  /-- The app instance (Lurker database) the session belongs to. -/
  instanceId : String
  deriving DecidableEq, Repr

/-- A dial to nowhere. -/
def UpstreamOptions.blank : UpstreamOptions where
  dial := { id := "", host := "", port := 0, tls := false, rejectUnauthorized := true
            outgoingAddr := none, ident := none, clientCert := none, proxy := none }
  instanceId := ""

/-- What the engine uses and the repository does not define: JavaScript's case
mappings, `irc-framework`'s line parser, Node's hashes and address checks, and
what `net.connect` may throw. -/
structure Platform where
  toLowerCase : String → String
  toUpperCase : String → String
  ircLineParser : String → Option IrcMessage
  sha256 : String → String
  isIP : String → Bool
  isDialableCertPair : String → String → Bool
  /-- What dialing throws synchronously, if it does. -/
  dialThrows : UpstreamOptions → Option String
  /-- The text of a `randomUUID`. -/
  showSocket : SocketId → String

/-- The middle and trailing parameters of a line, from its words. -/
def plainParams : List (List Char) → List String
  | [] => []
  | [] :: ws => plainParams ws
  | (':' :: cs) :: ws => [String.ofList (List.intercalate [' '] (cs :: ws))]
  | w :: ws => String.ofList w :: plainParams ws

/-- The line grammar without message tags. -/
def plainParser (line : String) : Option IrcMessage :=
  match line.toList.splitOn ' ' with
  | (':' :: source) :: (c :: command) :: ws =>
      some ⟨some (String.ofList source), String.ofList (c :: command), plainParams ws⟩
  | (c :: command) :: ws =>
      if c = ':' then none else some ⟨none, String.ofList (c :: command), plainParams ws⟩
  | _ => none

/-- A platform on which closed runs can be evaluated: ASCII case mappings, the
line grammar without tags, a digest that is the text itself. -/
def Platform.plain : Platform where
  toLowerCase s := String.ofList (s.toList.map Char.toLower)
  toUpperCase s := String.ofList (s.toList.map Char.toUpper)
  ircLineParser := plainParser
  sha256 s := s
  isIP s := s.toList.all (fun c => c.isDigit || c = '.')
  isDialableCertPair _ _ := true
  dialThrows _ := none
  showSocket := toString

example : plainParser ":a!b@c PRIVMSG #x :hi there" =
    some ⟨some "a!b@c", "PRIVMSG", ["#x", "hi there"]⟩ := by decide +kernel

/-- JavaScript's white space and line terminators, the class `\s` matches. -/
def isJsSpace (c : Char) : Bool :=
  let n := c.val.toNat
  (9 ≤ n && n ≤ 13) || n = 32 || n = 0xa0 || n = 0x1680 || (0x2000 ≤ n && n ≤ 0x200a) ||
    n = 0x2028 || n = 0x2029 || n = 0x202f || n = 0x205f || n = 0x3000 || n = 0xfeff

def jsTrim (s : String) : String :=
  String.ofList (((s.toList.dropWhile isJsSpace).reverse.dropWhile isJsSpace).reverse)

inductive ProxyPart
  | type | host | port | username | password
  deriving DecidableEq, Repr

structure ProxyProblem where
  error : String
  field : ProxyPart
  deriving DecidableEq, Repr

def isPort (n : Int) : Bool := 1 ≤ n && n ≤ 65535

/-- `validateProxy` of `shared/proxy.ts`. -/
def validateProxy (env : Platform) (input : ProxyField) : Except ProxyProblem ProxyConfig :=
  let type := env.toLowerCase (input.type.getD "")
  let host := jsTrim (input.host.getD "")
  let username := jsTrim (input.username.getD "")
  let password := input.password.getD ""
  let hasBreak (s : String) : Bool := s.toList.any (fun c => c = '\r' || c = '\n')
  if type ≠ "socks5" ∧ type ≠ "http" then
    .error ⟨"\"" ++ input.type.getD "" ++ "\" is not a proxy type Lurker speaks", .type⟩
  else if host = "" then .error ⟨"a proxy needs a host", .host⟩
  else if host.toList.any isJsSpace then .error ⟨"a proxy host cannot contain spaces", .host⟩
  else
    match input.port.value.filter isPort with
    | none => .error ⟨input.port.text ++ " is not a valid port", .port⟩
    | some port =>
      if password ≠ "" ∧ username = "" then
        .error ⟨"a proxy password needs a username too", .username⟩
      else if 255 < username.utf8ByteSize then
        .error ⟨"a proxy username can be at most 255 bytes", .username⟩
      else if 255 < password.utf8ByteSize then
        .error ⟨"a proxy password can be at most 255 bytes", .password⟩
      else if hasBreak username || hasBreak password then
        .error ⟨"proxy credentials cannot contain line breaks", .username⟩
      else if username.toList.contains ':' then
        .error ⟨"a proxy username cannot contain a colon", .username⟩
      else
        .ok { type := if type = "http" then .http else .socks5
              host := host
              port := port.toNat
              username := if username = "" then none else some username
              password := if password = "" then none else some password }

/-- Everything about a proxy except the password. -/
def sameProxyRoute : Option ProxyConfig → Option ProxyConfig → Bool
  | none, none => true
  | some a, some b =>
      a.type = b.type && a.host = b.host && a.port = b.port &&
        a.username.getD "" = b.username.getD ""
  | _, _ => false

/-- The digest of a proxy's credentials, kept once the password is dropped. -/
def proxyCredDigest (env : Platform) : Option ProxyConfig → String
  | none => ""
  | some p => env.sha256 (p.username.getD "" ++ "\x00" ++ p.password.getD "")

/-- The id an error is addressed with: `fail` leaves an empty one out. -/
def ConnectFrame.failId (f : ConnectFrame) : Option String := f.id.filter (· ≠ "")

def checkClientCert (env : Platform) : Option ClientCertField → Except String (Option ClientCert)
  | none => .ok none
  | some f =>
    match f.cert.filter (· ≠ ""), f.key.filter (· ≠ "") with
    | some cert, some key =>
      if env.isDialableCertPair cert key then .ok (some ⟨cert, key⟩)
      else .error "connect: clientCert is not a usable certificate/key pair"
    | _, _ => .error "connect: clientCert needs both a cert and a key"

def checkProxy (env : Platform) : Option ProxyField → Except String (Option ProxyConfig)
  | none => .ok none
  | some f =>
    match validateProxy env f with
    | .ok p => .ok (some p)
    | .error problem => .error ("connect: proxy is unusable (" ++ problem.error ++ ")")

/-- Everything `EngineServer.connect` refuses before it looks at any upstream. -/
def validateConnect (env : Platform) (f : ConnectFrame) : Except String DialRequest :=
  match f.id.filter (· ≠ ""), f.host.filter (· ≠ "") with
  | some id, some host =>
    match f.port.value.filter isPort with
    | none => .error ("connect: invalid port " ++ f.port.text)
    | some port =>
      if f.outgoingAddr.any (fun a => a ≠ "" && !env.isIP a) then
        .error ("connect: outgoingAddr must be an IP address (got " ++
          f.outgoingAddr.getD "" ++ ")")
      else do
        let clientCert ← checkClientCert env f.clientCert
        let proxy ← checkProxy env f.proxy
        .ok { id, host, port := port.toNat, tls := f.tls
              rejectUnauthorized := f.rejectUnauthorized
              outgoingAddr := f.outgoingAddr.filter (· ≠ "")
              ident := f.ident.filter (· ≠ "")
              clientCert, proxy }
  | _, _ => .error "connect needs an id and a host"

theorem validateConnect_id {env : Platform} {f : ConnectFrame} {dial : DialRequest}
    (h : validateConnect env f = .ok dial) : f.id = some dial.id ∧ dial.id ≠ "" := by
  unfold validateConnect at h
  split at h
  · rename_i id host hid hhost
    obtain ⟨hf, hne⟩ := Option.filter_eq_some_iff.mp hid
    split at h
    · simp at h
    · split at h
      · simp at h
      · cases hc : checkClientCert env f.clientCert with
        | error e => simp [hc, bind, Except.bind] at h
        | ok c =>
          cases hp : checkProxy env f.proxy with
          | error e => simp [hc, hp, bind, Except.bind] at h
          | ok p =>
            simp only [hc, hp, bind, Except.bind, Except.ok.injEq] at h
            subst h
            exact ⟨hf, by simpa using hne⟩
  · simp at h

/-- Is a socket dialed with `opts` the one a `connect` with this request would
open? `cred` is the digest of the proxy credentials it was dialed with. -/
def matchesDial (env : Platform) (opts : UpstreamOptions) (cred : String) (frame : DialRequest) :
    Bool :=
  opts.dial.host = frame.host && opts.dial.port = frame.port && opts.dial.tls = frame.tls &&
    opts.dial.outgoingAddr.getD "" = frame.outgoingAddr.getD "" &&
    (opts.dial.clientCert.map (·.cert)).getD "" = (frame.clientCert.map (·.cert)).getD "" &&
    sameProxyRoute opts.dial.proxy frame.proxy && cred = proxyCredDigest env frame.proxy

/-- A socket just dialed is the one the same request would open. -/
theorem matchesDial_self (env : Platform) (opts : UpstreamOptions) :
    matchesDial env opts (proxyCredDigest env opts.dial.proxy) opts.dial = true := by
  cases hp : opts.dial.proxy <;> simp [matchesDial, sameProxyRoute, hp]

end Lurker.Engine
