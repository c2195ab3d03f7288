import FhServer.GoText
import FhServer.WebSocketFrames

namespace FhServer.Csrf
open GoBytes GoText

-- A part of a multipart form with the first 513 bytes of its data; none is an error of the reader.
structure Part where
  formName : Bytes
  fileName : Bytes
  data : Option Bytes

-- HMAC-SHA256, what is called of mime, net/url and mime/multipart, the two canonical forms of an origin, which rest on url.Parse
-- and net.ParseIP, and Cookie.Valid.
structure Stdlib where
  mac : (secret text : Bytes) → Bytes
  parseMediaType : Bytes → Option (Bytes × Bytes)
  parseQuery : Bytes → Option (List (Bytes × Bytes))
  nextParts : (body boundary : Bytes) → List (Option Part)
  canonicalConfiguredOrigin : Bytes → Option Bytes
  canonicalRequestOrigin : Bytes → (allowPath : Bool) → Option Bytes
  cookieValid : (name value : Bytes) → Bool

-- freshBinding and freshNonce are what rand.Reader gives while the request is handled.
structure Request where
  method : Bytes
  connectProtocol : Bytes := []
  get : Bytes → Bytes := fun _ => []
  getCookie : Bytes → Bytes := fun _ => []
  body : Bytes := []
  baseURL : Bytes := []
  freshBinding : Option Bytes := none
  freshNonce : Option Bytes := none

structure Key where
  id : Bytes
  secret : Bytes

-- A function of the application gives none for an error.
structure Protector where
  signing : Key
  others : List Key := []
  cookieName : Bytes := ascii "__Host-csrf"
  bindingCookieName : Bytes := ascii "__Host-csrf-bind"
  headerName : Bytes := ascii "X-CSRF-Token"
  formField : Bytes := ascii "_csrf"
  disableBrowserBinding : Bool := false
  sessionBinding : Option (Request → Option Bytes) := none
  extractor : Option (Request → Option Bytes) := none
  requireOriginHeader : Bool := true
  allowMissingOrigin : Bool := false
  allowUntrustedOrigin : Bool := false
  checkFetchMetadata : Bool := true
  protectWebSockets : Bool := true
  trustedOrigins : List Bytes := []
  targetOrigin : Bytes := []
  targetOriginResolver : Option (Request → Option Bytes) := none

inductive Refusal where
  | csrfError
  | internalError
deriving DecidableEq

def maximumTokenLength : Nat := 512

def short (token : Bytes) : Bool := token.length ≤ maximumTokenLength

def safeMethod (method : Bytes) : Bool := (["GET","HEAD","OPTIONS","QUERY"].map ascii).contains method

def isWebSocketHandshake (r : Request) : Bool :=
  equalFold r.connectProtocol (ascii "websocket") || equalFold (trimSpace (r.get (ascii "Upgrade"))) (ascii "websocket") &&
    ((r.get (ascii "Connection")).splitOn 44).any fun token => equalFold (trimSpace token) (ascii "upgrade")

def validKeyID (s : Bytes) : Bool := !s.isEmpty && decide (s.length ≤ 32) && s.all base64Alphabet.contains

def canonical64 (raw : Bytes) : Option Bytes := (base64Decode raw).filter fun decoded => base64Text decoded = raw

def macField (value : Bytes) : Bytes := WebSocket.putUint 8 value.length ++ value

def validateFetchMetadata (r : Request) (explicitlyTrusted : Bool) : Bool :=
  let site := toLower (trimSpace (r.get (ascii "Sec-Fetch-Site")))
  site.isEmpty || (["same-origin","same-site","none"].map ascii).contains site || site == ascii "cross-site" && explicitlyTrusted

def extractMultipartToken (field : Bytes) : List (Option Part) → Option Bytes
  | [] => some []
  | none :: _ => none
  | some part :: rest =>
    if part.formName ≠ field ∨ part.fileName ≠ [] then extractMultipartToken field rest
    else part.data.filter short

namespace Protector

def applicationBinding (p : Protector) (r : Request) : Option Bytes :=
  match p.sessionBinding with
  | none => some []
  | some binding => binding r

def websocket (p : Protector) (r : Request) : Bool := p.protectWebSockets && isWebSocketHandshake r

section
variable (std : Stdlib) (p : Protector) (r : Request)

def computeMAC (secret keyID nonce browserBinding appBinding : Bytes) : Bytes :=
  std.mac secret ([ascii "fh.csrf",ascii "v1",keyID,p.cookieName,p.bindingCookieName,browserBinding,appBinding,nonce].flatMap macField)

def verifyToken (token browserBinding appBinding : Bytes) : Bool :=
  !token.isEmpty && short token && match token.splitOn 46 with
  | [version,keyID,nonce,sig] => decide (version = ascii "v1") && validKeyID keyID &&
    match (p.signing :: p.others).find? (·.id == keyID),canonical64 nonce,canonical64 sig with
    | some key,some nonce,some sig => decide (nonce.length = 32 ∧ sig.length = 32) &&
      sig == p.computeMAC std key.secret keyID nonce browserBinding appBinding
    | _,_,_ => false
  | _ => false

def ensureBrowserBinding : Option Bytes :=
  if p.disableBrowserBinding then some []
  else
    let raw := r.getCookie p.bindingCookieName
    let given := (canonical64 raw).filter fun decoded => raw ≠ [] ∧ decoded.length = 32 ∧ raw.length ≤ 128
    given.or (r.freshBinding.filter fun binding => std.cookieValid p.bindingCookieName (base64Text binding))

def issueToken (browserBinding appBinding : Bytes) : Option Bytes := do
  let nonce ← r.freshNonce
  let sig := p.computeMAC std p.signing.secret p.signing.id nonce browserBinding appBinding
  let token := ascii "v1." ++ p.signing.id ++ ascii "." ++ base64Text nonce ++ ascii "." ++ base64Text sig
  if short token && std.cookieValid p.cookieName token then some token else none

def extractRequestToken : Option Bytes :=
  match p.extractor with
  | some extract => (extract r).filter short
  | none =>
    let token := trimSpace (r.get p.headerName)
    if token ≠ [] then if short token then some token else none
    else match std.parseMediaType (r.get (ascii "Content-Type")) with
      | none => some []
      | some (mediaType,boundary) =>
        if toLower mediaType = ascii "application/x-www-form-urlencoded" then
          ((std.parseQuery r.body).map fun values => (values.lookup p.formField).getD []).filter short
        else if toLower mediaType = ascii "multipart/form-data" then
          if boundary = [] then none else extractMultipartToken p.formField (std.nextParts r.body boundary)
        else some []

def resolveTargetOrigin : Option Bytes :=
  if p.targetOrigin ≠ [] then some p.targetOrigin
  else match p.targetOriginResolver with
    | some resolve => (resolve r).bind std.canonicalConfiguredOrigin
    | none => std.canonicalConfiguredOrigin r.baseURL

def validateRequestOrigin : Option Bool :=
  let rawOrigin := trimSpace (r.get (ascii "Origin"))
  let rawReferer := trimSpace (r.get (ascii "Referer"))
  if rawOrigin = [] ∧ rawReferer = [] then if p.allowMissingOrigin || !p.requireOriginHeader then some false else none
  else if rawOrigin ≠ [] ∧ equalFold rawOrigin (ascii "null") then none
  else do
    let source ← if rawOrigin ≠ [] then std.canonicalRequestOrigin rawOrigin false else std.canonicalRequestOrigin rawReferer true
    let target ← p.resolveTargetOrigin std r
    if source = target then some false else if source ∈ p.trustedOrigins then some true else none

def provenance : Bool :=
  p.allowUntrustedOrigin || (p.validateRequestOrigin std r).any fun trusted => !p.checkFetchMetadata || validateFetchMetadata r trusted

-- What rotateOnBindingChange does is seen in the response's cookies only.
def prepare : Except Refusal (Bytes × Bytes × Bytes) :=
  let cookie := r.getCookie p.cookieName
  if (!safeMethod r.method || p.websocket r) && !p.provenance std r then .error .csrfError
  else match p.ensureBrowserBinding std r,p.applicationBinding r with
    | some binding,some app =>
      if cookie ≠ [] ∧ p.verifyToken std cookie binding app then .ok (binding,app,cookie)
      else match p.issueToken std r binding app with
        | some token => .ok (binding,app,token)
        | none => .error .internalError
    | _,_ => .error .internalError

def middleware : Except Refusal Unit :=
  match p.prepare std r with
  | .error e => .error e
  | .ok (binding,app,token) =>
    if p.websocket r || safeMethod r.method then .ok ()
    else match p.extractRequestToken std r with
      | some provided => if provided ≠ [] ∧ provided = token ∧ p.verifyToken std provided binding app then .ok () else .error .csrfError
      | none => .error .csrfError

def Submitted : Prop := ∃ binding app, p.ensureBrowserBinding std r = some binding ∧ p.applicationBinding r = some app ∧
  p.extractRequestToken std r = some (r.getCookie p.cookieName) ∧ p.verifyToken std (r.getCookie p.cookieName) binding app = true

-- An unsafe request without extended CONNECT, which cannot name a token that is issued only now.
def Plain : Prop := safeMethod r.method = false ∧ r.connectProtocol = [] ∧
  ∀ binding app token, p.ensureBrowserBinding std r = some binding → p.applicationBinding r = some app →
    p.issueToken std r binding app = some token → p.extractRequestToken std r ≠ some token
end

variable {std : Stdlib} {p : Protector} {r : Request}

theorem prepare_ok (prepared : p.prepare std r = .ok (binding,app,token)) :
    p.ensureBrowserBinding std r = some binding ∧ p.applicationBinding r = some app ∧
      (token = r.getCookie p.cookieName ∧ p.verifyToken std token binding app = true ∨ p.issueToken std r binding app = some token) := by
  unfold prepare at prepared
  dsimp only at prepared
  split at prepared
  · cases prepared
  split at prepared
  · rename_i browser application
    split at prepared
    · rename_i valid
      cases prepared
      exact ⟨browser,application,.inl ⟨rfl,valid.2⟩⟩
    · split at prepared
      · rename_i issued
        cases prepared
        exact ⟨browser,application,.inr issued⟩
      · cases prepared
  · cases prepared

theorem middleware_enforces_iff (std : Stdlib) (p : Protector) (r : Request) :
    (p.Plain std r → p.middleware std r = .ok () → p.Submitted std r) ↔
    (p.Plain std r → p.websocket r = true → (p.prepare std r).isOk = true → p.Submitted std r) := by
  refine forall_congr' fun plain => ?_
  obtain ⟨unsafe_,-,fresh⟩ := plain
  cases prepared : p.prepare std r with
  | error e => simp [middleware,prepared,Except.toBool]
  | ok found =>
    obtain ⟨binding,app,token⟩ := found
    obtain ⟨browser,application,source⟩ := prepare_ok prepared
    cases handshake : p.websocket r with
    | true => simp [middleware,prepared,handshake,Except.toBool]
    | false =>
      refine iff_of_true ?_ nofun
      intro ran
      simp only [middleware,prepared,handshake,unsafe_,Bool.or_self,Bool.false_eq_true,if_false] at ran
      split at ran
      · rename_i provided given
        obtain ⟨-,same,valid⟩ : provided ≠ [] ∧ provided = token ∧ p.verifyToken std provided binding app = true := by
          by_contra refused
          rw [if_neg refused] at ran
          cases ran
        rw [same] at given
        rcases source with ⟨rfl,verified⟩ | issued
        · exact ⟨binding,app,browser,application,given,verified⟩
        · exact absurd given (fresh binding app token browser application issued)
      · cases ran
end Protector

-- The library at the origin and the empty media type below, with a constant hash.
def someStdlib : Stdlib where
  mac _ _ := List.replicate 32 0
  parseMediaType _ := none
  parseQuery _ := none
  nextParts _ _ := []
  canonicalConfiguredOrigin raw := if raw = ascii "https://a" then some raw else none
  canonicalRequestOrigin raw _ := if raw = ascii "https://a" then some raw else none
  cookieValid _ _ := true

-- A POST that carries no token but the headers of a WebSocket handshake.
def upgradePost : Request where
  method := ascii "POST"
  get name := if name = ascii "Upgrade" then ascii "websocket" else if name = ascii "Connection" then ascii "keep-alive, Upgrade"
    else if name = ascii "Origin" then ascii "https://a" else []
  baseURL := ascii "https://a"
  freshBinding := some (List.replicate 32 1)
  freshNonce := some (List.replicate 32 2)

def oneKey : Protector := {signing := ⟨ascii "default",List.replicate 32 3⟩}

theorem upgrade_post_unchecked : oneKey.Plain someStdlib upgradePost ∧ oneKey.middleware someStdlib upgradePost = .ok () ∧
    ¬oneKey.Submitted someStdlib upgradePost := by
  have nothing : oneKey.extractRequestToken someStdlib upgradePost = some [] := by decide
  refine ⟨⟨by decide,rfl,fun binding app token _ _ issued provided => ?_⟩,by decide +kernel,?_⟩
  · cases nothing.symm.trans provided
    -- a token is never empty
    rw [Protector.issueToken] at issued
    obtain ⟨nonce,-,made⟩ := Option.bind_eq_some_iff.mp issued
    cases (Option.ite_none_right_eq_some.mp made).2
  · rintro ⟨_,_,_,_,_,valid⟩
    cases valid
end FhServer.Csrf
