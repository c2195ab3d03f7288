import FhServer.GoNumbers
import FhServer.RoutePattern

namespace FhServer
open GoBytes List

-- The content type of a context. Two texts are slices of the package that the writers compare by address.
inductive ContentType where
  | plainTextCT
  | jsonCT
  | own (text : Bytes)
deriving DecidableEq

def ContentType.text : ContentType → Bytes
  | .plainTextCT => ascii "text/plain; charset=utf-8"
  | .jsonCT => ascii "application/json"
  | .own text => text

-- The date is the one of the cached Date line.
structure ResponseConfig where
  sendDateHeader : Bool := false
  sendKeepAliveHeader : Bool := false
  serverHeader : Bytes := []
  strictTypes : Bool := false
  date : Bytes := ascii "Thu, 01 Jan 1970 00:00:00 GMT"

-- The flags that a handler without body transforms and entity tags can meet on an HTTP/1 connection.
structure ResponseFlags where
  captureBody : Bool := false
  hasExtraResp : Bool := false
  head : Bool := false
  non200 : Bool := false
deriving DecidableEq

-- The custom headers are those of the array and then those beyond it.
structure DefaultCtx where
  keepAlive : Bool := true
  forceClose : Bool := false
  flags : ResponseFlags := {}
  status : Int := 200
  contentType : Option ContentType := none
  headers : List Header := []
  cookies : List Bytes := []
  trailers : List Header := []

-- The negative of the least int is itself, and no digit is written of it.
def appendInt (n : Int) : Bytes :=
  if n = 0 then [48]
  else if n = -2^63 then [45]
  else if n < 0 then 45 :: (Numerals.digits 10 n.natAbs).map digitByte
  else (Numerals.digits 10 n.natAbs).map digitByte

def appendHex (n : Nat) : Bytes := if n = 0 then [48] else (Numerals.digits 16 n).map digitByte

def contentLengthSmall (n : Nat) : Bytes := ascii "Content-Length: " ++ appendInt n ++ crlf

def appendContentLengthLine (n : Nat) : Bytes :=
  if n < 1024 then contentLengthSmall n else ascii "Content-Length: " ++ (appendInt n ++ crlf)

def statusReasons : List (Int × String) :=
  [(100,"Continue"),(101,"Switching Protocols"),(102,"Processing"),(103,"Early Hints"),(200,"OK"),(201,"Created"),
   (202,"Accepted"),(203,"Non-Authoritative Information"),(204,"No Content"),(205,"Reset Content"),(206,"Partial Content"),
   (207,"Multi-Status"),(208,"Already Reported"),(226,"IM Used"),(300,"Multiple Choices"),(301,"Moved Permanently"),
   (302,"Found"),(303,"See Other"),(304,"Not Modified"),(305,"Use Proxy"),(307,"Temporary Redirect"),(308,"Permanent Redirect"),
   (400,"Bad Request"),(401,"Unauthorized"),(402,"Payment Required"),(403,"Forbidden"),(404,"Not Found"),
   (405,"Method Not Allowed"),(406,"Not Acceptable"),(407,"Proxy Authentication Required"),(408,"Request Timeout"),
   (409,"Conflict"),(410,"Gone"),(411,"Length Required"),(412,"Precondition Failed"),(413,"Payload Too Large"),
   (414,"URI Too Long"),(415,"Unsupported Media Type"),(416,"Range Not Satisfiable"),(417,"Expectation Failed"),
   (418,"I'm a teapot"),(421,"Misdirected Request"),(422,"Unprocessable Entity"),(423,"Locked"),(424,"Failed Dependency"),
   (425,"Too Early"),(426,"Upgrade Required"),(428,"Precondition Required"),(429,"Too Many Requests"),
   (431,"Request Header Fields Too Large"),(451,"Unavailable For Legal Reasons"),(500,"Internal Server Error"),
   (501,"Not Implemented"),(502,"Bad Gateway"),(503,"Service Unavailable"),(504,"Gateway Timeout"),
   (505,"HTTP Version Not Supported"),(506,"Variant Also Negotiates"),(507,"Insufficient Storage"),(508,"Loop Detected"),
   (510,"Not Extended"),(511,"Network Authentication Required")]

def statusReason (code : Int) : String := ((statusReasons.find? fun entry => entry.1 = code).map Prod.snd).getD ""

def appendStatusLine (code : Int) : Bytes :=
  if code = 200 then ascii "HTTP/1.1 200 OK" ++ crlf
  else if code = 404 then ascii "HTTP/1.1 404 Not Found" ++ crlf
  else if code = 400 then ascii "HTTP/1.1 400 Bad Request" ++ crlf
  else if code = 500 then ascii "HTTP/1.1 500 Internal Server Error" ++ crlf
  else ascii "HTTP/1.1 " ++ (appendInt code ++ (32 :: (ascii (statusReason code) ++ crlf)))

def responseBodyAllowed (status : Int) : Bool := decide (200 ≤ status) && decide (status ≠ 204) && decide (status ≠ 205) && decide (status ≠ 304)

-- The loop over the parts between commas ends with an empty rest.
def headerTokenLoop (token : Bytes) : Nat → Bytes → Bool
  | 0,_ => false
  | rounds+1,value =>
    if value = [] then false
    else
      let part := value.takeWhile (· != 44)
      bytesEqualFold (trimRight (part.dropWhile isOWS)) token || headerTokenLoop token rounds (value.drop (part.length+1))

def headerValueContainsToken (header token : Bytes) : Bool := headerTokenLoop token (header.length+1) header

def breaksLine (value : Bytes) : Bool := value.any fun c => c == 0 || c == cr || c == lf

def reservedHeaders : List String :=
  ["Content-Length","Transfer-Encoding","Connection","Keep-Alive","Proxy-Authorization","TE","Trailer","Upgrade","Proxy-Connection"]

def changeHeader (key : Bytes) (change : Bytes → Bytes) : List Header → Option (List Header)
  | [] => none
  | h :: headers =>
    if bytesEqualFold h.key key then some ({h with value := change h.value} :: headers)
    else (changeHeader key change headers).map (h :: ·)

namespace DefaultCtx
variable (cfg : ResponseConfig) (c : DefaultCtx)

def extra : DefaultCtx := {c with flags := {c.flags with hasExtraResp := true}}

def set (key value : Bytes) : DefaultCtx :=
  if !validToken key || breaksLine value then c
  else if 16*1024 < value.length then c
  else if reservedHeaders.any fun name => bytesEqualFold key (ascii name) then c
  else if bytesEqualFold key (ascii "Content-Type") then {c with contentType := some (.own value)}
  else
    match changeHeader key (fun _ => value) c.headers with
    | some headers => {c with headers := headers}
    | none => ({c with headers := c.headers ++ [⟨key,value⟩]} : DefaultCtx).extra

def append (key value : Bytes) : DefaultCtx :=
  if !validToken key || breaksLine value then c
  else
    match changeHeader key (fun old => if headerValueContainsToken old value then old else old ++ ([44,32] ++ value)) c.headers with
    | some headers => {c with headers := headers}
    | none => c.set key value

def type (mime : Bytes) : DefaultCtx :=
  if breaksLine mime then c
  else if cfg.strictTypes && !mime.contains 47 then c
  else {c with contentType := some (.own mime)}

def setTrailer (key value : Bytes) : DefaultCtx :=
  if !validToken key || breaksLine value then c
  else
    match changeHeader key (fun _ => value) c.trailers with
    | some trailers => {c with trailers := trailers}
    | none => ({c with trailers := c.trailers ++ [⟨key,value⟩]} : DefaultCtx).extra

def setCookie (text : Bytes) : DefaultCtx := ({c with cookies := c.cookies ++ [text]} : DefaultCtx).extra

def putStatus (code : Int) : DefaultCtx :=
  if code = 200 then {c with status := code} else {c with status := code, flags := {c.flags with non200 := true}}

def setStatus (code : Int) : DefaultCtx := c.putStatus (if code < 100 ∨ 999 < code then 500 else code)

def dateLine : Bytes := if cfg.sendDateHeader then ascii "Date: " ++ (cfg.date ++ crlf) else []

def contentTypeLine : Bytes :=
  match c.contentType with
  | some type => ascii "Content-Type: " ++ (type.text ++ crlf)
  | none => []

def fieldLines (headers : List Header) : Bytes := headers.flatMap fun h => h.key ++ (58 :: 32 :: (h.value ++ crlf))

def appendSecurityHeaders : Bytes := if cfg.serverHeader ≠ [] then ascii "Server: " ++ (cfg.serverHeader ++ crlf) else []

def connectionLine : Bytes :=
  if c.keepAlive && !c.forceClose then (if cfg.sendKeepAliveHeader then ascii "Connection: keep-alive" ++ crlf else [])
  else ascii "Connection: close" ++ crlf

def hasTrailers : Bool := !c.trailers.isEmpty

def framingLines (length : Nat) : Bytes :=
  if responseBodyAllowed c.status && c.hasTrailers then
    ascii "Transfer-Encoding: chunked" ++ crlf ++ (ascii "Trailer: " ++ ([44].intercalate (c.trailers.map Header.key) ++ crlf))
  else if responseBodyAllowed c.status then appendContentLengthLine length
  else []

def payload (body : Bytes) : Bytes :=
  if responseBodyAllowed c.status && !c.flags.head then
    if c.hasTrailers then
      (if body ≠ [] then appendHex body.length ++ (crlf ++ (body ++ crlf)) else []) ++ (ascii "0" ++ (crlf ++ (fieldLines c.trailers ++ crlf)))
    else body
  else []

-- What writeResponse and writeResponseString put together past the direct writers.
def assemble (body : Bytes) : Bytes :=
  appendStatusLine c.status ++ (dateLine cfg ++ (c.contentTypeLine ++ (fieldLines c.headers ++ (appendSecurityHeaders cfg ++
    (c.cookies.flatMap (fun text => ascii "Set-Cookie: " ++ (text ++ crlf)) ++ (c.framingLines body.length ++ (c.connectionLine cfg ++
      (crlf ++ c.payload body))))))))

def canDirectWrite200 : Bool := decide (c.status = 200) && decide (c.flags = {})

def directPlain200Headers (length : Nat) : Bytes :=
  ascii "HTTP/1.1 200 OK" ++ (crlf ++ (ascii "Content-Type: text/plain; charset=utf-8" ++ (crlf ++ (contentLengthSmall length ++ crlf))))

def directJSON200Headers (length : Nat) : Bytes :=
  ascii "HTTP/1.1 200 OK" ++ (crlf ++ (ascii "Content-Type: application/json" ++ (crlf ++ (contentLengthSmall length ++ crlf))))

def bareHeaders : Bool := !cfg.sendDateHeader && !cfg.sendKeepAliveHeader && c.keepAlive && !c.forceClose

def directHeader (length : Nat) : Bytes :=
  ascii "HTTP/1.1 200 OK" ++ (crlf ++ (dateLine cfg ++ (c.contentTypeLine ++ (appendSecurityHeaders cfg ++ (appendContentLengthLine length ++
    (c.connectionLine cfg ++ crlf))))))

def writeDirect200String (s : Bytes) : Bytes :=
  if decide (s.length < 256) && c.bareHeaders cfg && decide (c.contentType = some .plainTextCT) then directPlain200Headers s.length ++ s
  else c.directHeader cfg s.length ++ s

def writeDirect200Bytes (body : Bytes) : Bytes := c.directHeader cfg body.length ++ body

def writeResponseString (s : Bytes) : Bytes := if c.canDirectWrite200 then c.writeDirect200String cfg s else c.assemble cfg s

def writeResponse (body : Bytes) : Bytes := if c.canDirectWrite200 then c.writeDirect200Bytes cfg body else c.assemble cfg body
end DefaultCtx

inductive ResponseCall where
  | set (key value : Bytes)
  | append (key value : Bytes)
  | type (mime : Bytes)
  | setTrailer (key value : Bytes)
  | status (code : Int)

def ResponseCall.run (cfg : ResponseConfig) (c : DefaultCtx) : ResponseCall → DefaultCtx
  | .set key value => c.set key value
  | .append key value => c.append key value
  | .type mime => c.type cfg mime
  | .setTrailer key value => c.setTrailer key value
  | .status code => c.setStatus code

inductive ResponseSend where
  | sendString (s : Bytes)
  | sendBytes (b : Bytes)
  | sendStatus (code : Int)
  | redirect (location : Bytes) (code : Option Int)

namespace ResponseSend

def redirectRefused (location : Bytes) : Bool :=
  let lower := GoText.toLower location
  decide (8192 < location.length) || (ascii "javascript:").isPrefixOf lower || (ascii "data:").isPrefixOf lower ||
    (ascii "vbscript:").isPrefixOf lower || (ascii "//").isPrefixOf location

-- The context that the writer meets. A refused Redirect writes nothing and returns an error.
def prepared (c : DefaultCtx) : ResponseSend → Option DefaultCtx
  | .sendString _ => some {c with contentType := some (c.contentType.getD .plainTextCT)}
  | .sendBytes _ => some c
  | .sendStatus code => some (c.putStatus code)
  | .redirect location code =>
    if redirectRefused location then none
    else some (({c with status := code.getD 302, flags := {c.flags with non200 := true}} : DefaultCtx).set (ascii "Location") location)

def body : ResponseSend → Bytes
  | .sendString s => s
  | .sendBytes b => b
  | .sendStatus _ | .redirect _ _ => []

def writes (cfg : ResponseConfig) (c : DefaultCtx) : ResponseSend → Bytes
  | .sendString s => c.writeResponseString cfg s
  | send => c.writeResponse cfg send.body
end ResponseSend

theorem appendInt_nat (n : Nat) : appendInt n = itoa n := by
  rw [appendInt,itoa]
  split
  · rename_i zero
    rw [if_pos (Int.natCast_eq_zero.mp zero)]
  · rename_i more
    rw [if_neg (by lia),if_neg (by lia),if_neg (by lia),Int.natAbs_natCast]

section
variable {key value : Bytes} {change : Bytes → Bytes} {headers after : List Header}

theorem changeHeader_keeps {P : Header → Prop} (all : ∀ h ∈ headers, P h) (changed : ∀ h ∈ headers, P {h with value := change h.value})
    (got : changeHeader key change headers = some after) : ∀ h ∈ after, P h := by
  induction headers generalizing after with
  | nil => cases got
  | cons h headers ih =>
    rw [changeHeader] at got
    split at got
    · cases got
      exact forall_mem_cons.mpr ⟨changed h mem_cons_self,(forall_mem_cons.mp all).2⟩
    · obtain ⟨rest,found,rfl⟩ := Option.map_eq_some_iff.mp got
      obtain ⟨first,all⟩ := forall_mem_cons.mp all
      exact forall_mem_cons.mpr ⟨first,ih all (forall_mem_cons.mp changed).2 found⟩

theorem changeHeader_nil (got : changeHeader key change headers = some after) : headers ≠ [] := by
  rintro rfl
  cases got
end

def FreeName (key : Bytes) : Prop := validToken key = true ∧ (reservedHeaders.any fun name => bytesEqualFold key (ascii name)) = false

namespace DefaultCtx

-- What no call can break: the lines of a context are lines, and what is not in every answer is flagged.
structure Clean (c : DefaultCtx) : Prop where
  headers : ∀ h ∈ c.headers, FreeName h.key ∧ breaksLine h.value = false
  trailers : ∀ h ∈ c.trailers, validToken h.key = true ∧ breaksLine h.value = false
  contentType : ∀ t ∈ c.contentType, breaksLine t.text = false
  flagged : c.headers ≠ [] ∨ c.trailers ≠ [] ∨ c.cookies ≠ [] → c.flags.hasExtraResp = true

theorem clean_fresh (keepAlive forceClose : Bool) (flags : ResponseFlags) :
    DefaultCtx.Clean {keepAlive := keepAlive, forceClose := forceClose, flags := flags} where
  headers := nofun
  trailers := nofun
  contentType := nofun
  flagged := fun some => by rcases some with some | some | some <;> exact absurd rfl some

section
variable {cfg : ResponseConfig} {c : DefaultCtx} {key value : Bytes}

theorem breaksLine_append : breaksLine (one ++ two) = (breaksLine one || breaksLine two) := any_append

theorem setter_free (go : ¬(!validToken key || breaksLine value) = true) : validToken key = true ∧ breaksLine value = false := by
  simpa using go

section
variable (clean : c.Clean)
include clean

theorem Clean.set : (c.set key value).Clean := by
  rw [DefaultCtx.set]
  split
  · exact clean
  rename_i free
  obtain ⟨token,plain⟩ := setter_free free
  split
  · exact clean
  split
  · exact clean
  rename_i unreserved
  split
  · refine {clean with contentType := ?_}
    rintro t ⟨⟩
    exact plain
  have name : FreeName key := ⟨token,Bool.eq_false_iff.mpr unreserved⟩
  split
  · rename_i after got
    have kept := changeHeader_keeps clean.headers (fun h mem => ⟨(clean.headers h mem).1,plain⟩) got
    exact {clean with headers := kept, flagged := fun _ => clean.flagged (.inl (changeHeader_nil got))}
  · exact {clean with headers := forall_mem_append.mpr ⟨clean.headers,forall_mem_singleton.mpr ⟨name,plain⟩⟩, flagged := fun _ => rfl}

theorem Clean.append : (c.append key value).Clean := by
  rw [DefaultCtx.append]
  split
  · exact clean
  rename_i free
  obtain ⟨token,plain⟩ := setter_free free
  split
  · rename_i after got
    have kept := changeHeader_keeps clean.headers (fun h mem => ⟨(clean.headers h mem).1,by
      split
      · exact (clean.headers h mem).2
      · rw [breaksLine_append,breaksLine_append,(clean.headers h mem).2,plain]
        rfl⟩) got
    exact {clean with headers := kept, flagged := fun _ => clean.flagged (.inl (changeHeader_nil got))}
  · exact clean.set

theorem Clean.type : (c.type cfg mime).Clean := by
  rw [DefaultCtx.type]
  split
  · exact clean
  rename_i plain
  split
  · exact clean
  refine {clean with contentType := ?_}
  rintro t ⟨⟩
  exact Bool.eq_false_iff.mpr plain

theorem Clean.setTrailer : (c.setTrailer key value).Clean := by
  rw [DefaultCtx.setTrailer]
  split
  · exact clean
  rename_i free
  have free := setter_free free
  split
  · rename_i after got
    have kept := changeHeader_keeps clean.trailers (fun h mem => ⟨(clean.trailers h mem).1,free.2⟩) got
    exact {clean with trailers := kept, flagged := fun _ => clean.flagged (.inr (.inl (changeHeader_nil got)))}
  · exact {clean with trailers := forall_mem_append.mpr ⟨clean.trailers,forall_mem_singleton.mpr free⟩, flagged := fun _ => rfl}

theorem Clean.setCookie : (c.setCookie text).Clean := {clean with flagged := fun _ => rfl}

theorem Clean.putStatus : (c.putStatus code).Clean := by
  rw [DefaultCtx.putStatus]
  split
  · exact {clean with}
  · exact {clean with}
end

theorem Clean.run {call : ResponseCall} (clean : c.Clean) : (call.run cfg c).Clean := by
  cases call with
  | set key value => exact clean.set
  | append key value => exact clean.append
  | type mime => exact clean.type
  | setTrailer key value => exact clean.setTrailer
  | status code => exact clean.putStatus

theorem Clean.runs {calls : List ResponseCall} (clean : c.Clean) : (calls.foldl (ResponseCall.run cfg) c).Clean := by
  induction calls generalizing c with
  | nil => exact clean
  | cons call calls ih => exact ih clean.run
end
section
variable {cfg : ResponseConfig} {c : DefaultCtx}
section
variable (clean : c.Clean) (can : c.canDirectWrite200 = true)
include clean can

theorem Clean.direct :
    c.status = 200 ∧ c.flags = {} ∧ c.headers = [] ∧ c.trailers = [] ∧ c.cookies = [] := by
  rw [canDirectWrite200,Bool.and_eq_true,decide_eq_true_eq,decide_eq_true_eq] at can
  obtain ⟨status,flags⟩ := can
  have unflagged : c.flags.hasExtraResp ≠ true := by
    rw [flags]
    exact Bool.false_ne_true
  refine ⟨status,flags,?_,?_,?_⟩
  · by_contra some
    exact unflagged (clean.flagged (.inl some))
  · by_contra some
    exact unflagged (clean.flagged (.inr (.inl some)))
  · by_contra some
    exact unflagged (clean.flagged (.inr (.inr some)))

theorem directHeader_assemble (body : Bytes) :
    c.directHeader cfg body.length ++ body = c.assemble cfg body := by
  obtain ⟨status,flags,headers,trailers,cookies⟩ := clean.direct can
  have framing : c.framingLines body.length = appendContentLengthLine body.length := by
    rw [framingLines,hasTrailers,status,trailers]
    rfl
  have payload : c.payload body = body := by
    rw [DefaultCtx.payload,hasTrailers,status,flags,trailers]
    rfl
  rw [directHeader,assemble,status,headers,cookies,framing,payload]
  simp [appendStatusLine,fieldLines]

theorem directPlain_assemble (bare : c.bareHeaders cfg = true)
    (plain : c.contentType = some .plainTextCT) (short : s.length < 256) :
    directPlain200Headers s.length ++ s = c.assemble {cfg with serverHeader := []} s := by
  simp only [bareHeaders,Bool.and_eq_true,Bool.not_eq_true'] at bare
  obtain ⟨⟨⟨date,keepAlive⟩,alive⟩,forced⟩ := bare
  rw [← directHeader_assemble clean can,directHeader,directPlain200Headers,appendContentLengthLine,if_pos (by lia),dateLine,contentTypeLine,plain,
    connectionLine]
  simp [date,keepAlive,alive,forced,appendSecurityHeaders,ContentType.text,ascii]
end
end

theorem calls_keep_lines (cfg : ResponseConfig) (calls : List ResponseCall) (keepAlive forceClose : Bool) (flags : ResponseFlags) :
    Clean (calls.foldl (ResponseCall.run cfg) {keepAlive := keepAlive, forceClose := forceClose, flags := flags}) :=
  (clean_fresh keepAlive forceClose flags).runs
end DefaultCtx
end FhServer
