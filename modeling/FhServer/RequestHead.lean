import FhServer.RequestStream

namespace FhServer
open GoBytes List

inductive HeadError where
  | malformedRequest
  | requestLineTooLarge
  | versionNotSupported
deriving DecidableEq

structure RequestHeader where
  method : Bytes
  uri : Bytes
  requestTarget : Bytes
  path : Bytes
  queryString : Bytes
  proto : Bytes
  host : Bytes
  targetAuthority : Bytes
  contentType : Bytes
  expect : Bytes
  upgrade : Bytes
  http2Settings : Bytes
  contentLength : Nat
  hasContentLength : Bool
  keepAlive : Bool
  chunked : Bool
  unsupportedTransferEncoding : Bool
  headers : List Header
deriving DecidableEq, Inhabited

def strHTTP11 : Bytes := ascii "HTTP/1.1"
def strHTTP10 : Bytes := ascii "HTTP/1.0"
def strHeaderEnd : Bytes := crlf ++ crlf

def findHeaderEnd (b : Bytes) : Option Nat := index strHeaderEnd b

namespace RequestHead

def schemeByte (c : UInt8) : Bool :=
  (97 ≤ c && c ≤ 122) || (65 ≤ c && c ≤ 90) || (48 ≤ c && c ≤ 57) || c == 43 || c == 45 || c == 46

-- What the request target routes to: the part used as URI, whether that is the
-- whole target, and the authority it names.
structure RouteTarget where
  route : Bytes
  same : Bool
  authority : Bytes

def absoluteForm (target : Bytes) (scheme : Nat) : RouteTarget :=
  let rest := target.drop (scheme+3)
  let authority := rest.takeWhile (fun c => c != 47 && c != 63)
  let after := rest.drop authority.length
  ⟨if after.head? = some 47 then after else [],false,authority⟩

def routeTarget (method target : Bytes) : Option RouteTarget :=
  if target.head? = some 47 then some ⟨target,true,[]⟩
  else if method = ascii "OPTIONS" ∧ target = ascii "*" then some ⟨target,true,[]⟩
  else if method = ascii "CONNECT" ∧ (47 : UInt8) ∉ target then some ⟨target,true,target⟩
  else
    match index (ascii "://") target with
    | none => none
    | some scheme =>
      if 0 < scheme ∧ scheme + 3 < target.length ∧ (target.take scheme).all schemeByte then
        some (absoluteForm target scheme)
      else none

def targetByte (c : UInt8) : Bool := !(c ≤ 0x20 || c == 0x7f || c == 35)

-- Path and query. An absolute target without a path routes to "/" but keeps the
-- query of the whole target.
def splitQuery (target : Bytes) (found : RouteTarget) : Bytes × Bytes :=
  if found.route = [] then
    ([47],match indexByte target 63 with | some i => target.drop (i+1) | none => [])
  else
    match indexByte found.route 63 with
    | some i => (found.route.take i,found.route.drop (i+1))
    | none => (found.route,[])

-- The request line without its CRLF. A limit of zero or less is none.
def requestLine (buf : Bytes) (maxLineSize : Int) : Except HeadError Bytes :=
  let limit := if 0 < maxLineSize ∧ maxLineSize + 2 < buf.length then (maxLineSize + 2).toNat else buf.length
  match indexByte (buf.take limit) lf with
  | none => if 0 < maxLineSize ∧ maxLineSize < buf.length then .error .requestLineTooLarge else .error .malformedRequest
  | some nl =>
    let line := buf.take (nl - 1)
    if nl = 0 ∨ buf[nl-1]? ≠ some cr then .error .malformedRequest
    else if 0 < maxLineSize ∧ maxLineSize < line.length then .error .requestLineTooLarge
    else .ok line

def parseLine (line : Bytes) : Except HeadError RequestHeader :=
  match indexByte line 32 with
  | none => .error .malformedRequest
  | some sp1 =>
    let method := line.take sp1
    if sp1 = 0 ∨ !validToken method then .error .malformedRequest
    else
      match indexByte (line.drop (sp1+1)) 32 with
      | none => .error .malformedRequest
      | some rel =>
        let target := (line.drop (sp1+1)).take rel
        let proto := line.drop (sp1+1+rel+1)
        if rel = 0 ∨ proto = [] then .error .malformedRequest
        else if proto ≠ strHTTP11 ∧ proto ≠ strHTTP10 then .error .versionNotSupported
        else
          match routeTarget method target with
          | none => .error .malformedRequest
          | some found =>
            if !target.all targetByte then .error .malformedRequest
            else
              let query := splitQuery target found
              .ok {
                method:=method,uri:=found.route,requestTarget:=target,path:=query.1,queryString:=query.2,proto:=proto,
                host:=found.authority,targetAuthority:=found.authority,contentType:=[],expect:=[],upgrade:=[],
                http2Settings:=[],contentLength:=0,hasContentLength:=false,keepAlive:=proto = strHTTP11,
                chunked:=false,unsupportedTransferEncoding:=false,headers:=[]}

def parseRequestLine (buf : Bytes) (maxLineSize : Int) : Except HeadError (RequestHeader × Nat) :=
  match requestLine buf maxLineSize with
  | .error error => .error error
  | .ok line => (parseLine line).map fun header => (header,line.length+2)

def validPort (port : Bytes) : Bool :=
  !port.isEmpty && port.length ≤ 5 && port.all (fun c => 48 ≤ c && c ≤ 57) &&
    port.foldl (fun n c => n*10 + (c.toNat - 48)) 0 ≤ 65535

def hostByte (c : UInt8) : Bool := !((ascii " \t,/\\@#?").contains c || c < 0x21 || c == 0x7f)

def validHostField (host : Bytes) : Bool :=
  if host = [] ∨ 255 < host.length ∨ !host.all hostByte then false
  else if host.head? = some 91 then
    match indexByte host 93 with
    | none => false
    | some close =>
      let rest := host.drop (close+1)
      1 < close && (rest.isEmpty || (1 < rest.length && rest.head? = some 58 && validPort (rest.drop 1)))
  else if host.contains 91 || host.contains 93 || 1 < host.count 58 then false
  else
    match indexByte host 58 with
    | none => true
    | some colon => colon != 0 && validPort (host.drop (colon+1))

inductive KnownHeader where
  | none
  | host
  | contentType
  | contentLength
  | connection
  | transferEncoding
  | expect
  | upgrade
  | http2Settings
deriving DecidableEq

def lowerN (b : Bytes) (s : String) : Bool := b.length == s.length && b.map (· ||| 0x20) == ascii s

def knownHeader (k : Bytes) : KnownHeader :=
  if lowerN k "host" then .host
  else if lowerN k "connection" then .connection
  else if lowerN k "content-type" then .contentType
  else if lowerN k "expect" then .expect
  else if lowerN k "upgrade" then .upgrade
  else if lowerN k "content-length" then .contentLength
  else if lowerN k "http2-settings" then .http2Settings
  else if lowerN k "transfer-encoding" then .transferEncoding
  else .none

def strEqFold (b : Bytes) (s : String) : Bool := bytesEqualFold b (ascii s)

-- An empty part equals no token, so the one after a trailing comma may stay.
def hasHeaderToken (value : Bytes) (token : String) : Bool :=
  (value.splitOn 44).any fun part => strEqFold (trimRight (part.dropWhile isOWS)) token

def applyConnectionHeader (h : RequestHeader) (val : Bytes) : RequestHeader :=
  if val.length = 5 then (if lowerN val "close" then {h with keepAlive:=false} else h)
  else if lowerN val "keep-alive" then (if h.proto = strHTTP10 then {h with keepAlive:=true} else h)
  else if hasHeaderToken val "close" then {h with keepAlive:=false}
  else if h.proto = strHTTP10 ∧ hasHeaderToken val "keep-alive" then {h with keepAlive:=true}
  else h

def parseContentLength (b : Bytes) : Option Nat :=
  if b = [] then none
  else b.foldl (fun acc c => acc.bind fun n =>
    if c < 48 || 57 < c then none
    else if (maxInt - (c.toNat - 48)) / 10 < n then none else some (n*10 + (c.toNat - 48))) (some 0)

def codingByte (c : UInt8) : Bool := !(c ≤ 0x20 || c ≥ 0x7f || forbiddenTokenByte c)

def parseTransferCoding (val : Bytes) : Option Bool :=
  let parts := (val.splitOn 44).map trimOWS
  if parts.all fun part => part ≠ [] && part.all codingByte then
    some (match parts with | [part] => strEqFold part "chunked" | _ => false)
  else none

structure HeaderState where
  header : RequestHeader
  seenHost : Bool
  seenTransferEncoding : Bool

-- bytes.EqualFold is the standard library's, over Unicode.
def applyHeader (equalFold : Bytes → Bytes → Bool) (st : HeaderState) (key val : Bytes) : Option HeaderState :=
  match knownHeader key with
  | .host =>
    if st.seenHost || !validHostField val then none
    else if st.header.targetAuthority ≠ [] then
      if equalFold st.header.targetAuthority val then
        some {st with header:={st.header with host:=st.header.targetAuthority},seenHost:=true}
      else none
    else some {st with header:={st.header with host:=val},seenHost:=true}
  | .contentType => some {st with header:={st.header with contentType:=val}}
  | .contentLength =>
    match parseContentLength val with
    | none => none
    | some n =>
      if st.header.hasContentLength ∧ n ≠ st.header.contentLength then none
      else some {st with header:={st.header with contentLength:=n,hasContentLength:=true}}
  | .connection => some {st with header:=applyConnectionHeader st.header val}
  | .transferEncoding =>
    if st.seenTransferEncoding then none
    else (parseTransferCoding val).map fun chunked =>
      {st with header:={st.header with chunked:=chunked,unsupportedTransferEncoding:=!chunked},seenTransferEncoding:=true}
  | .expect => some {st with header:={st.header with expect:=val}}
  | .upgrade => some {st with header:={st.header with upgrade:=val}}
  | .http2Settings => some {st with header:={st.header with http2Settings:=val}}
  | .none => some st

def headerLine (equalFold : Bytes → Bytes → Bool) (maxCount : Nat) (st : HeaderState) (line : Bytes) : Option HeaderState :=
  match indexByte line 58 with
  | none => none
  | some colon =>
    let key := line.take colon
    let val := trimOWSRight ((line.drop (colon+1)).dropWhile isOWS)
    if colon = 0 || !validToken key || val.any controlByte then none
    else
      (applyHeader equalFold st key val).bind fun st =>
        if maxCount ≤ st.header.headers.length then none
        else some {st with header:={st.header with headers:=st.header.headers ++ [⟨key,val⟩]}}

-- The lines up to the blank one; every round uses up at least one byte.
def headerLines (equalFold : Bytes → Bytes → Bool) (maxCount : Nat) : Nat → HeaderState → Bytes → Option (HeaderState × Bytes)
  | 0,_,_ => none
  | rounds+1,st,src =>
    if src = [] then none
    else if crlf.isPrefixOf src then some (st,src.drop 2)
    else if src.head? = some 32 ∨ src.head? = some 9 then none
    else
      match indexByte src lf with
      | none => none
      | some nl =>
        if nl = 0 ∨ src[nl-1]? ≠ some cr then none
        else
          (headerLine equalFold maxCount st (src.take (nl-1))).bind fun st =>
            headerLines equalFold maxCount rounds st (src.drop (nl+1))

def parseHeadersWithLimit (equalFold : Bytes → Bytes → Bool) (src : Bytes) (h : RequestHeader) (maxCount : Int) :
    Option (RequestHeader × Nat) :=
  let count := if maxCount ≤ 0 then maxHeaders else maxCount.toNat
  (headerLines equalFold count (src.length+1) ⟨{h with headers:=[]},false,false⟩ src).bind fun (st,rest) =>
    if st.header.chunked ∧ st.header.hasContentLength then none
    else if st.header.proto = strHTTP11 ∧ !st.seenHost then none
    else some (st.header,src.length - rest.length)

theorem requestLine_iff {max : Int} : requestLine buf max = .ok line ↔
    ∃ rest, buf = line ++ crlf ++ rest ∧ lf ∉ line ∧ (0 < max → (line.length : Int) ≤ max) := by
  unfold requestLine
  simp only
  generalize limited : (if 0 < max ∧ max + 2 < buf.length then (max + 2).toNat else buf.length) = limit
  constructor
  · intro got
    split at got
    · split at got <;> cases got
    rename_i nl found
    obtain ⟨text,rest,eq,free,rfl⟩ := indexByte_split found
    split at got
    · cases got
    rename_i ended
    split at got
    · cases got
    rename_i fits
    cases got
    have whole : buf = text ++ lf :: (rest ++ buf.drop limit) := by rw [← cons_append,← append_assoc,← eq,take_append_drop]
    simp only [not_or,not_not] at ended
    have last : text.getLast? = some cr := by rw [List.getLast?_eq_getElem?,← ended.2,whole,List.getElem?_append_left (by lia)]
    obtain ⟨line,rfl⟩ := List.getLast?_eq_some_iff.mp last
    have start : buf.take ((line ++ [cr]).length - 1) = line := by rw [whole]; simp
    rw [start] at fits ⊢
    exact ⟨rest ++ buf.drop limit,whole.trans (by simp [crlf]),fun mem => free (by simp [mem]),by lia⟩
  · rintro ⟨rest,rfl,free,fits⟩
    have length : (line ++ crlf ++ rest).length = line.length + 2 + rest.length := by
      simp only [length_append,crlf,length_cons,length_nil]
    have reaches : line.length + 2 ≤ limit := by rw [← limited]; split <;> lia
    have part : (line ++ crlf ++ rest).take limit = (line ++ [cr]) ++ lf :: rest.take (limit - (line.length + 2)) := by
      have shape : line ++ crlf ++ rest = (line ++ [cr,lf]) ++ rest := rfl
      rw [shape,take_append,take_of_length_le (by simpa using reaches)]
      simp
    have found : indexByte ((line ++ crlf ++ rest).take limit) lf = some (line.length + 1) := by
      rw [part,indexByte_first (by simpa [cr,lf] using free)]
      simp
    have start : (line ++ crlf ++ rest).take (line.length + 1 - 1) = line := by simp
    have before : (line ++ crlf ++ rest)[line.length + 1 - 1]? = some cr := by simp [crlf]
    rw [found]
    simp only [start,before]
    rw [if_neg (by simp),if_neg (by lia)]
end RequestHead
end FhServer
