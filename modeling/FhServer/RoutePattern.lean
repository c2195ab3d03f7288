import FhServer.GoText

namespace FhServer
open GoBytes
namespace GoText

def decimal (b : Bytes) : Option Nat :=
  if b.isEmpty then none
  else b.foldl (fun acc c => acc.bind fun n => if 48 ≤ c && c ≤ 57 then some (n*10+(c.toNat-48)) else none) (some 0)

-- strconv.Atoi and strconv.ParseUint(s,10,64) without an error.
def isInt (b : Bytes) : Bool :=
  match b with
  | 45 :: digits => (decimal digits).any fun n => decide (n ≤ 2^63)
  | 43 :: digits => (decimal digits).any fun n => decide (n < 2^63)
  | digits => (decimal digits).any fun n => decide (n < 2^63)

def isUint (b : Bytes) : Bool := (decimal b).any fun n => decide (n < 2^64)

def lastIndexByte (b : Bytes) (c : UInt8) : Option Nat := (indexByte b.reverse c).map fun i => b.length-1-i
end GoText
open GoText

-- The regexp package: which expressions compile, and which texts they match.
structure GoRegexp where
  compiles : Bytes → Bool
  matchString : Bytes → Bytes → Bool

inductive ConstraintKind where
  | none | int | uint | alpha | alphanumeric | uuid | regex
deriving DecidableEq

structure ParamConstraint where
  kind : ConstraintKind := .none
  raw : Bytes := []
deriving DecidableEq

def isAlpha (c : UInt8) : Bool := (97 ≤ c && c ≤ 122) || (65 ≤ c && c ≤ 90)
def isDigit (c : UInt8) : Bool := 48 ≤ c && c ≤ 57
def isHexDigit (c : UInt8) : Bool := isDigit c || (97 ≤ c && c ≤ 102) || (65 ≤ c && c ≤ 70)

def isUUID (b : Bytes) : Bool :=
  b.length == 36 && b.zipIdx.all fun (c,i) => if [8,13,18,23].contains i then c == 45 else isHexDigit c

section
variable (re : GoRegexp)

def ParamConstraint.matches (pc : ParamConstraint) (val : Bytes) : Bool :=
  match pc.kind with
  | .none => true
  | .int => isInt val
  | .uint => isUint val
  | .alpha => !val.isEmpty && val.all isAlpha
  | .alphanumeric => !val.isEmpty && val.all fun c => isAlpha c || isDigit c
  | .uuid => isUUID val
  | .regex => re.matchString (ascii "^" ++ pc.raw ++ ascii "$") val

-- A text in angle brackets that names no kind of its own is a regular expression, and is dropped when that does not compile.
def constraintOf (cStr : Bytes) : ParamConstraint :=
  let lower := toLower cStr
  if lower = ascii "int" then ⟨.int,cStr⟩
  else if lower = ascii "uint" then ⟨.uint,cStr⟩
  else if lower = ascii "alpha" then ⟨.alpha,cStr⟩
  else if lower = ascii "alphanumeric" then ⟨.alphanumeric,cStr⟩
  else if lower = ascii "uuid" ∨ lower = ascii "guid" then ⟨.uuid,cStr⟩
  else if re.compiles (ascii "^" ++ cStr ++ ascii "$") then ⟨.regex,cStr⟩
  else {}

structure ParsedParam where
  cleanName : Bytes
  constraint : ParamConstraint
  isOptional : Bool

def parseParamConstraint (name : Bytes) : ParsedParam :=
  let isOptional := name.getLast? == some 63
  let cleanName := if isOptional then name.dropLast else name
  match indexByte cleanName 60, lastIndexByte cleanName 62 with
  | some start, some stop =>
    if 0 < start ∧ start < stop then ⟨cleanName.take start,constraintOf re ((cleanName.take stop).drop (start+1)),isOptional⟩
    else ⟨cleanName,{},isOptional⟩
  | _, _ => ⟨cleanName,{},isOptional⟩
end

-- The panics of Add, each with the method and the path that its text names.
inductive RouteError where
  | invalidMethod
  | pathStart
  | duplicateSlashes
  | controlCharacter
  | frozen
  | duplicateRoute (method path : Bytes)
  | emptySegment (method path : Bytes)
  | emptyParameter (method path : Bytes)
  | invalidParameter (name method path : Bytes)
  | wildcardNotFinal (method path : Bytes)
  | conflictingWildcard (method path existing new : Bytes)
  | misplacedMark (method path : Bytes)

def slash : UInt8 := 47
def colon : UInt8 := 58
def star : UInt8 := 42
def queryMark : UInt8 := 63

def normalizeRoutePath (method path : Bytes) : Except RouteError Bytes :=
  let path := trimSpace path
  let path := if path = [] then [slash] else path
  if method = ascii "OPTIONS" ∧ path = [star] then .ok [star]
  else if path.head? ≠ some slash then .error .pathStart
  else if (index [slash,slash] path).isSome then .error .duplicateSlashes
  else .ok path

def splitSlash (path : Bytes) : List Bytes := path.splitOn slash

def splitRouteSegments (path : Bytes) : List Bytes :=
  if path = [] ∨ path = [slash] then []
  else if path = [star] then [[star]]
  else match path with
    | 47 :: rest => splitSlash rest
    | _ => splitSlash path

def nameByte (c : UInt8) : Bool := isAlpha c || isDigit c || c == 95

def validateParamName (method fullPath name : Bytes) : Except RouteError Unit :=
  if name = [] then .error (.emptyParameter method fullPath)
  else if name.all nameByte then .ok ()
  else .error (.invalidParameter name method fullPath)

def validateStaticSegment (method fullPath seg : Bytes) : Except RouteError Unit :=
  if seg = [] then .error (.emptySegment method fullPath)
  else if seg.head? = some colon ∨ seg.head? = some star then .ok ()
  else if seg.any (fun c => c == colon || c == star) then .error (.misplacedMark method fullPath)
  else .ok ()

def routeTokenByte (c : UInt8) : Bool := (ascii "!#$%&'*+-.^_|~").contains c || c == 96 || isDigit c || isAlpha c

def validTokenString (s : Bytes) : Bool := !s.isEmpty && s.all routeTokenByte

def routeIsStatic (segments : List Bytes) : Bool :=
  segments.all fun seg => !(seg.isEmpty || seg.head? == some colon || seg.head? == some star)
end FhServer
