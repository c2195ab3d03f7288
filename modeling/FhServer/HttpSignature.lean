import FhServer.Webhook

namespace FhServer.HttpSignature
open GoBytes GoText Webhook List

inductive SignatureError where
  | malformed
  | policy
  | signature
  | digest
  | expired
  | nonce
  | unsupported
deriving DecidableEq

structure Parameters where
  created : Int64 := 0
  expires : Int64 := 0
  nonce : Bytes := []
  keyID : Bytes := []
  alg : Bytes := []
  tag : Bytes := []
deriving DecidableEq

def defaultLabel : Bytes := ascii "sig1"
def defaultTag : Bytes := ascii "fh-rfc9421-response"
def algorithm : Bytes := ascii "ed25519"
def coveredComponents : Bytes := ascii "(\"@status\" \"content-digest\" \"content-type\" \"@method\";req \"@target-uri\";req)"

def isKeyChar (c : UInt8) : Bool := (97 ≤ c && c ≤ 122) || (48 ≤ c && c ≤ 57) || c == 95 || c == 45 || c == 42 || c == 46

def validLabel : Bytes → Bool
  | [] => false
  | c :: rest => 97 ≤ c && c ≤ 122 && rest.all isKeyChar

inductive SplitMode where
  | plain
  | quoted
  | escaped
  | bytesValue
deriving DecidableEq

def splitDictionaryLoop (depth : Int) (mode : SplitMode) (mem : Bytes) : Bytes → List Bytes
  | [] => [mem]
  | c :: rest =>
    let keep (depth : Int) (mode : SplitMode) := splitDictionaryLoop depth mode (mem ++ [c]) rest
    match mode with
    | .escaped => keep depth .quoted
    | .quoted => keep depth (if c = 92 then .escaped else if c = 34 then .plain else .quoted)
    | .bytesValue => keep depth (if c = 58 then .plain else .bytesValue)
    | .plain =>
      if c = 34 then keep depth .quoted
      else if c = 58 then keep depth .bytesValue
      else if c = 40 then keep (depth+1) .plain
      else if c = 41 then keep (depth-1) .plain
      else if c = 44 ∧ depth = 0 then mem :: splitDictionaryLoop depth .plain [] rest
      else keep depth .plain

def splitDictionary (field : Bytes) : List Bytes := splitDictionaryLoop 0 .plain [] field

def dictionaryMember (field label : Bytes) : Except SignatureError Bytes :=
  if validLabel label then
    let members := (splitDictionary field).map trimSpace
    match members.find? fun mem => mem.contains 61 && before mem 61 == label with
    | some mem =>
      let value := trimSpace (mem.drop (label.length+1))
      if value = [] then .error .malformed else .ok value
    | none => .error .malformed
  else .error .policy

def consumeText : Bytes → Option (Bytes × Bytes)
  | [] => none
  | c :: rest =>
    if c = 34 then some ([],rest)
    else if c = 92 then
      match rest with
      | d :: rest => if d = 92 ∨ d = 34 then (consumeText rest).map fun (value,rest) => (d :: value,rest) else none
      | [] => none
    else if c < 0x20 ∨ 0x7e < c then none
    else (consumeText rest).map fun (value,rest) => (c :: value,rest)

def consumeString : Bytes → Option (Bytes × Bytes)
  | 34 :: rest => consumeText rest
  | _ => none

def Parameters.put (p : Parameters) (name value : Bytes) : Option Parameters :=
  if name = ascii "nonce" then some {p with nonce := value}
  else if name = ascii "keyid" then some {p with keyID := value}
  else if name = ascii "alg" then some {p with alg := value}
  else if name = ascii "tag" then some {p with tag := value}
  else none

-- A round takes at least the semicolon.
def parseParametersLoop (out : Parameters) (bare seen : List Bytes) : Nat → Bytes → Except SignatureError (Parameters × List Bytes)
  | 0,_ => .error .malformed
  | _+1,[] => .ok (out,bare)
  | rounds+1,c :: input =>
    let name := input.takeWhile isKeyChar
    let timed := name = ascii "created" ∨ name = ascii "expires"
    if c ≠ 59 ∨ name = [] ∨ name ∈ seen then .error .malformed
    else
      match input.drop name.length with
      | 61 :: input =>
        if timed then
          let digits := input.takeWhile decimalByte
          match parseInt10 digits with
          | none => .error .malformed
          | some n =>
            let out := if name = ascii "created" then {out with created := .ofInt n} else {out with expires := .ofInt n}
            parseParametersLoop out bare (name :: seen) rounds (input.drop digits.length)
        else
          match consumeString input with
          | none => .error .malformed
          | some (value,input) =>
            match out.put name value with
            | none => .error .unsupported
            | some out => parseParametersLoop out bare (name :: seen) rounds input
      | input =>
        if input = [] ∨ input.head? = some 59 then
          if timed then parseParametersLoop out (name :: bare) (name :: seen) rounds input else .error .unsupported
        else .error .malformed

def parseParameters (input : Bytes) : Except SignatureError (Parameters × List Bytes) := parseParametersLoop {} [] [] (input.length+1) input

def parseSignatureInput (field label : Bytes) : Except SignatureError (Bytes × Parameters) :=
  match dictionaryMember field label with
  | .error e => .error e
  | .ok raw =>
    if coveredComponents.isPrefixOf raw then
      match parseParameters (raw.drop coveredComponents.length) with
      | .error e => .error e
      | .ok (p,bare) =>
        if bare ≠ [] ∨ p.created ≤ 0 ∨ p.expires ≤ p.created ∨ p.nonce = [] ∨ p.keyID = [] ∨ p.alg ≠ algorithm ∨ p.tag ≠ defaultTag then
          .error .unsupported
        else .ok (raw,p)
    else .error .unsupported

structure Verifier where
  label : Bytes := []
  keyID : Bytes := []
  clockSkew : Int64 := 0
  maxValidity : Int64 := 0
deriving DecidableEq

def Verifier.skew (v : Verifier) : Int64 := if v.clockSkew ≤ 0 then 30000000000 else v.clockSkew
def Verifier.longest (v : Verifier) : Int64 := if v.maxValidity ≤ 0 then 120000000000 else v.maxValidity

-- The strict decoder refuses nothing that is its own encoding.
def validNonce (value : Bytes) : Bool :=
  decide (22 ≤ value.length) && decide (value.length ≤ 128) &&
    (base64Decode value).any fun decoded => decide (16 ≤ decoded.length) && base64Text decoded == value

-- What follows the checks of the parameters: the content digest, the signature base, the key of the key ID and the signature over the base.
structure Message where
  method : Bytes
  targetURI : Bytes
  signatureInput : Bytes
  expectedNonce : Bytes
  authentic : (raw keyID : Bytes) → Option SignatureError

def Verifier.parse (v : Verifier) (field : Bytes) : Except SignatureError (Bytes × Parameters) :=
  parseSignatureInput field (if v.label = [] then defaultLabel else v.label)

-- The time is in nanoseconds, and Unix is its second.
def Verifier.early (v : Verifier) (p : Parameters) (now : Int) : Prop := (now+v.skew.toInt)/10^9 < p.created.toInt
def Verifier.late (v : Verifier) (p : Parameters) (now : Int) : Prop := p.expires.toInt < (now-v.skew.toInt)/10^9
def Verifier.long (v : Verifier) (p : Parameters) : Prop := v.longest < (p.expires-p.created)*1000000000

instance (v : Verifier) (p : Parameters) (now : Int) : Decidable (v.early p now ∨ v.late p now ∨ v.long p) := by
  unfold Verifier.early Verifier.late Verifier.long
  infer_instance

def verifyMessage (v : Verifier) (m : Message) (now : Int) : Option SignatureError :=
  if m.method = [] ∨ m.targetURI = [] ∨ ¬validNonce m.expectedNonce then some .policy
  else
    match v.parse m.signatureInput with
    | .error e => some e
    | .ok (raw,p) =>
      if p.nonce ≠ m.expectedNonce then some .nonce
      else if v.keyID ≠ [] ∧ p.keyID ≠ v.keyID then some .unsupported
      else if v.early p now ∨ v.late p now ∨ v.long p then some .expired
      else m.authentic raw p.keyID

def Parameters.lifetime (p : Parameters) : Int := (p.expires.toInt-p.created.toInt)*10^9

theorem parse_ordered {v : Verifier} (read : v.parse field = .ok (raw,p)) :
    0 < p.created.toInt ∧ p.created.toInt < p.expires.toInt := by
  unfold Verifier.parse parseSignatureInput at read
  split at read
  · cases read
  split at read
  · split at read
    · cases read
    split at read
    · cases read
    rename_i refused
    cases read
    simp only [not_or,Int64.not_le] at refused
    exact ⟨Int64.lt_iff_toInt_lt.mp refused.2.1,Int64.lt_iff_toInt_lt.mp refused.2.2.1⟩
  · cases read

theorem lifetime_exact {p : Parameters} (_ : 0 < p.created.toInt) (order : p.created.toInt < p.expires.toInt) (short : p.lifetime < 2^63) :
    ((p.expires-p.created)*1000000000).toInt = p.lifetime := by
  have top := p.expires.toInt_lt
  have nanos : (1000000000 : Int64).toInt = 10^9 := rfl
  unfold Parameters.lifetime at short ⊢
  rw [Int64.toInt_mul,Int64.toInt_sub,nanos,Int.bmod_eq_of_le (by lia) (by lia),Int.bmod_eq_of_le (by lia) (by lia)]

-- The crypto checks and the request are whatever a field meets.
theorem lifetime_limit_iff (v : Verifier) (field : Bytes) (now : Int) :
    (∀ m : Message, m.signatureInput = field → verifyMessage v m now = none → ∃ raw p, v.parse field = .ok (raw,p) ∧
        p.lifetime ≤ v.longest.toInt ∧ p.created.toInt ≤ (now+v.skew.toInt)/10^9 ∧ (now-v.skew.toInt)/10^9 ≤ p.expires.toInt) ↔
      ∀ raw p, v.parse field = .ok (raw,p) → validNonce p.nonce = true → (v.keyID = [] ∨ p.keyID = v.keyID) → ¬v.early p now → ¬v.late p now → ¬v.long p → p.lifetime < 2^63 := by
  constructor
  · intro limited raw p read nonce known started going short
    let m : Message := ⟨ascii "GET",ascii "/",field,p.nonce,fun _ _ => none⟩
    have request : ¬(ascii "GET" = [] ∨ ascii "/" = [] ∨ ¬validNonce p.nonce) := by
      rw [nonce]
      decide
    have accepted : verifyMessage v m now = none := by
      rw [verifyMessage,if_neg request]
      simp only [m,read,ne_eq,not_true,if_false]
      rw [if_neg (by tauto),if_neg (by tauto)]
    obtain ⟨raw',p',read',within,-⟩ := limited m rfl accepted
    cases read.symm.trans read'
    exact within.trans_lt v.longest.toInt_lt
  · intro short m same accepted
    subst same
    unfold verifyMessage at accepted
    split at accepted
    · cases accepted
    rename_i request
    split at accepted
    · cases accepted
    rename_i raw p read
    split at accepted
    · cases accepted
    rename_i nonce
    split at accepted
    · cases accepted
    rename_i known
    split at accepted
    · cases accepted
    rename_i timely
    simp only [not_or,not_not] at request timely nonce
    obtain ⟨started,going,fits⟩ := timely
    obtain ⟨positive,order⟩ := parse_ordered read
    have valid : validNonce p.nonce = true := nonce ▸ request.2.2
    have real := lifetime_exact positive order (short raw p read valid (by tauto) started going fits)
    refine ⟨raw,p,read,?_,Int.not_lt.mp started,Int.not_lt.mp going⟩
    rw [← real]
    exact Int64.le_iff_toInt_le.mp (Int64.not_lt.mp fits)

theorem splitDictionaryLoop_plain (plain : 44 ∉ input) (depth : Int) (mode : SplitMode) (mem : Bytes) :
    splitDictionaryLoop depth mode mem input = [mem ++ input] := by
  induction input generalizing depth mode mem with
  | nil => simp [splitDictionaryLoop]
  | cons c input ih =>
    obtain ⟨other,rest⟩ := not_or.mp (mt mem_cons.mpr plain)
    have keeps (depth mode) : splitDictionaryLoop depth mode (mem ++ [c]) input = [mem ++ c :: input] := by
      rw [ih rest,append_assoc]
      rfl
    have joined : ¬(c = 44 ∧ depth = 0) := fun both => other both.1.symm
    cases mode <;> simp [splitDictionaryLoop,keeps,if_neg joined,ite_self]

theorem dictionaryMember_plain (valid : validLabel label = true) (plain : 44 ∉ field)
    (whole : trimSpace field = label ++ 61 :: value) (free : 61 ∉ label) (bare : trimSpace value = value) (some : value ≠ []) :
    dictionaryMember field label = .ok value := by
  have named : before (label ++ 61 :: value) 61 = label := by rw [before,indexByte_first free]; exact take_left
  rw [dictionaryMember,if_pos valid,splitDictionary,splitDictionaryLoop_plain plain]
  simp [whole,named,bare,some]

def century : Bytes :=
  ascii ";created=1;expires=18446744075;nonce=\"AAAAAAAAAAAAAAAAAAAAAA\";keyid=\"k\";alg=\"ed25519\";tag=\"fh-rfc9421-response\""

def centuries : Bytes := defaultLabel ++ 61 :: (coveredComponents ++ century)

theorem centuries_member : dictionaryMember centuries defaultLabel = .ok (coveredComponents ++ century) := by
  have facts : 44 ∉ centuries ∧ trimSpace centuries = centuries ∧ trimSpace (coveredComponents ++ century) = coveredComponents ++ century ∧
      coveredComponents ++ century ≠ [] := by
    unfold centuries coveredComponents century
    repeat rw [ascii_ofList]
    decide +kernel
  exact dictionaryMember_plain (by decide) facts.1 facts.2.1 (by decide) facts.2.2.1 facts.2.2.2

theorem centuries_parsed : parseParameters century = .ok (⟨1,18446744075,ascii "AAAAAAAAAAAAAAAAAAAAAA",ascii "k",algorithm,defaultTag⟩,[]) := by
  unfold century algorithm defaultTag
  repeat rw [ascii_ofList]
  decide

theorem lifetime_unlimited : ∃ (v : Verifier) (m : Message) (now : Int) (raw : Bytes) (p : Parameters), v.parse m.signatureInput = .ok (raw,p) ∧
    verifyMessage v m now = none ∧ v.longest.toInt < p.lifetime := by
  have read : ({} : Verifier).parse centuries = .ok (coveredComponents ++ century,
      ⟨1,18446744075,ascii "AAAAAAAAAAAAAAAAAAAAAA",ascii "k",algorithm,defaultTag⟩) := by
    rw [Verifier.parse,if_pos rfl,parseSignatureInput,centuries_member]
    simp only [ isPrefixOf_iff_prefix,prefix_append,if_true,drop_left,centuries_parsed]
    rw [if_neg (by decide)]
  refine ⟨{},⟨ascii "GET",ascii "/",centuries,ascii "AAAAAAAAAAAAAAAAAAAAAA",fun _ _ => none⟩,10^18,_,_,read,?_,by decide⟩
  rw [verifyMessage,if_neg (by decide),read]
  decide
end FhServer.HttpSignature
