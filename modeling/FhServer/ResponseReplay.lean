import FhServer.ResponseWriter

namespace FhServer
open GoBytes List

def upperByte (c : UInt8) : UInt8 := if 97 ≤ c && c ≤ 122 then c-32 else c

def canonicalBytes (upper : Bool) : Bytes → Bytes
  | [] => []
  | c :: rest => (if upper then upperByte c else foldByte c) :: canonicalBytes (c == 45) rest

-- textproto.CanonicalMIMEHeaderKey: a key that is no token stays as it is.
def canonicalMIMEHeaderKey (key : Bytes) : Bytes := if validToken key then canonicalBytes true key else key

def keyValues (key : Bytes) (headers : List Header) : List Bytes :=
  (headers.filter fun h => canonicalMIMEHeaderKey h.key = key).map Header.value

namespace DefaultCtx

def typeFields (c : DefaultCtx) : List Header :=
  match c.contentType with
  | some type => if type.text = [] then [] else [⟨ascii "Content-Type",type.text⟩]
  | none => []

def fields (c : DefaultCtx) : List Header := c.typeFields ++ (c.headers ++ c.cookies.map fun text => ⟨ascii "Set-Cookie",text⟩)

def keys (c : DefaultCtx) : List Bytes := c.fields.map fun h => canonicalMIMEHeaderKey h.key

def getRespHeaders (c : DefaultCtx) (key : Bytes) : List Bytes := keyValues key c.fields

def setAll (c : DefaultCtx) (headers : List Header) : DefaultCtx := headers.foldl (fun c h => c.set h.key h.value) c
end DefaultCtx

-- A field that Set keeps on a context without one of its name.
structure Kept (h : Header) : Prop where
  free : FreeName h.key
  line : breaksLine h.value = false
  short : h.value.length ≤ 16*1024
  typed : h.key = ascii "Content-Type" → h.value ≠ []

theorem foldByte_cases : ∀ c, upperByte (foldByte c) = upperByte c ∧ foldByte (foldByte c) = foldByte c ∧ (foldByte c == 45) = (c == 45) ∧
    tokenByte (foldByte c) = tokenByte c ∧ foldByte (upperByte c) = foldByte c :=
  eachByte (by decide +kernel)

theorem canonicalBytes_fold (upper : Bool) (key : Bytes) : canonicalBytes upper (key.map foldByte) = canonicalBytes upper key := by
  induction key generalizing upper with
  | nil => rfl
  | cons c rest ih =>
    obtain ⟨up,twice,dash,-,-⟩ := foldByte_cases c
    simp [canonicalBytes,up,twice,dash,ih]

theorem validToken_fold (key : Bytes) : validToken (key.map foldByte) = validToken key := by
  have each : tokenByte ∘ foldByte = tokenByte := funext fun c => (foldByte_cases c).2.2.2.1
  simp [validToken,each]

theorem fold_canonicalBytes (upper : Bool) (key : Bytes) : (canonicalBytes upper key).map foldByte = key.map foldByte := by
  induction key generalizing upper with
  | nil => rfl
  | cons c rest ih =>
    obtain ⟨-,twice,-,-,up⟩ := foldByte_cases c
    cases upper <;> simp [canonicalBytes,up,twice,ih]

theorem canonical_canonical (key : Bytes) : canonicalMIMEHeaderKey (canonicalMIMEHeaderKey key) = canonicalMIMEHeaderKey key := by
  by_cases valid : validToken key = true
  · have still : validToken (canonicalBytes true key) = true := by rw [← validToken_fold,fold_canonicalBytes,validToken_fold,valid]
    simp only [canonicalMIMEHeaderKey,valid,still,if_true]
    rw [← canonicalBytes_fold,fold_canonicalBytes,canonicalBytes_fold]
  · have plain : canonicalMIMEHeaderKey key = key := if_neg valid
    rw [plain,plain]

theorem canonical_like (like : bytesEqualFold one two = true) : validToken one = validToken two ∧
    (validToken two = true → canonicalMIMEHeaderKey one = canonicalMIMEHeaderKey two) := by
  have same : one.map foldByte = two.map foldByte := eq_of_beq (Bool.and_eq_true_iff.mp like).2
  have valid : validToken one = validToken two := by rw [← validToken_fold one,same,validToken_fold]
  refine ⟨valid,fun token => ?_⟩
  simp only [canonicalMIMEHeaderKey,valid,token,if_true]
  rw [← canonicalBytes_fold true one,same,canonicalBytes_fold]

theorem changeHeader_none
    (other : ∀ h ∈ headers, bytesEqualFold h.key key = false) : changeHeader key change headers = none := by
  induction headers with
  | nil => rfl
  | cons h headers ih =>
    rw [forall_mem_cons] at other
    simp [changeHeader,other.1,ih other.2]

theorem keyValues_append (key : Bytes) (one two : List Header) : keyValues key (one ++ two) = keyValues key one ++ keyValues key two := by
  simp [keyValues]

theorem keyValues_eq_nil : keyValues key headers = [] ↔ ∀ h ∈ headers, canonicalMIMEHeaderKey h.key ≠ key := by
  simp [keyValues]

namespace DefaultCtx
variable {c : DefaultCtx} {h : Header} {key : Bytes}

theorem typeFields_other (unlike : ascii "Content-Type" ≠ key) : keyValues key c.typeFields = [] := by
  have name : canonicalMIMEHeaderKey (ascii "Content-Type") = ascii "Content-Type" := by decide
  unfold typeFields
  split
  · split <;> simp [keyValues,name,unlike]
  · rfl

theorem getRespHeaders_set (kept : Kept h) (own : canonicalMIMEHeaderKey h.key = h.key) (new : c.getRespHeaders h.key = []) (key : Bytes) :
    (c.set h.key h.value).getRespHeaders key = c.getRespHeaders key ++ keyValues key [h] := by
  have token : validToken h.key = true := kept.free.1
  simp only [getRespHeaders,fields,keyValues_append,append_eq_nil_iff] at new
  obtain ⟨noType,noHeader,noCookie⟩ := new
  unfold DefaultCtx.set
  rw [if_neg (by simp [token,kept.line]),if_neg (Nat.not_lt.mpr kept.short),if_neg (by simp [kept.free.2])]
  split
  · rename_i typed
    have name : h.key = ascii "Content-Type" :=
      own.symm.trans (((canonical_like typed).2 (by decide)).trans (by decide))
    have shown : typeFields {c with contentType := some (.own h.value)} = [h] := by
      simp [typeFields,ContentType.text,if_neg (kept.typed name),← name]
    simp only [getRespHeaders,fields,keyValues_append,shown]
    by_cases same : h.key = key
    · subst same
      simp [noType,noHeader,noCookie]
    · rw [typeFields_other (name ▸ same)]
      simp [keyValues,own,same]
  · rw [changeHeader_none]
    · simp only [getRespHeaders,fields,DefaultCtx.extra,keyValues_append]
      by_cases same : h.key = key
      · subst same
        simp [typeFields,noCookie]
      · simp [typeFields,keyValues,own,same]
    · intro old mem
      by_contra like
      rw [Bool.not_eq_false] at like
      exact keyValues_eq_nil.mp noHeader old mem (((canonical_like like).2 token).trans own)

theorem getRespHeaders_setAll (headers : List Header) (kept : ∀ h ∈ headers, Kept h ∧ canonicalMIMEHeaderKey h.key = h.key)
    (apart : (headers.map Header.key).Nodup) (new : ∀ h ∈ headers, c.getRespHeaders h.key = []) (key : Bytes) :
    (c.setAll headers).getRespHeaders key = c.getRespHeaders key ++ keyValues key headers := by
  induction headers generalizing c with
  | nil => simp [setAll,keyValues]
  | cons h headers ih =>
    rw [forall_mem_cons] at kept new
    rw [map_cons,nodup_cons] at apart
    have step := getRespHeaders_set kept.1.1 kept.1.2 new.1
    have later : ∀ other ∈ headers, (c.set h.key h.value).getRespHeaders other.key = [] := by
      intro other mem
      have unlike : h.key ≠ other.key := fun same => apart.1 (same ▸ mem_map_of_mem mem)
      rw [step,new.2 other mem,nil_append,keyValues_eq_nil]
      simpa [kept.1.2] using unlike
    have rest := ih kept.2 apart.2 later
    rw [setAll,foldl_cons,← setAll,rest,step,append_assoc,← keyValues_append]
    rfl

theorem setAll_frame (headers : List Header) (c : DefaultCtx) :
    (c.setAll headers).status = c.status ∧ (c.setAll headers).trailers = c.trailers := by
  induction headers generalizing c with
  | nil => exact ⟨rfl,rfl⟩
  | cons h headers ih =>
    have one : (c.set h.key h.value).status = c.status ∧ (c.set h.key h.value).trailers = c.trailers := by
      unfold DefaultCtx.set
      (repeat' split) <;> exact ⟨rfl,rfl⟩
    exact ⟨(ih _).1.trans one.1,(ih _).2.trans one.2⟩
end DefaultCtx
end FhServer
