import FhServer.DecoderAgreement
import FhServer.FormTree
import FhServer.RequestHead
import FhServer.RoutePattern
import FhServer.SecureHandlers

namespace FhServer
open List GoBytes GoText
namespace RequestHeader
variable (h : RequestHeader) (name value : Bytes)

def del : RequestHeader :=
  let h := {h with headers := h.headers.filter fun f => !bytesEqualFold name f.key}
  if equalFold name (ascii "Host") then {h with host := []}
  else if equalFold name (ascii "Content-Type") then {h with contentType := []}
  else if equalFold name (ascii "Content-Length") then {h with contentLength := 0,hasContentLength := false}
  else h

def syncKnownHeader : RequestHeader :=
  if equalFold name (ascii "Host") then {h with host := value}
  else if equalFold name (ascii "Content-Type") then {h with contentType := value}
  else if equalFold name (ascii "Content-Length") then
    match atoi value with
    | some (.ofNat n) => {h with contentLength := n,hasContentLength := true}
    | _ => h
  else h

def stringsContainsCTL : Bool := value.any fun c => c == cr || c == lf || c == 0

def add : RequestHeader :=
  if !validToken name || stringsContainsCTL value then h
  else if maxHeaders ≤ h.headers.length then h
  else syncKnownHeader {h with headers := h.headers ++ [⟨name,value⟩]} name value

def set : RequestHeader := (h.del name).add name value
end RequestHeader
namespace SecureTransport

def framingNames : List String :=
  ["host","content-length","transfer-encoding","connection","upgrade","proxy-connection","keep-alive","te","trailer"]

def protectedNames : List String :=
  framingNames ++ ["x-fh-secure","x-fh-envelope","x-fh-response","x-fh-stream","x-fh-device-registration","sec-websocket-key","sec-websocket-version"]

def headerNameByte (c : UInt8) : Bool := (97 ≤ c && c ≤ 122) || (48 ≤ c && c ≤ 57) || (ascii "!#$%&'*+-.^_`|~").contains c

def validHeaderSyntax (name value : Bytes) : Bool := name != [] && !value.any (fun c => c == 0 || c == cr || c == lf) && name.all headerNameByte

def validProtectedHeader (name value : Bytes) : Bool :=
  let name := toLower (trimSpace name)
  validHeaderSyntax name value && !protectedNames.any (ascii · == name)

-- From what is left of the outer request's header when the body has been replaced.
def typed (contentType : Bytes) (h : RequestHeader) : RequestHeader :=
  if contentType ≠ [] then h.set (ascii "Content-Type") contentType else h.del (ascii "Content-Type")

def restore (contentType : Bytes) (headers : List Header) (h : RequestHeader) : RequestHeader :=
  (headers.foldl (fun h f => if validProtectedHeader f.key f.value then h.set f.key f.value else h) (typed contentType h)).del (ascii "X-FH-Envelope")

def Harmless (f : Header) : Prop :=
  validToken f.key = true ∧ (∀ c ∈ f.value, c ≠ cr ∧ c ≠ lf ∧ c ≠ 0) ∧ ∀ name ∈ framingNames, bytesEqualFold f.key (ascii name) = false

structure Framed (start h : RequestHeader) : Prop where
  host : h.host = start.host
  has : h.hasContentLength = start.hasContentLength
  length : h.contentLength = start.contentLength
  headers : ∃ kept added, h.headers = kept ++ added ∧ kept <+ start.headers ∧ ∀ f ∈ added, Harmless f

-- A long s folds to an s, but strings.ToLower leaves its bytes, which no header name may have.
theorem foldRunes_text (folds : foldRunes name = text) (tokens : ∀ c ∈ text, tokenByte c = true ∧ c ≠ 107) :
    0xC5 ∈ name ∨ (∀ c ∈ name, tokenByte c = true) ∧ name.map foldByte = text := by
  induction name using foldRunes.induct generalizing text with
  | case1 => exact .inl mem_cons_self
  | case2 rest ih =>
    rw [foldRunes] at folds
    exact absurd rfl (tokens 107 (by simp [← folds])).2
  | case3 c rest long kelvin ih =>
    rw [foldRunes] at folds
    · subst folds
      have same : ∀ c, tokenByte (foldByte c) = true → tokenByte c = true := eachByte (by decide +kernel)
      rcases ih rfl fun d mem => tokens d (mem_cons_of_mem _ mem) with high | ⟨rest,eq⟩
      · exact .inl (mem_cons_of_mem _ high)
      · refine .inr ⟨forall_mem_cons.mpr ⟨same c (tokens _ mem_cons_self).1,rest⟩,?_⟩
        rw [map_cons,eq]
    · exact long
    · exact kelvin
  | case4 => exact .inr ⟨forall_mem_nil _,folds⟩

theorem trimRunes_keeps (keep : ∀ a, one a = true → a ≠ x) (keep2 : ∀ a b, two a b = true → a ≠ x ∧ b ≠ x)
    (keep3 : ∀ a b c, three a b c = true → a ≠ x ∧ b ≠ x ∧ c ≠ x) (mem : x ∈ b) : x ∈ trimRunes one two three b := by
  fun_induction trimRunes <;> grind

theorem toLower_keeps (mem : 0xC5 ∈ b) : 0xC5 ∈ toLower b := by
  fun_induction toLower with
  | case1 => grind
  | case2 => grind
  | case3 c rest _ _ ih =>
    rcases mem_cons.mp mem with rfl | later
    · exact mem_cons_self
    · exact mem_cons_of_mem _ (ih later)
  | case4 => exact mem

theorem long_s_refused (long : 0xC5 ∈ name) (value : Bytes) : validProtectedHeader name value = false := by
  have trimmed : 0xC5 ∈ trimSpace name := by
    rw [trimSpace,trimSpaceRight,mem_reverse]
    refine trimRunes_keeps ?_ ?_ ?_ (mem_reverse.mpr (trimRunes_keeps ?_ ?_ ?_ long)) <;> simp [asciiSpace,space2,space3] <;> grind
  have there := toLower_keeps trimmed
  rw [validProtectedHeader,validHeaderSyntax]
  have bad : (toLower (trimSpace name)).all headerNameByte = false := all_eq_false.mpr ⟨_,there,by decide⟩
  simp [bad]

theorem toLower_ascii (plain : ∀ c ∈ b, SolidByte c) : toLower b = b.map foldByte := by
  fun_induction toLower with
  | case1 => exact absurd (plain 0xC4 mem_cons_self).2 (by decide)
  | case2 => exact absurd (plain 0xE2 mem_cons_self).2 (by decide)
  | case3 c rest _ _ ih => rw [ih fun d mem => plain d (mem_cons_of_mem _ mem),map_cons]
  | case4 => rfl

theorem lower_token (token : validToken name = true) : toLower (trimSpace name) = name.map foldByte := by
  obtain ⟨bytes,some⟩ := Bool.and_eq_true_iff.mp token
  have visible : ∀ c, tokenByte c = true → SolidByte c := eachByte (by unfold SolidByte; decide +kernel)
  have solid : ∀ c ∈ name, SolidByte c := fun c mem => visible c (all_eq_true.mp bytes c mem)
  obtain ⟨c,rest,rfl⟩ := exists_cons_of_ne_nil (by simpa using some : name ≠ [])
  have left : trimSpaceLeft (c :: rest) = c :: rest := trimRunes_solid (solid_first (solid c mem_cons_self)) rest
  obtain ⟨d,front,last⟩ := exists_cons_of_ne_nil (reverse_ne_nil_iff.mpr (cons_ne_nil c rest))
  have right : SolidByte d := solid d (mem_reverse.mp (last ▸ mem_cons_self))
  rw [trimSpace,left,trimSpaceRight,last,trimRunes_solid (solid_last right),← last,reverse_reverse,toLower_ascii solid]

theorem token_unlisted (token : validToken name = true) (valid : validProtectedHeader name value = true) : ∀ n ∈ protectedNames, name.map foldByte ≠ ascii n := by
  intro n mem same
  rw [validProtectedHeader,lower_token token,same] at valid
  simp at valid
  exact absurd rfl (valid.2 n mem)

theorem valid_unnamed (valid : validProtectedHeader name value = true) (listed : n ∈ protectedNames)
    (tokens : ∀ c ∈ ascii n, tokenByte c = true ∧ c ≠ 107) : foldRunes name ≠ ascii n := by
  intro folds
  rcases foldRunes_text folds tokens with long | ⟨bytes,same⟩
  · rw [long_s_refused long] at valid
    cases valid
  · cases name with
    | nil => cases valid
    | cons c name => exact token_unlisted (Bool.and_eq_true_iff.mpr ⟨all_eq_true.mpr bytes,rfl⟩) valid n listed same

theorem Framed.del (framed : Framed start h) (host : equalFold name (ascii "Host") = false)
    (length : equalFold name (ascii "Content-Length") = false) : Framed start (h.del name) := by
  obtain ⟨sameHost,sameHas,sameLength,kept,added,eq,sub,harmless⟩ := framed
  have headers : h.headers.filter (fun f => !bytesEqualFold name f.key) =
      kept.filter (fun f => !bytesEqualFold name f.key) ++ added.filter (fun f => !bytesEqualFold name f.key) := by rw [eq,filter_append]
  simp only [RequestHeader.del,host,length,Bool.false_eq_true,if_false]
  split <;> exact ⟨sameHost,sameHas,sameLength,_,_,headers,filter_sublist.trans sub,fun f mem => harmless f (mem_of_mem_filter mem)⟩

theorem Framed.add (framed : Framed start h) (valid : validProtectedHeader name value = true) (host : equalFold name (ascii "Host") = false)
    (length : equalFold name (ascii "Content-Length") = false) : Framed start (h.add name value) := by
  rw [RequestHeader.add]
  split
  · exact framed
  rename_i fine
  split
  · exact framed
  simp only [Bool.or_eq_true,Bool.not_eq_true',not_or,Bool.not_eq_false,RequestHeader.stringsContainsCTL] at fine
  obtain ⟨token,clean⟩ := fine
  have added : Harmless ⟨name,value⟩ := by
    refine ⟨token,fun c mem => ?_,fun n mem => ?_⟩
    · have plain := any_eq_false.mp (Bool.eq_false_iff.mpr clean) c mem
      simpa [and_assoc] using plain
    · have low : ∀ n ∈ framingNames, (ascii n).map foldByte = ascii n := by decide
      have unlisted := token_unlisted token valid n (mem_append_left _ mem)
      rw [← low n mem] at unlisted
      exact Bool.eq_false_iff.mpr fun same => unlisted (eq_of_beq (Bool.and_eq_true_iff.mp same).2)
  obtain ⟨sameHost,sameHas,sameLength,kept,others,eq,sub,harmless⟩ := framed
  have headers : h.headers ++ [⟨name,value⟩] = kept ++ (others ++ [⟨name,value⟩]) := by rw [eq,append_assoc]
  have all : ∀ f ∈ others ++ [⟨name,value⟩], Harmless f := by simpa [or_imp,forall_and,added] using harmless
  simp only [RequestHeader.syncKnownHeader,host,length,Bool.false_eq_true,if_false]
  split <;> exact ⟨sameHost,sameHas,sameLength,kept,_,headers,sub,all⟩

theorem restore_framed (contentType : Bytes) (headers : List Header) (h : RequestHeader) :
    Framed (typed contentType h) (restore contentType headers h) := by
  refine Framed.del ?_ (by decide) (by decide)
  generalize typed contentType h = start
  have begun : Framed start start := ⟨rfl,rfl,rfl,start.headers,[],(append_nil _).symm,.refl _,forall_mem_nil _⟩
  refine foldlRecOn headers _ begun fun h framed f _ => ?_
  split
  · rename_i valid
    have host := beq_eq_false_iff_ne.mpr (valid_unnamed (n := "host") valid (by decide +kernel) (by decide +kernel))
    have length := beq_eq_false_iff_ne.mpr (valid_unnamed (n := "content-length") valid (by decide +kernel) (by decide +kernel))
    exact (framed.del host length).add valid host length
  · exact framed
end SecureTransport
end FhServer
