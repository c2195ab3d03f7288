import FhServer.GoNumbers
import FhServer.RoutePattern

namespace FhServer.RealIp
open GoBytes GoText List
variable {IP : Type} [DecidableEq IP]

-- The host of net.SplitHostPort, and net.ParseIP.
structure Stdlib (IP : Type) where
  splitHost : Bytes → Option Bytes
  parseIP : Bytes → Option IP

section
variable (std : Stdlib IP) (trusted : IP → Bool)

def trim (cut : Bytes) (b : Bytes) : Bytes := ((b.dropWhile cut.contains).reverse.dropWhile cut.contains).reverse

def parseNode (value : Bytes) : Option IP :=
  if value = [] ∨ value.head? = some 95 ∨ equalFold value (ascii "unknown") then none
  else std.parseIP ((std.splitHost value).getD (trim (ascii "[]") value))

-- The address that an element of X-Forwarded-For names, and of Forwarded, where its first parameter for counts.
def plainElement (element : Bytes) : Option IP := parseNode std (trimSpace element)

def forwardedElement (element : Bytes) : Option IP :=
  let isFor (param : Bytes) : Bool := param.contains 61 && equalFold (before param 61) (ascii "for")
  (((element.splitOn 59).map trimSpace).find? isFor).bind fun param =>
    parseNode std (trim (ascii "\"") (trimSpace (param.drop ((before param 61).length+1))))

def element (forwarded : Bool) : Bytes → Option IP := if forwarded then forwardedElement std else plainElement std

def parseChain (forwarded : Bool) (value : Bytes) : List IP := (value.splitOn 44).filterMap (element std forwarded)

-- The loop of clientFromChain over the chain from its right end.
def walk (current : IP) : List IP → IP
  | [] => current
  | ip :: rest => if trusted current then walk ip rest else current

def clientFromChain (remote : IP) (chain : List IP) : Option IP :=
  let current := walk trusted remote chain.reverse
  if current = remote then none else some current

-- The address that is set for a header with the given field lines, of which Get returns the first.
def clientIP (forwarded : Bool) (remote : IP) (lines : List Bytes) : Option IP :=
  let value := lines.headD []
  if trusted remote = false ∨ value = [] then none else clientFromChain trusted remote (parseChain std forwarded value)
end
variable {std : Stdlib IP} {trusted : IP → Bool}

omit [DecidableEq IP] in
theorem walk_stops (stops : ∃ ip ∈ near, trusted ip = false) (far : List IP) :
    walk trusted current (near ++ far) = walk trusted current near := by
  induction near generalizing current with
  | nil =>
    obtain ⟨ip,mem,-⟩ := stops
    cases mem
  | cons ip rest ih =>
    simp only [cons_append,walk]
    split
    · obtain ⟨stop,mem,untrusted⟩ := stops
      rcases mem_cons.mp mem with rfl | later
      · cases rest ++ far <;> cases rest <;> simp [walk,untrusted]
      · exact ih ⟨stop,later,untrusted⟩
    · rfl

omit [DecidableEq IP] in
theorem walk_trusted (start : trusted current = true) (all : ∀ ip ∈ near, trusted ip = true) :
    walk trusted current (near ++ [ip]) = ip := by
  induction near generalizing current with
  | nil => simp [walk,start]
  | cons hop rest ih =>
    simp only [cons_append,walk,start,if_true]
    exact ih (all hop mem_cons_self) fun ip mem => all ip (mem_cons_of_mem _ mem)

-- The first field line: what the client claims, and the elements near of the trusted hops that are on it. Where there are
-- none the line ends among the client's elements.
def firstLine (claimed : Bytes) : Option Bytes → Bytes
  | none => claimed
  | some near => claimed ++ 44 :: near

def nearChain (std : Stdlib IP) (forwarded : Bool) (near : Option Bytes) : List IP := near.elim [] (parseChain std forwarded)

omit [DecidableEq IP] in
theorem parseChain_nil (forwarded : Bool) : parseChain std forwarded [] = [] := by
  cases forwarded <;> rfl

theorem clientIP_firstLine (peer : trusted remote = true) (forwarded : Bool) (claimed : Bytes) (near : Option Bytes) (later : List Bytes) :
    clientIP std trusted forwarded remote (firstLine claimed near :: later) =
      clientFromChain trusted remote (parseChain std forwarded claimed ++ nearChain std forwarded near) := by
  have chain : parseChain std forwarded (firstLine claimed near) = parseChain std forwarded claimed ++ nearChain std forwarded near := by
    cases near with
    | none => exact (append_nil _).symm
    | some s => simp [firstLine,parseChain,nearChain,splitOn_append_cons_self]
  rw [← chain]
  simp only [clientIP,headD_cons,peer,Bool.true_eq_false,false_or]
  split
  · rename_i empty
    rw [empty,parseChain_nil]
    simp [clientFromChain,walk]
  · rfl

-- The client may write the text for one element, and it names an address.
structure Names (std : Stdlib IP) (forwarded : Bool) (text : Bytes) (ip : IP) : Prop where
  whole : 44 ∉ text
  named : element std forwarded text = some ip

omit [DecidableEq IP] in
theorem Names.chain (names : Names std forwarded text ip) : parseChain std forwarded text = [ip] := by
  simp [parseChain,splitOn_eq_singleton names.whole,names.named]

theorem client_ip_independent_iff (std : Stdlib IP) (trusted : IP → Bool) (forwarded : Bool) (remote : IP) (near : Option Bytes)
    (peer : trusted remote = true) (two : ∃ text ip text' ip', Names std forwarded text ip ∧ Names std forwarded text' ip' ∧ ip ≠ ip') :
    (∀ claimed claimed' later later', clientIP std trusted forwarded remote (firstLine claimed near :: later) =
      clientIP std trusted forwarded remote (firstLine claimed' near :: later')) ↔
    ∃ ip ∈ nearChain std forwarded near, trusted ip = false := by
  simp only [clientIP_firstLine peer,clientFromChain,reverse_append]
  constructor
  · intro same
    by_contra none
    have all : ∀ ip ∈ (nearChain std forwarded near).reverse, trusted ip = true := by
      intro ip mem
      by_contra untrusted
      exact none ⟨ip,mem_reverse.mp mem,by simpa using untrusted⟩
    obtain ⟨text,ip,text',ip',names,names',apart⟩ := two
    have differs := same text text' [] []
    rw [names.chain,names'.chain,reverse_singleton,reverse_singleton,walk_trusted peer all,walk_trusted peer all] at differs
    split at differs
    · rename_i here
      rw [if_neg fun there => apart (here.trans there.symm)] at differs
      cases differs
    · split at differs
      · cases differs
      · exact apart (Option.some.inj differs)
  · rintro ⟨ip,mem,untrusted⟩ claimed claimed' _ _
    have stops : ∃ ip ∈ (nearChain std forwarded near).reverse, trusted ip = false := ⟨ip,mem_reverse.mpr mem,untrusted⟩
    rw [walk_stops stops,walk_stops stops]

-- The library on texts without a colon, and proxies in 10.0.0.0/8.
def dottedQuad (b : Bytes) : Option (List Nat) :=
  if (b.splitOn 46).length = 4 then (b.splitOn 46).mapM fun part => (decimal part).filter fun n => n ≤ 255 ∧ itoa n = part else none

def quads : Stdlib (List Nat) := ⟨fun _ => none,dottedQuad⟩

def inTen (ip : List Nat) : Bool := ip.head? == some 10

theorem client_ip_independent_named : clientIP quads inTen false [10,0,0,1] [firstLine (ascii "1.2.3.4") (some (ascii "7.7.7.7, 10.0.0.2"))] =
    clientIP quads inTen false [10,0,0,1] [firstLine [] (some (ascii "7.7.7.7, 10.0.0.2"))] :=
  (client_ip_independent_iff quads inTen false [10,0,0,1] (some (ascii "7.7.7.7, 10.0.0.2")) (by decide)
    ⟨ascii "1.2.3.4",[1,2,3,4],ascii "7.7.7.7",[7,7,7,7],⟨by decide,by decide⟩,⟨by decide,by decide⟩,by decide⟩).mpr
    ⟨[7,7,7,7],by decide,by decide⟩ _ _ _ _

-- The trusted hop reports its peer as unknown, and two field lines carry the elements.
theorem client_ip_claimed : clientIP quads inTen false [10,0,0,1] [firstLine (ascii "1.2.3.4") (some (ascii "unknown"))] = some [1,2,3,4] ∧
    clientIP quads inTen false [10,0,0,1] [firstLine (ascii "1.2.3.4") none,ascii "7.7.7.7"] = some [1,2,3,4] := by
  decide
end FhServer.RealIp
