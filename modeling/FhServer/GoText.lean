import FhServer.GoBytes

namespace FhServer.GoText
open GoBytes List

def continuation (c : UInt8) : Bool := 0x80 ≤ c && c ≤ 0xBF

-- The length of the UTF-8 encoded rune at the front, or none when it is not one.
def runeLength : Bytes → Option Nat
  | [] => none
  | a :: rest =>
    if a < 0x80 then some 1
    else match rest with
      | b :: more =>
        if 0xC2 ≤ a && a ≤ 0xDF && continuation b then some 2
        else match more with
          | c :: more =>
            let second : Bool := if a == 0xE0 then 0xA0 ≤ b && b ≤ 0xBF else if a == 0xED then 0x80 ≤ b && b ≤ 0x9F else continuation b
            if 0xE0 ≤ a && a ≤ 0xEF && second && continuation c then some 3
            else match more with
              | d :: _ =>
                let second : Bool := if a == 0xF0 then 0x90 ≤ b && b ≤ 0xBF else if a == 0xF4 then 0x80 ≤ b && b ≤ 0x8F else continuation b
                if 0xF0 ≤ a && a ≤ 0xF4 && second && continuation c && continuation d then some 4 else none
              | [] => none
          | [] => none
      | [] => none

def replacement : Bytes := [0xEF,0xBF,0xBD]

def jsonTextLoop : Nat → Bytes → Bytes
  | 0, _ => []
  | fuel + 1, b =>
    match b with
    | [] => []
    | _ :: rest =>
      match runeLength b with
      | some n => b.take n ++ jsonTextLoop fuel (b.drop n)
      | none => replacement ++ jsonTextLoop fuel rest

-- A string after json.Marshal and json.Unmarshal: bytes that are no UTF-8 come back as U+FFFD.
def jsonText (b : Bytes) : Bytes := jsonTextLoop b.length b

theorem jsonText_ascii (plain : ∀ c ∈ b, c < 0x80) : jsonText b = b := by
  rw [jsonText]
  induction b with
  | nil => rfl
  | cons c b ih =>
    have one : runeLength (c :: b) = some 1 := by
      exact if_pos (plain c mem_cons_self)
    have rest : jsonTextLoop b.length b = b := ih fun d mem => plain d (mem_cons_of_mem c mem)
    simp only [length_cons,jsonTextLoop,one,take_succ_cons,take_zero,drop_succ_cons,drop_zero,rest]
    rfl

example : jsonText [107,0xFF] = [107,0xEF,0xBF,0xBD] := by decide

-- base64.RawURLEncoding. The decoder here takes trailing bits as they are and no line breaks.
def base64Alphabet : Bytes := ascii "ABCDEFGHIJKLMNOPQRSTUVWXYZabcdefghijklmnopqrstuvwxyz0123456789-_"

def base64Letter (n : Nat) : UInt8 := base64Alphabet.getD (n%64) 0

def base64Text : Bytes → Bytes
  | a :: b :: c :: rest =>
    let n := (a.toNat*256+b.toNat)*256+c.toNat
    [base64Letter (n/262144),base64Letter (n/4096),base64Letter (n/64),base64Letter n] ++ base64Text rest
  | [a,b] =>
    let n := (a.toNat*256+b.toNat)*4
    [base64Letter (n/4096),base64Letter (n/64),base64Letter n]
  | [a] => [base64Letter (a.toNat/4),base64Letter (a.toNat*16)]
  | [] => []

def base64Number (b : Bytes) : Option Nat := b.foldlM (fun n c => (base64Alphabet.idxOf? c).map (n*64+·)) 0

def base64Decode : Bytes → Option Bytes
  | a :: b :: c :: d :: rest => do
    let n ← base64Number [a,b,c,d]
    return [.ofNat (n/65536),.ofNat (n/256),.ofNat n] ++ (← base64Decode rest)
  | [a,b,c] => (base64Number [a,b,c]).map fun n => [.ofNat (n/1024),.ofNat (n/4)]
  | [a,b] => (base64Number [a,b]).map fun n => [.ofNat (n/16)]
  | [_] => none
  | [] => some []

example : base64Text [0,255,7,9] = ascii "AP8HCQ" ∧ base64Decode (ascii "AP8HCQ") = some [0,255,7,9] := by decide

-- The runes that simple folding takes to an ASCII letter: the long s and the Kelvin sign besides the letters themselves.
def foldRunes : Bytes → Bytes
  | 0xC5 :: 0xBF :: rest => 115 :: foldRunes rest
  | 0xE2 :: 0x84 :: 0xAA :: rest => 107 :: foldRunes rest
  | c :: rest => foldByte c :: foldRunes rest
  | [] => []

-- strings.EqualFold against an ASCII text.
def equalFold (b text : Bytes) : Bool := foldRunes b == text.map foldByte

-- strings.ToLower: rune by rune, an ASCII letter to its lower case form. Other runes may change their length.
structure Lowering where
  lower : Bytes → Bytes
  empty : lower [] = []
  letter : ∀ a c b, c < 0x80 → lower (a ++ c :: b) = lower a ++ foldByte c :: lower b

-- strings.ToUpper and strings.ToLower as far as the result is ASCII: besides the letters, the dotless i and the long s have
-- an ASCII upper case, the dotted I and the Kelvin sign an ASCII lower case. Every other rune stays outside ASCII.
def toUpper : Bytes → Bytes
  | 0xC4 :: 0xB1 :: rest => 73 :: toUpper rest
  | 0xC5 :: 0xBF :: rest => 83 :: toUpper rest
  | c :: rest => (if 97 ≤ c && c ≤ 122 then c - 32 else c) :: toUpper rest
  | [] => []

def toLower : Bytes → Bytes
  | 0xC4 :: 0xB0 :: rest => 105 :: toLower rest
  | 0xE2 :: 0x84 :: 0xAA :: rest => 107 :: toLower rest
  | c :: rest => foldByte c :: toLower rest
  | [] => []

theorem toLower_letter (a : Bytes) (c : UInt8) (b : Bytes) (plain : c < 0x80) : toLower (a ++ c :: b) = toLower a ++ foldByte c :: toLower b := by
  have other (d : UInt8) (high : 0x80 ≤ d) : c ≠ d := by
    rintro rfl
    exact UInt8.not_lt.mpr high plain
  fun_induction toLower a with
  | case1 rest ih => exact congrArg (105 :: ·) ih
  | case2 rest ih => exact congrArg (107 :: ·) ih
  | case3 d rest dotted kelvin ih =>
    -- the byte c belongs to none of the two longer runes
    rw [List.cons_append,toLower,ih]
    · rfl
    · rintro _ rfl is
      rcases rest with _ | ⟨e,rest⟩
      · exact other 0xB0 (by decide) (List.cons.inj is).1
      · cases is
        exact dotted rest rfl rfl
    · rintro _ rfl is
      rcases rest with _ | ⟨e,_ | ⟨f,rest⟩⟩
      · exact other 0x84 (by decide) (List.cons.inj is).1
      · exact other 0xAA (by decide) (List.cons.inj (List.cons.inj is).2).1
      · cases is
        exact kelvin rest rfl rfl
  | case4 =>
    rw [List.nil_append,toLower]
    · rfl
    · exact fun _ is _ => other 0xC4 (by decide) is
    · exact fun _ is _ => other 0xE2 (by decide) is

def lowering : Lowering := ⟨toLower,rfl,toLower_letter⟩
end FhServer.GoText
