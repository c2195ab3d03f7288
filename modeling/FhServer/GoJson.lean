import FhServer.GoText
import FhServer.GoNumbers

namespace FhServer.GoJson
open GoBytes GoText

-- The letters that json.Marshal does not write as they are.
def escapeByte (c : UInt8) : Bytes :=
  if c == 34 || c == 92 then [92,c]
  else if c == 8 then ascii "\\b"
  else if c == 12 then ascii "\\f"
  else if c == 10 then ascii "\\n"
  else if c == 13 then ascii "\\r"
  else if c == 9 then ascii "\\t"
  else if c < 32 || c == 38 || c == 60 || c == 62 then ascii "\\u00" ++ [digitByte (c.toNat/16),digitByte (c.toNat%16)]
  else [c]

def escapeRune (rune : Bytes) : Bytes :=
  if rune = [0xE2,0x80,0xA8] then ascii "\\u2028" else if rune = [0xE2,0x80,0xA9] then ascii "\\u2029" else rune

def quoteLoop : Nat → Bytes → Bytes
  | 0,_ => []
  | _,[] => []
  | fuel+1,c :: rest =>
    if c < 0x80 then escapeByte c ++ quoteLoop fuel rest
    else match runeLength (c :: rest) with
      | some n => escapeRune ((c :: rest).take n) ++ quoteLoop fuel ((c :: rest).drop n)
      | none => ascii "\\ufffd" ++ quoteLoop fuel rest

def quote (b : Bytes) : Bytes := [34] ++ quoteLoop b.length b ++ [34]

example : quote (ascii "a<\"b") = ascii "\"a\\u003c\\\"b\"" := by decide +kernel
example : quote [0xFF,0xC3,0xA9] = ascii "\"\\ufffd" ++ [0xC3,0xA9,34] := by decide +kernel
end FhServer.GoJson
