import FhServer.GoBytes

namespace FhServer
open GoBytes

-- The content of a map[string]any, with its values as JSON has them.
abbrev JsonMap (V : Type) := Bytes → Option V

inductive MapChange (V : Type) where
  | set (key : Bytes) (value : V)
  | delete (key : Bytes)

-- The map after BodyParser, and whether bodyParserMapPtr is its pointer.
structure ParsedMap (V : Type) where
  content : JsonMap V
  kept : Bool
  bodyParserRawJSON : Bytes

section
variable {V : Type}

def MapChange.apply (m : JsonMap V) : MapChange V → JsonMap V
  | .set key value => Function.update m key (some value)
  | .delete key => Function.update m key none

def changed (m : JsonMap V) (changes : List (MapChange V)) : JsonMap V := changes.foldl MapChange.apply m

-- json.Unmarshal of a fresh map: an error, nil for null, or the entries. encode is writeJSONMapStringAny.
variable (decode : Bytes → Option (Option (JsonMap V))) (encode : JsonMap V → Bytes)

def jsonLooksObjectOrArray : Bytes → Bool
  | [] => false
  | c :: rest => if c == 32 || c == 10 || c == 13 || c == 9 then jsonLooksObjectOrArray rest else c == 123 || c == 91

def ParsedMap.json (p : ParsedMap V) (m : JsonMap V) : Bytes :=
  if p.kept && jsonLooksObjectOrArray p.bodyParserRawJSON then p.bodyParserRawJSON else encode m

end

end FhServer
