import FhServer.GoNumbers
import FhServer.IdealAead

namespace FhServer.Envelope
open GoBytes List

structure DataPolicy where
  encryptAtRest : Bool
  keyID : Bytes
  key : Bytes

structure SecureEnvelope where
  version : Int
  keyID : Bytes
  nonce : Bytes := []
  ciphertext : Bytes := []
  plaintext : Bytes := []
  bodyHash : Bytes

inductive EnvelopeError
  | shortKey
  | keySize
  | hashMismatch
  | aadMismatch
  | message
deriving DecidableEq

inductive Opened
  | ok (plaintext : Bytes)
  | failed (error : EnvelopeError)
  | panicked
deriving DecidableEq

def validKeySize (key : Bytes) : Bool := key.length == 16 || key.length == 24 || key.length == 32

def nonceSize : Nat := 12

-- The versions that are written are not negative.
def envelopeAAD (version : Int) (keyID : Bytes) : Bytes := ascii "v" ++ itoa version.toNat ++ ascii ":" ++ keyID

section
variable (cipher : Bytes → Aead) (hashBody : Bytes → Bytes)

def sealEnvelope (policy : DataPolicy) (nonce b : Bytes) : Except EnvelopeError SecureEnvelope :=
  if policy.key.length < 16 then .error .shortKey
  else if policy.encryptAtRest then
    if validKeySize policy.key then
      .ok { version := 2, keyID := policy.keyID, bodyHash := hashBody b, nonce, ciphertext := (cipher policy.key).encrypt nonce (envelopeAAD 2 policy.keyID) b }
    else .error .keySize
  else .ok { version := 2, keyID := policy.keyID, bodyHash := hashBody b, plaintext := b }

def checkHash (env : SecureEnvelope) (plaintext : Bytes) : Opened :=
  if env.bodyHash ≠ [] ∧ hashBody plaintext ≠ env.bodyHash then .failed .hashMismatch else .ok plaintext

def openEnvelope (log : List Sealing) (policy : DataPolicy) (env : SecureEnvelope) : Opened :=
  if policy.key.length < 16 then .failed .shortKey
  else if env.ciphertext = [] then checkHash hashBody env env.plaintext
  else if validKeySize policy.key then
    if env.nonce.length ≠ nonceSize then .panicked
    else
      let aad := if 2 ≤ env.version then envelopeAAD env.version env.keyID else []
      match (cipher policy.key).decrypt log env.nonce aad env.ciphertext with
      | some plaintext => checkHash hashBody env plaintext
      | none => .failed (if 2 ≤ env.version then .aadMismatch else .message)
  else .failed .keySize
end

structure SealCall where
  keyID : Bytes
  nonce : Bytes
  plaintext : Bytes

def SealCall.sealing (c : SealCall) : Sealing := ⟨c.nonce,envelopeAAD 2 c.keyID,c.plaintext⟩

theorem envelopeAAD_inj (written : 2 ≤ version)
    (same : envelopeAAD version keyID = envelopeAAD 2 keyID') : version = 2 ∧ keyID = keyID' := by
  simp only [envelopeAAD,append_assoc] at same
  have rest : itoa version.toNat ++ 58 :: keyID = itoa 2 ++ 58 :: keyID' := append_cancel_left same
  obtain ⟨number,key⟩ := colon_inj rest
  exact ⟨by lia,key⟩

variable {cipher : Bytes → Aead} {hashBody : Bytes → Bytes} {calls : List SealCall} {policy : DataPolicy} {env : SecureEnvelope}

theorem checkHash_ok (passed : checkHash hashBody env p = .ok q) : q = p := by
  unfold checkHash at passed
  split at passed
  · cases passed
  · cases passed
    rfl

theorem opened_ciphertext (some : env.ciphertext ≠ []) (opened : openEnvelope cipher hashBody (calls.map SealCall.sealing) policy env = .ok p) :
    ∃ c ∈ calls, c.plaintext = p ∧ c.keyID = env.keyID := by
  simp only [openEnvelope,if_neg some] at opened
  split at opened
  · cases opened
  split at opened
  · split at opened
    · cases opened
    split at opened
    · rename_i plaintext decrypted
      cases checkHash_ok opened
      obtain ⟨logged,-⟩ := Aead.decrypt_some decrypted
      obtain ⟨c,mem,same⟩ := mem_map.mp logged
      simp only [SealCall.sealing,Sealing.mk.injEq] at same
      obtain ⟨-,aad,rfl⟩ := same
      split at aad
      · rename_i written
        exact ⟨c,mem,rfl,(envelopeAAD_inj written aad.symm).2.symm⟩
      · simp [envelopeAAD] at aad
        cases aad.1
    · cases opened
  · cases opened

theorem sealed_opens (policy : DataPolicy) (encrypts : policy.encryptAtRest = true) (size : validKeySize policy.key = true)
    (call : ⟨policy.keyID,nonce,b⟩ ∈ calls) (long : nonce.length = nonceSize) :
    ∃ env, sealEnvelope cipher hashBody policy nonce b = .ok env ∧ openEnvelope cipher hashBody (calls.map SealCall.sealing) policy env = .ok b := by
  have enough : ¬ policy.key.length < 16 := by
    simp [validKeySize] at size
    lia
  refine ⟨_,by simp only [sealEnvelope,if_neg enough,encrypts,size,if_true]; rfl,?_⟩
  have logged : ⟨nonce,envelopeAAD 2 policy.keyID,b⟩ ∈ calls.map SealCall.sealing := mem_map_of_mem call
  have decrypted : (cipher policy.key).decrypt (calls.map SealCall.sealing) nonce (envelopeAAD 2 policy.keyID) _ = some b := Aead.decrypt_sealed logged
  simp [openEnvelope,enough,Aead.encrypt_ne_nil,size,long,decrypted,checkHash]

theorem envelopes_authentic_iff (cipher : Bytes → Aead) (hashBody : Bytes → Bytes) (calls : List SealCall) (policy : DataPolicy)
    (encrypts : policy.encryptAtRest = true) (env : SecureEnvelope) :
    ((∀ p, openEnvelope cipher hashBody (calls.map SealCall.sealing) policy env = .ok p → ∃ c ∈ calls, c.plaintext = p ∧ c.keyID = env.keyID) ↔
      policy.key.length < 16 ∨ env.ciphertext ≠ [] ∨ (env.bodyHash ≠ [] ∧ hashBody env.plaintext ≠ env.bodyHash) ∨
        ∃ c ∈ calls, c.plaintext = env.plaintext ∧ c.keyID = env.keyID) ∧
    ∀ nonce b, validKeySize policy.key = true → nonce.length = nonceSize → ⟨policy.keyID,nonce,b⟩ ∈ calls →
      ∃ env, sealEnvelope cipher hashBody policy nonce b = .ok env ∧ openEnvelope cipher hashBody (calls.map SealCall.sealing) policy env = .ok b := by
  constructor
  · constructor
    · intro authentic
      by_cases short : policy.key.length < 16
      · exact .inl short
      apply Or.inr
      by_cases some : env.ciphertext ≠ []
      · exact .inl some
      apply Or.inr
      by_cases wrong : env.bodyHash ≠ [] ∧ hashBody env.plaintext ≠ env.bodyHash
      · exact .inl wrong
      · apply Or.inr
        apply authentic
        rw [openEnvelope,if_neg short,if_pos (Classical.not_not.mp some),checkHash,if_neg wrong]
    · intro condition p opened
      by_cases some : env.ciphertext ≠ []
      · exact opened_ciphertext some opened
      rcases condition with short | there | wrong | found
      · rw [openEnvelope,if_pos short] at opened
        cases opened
      · exact absurd there some
      · unfold openEnvelope at opened
        split at opened
        · cases opened
        · rw [if_pos (Classical.not_not.mp some),checkHash,if_pos wrong] at opened
          cases opened
      · unfold openEnvelope at opened
        split at opened
        · cases opened
        · rw [if_pos (Classical.not_not.mp some)] at opened
          cases checkHash_ok opened
          exact found
  · intro nonce b size long call
    exact sealed_opens policy encrypts size call long

def atRest : DataPolicy := ⟨true,ascii "k1",replicate 16 7⟩

def shortCall : SealCall := ⟨ascii "k1",replicate 12 0,ascii "hi"⟩

theorem short_body_opens : ∃ env, sealEnvelope (fun _ => plainAead) id atRest shortCall.nonce shortCall.plaintext = .ok env ∧
    openEnvelope (fun _ => plainAead) id [shortCall.sealing] atRest env = .ok (ascii "hi") :=
  (envelopes_authentic_iff (fun _ => plainAead) id [shortCall] atRest rfl ⟨2,[],[],[],[],[]⟩).2 shortCall.nonce (ascii "hi") (by decide) (by decide)
    (by simp [shortCall,atRest])

-- An envelope without ciphertext and body hash opens although nothing was ever sealed.
theorem plain_envelope_opens : openEnvelope (fun _ => plainAead) id ([].map SealCall.sealing) atRest ⟨2,ascii "k1",[],[],ascii "forged",[]⟩ = .ok (ascii "forged") ∧
    ¬ ∃ c ∈ ([] : List SealCall), c.plaintext = ascii "forged" ∧ c.keyID = ascii "k1" := by
  refine ⟨by decide,?_⟩
  simp
end FhServer.Envelope
