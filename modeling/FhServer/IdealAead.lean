import Mathlib

structure Aead where
  encrypt : (nonce aad plaintext : List UInt8) → List UInt8
  overhead : Nat
  tagged : 0 < overhead
  length : ∀ nonce aad plaintext, (encrypt nonce aad plaintext).length = plaintext.length+overhead
  injective : ∀ nonce aad p q, encrypt nonce aad p = encrypt nonce aad q → p = q

structure Sealing where
  nonce : List UInt8
  aad : List UInt8
  plaintext : List UInt8

namespace Aead
variable (cipher : Aead) (log : List Sealing)

-- Opening succeeds on what has been sealed with the same nonce and additional data, and on nothing else.
def decrypt (nonce aad ciphertext : List UInt8) : Option (List UInt8) :=
  (log.find? fun s => s.nonce = nonce ∧ s.aad = aad ∧ cipher.encrypt nonce aad s.plaintext = ciphertext).map Sealing.plaintext

variable {cipher log}

theorem decrypt_some (opened : cipher.decrypt log nonce aad ciphertext = some p) : ⟨nonce,aad,p⟩ ∈ log ∧ cipher.encrypt nonce aad p = ciphertext := by
  obtain ⟨s,found,rfl⟩ := Option.map_eq_some_iff.mp opened
  have matched := List.find?_some found
  simp only [decide_eq_true_eq] at matched
  obtain ⟨rfl,rfl,same⟩ := matched
  exact ⟨List.mem_of_find?_eq_some found,same⟩

theorem decrypt_sealed (sealed : ⟨nonce,aad,p⟩ ∈ log) : cipher.decrypt log nonce aad (cipher.encrypt nonce aad p) = some p := by
  cases opened : cipher.decrypt log nonce aad (cipher.encrypt nonce aad p) with
  | some q => rw [cipher.injective nonce aad q p (decrypt_some opened).2]
  | none =>
    simp only [decrypt,Option.map_eq_none_iff,List.find?_eq_none] at opened
    have missed := opened _ sealed
    simp at missed

theorem encrypt_ne_nil (cipher : Aead) (nonce aad p : List UInt8) : cipher.encrypt nonce aad p ≠ [] := by
  intro empty
  have long := cipher.length nonce aad p
  have tagged := cipher.tagged
  simp [empty] at long
  lia
end Aead

def plainAead : Aead where
  encrypt _ _ p := p ++ List.replicate 16 0
  overhead := 16
  tagged := by decide
  length := by simp
  injective := by simp
