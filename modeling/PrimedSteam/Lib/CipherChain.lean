import Mathlib.Algebra.Order.Group.Multiset
import Mathlib.Tactic.Abel

/-!
# Cipher block chaining

Blocks of any type `β`, with the exclusive or of two blocks and a cipher as parameters. The chaining
value starts as an initialization vector; each block is combined with the chaining value, which
becomes the encrypted block.

* `decrypt_encrypt`: decryption with the same initialization vector inverts encryption.
-/

set_option autoImplicit false

namespace CipherChain

variable {β : Type*} (xor : β → β → β) (E D : β → β)

/-- The chaining value before block `n` is encrypted. -/
def encryptIv (iv : β) (plain : ℕ → β) : ℕ → β
  | 0 => iv
  | n + 1 => E (xor (plain n) (encryptIv iv plain n))

/-- The encrypted block `n`. -/
def encrypt (iv : β) (plain : ℕ → β) (n : ℕ) : β := E (xor (plain n) (encryptIv xor E iv plain n))

/-- The chaining value before block `n` is decrypted. -/
def decryptIv (iv : β) (cipher : ℕ → β) : ℕ → β
  | 0 => iv
  | n + 1 => cipher n

/-- The decrypted block `n`. -/
def decrypt (iv : β) (cipher : ℕ → β) (n : ℕ) : β := xor (D (cipher n)) (decryptIv iv cipher n)

variable {xor E D}

theorem decryptIv_encrypt (iv : β) (plain : ℕ → β) (n : ℕ) :
    decryptIv iv (encrypt xor E iv plain) n = encryptIv xor E iv plain n := by
  cases n with
  | zero => rfl
  | succ n => rfl

/-- **Decryption with the same initialization vector inverts encryption.** -/
theorem decrypt_encrypt (hxor : ∀ a b, xor (xor a b) b = a) (hcipher : ∀ b, D (E b) = b) (iv : β)
    (plain : ℕ → β) (n : ℕ) : decrypt xor D iv (encrypt xor E iv plain) n = plain n := by
  rw [decrypt, decryptIv_encrypt, encrypt, hcipher, hxor]

theorem decrypt_congr {iv : β} {cipher cipher' : ℕ → β} {n : ℕ}
    (h : ∀ m ≤ n, cipher m = cipher' m) : decrypt xor D iv cipher n = decrypt xor D iv cipher' n := by
  cases n with
  | zero => rw [decrypt, decrypt, decryptIv, decryptIv, h 0 le_rfl]
  | succ n =>
    rw [decrypt, decrypt, decryptIv, decryptIv, h (n + 1) le_rfl, h n (Nat.le_succ n)]

end CipherChain
