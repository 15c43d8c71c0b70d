import PrimedSteam.DiscIO.HashGroup

/-!
# Encrypted blocks

What the threads of `encryptGroup` write, and how it is decrypted.

* `output_output`, `decryptBlockHashes_encrypted`, `decryptBlockData_encrypted`: decryption.
* `encrypted_of_finished`: the encrypted group, for every schedule of the threads.
-/

set_option autoImplicit false

namespace VolumeWii

open Tasks Transition Program AES

/-! ## Decryption -/

section Decryption

variable {rounds : Rounds} {key : Block}

theorem xor_xor_cancel (a b : Block) : AES.xor (AES.xor a b) b = a := by
  funext k
  simp only [AES.xor]
  rw [BitVec.xor_assoc, BitVec.xor_self, BitVec.xor_zero]

theorem blockAt_output (iv : Block) (plain : Buffer) (n : ℕ) :
    blockAt ((⟨rounds, key, .encrypt⟩ : Context).output iv plain) (16 * n) =
      CipherChain.encrypt AES.xor (rounds.encrypt key) iv (fun n => blockAt plain (16 * n)) n := by
  funext r
  have hr := r.isLt
  have hdiv : (16 * n + (r : ℕ)) / 16 = n := by omega
  have hmod : (16 * n + (r : ℕ)) % 16 = r := by omega
  simp only [blockAt, Context.output, hdiv, hmod]

/-- **Decryption gets the bytes back**, of as many as are encrypted. -/
theorem output_output (hrounds : ∀ b, rounds.decrypt key (rounds.encrypt key b) = b) {iv : Block}
    {plain cipher : Buffer} {k : ℕ}
    (h : ∀ q < 16 * (k / 16) + 16,
      cipher q = (⟨rounds, key, .encrypt⟩ : Context).output iv plain q) :
    (⟨rounds, key, .decrypt⟩ : Context).output iv cipher k = plain k := by
  have hblocks : ∀ m ≤ k / 16, blockAt cipher (16 * m) =
      CipherChain.encrypt AES.xor (rounds.encrypt key) iv (fun n => blockAt plain (16 * n)) m := by
    intro m hm
    rw [← blockAt_output]
    funext r
    exact h _ (by omega)
  have hdecrypt : CipherChain.decrypt AES.xor (rounds.decrypt key) iv
      (fun n => blockAt cipher (16 * n)) (k / 16) = blockAt plain (16 * (k / 16)) := by
    rw [CipherChain.decrypt_congr hblocks, CipherChain.decrypt_encrypt xor_xor_cancel hrounds]
  simp only [Context.output, hdecrypt, blockAt]
  rw [Nat.div_add_mod]

/-- A block on the disc. -/
def encrypted (rounds : Rounds) (key : Block) (hashes : HashBlock) (data : Buffer) : Buffer :=
  let ctx : Context := ⟨rounds, key, .encrypt⟩
  let header := ctx.output ivZero hashes.bytes
  fun k => if k < blockHeaderSize then header k
    else ctx.output (blockAt header 0x3D0) data (k - blockHeaderSize)

theorem encrypted_header {hashes : HashBlock} {data : Buffer} {k : ℕ} (h : k < blockHeaderSize) :
    encrypted rounds key hashes data k =
      (⟨rounds, key, .encrypt⟩ : Context).output ivZero hashes.bytes k := if_pos h

theorem encrypted_data (hashes : HashBlock) (data : Buffer) (k : ℕ) :
    encrypted rounds key hashes data (blockHeaderSize + k) =
      (⟨rounds, key, .encrypt⟩ : Context).output
        (blockAt ((⟨rounds, key, .encrypt⟩ : Context).output ivZero hashes.bytes) 0x3D0) data k := by
  refine (if_neg (Nat.not_lt.mpr (Nat.le_add_right _ _))).trans ?_
  rw [Nat.add_sub_cancel_left]

theorem ofBytes_congr {m m' : Buffer} (h : ∀ k < 0x400, m k = m' k) :
    HashBlock.ofBytes m = HashBlock.ofBytes m' := by
  ext1
  · funext j k
    exact h _ (by omega)
  · funext k
    exact h _ (by omega)
  · funext j k
    exact h _ (by omega)
  · funext k
    exact h _ (by omega)
  · funext j k
    exact h _ (by omega)
  · funext k
    exact h _ (by omega)

theorem ofBytes_bytes (h : HashBlock) : HashBlock.ofBytes h.bytes = h := by
  ext1
  · funext j k
    have hdiv : (20 * (j : ℕ) + k) / 20 = j := by omega
    have hmod : (20 * (j : ℕ) + k) % 20 = k := by omega
    simp only [HashBlock.ofBytes, HashBlock.bytes]
    rw [dif_pos (by omega)]
    simp only [hdiv, hmod]
  · funext k
    simp only [HashBlock.ofBytes, HashBlock.bytes]
    rw [dif_neg (by omega), dif_pos (by omega)]
    simp
  · funext j k
    have hdiv : (0x280 + (20 * (j : ℕ) + k) - 0x280) / 20 = j := by omega
    have hmod : (0x280 + (20 * (j : ℕ) + k) - 0x280) % 20 = k := by omega
    simp only [HashBlock.ofBytes, HashBlock.bytes]
    rw [dif_neg (by omega), dif_neg (by omega), dif_pos (by omega)]
    simp only [hdiv, hmod]
  · funext k
    simp only [HashBlock.ofBytes, HashBlock.bytes]
    rw [dif_neg (by omega), dif_neg (by omega), dif_neg (by omega), dif_pos (by omega)]
    simp
  · funext j k
    have hdiv : (0x340 + (20 * (j : ℕ) + k) - 0x340) / 20 = j := by omega
    have hmod : (0x340 + (20 * (j : ℕ) + k) - 0x340) % 20 = k := by omega
    simp only [HashBlock.ofBytes, HashBlock.bytes]
    rw [dif_neg (by omega), dif_neg (by omega), dif_neg (by omega), dif_neg (by omega),
      dif_pos (by omega)]
    simp only [hdiv, hmod]
  · funext k
    simp only [HashBlock.ofBytes, HashBlock.bytes]
    rw [dif_neg (by omega), dif_neg (by omega), dif_neg (by omega), dif_neg (by omega),
      dif_neg (by omega), dif_pos (by omega)]
    simp

theorem crypt_eq (ctx : Context) (iv : Block) (bufIn bufOut : Buffer) {offset len k : ℕ}
    (hlen : len % 16 = 0) :
    ctx.crypt iv bufIn bufOut offset len k =
      if offset ≤ k ∧ k < offset + len then ctx.output iv bufIn (k - offset) else bufOut k := by
  rw [Context.crypt, if_neg (not_not.mpr hlen), write]

variable {hashes : HashBlock} {data block : Buffer}
  (hrounds : ∀ b, rounds.decrypt key (rounds.encrypt key b) = b)
  (hblock : ∀ k < blockTotalSize, block k = encrypted rounds key hashes data k)

include hrounds hblock

/-- **The hashes of a block are decrypted.** -/
theorem decryptBlockHashes_encrypted :
    decryptBlockHashes block ⟨rounds, key, .decrypt⟩ = hashes := by
  rw [decryptBlockHashes, ← ofBytes_bytes hashes]
  refine ofBytes_congr fun k hk => ?_
  rw [crypt_eq _ _ _ _ (by decide), if_pos ⟨Nat.zero_le _, by simpa [blockHeaderSize] using hk⟩]
  refine output_output hrounds fun q hq => ?_
  have hlt : q < blockHeaderSize := by
    simp only [blockHeaderSize]
    omega
  rw [hblock q (by simp only [blockTotalSize, blockHeaderSize, blockDataSize] at hlt ⊢; omega),
    encrypted_header hlt]

/-- **The data of a block is decrypted**, with an initialization vector of the encrypted header. -/
theorem decryptBlockData_encrypted {out : Buffer} {k : ℕ} (hk : k < blockDataSize) :
    decryptBlockData block out ⟨rounds, key, .decrypt⟩ k = data k := by
  have hiv : blockAt block 0x3D0 =
      blockAt ((⟨rounds, key, .encrypt⟩ : Context).output ivZero hashes.bytes) 0x3D0 := by
    funext r
    have hr := r.isLt
    have hlt : 0x3D0 + (r : ℕ) < blockHeaderSize := by
      simp only [blockHeaderSize]
      omega
    simp only [blockAt]
    rw [hblock _ (by simp only [blockTotalSize, blockHeaderSize, blockDataSize] at hlt ⊢; omega),
      encrypted_header hlt]
  rw [decryptBlockData, crypt_eq _ _ _ _ (by decide), if_pos ⟨Nat.zero_le _, by omega⟩, hiv]
  refine output_output hrounds fun q hq => ?_
  rw [hblock _ (by simp only [blockTotalSize, blockHeaderSize, blockDataSize] at hk ⊢; omega),
    encrypted_data]

end Decryption

/-! ## The encrypted group -/

section Encryption

variable {rounds : Rounds} {key : Block} {m : Arrays}

/-- **Block `j` of the group is encrypted.** -/
theorem encryptBlock_self (j : ℕ) (out : Buffer) {k : ℕ} (hk : k < blockTotalSize) :
    encryptBlock rounds key m j out (j * blockTotalSize + k) =
      encrypted rounds key (m.out j) (m.data j) k := by
  have hsize : blockTotalSize = blockHeaderSize + blockDataSize := rfl
  have hheader : ∀ q < blockHeaderSize,
      (⟨rounds, key, .encrypt⟩ : Context).crypt ivZero (m.out j).bytes out (j * blockTotalSize)
        blockHeaderSize (j * blockTotalSize + q) =
      (⟨rounds, key, .encrypt⟩ : Context).output ivZero (m.out j).bytes q := by
    intro q hq
    rw [crypt_eq _ _ _ _ (by decide), if_pos ⟨Nat.le_add_right _ _, by omega⟩,
      Nat.add_sub_cancel_left]
  rw [encryptBlock, crypt_eq _ _ _ _ (by decide)]
  by_cases hlt : k < blockHeaderSize
  · rw [if_neg (by omega), hheader k hlt, encrypted_header hlt]
  · obtain ⟨q, rfl⟩ := Nat.exists_eq_add_of_le (Nat.le_of_not_lt hlt)
    have hiv : blockAt ((⟨rounds, key, .encrypt⟩ : Context).crypt ivZero (m.out j).bytes out
          (j * blockTotalSize) blockHeaderSize) (j * blockTotalSize + 0x3D0) =
        blockAt ((⟨rounds, key, .encrypt⟩ : Context).output ivZero (m.out j).bytes) 0x3D0 := by
      funext r
      have hr := r.isLt
      simp only [blockAt]
      rw [Nat.add_assoc, hheader _ (by simp only [blockHeaderSize]; omega)]
    have hoffset : j * blockTotalSize + (blockHeaderSize + q) -
        (j * blockTotalSize + blockHeaderSize) = q := by omega
    rw [if_pos (by omega), encrypted_data, hiv, hoffset]

theorem encryptBlock_other {i j : ℕ} (hij : i ≠ j) (out : Buffer) {k : ℕ} (hk : k < blockTotalSize) :
    encryptBlock rounds key m j out (i * blockTotalSize + k) = out (i * blockTotalSize + k) := by
  have hsize : blockTotalSize = blockHeaderSize + blockDataSize := rfl
  have hapart : i * blockTotalSize + blockTotalSize ≤ j * blockTotalSize ∨
      j * blockTotalSize + blockTotalSize ≤ i * blockTotalSize := by
    rcases Nat.lt_or_gt_of_ne hij with hlt | hlt
    · exact .inl (by rw [← Nat.succ_mul]; exact Nat.mul_le_mul_right _ hlt)
    · exact .inr (by rw [← Nat.succ_mul]; exact Nat.mul_le_mul_right _ hlt)
  rw [encryptBlock, crypt_eq _ _ _ _ (by decide), if_neg (by omega), crypt_eq _ _ _ _ (by decide),
    if_neg (by omega)]

/-- The encryption of a block is over. -/
def Encrypted (rounds : Rounds) (key : Block) (m : Arrays) (j : ℕ) (out : Buffer) : Prop :=
  ∀ k < blockTotalSize, out (j * blockTotalSize + k) = encrypted rounds key (m.out j) (m.data j) k

theorem encryptProgram_sound (threads : ℕ) :
    (encryptProgram rounds key m threads).Sound (fun _ => True) (Encrypted rounds key m) where
  invariant _ := trivial
  establishes _ _ := fun _ hk => encryptBlock_self _ _ hk
  keeps hne h := fun k hk => (encryptBlock_other hne _ hk).trans (h k hk)

theorem exists_thread {threads j : ℕ} (n : ℕ) (hj : j < n * blocksPerGroup / threads) :
    ∃ i < n, i * blocksPerGroup / threads ≤ j ∧ j < (i + 1) * blocksPerGroup / threads := by
  induction n with
  | zero =>
    rw [Nat.zero_mul, Nat.zero_div] at hj
    exact absurd hj (Nat.not_lt_zero _)
  | succ n ih =>
    by_cases hlt : j < n * blocksPerGroup / threads
    · obtain ⟨i, hi, hrange⟩ := ih hlt
      exact ⟨i, hi.trans (Nat.lt_succ_self n), hrange⟩
    · exact ⟨n, Nat.lt_succ_self n, Nat.le_of_not_lt hlt, hj⟩

/-- **Every block is encrypted** when the threads are over. -/
theorem encrypted_of_finished {threads : ℕ} (hthreads : 0 < threads) {schedule : List ℕ}
    {out : Buffer} {s : State ℕ Buffer}
    (h : run (encryptProgram rounds key m threads).step anyStep (start out) schedule = some s)
    (hover : ∀ i < threads, s.pc i = ((encryptProgram rounds key m threads).code i).length) {j : ℕ}
    (hj : j < blocksPerGroup) : Encrypted rounds key m j s.memory := by
  have hpast := past_of_run (encryptProgram_sound threads) trivial h
  obtain ⟨i, hi, hle, hlt⟩ := exists_thread threads
    (show j < threads * blocksPerGroup / threads by rwa [Nat.mul_div_cancel_left _ hthreads])
  have hcode : ((encryptProgram rounds key m threads).code i)[j - i * blocksPerGroup / threads]? =
      some (.run j) := by
    rw [encryptProgram]
    simp only
    rw [if_pos hi, List.getElem?_map, List.getElem?_range' (by omega), Option.map_some]
    congr 2
    omega
  have hlength := (List.getElem?_eq_some_iff.mp hcode).1
  exact hpast.done (by rw [hover i hi]; exact hlength) hcode

variable (rounds key m) in
theorem encrypt_completes (threads : ℕ) (out : Buffer) :
    ∃ schedule s, run (encryptProgram rounds key m threads).step anyStep (start out) schedule =
        some s ∧
      (encryptProgram rounds key m threads).Finished s := by
  have hcode : ∀ {i k : ℕ} {instr : Instr ℕ ℕ}, ((encryptProgram rounds key m threads).code i)[k]? = some instr →
      ∃ j, instr = .run j := by
    intro i k instr h
    simp only [encryptProgram] at h
    split at h
    · rw [List.getElem?_map] at h
      obtain ⟨j, -, rfl⟩ := Option.map_eq_some_iff.mp h
      exact ⟨j, rfl⟩
    · cases h
  have hranked : (encryptProgram rounds key m threads).Ranked fun _ _ => 0 := by
    refine ⟨fun h => ?_, fun h => ?_⟩
    · obtain ⟨j, hj⟩ := hcode h
      cases hj
    · obtain ⟨j, hj⟩ := hcode h
      cases hj
  have htasks : ∀ i ∉ Finset.range threads, (encryptProgram rounds key m threads).code i = [] :=
    fun i hi => if_neg fun hlt => hi (Finset.mem_range.mpr hlt)
  exact exists_completion hranked htasks fun _ => Nat.zero_le _

end Encryption

end VolumeWii
