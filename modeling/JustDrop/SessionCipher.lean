import JustDrop.Bincode
import JustDrop.Task

/-!
# Session keys and their ciphers

A key exchange gives each side one key for each direction. A cipher made from a
key counts its own encryptions and uses the counter as the nonce. What the nonces
of one key have in common is settled by the order of the calls alone: two ciphers
of one direction count from zero independently.
-/
namespace JustDrop
open Bincode

def NONCE_LEN : ℕ := 12

/-- Key length of ChaCha20-Poly1305. -/
def KEY_LEN : ℕ := 32

inductive CryptoError where
  | keyExchange
  | encryptionFailed
  | decryptionFailed
  | invalidKey
  deriving DecidableEq, Repr

/-- Sealing and opening under a key and a nonce; a sealed plaintext carries its tag. -/
structure Aead where
  sealInPlace : (key nonce plaintext : Bytes) → Option Bytes
  openInPlace : (key nonce ciphertext : Bytes) → Option Bytes

/-- Opening succeeds exactly on what was sealed under the same key and nonce. -/
def Aead.Ideal (aead : Aead) : Prop := ∀ key nonce ciphertext,
  (aead.openInPlace key nonce ciphertext).isSome ↔
    ∃ plaintext, aead.sealInPlace key nonce plaintext = some ciphertext

/-- Sealing that writes the key and the nonce in front. -/
def Aead.labelled : Aead where
  sealInPlace key nonce plaintext := some (key ++ nonce ++ plaintext)
  openInPlace key nonce ciphertext :=
    if key ++ nonce <+: ciphertext then some (ciphertext.drop (key ++ nonce).length) else none

theorem Aead.ideal_labelled : Aead.labelled.Ideal := by
  intro key nonce ciphertext
  simp only [labelled, Option.some.injEq]
  constructor
  · intro h
    split_ifs at h with hprefix
    · obtain ⟨plaintext, rfl⟩ := hprefix
      exact ⟨plaintext, rfl⟩
    · simp at h
  · rintro ⟨plaintext, rfl⟩
    simp

/-! ### Keys -/

structure SessionKeys where
  encryptKey : Bytes
  decryptKey : Bytes
  deriving DecidableEq, Repr

/-- HKDF with SHA-256: the pseudorandom key of a salt and a secret, and its expansion. -/
structure Hkdf where
  extract : (salt secret : Bytes) → Bytes
  expand : (prk info : Bytes) → (length : ℕ) → Option Bytes

structure SessionCipher where
  key : Bytes
  nonceCounter : ℕ
  deriving DecidableEq, Repr

def SessionCipher.new (keyBytes : Bytes) : Except CryptoError SessionCipher :=
  if keyBytes.length = KEY_LEN then .ok { key := keyBytes, nonceCounter := 0 }
  else .error .invalidKey

namespace SessionKeys

def derive (hkdf : Hkdf) (sharedSecret : Bytes) (isInitiator : Bool) :
    Except CryptoError SessionKeys :=
  let prk := hkdf.extract (utf8 "justdrop-session-v1") sharedSecret
  match hkdf.expand prk (utf8 "initiator-key") KEY_LEN with
  | none => .error .keyExchange
  | some initiatorKey =>
    match hkdf.expand prk (utf8 "responder-key") KEY_LEN with
    | none => .error .keyExchange
    | some responderKey =>
      if isInitiator then .ok { encryptKey := initiatorKey, decryptKey := responderKey }
      else .ok { encryptKey := responderKey, decryptKey := initiatorKey }

def encryptor (keys : SessionKeys) : Except CryptoError SessionCipher :=
  SessionCipher.new keys.encryptKey

def decryptor (keys : SessionKeys) : Except CryptoError SessionCipher :=
  SessionCipher.new keys.decryptKey

/-- The keys of the other side. -/
def mirror (keys : SessionKeys) : SessionKeys :=
  { encryptKey := keys.decryptKey, decryptKey := keys.encryptKey }

/-- The two sides of an exchange hold each other's keys. -/
theorem derive_mirror (hkdf : Hkdf) (sharedSecret : Bytes) (isInitiator : Bool) :
    derive hkdf sharedSecret (!isInitiator) =
      (derive hkdf sharedSecret isInitiator).map mirror := by
  unfold derive
  dsimp only
  split
  · rfl
  · split
    · rfl
    · cases isInitiator <;> rfl

end SessionKeys

/-! ### A cipher -/

namespace SessionCipher

/-- The counter in little endian, padded with zeros. -/
def nonceOf (counter : ℕ) : Bytes := leBytes 8 counter ++ List.replicate 4 0

/-- Counters of 64 bits have different nonces. -/
theorem nonceOf_injective {m n : ℕ} (hm : m < 2 ^ 64) (hn : n < 2 ^ 64)
    (h : nonceOf m = nonceOf n) : m = n := by
  have hbytes : leBytes 8 m = leBytes 8 n := List.append_cancel_right h
  simp only [leBytes, List.cons.injEq, and_true] at hbytes
  simp only [← UInt8.toNat_inj, UInt8.toNat_ofNat'] at hbytes
  omega

def nextNonce : Task SessionCipher CryptoError Bytes := do
  let cipher ← Task.get
  let counter := cipher.nonceCounter
  let next ← Task.ofChecked (checkedAdd 64 counter 1)
  Task.modify fun cipher => { cipher with nonceCounter := next }
  pure (nonceOf counter)

/-- The nonce used and the sealed buffer. -/
def encrypt (aead : Aead) (plaintext : Bytes) :
    Task SessionCipher CryptoError (Bytes × Bytes) := do
  let nonce ← nextNonce
  let cipher ← Task.get
  match aead.sealInPlace cipher.key nonce plaintext with
  | some ciphertext => pure (nonce, ciphertext)
  | none => Task.fail .encryptionFailed

/-- The opened buffer; the cipher is only read. -/
def decrypt (aead : Aead) (nonce ciphertext : Bytes) : Task SessionCipher CryptoError Bytes := do
  let cipher ← Task.get
  match aead.openInPlace cipher.key nonce ciphertext with
  | some plaintext => pure plaintext
  | none => Task.fail .decryptionFailed

/-- An encryption uses the counter and moves past it, whether or not the sealing
succeeds; past the last counter it panics. -/
theorem encrypt_run (aead : Aead) (plaintext : Bytes) (cipher : SessionCipher) :
    encrypt aead plaintext cipher =
      match checkedAdd 64 cipher.nonceCounter 1 with
      | none => (.panic, cipher)
      | some next =>
        (match aead.sealInPlace cipher.key (nonceOf cipher.nonceCounter) plaintext with
          | some ciphertext => .ok (nonceOf cipher.nonceCounter, ciphertext)
          | none => .err .encryptionFailed,
        { cipher with nonceCounter := next }) := by
  cases hnext : checkedAdd 64 cipher.nonceCounter 1 with
  | none =>
    have hnonce : nextNonce cipher = (.panic, cipher) := by
      simp only [nextNonce, Task.get_bind_run, hnext, Task.ofChecked_none, Task.panic_bind_run]
    rw [encrypt, Task.bind_of_panic hnonce]
  | some next =>
    have hnonce : nextNonce cipher = (.ok (nonceOf cipher.nonceCounter),
        { cipher with nonceCounter := next }) := by
      simp only [nextNonce, Task.get_bind_run, hnext, Task.ofChecked_some, Task.pure_bind_run,
        Task.modify_bind_run, Task.pure_run]
    rw [encrypt, Task.bind_of_ok hnonce, Task.get_bind_run]
    dsimp only
    cases aead.sealInPlace cipher.key (nonceOf cipher.nonceCounter) plaintext <;> rfl

theorem encrypt_of_lt (aead : Aead) (plaintext : Bytes) {cipher : SessionCipher}
    (hlt : cipher.nonceCounter + 1 < 2 ^ 64) :
    encrypt aead plaintext cipher =
      (match aead.sealInPlace cipher.key (nonceOf cipher.nonceCounter) plaintext with
        | some ciphertext => .ok (nonceOf cipher.nonceCounter, ciphertext)
        | none => .err .encryptionFailed,
      { cipher with nonceCounter := cipher.nonceCounter + 1 }) := by
  rw [encrypt_run, checkedAdd_eq_some.mpr ⟨hlt, rfl⟩]

theorem key_encrypt (aead : Aead) (plaintext : Bytes) (cipher : SessionCipher) :
    (encrypt aead plaintext cipher).2.key = cipher.key := by
  rw [encrypt_run]
  cases checkedAdd 64 cipher.nonceCounter 1 <;> rfl

/-- An encryption that succeeds has sealed its plaintext under the nonce it returns. -/
theorem encrypt_eq_ok {aead : Aead} {plaintext nonce ciphertext : Bytes}
    {cipher cipher' : SessionCipher}
    (h : encrypt aead plaintext cipher = (.ok (nonce, ciphertext), cipher')) :
    aead.sealInPlace cipher.key nonce plaintext = some ciphertext := by
  rw [encrypt_run] at h
  cases hnext : checkedAdd 64 cipher.nonceCounter 1 with
  | none => simp [hnext] at h
  | some next =>
    cases hseal : aead.sealInPlace cipher.key (nonceOf cipher.nonceCounter) plaintext with
    | none => simp [hnext, hseal] at h
    | some sealed =>
      simp only [hnext, hseal, Prod.mk.injEq, Outcome.ok.injEq] at h
      obtain ⟨⟨rfl, rfl⟩, -⟩ := h
      exact hseal

end SessionCipher

/-! ### Calls on one pair of keys -/

/-- The two keys of a side. -/
inductive Direction where
  | outgoing
  | incoming
  deriving DecidableEq, Repr

def SessionKeys.keyOf (keys : SessionKeys) : Direction → Bytes
  | .outgoing => keys.encryptKey
  | .incoming => keys.decryptKey

/-- A call on the keys, or on the `cipher`-th of the ciphers they have returned. -/
inductive CipherCall where
  | encryptor
  | decryptor
  | encrypt (cipher : ℕ) (plaintext : Bytes)
  deriving DecidableEq, Repr

def CipherCall.isEncrypt : CipherCall → Bool
  | .encrypt _ _ => true
  | _ => false

/-- The ciphers returned so far, and key and nonce of each successful encryption. -/
structure CipherPool where
  ciphers : List SessionCipher
  uses : List (Bytes × Bytes)
  deriving DecidableEq, Repr

namespace CipherPool

def add (pool : CipherPool) : Except CryptoError SessionCipher → CipherPool
  | .ok cipher => { pool with ciphers := pool.ciphers ++ [cipher] }
  | .error _ => pool

/-- A call on a cipher that was not returned is not possible. -/
def step (aead : Aead) (keys : SessionKeys) (pool : CipherPool) :
    CipherCall → Option CipherPool
  | .encryptor => some (pool.add keys.encryptor)
  | .decryptor => some (pool.add keys.decryptor)
  | .encrypt i plaintext =>
    match pool.ciphers[i]? with
    | none => none
    | some cipher =>
      let result := SessionCipher.encrypt aead plaintext cipher
      some {
        ciphers := pool.ciphers.set i result.2
        uses := match result.1 with
          | .ok (nonce, _) => pool.uses ++ [(cipher.key, nonce)]
          | _ => pool.uses }

def run (aead : Aead) (keys : SessionKeys) : List CipherCall → CipherPool → Option CipherPool
  | [], pool => some pool
  | call :: calls, pool => (pool.step aead keys call).bind (run aead keys calls)

end CipherPool

/-- The directions of the ciphers that the calls return. -/
def returned (keys : SessionKeys) (calls : List CipherCall) : List Direction :=
  calls.filterMap fun
    | .encryptor => if keys.encryptKey.length = KEY_LEN then some .outgoing else none
    | .decryptor => if keys.decryptKey.length = KEY_LEN then some .incoming else none
    | .encrypt _ _ => none

/-- The plaintexts passed to a cipher, in order. -/
def attempts (calls : List CipherCall) (i : ℕ) : List Bytes :=
  calls.filterMap fun
    | .encrypt j plaintext => if j = i then some plaintext else none
    | _ => none

/-- The `k`-th encryption on the `i`-th cipher is made, and the sealing succeeds. -/
def SealedAt (aead : Aead) (keys : SessionKeys) (calls : List CipherCall) (i k : ℕ) : Prop :=
  ∃ direction plaintext, (returned keys calls)[i]? = some direction ∧
    (attempts calls i)[k]? = some plaintext ∧
    (aead.sealInPlace (keys.keyOf direction) (SessionCipher.nonceOf k) plaintext).isSome

/-- Two ciphers of one direction have both sealed at the same count. -/
def Clash (aead : Aead) (keys : SessionKeys) (calls : List CipherCall) : Prop :=
  ∃ i j k, i ≠ j ∧ (returned keys calls)[i]? = (returned keys calls)[j]? ∧
    SealedAt aead keys calls i k ∧ SealedAt aead keys calls j k

theorem attempts_append (calls : List CipherCall) (call : CipherCall) (i : ℕ) :
    attempts (calls ++ [call]) i = attempts calls i ++ attempts [call] i := by
  simp only [attempts, List.filterMap_append]

theorem returned_append (keys : SessionKeys) (calls : List CipherCall) (call : CipherCall) :
    returned keys (calls ++ [call]) = returned keys calls ++ returned keys [call] := by
  simp only [returned, List.filterMap_append]

@[simp] theorem attempts_encrypt (i j : ℕ) (plaintext : Bytes) :
    attempts [.encrypt j plaintext] i = if j = i then [plaintext] else [] := by
  by_cases h : j = i <;> simp [attempts, h]

theorem returned_encryptor (keys : SessionKeys) : returned keys [.encryptor] =
    if (keys.keyOf .outgoing).length = KEY_LEN then [.outgoing] else [] := by
  by_cases h : keys.encryptKey.length = KEY_LEN <;> simp [returned, SessionKeys.keyOf, h]

theorem returned_decryptor (keys : SessionKeys) : returned keys [.decryptor] =
    if (keys.keyOf .incoming).length = KEY_LEN then [.incoming] else [] := by
  by_cases h : keys.decryptKey.length = KEY_LEN <;> simp [returned, SessionKeys.keyOf, h]

@[simp] theorem returned_encrypt (keys : SessionKeys) (i : ℕ) (plaintext : Bytes) :
    returned keys [.encrypt i plaintext] = [] := rfl

theorem length_attempts_le (calls : List CipherCall) (i : ℕ) :
    (attempts calls i).length ≤ calls.countP CipherCall.isEncrypt := by
  induction calls with
  | nil => simp [attempts]
  | cons call calls ih =>
    cases call with
    | encryptor => simpa [attempts, CipherCall.isEncrypt] using ih
    | decryptor => simpa [attempts, CipherCall.isEncrypt] using ih
    | encrypt j plaintext =>
      have hcount : (CipherCall.encrypt j plaintext :: calls).countP CipherCall.isEncrypt =
          calls.countP CipherCall.isEncrypt + 1 := List.countP_cons_of_pos rfl
      have happend : attempts (.encrypt j plaintext :: calls) i =
          attempts [.encrypt j plaintext] i ++ attempts calls i := by
        simp only [attempts, ← List.filterMap_append, List.singleton_append]
      rw [hcount, happend, List.length_append, attempts_encrypt]
      split_ifs
      · rw [List.length_singleton]
        omega
      · rw [List.length_nil]
        omega

/-- After the calls, each cipher has counted its encryptions, and the recorded
uses are the sealings, each once. -/
structure CipherPool.Accounts (aead : Aead) (keys : SessionKeys) (calls : List CipherCall)
    (pool : CipherPool) : Prop where
  ciphers : pool.ciphers = (returned keys calls).mapIdx fun i direction =>
    { key := keys.keyOf direction, nonceCounter := (attempts calls i).length }
  unreturned : ∀ i, (returned keys calls).length ≤ i → attempts calls i = []
  uses : ∃ log : List (ℕ × ℕ), log.Nodup ∧
    (∀ i k, (i, k) ∈ log ↔ SealedAt aead keys calls i k) ∧
    pool.uses = log.map fun entry =>
      ((((returned keys calls)[entry.1]?).map keys.keyOf).getD [],
        SessionCipher.nonceOf entry.2)

section Accounts
variable {aead : Aead} {keys : SessionKeys} {calls : List CipherCall} {pool : CipherPool}

theorem SealedAt.lt_length {i k : ℕ} (h : SealedAt aead keys calls i k) :
    i < (returned keys calls).length := by
  obtain ⟨direction, _, hdirection, -⟩ := h
  exact (List.getElem?_eq_some_iff.mp hdirection).1

theorem SealedAt.lt_attempts {i k : ℕ} (h : SealedAt aead keys calls i k) :
    k < (attempts calls i).length := by
  obtain ⟨_, plaintext, -, hplaintext, -⟩ := h
  exact (List.getElem?_eq_some_iff.mp hplaintext).1

namespace CipherPool

theorem accounts_empty : Accounts aead keys [] { ciphers := [], uses := [] } where
  ciphers := rfl
  unreturned _ _ := rfl
  uses := by
    refine ⟨[], List.nodup_nil, fun i k => ⟨fun h => absurd h List.not_mem_nil, fun h => ?_⟩, rfl⟩
    exact absurd h.lt_length (Nat.not_lt_zero i)

/-- The recorded uses name the same keys when ciphers are added. -/
theorem Accounts.map_log {log : List (ℕ × ℕ)}
    (hlog : ∀ i k, (i, k) ∈ log → SealedAt aead keys calls i k) (more : List Direction) :
    (log.map fun entry => ((((returned keys calls ++ more)[entry.1]?).map keys.keyOf).getD [],
      SessionCipher.nonceOf entry.2)) =
    log.map fun entry => ((((returned keys calls)[entry.1]?).map keys.keyOf).getD [],
      SessionCipher.nonceOf entry.2) := by
  refine List.map_congr_left fun entry hentry => ?_
  rw [List.getElem?_append_left (hlog _ _ hentry).lt_length]

/-- A new cipher has encrypted nothing. -/
theorem Accounts.add (h : Accounts aead keys calls pool) {call : CipherCall}
    (direction : Direction) (hattempts : ∀ i, attempts [call] i = [])
    (hreturned : returned keys [call] =
      if (keys.keyOf direction).length = KEY_LEN then [direction] else []) :
    Accounts aead keys (calls ++ [call])
      (pool.add (SessionCipher.new (keys.keyOf direction))) := by
  have hatt : attempts (calls ++ [call]) = attempts calls := by
    funext i
    rw [attempts_append, hattempts, List.append_nil]
  have hsealed : ∀ i k, SealedAt aead keys (calls ++ [call]) i k ↔
      SealedAt aead keys calls i k := by
    intro i k
    unfold SealedAt
    rw [returned_append, hatt]
    by_cases hi : i < (returned keys calls).length
    · rw [List.getElem?_append_left hi]
    · rw [h.unreturned i (Nat.not_lt.mp hi)]
      simp
  obtain ⟨log, hnodup, hlog, huses⟩ := h.uses
  have hadd : (pool.add (SessionCipher.new (keys.keyOf direction))).uses = pool.uses := by
    unfold SessionCipher.new
    split_ifs <;> rfl
  refine ⟨?_, fun i hi => ?_, log, hnodup, fun i k => (hlog i k).trans (hsealed i k).symm, ?_⟩
  · rw [returned_append, hatt, hreturned, List.mapIdx_append, ← h.ciphers]
    unfold SessionCipher.new
    split_ifs
    · have hnone := h.unreturned _ (Nat.le_refl (returned keys calls).length)
      simp [CipherPool.add, hnone]
    · simp [CipherPool.add]
  · rw [hatt]
    rw [returned_append, List.length_append] at hi
    exact h.unreturned i (by omega)
  · rw [hadd, huses, returned_append, map_log fun i k => (hlog i k).mp]

/-- An encryption on the `j`-th cipher is its next one. -/
theorem sealedAt_encrypt (aead : Aead) {j : ℕ}
    {direction : Direction} (hj : (returned keys calls)[j]? = some direction)
    (plaintext : Bytes) (i k : ℕ) :
    SealedAt aead keys (calls ++ [.encrypt j plaintext]) i k ↔
      SealedAt aead keys calls i k ∨ (i = j ∧ k = (attempts calls j).length ∧
        (aead.sealInPlace (keys.keyOf direction) (SessionCipher.nonceOf k)
          plaintext).isSome) := by
  unfold SealedAt
  rw [returned_append, returned_encrypt, List.append_nil, attempts_append, attempts_encrypt]
  by_cases hij : j = i
  · subst hij
    rw [if_pos rfl, hj]
    by_cases hk : k < (attempts calls j).length
    · rw [List.getElem?_append_left hk]
      constructor
      · exact Or.inl
      · rintro (hsealed | ⟨-, rfl, -⟩)
        · exact hsealed
        · omega
    · rw [List.getElem?_append_right (Nat.not_lt.mp hk),
        List.getElem?_eq_none (Nat.not_lt.mp hk)]
      by_cases hlast : k = (attempts calls j).length
      · subst hlast
        simp
      · have : ([plaintext] : List Bytes)[k - (attempts calls j).length]? = none :=
          List.getElem?_eq_none (by rw [List.length_singleton]; omega)
        simp [this, hlast]
  · rw [if_neg hij, List.append_nil]
    simp [Ne.symm hij]

/-- The cipher that call `j` returned has counted the attempts made on it. -/
theorem Accounts.cipher (h : Accounts aead keys calls pool) {j : ℕ} {direction : Direction}
    (hj : (returned keys calls)[j]? = some direction) : pool.ciphers[j]? =
      some { key := keys.keyOf direction, nonceCounter := (attempts calls j).length } := by
  rw [h.ciphers, List.getElem?_mapIdx, hj]
  rfl

/-- Only a cipher that has been returned can encrypt. -/
theorem Accounts.returned_of_step (h : Accounts aead keys calls pool) {j : ℕ} {plaintext : Bytes}
    {pool' : CipherPool} (hstep : pool.step aead keys (.encrypt j plaintext) = some pool') :
    ∃ direction, (returned keys calls)[j]? = some direction := by
  cases hj : (returned keys calls)[j]? with
  | some direction => exact ⟨direction, rfl⟩
  | none =>
    have hnone : pool.ciphers[j]? = none := by
      rw [h.ciphers, List.getElem?_mapIdx, hj]
      rfl
    simp [CipherPool.step, hnone] at hstep

/-- One more attempt on a cipher is one more on its counter. -/
theorem Accounts.ciphers_encrypt (h : Accounts aead keys calls pool) {j : ℕ}
    {direction : Direction} (hj : (returned keys calls)[j]? = some direction)
    (plaintext : Bytes) :
    pool.ciphers.set j
      { key := keys.keyOf direction, nonceCounter := (attempts calls j).length + 1 } =
      (returned keys calls).mapIdx fun i direction =>
        { key := keys.keyOf direction,
          nonceCounter := (attempts (calls ++ [.encrypt j plaintext]) i).length } := by
  have hlen : j < pool.ciphers.length := (List.getElem?_eq_some_iff.mp (h.cipher hj)).1
  refine List.ext_getElem? fun i => ?_
  rw [List.getElem?_mapIdx, List.getElem?_set, attempts_append, attempts_encrypt,
    List.length_append]
  by_cases hij : j = i
  · subst hij
    rw [if_pos rfl, if_pos rfl, if_pos hlen, hj]
    rfl
  · rw [if_neg hij, if_neg hij, h.ciphers, List.getElem?_mapIdx]
    rfl

/-- An encryption moves its own cipher by one and records a use when it seals. -/
theorem Accounts.encrypt (h : Accounts aead keys calls pool) {j : ℕ} {plaintext : Bytes}
    {pool' : CipherPool} (hstep : pool.step aead keys (.encrypt j plaintext) = some pool')
    (hlt : (attempts calls j).length + 1 < 2 ^ 64) :
    Accounts aead keys (calls ++ [.encrypt j plaintext]) pool' := by
  obtain ⟨direction, hj⟩ := h.returned_of_step hstep
  have hciphers := h.ciphers_encrypt hj plaintext
  simp only [CipherPool.step, h.cipher hj, Option.some.injEq] at hstep
  rw [SessionCipher.encrypt_of_lt aead plaintext hlt] at hstep
  have hreturned : returned keys (calls ++ [.encrypt j plaintext]) = returned keys calls := by
    rw [returned_append, returned_encrypt, List.append_nil]
  obtain ⟨log, hnodup, hlog, huses⟩ := h.uses
  have hsealed := sealedAt_encrypt aead hj plaintext
  subst hstep
  refine ⟨by rw [hreturned]; exact hciphers, fun i hi => ?_, ?_⟩
  · rw [hreturned] at hi
    have hne : j ≠ i := by
      rintro rfl
      rw [List.getElem?_eq_none hi] at hj
      simp at hj
    rw [attempts_append, attempts_encrypt, if_neg hne, h.unreturned i hi, List.append_nil]
  · cases hseal : aead.sealInPlace (keys.keyOf direction)
        (SessionCipher.nonceOf (attempts calls j).length) plaintext with
    | none =>
      refine ⟨log, hnodup, fun i k => (hlog i k).trans ((hsealed i k).trans ?_).symm, ?_⟩
      · rw [or_iff_left]
        rintro ⟨rfl, rfl, hsome⟩
        rw [hseal] at hsome
        simp at hsome
      · rw [hreturned, ← huses]
    | some ciphertext =>
      have hfresh : (j, (attempts calls j).length) ∉ log := fun hmem =>
        Nat.lt_irrefl _ ((hlog _ _).mp hmem).lt_attempts
      refine ⟨log ++ [(j, (attempts calls j).length)],
        List.nodup_append_comm.mpr (List.nodup_cons.mpr ⟨hfresh, hnodup⟩), fun i k => ?_, ?_⟩
      · rw [List.mem_append, List.mem_singleton, Prod.mk.injEq, hlog, hsealed]
        constructor
        · rintro (hold | ⟨rfl, rfl⟩)
          · exact Or.inl hold
          · exact Or.inr ⟨rfl, rfl, by rw [hseal]; rfl⟩
        · rintro (hold | ⟨rfl, rfl, -⟩)
          · exact Or.inl hold
          · exact Or.inr ⟨rfl, rfl⟩
      · rw [hreturned, List.map_append, ← huses, List.map_singleton, hj]
        rfl

theorem Accounts.step (h : Accounts aead keys calls pool) {call : CipherCall}
    {pool' : CipherPool} (hstep : pool.step aead keys call = some pool')
    (hlt : (calls ++ [call]).countP CipherCall.isEncrypt < 2 ^ 64) :
    Accounts aead keys (calls ++ [call]) pool' := by
  cases call with
  | encryptor =>
    obtain rfl := Option.some.inj hstep
    exact h.add .outgoing (fun _ => rfl) (returned_encryptor keys)
  | decryptor =>
    obtain rfl := Option.some.inj hstep
    exact h.add .incoming (fun _ => rfl) (returned_decryptor keys)
  | encrypt j plaintext =>
    have hcount := length_attempts_le (calls ++ [.encrypt j plaintext]) j
    rw [attempts_append, attempts_encrypt, if_pos rfl, List.length_append,
      List.length_singleton] at hcount
    exact h.encrypt hstep (by omega)

theorem Accounts.run (h : Accounts aead keys calls pool) {more : List CipherCall}
    {pool' : CipherPool} (hrun : CipherPool.run aead keys more pool = some pool')
    (hlt : (calls ++ more).countP CipherCall.isEncrypt < 2 ^ 64) :
    Accounts aead keys (calls ++ more) pool' := by
  induction more generalizing calls pool with
  | nil =>
    obtain rfl := Option.some.inj hrun
    rwa [List.append_nil]
  | cons call more ih =>
    obtain ⟨pool₁, hstep, hrest⟩ := Option.bind_eq_some_iff.mp hrun
    rw [List.append_cons] at hlt ⊢
    refine ih (h.step hstep ?_) hrest hlt
    rw [List.countP_append] at hlt
    omega

end CipherPool
end Accounts

/-- The uses of a run are pairwise different exactly when no two ciphers of one
direction have sealed at the same count. -/
theorem uses_nodup_iff (aead : Aead) (keys : SessionKeys)
    (hkeys : keys.encryptKey ≠ keys.decryptKey) (calls : List CipherCall)
    (hlt : calls.countP CipherCall.isEncrypt < 2 ^ 64)
    (pool : CipherPool)
    (hrun : CipherPool.run aead keys calls { ciphers := [], uses := [] } = some pool) :
    pool.uses.Nodup ↔ ¬Clash aead keys calls := by
  have haccounts := CipherPool.accounts_empty.run hrun hlt
  rw [List.nil_append] at haccounts
  obtain ⟨log, hnodup, hlog, huses⟩ := haccounts.uses
  have hinj : Function.Injective keys.keyOf := by
    intro a b hab
    cases a <;> cases b
    · rfl
    · exact absurd hab hkeys
    · exact absurd hab.symm hkeys
    · rfl
  rw [huses]
  constructor
  · rintro hdistinct ⟨i, j, k, hij, hdirection, hi, hj⟩
    have heq := List.inj_on_of_nodup_map hdistinct ((hlog i k).mpr hi) ((hlog j k).mpr hj)
      (by rw [hdirection])
    exact hij (Prod.mk.inj heq).1
  · intro hclash
    refine List.Nodup.map_on ?_ hnodup
    rintro ⟨i, k⟩ hi ⟨j, l⟩ hj heq
    obtain ⟨hkey, hnonce⟩ := Prod.mk.inj heq
    have hi' := (hlog i k).mp hi
    have hj' := (hlog j l).mp hj
    have hk := Nat.lt_of_lt_of_le hi'.lt_attempts (length_attempts_le calls i)
    have hl := Nat.lt_of_lt_of_le hj'.lt_attempts (length_attempts_le calls j)
    obtain rfl := SessionCipher.nonceOf_injective (by omega) (by omega) hnonce
    by_contra hne
    have hij : i ≠ j := fun h => hne (by rw [h])
    obtain ⟨a, _, ha, -⟩ := id hi'
    obtain ⟨b, _, hb, -⟩ := id hj'
    rw [ha, hb] at hkey
    exact hclash ⟨i, j, k, hij, by rw [ha, hb, hinj hkey], hi', hj'⟩

def sampleKeys : SessionKeys :=
  { encryptKey := List.replicate 32 1, decryptKey := List.replicate 32 2 }

/-- Two ciphers made from one key encrypt one message each. -/
def twoEncryptors : List CipherCall :=
  [.encryptor, .encryptor, .encrypt 0 [7], .encrypt 1 [8]]

def afterTwoEncryptors : CipherPool :=
  { ciphers := List.replicate 2 { key := sampleKeys.encryptKey, nonceCounter := 1 }
    uses := List.replicate 2 (sampleKeys.encryptKey, SessionCipher.nonceOf 0) }

theorem run_twoEncryptors : CipherPool.run Aead.labelled sampleKeys twoEncryptors
    { ciphers := [], uses := [] } = some afterTwoEncryptors := by decide +kernel

theorem uses_nodup_iff_two_encryptors : Clash Aead.labelled sampleKeys twoEncryptors := by
  have hiff := uses_nodup_iff Aead.labelled sampleKeys (by decide) twoEncryptors (by decide)
    afterTwoEncryptors run_twoEncryptors
  exact not_not.mp fun h => absurd (hiff.mpr h) (by decide)

/-- A second encryptor starts again from the first nonce. -/
theorem not_uses_nodup : ¬∀ (aead : Aead) (keys : SessionKeys),
    keys.encryptKey ≠ keys.decryptKey → ∀ calls : List CipherCall,
    calls.countP CipherCall.isEncrypt < 2 ^ 64 → ∀ pool : CipherPool,
    CipherPool.run aead keys calls { ciphers := [], uses := [] } = some pool →
    pool.uses.Nodup := by
  intro h
  exact absurd (h Aead.labelled sampleKeys (by decide) twoEncryptors (by decide)
    afterTwoEncryptors run_twoEncryptors) (by decide)

/-! ### Deliveries to a decryptor -/

namespace SessionCipher

/-- Nonce and ciphertext of each plaintext that is sealed, in order. -/
def sealedPairs (aead : Aead) : List Bytes → SessionCipher → List (Bytes × Bytes)
  | [], _ => []
  | plaintext :: plaintexts, cipher =>
    match encrypt aead plaintext cipher with
    | (.ok pair, cipher') => pair :: sealedPairs aead plaintexts cipher'
    | (_, cipher') => sealedPairs aead plaintexts cipher'

/-- The deliveries that are accepted, in order. -/
def accepted (aead : Aead) : List (Bytes × Bytes) → SessionCipher → List (Bytes × Bytes)
  | [], _ => []
  | delivery :: deliveries, cipher =>
    match decrypt aead delivery.1 delivery.2 cipher with
    | (.ok _, cipher') => delivery :: accepted aead deliveries cipher'
    | (_, cipher') => accepted aead deliveries cipher'

theorem sealed_of_mem {aead : Aead} {plaintexts : List Bytes} {cipher : SessionCipher}
    {pair : Bytes × Bytes} (h : pair ∈ sealedPairs aead plaintexts cipher) :
    ∃ plaintext, aead.sealInPlace cipher.key pair.1 plaintext = some pair.2 := by
  induction plaintexts generalizing cipher with
  | nil => simp [sealedPairs] at h
  | cons plaintext plaintexts ih =>
    have hkey := key_encrypt aead plaintext cipher
    unfold sealedPairs at h
    rcases hencrypt : encrypt aead plaintext cipher with ⟨pair' | e | _, cipher'⟩
    · rw [hencrypt] at h hkey
      rcases List.mem_cons.mp h with rfl | hmem
      · exact ⟨plaintext, encrypt_eq_ok hencrypt⟩
      · exact hkey ▸ ih hmem
    · rw [hencrypt] at h hkey
      exact hkey ▸ ih h
    · rw [hencrypt] at h hkey
      exact hkey ▸ ih h

/-- Decryption keeps no record: each delivery is judged alone. -/
theorem accepted_eq_filter (aead : Aead) (deliveries : List (Bytes × Bytes))
    (cipher : SessionCipher) : accepted aead deliveries cipher =
      deliveries.filter fun d => (aead.openInPlace cipher.key d.1 d.2).isSome := by
  induction deliveries with
  | nil => rfl
  | cons delivery deliveries ih =>
    unfold accepted
    rw [List.filter_cons]
    cases hopen : aead.openInPlace cipher.key delivery.1 delivery.2 with
    | none => simp [decrypt, hopen, ih]
    | some plaintext => simp [decrypt, hopen, ih]

/-- Of the pairs the other side has sealed, none is accepted twice exactly when
none is delivered twice. -/
theorem accepted_nodup_iff (aead : Aead) (hideal : aead.Ideal) (keys : SessionKeys)
    (sender decryptor : SessionCipher) (hsender : keys.mirror.encryptor = .ok sender)
    (hdecryptor : keys.decryptor = .ok decryptor) (plaintexts : List Bytes)
    (deliveries : List (Bytes × Bytes))
    (hsealed : ∀ delivery ∈ deliveries, delivery ∈ sealedPairs aead plaintexts sender) :
    (accepted aead deliveries decryptor).Nodup ↔ deliveries.Nodup := by
  have hsame : sender = decryptor := Except.ok.inj (hsender.symm.trans hdecryptor)
  have hall : ∀ d ∈ deliveries, (aead.openInPlace decryptor.key d.1 d.2).isSome := by
    intro d hd
    obtain ⟨plaintext, hplaintext⟩ := sealed_of_mem (hsealed d hd)
    exact (hideal _ _ _).mpr ⟨plaintext, hsame ▸ hplaintext⟩
  rw [accepted_eq_filter, List.filter_eq_self.mpr hall]

def sampleCipher : SessionCipher := { key := sampleKeys.decryptKey, nonceCounter := 0 }

/-- The only pair the other side has sealed for the plaintext `[7]`. -/
def samplePair : Bytes × Bytes :=
  (nonceOf 0, sampleKeys.decryptKey ++ nonceOf 0 ++ [7])

theorem accepted_nodup_iff_twice :
    ¬(accepted Aead.labelled [samplePair, samplePair] sampleCipher).Nodup :=
  (accepted_nodup_iff Aead.labelled Aead.ideal_labelled sampleKeys sampleCipher sampleCipher
    rfl rfl [[7]] [samplePair, samplePair] (by decide)).not.mpr (by decide)

/-- A pair delivered twice is accepted twice. -/
theorem not_accepted_nodup : ¬∀ (aead : Aead), aead.Ideal → ∀ (keys : SessionKeys)
    (sender decryptor : SessionCipher), keys.mirror.encryptor = .ok sender →
    keys.decryptor = .ok decryptor → ∀ (plaintexts : List Bytes)
    (deliveries : List (Bytes × Bytes)),
    (∀ delivery ∈ deliveries, delivery ∈ sealedPairs aead plaintexts sender) →
    (accepted aead deliveries decryptor).Nodup := by
  intro h
  have htwice := h Aead.labelled Aead.ideal_labelled sampleKeys sampleCipher sampleCipher rfl rfl
    [[7]] [samplePair, samplePair] (by decide)
  exact absurd htwice (by decide)

end SessionCipher
end JustDrop
