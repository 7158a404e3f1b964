import JustDrop.Runs
import JustDrop.SecureChannel
import JustDrop.SessionCipher

/-!
# Two sides with session keys

Each side seals with its encryptor and opens, in any order and as often as it is asked to,
what it is given with its decryptor. What a side opens is what the other side has sealed
under the same nonce, plaintext and all: nothing a side has sealed itself is opened by it,
and no nonce stands for two plaintexts. Only repeating, dropping and reordering are left.
-/
namespace JustDrop

structure Sealing where
  nonce : Bytes
  plaintext : Bytes
  ciphertext : Bytes
  deriving DecidableEq, Repr

/-- The ciphers of a side, what it has sealed and what it has opened. -/
structure CipherEnd where
  encryptor : SessionCipher
  decryptor : SessionCipher
  sealings : List Sealing
  openings : List Sealing

inductive CipherUse where
  | encrypt (plaintext : Bytes)
  | decrypt (nonce ciphertext : Bytes)

namespace CipherEnd

def new (keys : SessionKeys) : Except CryptoError CipherEnd := do
  let encryptor ← keys.encryptor
  let decryptor ← keys.decryptor
  return { encryptor, decryptor, sealings := [], openings := [] }

def use (aead : Aead) (party : CipherEnd) : CipherUse → CipherEnd
  | .encrypt plaintext =>
    match SessionCipher.encrypt aead plaintext party.encryptor with
    | (.ok (nonce, ciphertext), encryptor) =>
      { party with encryptor, sealings := party.sealings ++ [{ nonce, plaintext, ciphertext }] }
    | (_, encryptor) => { party with encryptor }
  | .decrypt nonce ciphertext =>
    match SessionCipher.decrypt aead nonce ciphertext party.decryptor with
    | (.ok plaintext, decryptor) =>
      { party with decryptor, openings := party.openings ++ [{ nonce, plaintext, ciphertext }] }
    | (_, decryptor) => { party with decryptor }

/-- What a side has sealed is numbered by its counter, and what it has opened opens. -/
structure Accounts (aead : Aead) (keys : SessionKeys) (party : CipherEnd) : Prop where
  encryptKey : party.encryptor.key = keys.encryptKey
  decryptKey : party.decryptor.key = keys.decryptKey
  counter : party.encryptor.nonceCounter < 2 ^ 64
  sealings : ∀ s ∈ party.sealings, (∃ n < party.encryptor.nonceCounter,
    s.nonce = SessionCipher.nonceOf n) ∧
      aead.sealInPlace keys.encryptKey s.nonce s.plaintext = some s.ciphertext
  nonces : (party.sealings.map Sealing.nonce).Nodup
  openings : ∀ o ∈ party.openings,
    aead.openInPlace keys.decryptKey o.nonce o.ciphertext = some o.plaintext

variable {aead : Aead} {keys : SessionKeys} {party : CipherEnd}

theorem accounts_new (h : new keys = .ok party) : party.Accounts aead keys := by
  unfold new SessionKeys.encryptor SessionKeys.decryptor SessionCipher.new at h
  split_ifs at h
  · obtain rfl := Except.ok.inj h
    constructor <;> simp
  all_goals simp [bind, Except.bind] at h

/-- A new sealing has the next nonce. -/
theorem Accounts.encrypt (h : party.Accounts aead keys) (plaintext : Bytes) :
    (party.use aead (.encrypt plaintext)).Accounts aead keys := by
  unfold use
  dsimp only
  rw [SessionCipher.encrypt_run]
  cases hnext : checkedAdd 64 party.encryptor.nonceCounter 1 with
  | none => exact ⟨h.encryptKey, h.decryptKey, h.counter, h.sealings, h.nonces, h.openings⟩
  | some next =>
    obtain ⟨hlt, hvalue⟩ := checkedAdd_eq_some.mp hnext
    have hkept : ∀ s ∈ party.sealings, (∃ n < next, s.nonce = SessionCipher.nonceOf n) ∧
        aead.sealInPlace keys.encryptKey s.nonce s.plaintext = some s.ciphertext := by
      intro s hs
      obtain ⟨⟨n, hn, hnonce⟩, hseal⟩ := h.sealings s hs
      exact ⟨⟨n, by omega, hnonce⟩, hseal⟩
    cases hseal : aead.sealInPlace party.encryptor.key
        (SessionCipher.nonceOf party.encryptor.nonceCounter) plaintext with
    | none => exact ⟨h.encryptKey, h.decryptKey, by simp; omega, hkept, h.nonces, h.openings⟩
    | some ciphertext =>
      refine ⟨h.encryptKey, h.decryptKey, by simp; omega, ?_, ?_, h.openings⟩
      · intro s hs
        rcases List.mem_append.mp hs with hold | hnew
        · exact hkept s hold
        · obtain rfl := List.mem_singleton.mp hnew
          exact ⟨⟨party.encryptor.nonceCounter, by simp; omega, rfl⟩, h.encryptKey ▸ hseal⟩
      · rw [List.map_append, List.nodup_append]
        refine ⟨h.nonces, List.nodup_singleton _, fun nonce hold nonce' hnew heq => ?_⟩
        obtain ⟨s, hs, rfl⟩ := List.mem_map.mp hold
        obtain ⟨⟨n, hn, hnonce⟩, -⟩ := h.sealings s hs
        rw [List.mem_singleton.mp hnew, hnonce] at heq
        have := SessionCipher.nonceOf_injective (by omega) (by omega) heq
        omega

theorem Accounts.decrypt (h : party.Accounts aead keys) (nonce ciphertext : Bytes) :
    (party.use aead (.decrypt nonce ciphertext)).Accounts aead keys := by
  simp only [use, SessionCipher.decrypt, Task.get_bind_run]
  cases hopen : aead.openInPlace party.decryptor.key nonce ciphertext with
  | none => exact h
  | some plaintext =>
    refine ⟨h.encryptKey, h.decryptKey, h.counter, h.sealings, h.nonces, fun o ho => ?_⟩
    rcases List.mem_append.mp ho with hold | hnew
    · exact h.openings o hold
    · obtain rfl := List.mem_singleton.mp hnew
      exact h.decryptKey ▸ hopen

theorem Accounts.use (h : party.Accounts aead keys) (call : CipherUse) :
    (party.use aead call).Accounts aead keys := by
  cases call with
  | encrypt plaintext => exact h.encrypt plaintext
  | decrypt nonce ciphertext => exact h.decrypt nonce ciphertext

end CipherEnd

/-! ### Both sides -/

abbrev SealedSession := Side → CipherEnd

namespace SealedSession
variable {aead : Aead} {session final : SealedSession}

/-- One side uses one of its ciphers; what it is asked to open is anybody's choice. -/
def Step (aead : Aead) (session : SealedSession) (call : Side × CipherUse)
    (session' : SealedSession) : Prop :=
  session' = Function.update session call.1 ((session call.1).use aead call.2)

/-- The keys of a side. -/
def keysOf (keys : SessionKeys) : Side → SessionKeys
  | .initiator => keys
  | .responder => keys.mirror

/-- Opening gives back what was sealed. -/
def Opens (aead : Aead) : Prop := ∀ key nonce plaintext ciphertext,
  aead.sealInPlace key nonce plaintext = some ciphertext →
    aead.openInPlace key nonce ciphertext = some plaintext

/-- Nothing forged: what a side has opened was sealed, by whichever side, under the same key
and nonce. -/
def Unforged (session : SealedSession) : Prop := ∀ side, ∀ o ∈ (session side).openings,
  ∃ maker, ∃ s ∈ (session maker).sealings,
    (session maker).encryptor.key = (session side).decryptor.key ∧
      s.nonce = o.nonce ∧ s.ciphertext = o.ciphertext

/-- Both sides derive their keys from the secret of one exchange. -/
def Starts (hkdf : Hkdf) (sharedSecret : Bytes) (session : SealedSession) : Prop :=
  ∀ side, ∃ keys, SessionKeys.derive hkdf sharedSecret (side = .initiator) = .ok keys ∧
    CipherEnd.new keys = .ok (session side)

/-- The responder has the keys of the initiator, the other way round. -/
theorem Starts.new_keysOf {hkdf : Hkdf} {sharedSecret : Bytes} {keys : SessionKeys}
    (h : Starts hkdf sharedSecret session)
    (hkeys : SessionKeys.derive hkdf sharedSecret true = .ok keys) (side : Side) :
    CipherEnd.new (keysOf keys side) = .ok (session side) := by
  obtain ⟨derived, hderived, hnew⟩ := h side
  cases side with
  | initiator =>
    obtain rfl := Except.ok.inj (hderived.symm.trans hkeys)
    exact hnew
  | responder =>
    have hmirror := SessionKeys.derive_mirror hkdf sharedSecret true
    rw [hkeys] at hmirror
    obtain rfl := Except.ok.inj (hderived.symm.trans hmirror)
    exact hnew

theorem accounts_of_run {keys : SessionKeys}
    (hstart : ∀ side, CipherEnd.new (keysOf keys side) = .ok (session side))
    {taken : List (SealedSession × (Side × CipherUse))}
    (run : Run (Step aead) session taken final) (side : Side) :
    (final side).Accounts aead (keysOf keys side) := by
  have hkept := run.always_of (I := fun s => ∀ side, (s side).Accounts aead (keysOf keys side))
    (C := fun _ _ => True) (fun side => CipherEnd.accounts_new (hstart side)) ?_ fun _ _ => trivial
  · exact hkept.2 side
  · rintro s ⟨caller, call⟩ s' h - rfl other
    by_cases hother : other = caller
    · rw [hother, Function.update_self]
      exact (h caller).use call
    · rw [Function.update_of_ne hother]
      exact h other

/-- The sides decrypt with each other's keys. -/
theorem encryptKey_other (keys : SessionKeys) (side : Side) :
    (keysOf keys side.other).encryptKey = (keysOf keys side).decryptKey := by
  cases side <;> rfl

/-- Whatever is delivered to whom, as long as nothing is forged: each opening of a side is a
sealing of the other side, the sealings of a side have different nonces, and each of them
opens whenever it is delivered. -/
theorem openings_of_run (hopens : Opens aead) {hkdf : Hkdf} {sharedSecret : Bytes}
    {keys : SessionKeys} (hderive : SessionKeys.derive hkdf sharedSecret true = .ok keys)
    (hkeys : keys.encryptKey ≠ keys.decryptKey) (hstarts : Starts hkdf sharedSecret session)
    {taken : List (SealedSession × (Side × CipherUse))}
    (run : Run (Step aead) session taken final) (hunforged : Unforged final) (side : Side) :
    (∀ o ∈ (final side).openings, o ∈ (final side.other).sealings) ∧
      ((final side).sealings.map Sealing.nonce).Nodup ∧
      ∀ s ∈ (final side.other).sealings,
        (SessionCipher.decrypt aead s.nonce s.ciphertext (final side).decryptor).1 =
          .ok s.plaintext := by
  have hstart := hstarts.new_keysOf hderive
  have hside := accounts_of_run hstart run side
  have hother := accounts_of_run hstart run side.other
  have hopened : ∀ s ∈ (final side.other).sealings,
      aead.openInPlace (keysOf keys side).decryptKey s.nonce s.ciphertext = some s.plaintext := by
    intro s hs
    rw [← encryptKey_other]
    exact hopens _ _ _ _ (hother.sealings s hs).2
  refine ⟨fun o ho => ?_, hside.nonces, fun s hs => ?_⟩
  · obtain ⟨maker, s, hs, hkey, hnonce, hciphertext⟩ := hunforged side o ho
    -- the maker is not the side itself, whose two keys differ
    have hmaker : maker = side.other := by
      rw [(accounts_of_run hstart run maker).encryptKey, hside.decryptKey] at hkey
      cases maker <;> cases side
      · exact absurd hkey hkeys
      · rfl
      · rfl
      · exact absurd hkey hkeys.symm
    subst hmaker
    have hplaintext : s.plaintext = o.plaintext := by
      have ho' := hside.openings o ho
      rw [← hnonce, ← hciphertext, hopened s hs] at ho'
      exact Option.some.inj ho'
    have hsame : s = o := by
      cases s
      cases o
      simp_all
    exact hsame ▸ hs
  · simp only [SessionCipher.decrypt, Task.get_bind_run]
    rw [hside.decryptKey, hopened s hs]
    rfl

/-! ### A message that is given to both sides -/

theorem opens_labelled : Opens Aead.labelled := by
  intro key nonce plaintext ciphertext hseal
  obtain rfl := Option.some.inj hseal
  simp [Aead.labelled]

/-- The secret of one exchange, and what HKDF makes of it. -/
def aSecret : Bytes :=
  [74, 93, 157, 91, 164, 206, 45, 225, 114, 142, 59, 244, 128, 53, 15, 37,
    224, 126, 33, 201, 71, 209, 158, 51, 118, 240, 155, 60, 30, 22, 23, 66]

def aPrk : Bytes :=
  [104, 104, 51, 143, 144, 189, 28, 90, 231, 184, 252, 146, 39, 132, 209, 62,
    216, 104, 148, 146, 130, 73, 66, 96, 22, 181, 196, 122, 68, 218, 147, 7]

def derivedKeys : SessionKeys where
  encryptKey := [145, 227, 239, 85, 53, 248, 27, 171, 162, 232, 83, 111, 189, 154, 241, 26,
    138, 57, 73, 169, 77, 246, 233, 92, 89, 89, 150, 250, 198, 18, 62, 177]
  decryptKey := [56, 104, 55, 199, 71, 231, 170, 134, 19, 28, 233, 162, 33, 151, 195, 223,
    169, 237, 41, 226, 80, 169, 25, 30, 68, 70, 50, 198, 19, 82, 5, 162]

/-- HKDF where it is used on this secret. -/
def aHkdf : Hkdf where
  extract salt secret :=
    if salt = Bincode.utf8 "justdrop-session-v1" ∧ secret = aSecret then aPrk else []
  expand prk info length :=
    if prk ≠ aPrk ∨ length ≠ KEY_LEN then none
    else if info = Bincode.utf8 "initiator-key" then some derivedKeys.encryptKey
    else if info = Bincode.utf8 "responder-key" then some derivedKeys.decryptKey
    else none

theorem derive_aSecret : SessionKeys.derive aHkdf aSecret true = .ok derivedKeys := by
  decide +kernel

/-- A side before anything is sealed. -/
def unused (keys : SessionKeys) : CipherEnd where
  encryptor := { key := keys.encryptKey, nonceCounter := 0 }
  decryptor := { key := keys.decryptKey, nonceCounter := 0 }
  sealings := []
  openings := []

def fresh : SealedSession := fun side => unused (keysOf derivedKeys side)

theorem starts_fresh : Starts aHkdf aSecret fresh := by
  intro side
  cases side with
  | initiator => exact ⟨derivedKeys, derive_aSecret, rfl⟩
  | responder => exact ⟨derivedKeys.mirror, by decide +kernel, rfl⟩

def sealingOf (counter : ℕ) (plaintext : Bytes) : Sealing where
  nonce := SessionCipher.nonceOf counter
  plaintext
  ciphertext := derivedKeys.encryptKey ++ SessionCipher.nonceOf counter ++ plaintext

/-- The initiator seals two messages. They are delivered to the responder in the other order,
one of them twice, and one back to the initiator. -/
def reflecting : List (Side × CipherUse) :=
  let first := sealingOf 0 [7]
  let second := sealingOf 1 [8, 9]
  [(.initiator, .encrypt first.plaintext), (.initiator, .encrypt second.plaintext),
    (.responder, .decrypt second.nonce second.ciphertext),
    (.initiator, .decrypt second.nonce second.ciphertext),
    (.responder, .decrypt first.nonce first.ciphertext),
    (.responder, .decrypt second.nonce second.ciphertext)]

def after (calls : List (Side × CipherUse)) : SealedSession :=
  calls.foldl (fun session call =>
    Function.update session call.1 ((session call.1).use Aead.labelled call.2)) fresh

theorem run_reflecting : Run (Step Aead.labelled) fresh
    ((List.range 6).map fun n => (after (reflecting.take n),
      reflecting.getD n (.initiator, .encrypt [])))
    (after reflecting) :=
  .snoc (.snoc (.snoc (.snoc (.snoc (.snoc .refl rfl) rfl) rfl) rfl) rfl) rfl

theorem openings_of_run_reflecting :
    (∀ o ∈ (after reflecting .responder).openings, o ∈ (after reflecting .initiator).sealings) ∧
      ((after reflecting .responder).sealings.map Sealing.nonce).Nodup ∧
      ∀ s ∈ (after reflecting .initiator).sealings,
        (SessionCipher.decrypt Aead.labelled s.nonce s.ciphertext
          (after reflecting .responder).decryptor).1 = .ok s.plaintext := by
  have hinitiator : (after reflecting .initiator).openings = [] := by decide +kernel
  have hresponder : (after reflecting .responder).openings =
      [sealingOf 1 [8, 9], sealingOf 0 [7], sealingOf 1 [8, 9]] := by
    decide +kernel
  have hsealings : (after reflecting .initiator).sealings =
      [sealingOf 0 [7], sealingOf 1 [8, 9]] := by
    decide +kernel
  have hunforged : Unforged (after reflecting) := by
    intro side o ho
    cases side with
    | initiator =>
      rw [hinitiator] at ho
      simp at ho
    | responder =>
      have hmade : o ∈ (after reflecting .initiator).sealings := by
        rw [hresponder] at ho
        rw [hsealings]
        simp only [List.mem_cons, List.not_mem_nil, or_false] at ho ⊢
        tauto
      exact ⟨.initiator, o, hmade, by decide +kernel, rfl, rfl⟩
  exact openings_of_run opens_labelled derive_aSecret (by decide) starts_fresh run_reflecting
    hunforged .responder

end SealedSession
end JustDrop
