import Dims.CommunicationProtocol

/-!
# The participants of an unwound message

Each layer of a message comes with the key it is attributed to: the outermost
with the sender's, an inner one with the previous key that the layer around it
names. The unwinding visits the layers from the outside in, and the participants
it collects are their keys.
-/

namespace Dims
open ByteCodec Serialize

/-- `Layer m k m' k'`: the message `m'`, attributed to `k'`, is a layer of `m`
received from `k`. -/
inductive Layer : CMessage → CPubKey → CMessage → CPubKey → Prop
  | outer (m : CMessage) (k : CPubKey) : Layer m k m k
  | inner {m inner m' : CMessage} {k k' : CPubKey} (hprev : m.header.prevKey.isValid = true)
      (hread : readPayload m.payload = some inner)
      (hlayer : Layer inner m.header.prevKey m' k') : Layer m k m' k'

section

variable (H : HashFunctions) (S : SignatureScheme)

/-- The key of a layer has a valid signature over the layer's payload. -/
def Authentic (message : CMessage) (pubKey : CPubKey) : Prop :=
  verifyPayload H S pubKey message = some true

instance (message : CMessage) (pubKey : CPubKey) : Decidable (Authentic H S message pubKey) :=
  inferInstanceAs (Decidable (_ = _))

/-- The layer that announces no message inside it. -/
def Innermost (message : CMessage) (pubKey : CPubKey) (original : CMessage) (key : CPubKey) : Prop :=
  Layer message pubKey original key ∧ original.header.prevKey.isValid = false

/-- Every layer passes its check and every announced inner message is readable. -/
def Unwindable (message : CMessage) (pubKey : CPubKey) : Prop :=
  ∀ m k, Layer message pubKey m k →
    checkLayer H S k m = some true ∧
      (m.header.prevKey.isValid = true → (readPayload m.payload).isSome = true)

theorem checkLayer_eq_true_iff {message : CMessage} {pubKey : CPubKey}
    (hkind : message.header.payloadKind ≠ CPayloadKind.introductionReq.toInt) :
    checkLayer H S pubKey message = some true ↔ Authentic H S message pubKey := by
  simp [checkLayer, hkind, Authentic]

end

section Layers

variable {H : HashFunctions} {S : SignatureScheme}

theorem Layer.cases_of_no_prevKey {m m' : CMessage} {k k' : CPubKey}
    (hprev : m.header.prevKey.isValid = false) (h : Layer m k m' k') : m' = m ∧ k' = k := by
  cases h with
  | outer => exact ⟨rfl, rfl⟩
  | inner hvalid _ _ =>
    rw [hprev] at hvalid
    cases hvalid

theorem Layer.cases_of_read {m inner m' : CMessage} {k k' : CPubKey}
    (hread : readPayload m.payload = some inner) (h : Layer m k m' k') :
    (m' = m ∧ k' = k) ∨ Layer inner m.header.prevKey m' k' := by
  cases h with
  | outer => exact .inl ⟨rfl, rfl⟩
  | inner _ hread' hlayer =>
    rw [hread] at hread'
    cases hread'
    exact .inr hlayer

theorem innermost_unique {message m m' : CMessage} {pubKey k k' : CPubKey}
    (h : Innermost message pubKey m k) (h' : Innermost message pubKey m' k') :
    m = m' ∧ k = k' := by
  obtain ⟨hlayer, hlast⟩ := h
  obtain ⟨hlayer', hlast'⟩ := h'
  induction hlayer with
  | outer =>
    obtain ⟨rfl, rfl⟩ := hlayer'.cases_of_no_prevKey hlast
    exact ⟨rfl, rfl⟩
  | inner hprev hread _ ih =>
    rcases hlayer'.cases_of_read hread with ⟨rfl, rfl⟩ | hdeeper
    · rw [hprev] at hlast'
      cases hlast'
    · exact ih hlast hdeeper

theorem authentic_of_unwindable {message layer : CMessage} {pubKey key : CPubKey}
    (hall : Unwindable H S message pubKey) (hlayer : Layer message pubKey layer key)
    (hintroduction : layer.header.payloadKind = CPayloadKind.introductionReq.toInt →
      Authentic H S layer key) : Authentic H S layer key := by
  by_cases hkind : layer.header.payloadKind = CPayloadKind.introductionReq.toInt
  · exact hintroduction hkind
  · exact (checkLayer_eq_true_iff H S hkind).mp (hall layer key hlayer).1

end Layers

section Run

variable (H : HashFunctions) (S : SignatureScheme)

/-- One layer of the unwinding: what it did if it ended in success. -/
private theorem unwind_step {message : CMessage} {pubKey : CPubKey} {P : Finset CPubKey}
    {u : Unwound} (h : unwindMessageAndParticipants H S message pubKey P = some u)
    (hresult : u.result = true) :
    checkLayer H S pubKey message = some true ∧
    ((message.header.prevKey.isValid = false ∧ u.participants = insert pubKey P ∧
        u.originalMessage = some message) ∨
      ∃ inner, message.header.prevKey.isValid = true ∧ readPayload message.payload = some inner ∧
        unwindMessageAndParticipants H S inner message.header.prevKey (insert pubKey P) =
          some u) := by
  rw [unwindMessageAndParticipants] at h
  rcases Option.bind_eq_some_iff.mp h with ⟨passed, hcheck, hrest⟩
  cases passed with
  | false =>
    simp only [Bool.false_eq_true, if_false, Option.some.injEq] at hrest
    subst hrest
    cases hresult
  | true =>
    refine ⟨hcheck, ?_⟩
    by_cases hprev : message.header.prevKey.isValid = true
    · simp only [if_true, hprev] at hrest
      split at hrest
      · cases hrest
      · next inner hread => exact .inr ⟨inner, hprev, hread, hrest⟩
    · simp only [if_true, hprev, Bool.false_eq_true, if_false, Option.some.injEq] at hrest
      subst hrest
      exact .inl ⟨by simpa using hprev, rfl, rfl⟩

theorem unwind_success {message : CMessage} {pubKey : CPubKey} {P : Finset CPubKey}
    {u : Unwound} (h : unwindMessageAndParticipants H S message pubKey P = some u)
    (hresult : u.result = true) :
    Unwindable H S message pubKey ∧
    ∀ key, key ∈ u.participants ↔ key ∈ P ∨ ∃ m, Layer message pubKey m key := by
  induction hn : message.payload.length using Nat.strong_induction_on
    generalizing message pubKey P with
  | _ n ih =>
    rcases unwind_step H S h hresult with ⟨hcheck, hlast | ⟨inner, hprev, hread, hinner⟩⟩
    · rcases hlast with ⟨hprev, hparticipants, -⟩
      constructor
      · intro m k hlayer
        rcases hlayer.cases_of_no_prevKey hprev with ⟨rfl, rfl⟩
        exact ⟨hcheck, fun hvalid => absurd hvalid (by simp [hprev])⟩
      · intro key
        rw [hparticipants, Finset.mem_insert, or_comm]
        apply or_congr_right
        constructor
        · rintro rfl
          exact ⟨message, .outer message key⟩
        · rintro ⟨m, hlayer⟩
          exact (hlayer.cases_of_no_prevKey hprev).2
    · rcases ih _ (hn ▸ readPayload_length hread) hinner rfl with ⟨hall, hmem⟩
      constructor
      · intro m k hlayer
        rcases hlayer.cases_of_read hread with ⟨rfl, rfl⟩ | hdeeper
        · exact ⟨hcheck, fun _ => by simp [hread]⟩
        · exact hall m k hdeeper
      · intro key
        rw [hmem key, Finset.mem_insert, or_comm (a := key = pubKey), or_assoc]
        apply or_congr_right
        constructor
        · rintro (rfl | ⟨m, hdeeper⟩)
          · exact ⟨message, .outer message key⟩
          · exact ⟨m, .inner hprev hread hdeeper⟩
        · rintro ⟨m, hlayer⟩
          rcases hlayer.cases_of_read hread with ⟨-, rfl⟩ | hdeeper
          · exact .inl rfl
          · exact .inr ⟨m, hdeeper⟩

theorem unwind_originalMessage {message : CMessage} {pubKey : CPubKey} {P : Finset CPubKey}
    {u : Unwound} (h : unwindMessageAndParticipants H S message pubKey P = some u)
    (hresult : u.result = true) :
    ∃ original key, u.originalMessage = some original ∧ Innermost message pubKey original key := by
  induction hn : message.payload.length using Nat.strong_induction_on
    generalizing message pubKey P with
  | _ n ih =>
    rcases unwind_step H S h hresult with ⟨-, ⟨hprev, -, horiginal⟩ | ⟨inner, hprev, hread, hinner⟩⟩
    · exact ⟨message, pubKey, horiginal, .outer message pubKey, hprev⟩
    · obtain ⟨original, key, horiginal, hlayer, hlast⟩ :=
        ih _ (hn ▸ readPayload_length hread) hinner rfl
      exact ⟨original, key, horiginal, .inner hprev hread hlayer, hlast⟩

/-- The unwinding from no participants, asserted to succeed: the innermost message
and the participants. -/
def unwindAsserted (message : CMessage) (pubKey : CPubKey) :
    Option (CMessage × Finset CPubKey) :=
  (unwindMessageAndParticipants H S message pubKey ∅).bind fun u =>
    if u.result then u.originalMessage.map fun original => (original, u.participants) else none

variable {H S} in
theorem unwindAsserted_spec {message original : CMessage} {pubKey : CPubKey}
    {participants : Finset CPubKey}
    (h : unwindAsserted H S message pubKey = some (original, participants)) :
    Unwindable H S message pubKey ∧ (∃ key, Innermost message pubKey original key) ∧
      ∀ key, key ∈ participants ↔ ∃ layer, Layer message pubKey layer key := by
  obtain ⟨u, hu, hrest⟩ := Option.bind_eq_some_iff.mp h
  by_cases hresult : u.result = true
  · rw [if_pos hresult] at hrest
    obtain ⟨found, hfound, heq⟩ := Option.map_eq_some_iff.mp hrest
    cases heq
    obtain ⟨hall, hmem⟩ := unwind_success H S hu hresult
    obtain ⟨original', key, horiginal, hinner⟩ := unwind_originalMessage H S hu hresult
    rw [hfound] at horiginal
    cases horiginal
    refine ⟨hall, ⟨key, hinner⟩, fun key => ?_⟩
    rw [hmem key]
    simp
  · rw [if_neg hresult] at hrest
    cases hrest

theorem unwindAsserted_of_last {message : CMessage} {pubKey : CPubKey}
    (hlast : message.header.prevKey.isValid = false)
    (hcheck : checkLayer H S pubKey message = some true) :
    unwindAsserted H S message pubKey = some (message, {pubKey}) := by
  rw [unwindAsserted, unwindMessageAndParticipants, hcheck]
  simp [hlast]

theorem unwind_of_unwindable {message : CMessage} {pubKey : CPubKey} (P : Finset CPubKey)
    (hall : Unwindable H S message pubKey) :
    ∃ u, unwindMessageAndParticipants H S message pubKey P = some u ∧ u.result = true := by
  induction hn : message.payload.length using Nat.strong_induction_on
    generalizing message pubKey P with
  | _ n ih =>
    rcases hall message pubKey (.outer message pubKey) with ⟨hcheck, hreadable⟩
    rw [unwindMessageAndParticipants, hcheck]
    by_cases hprev : message.header.prevKey.isValid = true
    · rcases Option.isSome_iff_exists.mp (hreadable hprev) with ⟨inner, hread⟩
      have hinner : Unwindable H S inner message.header.prevKey := by
        intro m k hlayer
        exact hall m k (.inner hprev hread hlayer)
      simp only [Option.bind_some, if_true, hprev]
      split
      · next hnone =>
        rw [hread] at hnone
        cases hnone
      · next inner' hread' =>
        rw [hread] at hread'
        cases hread'
        exact ih _ (hn ▸ readPayload_length hread) _ hinner rfl
    · simp [hprev]

/-- Whenever the unwinding succeeds all its participants are authentic in the
layer they come from, exactly if some layer does not pass or every introduction
request among the layers is signed. -/
theorem participants_authentic_iff (message : CMessage) (pubKey : CPubKey)
    (P : Finset CPubKey) :
    (∀ u, unwindMessageAndParticipants H S message pubKey P = some u → u.result = true →
      (∀ key ∈ u.participants, key ∉ P → ∃ m, Layer message pubKey m key) ∧
      ∀ m key, Layer message pubKey m key → key ∈ u.participants ∧ Authentic H S m key) ↔
    ¬ Unwindable H S message pubKey ∨
      ∀ m key, Layer message pubKey m key →
        m.header.payloadKind = CPayloadKind.introductionReq.toInt → Authentic H S m key := by
  constructor
  · intro hauthentic
    by_cases hall : Unwindable H S message pubKey
    · rcases unwind_of_unwindable H S P hall with ⟨u, hu, hresult⟩
      exact .inr fun m key hlayer _ => ((hauthentic u hu hresult).2 m key hlayer).2
    · exact .inl hall
  · intro hcondition u hu hresult
    rcases unwind_success H S hu hresult with ⟨hall, hmem⟩
    constructor
    · intro key hkey hnew
      rcases (hmem key).mp hkey with hold | hlayer
      · exact absurd hold hnew
      · exact hlayer
    · intro m key hlayer
      refine ⟨(hmem key).mpr (.inr ⟨m, hlayer⟩), ?_⟩
      by_cases hkind : m.header.payloadKind = CPayloadKind.introductionReq.toInt
      · exact (hcondition.resolve_left (not_not_intro hall)) m key hlayer hkind
      · exact (checkLayer_eq_true_iff H S hkind).mp (hall m key hlayer).1

end Run

namespace UnsignedLayer

/-- The signature of a digest is its bytes, whichever the key. -/
def scheme : SignatureScheme := ⟨fun _ h sig => uint256.encode h = sig⟩

def hashes : HashFunctions := ⟨fun _ => 0, fun _ => 0⟩

def sender : CPubKey := CPubKey.ofBytes (2 :: List.replicate 32 1)

def victim : CPubKey := CPubKey.ofBytes (3 :: List.replicate 32 1)

/-- An introduction request that nobody signed. -/
def introduction : CMessage :=
  ⟨⟨CPayloadKind.introductionReq.toInt, [], 0, .invalid, 0, 0⟩, [0]⟩

/-- A status message signed by its sender alone around the introduction request. -/
def status : CMessage :=
  ⟨⟨CPayloadKind.statusTransactions.toInt, uint256.encode 0, 0, victim, 0, 0⟩,
    CMessage.codec.encode introduction⟩

private theorem read_introduction : readPayload status.payload = some introduction := by
  have hfits : CMessage.codec.Fits introduction :=
    ⟨⟨int32_fits _, byteVector_fits (by decide), int64_fits _, .inr rfl, uint256_fits _,
      uint256_fits _⟩, byteVector_fits (by decide)⟩
  have hdecode := CMessage.codec.decode_encode introduction [] hfits
  rw [List.append_nil] at hdecode
  simp [readPayload, status, hdecode]

/-- The unwinding succeeds and counts the victim although its layer is unsigned. -/
theorem victim_participates :
    ∃ u, unwindMessageAndParticipants hashes scheme status sender ∅ = some u ∧
      u.result = true ∧ victim ∈ u.participants ∧
      Layer status sender introduction victim ∧ ¬ Authentic hashes scheme introduction victim := by
  have houter : checkLayer hashes scheme sender status = some true := by decide
  have hinner : checkLayer hashes scheme victim introduction = some true := by decide
  have hprev : status.header.prevKey.isValid = true := by decide
  have hlast : introduction.header.prevKey.isValid = false := by decide
  refine ⟨⟨true, some introduction, insert victim (insert sender ∅)⟩, ?_, rfl, by simp,
    .inner hprev read_introduction (.outer _ _), by decide⟩
  rw [unwindMessageAndParticipants, houter]
  simp only [Option.bind_some, if_true, hprev]
  split
  · next hnone =>
    rw [read_introduction] at hnone
    cases hnone
  · next inner hread =>
    rw [read_introduction] at hread
    cases hread
    rw [unwindMessageAndParticipants]
    simp only [status, hinner, Option.bind_some, if_true, hlast, Bool.false_eq_true, if_false]

end UnsignedLayer

end Dims
