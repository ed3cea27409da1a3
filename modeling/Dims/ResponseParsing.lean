import Dims.ClientProtocol
import Dims.FallibleRun
import Dims.OrderedMap
import Dims.OrderedSet
import Dims.ThrowingReader

/-!
# Answers that a client reads

client/networkClient.cpp. The thread of the connection appends what the socket has to the pull
buffer, and the request loop reads the messages in it. A round of the loop catches what it
throws, and the next one begins where the stream stands then; at the end the buffer is
dropped.
-/

namespace Dims
open ByteCodec Serialize Codec

universe u

namespace CBufferAsStream
open ThrowingReader

def readMarked (width least : ℕ) : ThrowingReader ℕ :=
  (take width).andThen fun xSize =>
    if leValue xSize < least then refuse else value (leValue xSize)

/-- `ReadCompactSize` -/
def readCompactSize : ThrowingReader ℕ :=
  ((take 1).andThen fun chSize =>
    if leValue chSize < 253 then value (leValue chSize)
    else if leValue chSize = 253 then readMarked 2 253
    else if leValue chSize = 254 then readMarked 4 0x10000
    else readMarked 8 0x100000000).andThen fun nSizeRet =>
  if maxSize < nSizeRet then refuse else value nSizeRet

/-- `operator>>` of a message. A payload is read in blocks, and the buffer is shorter than a
block. -/
def readMessage : ThrowingReader CClientMessage :=
  (take 4).andThen fun payloadKind =>
  (take 32).andThen fun id =>
  readCompactSize.andThen fun nSize =>
  (take nSize).andThen fun payload =>
    value ⟨⟨(UInt32.ofNat (leValue payloadKind)).toInt32, BitVec.ofNat 256 (leValue id)⟩, payload⟩

theorem reader_readMarked (width least : ℕ) :
    (readMarked width least).reader = Serialize.readMarked width least := by
  funext bs
  rw [readMarked, reader_andThen, reader_take, Serialize.readMarked]
  congr 1
  funext p
  by_cases hleast : least ≤ leValue p.1
  · rw [if_neg (Nat.not_lt_of_le hleast), if_pos hleast, reader_value]
  · rw [if_pos (Nat.lt_of_not_le hleast), if_neg hleast, reader_refuse]

theorem reader_readCompactSize : readCompactSize.reader = Serialize.readCompactSize := by
  funext bs
  rw [readCompactSize, reader_andThen, reader_andThen, reader_take, Serialize.readCompactSize]
  congr 1
  · cases bs with
    | nil => rfl
    | cons chSize bs =>
      have hvalue : leValue [chSize] = chSize.toNat := by simp [leValue]
      have hsmall : chSize < 253 ↔ chSize.toNat < 253 := UInt8.lt_iff_toNat_lt
      have h253 : chSize = 253 ↔ chSize.toNat = 253 := by rw [← UInt8.toNat_inj]; rfl
      have h254 : chSize = 254 ↔ chSize.toNat = 254 := by rw [← UInt8.toNat_inj]; rfl
      have htake : takeBytes 1 (chSize :: bs) = some ([chSize], bs) := rfl
      simp only [htake, Option.bind_some, hvalue, Serialize.readSize, hsmall, h253, h254]
      split
      · rfl
      · split
        · rw [reader_readMarked]
        · split <;> rw [reader_readMarked]
  · funext p
    by_cases hmax : p.1 ≤ maxSize
    · rw [if_neg (Nat.not_lt_of_le hmax), if_pos hmax, reader_value]
    · rw [if_pos (Nat.lt_of_not_le hmax), if_neg hmax, reader_refuse]

/-- Where it does not throw, a message is read as its format says. -/
theorem reader_readMessage : readMessage.reader = CClientMessage.codec.decode := by
  funext bs
  simp only [readMessage, reader_andThen, reader_take, reader_readCompactSize, reader_value]
  simp only [CClientMessage.codec, CClientHeader.codec, int32, uint32, uint256, bitVec, byteVector,
    Codec.imap, Codec.prod, Codec.uint, Codec.bytes, compactSize]
  cases h4 : takeBytes 4 bs with
  | none => rfl
  | some p =>
    simp only [Option.bind_some, Option.map_some]
    cases h32 : takeBytes 32 p.2 with
    | none => rfl
    | some q =>
      simp only [Option.bind_some, Option.map_some]
      cases hsize : Serialize.readCompactSize q.2 with
      | none => rfl
      | some r =>
        simp only [Option.bind_some]
        cases takeBytes r.1 r.2 <;> rfl

theorem forward_readMarked (width least : ℕ) : (readMarked width least).Forward := by
  refine (forward_take width).andThen fun xSize => ?_
  split
  · exact forward_refuse
  · exact forward_value _

theorem forward_readCompactSize : readCompactSize.Forward := by
  refine ((forward_take 1).andThen fun chSize => ?_).andThen fun nSizeRet => ?_
  · split
    · exact forward_value _
    · split
      · exact forward_readMarked _ _
      · split <;> exact forward_readMarked _ _
  · split
    · exact forward_refuse
    · exact forward_value _

theorem readMessage_of_lt_four {bs : Bytes} (h : bs.length < 4) : readMessage bs = (none, bs) :=
  andThen_take_of_lt h

theorem readMessage_of_lt_header {bs : Bytes} (h : 4 ≤ bs.length) (hlt : bs.length < 36) :
    readMessage bs = (none, bs.drop 4) := by
  have hshort : (bs.drop 4).length < 32 := by
    rw [List.length_drop]
    omega
  rw [readMessage, andThen_take_of_le h, andThen_take_of_lt hshort]

theorem readMessage_length {bs : Bytes} (h : 4 ≤ bs.length) :
    (readMessage bs).2.length + 4 ≤ bs.length := by
  have hforward : ∀ kind, ((take 32).andThen fun id => readCompactSize.andThen fun nSize =>
      (take nSize).andThen fun payload => value (⟨⟨kind, BitVec.ofNat 256 (leValue id)⟩, payload⟩ :
        CClientMessage)).Forward := fun kind =>
    (forward_take 32).andThen fun id => forward_readCompactSize.andThen fun nSize =>
      (forward_take nSize).andThen fun payload => forward_value _
  have hle := hforward (UInt32.ofNat (leValue (bs.take 4))).toInt32 (bs.drop 4)
  rw [readMessage, andThen_take_of_le h]
  rw [List.length_drop] at hle
  omega

theorem length_of_readMessage {bs rest : Bytes} {message : Option CClientMessage}
    (hread : readMessage bs = (message, rest)) (h : 4 ≤ bs.length) : rest.length + 4 ≤ bs.length := by
  have hlength := readMessage_length h
  rwa [hread] at hlength

theorem readMessage_encode {message : CClientMessage} (h : CClientMessage.codec.Fits message)
    (rest : Bytes) :
    readMessage (CClientMessage.codec.encode message ++ rest) = (some message, rest) := by
  rw [← reader_eq_some_iff, reader_readMessage]
  exact CClientMessage.codec.decode_encode message rest h

/-- The messages that are read one after the other, whatever throws between them, while a
header fits; and what is left then. -/
def scan (bs : Bytes) : List CClientMessage × Bytes :=
  if 36 ≤ bs.length then
    let later := scan (readMessage bs).2
    ((readMessage bs).1.toList ++ later.1, later.2)
  else ([], bs)
termination_by bs.length
decreasing_by
  have := @readMessage_length bs (by omega)
  omega

theorem scan_of_lt {bs : Bytes} (h : bs.length < 36) : scan bs = ([], bs) := by
  rw [scan, if_neg (Nat.not_le_of_lt h)]

theorem scan_of_le {bs : Bytes} (h : 36 ≤ bs.length) : scan bs =
    ((readMessage bs).1.toList ++ (scan (readMessage bs).2).1, (scan (readMessage bs).2).2) := by
  rw [scan, if_pos h]

theorem scan_encodeAll {messages : List CClientMessage}
    (h : ∀ message ∈ messages, CClientMessage.codec.Fits message) :
    scan (CClientMessage.codec.encodeAll messages) = (messages, []) := by
  induction messages with
  | nil => exact scan_of_lt (by simp)
  | cons message messages ih =>
    obtain ⟨hfirst, hrest⟩ := List.forall_mem_cons.mp h
    have hlong : 36 ≤ (CClientMessage.codec.encodeAll (message :: messages)).length := by
      rw [encodeAll_cons, List.length_append]
      have := CClientMessage.header_length_le message
      omega
    rw [scan_of_le hlong, encodeAll_cons, readMessage_encode hfirst, ih hrest]
    rfl

end CBufferAsStream

structure CClientMessageResponse where
  clientMessage : CClientMessage
  nodePtr : ℕ
  ip : String
  deriving DecidableEq

/-- The part of `CNetworkClient` that the answers come to, with the address that its pointer
converts to. -/
structure CNetworkClientPull (Request : Type u) where
  ip : String
  nodePtr : ℕ
  pullBuffer : CCommunicationBuffer
  matching : OrderedMap Uint256 Request

/-- How a call of `getResponseAndClear` goes wrong. -/
inductive ParsingFault
  /-- "can't be here" -/
  | assertion
  | endless
  deriving DecidableEq, Repr

/-- Where the loop over the stream stands. -/
structure Parsing (Request : Type u) where
  rest : Bytes
  matching : OrderedMap Uint256 Request
  requestResponse : List (Request × CClientMessageResponse)

namespace CNetworkClientPull
open CBufferAsStream

variable {Request : Type u} (c : CNetworkClientPull Request)

/-- What has been read from the socket and not parsed. -/
def waiting : Bytes := c.pullBuffer.front c.pullBuffer.usedSize

/-- The loop of `read`, with a bound on its rounds: it reads as long as less is in the buffer
than the socket had at first. -/
def readLoop (bytesAvail : ℕ) : ℕ → CCommunicationBuffer × Bytes → CCommunicationBuffer × Bytes
  | 0, s => s
  | bound + 1, (b, socket) =>
    if b.usedSize < bytesAvail then
      let taken := socket.take (maxBufferSize - b.usedSize)
      readLoop bytesAvail bound
        ({ b.fill b.usedSize taken with usedSize := b.usedSize + taken.length },
          socket.drop (maxBufferSize - b.usedSize))
    else (b, socket)

/-- What `read` leaves in the socket comes with it. -/
def read (bytesAvail : ℕ) (socket : Bytes) : CNetworkClientPull Request × Bytes :=
  if 0 < bytesAvail then
    if maxBufferSize ≤ bytesAvail then (c, socket)
    else
      let s := readLoop bytesAvail bytesAvail (c.pullBuffer, socket)
      ({ c with pullBuffer := s.1 }, s.2)
  else (c, socket)

def takeMatching (matching : OrderedMap Uint256 Request) (token : Uint256) :
    Except ParsingFault Request :=
  match matching.lookup token with
  | some request => .ok request
  | none => .error .assertion

def response (message : CClientMessage) : CClientMessageResponse := ⟨message, c.nodePtr, c.ip⟩

/-- What the stream throws is caught. -/
def round (p : Parsing Request) : Except ParsingFault (Parsing Request) :=
  match readMessage p.rest with
  | (none, rest) => .ok { p with rest := rest }
  | (some clientMessage, rest) =>
    (takeMatching p.matching clientMessage.header.id).map fun request =>
      ⟨rest, p.matching.erase clientMessage.header.id,
        p.requestResponse ++ [(request, c.response clientMessage)]⟩

/-- The loop has no outcome if it does not end in this number of rounds. -/
def rounds : ℕ → Parsing Request → Option (Except ParsingFault (Parsing Request))
  | 0, p => if p.rest = [] then some (.ok p) else none
  | bound + 1, p =>
    if p.rest = [] then some (.ok p)
    else
      match c.round p with
      | .error fault => some (.error fault)
      | .ok p' => rounds bound p'

def clearResponses : CNetworkClientPull Request :=
  { c with pullBuffer := { c.pullBuffer with usedSize := 0 } }

def getResponseAndClear (bound : ℕ) :
    Option (Except ParsingFault (List (Request × CClientMessageResponse) × CNetworkClientPull Request)) :=
  (c.rounds bound ⟨c.waiting, c.matching, []⟩).map fun outcome =>
    outcome.map fun p => (p.requestResponse, { c with matching := p.matching }.clearResponses)

/-- The call comes back, after whatever number of rounds. -/
def Returns : Prop := ∃ bound answers c', c.getResponseAndClear bound = some (.ok (answers, c'))

/-- Requests with these identifiers wait, each for one answer. -/
def Pending (matching : OrderedMap Uint256 Request) (ids : List Uint256) : Prop :=
  ids.Nodup ∧ ∀ id ∈ ids, (matching.lookup id).isSome

def ids (messages : List CClientMessage) : List Uint256 := messages.map fun message => message.header.id

/-- The messages that are read answer requests that wait, and what is left when no header
fits any more can be read by fours. -/
def Readable (matching : OrderedMap Uint256 Request) (bs : Bytes) : Prop :=
  Pending matching (ids (scan bs).1) ∧ (scan bs).2.length % 4 = 0

/-- The messages with the requests that wait for them. -/
def answersTo (matching : OrderedMap Uint256 Request) (messages : List CClientMessage) :
    List (Request × CClientMessageResponse) :=
  messages.filterMap fun message =>
    (matching.lookup message.header.id).map fun request => (request, c.response message)

section Rounds

variable {c} {p p' q : Parsing Request} {matching : OrderedMap Uint256 Request}

theorem pending_cons {id : Uint256} {others : List Uint256} : Pending matching (id :: others) ↔
    (matching.lookup id).isSome ∧ Pending (matching.erase id) others := by
  unfold Pending
  simp only [List.nodup_cons, List.forall_mem_cons, OrderedMap.isSome_lookup_erase]
  constructor
  · rintro ⟨⟨hnotin, hnodup⟩, hid, hothers⟩
    exact ⟨hid, hnodup, fun other hother => ⟨fun heq => hnotin (heq ▸ hother), hothers other hother⟩⟩
  · rintro ⟨hid, hnodup, hothers⟩
    exact ⟨⟨fun hin => (hothers id hin).1 rfl, hnodup⟩, hid, fun other hother => (hothers other hother).2⟩

theorem answersTo_erase {id : Uint256} {messages : List CClientMessage} (h : id ∉ ids messages) :
    c.answersTo (matching.erase id) messages = c.answersTo matching messages := by
  refine List.filterMap_congr fun message hmessage => ?_
  have hne : message.header.id ≠ id := fun heq => h (heq ▸ List.mem_map_of_mem hmessage)
  rw [OrderedMap.lookup_erase_of_ne hne]

theorem map_answersTo {messages : List CClientMessage} (h : Pending matching (ids messages)) :
    (c.answersTo matching messages).map (fun answer => answer.2.clientMessage) = messages := by
  have hpending := h.2
  clear h
  induction messages with
  | nil => rfl
  | cons message messages ih =>
    obtain ⟨hfirst, hrest⟩ := List.forall_mem_cons.mp hpending
    obtain ⟨request, hrequest⟩ := Option.isSome_iff_exists.mp hfirst
    have hlater := ih hrest
    unfold answersTo at hlater ⊢
    rw [List.filterMap_cons, hrequest]
    exact congrArg (message :: ·) hlater

variable (c) in
/-- The loop ends, after whatever number of rounds. -/
def Ends (p p' : Parsing Request) : Prop := ∃ bound, c.rounds bound p = some (.ok p')

theorem ends_of_nil (h : p.rest = []) : c.Ends p p' ↔ p' = p := by
  have hrounds : ∀ bound, c.rounds bound p = some (.ok p) := by
    intro bound
    cases bound <;> rw [rounds, if_pos h]
  simp only [Ends, hrounds, Option.some.injEq, Except.ok.injEq, exists_const]
  exact eq_comm

theorem ends_of_ne_nil (h : p.rest ≠ []) :
    c.Ends p p' ↔ ∃ q, c.round p = .ok q ∧ c.Ends q p' := by
  constructor
  · rintro ⟨bound, hbound⟩
    cases bound with
    | zero =>
      rw [rounds, if_neg h] at hbound
      cases hbound
    | succ bound =>
      rw [rounds, if_neg h] at hbound
      cases hround : c.round p with
      | error fault =>
        rw [hround] at hbound
        cases hbound
      | ok q =>
        rw [hround] at hbound
        exact ⟨q, rfl, bound, hbound⟩
  · rintro ⟨q, hround, bound, hbound⟩
    refine ⟨bound + 1, ?_⟩
    rw [rounds, if_neg h, hround]
    exact hbound

theorem round_of_none {rest : Bytes} (h : readMessage p.rest = (none, rest)) :
    c.round p = .ok { p with rest := rest } := by
  rw [round, h]

/-- Between one and three bytes are never read. -/
theorem rounds_eq_none (hne : p.rest ≠ []) (hlt : p.rest.length < 4) (bound : ℕ) :
    c.rounds bound p = none := by
  induction bound with
  | zero => rw [rounds, if_neg hne]
  | succ bound ih =>
    rw [rounds, if_neg hne, round_of_none (readMessage_of_lt_four hlt)]
    exact ih

theorem ends_iff_of_lt (hlt : p.rest.length < 36) :
    c.Ends p p' ↔ p.rest.length % 4 = 0 ∧ p' = { p with rest := [] } := by
  induction hn : p.rest.length using Nat.strong_induction_on generalizing p with
  | _ n ih =>
    by_cases hnil : p.rest = []
    · have hzero : n = 0 := by rw [← hn, hnil]; rfl
      have hp : { p with rest := [] } = p := by rw [← hnil]
      rw [ends_of_nil hnil, hp, hzero]
      simp
    · have hpos := List.length_pos_iff.mpr hnil
      by_cases hshort : p.rest.length < 4
      · refine iff_of_false ?_ (fun h => by omega)
        rintro ⟨bound, hbound⟩
        rw [rounds_eq_none hnil hshort] at hbound
        cases hbound
      · have hround : c.round p = .ok { p with rest := p.rest.drop 4 } :=
          round_of_none (readMessage_of_lt_header (by omega) hlt)
        have hlength : (p.rest.drop 4).length = n - 4 := by rw [List.length_drop, hn]
        have hnext := ih (n - 4) (by omega) (p := { p with rest := p.rest.drop 4 })
          (by simp only [hlength]; omega) hlength
        rw [ends_of_ne_nil hnil, hround]
        simp only [Except.ok.injEq, exists_eq_left', hnext]
        have hmod : (n - 4) % 4 = 0 ↔ n % 4 = 0 := by omega
        rw [hmod]

variable (c) in
/-- Where the loop stands when it has read the messages. -/
def afterMessages (p : Parsing Request) (messages : List CClientMessage) : Parsing Request :=
  ⟨[], (ids messages).foldl OrderedMap.erase p.matching,
    p.requestResponse ++ c.answersTo p.matching messages⟩

theorem afterMessages_cons {message : CClientMessage} {messages : List CClientMessage}
    {request : Request} {rest : Bytes} (hrequest : p.matching.lookup message.header.id = some request)
    (hnotin : message.header.id ∉ ids messages) :
    c.afterMessages ⟨rest, p.matching.erase message.header.id,
        p.requestResponse ++ [(request, c.response message)]⟩ messages =
      c.afterMessages p (message :: messages) := by
  have hanswers : c.answersTo p.matching (message :: messages) =
      (request, c.response message) :: c.answersTo p.matching messages := by
    unfold answersTo
    rw [List.filterMap_cons, hrequest]
    rfl
  unfold afterMessages
  rw [hanswers, answersTo_erase hnotin, List.append_assoc]
  rfl

/-- The loop ends exactly for what is readable, and leaves the messages with their requests. -/
theorem ends_iff : c.Ends p p' ↔
    Readable p.matching p.rest ∧ p' = c.afterMessages p (scan p.rest).1 := by
  induction hn : p.rest.length using Nat.strong_induction_on generalizing p with
  | _ n ih =>
    by_cases hlt : p.rest.length < 36
    · have hpending : Pending p.matching (ids []) := ⟨List.nodup_nil, nofun⟩
      have hafter : c.afterMessages p [] = { p with rest := [] } := by
        unfold afterMessages answersTo
        rw [List.filterMap_nil, List.append_nil]
        rfl
      rw [ends_iff_of_lt hlt, Readable, scan_of_lt hlt, hafter, and_iff_right hpending]
    · have hlong : 36 ≤ p.rest.length := Nat.le_of_not_lt hlt
      have hne : p.rest ≠ [] := fun hnil => by
        rw [hnil] at hlong
        exact absurd hlong (by decide)
      rw [ends_of_ne_nil hne, Readable, scan_of_le hlong, round]
      rcases hread : readMessage p.rest with ⟨_ | message, rest⟩
      · have hshorter := length_of_readMessage hread (by omega)
        simp only [Except.ok.injEq, exists_eq_left']
        exact ih rest.length (by omega) (p := { p with rest := rest }) rfl
      · have hshorter := length_of_readMessage hread (by omega)
        have hids : ids (message :: (scan rest).1) = message.header.id :: ids (scan rest).1 := rfl
        simp only [Option.toList_some, List.singleton_append, hids, pending_cons]
        cases hrequest : p.matching.lookup message.header.id with
        | none => simp [takeMatching, hrequest, Except.map]
        | some request =>
          have hnext := ih rest.length (by omega)
            (p := ⟨rest, p.matching.erase message.header.id,
              p.requestResponse ++ [(request, c.response message)]⟩) rfl
          simp only [takeMatching, hrequest, Except.map, Except.ok.injEq, exists_eq_left', hnext,
            Readable, Option.isSome_some, true_and]
          refine and_congr_right fun hreadable => ?_
          rw [afterMessages_cons hrequest fun hin => ?_]
          have herased := hreadable.1.2 _ hin
          rw [OrderedMap.lookup_erase_self] at herased
          cases herased

theorem rounds_succ {bound : ℕ} {outcome : Except ParsingFault (Parsing Request)}
    (h : c.rounds bound p = some outcome) : c.rounds (bound + 1) p = some outcome := by
  induction bound generalizing p with
  | zero =>
    rw [rounds] at h
    split at h
    case isTrue hnil => rw [rounds, if_pos hnil, h]
    case isFalse => cases h
  | succ bound ih =>
    rw [rounds] at h ⊢
    split at h
    case isTrue hnil => rw [if_pos hnil, h]
    case isFalse hne =>
      rw [if_neg hne]
      split at h
      · exact h
      · exact ih h

theorem rounds_mono {bound bound' : ℕ} (hle : bound ≤ bound')
    {outcome : Except ParsingFault (Parsing Request)} (h : c.rounds bound p = some outcome) :
    c.rounds bound' p = some outcome := by
  induction hle with
  | refl => exact h
  | step _ ih => exact rounds_succ ih

theorem length_of_round (h : c.round p = .ok q) (hlong : 4 ≤ p.rest.length) :
    q.rest.length < p.rest.length := by
  unfold round at h
  split at h
  case h_1 rest hread =>
    cases h
    have hlength := length_of_readMessage hread hlong
    exact Nat.lt_of_lt_of_le (Nat.lt_add_of_pos_right (by decide)) hlength
  case h_2 message rest hread =>
    have hlength := length_of_readMessage hread hlong
    unfold takeMatching at h
    split at h
    · cases h
      exact Nat.lt_of_lt_of_le (Nat.lt_add_of_pos_right (by decide)) hlength
    · cases h

theorem rounds_length {bound : ℕ} {outcome : Except ParsingFault (Parsing Request)}
    (h : c.rounds bound p = some outcome) : c.rounds p.rest.length p = some outcome := by
  induction bound generalizing p with
  | zero => exact rounds_mono (Nat.zero_le _) h
  | succ bound ih =>
    by_cases hne : p.rest = []
    · rw [rounds, if_pos hne] at h
      cases hlength : p.rest.length <;> rw [rounds, if_pos hne, h]
    · by_cases hshort : p.rest.length < 4
      · rw [rounds_eq_none hne hshort] at h
        cases h
      · obtain ⟨n, hn⟩ : ∃ n, p.rest.length = n + 1 := ⟨p.rest.length - 1, by omega⟩
        rw [rounds, if_neg hne] at h
        rw [hn, rounds, if_neg hne]
        split at h
        case h_1 fault hround => exact h
        case h_2 q hround =>
          have hlt := length_of_round hround (by omega)
          exact rounds_mono (by omega) (ih h)

end Rounds

section Calls

variable {c} {c' : CNetworkClientPull Request} {answers : List (Request × CClientMessageResponse)}

@[simp] theorem length_waiting : c.waiting.length = c.pullBuffer.usedSize :=
  CCommunicationBuffer.length_front _

/-- What a call leaves that reads the messages. -/
def afterCall (c : CNetworkClientPull Request) (messages : List CClientMessage) :
    CNetworkClientPull Request :=
  { c with matching := (ids messages).foldl OrderedMap.erase c.matching }.clearResponses

theorem exists_getResponseAndClear_iff :
    (∃ bound, c.getResponseAndClear bound = some (.ok (answers, c'))) ↔
      Readable c.matching c.waiting ∧ answers = c.answersTo c.matching (scan c.waiting).1 ∧
        c' = c.afterCall (scan c.waiting).1 := by
  have hends : (∃ bound, c.getResponseAndClear bound = some (.ok (answers, c'))) ↔
      ∃ p, c.Ends ⟨c.waiting, c.matching, []⟩ p ∧ p.requestResponse = answers ∧
        { c with matching := p.matching }.clearResponses = c' := by
    unfold getResponseAndClear Ends
    constructor
    · rintro ⟨bound, hbound⟩
      obtain ⟨outcome, houtcome, heq⟩ := Option.map_eq_some_iff.mp hbound
      cases outcome with
      | error fault => cases heq
      | ok p =>
        cases heq
        exact ⟨p, ⟨bound, houtcome⟩, rfl, rfl⟩
    · rintro ⟨p, ⟨bound, hbound⟩, rfl, rfl⟩
      refine ⟨bound, ?_⟩
      rw [hbound]
      rfl
  rw [hends]
  simp only [ends_iff]
  constructor
  · rintro ⟨p, ⟨hreadable, rfl⟩, rfl, rfl⟩
    exact ⟨hreadable, List.nil_append _, rfl⟩
  · rintro ⟨hreadable, rfl, rfl⟩
    exact ⟨_, ⟨hreadable, rfl⟩, List.nil_append _, rfl⟩

theorem returns_iff : c.Returns ↔ Readable c.matching c.waiting := by
  have hcomm : c.Returns ↔
      ∃ answers c', ∃ bound, c.getResponseAndClear bound = some (.ok (answers, c')) :=
    ⟨fun ⟨bound, answers, c', h⟩ => ⟨answers, c', bound, h⟩,
      fun ⟨answers, c', bound, h⟩ => ⟨bound, answers, c', h⟩⟩
  rw [hcomm]
  simp only [exists_getResponseAndClear_iff]
  exact ⟨fun ⟨_, _, hreadable, _⟩ => hreadable, fun hreadable => ⟨_, _, hreadable, rfl, rfl⟩⟩

theorem getResponseAndClear_usedSize {bound : ℕ}
    {outcome : Except ParsingFault (List (Request × CClientMessageResponse) × CNetworkClientPull Request)}
    (h : c.getResponseAndClear bound = some outcome) :
    c.getResponseAndClear c.pullBuffer.usedSize = some outcome := by
  obtain ⟨parsed, hparsed, rfl⟩ := Option.map_eq_some_iff.mp h
  have hlength := rounds_length hparsed
  rw [length_waiting] at hlength
  rw [getResponseAndClear, hlength]
  rfl

theorem getResponseAndClear_eq_some_iff :
    c.getResponseAndClear c.pullBuffer.usedSize = some (.ok (answers, c')) ↔
      Readable c.matching c.waiting ∧ answers = c.answersTo c.matching (scan c.waiting).1 ∧
        c' = c.afterCall (scan c.waiting).1 := by
  rw [← exists_getResponseAndClear_iff]
  exact ⟨fun h => ⟨_, h⟩, fun ⟨_, h⟩ => getResponseAndClear_usedSize h⟩

end Calls

section Reading

variable {c} {socket : Bytes}

/-- The bytes that fit follow those that wait. -/
def appended (c : CNetworkClientPull Request) (taken : Bytes) : CNetworkClientPull Request :=
  { c with pullBuffer := { c.pullBuffer.fill c.pullBuffer.usedSize taken with
      usedSize := c.pullBuffer.usedSize + taken.length } }

theorem waiting_appended (taken : Bytes) : (c.appended taken).waiting = c.waiting ++ taken :=
  CCommunicationBuffer.front_fill

theorem readLoop_of_le {bytesAvail bound : ℕ} {s : CCommunicationBuffer × Bytes}
    (h : bytesAvail ≤ s.1.usedSize) : readLoop bytesAvail bound s = s := by
  cases bound with
  | zero => rfl
  | succ bound => exact if_neg (Nat.not_lt_of_le h)

theorem read_of_lt (hlt : c.pullBuffer.usedSize < socket.length)
    (hmax : socket.length < maxBufferSize) : c.read socket.length socket =
      (c.appended (socket.take (maxBufferSize - c.pullBuffer.usedSize)),
        socket.drop (maxBufferSize - c.pullBuffer.usedSize)) := by
  obtain ⟨n, hn⟩ : ∃ n, socket.length = n + 1 := ⟨socket.length - 1, by omega⟩
  have hloop : readLoop socket.length socket.length (c.pullBuffer, socket) =
      ((c.appended (socket.take (maxBufferSize - c.pullBuffer.usedSize))).pullBuffer,
        socket.drop (maxBufferSize - c.pullBuffer.usedSize)) := by
    conv_lhs => arg 2; rw [hn]
    rw [readLoop, if_pos hlt, readLoop_of_le]
    · rfl
    · change _ ≤ c.pullBuffer.usedSize + (socket.take _).length
      rw [List.length_take]
      omega
  rw [read, if_pos (by omega), if_neg (Nat.not_le_of_lt hmax), hloop]
  rfl

theorem read_of_le (h : socket.length ≤ c.pullBuffer.usedSize ∨ maxBufferSize ≤ socket.length) :
    c.read socket.length socket = (c, socket) := by
  unfold read
  split
  · split
    · rfl
    case isFalse hmax => rw [readLoop_of_le (h.resolve_right hmax)]
  · rfl

theorem read_zero : c.read 0 socket = (c, socket) := rfl

theorem matching_read (bytesAvail : ℕ) : (c.read bytesAvail socket).1.matching = c.matching := by
  unfold read
  split
  · split <;> rfl
  · rfl

end Reading

end CNetworkClientPull

end Dims
